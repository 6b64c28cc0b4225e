import V8h.RequireCache
/-!
# RequireLoop — the mark of a file that is being loaded

The mark is looked for under the real path alone.  So a `require` of a file that is being loaded fails unless the table
has something for the very name it was made with (`cyclic_require_iff`), and a load that throws leaves its mark in the
table, where no later `require` of the file gets past it (`failed_load_iff`).
-/
namespace V8h
namespace Modules

open Effect

variable [V8] {host : Host} {callee : JsString → L Value} {s s' : Modules} {name : JsString}

/-! ## Cyclic requires -/

/-- A `require` of a file that is being loaded fails, and a mark is not returned as exports. -/
structure CallFails (host : Host) (c : Call) : Prop where
  loop   : ∀ r, resolve host c.dir c.name = some r → r ∈ c.loading → c.result = .error (loopRequire r)
  noMark : ¬ (c.marked = true ∧ c.result = .ok .one)

/-- The table has no mark for the name of a call, and nothing at all when the file is being loaded. -/
structure CallClear (host : Host) (c : Call) : Prop where
  noMark  : c.marked = false
  noEntry : ∀ r, resolve host c.dir c.name = some r → r ∈ c.loading → ¬ Known c.entry

/-- The entries that are marks, and the files being loaded among them. -/
structure Marked (s : Modules) : Prop where
  one     : ∀ k, s.history.marked k = true → s.requiredFiles k = some .one
  loading : ∀ r ∈ s.history.loading, s.history.marked r = true

omit [V8] in
theorem Marked.known {k : JsString} (h : Marked s) (hk : s.history.marked k = true) : Known (s.requiredFiles k) := by
  rw [h.one k hk]
  rfl

omit [V8] in
theorem Marked.notLoading {k : JsString} (h : Marked s) (hk : ¬ Known (s.requiredFiles k)) : k ∉ s.history.loading :=
  fun hin => hk (h.known (h.loading k hin))

/-- **The mark is seen** when the table has nothing for the name of the call. -/
theorem require_one {r : JsString} (hk : ¬ Known (s.requiredFiles (originalFileName s.currentDir name)))
    (hr : resolve host s.currentDir name = some r) (hone : s.requiredFiles r = some .one) :
    require host callee name s = .error (loopRequire r) s := by
  obtain ⟨path, ht, hp⟩ := resolve_eq_some hr
  have hknown : Known (s.requiredFiles r) := by
    rw [hone]
    rfl
  have habs := requireAbsolute_run host callee path s
  simp only [hp, if_pos hknown, if_pos hone] at habs
  rw [require_run, if_neg hk]
  simp only [ht, habs]

theorem require_loop {r : JsString} (h : Marked s) (hk : ¬ Known (s.requiredFiles (originalFileName s.currentDir name)))
    (hr : resolve host s.currentDir name = some r) (hin : r ∈ s.history.loading) :
    require host callee name s = .error (loopRequire r) s := require_one hk hr (h.one r (h.loading r hin))

/-- **What a call does, by what the table has for its name.** -/
theorem call_fails_iff {result : Except Stop Value} (h : Marked s) (hr : Gives (require host callee name) s result s') :
    CallFails host (s.record name result) ↔ CallClear host (s.record name result) := by
  by_cases hk : Known (s.requiredFiles (originalFileName s.currentDir name))
  · have hret : Gives (require host callee name) s
        (.ok ((s.requiredFiles (originalFileName s.currentDir name)).getD .undefined)) s := by
      rw [Gives, require_run, if_pos hk]
    obtain ⟨rfl, rfl⟩ := hr.unique hret
    constructor
    · rintro ⟨hloop, hno⟩
      refine ⟨?_, fun r hr hin => nomatch hloop r hr hin⟩
      rw [← Bool.not_eq_true]
      exact fun hm => hno ⟨hm, by rw [h.one _ hm]; rfl⟩
    · rintro ⟨hno, habsent⟩
      exact ⟨fun r hr hin => absurd hk (habsent r hr hin), fun hm => nomatch hno.symm.trans hm.1⟩
  · have hno : s.history.marked (originalFileName s.currentDir name) = false := by
      rw [← Bool.not_eq_true]
      exact fun hm => hk (h.known hm)
    refine ⟨fun _ => ⟨hno, fun _ _ _ => hk⟩, fun _ => ⟨fun r hres hin => ?_, fun hm => nomatch hno.symm.trans hm.1⟩⟩
    have hthrow : Gives (require host callee name) s (.error (loopRequire r)) s := require_loop h hk hres hin
    exact (hr.unique hthrow).1

omit [V8] in
/-- An entry is set that no file being loaded has. -/
theorem Marked.cache {k : JsString} (h : Marked s) (hk : k ∉ s.history.loading) (v : Value) : Marked (s.cache k v) := by
  refine ⟨fun k' hm => ?_, fun r hin => ?_⟩
  · by_cases he : k' = k
    · simp [Modules.cache, he] at hm
    · have hm : s.history.marked k' = true := by simpa only [Modules.cache, Function.update_of_ne he] using hm
      exact (Function.update_of_ne he ..).trans (h.one k' hm)
  · have hne : r ≠ k := fun he => hk (he ▸ hin)
    exact (Function.update_of_ne hne ..).trans (h.loading r hin)

omit [V8] in
theorem Marked.mark (h : Marked s) (filename : JsString) : Marked (s.mark filename) := by
  refine ⟨fun k hm => ?_, fun r hin => ?_⟩
  · by_cases he : k = filename
    · rw [he]
      exact Function.update_self ..
    · have hm : s.history.marked k = true := by simpa only [Modules.mark, Function.update_of_ne he] using hm
      exact (Function.update_of_ne he ..).trans (h.one k hm)
  · by_cases he : r = filename
    · rw [he]
      exact Function.update_self ..
    · have hin : r ∈ s.history.loading := (List.mem_cons.1 hin).resolve_left he
      exact (Function.update_of_ne he ..).trans (h.loading r hin)

/-- The table is marked well, and every call so far failed when it should and only then. -/
structure Told (host : Host) (s : Modules) : Prop extends Marked s where
  calls : ∀ c ∈ s.history.calls, CallFails host c ↔ CallClear host c

theorem Told.called {s₁ : Modules} (result : Except Stop Value) (h : Told host s') (hs : Marked s)
    (hr : Gives (require host callee name) s result s₁) (hs₁ : Marked s₁)
    (hcalls : s₁.history.calls = s'.history.calls) : Told host (called s name result s₁) := by
  refine ⟨⟨hs₁.one, hs₁.loading⟩, fun c hc => ?_⟩
  rcases List.mem_cons.1 hc with rfl | hc
  · exact call_fails_iff hs hr
  · exact h.calls c (hcalls ▸ hc)

theorem told_closed (host : Host) : Closed host (Told host) where
  other h h' hs := ⟨⟨fun k hm => by rw [h]; exact hs.one k (h' ▸ hm), fun r hin => by
    rw [h'] at hin ⊢
    exact hs.loading r hin⟩, h' ▸ hs.calls⟩
  enter _ hs := ⟨⟨(hs.mark _).one, (hs.mark _).loading⟩, hs.calls⟩
  loaded {s s' r dir v} hk hs hgrow hs' := by
    have hmarked : Marked (s.leave r (.ok v) s') := ⟨hs'.one, fun r' hin => hs'.loading r' ?_⟩
    · exact ⟨hmarked.cache (hs.notLoading hk) v, hs'.calls⟩
    · rw [hgrow.loading]
      exact List.mem_cons_of_mem r hin
  threw {s s' r dir e} _ _ hgrow hs' := by
    refine ⟨⟨hs'.one, fun r' hin => hs'.loading r' ?_⟩, hs'.calls⟩
    rw [hgrow.loading]
    exact List.mem_cons_of_mem r hin
  failed {s r e} _ hs :=
    ⟨⟨(hs.mark r).one, fun r' hin => (hs.mark r).loading r' (List.mem_cons_of_mem r hin)⟩, hs.calls⟩
  hit {s name v} he hv hs := by
    have hk : Known (s.requiredFiles (originalFileName s.currentDir name)) := known_iff.2 ⟨v, he, hv⟩
    have hr : Gives (require host (load host 0) name) s (.ok v) s := by
      rw [Gives, require_run, if_pos hk, he]
      rfl
    exact hs.called (.ok v) hs.toMarked hr hs.toMarked rfl
  refused {s s' name e callee} _ hs hr _ hs' := hs'.called (.error e) hs.toMarked hr hs'.toMarked rfl
  returned {s s' name r v callee} hk hs hr _ hgrow _ hs' :=
    hs'.called (.ok v) hs.toMarked hr (hs'.cache (by rw [hgrow.loading]; exact hs.notLoading hk) v) rfl

/-- **Cyclic requires fail exactly where the name they are made with is not in the table**, for every file system, every
program that starts in an empty table, and every depth of loads. -/
theorem cyclic_require_iff (host : Host) (dir : Option JsString) (main : Body) (fuel : Nat) :
    ∀ c ∈ (after (run (load host fuel) main) (start dir)).history.calls, CallFails host c ↔ CallClear host c := by
  have hstart : Told host (start dir) := ⟨⟨(fun _ h => nomatch h), (fun _ h => nomatch h)⟩, (fun _ h => nomatch h)⟩
  exact ((told_closed host).after fuel main hstart).calls

/-- A file system whose directories are all the root, with some files that have their paths as texts. -/
def disk (files : List (JsString × Body)) : Host where
  realpath path     :=
    let path := 47 :: (path.reverse.takeWhile (· ≠ 47)).reverse
    if (files.lookup path).isSome then some path else none
  fileExists path   := (files.lookup path).isSome
  includePath       := []
  file path         :=
    if path.length < 4096 ∧ (files.lookup (ascii.fromUtf8 path)).isSome then .stream path none else .missing []
  compile text      := (files.find? fun (path, _) => text =
    ascii.fromUtf8 (literal "(function()\x7b;exports=\x7b\x7d;" ++ ascii.utf8 path ++
      literal ";return exports;\x7d).call(this);")).map
      Prod.snd
  path_max path _ _ h := by
    split at h
    · rename_i h'
      exact h'.1
    · cases h

/-- A body that requires some names, one after the other, and ends with a string. -/
def requiring : List JsString → Body
  | []            => .done (.string [])
  | name :: names => .call (.require name) fun
    | .ok _    => requiring names
    | .error e => .fail e

/-- The state after the scripts of a disk have run. -/
def ended (files : List (JsString × Body)) (main : Body) : Modules :=
  after (run (@load ascii (disk files) 9) main) (start none)

omit [V8] in
theorem cyclic_require_iff_self :
    ∃ c ∈ (ended [(js "/a.js", requiring [js "./a.js"])] (requiring [js "/a.js"])).history.calls,
      js "/a.js" ∈ c.loading ∧ CallFails (disk [(js "/a.js", requiring [js "./a.js"])]) c := by
  have h : ∃ c ∈ (ended [(js "/a.js", requiring [js "./a.js"])] (requiring [js "/a.js"])).history.calls,
      js "/a.js" ∈ c.loading ∧ c.marked = false ∧ ¬ Known c.entry := by decide +kernel
  obtain ⟨c, hc, hin, hno, hentry⟩ := h
  have hiff :=
    @cyclic_require_iff ascii (disk [(js "/a.js", requiring [js "./a.js"])]) none (requiring [js "/a.js"]) 9 c hc
  exact ⟨c, hc, hin, hiff.2 ⟨hno, fun _ _ _ => hentry⟩⟩

omit [V8] in
/-- **A file that requires itself by its real path** gets 1. -/
theorem mark_returned :
    ∃ c ∈ (ended [(js "/a.js", requiring [js "/a.js"])] (requiring [js "/a.js"])).history.calls,
      resolve (disk [(js "/a.js", requiring [js "/a.js"])]) c.dir c.name = some (js "/a.js") ∧
      js "/a.js" ∈ c.loading ∧ c.result = .ok .one := by
  decide +kernel

/-! ## Loads that throw -/

/-- The entry of the file a name leads to is what it was. -/
def EntryKept (host : Host) (s : Modules) (name : JsString) (s' : Modules) : Prop :=
  ∀ r, resolve host s.currentDir name = some r → s'.requiredFiles r = s.requiredFiles r

/-- No file is opened for a name: there is none, or the table has an entry for it. -/
def Unopened (host : Host) (s : Modules) (name : JsString) : Prop :=
  ∀ r, resolve host s.currentDir name = some r → Known (s.requiredFiles r)

/-- Whatever runs later, and whatever the files are by then, the script of a file does not run again, and a name that
leads to the file and is not in the table itself is taken for a loop. -/
structure Stuck (s : Modules) (r : JsString) : Prop where
  ran  : ∀ (host : Host) (fuel : Nat) (main : Body),
    (after (run (load host fuel) main) s).history.ran.count r = s.history.ran.count r
  loop : ∀ (host : Host) (fuel : Nat) (main : Body) (n : Nat) (name : JsString),
    let s' := after (run (load host fuel) main) s
    resolve host s'.currentDir name = some r → ¬ Known (s'.requiredFiles (originalFileName s'.currentDir name)) →
      ∃ s'', load host (n + 1) name s' = .error (loopRequire r) s''

theorem stuck_of_one {r : JsString} (h : s.requiredFiles r = some .one) : Stuck s r := by
  have hk : Known (s.requiredFiles r) := by
    rw [h]
    rfl
  have hgrow : ∀ (host : Host) (fuel : Nat) (main : Body), Grows s (after (run (load host fuel) main) s) :=
    fun host fuel main => (run_grows (load_grows host fuel) main).after s
  refine ⟨fun host fuel main => (hgrow host fuel main).ran r hk, fun host fuel main n name hres hkey => ?_⟩
  have hg := hgrow host fuel main
  obtain ⟨path, ht, hp⟩ := resolve_eq_some hres
  have hone := (hg.entry r hk).trans h
  have habs := requireAbsolute_run host (load host n) path (after (run (load host fuel) main) s)
  simp only [hp, if_pos (hg.known hk), if_pos hone] at habs
  have hreq := require_run host (load host n) name (after (run (load host fuel) main) s)
  rw [if_neg hkey] at hreq
  simp only [ht, habs] at hreq
  exact ⟨_, by rw [load, call, hreq]⟩

/-- **The mark stays** when a load fails. -/
theorem loadFile_error {r : JsString} {e : Stop} (hgrows : ∀ name, Within Grows (callee name))
    (h : loadFile host callee r s = .error e s') : s'.requiredFiles r = some .one := by
  rcases loadFile_cases host callee r s with ⟨dir, body, hbody⟩ | ⟨e', he⟩
  · rw [loadFile_run _ _ hbody] at h
    have hone : (s.enter r dir).requiredFiles r = some .one := Function.update_self ..
    have hk : Known ((s.enter r dir).requiredFiles r) := by
      rw [hone]
      rfl
    cases hb : run callee body (s.enter r dir) with
    | ok v s₂ => rw [hb] at h; cases h
    | error e₂ s₂ =>
      rw [hb] at h
      cases h
      exact (((run_grows hgrows body).error hb).entry r hk).trans hone
  · rw [he] at h
    cases h
    exact Function.update_self ..

/-- **A load that throws leaves its file marked.** -/
theorem load_error_marked {fuel : Nat} {r : JsString} {e : JsError} (h : load host fuel name s = .error (.throw e) s')
    (hr : resolve host s.currentDir name = some r) (hk : ¬ Known (s.requiredFiles r)) :
    s'.requiredFiles r = some .one := by
  cases fuel with
  | zero => cases h
  | succ fuel =>
    obtain ⟨path, ht, hp⟩ := resolve_eq_some hr
    have hreq := require_run host (load host fuel) name s
    have habs := requireAbsolute_run host (load host fuel) path s
    simp only [hp, if_neg hk] at habs
    rw [load, call] at h
    by_cases hkey : Known (s.requiredFiles (originalFileName s.currentDir name))
    · rw [if_pos hkey] at hreq
      rw [hreq] at h
      cases h
    · rw [if_neg hkey] at hreq
      simp only [ht, habs] at hreq
      cases hf : loadFile host (load host fuel) r s with
      | ok v s₂ =>
        simp only [hf] at hreq
        rw [hreq] at h
        cases h
      | error e₂ s₂ =>
        simp only [hf] at hreq
        rw [hreq] at h
        cases h
        have hone : s₂.requiredFiles r = some .one := loadFile_error (load_grows host fuel) hf
        exact hone

/-- **A require that throws leaves the entry of its file as it was exactly when it opened no file.**  Otherwise the file
cannot be required again. -/
theorem failed_load_iff (host : Host) (fuel : Nat) (name : JsString) (s s' : Modules) (e : JsError)
    (h : load host fuel name s = .error (.throw e) s') :
    (EntryKept host s name s' ↔ Unopened host s name) ∧
      ∀ r, resolve host s.currentDir name = some r → ¬ Known (s.requiredFiles r) → Stuck s' r := by
  refine ⟨⟨fun hkept r hr => ?_, fun hun r hr => ?_⟩, fun r hr hk => stuck_of_one (load_error_marked h hr hk)⟩
  · by_contra hk
    have hone := (hkept r hr).symm.trans (load_error_marked h hr hk)
    rw [hone] at hk
    exact hk rfl
  · exact ((load_grows host fuel name).error h).entry r (hun r hr)

omit [V8] in
theorem failed_load_iff_thrown : ∃ s',
    ¬ EntryKept (disk [(js "/a.js", .fail .typeError)]) (start none) (js "/a.js") s' ∧
      @Stuck ascii s' (js "/a.js") := by
  have h : answer (@load ascii (disk [(js "/a.js", .fail .typeError)]) 9 (js "/a.js")) (start none) =
      .error (.throw .typeError) := by decide +kernel
  have hres : resolve (disk [(js "/a.js", .fail .typeError)]) none (js "/a.js") = some (js "/a.js") := by decide +kernel
  have hgives := gives_after (@load ascii (disk [(js "/a.js", .fail .typeError)]) 9 (js "/a.js")) (start none)
  rw [h] at hgives
  obtain ⟨hiff, hstuck⟩ := @failed_load_iff ascii _ _ _ _ _ _ hgives
  refine ⟨_, fun hkept => ?_, hstuck _ hres (by decide)⟩
  cases hiff.1 hkept _ hres

omit [V8] in
/-- **A file that threw once** is taken for a loop when it would succeed. -/
theorem loop_after_failure :
    let s := ended [(js "/a.js", .fail .typeError)] (requiring [js "./a.js"])
    s.requiredFiles (js "/a.js") = some .one ∧
    answer (@load ascii (disk [(js "/a.js", .done (.string (js "a")))]) 9 (js "./a.js")) s =
      .error (loopRequire (js "/a.js")) := by
  decide +kernel

end Modules
end V8h
