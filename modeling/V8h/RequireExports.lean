import V8h.RequireOnce
import V8h.RequireText
/-!
# RequireExports — the global `exports`

The wrapper of a file sets the global `exports` to a new object and returns what the global is when the body has run.
Nothing sets it back, so after a `require` that loads a file the global is the object of that file: a body that loads
another file goes on with the other's object, and returns it.  The modules of an acyclic graph have their own objects
exactly when none is loaded while another is (`exports_separate_iff`).
-/
namespace V8h

/-- A statement of a module body. -/
inductive Stmt where
  | assign (key : JsString) (v : Value)
  | require (name : JsString)
deriving DecidableEq

namespace Stmt

/-- A call whose exceptions are not caught. -/
def perform (op : Op) (next : Value → Body) : Body := .call op fun
  | .ok v    => next v
  | .error e => .fail e

/-- `exports.key = v`, `require name`, and `;return exports;` at the end. -/
def program : List Stmt → Body
  | []                     => perform .getExports .done
  | .assign key v :: stmts => perform .getExports fun o => perform (.set o key v) fun _ => program stmts
  | .require name :: stmts => perform (.require name) fun _ => program stmts

/-- `(function(){;exports={};` before the statements. -/
def wrapper (stmts : List Stmt) : Body := perform .newObject fun o => perform (.setExports o) fun _ => program stmts

/-- The properties an object has after the assignments of a body. -/
def assigned (stmts : List Stmt) (properties : JsString → Option Value) : JsString → Option Value :=
  stmts.foldl (fun t stmt => match stmt with
    | .assign key v => Function.update t key (some v)
    | .require _    => t) properties

/-- The properties a body assigns. -/
def table (stmts : List Stmt) : JsString → Option Value := assigned stmts fun _ => none

end Stmt

open Modules in
/-- An acyclic module graph: what the files that `realpath` gives have for bodies, in texts that `System::require` reads
whole, and a rank that is lower for what a body requires. -/
structure Graph [V8] (host : Host) where
  stmts   : JsString → List Stmt
  path    : JsString → AbsolutePath
  content : JsString → List UInt8
  rank    : JsString → Nat
  bytes   : ∀ name r, host.realpath name = some r → (V8.utf8 r).takeWhile (· ≠ 0) = (path r).bytes
  file    : ∀ name r, host.realpath name = some r → host.file (path r).bytes = .stream (content r) none
  whole   : ∀ name r, host.realpath name = some r → (content r).length ≤ System.room
  compile : ∀ name r, host.realpath name = some r →
    host.compile (V8.fromUtf8 (System.opening ++ content r ++ System.closing)) = some (Stmt.wrapper (stmts r))
  edge    : ∀ name r, host.realpath name = some r → ∀ name', .require name' ∈ stmts r →
    ∃ r', resolve host (some (V8.fromUtf8 (path r).dir)) name' = some r' ∧ rank r' < rank r

namespace Modules

open Effect

variable [V8] {host : Host} {callee : JsString → L Value} {s s' s₁ : Modules} {name r : JsString}

/-! ## What a call and a body do -/

/-- The entries are objects, and the marks of the files being loaded. -/
def Healthy (s : Modules) : Prop := ∀ k v, s.requiredFiles k = some v →
  (v = .one ∧ k ∈ s.history.loading) ∨ ∃ o, v = .object o

/-- What holds however much is loaded: every load gives an object, and no file is required while it is loaded. -/
structure Steady (host : Host) (s s' : Modules) : Prop where
  dir     : s'.currentDir = s.currentDir
  loading : s'.history.loading = s.history.loading
  healthy : Healthy s'
  loads   : s.history.loads <:+ s'.history.loads
  results : ∀ l ∈ s'.history.loads, l ∈ s.history.loads ∨ ∃ o, l.result = .ok (.object o)
  calls   : ∀ c ∈ s'.history.calls, c ∈ s.history.calls ∨
    ∀ r, resolve host c.dir c.name = some r → r ∉ c.loading

omit [V8] in
theorem Steady.refl (h : Healthy s) : Steady host s s :=
  ⟨rfl, rfl, h, List.suffix_refl _, fun _ hl => .inl hl, fun _ hc => .inl hc⟩

omit [V8] in
theorem Steady.trans (h : Steady host s s₁) (h' : Steady host s₁ s') : Steady host s s' where
  dir         := h'.dir.trans h.dir
  loading     := h'.loading.trans h.loading
  healthy     := h'.healthy
  loads       := h.loads.trans h'.loads
  results l hl := (h'.results l hl).elim (h.results l) .inr
  calls c hc   := (h'.calls c hc).elim (h.calls c) .inr

/-- What a call that leads to a file did: nothing to the objects, or it loaded the file.  In that case `exports` is the
object of the file, which is a new one with its properties, or the object of another file that was loaded inside. -/
inductive CallDid (g : Graph host) (r : JsString) (s s' : Modules) : Prop where
  | hit    (loads : s'.history.loads = s.history.loads) (exports : s'.exports = s.exports)
      (objects : s'.objects = s.objects) (next : s'.nextObject = s.nextObject)
  | loaded (l : Load) (ls : List Load) (o : Nat) (loads : s'.history.loads = l :: ls) (filename : l.filename = r)
      (within : l.within = s.history.loading) (result : l.result = .ok (.object o))
      (exports : s'.exports = some (.object o)) (before : s.history.loads <:+ ls)
      (body : (ls = s.history.loads ∧ o = s.nextObject ∧ s'.nextObject = o + 1 ∧
          s'.objects = Function.update s.objects o (Stmt.table (g.stmts r))) ∨
        ∃ l' ∈ ls, l'.within = r :: s.history.loading ∧ l'.result = l.result ∧ l'.filename ≠ r)

/-- What the statements of a body did that began with the object `o` as `exports`. -/
inductive BodyDid (g : Graph host) (o : Nat) (stmts : List Stmt) (v : Value) (s s' : Modules) : Prop where
  | quiet (loads : s'.history.loads = s.history.loads) (next : s'.nextObject = s.nextObject)
      (objects : s'.objects = Function.update s.objects o (Stmt.assigned stmts (s.objects o)))
      (value : v = .object o)
  | noisy (l : Load) (ls : List Load) (loads : s'.history.loads = l :: ls) (before : s.history.loads <:+ ls)
      (within : l.within = s.history.loading) (lower : ∀ q ∈ s.history.loading, g.rank l.filename < g.rank q)
      (result : l.result = .ok v)

/-- The names in a body lead to files of a lower rank than `n` and than all that is being loaded. -/
def Lower (g : Graph host) (n : Nat) (s : Modules) (r : JsString) : Prop :=
  g.rank r < n ∧ ∀ q ∈ s.history.loading, g.rank r < g.rank q

/-- **What a call of `require` does.** -/
def CallSpec (g : Graph host) (n : Nat) (callee : JsString → L Value) : Prop :=
  ∀ (name : JsString) (s : Modules) (r : JsString), Healthy s → resolve host s.currentDir name = some r →
    Lower g n s r → ∃ v s', callee name s = .ok v s' ∧ Steady host s s' ∧ CallDid g r s s'

omit [V8] in
theorem run_perform {op : Op} {next : Value → Body} {v : Value} (h : exec callee op s = .ok v s₁) :
    run callee (Stmt.perform op next) s = run callee (next v) s₁ := Dialog.run_call_ok h

/-- **What the statements of a body do.** -/
theorem program_did {g : Graph host} {n : Nat} (hcall : CallSpec g n callee) : ∀ (stmts : List Stmt) (s : Modules)
    (o : Nat), Healthy s → s.exports = some (.object o) →
    (∀ name, .require name ∈ stmts → ∃ r, resolve host s.currentDir name = some r ∧ Lower g n s r) →
    ∃ v s', run callee (Stmt.program stmts) s = .ok v s' ∧ Steady host s s' ∧ BodyDid g o stmts v s s' ∧
      s'.exports = some v ∧ ∃ o', v = .object o'
  | [], s, o, hs, ho, _ => by
    have hget : exec callee .getExports s = .ok (.object o) s := by simp only [exec, ho]
    refine ⟨.object o, s, run_perform hget, .refl hs, .quiet rfl rfl ?_ rfl, ho, o, rfl⟩
    rw [Stmt.assigned, List.foldl_nil, Function.update_eq_self]
  | .assign key v :: stmts, s, o, hs, ho, hreq => by
    have hget : exec callee .getExports s = .ok (.object o) s := by simp only [exec, ho]
    let s₁ : Modules := { s with
      objects := Function.update s.objects o (Function.update (s.objects o) key (some v)) }
    have hset : exec callee (.set (.object o) key v) s = .ok v s₁ := rfl
    obtain ⟨v', s', hrun, hsteady, hdid, hexports⟩ := program_did hcall stmts s₁ o hs ho
      fun name hin => hreq name (List.mem_cons_of_mem _ hin)
    refine ⟨v', s', ?_, ⟨hsteady.dir, hsteady.loading, hsteady.healthy, hsteady.loads, hsteady.results, hsteady.calls⟩,
      ?_, hexports⟩
    · rw [Stmt.program, run_perform hget, run_perform hset, hrun]
    · cases hdid with
      | quiet h1 h2 h3 h4 =>
        refine .quiet h1 h2 ?_ h4
        rw [h3]
        show Function.update (Function.update s.objects o _) o
          (Stmt.assigned stmts (Function.update s.objects o _ o)) = _
        rw [Function.update_idem, Function.update_self]
        rfl
      | noisy l ls h1 h2 h3 h4 h5 => exact .noisy l ls h1 h2 h3 h4 h5
  | .require name :: stmts, s, o, hs, ho, hreq => by
    obtain ⟨r, hres, hlow⟩ := hreq name (List.mem_cons_self ..)
    obtain ⟨v₁, s₁, hcallee, hsteady₁, hdid₁⟩ := hcall name s r hs hres hlow
    have hreq₁ : ∀ name, .require name ∈ stmts → ∃ r, resolve host s₁.currentDir name = some r ∧ Lower g n s₁ r := by
      intro name' hin
      unfold Lower
      rw [hsteady₁.dir, hsteady₁.loading]
      exact hreq name' (List.mem_cons_of_mem _ hin)
    have hperform : ∀ {next : Value → Body},
        run callee (Stmt.perform (.require name) next) s = run callee (next v₁) s₁ :=
      run_perform hcallee
    cases hdid₁ with
    | hit h1 h2 h3 h4 =>
      obtain ⟨v', s', hrun, hsteady, hdid, hexports⟩ :=
        program_did hcall stmts s₁ o hsteady₁.healthy (h2.trans ho) hreq₁
      refine ⟨v', s', hperform.trans hrun, hsteady₁.trans hsteady, ?_, hexports⟩
      cases hdid with
      | quiet h5 h6 h7 h8 => exact .quiet (h5.trans h1) (h6.trans h4) (by rw [h7, h3]; rfl) h8
      | noisy l ls h5 h6 h7 h8 h9 =>
        exact .noisy l ls h5 (h1 ▸ h6) (h7.trans hsteady₁.loading) (hsteady₁.loading ▸ h8) h9
    | loaded l ls o' h1 h2 h3 h4 h5 h6 _ =>
      obtain ⟨v', s', hrun, hsteady, hdid, hexports⟩ := program_did hcall stmts s₁ o' hsteady₁.healthy h5 hreq₁
      refine ⟨v', s', hperform.trans hrun, hsteady₁.trans hsteady, ?_, hexports⟩
      cases hdid with
      | quiet h7 h8 h9 h10 =>
        exact .noisy l ls (h7.trans h1) h6 h3 (fun q hq => h2 ▸ hlow.2 q hq) (h4.trans (congrArg Except.ok h10.symm))
      | noisy l' ls' h7 h8 h9 h10 h11 =>
        have hbefore : s.history.loads <:+ ls' := (h6.trans (List.suffix_cons ..)).trans (h1 ▸ h8)
        exact .noisy l' ls' h7 hbefore (h9.trans hsteady₁.loading) (hsteady₁.loading ▸ h10) h11

theorem graph_body (g : Graph host) {path : JsString} (hp : host.realpath path = some r) :
    HasBody host r (V8.fromUtf8 (g.path r).dir) (Stmt.wrapper (g.stmts r)) := by
  have hbytes := g.bytes path r hp
  refine ⟨g.content r, none, System.wrapped (g.content r), (g.path r).dir, ?_, ?_, ?_, ?_, rfl⟩
  · rw [hbytes, g.file path r hp]
  · rw [System.readText_eq, if_neg (fun h => nomatch h.1)]
  · rw [System.wrapped, List.take_of_length_le (g.whole path r hp), g.compile path r hp]
  · rw [hbytes, (g.path r).dirname_eq]

/-- The state in which the statements of a file begin, with a new object as `exports`. -/
def begun (s : Modules) (filename dir : JsString) : Modules :=
  let s := s.enter filename dir
  { s with
    objects := Function.update s.objects s.nextObject fun _ => none
    nextObject := s.nextObject + 1
    exports := some (.object s.nextObject) }

omit [V8] in
theorem wrapper_run (stmts : List Stmt) (filename dir : JsString) :
    run callee (Stmt.wrapper stmts) (s.enter filename dir) = run callee (Stmt.program stmts) (s.begun filename dir) :=
  (run_perform rfl).trans (run_perform rfl)

omit [V8] in
theorem eq_of_update {f : JsString → Option Value} {k : JsString} {a v : Value}
    (h : Function.update f k (some a) k = some v) : v = a := by
  rw [Function.update_self] at h
  exact (Option.some.inj h).symm

omit [V8] in
theorem begun_healthy (h : Healthy s) (filename dir : JsString) : Healthy (s.begun filename dir) := by
  intro k v hv
  by_cases he : k = filename
  · subst he
    exact .inl ⟨eq_of_update hv, List.mem_cons_self ..⟩
  · have hv : s.requiredFiles k = some v := (Function.update_of_ne he ..).symm.trans hv
    exact (h k v hv).imp_left fun ⟨h1, hin⟩ => ⟨h1, List.mem_cons_of_mem _ hin⟩

/-- **What the load of a file does.** -/
theorem loadFile_did {g : Graph host} {n : Nat} (hcall : CallSpec g n callee) {path : JsString}
    (hp : host.realpath path = some r) (hs : Healthy s) (hlow : Lower g (n + 1) s r) :
    ∃ o s', loadFile host callee r s = .ok (.object o) s' ∧ Steady host s s' ∧ CallDid g r s s' := by
  obtain ⟨v, s₃, hrun, hsteady, hdid, hexports, o, rfl⟩ := program_did hcall (g.stmts r)
    (s.begun r (V8.fromUtf8 (g.path r).dir)) s.nextObject (begun_healthy hs r _) rfl (by
      intro name hin
      obtain ⟨r', hres, hrank⟩ := g.edge path r hp name hin
      refine ⟨r', hres, by have := hlow.1; omega, fun q hq => ?_⟩
      rcases List.mem_cons.1 hq with rfl | hq
      · exact hrank
      · exact Nat.lt_trans hrank (hlow.2 q hq))
  have hloading : s₃.history.loading = r :: s.history.loading := hsteady.loading
  have hload := loadFile_run callee s (graph_body g hp)
  rw [wrapper_run, hrun] at hload
  refine ⟨o, _, hload, ⟨rfl, rfl, fun k v hv => ?_, ?_, ?_, ?_⟩, ?_⟩
  · by_cases he : k = r
    · subst he
      exact .inr ⟨o, eq_of_update hv⟩
    · have hv : s₃.requiredFiles k = some v := (Function.update_of_ne he ..).symm.trans hv
      refine (hsteady.healthy k v hv).imp_left fun ⟨h1, hin⟩ => ⟨h1, ?_⟩
      exact (List.mem_cons.1 (hloading ▸ hin)).resolve_left he
  · exact hsteady.loads.trans (List.suffix_cons ..)
  · intro l hl
    rcases List.mem_cons.1 hl with rfl | hl
    · exact .inr ⟨o, rfl⟩
    · exact hsteady.results l hl
  · exact hsteady.calls
  · refine .loaded _ s₃.history.loads o rfl rfl rfl rfl hexports hsteady.loads ?_
    cases hdid with
    | quiet h1 h2 h3 h4 =>
      left
      have ho : o = s.nextObject := by simpa using h4
      refine ⟨h1, ho, ?_, ?_⟩
      · rw [ho]
        exact h2
      · show s₃.objects = _
        rw [h3, ho]
        show Function.update (Function.update s.objects s.nextObject _) s.nextObject
          (Stmt.assigned (g.stmts r) (Function.update s.objects s.nextObject (fun _ => none) s.nextObject)) = _
        rw [Function.update_idem, Function.update_self]
        rfl
    | noisy l ls h1 h2 h3 h4 h5 =>
      right
      refine ⟨l, h1 ▸ List.mem_cons_self .., h3, h5, fun he => ?_⟩
      have := h4 r (List.mem_cons_self ..)
      rw [he] at this
      exact Nat.lt_irrefl _ this

omit [V8] in
theorem Steady.called (h : Steady host s s') (hc : ∀ r, resolve host s.currentDir name = some r → r ∉ s.history.loading)
    (result : Except Stop Value) : Steady host s (called s name result s') := by
  refine ⟨h.dir, h.loading, h.healthy, h.loads, h.results, fun c hin => ?_⟩
  rcases List.mem_cons.1 hin with rfl | hin
  · exact .inr hc
  · exact h.calls c hin

omit [V8] in
theorem Steady.cache {o : Nat} (h : Steady host s s') (k : JsString) :
    Steady host s (s'.cache k (.object o)) := by
  refine ⟨h.dir, h.loading, fun k' v hv => ?_, h.loads, h.results, h.calls⟩
  by_cases he : k' = k
  · subst he
    exact .inr ⟨o, eq_of_update hv⟩
  · exact h.healthy k' v ((Function.update_of_ne he ..).symm.trans hv)

theorem CallDid.same {g : Graph host} {s₂ : Modules} (h : CallDid g r s s') (hl : s₂.history.loads = s'.history.loads)
    (he : s₂.exports = s'.exports) (ho : s₂.objects = s'.objects) (hn : s₂.nextObject = s'.nextObject) :
    CallDid g r s s₂ := by
  cases h with
  | hit h1 h2 h3 h4 => exact .hit (hl.trans h1) (he.trans h2) (ho.trans h3) (hn.trans h4)
  | loaded l ls o h1 h2 h3 h4 h5 h6 h7 =>
    refine .loaded l ls o (hl.trans h1) h2 h3 h4 (he.trans h5) h6 (h7.imp_left ?_)
    exact fun ⟨h8, h9, h10, h11⟩ => ⟨h8, h9, hn.trans h10, ho.trans h11⟩

/-- **What a call does at every depth.** -/
theorem load_did (g : Graph host) : ∀ (n : Nat), CallSpec g n (load host n)
  | 0 => fun name s r _ _ hlow => absurd hlow.1 (Nat.not_lt_zero _)
  | n + 1 => fun name s r hs hres hlow => by
    obtain ⟨path, ht, hp⟩ := resolve_eq_some hres
    have hnot : ∀ r', resolve host s.currentDir name = some r' → r' ∉ s.history.loading := by
      intro r' hres' hin
      cases hres.symm.trans hres'
      exact Nat.lt_irrefl _ (hlow.2 r hin)
    have hreq := require_run host (load host n) name s
    have habs := requireAbsolute_run host (load host n) path s
    simp only [hp] at habs
    rw [load]
    unfold call
    by_cases hkey : Known (s.requiredFiles (originalFileName s.currentDir name))
    · rw [if_pos hkey] at hreq
      exact ⟨_, _, by rw [hreq], (Steady.refl hs).called hnot _, .hit rfl rfl rfl rfl⟩
    · rw [if_neg hkey] at hreq
      simp only [ht] at hreq
      by_cases hk : Known (s.requiredFiles r)
      · obtain ⟨v, hv, -⟩ := known_iff.1 hk
        have hobject : ∃ o, v = .object o :=
          (hs r v hv).resolve_left fun h => Nat.lt_irrefl _ (hlow.2 r h.2)
        obtain ⟨o, rfl⟩ := hobject
        have hone : ¬ s.requiredFiles r = some .one := by
          rw [hv]
          rintro ⟨⟩
        rw [if_pos hk, if_neg hone, hv] at habs
        simp only [habs] at hreq
        exact ⟨.object o, _, by rw [hreq]; rfl, ((Steady.refl hs).cache _).called hnot _, .hit rfl rfl rfl rfl⟩
      · obtain ⟨o, s', hload, hsteady, hdid⟩ := loadFile_did (load_did g n) hp hs hlow
        rw [if_neg hk, hload] at habs
        simp only [habs] at hreq
        exact ⟨_, _, by rw [hreq], (hsteady.cache _).called hnot _, hdid.same rfl rfl rfl rfl⟩

/-! ## A run of requires -/

/-- Every load gave an object with the properties its file assigns, and the loads of different files different ones. -/
def Separate (g : Graph host) (s : Modules) : Prop := ∀ l ∈ s.history.loads,
  ∃ o, l.result = .ok (.object o) ∧ s.objects o = Stmt.table (g.stmts l.filename) ∧
    ∀ l' ∈ s.history.loads, l'.result = l.result → l'.filename = l.filename

/-- No file was loaded while another was. -/
def Unnested (H : History) : Prop := ∀ l ∈ H.loads, l.within = []

/-- Two files have one object, and one was loaded inside the other. -/
structure Mixed (s : Modules) : Prop where
  nested : ∃ l ∈ s.history.loads, l.within ≠ []
  shared : ∃ l ∈ s.history.loads, ∃ l' ∈ s.history.loads, l'.result = l.result ∧ l'.filename ≠ l.filename

/-- The modules have their own objects, older than what comes next. -/
structure Apart (g : Graph host) (s : Modules) : Prop where
  unnested : Unnested s.history
  separate : Separate g s
  older    : ∀ l ∈ s.history.loads, ∀ o, l.result = .ok (.object o) → o < s.nextObject

/-- **One call of the main script.** -/
theorem CallDid.mixed_or_apart {g : Graph host} (h : CallDid g r s s') (hloading : s.history.loading = [])
    (hs : Mixed s ∨ Apart g s) : Mixed s' ∨ Apart g s' := by
  cases h with
  | hit h1 h2 h3 h4 =>
    refine hs.imp (fun hm => ⟨h1 ▸ hm.nested, h1 ▸ hm.shared⟩) fun ha => ⟨?_, ?_, ?_⟩
    · unfold Unnested
      rw [h1]
      exact ha.unnested
    · unfold Separate
      rw [h1, h3]
      exact ha.separate
    · rw [h1, h4]
      exact ha.older
  | loaded l ls o h1 h2 h3 h4 h5 h6 h7 =>
    have hin : ∀ l' ∈ ls, l' ∈ s'.history.loads := fun l' hl => h1 ▸ List.mem_cons_of_mem l hl
    have hold : ∀ l' ∈ s.history.loads, l' ∈ s'.history.loads := fun l' hl => hin l' (h6.subset hl)
    have hhead : l ∈ s'.history.loads := h1 ▸ List.mem_cons_self ..
    rcases hs with ⟨⟨l₁, hl₁, hw⟩, l₂, hl₂, l₃, hl₃, hrest⟩ | ha
    · exact .inl ⟨⟨l₁, hold l₁ hl₁, hw⟩, l₂, hold l₂ hl₂, l₃, hold l₃ hl₃, hrest⟩
    · rcases h7 with ⟨h8, h9, h10, h11⟩ | ⟨l', hl', hw, hres, hne⟩
      · right
        have hloads : s'.history.loads = l :: s.history.loads := h1.trans (congrArg _ h8)
        have hfresh : ∀ l₁ ∈ s.history.loads, l₁.result ≠ .ok (.object o) := fun l₁ hl₁ he =>
          Nat.lt_irrefl _ (h9 ▸ ha.older l₁ hl₁ o he)
        refine ⟨fun l₁ hl₁ => ?_, fun l₁ hl₁ => ?_, fun l₁ hl₁ o₁ ho₁ => ?_⟩
        · rcases List.mem_cons.1 (hloads ▸ hl₁) with rfl | hl₁
          · exact h3.trans hloading
          · exact ha.unnested l₁ hl₁
        · rcases List.mem_cons.1 (hloads ▸ hl₁) with rfl | hl₁
          · refine ⟨o, h4, by rw [h11, Function.update_self, h2], fun l₂ hl₂ he => ?_⟩
            rcases List.mem_cons.1 (hloads ▸ hl₂) with rfl | hl₂
            · rfl
            · exact absurd (he.trans h4) (hfresh l₂ hl₂)
          · obtain ⟨o₁, ho₁, htable, hother⟩ := ha.separate l₁ hl₁
            have hne : o₁ ≠ o := fun he => hfresh l₁ hl₁ (he ▸ ho₁)
            refine ⟨o₁, ho₁, by rw [h11, Function.update_of_ne hne, htable], fun l₂ hl₂ he => ?_⟩
            rcases List.mem_cons.1 (hloads ▸ hl₂) with rfl | hl₂
            · exact absurd (he.symm.trans h4) (hfresh l₁ hl₁)
            · exact hother l₂ hl₂ he
        · rw [h10]
          rcases List.mem_cons.1 (hloads ▸ hl₁) with rfl | hl₁
          · have he : o = o₁ := by simpa using h4.symm.trans ho₁
            omega
          · have := ha.older l₁ hl₁ o₁ ho₁
            omega
      · left
        exact ⟨⟨l', hin l' hl', by simp [hw]⟩, l, hhead, l', hin l' hl', hres, h2 ▸ hne⟩

/-- **A run of requires.** -/
theorem requiring_did {g : Graph host} {n : Nat} : ∀ (names : List JsString) (s : Modules), Healthy s →
    s.history.loading = [] → Mixed s ∨ Apart g s →
    (∀ name ∈ names, ∃ r, resolve host s.currentDir name = some r ∧ g.rank r < n) →
    ∃ v s', run (load host n) (requiring names) s = .ok v s' ∧ Steady host s s' ∧ (Mixed s' ∨ Apart g s')
  | [], s, hs, _, hm, _ => ⟨_, s, rfl, .refl hs, hm⟩
  | name :: names, s, hs, hl, hm, hnames => by
    obtain ⟨r, hres, hrank⟩ := hnames name (List.mem_cons_self ..)
    obtain ⟨v₁, s₁, hcall, hsteady₁, hdid⟩ :=
      load_did g n name s r hs hres ⟨hrank, fun q hq => nomatch (hl ▸ hq : q ∈ [])⟩
    have hnames₁ : ∀ name ∈ names, ∃ r, resolve host s₁.currentDir name = some r ∧ g.rank r < n := by
      rw [hsteady₁.dir]
      exact fun name' hin => hnames name' (List.mem_cons_of_mem _ hin)
    obtain ⟨v, s', hrun, hsteady, hend⟩ := requiring_did names s₁ hsteady₁.healthy (hsteady₁.loading.trans hl)
      (hdid.mixed_or_apart hl hm) hnames₁
    have hfirst : run (load host n) (requiring (name :: names)) s = run (load host n) (requiring names) s₁ :=
      Dialog.run_call_ok hcall
    exact ⟨v, s', hfirst.trans hrun, hsteady₁.trans hsteady, hend⟩

theorem separate_iff {g : Graph host} (h : Mixed s ∨ Apart g s) : Separate g s ↔ Unnested s.history := by
  rcases h with ⟨⟨l, hl, hw⟩, l₁, hl₁, l₂, hl₂, hres, hne⟩ | ha
  · refine ⟨fun hs => ?_, fun hu => absurd (hu l hl) hw⟩
    obtain ⟨o, -, -, hother⟩ := hs l₁ hl₁
    exact absurd (hother l₂ hl₂ hres) hne
  · exact ⟨fun _ => ha.unnested, fun _ => ha.separate⟩

theorem exists_rank (g : Graph host) (dir : Option JsString) : ∀ (names : List JsString),
    ∃ n, ∀ name ∈ names, ∀ r, resolve host dir name = some r → g.rank r < n
  | [] => ⟨0, fun _ h => nomatch h⟩
  | name :: names => by
    obtain ⟨n, hn⟩ := exists_rank g dir names
    refine ⟨max n (((resolve host dir name).map g.rank).getD 0 + 1), fun name' hin r hres => ?_⟩
    rcases List.mem_cons.1 hin with rfl | hin
    · rw [hres, Option.map_some, Option.getD_some]
      omega
    · have := hn name' hin r hres
      omega

/-- Every call that leads to a file returns what the load of the file gave. -/
def CallsAgree (host : Host) (H : History) (r : JsString) : Prop :=
  ∀ c ∈ H.calls, resolve host c.dir c.name = some r → ∃ l ∈ H.loads, l.filename = r ∧ c.result = l.result

/-- **The modules of an acyclic graph have their own objects exactly when none is loaded while another is**: for every
graph and every sequence of names that lead to files, from some depth on, the main script ends; each load gave an object
of its own with the properties its file assigns if and only if no load was inside another; and every `require` of a file
with unambiguous names returns what its load gave. -/
theorem exports_separate_iff (g : Graph host) (dir : Option JsString) (names : List JsString)
    (hnames : ∀ name ∈ names, (resolve host dir name).isSome) :
    ∃ n, ∀ fuel, n ≤ fuel → ∃ v s, run (load host fuel) (requiring names) (start dir) = .ok v s ∧
      (Separate g s ↔ Unnested s.history) ∧ ∀ r, Unambiguous host s.history r → CallsAgree host s.history r := by
  obtain ⟨n, hn⟩ := exists_rank g dir names
  refine ⟨n, fun fuel hfuel => ?_⟩
  have hrank : ∀ name ∈ names, ∃ r, resolve host dir name = some r ∧ g.rank r < fuel := fun name hin => by
    obtain ⟨r, hres⟩ := Option.isSome_iff_exists.1 (hnames name hin)
    exact ⟨r, hres, Nat.lt_of_lt_of_le (hn name hin r hres) hfuel⟩
  have hstart : Apart g (start dir) := ⟨(fun _ h => nomatch h), (fun _ h => nomatch h), (fun _ h => nomatch h)⟩
  obtain ⟨v, s, hrun, hsteady, hend⟩ := requiring_did names (start dir) (fun _ _ h => nomatch h) rfl (.inr hstart) hrank
  refine ⟨v, s, hrun, separate_iff hend, fun r hun c hc hres => ?_⟩
  have hafter : after (run (load host fuel) (requiring names)) (start dir) = s := by rw [after, hrun]
  have hclean : Clean host s.history r := by
    refine ⟨hun, fun l hl _ => ?_, fun c hc hres => ?_⟩
    · obtain ⟨o, ho⟩ := (hsteady.results l hl).resolve_left fun h => nomatch h
      exact ⟨.object o, ho, rfl, fun h => nomatch h⟩
    · exact (hsteady.calls c hc).resolve_left (fun h => nomatch h) r hres
  obtain ⟨hphase, hloading⟩ := once_final host dir (requiring names) fuel r (by rw [hafter]; exact hclean)
  rw [hafter] at hphase hloading
  cases hphase with
  | absent h1 h2 h3 h4 => exact absurd hres (h4 c hc)
  | loading h1 =>
    rw [hloading] at h1
    cases h1
  | loaded w h1 h2 h3 h4 h5 hload h6 =>
    obtain ⟨l, hl, hname, hresult⟩ := hload
    exact ⟨l, hl, hname, (h6 c hc hres).trans hresult.symm⟩

/-- The statements of `/a`, which requires `/b`, and of `/b`. -/
def twoFiles (r : JsString) : List Stmt :=
  if r = js "/b" then [.assign (js "z") (.bool true)]
  else [.assign (js "x") (.bool true), .require (js "./b"), .assign (js "y") (.bool true)]

def twoBodies : List (JsString × Body) :=
  [(js "/a", Stmt.wrapper (twoFiles (js "/a"))), (js "/b", Stmt.wrapper (twoFiles (js "/b")))]

omit [V8] in
theorem twoBodies_realpath {name r : JsString} (h : (disk twoBodies).realpath name = some r) :
    r = js "/a" ∨ r = js "/b" := by
  have hr : (twoBodies.lookup r).isSome := by
    have h : (if (twoBodies.lookup (47 :: (name.reverse.takeWhile (· ≠ 47)).reverse)).isSome then
      some (47 :: (name.reverse.takeWhile (· ≠ 47)).reverse) else none) = some r := h
    split at h
    · rename_i hs
      cases h
      exact hs
    · cases h
  by_contra hne
  obtain ⟨ha, hb⟩ := not_or.1 hne
  rw [twoBodies, List.lookup_cons, beq_eq_false_iff_ne.2 ha, List.lookup_cons, beq_eq_false_iff_ne.2 hb] at hr
  cases hr

/-- The graph of the two files. -/
def twoGraph : @Graph ascii (disk twoBodies) :=
  letI := ascii
  { stmts   := twoFiles
    path    := fun r => if r = js "/b" then .ofByte 98 (by decide) else .ofByte 97 AbsolutePath.a_ne_slash
    content := V8.utf8
    rank    := fun r => if r = js "/b" then 0 else 1
    bytes   := fun name r h => by rcases twoBodies_realpath h with rfl | rfl <;> decide +kernel
    file    := fun name r h => by rcases twoBodies_realpath h with rfl | rfl <;> rfl
    whole   := fun name r h => by rcases twoBodies_realpath h with rfl | rfl <;> decide +kernel
    compile := fun name r h => by rcases twoBodies_realpath h with rfl | rfl <;> rfl
    edge    := fun name r h name' hin => by
      rcases twoBodies_realpath h with rfl | rfl
      · have hname : name' = js "./b" := by
          have : twoFiles (js "/a") =
            [.assign (js "x") (.bool true), .require (js "./b"), .assign (js "y") (.bool true)] := by decide +kernel
          simpa [this] using hin
        subst hname
        exact ⟨js "/b", by decide +kernel, by decide +kernel⟩
      · have : twoFiles (js "/b") = [.assign (js "z") (.bool true)] := by decide +kernel
        simp [this] at hin }

omit [V8] in
theorem exports_separate_iff_two : ∃ n, ∀ fuel, n ≤ fuel → ∃ v s,
    run (@load ascii (disk twoBodies) fuel) (requiring [js "/b", js "/a"]) (start none) = .ok v s ∧
    (@Separate ascii _ twoGraph s ↔ Unnested s.history) ∧
    ∀ r, Unambiguous (disk twoBodies) s.history r → CallsAgree (disk twoBodies) s.history r :=
  @exports_separate_iff ascii _ twoGraph none [js "/b", js "/a"] (by decide +kernel)

omit [V8] in
/-- **A file that requires another between two assignments** returns the object of the other, with half of its own
properties. -/
theorem exports_mixed :
    let s := ended twoBodies (requiring [js "/a"])
    s.history.loads.map (fun l => (l.filename, l.result)) =
      [(js "/a", .ok (.object 1)), (js "/b", .ok (.object 1))] ∧
    [js "x", js "y", js "z"].map (s.objects 1) = [none, some (.bool true), some (.bool true)] := by
  decide +kernel

end Modules
end V8h
