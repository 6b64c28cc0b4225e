import V8h.Require
/-!
# RequireCache — what `require` does to its table

One equation for each function, what no run changes (`load_grows`), and the induction over nested loads
(`Closed.load`): a property of the table that is kept where a load begins, where it ends and where an entry is made is
kept by every run of the scripts.
-/
namespace V8h
namespace Modules

open Effect

variable [V8] {host : Host} {callee : JsString → L Value} {s s' : Modules} {name : JsString}

/-! ## Where a name leads -/

/-- The path `require` asks `requireAbsolute` for. -/
def target (host : Host) (dir : Option JsString) (name : JsString) : Option JsString :=
  if name.head? = some 47 then some name
  else if name.take 2 = js "./" then some (joinDir dir name)
  else findIncluded host name

/-- The file a name leads to. -/
def resolve (host : Host) (dir : Option JsString) (name : JsString) : Option JsString :=
  (target host dir name).bind host.realpath

def cannotFind (name : JsString) : Stop := .throw (.error (js "require: cannot find file " ++ name))

def loopRequire (filename : JsString) : Stop := .throw (.error (js "require: loop require " ++ filename))

theorem requireAbsolute_run (host : Host) (callee : JsString → L Value) (path : JsString) (s : Modules) :
    requireAbsolute host callee path s =
    match host.realpath path with
    | none   => .error (cannotFind path) s
    | some r =>
      if Known (s.requiredFiles r) then
        if s.requiredFiles r = some .one then .error (loopRequire r) s
        else .ok ((s.requiredFiles r).getD .undefined) s
      else loadFile host callee r s := by
  unfold requireAbsolute
  cases host.realpath path with
  | none => rfl
  | some r =>
    simp only [bind_run, get_run, ite_run]
    rfl

/-- **What a call of `require` does.** -/
theorem require_run (host : Host) (callee : JsString → L Value) (name : JsString) (s : Modules) :
    require host callee name s =
    if Known (s.requiredFiles (originalFileName s.currentDir name)) then
      .ok ((s.requiredFiles (originalFileName s.currentDir name)).getD .undefined) s
    else match target host s.currentDir name with
      | none      => .error (cannotFind name) s
      | some path =>
        match requireAbsolute host callee path s with
        | .ok exports s' => .ok exports (s'.cache (originalFileName s.currentDir name) exports)
        | .error e s'    => .error e s' := by
  simp only [require, bind_run, get_run, ite_run, pure_run, modify_run]
  split
  · rfl
  · unfold target requireRelative requireIncludePath
    split
    · dsimp only
      cases requireAbsolute host callee name s <;> rfl
    · split
      · simp only [bind_run, get_run]
        cases requireAbsolute host callee (joinDir s.currentDir name) s <;> rfl
      · cases findIncluded host name with
        | none => rfl
        | some path =>
          dsimp only
          cases requireAbsolute host callee path s <;> rfl

omit [V8] in
theorem resolve_eq_some {dir : Option JsString} {r : JsString} (h : resolve host dir name = some r) :
    ∃ path, target host dir name = some path ∧ host.realpath path = some r := by
  rwa [resolve, Option.bind_eq_some_iff] at h

/-! ## What is there stays -/

/-- What does not change of the entries that are there, while the same files are being loaded. -/
structure Grows (s s' : Modules) : Prop where
  entry   : ∀ k, Known (s.requiredFiles k) → s'.requiredFiles k = s.requiredFiles k
  marked  : ∀ k, Known (s.requiredFiles k) → s'.history.marked k = s.history.marked k
  ran     : ∀ k, Known (s.requiredFiles k) → s'.history.ran.count k = s.history.ran.count k
  loading : s'.history.loading = s.history.loading
  loads   : s.history.loads <:+ s'.history.loads
  calls   : s.history.calls <:+ s'.history.calls

omit [V8] in
theorem Grows.refl (s : Modules) : Grows s s :=
  ⟨fun _ _ => rfl, fun _ _ => rfl, fun _ _ => rfl, rfl, List.suffix_refl _, List.suffix_refl _⟩

omit [V8] in
theorem Grows.known {k : JsString} (h : Grows s s') (hk : Known (s.requiredFiles k)) : Known (s'.requiredFiles k) := by
  rwa [h.entry k hk]

omit [V8] in
theorem Grows.trans {s'' : Modules} (h : Grows s s') (h' : Grows s' s'') : Grows s s'' where
  entry k hk   := (h'.entry k (h.known hk)).trans (h.entry k hk)
  marked k hk  := (h'.marked k (h.known hk)).trans (h.marked k hk)
  ran k hk     := (h'.ran k (h.known hk)).trans (h.ran k hk)
  loading      := h'.loading.trans h.loading
  loads        := h.loads.trans h'.loads
  calls        := h.calls.trans h'.calls

/-- The state in which the script of a file runs. -/
def enter (s : Modules) (filename : JsString) (dir : JsString) : Modules :=
  runs filename { s.mark filename with currentDir := some dir }

/-- The state when the script of a file that was loaded from `s` has run. -/
def leave (s : Modules) (filename : JsString) (result : Except Stop Value) (s' : Modules) : Modules :=
  loaded s filename result { s' with currentDir := s.currentDir }

/-- The body a file has, and the directory it runs in. -/
def HasBody (host : Host) (filename : JsString) (dir : JsString) (body : Body) : Prop :=
  ∃ content failure text dirBytes,
    host.file ((V8.utf8 filename).takeWhile (· ≠ 0)) = .stream content failure ∧
    System.readText content failure = .ok (some text) ∧ host.compile (V8.fromUtf8 text) = some body ∧
    System.dirname ((V8.utf8 filename).takeWhile (· ≠ 0)) = .ok dirBytes ∧ dir = V8.fromUtf8 dirBytes

/-- **`System::_require` runs the body of a file in the directory of the file.** -/
theorem _require_run {filename dir : JsString} {body : Body} (h : HasBody host filename dir body) :
    _require host callee filename s =
      System.withDir dir (fun s => run callee body (s.runs filename)) s := by
  obtain ⟨content, failure, text, dirBytes, hfile, htext, hcompile, hdir, rfl⟩ := h
  simp only [_require, System.require, hfile, bind_run, System.lift, htext, hdir]
  rw [hcompile]
  rfl

/-- **A file has a body, or `System::_require` fails before a script runs.** -/
theorem _require_cases (host : Host) (callee : JsString → L Value) (filename : JsString) (s : Modules) :
    (∃ dir body, HasBody host filename dir body) ∨ ∃ e, _require host callee filename s = .error e s := by
  have hraise : ∀ message, ∃ e, (System.raise message : L Value) s = .error e s := fun message => by
    unfold System.raise
    split <;> exact ⟨_, rfl⟩
  unfold _require System.require
  cases hfile : host.file ((V8.utf8 filename).takeWhile (· ≠ 0)) with
  | missing strerror => exact .inr (hraise _)
  | stream content failure =>
    simp only [bind_run, System.lift]
    cases htext : System.readText content failure with
    | error t => exact .inr ⟨_, rfl⟩
    | ok text =>
      cases text with
      | none => exact .inr (hraise _)
      | some text =>
        simp only [bind_run]
        cases hdir : System.dirname ((V8.utf8 filename).takeWhile (· ≠ 0)) with
        | error t => exact .inr ⟨_, rfl⟩
        | ok dirBytes =>
          cases hcompile : host.compile (V8.fromUtf8 text) with
          | none => exact .inr ⟨_, rfl⟩
          | some body => exact .inl ⟨_, body, content, failure, text, dirBytes, hfile, htext, hcompile, hdir, rfl⟩

theorem loadFile_run (callee : JsString → L Value) (s : Modules) {filename dir : JsString} {body : Body}
    (h : HasBody host filename dir body) :
    loadFile host callee filename s =
      match run callee body (s.enter filename dir) with
      | .ok v s'    => .ok v ((s.leave filename (.ok v) s').cache filename v)
      | .error e s' => .error e (s.leave filename (.error e) s') := by
  unfold loadFile
  rw [_require_run h]
  show (match (match run callee body (s.enter filename dir) with
    | .ok v s'    => EStateM.Result.ok v { s' with currentDir := s.currentDir }
    | .error e s' => .error e { s' with currentDir := s.currentDir }) with
    | .ok exports s' => EStateM.Result.ok exports ((loaded s filename (.ok exports) s').cache filename exports)
    | .error e s'    => .error e (loaded s filename (.error e) s')) = _
  cases run callee body (s.enter filename dir) <;> rfl

/-- **A file has a body, or its load fails before a script runs.** -/
theorem loadFile_cases (host : Host) (callee : JsString → L Value) (filename : JsString) (s : Modules) :
    (∃ dir body, HasBody host filename dir body) ∨
      ∃ e, loadFile host callee filename s = .error e (loaded s filename (.error e) (s.mark filename)) := by
  refine (_require_cases host callee filename (s.mark filename)).imp_right fun ⟨e, he⟩ => ⟨e, ?_⟩
  rw [loadFile, he]

omit [V8] in
theorem Grows.cache {k : JsString} (h : Grows s s') (hk : ¬ Known (s.requiredFiles k)) (v : Value) :
    Grows s (s'.cache k v) := by
  have hne : ∀ k', Known (s.requiredFiles k') → k' ≠ k := fun k' hk' he => hk (he ▸ hk')
  refine ⟨fun k' hk' => ?_, fun k' hk' => ?_, h.ran, h.loading, h.loads, h.calls⟩
  · exact (Function.update_of_ne (hne k' hk') ..).trans (h.entry k' hk')
  · exact (Function.update_of_ne (hne k' hk') ..).trans (h.marked k' hk')

omit [V8] in
/-- A load of a file changes no other entry but for what its body does. -/
theorem Grows.loaded {filename : JsString} {s₁ : Modules} (h : Grows s₁ s') (hk : ¬ Known (s.requiredFiles filename))
    (hs : ∀ k, k ≠ filename → s₁.requiredFiles k = s.requiredFiles k ∧ s₁.history.marked k = s.history.marked k ∧
      s₁.history.ran.count k = s.history.ran.count k) (hl : s₁.history.loads = s.history.loads)
    (hc : s₁.history.calls = s.history.calls) (result : Except Stop Value) :
    Grows s (loaded s filename result s') := by
  have hother : ∀ k, Known (s.requiredFiles k) → k ≠ filename := fun k hk' he => hk (he ▸ hk')
  have hknown : ∀ k, Known (s.requiredFiles k) → Known (s₁.requiredFiles k) := fun k hk' => by
    rwa [(hs k (hother k hk')).1]
  refine ⟨fun k hk' => ?_, fun k hk' => ?_, fun k hk' => ?_, rfl,
    (hl ▸ h.loads).trans (List.suffix_cons ..), hc ▸ h.calls⟩
  · exact (h.entry k (hknown k hk')).trans (hs k (hother k hk')).1
  · exact (h.marked k (hknown k hk')).trans (hs k (hother k hk')).2.1
  · exact (h.ran k (hknown k hk')).trans (hs k (hother k hk')).2.2

omit [V8] in
theorem mark_other (s : Modules) {filename k : JsString} (h : k ≠ filename) :
    (s.mark filename).requiredFiles k = s.requiredFiles k ∧
    (s.mark filename).history.marked k = s.history.marked k ∧
    (s.mark filename).history.ran.count k = s.history.ran.count k :=
  ⟨Function.update_of_ne h .., Function.update_of_ne h .., rfl⟩

omit [V8] in
theorem enter_other (s : Modules) {filename k : JsString} (h : k ≠ filename) (dir : JsString) :
    (s.enter filename dir).requiredFiles k = s.requiredFiles k ∧
    (s.enter filename dir).history.marked k = s.history.marked k ∧
    (s.enter filename dir).history.ran.count k = s.history.ran.count k :=
  ⟨Function.update_of_ne h .., Function.update_of_ne h .., List.count_cons_of_ne (Ne.symm h)⟩

omit [V8] in
theorem Grows.of_eq (h : s'.requiredFiles = s.requiredFiles) (h' : s'.history = s.history) : Grows s s' :=
  ⟨fun _ _ => by rw [h], fun _ _ => by rw [h'], fun _ _ => by rw [h'], by rw [h'], by rw [h'], by rw [h']⟩

omit [V8] in
/-- Nothing but `require` touches the table. -/
theorem exec_frame (callee : JsString → L Value) {op : Op} (h : ∀ name, op ≠ .require name) :
    Within (fun s s' => s'.requiredFiles = s.requiredFiles ∧ s'.history = s.history ∧ s'.currentDir = s.currentDir)
      (exec callee op) := by
  cases op with
  | require name => exact absurd rfl (h name)
  | currentDir => exact ⟨fun hr => by cases hr; exact ⟨rfl, rfl, rfl⟩, fun hr => nomatch hr⟩
  | getExports =>
    refine ⟨fun {s _ _} hr => ?_, fun {s _ _} hr => ?_⟩ <;> simp only [exec] at hr <;> split at hr <;> cases hr <;>
      exact ⟨rfl, rfl, rfl⟩
  | setExports v => exact ⟨fun hr => by cases hr; exact ⟨rfl, rfl, rfl⟩, fun hr => nomatch hr⟩
  | newObject => exact ⟨fun hr => by cases hr; exact ⟨rfl, rfl, rfl⟩, fun hr => nomatch hr⟩
  | get o key =>
    refine ⟨fun {s _ _} hr => ?_, fun {s _ _} hr => ?_⟩ <;> simp only [exec] at hr <;> split at hr <;> cases hr <;>
      exact ⟨rfl, rfl, rfl⟩
  | set o key v =>
    refine ⟨fun {s _ _} hr => ?_, fun {s _ _} hr => ?_⟩ <;> simp only [exec] at hr <;> split at hr <;> cases hr <;>
      exact ⟨rfl, rfl, rfl⟩

omit [V8] in
/-- **A program grows the table if its calls of `require` do.** -/
theorem run_grows (hcallee : ∀ name, Within Grows (callee name)) (body : Body) : Within Grows (run callee body) := by
  refine Dialog.run_within Grows.refl (fun _ _ _ => Grows.trans) (fun op => ?_) body
  by_cases h : ∃ name, op = .require name
  · obtain ⟨name, rfl⟩ := h
    exact hcallee name
  · have hf := exec_frame callee fun name hop => h ⟨name, hop⟩
    exact ⟨fun hr => .of_eq (hf.ok hr).1 (hf.ok hr).2.1, fun hr => .of_eq (hf.error hr).1 (hf.error hr).2.1⟩

theorem loadFile_grows (hcallee : ∀ name, Within Grows (callee name)) {filename : JsString}
    (hk : ¬ Known (s.requiredFiles filename)) :
    Leads s (loadFile host callee filename) (fun _ s' => Grows s s') (fun _ s' => Grows s s') := by
  rcases loadFile_cases host callee filename s with ⟨dir, body, hbody⟩ | ⟨e, he⟩
  · have hrun := run_grows hcallee body
    have hleave : ∀ {s₂ : Modules} (result : Except Stop Value), Grows (s.enter filename dir) s₂ →
        Grows s (s.leave filename result s₂) := fun {s₂} result h =>
      have hdir : Grows s₂ { s₂ with currentDir := s.currentDir } := .of_eq rfl rfl
      Grows.loaded (h.trans hdir) hk (fun k hne => enter_other s hne dir) rfl rfl result
    cases h : run callee body (s.enter filename dir) with
    | ok v s₂ => exact .of_ok (by rw [loadFile_run _ _ hbody, h]) ((hleave _ (hrun.ok h)).cache hk v)
    | error e s₂ => exact .of_error (by rw [loadFile_run _ _ hbody, h]) (hleave _ (hrun.error h))
  · exact .of_error he (Grows.loaded (.refl _) hk (fun k hne => mark_other s hne) rfl rfl _)

theorem requireAbsolute_grows (host : Host) (hcallee : ∀ name, Within Grows (callee name)) (path : JsString) :
    Within Grows (requireAbsolute host callee path) := .of_leads fun s => by
  have hrun := requireAbsolute_run host callee path s
  cases hp : host.realpath path with
  | none =>
    simp only [hp] at hrun
    exact .of_error hrun (.refl s)
  | some r =>
    simp only [hp] at hrun
    by_cases hk : Known (s.requiredFiles r)
    · rw [if_pos hk] at hrun
      by_cases h1 : s.requiredFiles r = some .one
      · rw [if_pos h1] at hrun
        exact .of_error hrun (.refl s)
      · rw [if_neg h1] at hrun
        exact .of_ok hrun (.refl s)
    · rw [if_neg hk] at hrun
      exact .congr hrun (loadFile_grows hcallee hk)

theorem require_grows (host : Host) (hcallee : ∀ name, Within Grows (callee name)) (name : JsString) :
    Within Grows (require host callee name) := .of_leads fun s => by
  have hrun := require_run host callee name s
  by_cases hk : Known (s.requiredFiles (originalFileName s.currentDir name))
  · rw [if_pos hk] at hrun
    exact .of_ok hrun (.refl s)
  · rw [if_neg hk] at hrun
    cases ht : target host s.currentDir name with
    | none =>
      simp only [ht] at hrun
      exact .of_error hrun (.refl s)
    | some path =>
      have habs := (requireAbsolute_grows host hcallee path).leads s
      cases hr : requireAbsolute host callee path s with
      | ok v s' =>
        simp only [ht, hr] at hrun
        exact .of_ok hrun ((habs.ok hr).cache hk v)
      | error e s' =>
        simp only [ht, hr] at hrun
        exact .of_error hrun (habs.error hr)

omit [V8] in
theorem Grows.called (h : Grows s s') (s₀ : Modules) (name : JsString) (result : Except Stop Value) :
    Grows s (called s₀ name result s') :=
  ⟨h.entry, h.marked, h.ran, h.loading, h.loads, h.calls.trans (List.suffix_cons ..)⟩

theorem call_grows (host : Host) (hcallee : ∀ name, Within Grows (callee name)) (name : JsString) :
    Within Grows (call host callee name) := .of_leads fun s => by
  have hreq := (require_grows host hcallee name).leads s
  unfold call
  cases hr : require host callee name s with
  | ok v s' => exact .of_ok (by rw [hr]) ((hreq.ok hr).called ..)
  | error e s' => exact .of_error (by rw [hr]) ((hreq.error hr).called ..)

/-- **What is in the table stays as it is** whatever is required later. -/
theorem load_grows (host : Host) : ∀ (fuel : Nat) (name : JsString), Within Grows (load host fuel name)
  | 0, _ => .of_leads fun s => .of_error rfl (.refl s)
  | fuel + 1, name => call_grows host (load_grows host fuel) name

/-! ## What a run keeps -/

/-- `P` is kept by everything `require` does to the table and to the history. -/
structure Closed (host : Host) (P : Modules → Prop) : Prop where
  other  : ∀ {s s' : Modules}, s'.requiredFiles = s.requiredFiles → s'.history = s.history → P s → P s'
  enter  : ∀ {s : Modules} {r dir : JsString}, ¬ Known (s.requiredFiles r) → P s → P (s.enter r dir)
  loaded : ∀ {s s' : Modules} {r dir : JsString} {v : Value}, ¬ Known (s.requiredFiles r) → P s →
    Grows (s.enter r dir) s' → P s' → P ((s.leave r (.ok v) s').cache r v)
  threw  : ∀ {s s' : Modules} {r dir : JsString} {e : Stop}, ¬ Known (s.requiredFiles r) → P s →
    Grows (s.enter r dir) s' → P s' → P (s.leave r (.error e) s')
  failed : ∀ {s : Modules} {r : JsString} {e : Stop}, ¬ Known (s.requiredFiles r) → P s →
    P (Modules.loaded s r (.error e) (s.mark r))
  hit    : ∀ {s : Modules} {name : JsString} {v : Value},
    s.requiredFiles (originalFileName s.currentDir name) = some v → v.isSet = true → P s →
    P (called s name (.ok v) s)
  refused : ∀ {s s' : Modules} {name : JsString} {e : Stop} {callee : JsString → L Value},
    ¬ Known (s.requiredFiles (originalFileName s.currentDir name)) → P s →
    require host callee name s = .error e s' → Grows s s' → P s' → P (called s name (.error e) s')
  returned : ∀ {s s' : Modules} {name r : JsString} {v : Value} {callee : JsString → L Value},
    ¬ Known (s.requiredFiles (originalFileName s.currentDir name)) → P s →
    require host callee name s = .ok v (s'.cache (originalFileName s.currentDir name) v) →
    resolve host s.currentDir name = some r → Grows s s' → s'.requiredFiles r = some v → P s' →
    P (called s name (.ok v) (s'.cache (originalFileName s.currentDir name) v))

variable {P : Modules → Prop}

theorem Closed.run (h : Closed host P) (hcallee : ∀ name, Ends P (callee name) (fun _ => P) (fun _ => P))
    (body : Body) : Ends P (run callee body) (fun _ => P) (fun _ => P) := by
  refine Dialog.run_keeps (fun op => ?_) body
  by_cases hop : ∃ name, op = .require name
  · obtain ⟨name, rfl⟩ := hop
    exact hcallee name
  · refine (exec_frame callee fun name he => hop ⟨name, he⟩).keeps fun s s' hs hf => ?_
    exact h.other hf.1 hf.2.1 hs

theorem Closed.loadFile (h : Closed host P) (hcallee : ∀ name, Ends P (callee name) (fun _ => P) (fun _ => P))
    (hgrows : ∀ name, Within Grows (callee name)) {filename : JsString} (hk : ¬ Known (s.requiredFiles filename))
    (hs : P s) : Leads s (loadFile host callee filename) (fun _ => P) (fun _ => P) := by
  rcases loadFile_cases host callee filename s with ⟨dir, body, hbody⟩ | ⟨e, he⟩
  · have hkeep := h.run hcallee body
    have hgrow := run_grows hgrows body
    have henter : P (s.enter filename dir) := h.enter hk hs
    have hrun := loadFile_run callee s hbody
    cases hb : Modules.run callee body (s.enter filename dir) with
    | ok v s' =>
      simp only [hb] at hrun
      exact .of_ok hrun (h.loaded hk hs (hgrow.ok hb) (hkeep.ok henter hb))
    | error e s' =>
      simp only [hb] at hrun
      exact .of_error hrun (h.threw hk hs (hgrow.error hb) (hkeep.error henter hb))
  · exact .of_error he (h.failed hk hs)

theorem requireAbsolute_ok {path : JsString} {v : Value} (h : requireAbsolute host callee path s = .ok v s') :
    ∃ r, host.realpath path = some r ∧ s'.requiredFiles r = some v := by
  rw [requireAbsolute_run] at h
  cases hp : host.realpath path with
  | none => simp only [hp] at h; cases h
  | some r =>
    refine ⟨r, rfl, ?_⟩
    simp only [hp] at h
    split at h
    · rename_i hk
      split at h
      · cases h
      · cases h
        cases he : s.requiredFiles r with
        | none => rw [he] at hk; cases hk
        | some v => rfl
    · unfold Modules.loadFile at h
      split at h <;> cases h
      exact Function.update_self ..

theorem Closed.requireAbsolute (h : Closed host P) (hcallee : ∀ name, Ends P (callee name) (fun _ => P) (fun _ => P))
    (hgrows : ∀ name, Within Grows (callee name)) (path : JsString) (hs : P s) :
    Leads s (requireAbsolute host callee path) (fun _ => P) (fun _ => P) := by
  have hrun := requireAbsolute_run host callee path s
  cases hp : host.realpath path with
  | none =>
    simp only [hp] at hrun
    exact .of_error hrun hs
  | some r =>
    simp only [hp] at hrun
    by_cases hk : Known (s.requiredFiles r)
    · rw [if_pos hk] at hrun
      by_cases h1 : s.requiredFiles r = some .one
      · rw [if_pos h1] at hrun
        exact .of_error hrun hs
      · rw [if_neg h1] at hrun
        exact .of_ok hrun hs
    · rw [if_neg hk] at hrun
      exact .congr hrun (h.loadFile hcallee hgrows hk hs)

theorem Closed.call (h : Closed host P) (hcallee : ∀ name, Ends P (callee name) (fun _ => P) (fun _ => P))
    (hgrows : ∀ name, Within Grows (callee name)) (name : JsString) (hs : P s) :
    Leads s (call host callee name) (fun _ => P) (fun _ => P) := by
  have hrun := require_run host callee name s
  unfold Modules.call
  by_cases hk : Known (s.requiredFiles (originalFileName s.currentDir name))
  · rw [if_pos hk] at hrun
    obtain ⟨v, he, hv⟩ := known_iff.1 hk
    rw [he] at hrun
    exact .of_ok (a := v) (by rw [hrun]; rfl) (h.hit he hv hs)
  · rw [if_neg hk] at hrun
    cases ht : target host s.currentDir name with
    | none =>
      simp only [ht] at hrun
      exact .of_error (by rw [hrun]) (h.refused hk hs hrun (.refl s) hs)
    | some path =>
      have habs := h.requireAbsolute hcallee hgrows path hs
      have hgrow := requireAbsolute_grows host hgrows path
      cases hr : Modules.requireAbsolute host callee path s with
      | ok v s' =>
        simp only [ht, hr] at hrun
        obtain ⟨r, hp, hv⟩ := requireAbsolute_ok hr
        have hres : resolve host s.currentDir name = some r := by rw [resolve, ht, Option.bind_some, hp]
        exact .of_ok (by rw [hrun]) (h.returned hk hs hrun hres (hgrow.ok hr) hv (habs.ok hr))
      | error e s' =>
        simp only [ht, hr] at hrun
        exact .of_error (by rw [hrun]) (h.refused hk hs hrun (hgrow.error hr) (habs.error hr))

/-- **The induction over nested loads.** -/
theorem Closed.load (h : Closed host P) : ∀ (fuel : Nat) (name : JsString),
    Ends P (load host fuel name) (fun _ => P) (fun _ => P)
  | 0, _ => .throw fun _ hs => hs
  | fuel + 1, name =>
    have hcall : ∀ s, P s → Leads s (Modules.call host (Modules.load host fuel) name) (fun _ => P) (fun _ => P) :=
      fun _ hs => h.call (h.load fuel) (load_grows host fuel) name hs
    ⟨fun hs hr => (hcall _ hs).ok hr, fun hs hr => (hcall _ hs).error hr⟩

/-- **A run of the scripts keeps what is kept by everything `require` does.** -/
theorem Closed.after (h : Closed host P) (fuel : Nat) (main : Body) (hs : P s) :
    P (after (Modules.run (Modules.load host fuel) main) s) := (h.run (h.load fuel) main).after hs

end Modules
end V8h
