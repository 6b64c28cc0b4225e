import V8h.RequireLoop
/-!
# RequireOnce — one execution for each file

The table says `absent`, `loading` and `loaded` by the value itself.  A file whose script ends with anything but
`undefined`, `null` and 1 runs once, and every `require` that leads to it gets the same value (`required_once`), as long
as no two names in use have one key and lead to different files.
-/
namespace V8h

/-- The key `require` looks for first. -/
def Call.key (c : Call) : JsString := Modules.originalFileName c.dir c.name

namespace Modules

open Effect

variable [V8] {host : Host} {callee : JsString → L Value} {s s' : Modules} {name r : JsString} {H : History}

/-- In a run with the history `H`, no name that leads to a file has the key of another file, nor another file its
key. -/
structure Unambiguous (host : Host) (H : History) (r : JsString) : Prop where
  names : ∀ c ∈ H.calls, ∀ c' ∈ H.calls, c.key = c'.key → resolve host c.dir c.name = some r →
    ∀ r', resolve host c'.dir c'.name = some r' → r' = r
  files : ∀ c ∈ H.calls, resolve host c.dir c.name = some r → ∀ l ∈ H.loads, c.key = l.filename → l.filename = r
  path  : ∀ c ∈ H.calls, c.key = r → ∀ r', resolve host c.dir c.name = some r' → r' = r

/-- Every load of a file gave a value that the table can hold, and the file was not required while it was being
loaded. -/
structure Clean (host : Host) (H : History) (r : JsString) : Prop extends Unambiguous host H r where
  loads   : ∀ l ∈ H.loads, l.filename = r → ∃ v, l.result = .ok v ∧ v.isSet = true ∧ v ≠ .one
  acyclic : ∀ c ∈ H.calls, resolve host c.dir c.name = some r → r ∉ c.loading

/-- What happened in a state is part of what happens in the whole run. -/
structure Part (H : History) (s : Modules) : Prop where
  loads   : ∀ l ∈ s.history.loads, l ∈ H.loads
  calls   : ∀ c ∈ s.history.calls, c ∈ H.calls
  loading : ∀ k ∈ s.history.loading, ∃ l ∈ H.loads, l.filename = k

/-- Where an entry comes from: a file was or is being loaded, or a call returned it. -/
def Provenance (host : Host) (s : Modules) : Prop := ∀ k v, s.requiredFiles k = some v → v.isSet = true →
  (k ∈ s.history.loading ∨ ∃ l ∈ s.history.loads, l.filename = k) ∨
  ∃ c ∈ s.history.calls, c.key = k ∧ c.result = .ok v ∧ ∃ r', resolve host c.dir c.name = some r'

/-- What a file has gone through. -/
inductive Phase (host : Host) (r : JsString) (s : Modules) : Prop where
  | absent  (notLoading : r ∉ s.history.loading) (entry : s.requiredFiles r = none)
      (ran : s.history.ran.count r = 0) (calls : ∀ c ∈ s.history.calls, resolve host c.dir c.name ≠ some r)
  | loading (loading : r ∈ s.history.loading) (entry : s.requiredFiles r = some .one)
      (ran : s.history.ran.count r = 1) (calls : ∀ c ∈ s.history.calls, resolve host c.dir c.name ≠ some r)
  | loaded  (v : Value) (notLoading : r ∉ s.history.loading) (set : v.isSet = true) (one : v ≠ .one)
      (entry : s.requiredFiles r = some v) (ran : s.history.ran.count r = 1)
      (load : ∃ l ∈ s.history.loads, l.filename = r ∧ l.result = .ok v)
      (calls : ∀ c ∈ s.history.calls, resolve host c.dir c.name = some r → c.result = .ok v)

/-- The invariant of a run with the history `H`. -/
def Once (host : Host) (H : History) (r : JsString) (s : Modules) : Prop :=
  Part H s → Provenance host s ∧ Phase host r s

/-- A call that throws without a load leaves a load that threw in the history. -/
theorem require_error {e : Stop} (h : require host callee name s = .error e s')
    (hk : ¬ Known (s.requiredFiles (originalFileName s.currentDir name)))
    (hr : resolve host s.currentDir name = some r) (hnone : ¬ Known (s.requiredFiles r)) :
    ∃ l ∈ s'.history.loads, l.filename = r ∧ l.result = .error e := by
  obtain ⟨path, ht, hp⟩ := resolve_eq_some hr
  have hreq := require_run host callee name s
  have habs := requireAbsolute_run host callee path s
  simp only [hp, if_neg hnone] at habs
  rw [if_neg hk] at hreq
  simp only [ht, habs] at hreq
  rw [hreq] at h
  unfold loadFile at h
  cases hx : _require host callee r (s.mark r) with
  | ok v s₂ => simp only [hx] at h; cases h
  | error e₂ s₂ =>
    simp only [hx] at h
    cases h
    exact ⟨_, List.mem_cons_self .., rfl, rfl⟩

theorem require_known {v : Value} (hk : ¬ Known (s.requiredFiles (originalFileName s.currentDir name)))
    (hr : resolve host s.currentDir name = some r) (hv : s.requiredFiles r = some v) (hset : v.isSet = true)
    (hone : v ≠ .one) : ∃ s', require host callee name s = .ok v s' := by
  obtain ⟨path, ht, hp⟩ := resolve_eq_some hr
  have hreq := require_run host callee name s
  have habs := requireAbsolute_run host callee path s
  have hne : ¬ s.requiredFiles r = some .one := fun h => hone (Option.some.inj (hv.symm.trans h))
  simp only [hp, if_pos (known_iff.2 ⟨v, hv, hset⟩), if_neg hne] at habs
  rw [if_neg hk] at hreq
  simp only [ht, habs] at hreq
  exact ⟨_, by rw [hreq, hv]; rfl⟩

omit [V8] in
theorem Phase.same (h : Phase host r s) (hl : r ∈ s'.history.loading ↔ r ∈ s.history.loading)
    (he : s'.requiredFiles r = s.requiredFiles r) (hr : s'.history.ran.count r = s.history.ran.count r)
    (hloads : ∀ l ∈ s.history.loads, l ∈ s'.history.loads)
    (hc : ∀ c ∈ s'.history.calls, resolve host c.dir c.name = some r → c ∈ s.history.calls) : Phase host r s' := by
  cases h with
  | absent h1 h2 h3 h4 =>
    exact .absent (fun h => h1 (hl.1 h)) (he.trans h2) (hr.trans h3) fun c hin hres => h4 c (hc c hin hres) hres
  | loading h1 h2 h3 h4 =>
    exact .loading (hl.2 h1) (he.trans h2) (hr.trans h3) fun c hin hres => h4 c (hc c hin hres) hres
  | loaded v h1 h2 h3 h4 h5 hload h6 =>
    obtain ⟨l, hin, hrest⟩ := hload
    exact .loaded v (fun h => h1 (hl.1 h)) h2 h3 (he.trans h4) (hr.trans h5) ⟨l, hloads l hin, hrest⟩
      fun c hin hres => h6 c (hc c hin hres) hres

omit [V8] in
theorem Provenance.mono (h : Provenance host s)
    (he : ∀ k v, s'.requiredFiles k = some v → s.requiredFiles k = some v ∨
      k ∈ s'.history.loading ∨ ∃ l ∈ s'.history.loads, l.filename = k)
    (hl : ∀ k ∈ s.history.loading, k ∈ s'.history.loading ∨ ∃ l ∈ s'.history.loads, l.filename = k)
    (hloads : ∀ l ∈ s.history.loads, l ∈ s'.history.loads) (hcalls : ∀ c ∈ s.history.calls, c ∈ s'.history.calls) :
    Provenance host s' := by
  intro k v hv hset
  rcases he k v hv with hv | hin
  · rcases h k v hv hset with (hin | ⟨l, hin, he⟩) | ⟨c, hc, hkey, hres⟩
    · exact .inl (hl k hin)
    · exact .inl (.inr ⟨l, hloads l hin, he⟩)
    · exact .inr ⟨c, hcalls c hc, hkey, hres⟩
  · exact .inl hin

omit [V8] in
/-- The file whose load begins is absent, and is being loaded then. -/
theorem Once.enter {q dir : JsString} (hk : ¬ Known (s.requiredFiles q)) (h : Once host H r s) :
    Once host H r (s.enter q dir) := by
  intro hpart
  obtain ⟨hprov, hphase⟩ := h ⟨hpart.loads, hpart.calls, fun k hin => hpart.loading k (List.mem_cons_of_mem q hin)⟩
  refine ⟨hprov.mono (fun k v hv => ?_) (fun k hin => .inl (List.mem_cons_of_mem q hin)) (fun _ h => h)
    (fun _ h => h), ?_⟩
  · by_cases he : k = q
    · exact .inr (.inl (he ▸ List.mem_cons_self ..))
    · exact .inl ((Function.update_of_ne he ..).symm.trans hv)
  · by_cases he : r = q
    · subst he
      cases hphase with
      | absent h1 h2 h3 h4 =>
        have hcount : (s.enter r dir).history.ran.count r = 1 := by
          show (r :: s.history.ran).count r = 1
          rw [List.count_cons_self, h3]
        exact .loading (List.mem_cons_self ..) (Function.update_self ..) hcount h4
      | loading h1 h2 => exact absurd (known_iff.2 ⟨_, h2, rfl⟩) hk
      | loaded v h1 h2 h3 h4 => exact absurd (known_iff.2 ⟨v, h4, h2⟩) hk
    · obtain ⟨hentry, -, hran⟩ := enter_other s he dir
      refine hphase.same ?_ hentry hran (fun _ h => h) fun c hin _ => hin
      exact ⟨fun hin => (List.mem_cons.1 hin).resolve_left he, fun hin => List.mem_cons_of_mem q hin⟩

omit [V8] in
theorem Part.before {s₁ : Modules} (h : Part H s') (hl : s₁.history.loads <:+ s'.history.loads)
    (hc : s₁.history.calls <:+ s'.history.calls) (hin : ∀ k ∈ s₁.history.loading, k ∈ s'.history.loading) :
    Part H s₁ :=
  ⟨fun l h' => h.loads l (hl.subset h'), fun c h' => h.calls c (hc.subset h'), fun k h' => h.loading k (hin k h')⟩

omit [V8] in
/-- What is part of the run when the load of a file has ended, was it before the load and at the end of its script. -/
theorem Part.ended {q dir : JsString} {result : Except Stop Value} {s₂ : Modules} (h : Part H s₂)
    (hgrow : Grows (s.enter q dir) s') (hcalls : s₂.history.calls = s'.history.calls)
    (hloads : s₂.history.loads = ⟨q, s.history.loading, result⟩ :: s'.history.loads)
    (hloading : s₂.history.loading = s.history.loading) : Part H s' ∧ Part H s := by
  have hin : ⟨q, s.history.loading, result⟩ ∈ s₂.history.loads := hloads ▸ List.mem_cons_self ..
  have hloading' : s'.history.loading = q :: s.history.loading := hgrow.loading
  have hpart' : Part H s' := by
    refine ⟨fun l h' => h.loads l (hloads ▸ List.mem_cons_of_mem _ h'), fun c h' => h.calls c (hcalls ▸ h'),
      fun k h' => ?_⟩
    rcases List.mem_cons.1 (hloading' ▸ h') with rfl | h'
    · exact ⟨_, h.loads _ hin, rfl⟩
    · exact h.loading k (hloading ▸ h')
  exact ⟨hpart', hpart'.before hgrow.loads hgrow.calls fun k h' => hloading' ▸ List.mem_cons_of_mem _ h'⟩

omit [V8] in
/-- **The load of a file ends**, in `s'`, and the state after it is `s₂`. -/
theorem Once.ended {q dir : JsString} {result : Except Stop Value} {s₂ : Modules} (hclean : Clean host H r)
    (hk : ¬ Known (s.requiredFiles q)) (hs : Once host H r s) (hgrow : Grows (s.enter q dir) s') (h : Once host H r s')
    (hentry : ∀ k, k ≠ q → s₂.requiredFiles k = s'.requiredFiles k)
    (hresult : ∀ v, result = .ok v → s₂.requiredFiles q = some v)
    (hran : ∀ k, k ≠ q ∨ (∃ v, result = .ok v) → s₂.history.ran.count k = s'.history.ran.count k)
    (hcalls : s₂.history.calls = s'.history.calls)
    (hloads : s₂.history.loads = ⟨q, s.history.loading, result⟩ :: s'.history.loads)
    (hloading : s₂.history.loading = s.history.loading) :
    Once host H r s₂ := by
  intro hpart
  have hin : ⟨q, s.history.loading, result⟩ ∈ s₂.history.loads := hloads ▸ List.mem_cons_self ..
  have hloading' : s'.history.loading = q :: s.history.loading := hgrow.loading
  have hsub : ∀ l ∈ s'.history.loads, l ∈ s₂.history.loads := fun l h' => hloads ▸ List.mem_cons_of_mem _ h'
  obtain ⟨hpart', hpart₀⟩ := hpart.ended hgrow hcalls hloads hloading
  obtain ⟨hprov, hphase⟩ := h hpart'
  refine ⟨hprov.mono (fun k v hv => ?_) (fun k hk' => ?_) hsub (fun c hc => hcalls ▸ hc), ?_⟩
  · by_cases he : k = q
    · exact .inr (.inr ⟨_, hin, he.symm⟩)
    · exact .inl (hentry k he ▸ hv)
  · rcases List.mem_cons.1 (hloading' ▸ hk') with rfl | hk'
    · exact .inr ⟨_, hin, rfl⟩
    · exact .inl (hloading ▸ hk')
  · by_cases he : r = q
    · subst he
      obtain ⟨v, hok, hset, hone⟩ := hclean.loads _ (hpart.loads _ hin) rfl
      have hok : result = .ok v := hok
      subst hok
      have hnot : r ∉ s.history.loading := by
        cases (hs hpart₀).2 with
        | absent h1 => exact h1
        | loading h1 h2 => exact absurd (known_iff.2 ⟨_, h2, rfl⟩) hk
        | loaded v h1 => exact h1
      have hmem : r ∈ s'.history.loading := hloading' ▸ List.mem_cons_self ..
      cases hphase with
      | absent h1 => exact absurd hmem h1
      | loaded v h1 => exact absurd hmem h1
      | loading h1 h2 h3 h4 =>
        exact .loaded v (hloading ▸ hnot) hset hone (hresult v rfl) ((hran r (.inr ⟨v, rfl⟩)).trans h3)
          ⟨_, hin, rfl, rfl⟩ fun c hc hres => absurd hres (h4 c (hcalls ▸ hc))
    · refine hphase.same ?_ (hentry r he) (hran r (.inl he)) hsub fun c hc _ => hcalls ▸ hc
      rw [hloading, hloading', List.mem_cons]
      exact ⟨.inr, fun h' => h'.resolve_left he⟩

omit [V8] in
theorem Phase.other (h : Phase host r s) {s₀ : Modules} {result : Except Stop Value}
    (hres : resolve host s₀.currentDir name ≠ some r) : Phase host r (called s₀ name result s) := by
  refine h.same Iff.rfl rfl rfl (fun _ h => h) fun c hc hr => ?_
  rcases List.mem_cons.1 hc with rfl | hc
  · exact absurd hr hres
  · exact hc

omit [V8] in
/-- **A call that gets what the table has for the file**, or what an earlier call got. -/
theorem Phase.hit {v : Value} (h : Phase host r s) (hnot : r ∉ s.history.loading)
    (hv : s.requiredFiles r = some v ∨
      ∃ c ∈ s.history.calls, resolve host c.dir c.name = some r ∧ c.result = .ok v) (s₀ : Modules) :
    Phase host r (called s₀ name (.ok v) s) := by
  cases h with
  | absent h1 h2 h3 h4 =>
    rcases hv with hv | ⟨c, hc, hres, -⟩
    · cases h2.symm.trans hv
    · exact absurd hres (h4 c hc)
  | loading h1 => exact absurd h1 hnot
  | loaded v' h1 h2 h3 h4 h5 hload h6 =>
    have heq : v = v' := by
      rcases hv with hv | ⟨c, hc, hres, hok⟩
      · exact Option.some.inj (hv.symm.trans h4)
      · exact Except.ok.inj (hok.symm.trans (h6 c hc hres))
    refine .loaded v' h1 h2 h3 h4 h5 hload fun c hc hres => ?_
    rcases List.mem_cons.1 hc with rfl | hc
    · exact congrArg Except.ok heq
    · exact h6 c hc hres

theorem once_closed (hclean : Clean host H r) : Closed host (Once host H r) where
  other {s s'} h h' hs hpart := by
    obtain ⟨hprov, hphase⟩ := hs ⟨h' ▸ hpart.loads, h' ▸ hpart.calls, h' ▸ hpart.loading⟩
    refine ⟨?_, hphase.same (by rw [h']) (by rw [h]) (by rw [h']) (fun l hl => h' ▸ hl) fun c hin _ => h' ▸ hin⟩
    intro k v hv
    rw [h] at hv
    rw [h']
    exact hprov k v hv
  enter hk hs := hs.enter hk
  loaded {s s' q dir v} hk hs hgrow hs' := by
    refine hs.ended hclean hk hgrow hs' (fun k he => Function.update_of_ne he ..) ?_ (fun _ _ => rfl) rfl rfl rfl
    intro v' he
    cases he
    exact Function.update_self ..
  threw {s s' q dir e} hk hs hgrow hs' :=
    have hno : ∀ v, Except.error e = Except.ok v → (s.leave q (.error e) s').requiredFiles q = some v :=
      fun _ he => nomatch he
    hs.ended hclean hk hgrow hs' (fun _ _ => rfl) hno (fun _ _ => rfl) rfl rfl rfl
  failed {s q e} hk hs := by
    -- as if the script had run, which does not count for a load that fails
    have henter : Once host H r (s.enter q []) := hs.enter hk
    have hno : ∀ v, Except.error e = Except.ok v → (loaded s q (.error e) (s.mark q)).requiredFiles q = some v :=
      fun _ he => nomatch he
    refine hs.ended hclean hk (.refl _) henter (fun _ _ => rfl) hno (fun k hk => ?_) rfl rfl rfl
    have hne : k ≠ q := hk.resolve_right fun ⟨_, he⟩ => nomatch he
    exact (List.count_cons_of_ne (Ne.symm hne)).symm
  hit {s name v} hv hset hs hpart := by
    have hc : s.record name (.ok v) ∈ H.calls := hpart.calls _ (List.mem_cons_self ..)
    have hpart' : Part H s := hpart.before (List.suffix_refl _) (List.suffix_cons ..) fun _ h => h
    obtain ⟨hprov, hphase⟩ := hs hpart'
    refine ⟨hprov.mono (fun _ _ h => .inl h) (fun _ h => .inl h) (fun _ h => h) fun _ => List.mem_cons_of_mem _, ?_⟩
    by_cases hres : resolve host s.currentDir name = some r
    · refine hphase.hit (hclean.acyclic _ hc hres) ?_ s
      rcases hprov _ v hv hset with hfile | ⟨c, hin, hkey, hok, r', hr'⟩
      · have hload : ∃ l ∈ H.loads, l.filename = originalFileName s.currentDir name :=
          hfile.elim (hpart'.loading _) fun ⟨l, hin, he⟩ => ⟨l, hpart'.loads _ hin, he⟩
        obtain ⟨l, hin, hl⟩ := hload
        have he : originalFileName s.currentDir name = r := hl.symm.trans (hclean.files _ hc hres l hin hl.symm)
        exact .inl (he ▸ hv)
      · have he : r' = r := hclean.names _ hc c (hpart'.calls c hin) hkey.symm hres r' hr'
        exact .inr ⟨c, hin, he ▸ hr', hok⟩
    · exact hphase.other hres
  refused {s s' name e callee} hk hs hr hgrow hs' hpart := by
    have hc : s.record name (.error e) ∈ H.calls := hpart.calls _ (List.mem_cons_self ..)
    have hpart' : Part H s' := hpart.before (List.suffix_refl _) (List.suffix_cons ..) fun _ h => h
    have hpart₀ : Part H s := hpart'.before hgrow.loads hgrow.calls fun _ h => hgrow.loading ▸ h
    obtain ⟨hprov, hphase⟩ := hs' hpart'
    refine ⟨hprov.mono (fun _ _ h => .inl h) (fun _ h => .inl h) (fun _ h => h) fun _ => List.mem_cons_of_mem _, ?_⟩
    by_cases hres : resolve host s.currentDir name = some r
    · exfalso
      cases (hs hpart₀).2 with
      | absent h1 h2 h3 h4 =>
        have hnone : ¬ Known (s.requiredFiles r) := by
          rw [h2]
          decide
        obtain ⟨l, hin, hl, herr⟩ := require_error hr hk hres hnone
        obtain ⟨v, hok, -⟩ := hclean.loads l (hpart'.loads l hin) hl
        cases herr.symm.trans hok
      | loading h1 => exact hclean.acyclic _ hc hres h1
      | loaded v h1 h2 h3 h4 =>
        obtain ⟨s₂, hok⟩ : ∃ s₂, require host callee name s = .ok v s₂ := require_known hk hres h4 h2 h3
        cases hok.symm.trans hr
    · exact hphase.other hres
  returned {s s' name q v callee} hk hs hr hres hgrow hv hs' hpart := by
    have hc : s.record name (.ok v) ∈ H.calls := hpart.calls _ (List.mem_cons_self ..)
    have hpart' : Part H s' := hpart.before (List.suffix_refl _) (List.suffix_cons ..) fun _ h => h
    obtain ⟨hprov, hphase⟩ := hs' hpart'
    refine ⟨fun k w hw hset => ?_, ?_⟩
    · by_cases he : k = originalFileName s.currentDir name
      · have hvw : v = w := by
          subst he
          have hw : Function.update s'.requiredFiles (originalFileName s.currentDir name) (some v)
            (originalFileName s.currentDir name) = some w := hw
          rw [Function.update_self] at hw
          exact Option.some.inj hw
        exact .inr ⟨_, List.mem_cons_self .., he.symm, congrArg Except.ok hvw, q, hres⟩
      · have hw : s'.requiredFiles k = some w := (Function.update_of_ne he ..).symm.trans hw
        refine (hprov k w hw hset).imp_right fun ⟨c, hin, hrest⟩ => ⟨c, List.mem_cons_of_mem _ hin, hrest⟩
    · by_cases he : q = r
      · subst he
        have hnot : q ∉ s'.history.loading := by
          rw [hgrow.loading]
          exact hclean.acyclic _ hc hres
        refine (hphase.hit hnot (.inl hv) s).same Iff.rfl ?_ rfl (fun _ h => h) fun _ h _ => h
        show Function.update s'.requiredFiles (originalFileName s.currentDir name) (some v) q = s'.requiredFiles q
        by_cases hkey : q = originalFileName s.currentDir name
        · rw [← hkey, Function.update_self, hv]
        · rw [Function.update_of_ne hkey]
      · have hkey : r ≠ originalFileName s.currentDir name := fun hkey => he (hclean.path _ hc hkey.symm q hres)
        have hres' : resolve host s.currentDir name ≠ some r := fun h => he (Option.some.inj (hres.symm.trans h))
        exact (hphase.other hres').same Iff.rfl (Function.update_of_ne hkey ..) rfl (fun _ h => h) fun _ h _ => h

theorem once_final (host : Host) (dir : Option JsString) (main : Body) (fuel : Nat) (r : JsString)
    (hclean : Clean host (after (run (load host fuel) main) (start dir)).history r) :
    Phase host r (after (run (load host fuel) main) (start dir)) ∧
      (after (run (load host fuel) main) (start dir)).history.loading = [] := by
  have hstart : Once host (after (run (load host fuel) main) (start dir)).history r (start dir) :=
    fun _ => ⟨(fun _ _ h => nomatch h), .absent (fun h => nomatch h) rfl rfl (fun _ h => nomatch h)⟩
  have hloading : (after (run (load host fuel) main) (start dir)).history.loading = [] :=
    ((run_grows (load_grows host fuel) main).after (start dir)).loading
  have hend := (once_closed hclean).after fuel main hstart
  exact ⟨(hend ⟨fun _ h => h, fun _ h => h, fun k h => nomatch (hloading ▸ h : k ∈ [])⟩).2, hloading⟩

/-- **A file that ends with a value the table can hold runs once**, and every `require` of the run that leads to it gets
that value: for every file system, every program that starts in an empty table, and every depth of loads. -/
theorem required_once (host : Host) (dir : Option JsString) (main : Body) (fuel : Nat) (r : JsString)
    (hclean : Clean host (after (run (load host fuel) main) (start dir)).history r)
    (hcall : ∃ c ∈ (after (run (load host fuel) main) (start dir)).history.calls,
      resolve host c.dir c.name = some r) :
    ∃ v, (∀ c ∈ (after (run (load host fuel) main) (start dir)).history.calls,
        resolve host c.dir c.name = some r → c.result = .ok v) ∧
      (after (run (load host fuel) main) (start dir)).history.ran.count r = 1 := by
  obtain ⟨hphase, hloading⟩ := once_final host dir main fuel r hclean
  cases hphase with
  | absent h1 h2 h3 h4 =>
    obtain ⟨c, hc, hres⟩ := hcall
    exact absurd hres (h4 c hc)
  | loading h1 =>
    rw [hloading] at h1
    cases h1
  | loaded v h1 h2 h3 h4 h5 hload h6 => exact ⟨v, h6, h5⟩

/-- Two files, the one required by the other and both by the main script. -/
def shared : List (JsString × Body) := [(js "/a.js", .done (.string (js "a"))), (js "/b.js", requiring [js "./a.js"])]

def sharing : Modules := ended shared (requiring [js "./b.js", js "/a.js"])

omit [V8] in
theorem sharing_clean : Clean (disk shared) sharing.history (js "/a.js") := by
  have hloads : ∀ l ∈ sharing.history.loads, l.filename = js "/a.js" → l.result = .ok (.string (js "a")) := by
    decide +kernel
  have hcalls : ∀ c ∈ sharing.history.calls, (resolve (disk shared) c.dir c.name = some (js "/a.js") →
      js "/a.js" ∉ c.loading ∧ ∀ l ∈ sharing.history.loads, c.key = l.filename → l.filename = js "/a.js") ∧
      (c.key = js "/a.js" → (resolve (disk shared) c.dir c.name).all (· = js "/a.js")) := by decide +kernel
  have hnames : ∀ c ∈ sharing.history.calls, ∀ c' ∈ sharing.history.calls, c.key = c'.key →
      resolve (disk shared) c.dir c.name = some (js "/a.js") →
      (resolve (disk shared) c'.dir c'.name).all (· = js "/a.js") := by decide +kernel
  have hall : ∀ {o : Option JsString}, o.all (· = js "/a.js") = true → ∀ r', o = some r' → r' = js "/a.js" := by
    rintro _ h r' rfl
    simpa using h
  exact ⟨⟨fun c hc c' hc' hkey hres => hall (hnames c hc c' hc' hkey hres), fun c hc hres => ((hcalls c hc).1 hres).2,
    fun c hc hkey => hall ((hcalls c hc).2 hkey)⟩, fun l hin hl => ⟨_, hloads l hin hl, rfl, by decide⟩,
    fun c hc hres => ((hcalls c hc).1 hres).1⟩

omit [V8] in
theorem required_once_shared : ∃ v, (∀ c ∈ sharing.history.calls,
    resolve (disk shared) c.dir c.name = some (js "/a.js") → c.result = .ok v) ∧
    sharing.history.ran.count (js "/a.js") = 1 :=
  @required_once ascii (disk shared) none (requiring [js "./b.js", js "/a.js"]) 9 (js "/a.js") sharing_clean
    (by decide +kernel)

omit [V8] in
/-- **A file that exports `null` runs twice, and one that exports 1 is taken for a loop.** -/
theorem null_runs_twice :
    (ended [(js "/a.js", .done .null)] (requiring [js "./a.js", js "./a.js"])).history.ran.count (js "/a.js") = 2 ∧
    ((ended [(js "/a.js", .done .one)] (requiring [js "./a.js", js "/b/../a.js"])).history.calls.map Call.result) =
      [.error (loopRequire (js "/a.js")), .ok .one] := by
  decide +kernel

end Modules
end V8h
