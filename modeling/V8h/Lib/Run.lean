import Mathlib.Tactic.Common
/-!
# Run — runs of a machine that may refuse an input

A machine is a function `step` from a state and an input to the next state or a refusal, and a run is
`List.foldlM step`.  `Along` states a condition on every step a run takes.  The rules are the induction over a run: an
invariant kept by every such step holds at the end (`invariant`), also one about a value that changes with the inputs
(`follows`), and a machine whose steps are matched by an abstract one is matched over the whole run and never refuses
(`simulates`).
-/
namespace Run

variable {σ τ ι ε : Type}

/-- `ok` holds at every step of the run of the inputs from a state. -/
def Along (step : σ → ι → Except ε σ) (ok : σ → ι → Prop) : σ → List ι → Prop
  | _, []      => True
  | s, i :: is => ok s i ∧ ∀ s', step s i = .ok s' → Along step ok s' is

variable {step : σ → ι → Except ε σ} {ok : σ → ι → Prop}

instance decidableAlong [∀ s i, Decidable (ok s i)] : ∀ (s : σ) (is : List ι), Decidable (Along step ok s is)
  | _, []      => .isTrue trivial
  | s, i :: is =>
    match h : step s i with
    | .error _ => decidable_of_iff (ok s i) ⟨fun ho => ⟨ho, fun _ hs => nomatch h.symm.trans hs⟩, And.left⟩
    | .ok s₁   =>
      have := decidableAlong s₁ is
      decidable_of_iff (ok s i ∧ Along step ok s₁ is)
        ⟨fun ho => ⟨ho.1, fun _ hs => Except.ok.inj (h.symm.trans hs) ▸ ho.2⟩, fun ho => ⟨ho.1, ho.2 s₁ h⟩⟩

theorem along_of_forall (h : ∀ s i, ok s i) : ∀ (s : σ) (is : List ι), Along step ok s is
  | _, []      => trivial
  | s, i :: is => ⟨h s i, fun s' _ => along_of_forall h s' is⟩

theorem Along.mono {good : σ → ι → Prop} (h : ∀ s i, ok s i → good s i) :
    ∀ {s : σ} {is : List ι}, Along step ok s is → Along step good s is
  | _, [],     _  => trivial
  | s, i :: _, ho => ⟨h s i ho.1, fun s' hs => (ho.2 s' hs).mono h⟩

theorem exists_of_any {α : Type} {x : Except ε α} {p : α → Bool} (h : x.toOption.any p = true) :
    ∃ a, x = .ok a ∧ p a = true := by
  cases x with
  | error e => cases h
  | ok a => exact ⟨a, rfl, h⟩

theorem foldlM_cons_ok {s s' : σ} {i : ι} {is : List ι} (h : (i :: is).foldlM step s = .ok s') :
    ∃ s₁, step s i = .ok s₁ ∧ is.foldlM step s₁ = .ok s' := by
  rw [List.foldlM_cons] at h
  cases hs : step s i with
  | error e => rw [hs] at h; cases h
  | ok s₁ => rw [hs] at h; exact ⟨s₁, rfl, h⟩

theorem foldlM_cons_of_ok {s s₁ : σ} {i : ι} (h : step s i = .ok s₁) (is : List ι) :
    (i :: is).foldlM step s = is.foldlM step s₁ := by
  rw [List.foldlM_cons, h]
  rfl

theorem foldlM_append_ok {s s' : σ} {is : List ι} (h : is.foldlM step s = .ok s') (js : List ι) :
    (is ++ js).foldlM step s = js.foldlM step s' := by
  rw [List.foldlM_append, h]
  rfl

theorem Along.left {js : List ι} : ∀ {s : σ} {is : List ι}, Along step ok s (is ++ js) → Along step ok s is
  | _, [],     _  => trivial
  | _, _ :: _, ho => ⟨ho.1, fun s' hs => (ho.2 s' hs).left⟩

theorem Along.append {js : List ι} {s' : σ} : ∀ {s : σ} {is : List ι}, Along step ok s is → is.foldlM step s = .ok s' →
    Along step ok s' js → Along step ok s (is ++ js)
  | s, [], _, hr, hj => by cases hr; exact hj
  | s, i :: is, ho, hr, hj => by
    obtain ⟨s₁, h1, h2⟩ := foldlM_cons_ok hr
    refine ⟨ho.1, fun s₂ hs => ?_⟩
    obtain rfl := Except.ok.inj (h1.symm.trans hs)
    exact (ho.2 s₁ h1).append h2 hj

theorem Along.right {js : List ι} {s' : σ} :
    ∀ {s : σ} {is : List ι}, Along step ok s (is ++ js) → is.foldlM step s = .ok s' → Along step ok s' js
  | s, [], ho, hr => by cases hr; exact ho
  | s, i :: is, ho, hr => by
    obtain ⟨s₁, h1, h2⟩ := foldlM_cons_ok hr
    exact (ho.2 s₁ h1).right h2

/-- **The rule for a relation that follows the run.** -/
theorem follows {R : σ → τ → Prop} {astep : τ → ι → τ}
    (hstep : ∀ s t i s', R s t → ok s i → step s i = .ok s' → R s' (astep t i)) :
    ∀ (is : List ι) (s s' : σ) (t : τ), R s t → Along step ok s is → is.foldlM step s = .ok s' → R s' (is.foldl astep t)
  | [], s, s', t, hR, _, hr => by cases hr; exact hR
  | i :: is, s, s', t, hR, hok, hr => by
    obtain ⟨s₁, h1, h2⟩ := foldlM_cons_ok hr
    exact follows hstep is s₁ s' (astep t i) (hstep s t i s₁ hR hok.1 h1) (hok.2 s₁ h1) h2

/-- **The invariant rule.** -/
theorem invariant {I : σ → Prop} (hstep : ∀ s i s', I s → ok s i → step s i = .ok s' → I s') :
    ∀ (is : List ι) (s s' : σ), I s → Along step ok s is → is.foldlM step s = .ok s' → I s'
  | [], s, s', hI, _, hr => by cases hr; exact hI
  | i :: is, s, s', hI, hok, hr => by
    obtain ⟨s₁, h1, h2⟩ := foldlM_cons_ok hr
    exact invariant hstep is s₁ s' (hstep s i s₁ hI hok.1 h1) (hok.2 s₁ h1) h2

/-- **What an invariant gives at each step it gives along the run.** -/
theorem along_of_invariant {I : σ → Prop} {good : σ → ι → Prop}
    (hstep : ∀ s i s', I s → ok s i → step s i = .ok s' → I s')
    (hgood : ∀ s i, I s → ok s i → good s i) :
    ∀ (is : List ι) (s : σ), I s → Along step ok s is → Along step good s is
  | [], _, _, _ => trivial
  | i :: is, s, hI, hok =>
    ⟨hgood s i hI hok.1, fun s' hs => along_of_invariant hstep hgood is s' (hstep s i s' hI hok.1 hs) (hok.2 s' hs)⟩

/-- **Two conditions that are the same under an invariant are the same along the run**, when the run is `fair`. -/
theorem along_iff_of_fair {I : σ → Prop} {fair good : σ → ι → Prop}
    (hiff : ∀ s i, I s → fair s i → (good s i ↔ ok s i))
    (hstep : ∀ s i s', I s → fair s i → ok s i → step s i = .ok s' → I s') :
    ∀ (is : List ι) (s : σ), I s → Along step fair s is → (Along step good s is ↔ Along step ok s is)
  | [], _, _, _ => Iff.rfl
  | i :: is, s, hI, hf => by
    have hnext : ok s i → ∀ s', step s i = .ok s' → (Along step good s' is ↔ Along step ok s' is) :=
      fun ho s' hs => along_iff_of_fair hiff hstep is s' (hstep s i s' hI hf.1 ho hs) (hf.2 s' hs)
    constructor
    · intro hg
      have ho := (hiff s i hI hf.1).1 hg.1
      exact ⟨ho, fun s' hs => (hnext ho s' hs).1 (hg.2 s' hs)⟩
    · intro ho
      exact ⟨(hiff s i hI hf.1).2 ho.1, fun s' hs => (hnext ho.1 s' hs).2 (ho.2 s' hs)⟩

theorem along_iff_of_invariant {I : σ → Prop} {good : σ → ι → Prop} (hiff : ∀ s i, I s → (good s i ↔ ok s i))
    (hstep : ∀ s i s', I s → ok s i → step s i = .ok s' → I s') (is : List ι) (s : σ) (hI : I s) :
    Along step good s is ↔ Along step ok s is :=
  along_iff_of_fair (fun s i hI (_ : True) => hiff s i hI) (fun s i s' hI _ => hstep s i s' hI) is s hI
    (along_of_forall (fun _ _ => trivial) s is)

/-- **The simulation rule.** -/
theorem simulates {R : σ → τ → Prop} {astep : τ → ι → τ}
    (hstep : ∀ s t i, R s t → ok s i → ∃ s', step s i = .ok s' ∧ R s' (astep t i)) :
    ∀ (is : List ι) (s : σ) (t : τ), R s t → Along step ok s is →
      ∃ s', is.foldlM step s = .ok s' ∧ R s' (is.foldl astep t)
  | [], s, t, hR, _ => ⟨s, rfl, hR⟩
  | i :: is, s, t, hR, hok => by
    obtain ⟨s₁, h1, hR₁⟩ := hstep s t i hR hok.1
    obtain ⟨s', h2, hR'⟩ := simulates hstep is s₁ (astep t i) hR₁ (hok.2 s₁ h1)
    exact ⟨s', (foldlM_cons_of_ok h1 is).trans h2, hR'⟩

/-- **A machine that goes on from every state of an invariant does not refuse.** -/
theorem along_ok {I : σ → Prop} (hstep : ∀ s i, I s → ok s i → ∃ s', step s i = .ok s' ∧ I s') :
    ∀ (is : List ι) (s : σ), I s → Along step ok s is → ∃ s', is.foldlM step s = .ok s' ∧ I s'
  | [], s, hs, _ => ⟨s, rfl, hs⟩
  | i :: is, s, hs, hok => by
    obtain ⟨s₁, h1, hs₁⟩ := hstep s i hs hok.1
    obtain ⟨s', h2, hs'⟩ := along_ok hstep is s₁ hs₁ (hok.2 s₁ h1)
    exact ⟨s', (foldlM_cons_of_ok h1 is).trans h2, hs'⟩

/-- **A machine that has more in its state** has the runs of the one without, in the steps where they are alike. -/
theorem map_of_along {κ : Type} {step' : τ → κ → Except ε τ} {f : σ → τ} {g : ι → κ}
    (hstep : ∀ s i, ok s i → (step s i).map f = step' (f s) (g i)) :
    ∀ (is : List ι) (s : σ), Along step ok s is → (is.foldlM step s).map f = (is.map g).foldlM step' (f s)
  | [], _, _ => rfl
  | i :: is, s, hok => by
    have h := hstep s i hok.1
    rw [List.map_cons, List.foldlM_cons, List.foldlM_cons, ← h]
    cases hs : step s i with
    | error e => rfl
    | ok s₁ => exact map_of_along hstep is s₁ (hok.2 s₁ hs)

theorem Along.map {κ : Type} {step' : τ → κ → Except ε τ} {f : σ → τ} {g : ι → κ} {good : τ → κ → Prop}
    (hstep : ∀ s i, ok s i → (step s i).map f = step' (f s) (g i)) (hgood : ∀ s i, ok s i → good (f s) (g i)) :
    ∀ {s : σ} {is : List ι}, Along step ok s is → Along step' good (f s) (is.map g)
  | _, [],     _  => trivial
  | s, i :: is, ho => by
    refine ⟨hgood s i ho.1, fun t ht => ?_⟩
    have h := hstep s i ho.1
    cases hs : step s i with
    | error e =>
      rw [hs] at h
      exact nomatch h.trans ht
    | ok s₁ =>
      rw [hs] at h
      obtain rfl := Except.ok.inj (h.trans ht)
      exact (ho.2 s₁ hs).map hstep hgood

end Run
