import Mathlib.Tactic.Common
/-!
# Scanner — reading a stream in stages

A stage takes a first part of what is there, as soon as enough is there, and leads to the next stage; what comes behind
that part changes nothing (`grows`).  So the stages can be read while the stream arrives: they are the stages of the
whole stream (`Path.grows`, `Path.unique`), and a stage that ends the scan is reached with the part of the stream that
ends it, however the stream is cut (`Path.ends_iff`).
-/

/-- `advance` gives the next stage and what is left, or nothing when more has to arrive. -/
structure Scanner (σ α : Type) where
  advance : σ → List α → Option (σ × List α)
  grows   : ∀ {s s' : σ} {q r : List α} (e : List α), advance s q = some (s', r) →
    advance s (q ++ e) = some (s', r ++ e)

namespace Scanner

variable {σ α : Type}

/-- `n` stages are read. -/
inductive Path (sc : Scanner σ α) : Nat → σ → List α → σ → List α → Prop
  | refl (s : σ) (q : List α) : Path sc 0 s q s q
  | step {n : Nat} {s s' f : σ} {q r t : List α} (h : sc.advance s q = some (s', r)) (hp : Path sc n s' r f t) :
    Path sc (n + 1) s q f t

/-- The scan ends there, whatever else arrives. -/
def Final (sc : Scanner σ α) (s : σ) : Prop := ∀ q, sc.advance s q = none

namespace Path

variable {sc : Scanner σ α} {s s₁ s' f : σ} {q r r₁ t P w : List α} {n m : Nat}

/-- **More behind it changes nothing.** -/
theorem grows (h : Path sc n s q f t) (e : List α) : Path sc n s (q ++ e) f (t ++ e) := by
  induction h with
  | refl s q => exact .refl s (q ++ e)
  | step h _ ih => exact .step (sc.grows e h) ih

theorem trans (h : Path sc n s q s₁ r) (h' : Path sc m s₁ r f t) : Path sc (m + n) s q f t := by
  induction h with
  | refl s q => exact h'
  | step h _ ih => exact .step h (ih h')

/-- The first stage of a path is the one that is read. -/
theorem tail (h : Path sc n s q f t) (hf : sc.advance f t = none) (hs : sc.advance s q = some (s₁, r)) :
    ∃ m, n = m + 1 ∧ Path sc m s₁ r f t := by
  cases h with
  | refl s q => exact nomatch hf.symm.trans hs
  | step h hp =>
    cases h.symm.trans hs
    exact ⟨_, rfl, hp⟩

/-- **A scan goes one way only.** -/
theorem unique (h : Path sc n s q f t) (hf : sc.advance f t = none) (h' : Path sc m s q s₁ r₁)
    (hs₁ : sc.advance s₁ r₁ = none) : n = m ∧ f = s₁ ∧ t = r₁ := by
  induction h generalizing m with
  | refl s q =>
    cases h' with
    | refl => exact ⟨rfl, rfl, rfl⟩
    | step h _ => exact nomatch hf.symm.trans h
  | step h _ ih =>
    obtain ⟨m', rfl, hrest⟩ := h'.tail hs₁ h
    obtain ⟨rfl, rfl, rfl⟩ := ih hf hrest
    exact ⟨rfl, rfl, rfl⟩

/-- What is read of a stream is read before what is read of it once it goes on. -/
theorem rest (h : Path sc n s q s₁ r) (e : List α) (h' : Path sc m s (q ++ e) f t) (hf : sc.advance f t = none) :
    ∃ m', m = m' + n ∧ Path sc m' s₁ (r ++ e) f t := by
  induction h generalizing m with
  | refl s q => exact ⟨m, rfl, h'⟩
  | step h _ ih =>
    obtain ⟨m₁, rfl, h₁⟩ := h'.tail hf (sc.grows e h)
    obtain ⟨m', rfl, h₂⟩ := ih h₁
    exact ⟨m', rfl, h₂⟩

/-- **Less of the stream is read in no more stages.** -/
theorem cut (h : Path sc n s q f t) (hf : sc.advance f t = none) (hw : w <+: q) :
    ∃ m s' r, m ≤ n ∧ Path sc m s w s' r ∧ sc.advance s' r = none := by
  induction h generalizing w with
  | refl s q =>
    refine ⟨0, s, w, Nat.le_refl 0, .refl s w, ?_⟩
    obtain ⟨e, rfl⟩ := hw
    cases ha : sc.advance s w with
    | none => rfl
    | some next => exact nomatch hf.symm.trans (sc.grows e ha)
  | @step n s s₁ f q r₁ t h _ ih =>
    cases ha : sc.advance s w with
    | none => exact ⟨0, s, w, Nat.zero_le _, .refl s w, ha⟩
    | some next =>
      obtain ⟨e, rfl⟩ := hw
      cases h.symm.trans (sc.grows e ha)
      obtain ⟨m, s', r, hm, hp, hr⟩ := ih hf (List.prefix_append next.2 e)
      exact ⟨m + 1, s', r, Nat.succ_le_succ hm, .step ha hp, hr⟩

/-- **The scan ends with a part of the stream, and not before it.**  `P` is the part, and all of it is read. -/
theorem ends_iff (hP : Path sc n s P f []) (hf : sc.Final f) (hw : w <+: P ∨ P <+: w) :
    (∃ m t, Path sc m s w f t) ↔ P <+: w := by
  constructor
  · rintro ⟨m, t, h⟩
    rcases hw with ⟨e, rfl⟩ | hw
    · obtain ⟨-, -, hnil⟩ := hP.unique (hf _) (h.grows e) (hf _)
      obtain ⟨-, rfl⟩ := List.append_eq_nil_iff.1 hnil.symm
      simp only [List.append_nil, List.prefix_rfl]
    · exact hw
  · rintro ⟨e, rfl⟩
    exact ⟨n, _, hP.grows e⟩

end Path
end Scanner
