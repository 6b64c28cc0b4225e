import Mathlib.Tactic.Common
/-!
# Lease — things lent to one holder at a time

A log lists what was lent and what was given back, the last first; giving back something that is not lent is no harm.
When nothing is lent that is lent already (`Exclusive`), the thing was given back between any two times it was lent
(`Exclusive.back_between`).
-/
namespace Lease

inductive Deal (α : Type) where
  | lend (a : α)
  | back (a : α)

variable {α : Type} {log new old : List (Deal α)} {a b : α}

/-- The last that was done with it was to lend it. -/
def Lent (a : α) : List (Deal α) → Prop
  | []            => False
  | .lend b :: log => a = b ∨ Lent a log
  | .back b :: log => a ≠ b ∧ Lent a log

/-- Nothing was lent that was lent at that time. -/
def Exclusive : List (Deal α) → Prop
  | []            => True
  | .lend b :: log => ¬ Lent b log ∧ Exclusive log
  | .back _ :: log => Exclusive log

theorem lent_of_not_back : ∀ new : List (Deal α), .back a ∉ new → Lent a (new ++ .lend a :: old)
  | [], _             => Or.inl rfl
  | .lend _ :: new, h => Or.inr (lent_of_not_back new fun hm => h (List.mem_cons_of_mem _ hm))
  | .back b :: new, h => by
    refine ⟨?_, lent_of_not_back new fun hm => h (List.mem_cons_of_mem _ hm)⟩
    rintro rfl
    exact h (List.mem_cons_self ..)

theorem Exclusive.of_append : ∀ {n : List (Deal α)}, Exclusive (n ++ old) → Exclusive old
  | [], h             => h
  | .lend _ :: _, h   => Exclusive.of_append h.2
  | .back _ :: new, h => Exclusive.of_append (n := new) h

/-- **Between two times it was lent it was given back.** -/
theorem Exclusive.back_between (h : Exclusive log) {first : List (Deal α)}
    (hlog : log = new ++ .lend a :: (old ++ .lend a :: first)) : .back a ∈ old := by
  subst hlog
  obtain ⟨hlent, -⟩ := h.of_append
  exact by_contra fun hb => hlent (lent_of_not_back old hb)

/-- What may be lent next is not lent; lending it and giving it back keeps this for the others. -/
theorem not_lent_cons_lend (hne : a ≠ b) (h : ¬ Lent a log) : ¬ Lent a (.lend b :: log) := by
  rintro (rfl | hl)
  · exact hne rfl
  · exact h hl

theorem not_lent_cons_back (h : a ≠ b → ¬ Lent a log) : ¬ Lent a (.back b :: log) := fun hl => h hl.1 hl.2

end Lease
