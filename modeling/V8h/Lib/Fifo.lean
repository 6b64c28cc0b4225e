import Mathlib.Logic.Function.Basic
/-!
# Fifo — first-in first-out queues as lists

What a queue is for: appended values leave in the order they came in.  `step` is one operation on one queue of a family
of queues; the others are not changed.
-/
namespace Fifo

variable {α κ : Type}

inductive Op (α : Type) where
  | append (xs : List α)
  | drop (n : Nat)
  | clear
  | keep

def Op.apply : Op α → List α → List α
  | .append xs, q => q ++ xs
  | .drop n,    q => q.drop n
  | .clear,     _ => []
  | .keep,      q => q

/-- One operation on the queue `k` of a family. -/
def step [DecidableEq κ] (qs : κ → List α) (k : κ) (op : Op α) : κ → List α :=
  Function.update qs k (op.apply (qs k))

/-- **Two families that agree stay matched** when a queue is changed on both sides. -/
theorem match_update [DecidableEq κ] {β : Type} {R : β → List α → Prop} {bs : κ → β} {qs : κ → List α} {k : κ} {b : β}
    {op : Op α} (h : ∀ i, R (bs i) (qs i)) (hb : R b (op.apply (qs k))) :
    ∀ i, R (Function.update bs k b i) (step qs k op i) := by
  intro i
  unfold step
  by_cases hi : i = k
  · subst hi
    rwa [Function.update_self, Function.update_self]
  · rw [Function.update_of_ne hi, Function.update_of_ne hi]
    exact h i

end Fifo
