import Mathlib.Algebra.BigOperators.Group.Finset.Piecewise
/-!
# Ledger — what the accounts of a store are worth together

Accounts are numbered as they are opened; one that is closed is worth nothing.
-/
namespace Ledger

variable {α : Type} (worth : α → Int) (store : Nat → Option α) {n i : Nat}

/-- What the first `n` accounts are worth. -/
def balance (store : Nat → Option α) (n : Nat) : Int := ∑ i ∈ Finset.range n, (store i).elim 0 worth

/-- **A change of one account changes the balance by what that account gains.** -/
theorem balance_update (hi : i < n) (v : Option α) :
    balance worth (Function.update store i v) n =
      balance worth store n + (v.elim 0 worth - (store i).elim 0 worth) := by
  have hmem := Finset.mem_range.2 hi
  have hcomp : (fun j => (Function.update store i v j).elim 0 worth) =
      Function.update (fun j => (store j).elim 0 worth) i (v.elim 0 worth) := by
    funext j
    rcases eq_or_ne j i with rfl | hj
    · simp only [Function.update_self]
    · simp only [Function.update_of_ne hj]
  unfold balance
  rw [hcomp, Finset.sum_update_of_mem hmem,
    Finset.sum_eq_add_sum_sdiff_singleton_of_mem hmem fun j => (store j).elim 0 worth]
  omega

theorem balance_open (n : Nat) (a : α) :
    balance worth (Function.update store n (some a)) (n + 1) = balance worth store n + worth a := by
  unfold balance
  rw [Finset.sum_range_succ, Function.update_self]
  refine congrArg (· + worth a) (Finset.sum_congr rfl fun i hi => ?_)
  rw [Function.update_of_ne (Nat.ne_of_lt (Finset.mem_range.1 hi))]

theorem balance_eq_zero {store : Nat → Option α} (h : ∀ i < n, store i = none) : balance worth store n = 0 :=
  Finset.sum_eq_zero fun i hi => by rw [h i (Finset.mem_range.1 hi), Option.elim_none]

end Ledger
