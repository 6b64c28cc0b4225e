import Mathlib.Logic.Function.Basic
import V8h.Lib.Block
/-!
# Arena — blocks that move

Blocks are named by identifiers.  `realloc` resizes a block where it is, or copies it to a new one and retires the old:
`moves` says which, and a load or a store through a pointer into a retired block is refused.
-/

structure Arena (α : Type) where
  block : Nat → Option (Block α)
  next  : Nat

namespace Arena

/-- An address. -/
structure Ptr where
  block  : Nat
  offset : Nat

variable {α : Type}

def set (a : Arena α) (id : Nat) (d : Block α) : Arena α := { a with block := Function.update a.block id (some d) }

def load (a : Arena α) (p : Ptr) (n : Nat) : Option (List (Option α)) :=
  match a.block p.block with
  | none   => none
  | some d => d.load p.offset n

def store (a : Arena α) (p : Ptr) (src : List (Option α)) : Option (Arena α) :=
  match a.block p.block with
  | none   => none
  | some d =>
    match d.store p.offset src with
    | none   => none
    | some d => some (a.set p.block d)

/-- The identifier of the resized block, and the blocks. -/
def realloc (a : Arena α) (moves : Bool) (id size : Nat) : Option (Nat × Arena α) :=
  match a.block id with
  | none   => none
  | some d =>
    if moves then
      some (a.next, ⟨Function.update (Function.update a.block id none) a.next (some (d.realloc size)), a.next + 1⟩)
    else
      some (id, a.set id (d.realloc size))

/-- No block has the identifier of one still to be made. -/
def Fresh (a : Arena α) : Prop := ∀ id, a.next ≤ id → a.block id = none

variable {a : Arena α} {id j size : Nat} {d d' : Block α} {moves : Bool}

@[simp] theorem set_self : (a.set id d).block id = some d := Function.update_self ..

theorem set_of_ne (h : j ≠ id) : (a.set id d).block j = a.block j := Function.update_of_ne h ..

theorem Fresh.lt (h : Fresh a) (hd : a.block id = some d) : id < a.next := by
  by_contra hle
  rw [h id (Nat.le_of_not_lt hle)] at hd
  cases hd

theorem Fresh.set (h : Fresh a) (hd : a.block id = some d) : Fresh (a.set id d') := fun j hj => by
  have hne : j ≠ id := Nat.ne_of_gt (Nat.lt_of_lt_of_le (h.lt hd) hj)
  rw [set_of_ne hne]
  exact h j hj

/-- **What `realloc` does**: the block it names is the old one resized, whatever else was a block still is, and the old
identifier names that block or, when it moved, nothing. -/
theorem Fresh.realloc (h : Fresh a) (hd : a.block id = some d) (moves : Bool) (size : Nat) :
    ∃ id' a', a.realloc moves id size = some (id', a') ∧ Fresh a' ∧ a'.block id' = some (d.realloc size) ∧
      (id' = id ∨ a.next ≤ id') ∧ (∀ j, j ≠ id → j < a.next → a'.block j = a.block j) ∧
      a'.block id = if moves then none else some (d.realloc size) := by
  have hlt := h.lt hd
  unfold Arena.realloc
  rw [hd]
  cases moves with
  | false =>
    exact ⟨id, a.set id (d.realloc size), rfl, h.set hd, set_self, Or.inl rfl, fun j hj _ => set_of_ne hj, set_self⟩
  | true =>
    refine ⟨a.next, _, rfl, fun j hj => ?_, Function.update_self .., Or.inr (Nat.le_refl _), fun j hj hlt => ?_, ?_⟩
    · have hj : a.next + 1 ≤ j := hj
      show Function.update (Function.update a.block id none) a.next (some (d.realloc size)) j = none
      rw [Function.update_of_ne (by omega), Function.update_of_ne (by omega)]
      exact h j (by omega)
    · show Function.update (Function.update a.block id none) a.next (some (d.realloc size)) j = a.block j
      rw [Function.update_of_ne (by omega), Function.update_of_ne hj]
    · show Function.update (Function.update a.block id none) a.next (some (d.realloc size)) id = none
      rw [Function.update_of_ne (by omega), Function.update_self]

end Arena
