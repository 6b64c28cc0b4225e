import Mathlib.Tactic.Common
import Mathlib.Data.List.Range
import Mathlib.Data.List.Forall2
/-!
# Block — a checked block of memory

A block of `size` cells, each `none` until a value is stored in it.  `load` and `store` answer `none` when they would
touch a cell outside the block; `slice` is the same reading without the check, for specifications.  `Known` compares
cells with what is known of them from outside.
-/

structure Block (α : Type) where
  size : Nat
  cell : Nat → Option α

namespace Block

variable {α : Type}

/-- A block just allocated. -/
def malloc (n : Nat) : Block α := ⟨n, fun _ => none⟩

/-- The block resized, its old values kept as far as they fit. -/
def realloc (d : Block α) (n : Nat) : Block α := ⟨n, fun i => if i < d.size ∧ i < n then d.cell i else none⟩

/-- The cells at `[pos, pos + n)`. -/
def slice (d : Block α) (pos n : Nat) : List (Option α) := (List.range n).map fun i => d.cell (pos + i)

/-- The block with `src` at `[pos, pos + src.length)`. -/
def write (d : Block α) (pos : Nat) (src : List (Option α)) : Block α :=
  ⟨d.size, fun i => if pos ≤ i ∧ i < pos + src.length then src.getD (i - pos) none else d.cell i⟩

def load (d : Block α) (pos n : Nat) : Option (List (Option α)) :=
  if pos + n ≤ d.size ∨ n = 0 then some (d.slice pos n) else none

def store (d : Block α) (pos : Nat) (src : List (Option α)) : Option (Block α) :=
  if pos + src.length ≤ d.size ∨ src = [] then some (d.write pos src) else none

@[simp] theorem write_size (d : Block α) (pos : Nat) (src : List (Option α)) : (d.write pos src).size = d.size := rfl

@[simp] theorem realloc_size (d : Block α) (n : Nat) : (d.realloc n).size = n := rfl

theorem load_ok {d : Block α} {pos n : Nat} (h : pos + n ≤ d.size) : d.load pos n = some (d.slice pos n) :=
  if_pos (Or.inl h)

theorem store_ok {d : Block α} {pos : Nat} {src : List (Option α)} (h : pos + src.length ≤ d.size) :
    d.store pos src = some (d.write pos src) := if_pos (Or.inl h)

/-! ## Slices -/

@[simp] theorem length_slice (d : Block α) (pos n : Nat) : (d.slice pos n).length = n := by simp [slice]

@[simp] theorem slice_zero (d : Block α) (pos : Nat) : d.slice pos 0 = [] := rfl

theorem slice_congr {d d' : Block α} {pos n : Nat} (h : ∀ i, pos ≤ i → i < pos + n → d'.cell i = d.cell i) :
    d'.slice pos n = d.slice pos n := by
  refine List.map_congr_left fun i hi => h _ (Nat.le_add_right _ _) ?_
  have := List.mem_range.1 hi
  omega

theorem slice_append (d : Block α) (pos m n : Nat) : d.slice pos (m + n) = d.slice pos m ++ d.slice (pos + m) n := by
  simp only [slice, List.range_add, List.map_append, List.map_map, Function.comp_def, Nat.add_assoc]

theorem take_slice (d : Block α) (pos : Nat) {k n : Nat} (h : k ≤ n) : (d.slice pos n).take k = d.slice pos k := by
  obtain ⟨m, rfl⟩ := Nat.exists_eq_add_of_le h
  rw [slice_append, List.take_left' (length_slice d pos k)]

theorem drop_slice (d : Block α) (pos : Nat) {k n : Nat} (h : k ≤ n) :
    (d.slice pos n).drop k = d.slice (pos + k) (n - k) := by
  obtain ⟨m, rfl⟩ := Nat.exists_eq_add_of_le h
  rw [slice_append, List.drop_left' (length_slice d pos k), Nat.add_sub_cancel_left]

/-- What was stored is read back. -/
theorem slice_write_self (d : Block α) (pos : Nat) (src : List (Option α)) :
    (d.write pos src).slice pos src.length = src := by
  apply List.ext_getElem
  · simp
  · intro i _ h
    simp only [slice, write, List.getElem_map, List.getElem_range, Nat.le_add_right, true_and,
      Nat.add_lt_add_iff_left, h,
      if_true, Nat.add_sub_cancel_left, List.getD_eq_getElem?_getD, List.getElem?_eq_getElem, Option.getD_some]

/-- A store leaves what lies below it alone. -/
theorem slice_write_below (d : Block α) {pos p n : Nat} (src : List (Option α)) (h : p + n ≤ pos) :
    (d.write pos src).slice p n = d.slice p n :=
  slice_congr fun i _ hi => if_neg (by omega)

theorem slice_realloc (d : Block α) {m p n : Nat} (hd : p + n ≤ d.size) (hm : p + n ≤ m) :
    (d.realloc m).slice p n = d.slice p n :=
  slice_congr fun i _ hi => if_pos ⟨by omega, by omega⟩

/-! ## What is known of cells -/

/-- `known` says of each of the cells what it holds, or nothing (`none`). -/
def Known (known cells : List (Option α)) : Prop := List.Forall₂ (fun k cell => k = none ∨ k = cell) known cells

theorem Known.refl (cells : List (Option α)) : Known cells cells := List.forall₂_same.2 fun _ _ => Or.inr rfl

theorem Known.length_eq {known cells : List (Option α)} (h : Known known cells) : known.length = cells.length :=
  List.Forall₂.length_eq h

theorem Known.append {k₁ k₂ c₁ c₂ : List (Option α)} (h₁ : Known k₁ c₁) (h₂ : Known k₂ c₂) :
    Known (k₁ ++ k₂) (c₁ ++ c₂) := List.rel_append h₁ h₂

theorem Known.take {known cells : List (Option α)} (h : Known known cells) (n : Nat) :
    Known (known.take n) (cells.take n) := List.forall₂_take n h

theorem Known.drop {known cells : List (Option α)} (h : Known known cells) (n : Nat) :
    Known (known.drop n) (cells.drop n) := List.forall₂_drop n h

/-- Of any cells nothing may be known. -/
theorem Known.blank (cells : List (Option α)) : Known (List.replicate cells.length none) cells := by
  induction cells with
  | nil => exact List.Forall₂.nil
  | cons c cs ih => exact List.Forall₂.cons (Or.inl rfl) ih

/-- **Where every cell is known, the cells are what is known of them.** -/
theorem Known.eq {known cells : List (Option α)} (h : Known known cells) (hall : none ∉ known) : cells = known := by
  induction h with
  | nil => rfl
  | cons hk _ ih =>
    rw [List.mem_cons, not_or] at hall
    rcases hk with hk | hk
    · exact absurd hk.symm hall.1
    · rw [hk, ih hall.2]

end Block
