import Mathlib.Tactic.Common
import Mathlib.Data.Int.ModEq
/-!
# Native — words, faults and memory cells of the C++ side

`size_t` is a natural number below `2 ^ w` (`w` is 32 or 64, the platforms of the README); `int` and `unsigned int` have
32 bits on both.  A block is a list of cells, and a cell is `none` until something is stored in it.
-/
namespace V8h

/-- What ends a native call without a result: a loop that never exits, an access outside a block, a value read from a
cell nothing was stored in, a method of a deleted object, a `Call` on what is not a function. -/
inductive Trap where
  | diverge
  | outOfBounds
  | indeterminate
  | null
  | notCallable
deriving DecidableEq, Repr

@[simp] theorem ok_bind {α β : Type} (a : α) (f : α → Except Trap β) : ((.ok a : Except Trap α) >>= f) = f a := rfl

theorem bind_eq_ok {α β : Type} {x : Except Trap α} {f : α → Except Trap β} {r : β} :
    x >>= f = .ok r ↔ ∃ a, x = .ok a ∧ f a = .ok r := by
  cases x with
  | error e => exact ⟨(nomatch ·), fun ⟨_, h, _⟩ => nomatch h⟩
  | ok a => exact ⟨fun h => ⟨a, rfl, h⟩, fun ⟨_, h, h'⟩ => Except.ok.inj h ▸ h'⟩

/-- `size_t` arithmetic wraps. -/
def sizeT (w x : Nat) : Nat := x % 2 ^ w

/-- `(size_t) -1`. -/
def sizeMax (w : Nat) : Nat := 2 ^ w - 1

/-- Conversion to `int`. -/
def toInt (x : Int) : Int := Int.bmod x (2 ^ 32)

/-- Conversion to `unsigned int`. -/
def toUint (x : Int) : Nat := (x % 2 ^ 32).toNat

theorem sizeT_of_lt {w x : Nat} (h : x < 2 ^ w) : sizeT w x = x := Nat.mod_eq_of_lt h

theorem toInt_of_lt {x : Int} (h0 : 0 ≤ x) (h : x < 2 ^ 31) : toInt x = x := by
  unfold toInt
  rw [Int.bmod_eq_of_le (by omega) (by omega)]

theorem toInt_emod {w : Nat} (hw : 32 ≤ w) (x : Int) : toInt (x % 2 ^ w) = toInt x := by
  have hdvd : (2 : Int) ^ 32 ∣ 2 ^ w := pow_dvd_pow 2 hw
  have hmod : x % 2 ^ w % 2 ^ 32 = x % 2 ^ 32 := Int.emod_emod_of_dvd x hdvd
  unfold toInt
  rw [Int.bmod_def, Int.bmod_def]
  simp only [Nat.cast_pow, Nat.cast_ofNat, hmod]

theorem toInt_toInt_add (x y : Int) : toInt (toInt x + y) = toInt (x + y) := by
  unfold toInt
  exact Int.bmod_add_bmod

theorem toUint_of_lt {x : Nat} (h : x < 2 ^ 32) : toUint x = x := by
  unfold toUint
  omega

/-- A byte of memory, `none` while its value is indeterminate. -/
abbrev Cell := Option UInt8

/-- The bytes of a stretch of memory; reading an indeterminate one is a fault. -/
def determinate (cells : List Cell) : Except Trap (List UInt8) :=
  match cells.mapM id with
  | none    => .error .indeterminate
  | some bs => .ok bs

@[simp] theorem determinate_map_some (bs : List UInt8) : determinate (bs.map some) = .ok bs := by
  have h : (bs.map some).mapM (id : Cell → Option UInt8) = some bs := by
    induction bs with
    | nil => rfl
    | cons b bs ih => simp [ih]
  simp [determinate, h]

theorem determinate_ok {cells : List Cell} {bs : List UInt8} (h : determinate cells = .ok bs) :
    cells = bs.map some := by
  unfold determinate at h
  split at h
  · cases h
  · rename_i bs' hm
    cases h
    induction cells generalizing bs with
    | nil => cases hm; rfl
    | cons c cs ih =>
      rw [List.mapM_cons] at hm
      obtain ⟨c', hc, bs', hcs, rfl⟩ : ∃ c', c = some c' ∧ ∃ bs', cs.mapM id = some bs' ∧ c' :: bs' = bs := by
        simpa [Option.bind_eq_some_iff] using hm
      rw [hc, ih hcs, List.map_cons]

/-! ## Machine words in memory, little-endian -/

/-- The `k` bytes of a machine word. -/
def image : Nat → Nat → List UInt8
  | 0,     _ => []
  | k + 1, x => UInt8.ofNat x :: image k (x / 256)

/-- The machine word a run of bytes spells. -/
def wordOf : List UInt8 → Nat
  | []      => 0
  | b :: bs => b.toNat + 256 * wordOf bs

@[simp] theorem image_length : ∀ (k x : Nat), (image k x).length = k
  | 0,     _ => rfl
  | k + 1, x => by rw [image, List.length_cons, image_length k]

theorem wordOf_image : ∀ (k x : Nat), wordOf (image k x) = x % 256 ^ k
  | 0,     x => by simp [image, wordOf, Nat.mod_one]
  | k + 1, x => by
    rw [image, wordOf, wordOf_image k, UInt8.toNat_ofNat', show 256 ^ (k + 1) = 256 * 256 ^ k from Nat.pow_succ',
      Nat.mod_mul]

theorem image_wordOf : ∀ bs : List UInt8, image bs.length (wordOf bs) = bs
  | [] => rfl
  | b :: bs => by
    have hb := b.toNat_lt
    have hword : wordOf (b :: bs) = b.toNat + 256 * wordOf bs := rfl
    have hhead : UInt8.ofNat (wordOf (b :: bs)) = b := by
      apply UInt8.toNat_inj.1
      rw [UInt8.toNat_ofNat', hword]
      omega
    rw [List.length_cons, image, hhead, hword, show (b.toNat + 256 * wordOf bs) / 256 = wordOf bs by omega,
      image_wordOf bs]

theorem wordOf_lt : ∀ bs : List UInt8, wordOf bs < 256 ^ bs.length
  | [] => Nat.one_pos
  | b :: bs => by
    have hb := b.toNat_lt
    have ih := wordOf_lt bs
    rw [wordOf, List.length_cons, Nat.pow_succ]
    omega

end V8h
