import V8h.Lib.Seek
import V8h.Native
/-!
# Algorithm — `partial_find`

`partial_find` walks the haystack with two pointers that move together while the bytes agree and are compared with the
ends only after they moved.  A pointer is the list of the bytes from it to the end of its range, so reading at the end
is reading `[]`, which is `none`.  On a non-empty needle the loop reads inside both ranges and reports
`Seek.firstPartial` (`partialFindFrom_eq`).
-/
namespace V8h

/-- The inner loop, from `first1` and `first2`: whether the bytes agree until one range ends. -/
def matchHere : List UInt8 → List UInt8 → Option Bool
  | c₁ :: first1, c₂ :: first2 =>
    if c₁ = c₂ then
      if first1 = [] ∨ first2 = [] then some true else matchHere first1 first2
    else some false
  | _, _ => none

/-- The outer loop, with `haystack - haystack_start` counted in `pos`. -/
def partialFindFrom (needle : List UInt8) (pos : Nat) : List UInt8 → Option Nat
  | []            => some pos
  | c :: haystack =>
    match matchHere (c :: haystack) needle with
    | none       => none
    | some true  => some pos
    | some false => partialFindFrom needle (pos + 1) haystack

/-- `partial_find`, whose result is an `int`. -/
def partialFind (haystack needle : List UInt8) : Option Int :=
  (partialFindFrom needle 0 haystack).map fun pos : Nat => toInt pos

/-- **The inner loop on two non-empty ranges decides whether they agree as far as both reach.** -/
theorem matchHere_eq : ∀ h n : List UInt8, h ≠ [] → n ≠ [] → matchHere h n = some (decide (Seek.Agree h n))
  | [], _, hh, _ => absurd rfl hh
  | _ :: _, [], _, hn => absurd rfl hn
  | a :: h, b :: n, _, _ => by
    unfold matchHere
    by_cases hab : a = b
    · subst hab
      have hcons : Seek.Agree (a :: h) (a :: n) ↔ Seek.Agree h n := by
        simp only [Seek.Agree, List.prefix_cons_inj]
      rw [if_pos rfl, decide_eq_decide.2 hcons]
      split
      · rename_i hend
        have : Seek.Agree h n := by
          rcases hend with rfl | rfl
          · exact Seek.agree_nil n
          · exact Or.inl h.nil_prefix
        simp [this]
      · rename_i hend
        rw [not_or] at hend
        exact matchHere_eq h n hend.1 hend.2
    · have : ¬ Seek.Agree (a :: h) (b :: n) := by
        simp only [Seek.Agree, List.cons_prefix_cons]
        rintro (⟨h1, -⟩ | ⟨h1, -⟩)
        · exact hab h1.symm
        · exact hab h1
      simp [hab, this]

theorem partialFindFrom_eq {n : List UInt8} (hn : n ≠ []) :
    ∀ (h : List UInt8) (pos : Nat), partialFindFrom n pos h = some (pos + Seek.firstPartial n h)
  | [], _ => rfl
  | a :: h, pos => by
    unfold partialFindFrom Seek.firstPartial
    rw [matchHere_eq _ n (List.cons_ne_nil a h) hn]
    by_cases ha : Seek.Agree (a :: h) n
    · simp [ha]
    · simp only [ha, decide_false, if_false, partialFindFrom_eq hn h (pos + 1)]
      congr 1
      omega

/-- **`partial_find` on a non-empty needle is the first offset from which the haystack agrees with it**, made an
`int`. -/
theorem partialFind_toInt {h n : List UInt8} (hn : n ≠ []) :
    partialFind h n = some (toInt (Seek.firstPartial n h)) := by
  rw [partialFind, partialFindFrom_eq hn, Option.map_some, Nat.zero_add]

/-- The needle begins at `i`, or begins there and is cut off by the end, and at no offset before.  It fits in exactly
when the haystack has it, and then this is where it has it first. -/
structure FirstMatch (haystack needle : List UInt8) (i : Nat) : Prop where
  least : IsLeast {i | i ≤ haystack.length ∧ (needle <+: haystack.drop i ∨ haystack.drop i <+: needle)} i
  fits  : i + needle.length ≤ haystack.length ↔ needle <:+: haystack
  first : needle <:+: haystack → IsLeast {i | needle <+: haystack.drop i} i

theorem firstMatch_firstPartial (haystack needle : List UInt8) :
    FirstMatch haystack needle (Seek.firstPartial needle haystack) where
  least := by
    constructor
    · exact ⟨Seek.firstPartial_le needle haystack, Seek.agree_firstPartial needle haystack⟩
    · rintro j ⟨-, hagree⟩
      exact Nat.le_of_not_lt fun hlt => Seek.not_agree_of_lt needle haystack j hlt hagree
  fits := Seek.found_iff_occurs needle haystack
  first := by
    intro hoccurs
    obtain ⟨hat, hbefore⟩ := Seek.prefix_of_found ((Seek.found_iff_occurs needle haystack).2 hoccurs)
    exact ⟨hat, fun j hj => Nat.le_of_not_lt fun hlt => hbefore j hlt hj⟩

/-- **`partial_find` stays in bounds and returns the first partial match.** -/
theorem partialFind_first (haystack needle : List UInt8) (hneedle : needle ≠ []) (hsize : haystack.length < 2 ^ 31) :
    ∃ i : Nat, partialFind haystack needle = some (i : Int) ∧ FirstMatch haystack needle i := by
  have hle := Seek.firstPartial_le needle haystack
  have hint : toInt (Seek.firstPartial needle haystack) = Seek.firstPartial needle haystack :=
    toInt_of_lt (by omega) (by omega)
  refine ⟨_, ?_, firstMatch_firstPartial haystack needle⟩
  rw [partialFind_toInt hneedle, hint]

/-- The needle overlaps itself: `aab` in `aaab` begins at the second byte. -/
theorem partialFind_first_overlap : ∃ i : Nat, partialFind [97, 97, 97, 98] [97, 97, 98] = some (i : Int) ∧
    FirstMatch [97, 97, 97, 98] [97, 97, 98] i :=
  partialFind_first [97, 97, 97, 98] [97, 97, 98] (by decide) (by decide)

end V8h
