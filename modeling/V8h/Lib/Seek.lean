import Mathlib.Data.List.Infix
import Mathlib.Order.Bounds.Basic
import Mathlib.Data.Nat.Find
/-!
# Seek — where a pattern may begin

A search that also reports a pattern cut off by the end of the text: `firstPartial n h` is the first offset from which
`h` agrees with `n` as far as both reach.  When the text grows, no offset skipped before can agree later
(`Agree.of_append`), so a search resumed from the reported offset finds what a search from the start finds
(`firstPartial_resume`).
-/
namespace Seek

variable {α : Type*} [DecidableEq α]

/-- Two lists agree as far as both reach. -/
def Agree (h n : List α) : Prop := n <+: h ∨ h <+: n

instance (h n : List α) : Decidable (Agree h n) := inferInstanceAs (Decidable (_ ∨ _))

/-- The first offset of `h` from which it agrees with `n`; `h.length` when there is none before it. -/
def firstPartial (n : List α) : List α → Nat
  | [] => 0
  | a :: h => if Agree (a :: h) n then 0 else firstPartial n h + 1

omit [DecidableEq α] in
theorem agree_nil (n : List α) : Agree [] n := Or.inr n.nil_prefix

omit [DecidableEq α] in
/-- **Agreement of a longer text is agreement of the shorter one.** -/
theorem Agree.of_append {x e n : List α} (h : Agree (x ++ e) n) : Agree x n := by
  rcases h with h | h
  · exact List.prefix_or_prefix_of_prefix h (List.prefix_append x e)
  · exact Or.inr ((List.prefix_append x e).trans h)

theorem firstPartial_le (n : List α) : ∀ h : List α, firstPartial n h ≤ h.length
  | [] => Nat.le_refl 0
  | a :: h => by
    unfold firstPartial
    split
    · exact Nat.zero_le _
    · exact Nat.succ_le_succ (firstPartial_le n h)

theorem agree_firstPartial (n : List α) : ∀ h : List α, Agree (h.drop (firstPartial n h)) n
  | [] => agree_nil n
  | a :: h => by
    unfold firstPartial
    split
    · assumption
    · rw [List.drop_succ_cons]
      exact agree_firstPartial n h

theorem not_agree_of_lt (n : List α) : ∀ (h : List α) (j : Nat), j < firstPartial n h → ¬ Agree (h.drop j) n
  | [], _, hj => absurd hj (Nat.not_lt_zero _)
  | a :: h, j, hj => by
    unfold firstPartial at hj
    split at hj
    · exact absurd hj (Nat.not_lt_zero _)
    · rename_i hn
      cases j with
      | zero => exact hn
      | succ j => exact not_agree_of_lt n h j (Nat.lt_of_succ_lt_succ hj)

theorem firstPartial_unique {n h : List α} {i : Nat} (ha : Agree (h.drop i) n)
    (hlt : ∀ j < i, ¬ Agree (h.drop j) n) : firstPartial n h = i := by
  rcases Nat.lt_trichotomy (firstPartial n h) i with hc | hc | hc
  · exact absurd (agree_firstPartial n h) (hlt _ hc)
  · exact hc
  · exact absurd ha (not_agree_of_lt n h i hc)

/-- **A search resumed from the reported offset is a search from the start**, whatever was appended meanwhile. -/
theorem firstPartial_resume (n h e : List α) :
    firstPartial n h + firstPartial n ((h ++ e).drop (firstPartial n h)) = firstPartial n (h ++ e) := by
  generalize hk : firstPartial n h = k
  have hkl : k ≤ h.length := hk ▸ firstPartial_le n h
  refine (firstPartial_unique ?_ ?_).symm
  · rw [← List.drop_drop]
    exact agree_firstPartial n _
  · intro j hj
    by_cases hjk : j < k
    · intro ha
      rw [List.drop_append_of_le_length (Nat.le_trans (Nat.le_of_lt hjk) hkl)] at ha
      exact not_agree_of_lt n h j (hk ▸ hjk) ha.of_append
    · have hd : (h ++ e).drop j = ((h ++ e).drop k).drop (j - k) := by
        rw [List.drop_drop]
        congr 1
        omega
      rw [hd]
      exact not_agree_of_lt n _ (j - k) (by omega)

omit [DecidableEq α] in
theorem Agree.prefix_of_length {x n : List α} (h : Agree x n) (hl : n.length ≤ x.length) : n <+: x := by
  rcases h with h | h
  · exact h
  · rw [h.eq_of_length (Nat.le_antisymm h.length_le hl)]

/-- When the pattern fits after the reported offset, it occurs there and nowhere before. -/
theorem prefix_of_found {n h : List α} (hf : firstPartial n h + n.length ≤ h.length) :
    n <+: h.drop (firstPartial n h) ∧ ∀ j < firstPartial n h, ¬ n <+: h.drop j := by
  refine ⟨(agree_firstPartial n h).prefix_of_length ?_, fun j hj hp => not_agree_of_lt n h j hj (Or.inl hp)⟩
  rw [List.length_drop]
  omega

/-- **The pattern fits after the reported offset exactly when it occurs in the text.** -/
theorem found_iff_occurs (n h : List α) : firstPartial n h + n.length ≤ h.length ↔ n <:+: h := by
  constructor
  · intro hf
    exact (prefix_of_found hf).1.isInfix.trans (List.drop_suffix _ _).isInfix
  · rintro ⟨s, t, rfl⟩
    have hle : firstPartial n (s ++ n ++ t) ≤ s.length := by
      refine Nat.le_of_not_lt fun hlt => not_agree_of_lt n _ _ hlt (Or.inl ?_)
      rw [List.append_assoc, List.drop_left]
      exact List.prefix_append n t
    simp only [List.length_append]
    omega

/-- The least offset at which the pattern occurs is the reported one. -/
theorem firstPartial_of_isLeast {n h : List α} {i : Nat} (hi : IsLeast {i | n <+: h.drop i} i) :
    firstPartial n h = i := by
  have hp : n <+: h.drop i := hi.1
  by_cases hn : n = []
  · subst hn
    have h0 : i = 0 := Nat.le_zero.1 (hi.2 (List.nil_prefix : [] <+: h.drop 0))
    subst h0
    exact firstPartial_unique (Or.inl List.nil_prefix) (fun j hj => absurd hj (Nat.not_lt_zero j))
  · have hf := (found_iff_occurs n h).2 (hp.isInfix.trans (List.drop_suffix _ _).isInfix)
    exact Nat.le_antisymm (Nat.le_of_not_lt fun hlt => not_agree_of_lt n h i hlt (Or.inl hp))
      (hi.2 (prefix_of_found hf).1)

/-! ## The first occurrence, and the prefixes of a text -/

section

variable {α : Type} {n t q : List α} {i : Nat}

/-- A prefix that reaches behind the first occurrence has it too. -/
theorem isLeast_of_prefix (hi : IsLeast {i | n <+: t.drop i} i) (hq : q <+: t) (hle : i + n.length ≤ q.length) :
    IsLeast {i | n <+: q.drop i} i := by
  refine ⟨?_, fun j hj => hi.2 (hj.trans (hq.drop j))⟩
  refine List.prefix_of_prefix_length_le hi.1 (hq.drop i) ?_
  rw [List.length_drop]
  omega

/-- A prefix that ends before has none. -/
theorem not_infix_of_prefix (hi : IsLeast {i | n <+: t.drop i} i) (hq : q <+: t) (hlt : q.length < i + n.length) :
    ¬ n <:+: q := by
  rintro ⟨s, u, rfl⟩
  have hs : n <+: t.drop s.length := by
    refine List.IsPrefix.trans ?_ (hq.drop s.length)
    rw [List.append_assoc, List.drop_left]
    exact List.prefix_append n u
  have := hi.2 hs
  simp only [List.length_append] at hlt
  omega

/-- The first occurrence is the first of a longer text. -/
theorem isLeast_append (hn : n ≠ []) (hi : IsLeast {i | n <+: t.drop i} i) (e : List α) :
    IsLeast {i | n <+: (t ++ e).drop i} i := by
  have hpos : 0 < n.length := List.length_pos_iff.2 hn
  have hlen : n.length ≤ t.length - i := by
    have := List.IsPrefix.length_le hi.1
    rwa [List.length_drop] at this
  have ht : ∀ j, t.drop j <+: (t ++ e).drop j := fun j => (List.prefix_append t e).drop j
  refine ⟨hi.1.trans (ht i), fun j hj => Nat.le_of_not_lt fun hlt => ?_⟩
  have hin : n <+: t.drop j := List.prefix_of_prefix_length_le hj (ht j) (by rw [List.length_drop]; omega)
  exact absurd (hi.2 hin) (Nat.not_le_of_lt hlt)

/-- **Behind a text without its first element**, the pattern first occurs at once. -/
theorem isLeast_of_not_mem {a : α} {x : List α} (ha : a ∉ x) (n y : List α) :
    IsLeast {i | a :: n <+: (x ++ (a :: n) ++ y).drop i} x.length := by
  rw [List.append_assoc]
  refine ⟨?_, fun i hi => Nat.le_of_not_lt fun hlt => ha ?_⟩
  · show a :: n <+: (x ++ (a :: n ++ y)).drop x.length
    rw [List.drop_left]
    exact List.prefix_append (a :: n) y
  · have hp : a :: n <+: (x ++ (a :: n ++ y)).drop i := hi
    rw [List.drop_append_of_le_length (Nat.le_of_lt hlt), List.drop_eq_getElem_cons hlt, List.cons_append,
      List.cons_prefix_cons] at hp
    rw [hp.1]
    exact List.getElem_mem hlt

/-- **Behind a text and a separator**, neither of which can have a part of the pattern that ends behind it. -/
theorem isLeast_behind {x sep : List α} (hx : ¬ n <:+: x) (hne : sep ≠ []) (hsep : ∀ a ∈ sep, a ∉ n)
    (y : List α) : IsLeast {i | n <+: (x ++ sep ++ n ++ y).drop i} (x ++ sep).length := by
  have hsep0 : 0 < sep.length := List.length_pos_iff.2 hne
  rw [List.append_assoc]
  refine ⟨?_, fun i hi => Nat.le_of_not_lt fun hlt => ?_⟩
  · show n <+: (x ++ sep ++ (n ++ y)).drop (x ++ sep).length
    rw [List.drop_left]
    exact List.prefix_append n y
  · obtain ⟨z, hz⟩ : n <+: (x ++ sep ++ (n ++ y)).drop i := hi
    rw [List.length_append] at hlt
    by_cases hle : i + n.length ≤ x.length
    · refine hx (List.IsInfix.trans ?_ (x.drop_suffix i).isInfix)
      refine (List.prefix_of_prefix_length_le ⟨z, hz⟩ ?_ (by rw [List.length_drop]; omega)).isInfix
      exact ((List.prefix_append x sep).trans (List.prefix_append _ _)).drop i
    · -- the place of the separator that the pattern covers
      have hpos : 0 < n.length := List.length_pos_iff.2 fun h0 => hx (h0 ▸ List.nil_infix)
      obtain ⟨j, hij, hxj, hjn, hjs⟩ : ∃ j, i ≤ j ∧ x.length ≤ j ∧ j < i + n.length ∧ j < x.length + sep.length :=
        ⟨max i x.length, by omega, by omega, by omega, by omega⟩
      have hn : n[j - i]? = (x ++ sep ++ (n ++ y))[j]? := by
        have hleft : (n ++ z)[j - i]? = n[j - i]? := List.getElem?_append_left (by omega)
        rw [← hleft, hz, List.getElem?_drop]
        congr 1
        omega
      have hs : (x ++ sep ++ (n ++ y))[j]? = sep[j - x.length]? := by
        rw [List.getElem?_append_left (by rw [List.length_append]; omega), List.getElem?_append_right (by omega)]
      rw [hs, List.getElem?_eq_getElem (show j - x.length < sep.length by omega)] at hn
      exact hsep _ (List.getElem_mem _) (List.mem_of_getElem? hn)

theorem exists_isLeast (h : n <:+: t) : ∃ i, IsLeast {i | n <+: t.drop i} i := by
  obtain ⟨s, u, rfl⟩ := h
  have hex : ∃ i, n <+: (s ++ n ++ u).drop i := by
    refine ⟨s.length, ?_⟩
    rw [List.append_assoc, List.drop_left]
    exact List.prefix_append n u
  classical
  exact ⟨Nat.find hex, Nat.find_spec hex, fun j hj => Nat.find_min' hex hj⟩

end

/-! ## What follows the first occurrence -/

section

variable {α : Type} [DecidableEq α] {n q r : List α} {i : Nat}

/-- The text behind the first occurrence. -/
def after (n q : List α) : Option (List α) := if n <:+: q then some (q.drop (firstPartial n q + n.length)) else none

theorem after_of_isLeast (h : IsLeast {i | n <+: q.drop i} i) : after n q = some (q.drop (i + n.length)) := by
  have hin : n <:+: q := (show n <+: q.drop i from h.1).isInfix.trans (List.drop_suffix _ _).isInfix
  rw [after, if_pos hin, firstPartial_of_isLeast h]

theorem after_append (x e : List α) (h : IsLeast {i | n <+: (x ++ n ++ e).drop i} x.length) :
    after n (x ++ n ++ e) = some e := by
  rw [after_of_isLeast h, ← List.length_append, List.drop_left]

theorem after_suffix (h : after n q = some r) : r <:+ q := by
  unfold after at h
  split at h
  · cases h
    exact List.drop_suffix _ q
  · cases h

/-- **A text that ends with the first occurrence.** -/
theorem after_block {x : List α} (hn : n ≠ []) (h : IsLeast {i | n <+: x.drop i} (x.length - n.length)) (e : List α) :
    after n (x ++ e) = some e := by
  have hlen : n.length ≤ (x.drop (x.length - n.length)).length := (show n <+: _ from h.1).length_le
  rw [List.length_drop] at hlen
  rw [after_of_isLeast (isLeast_append hn h e), show x.length - n.length + n.length = x.length by omega, List.drop_left]

/-- **The first occurrence stays the first** when the text grows. -/
theorem after_grows (hn : n ≠ []) (e : List α) (h : after n q = some r) : after n (q ++ e) = some (r ++ e) := by
  unfold after at h
  split at h
  · rename_i hin
    cases h
    obtain ⟨i, hi⟩ := exists_isLeast hin
    have hle : i + n.length ≤ q.length := by
      have := (show n <+: q.drop i from hi.1).length_le
      have hpos := List.length_pos_iff.2 hn
      rw [List.length_drop] at this
      omega
    rw [after_of_isLeast (isLeast_append hn hi e), firstPartial_of_isLeast hi, List.drop_append_of_le_length hle]
  · cases h

end

end Seek
