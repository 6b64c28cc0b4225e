import Mathlib.FieldTheory.Finite.Basic
import Mathlib.Order.Bounds.Basic
import Mathlib.Tactic.Ring
/-!
# Tripling — how far a number gets that is tripled modulo a power of two

The numbers `r * 3 ^ j % 2 ^ w` come back to where they began, so they have a greatest one, `reach w r`.  Tripling keeps
the power of two in `r`; what is left is odd, and stays 1 or 3, or 5 or 7, modulo 8.  Every number of that kind is met
(`exists_pow_modEq`), so the greatest is the last one below `2 ^ w`.
-/
namespace Tripling

/-- The numbers `r` is tripled to. -/
def orbit (w r : Nat) : Set Nat := {x | ∃ j, r * 3 ^ j % 2 ^ w = x}

/-- The greatest of them. -/
def reach (w r : Nat) : Nat :=
  let g := Nat.gcd r (2 ^ w)
  if 8 * g ≤ 2 ^ w ∧ (r / g % 8 = 1 ∨ r / g % 8 = 3) then 2 ^ w - 5 * g else 2 ^ w - g

/-! ## The orbit -/

theorem exists_period (w : Nat) :
    ∃ p, 0 < p ∧ p ≤ 2 ^ w ∧ ∀ r j m, r * 3 ^ (j + p * m) % 2 ^ w = r * 3 ^ j % 2 ^ w := by
  have hcop : Nat.Coprime 3 (2 ^ w) := Nat.Coprime.pow_right w (by decide)
  have hone : 3 ^ (2 ^ w).totient ≡ 1 [MOD 2 ^ w] := Nat.ModEq.pow_totient hcop
  refine ⟨(2 ^ w).totient, Nat.totient_pos.2 (Nat.two_pow_pos w), Nat.totient_le _, fun r j m => ?_⟩
  have hm : 3 ^ ((2 ^ w).totient * m) ≡ 1 [MOD 2 ^ w] := by
    rw [pow_mul]
    simpa only [one_pow] using hone.pow m
  have := (hm.mul_left (r * 3 ^ j))
  rwa [mul_one, mul_assoc, ← pow_add] at this

/-- A number of the orbit is met in `2 ^ w` steps. -/
theorem exists_lt_of_mem {w r x : Nat} (h : x ∈ orbit w r) : ∃ j < 2 ^ w, r * 3 ^ j % 2 ^ w = x := by
  obtain ⟨j, rfl⟩ := h
  obtain ⟨p, hpos, hle, hp⟩ := exists_period w
  refine ⟨j % p, Nat.lt_of_lt_of_le (Nat.mod_lt _ hpos) hle, ?_⟩
  rw [← hp r (j % p) (j / p), Nat.mod_add_div]

/-- **A step does not change the orbit**: it goes round. -/
theorem orbit_triple (w r : Nat) : orbit w (r * 3 % 2 ^ w) = orbit w r := by
  have hstep : ∀ j, r * 3 % 2 ^ w * 3 ^ j % 2 ^ w = r * 3 ^ (j + 1) % 2 ^ w := fun j => by
    rw [Nat.mod_mul_mod, mul_assoc, ← pow_succ']
  ext x
  constructor
  · rintro ⟨j, rfl⟩
    exact ⟨j + 1, (hstep j).symm⟩
  · rintro ⟨j, rfl⟩
    obtain ⟨p, hpos, -, hp⟩ := exists_period w
    refine ⟨j + (p - 1), ?_⟩
    rw [hstep, ← hp r j 1]
    congr 3
    omega

/-! ## The powers of three -/

/-- How the last bit of a power of three that is not fixed behaves. -/
theorem pow_two_pow : ∀ n, ∃ u, 3 ^ 2 ^ (n + 1) = 1 + 2 ^ (n + 3) * (2 * u + 1)
  | 0 => ⟨0, rfl⟩
  | n + 1 => by
    obtain ⟨u, hu⟩ := pow_two_pow n
    refine ⟨u + 2 ^ (n + 1) * (2 * u + 1) ^ 2, ?_⟩
    rw [pow_succ 2 (n + 1), pow_mul, hu]
    ring

/-- Numbers that agree below a bit agree with it too, or differ in it. -/
theorem mod_double {x t m : Nat} (h : x % m = t % m) : x % (m * 2) = t % (m * 2) ∨ (x + m) % (m * 2) = t % (m * 2) := by
  rcases Nat.eq_zero_or_pos m with rfl | hm
  · left
    simpa using h
  · have hx : (x + m) % m = x % m := Nat.add_mod_right x m
    have hdiv : (x + m) / m = x / m + 1 := Nat.add_div_right x hm
    rw [Nat.mod_mul, Nat.mod_mul, Nat.mod_mul, hx, hdiv, h]
    rcases Nat.mod_two_eq_zero_or_one (x / m) with h0 | h0 <;>
      rcases Nat.mod_two_eq_zero_or_one (t / m) with h1 | h1
    · exact Or.inl (by rw [h0, h1])
    · exact Or.inr (by rw [Nat.add_mod, h0, h1])
    · exact Or.inr (by rw [Nat.add_mod, h0, h1])
    · exact Or.inl (by rw [h0, h1])

/-- **Tripling an odd number meets everything that is the same modulo 8**, one bit after the other. -/
theorem exists_pow_modEq {o t : Nat} (ho : o % 2 = 1) (h8 : o % 8 = t % 8) :
    ∀ n, ∃ j, o * 3 ^ j % 2 ^ (n + 3) = t % 2 ^ (n + 3)
  | 0 => ⟨0, by simpa using h8⟩
  | n + 1 => by
    obtain ⟨j, hj⟩ := exists_pow_modEq ho h8 n
    obtain ⟨u, hu⟩ := pow_two_pow n
    rw [show 2 ^ (n + 1 + 3) = 2 ^ (n + 3) * 2 by ring]
    rcases mod_double hj with h | h
    · exact ⟨j, h⟩
    · refine ⟨j + 2 ^ (n + 1), h ▸ ?_⟩
      -- the bit is flipped: an odd multiple of it is added
      have hodd : o * 3 ^ j % 2 = 1 := by
        rw [Nat.mul_mod, ho, Nat.pow_mod]
        simp
      have hadd : o * 3 ^ (j + 2 ^ (n + 1)) = o * 3 ^ j + 2 ^ (n + 3) * (o * 3 ^ j * (2 * u + 1)) := by
        rw [pow_add, hu]
        ring
      obtain ⟨v, hv⟩ : ∃ v, o * 3 ^ j * (2 * u + 1) = 2 * v + 1 := by
        refine ⟨o * 3 ^ j * (2 * u + 1) / 2, ?_⟩
        have : o * 3 ^ j * (2 * u + 1) % 2 = 1 := by
          rw [Nat.mul_mod, hodd, Nat.mul_add_mod]
        omega
      rw [hadd, hv, show o * 3 ^ j + 2 ^ (n + 3) * (2 * v + 1) = o * 3 ^ j + 2 ^ (n + 3) + 2 ^ (n + 3) * 2 * v by ring,
        Nat.add_mul_mod_self_left]

/-! ## The greatest number -/

theorem pow_mod_eight (o : Nat) : ∀ j, o * 3 ^ j % 8 = o % 8 ∨ o * 3 ^ j % 8 = o * 3 % 8
  | 0 => Or.inl (by rw [pow_zero, mul_one])
  | j + 1 => by
    rw [pow_succ, ← mul_assoc]
    have := pow_mod_eight o j
    omega

/-- **The greatest number an odd one is tripled to.** -/
theorem isGreatest_odd {o : Nat} (ho : o % 2 = 1) : ∀ k, 0 < k → IsGreatest (orbit k o)
    (if 8 ≤ 2 ^ k ∧ (o % 8 = 1 ∨ o % 8 = 3) then 2 ^ k - 5 else 2 ^ k - 1)
  | 1, _ => by
    have h2 : ∀ x ∈ orbit 1 o, x < 2 := by
      rintro x ⟨j, rfl⟩
      exact Nat.mod_lt _ (by decide)
    rw [if_neg (by simp)]
    exact ⟨⟨0, by simpa using ho⟩, fun x hx => Nat.le_of_lt_succ (h2 x hx)⟩
  | 2, _ => by
    have h4 : ∀ x ∈ orbit 2 o, x < 4 := by
      rintro x ⟨j, rfl⟩
      exact Nat.mod_lt _ (by decide)
    rw [if_neg (by simp)]
    refine ⟨?_, fun x hx => Nat.le_of_lt_succ (h4 x hx)⟩
    rcases (by omega : o % 4 = 3 ∨ o % 4 = 1) with h | h
    · exact ⟨0, by simpa using h⟩
    · exact ⟨1, show o * 3 ^ 1 % 4 = 3 by omega⟩
  | n + 3, _ => by
    obtain ⟨q, hq⟩ : ∃ q, 2 ^ (n + 3) = 8 * q := ⟨2 ^ n, by ring⟩
    have hpos : 0 < 2 ^ (n + 3) := Nat.two_pow_pos _
    have hmem : ∀ t, t < 2 ^ (n + 3) → o % 8 = t % 8 ∨ o * 3 % 8 = t % 8 → t ∈ orbit (n + 3) o := by
      rintro t ht (h8 | h8)
      · obtain ⟨j, hj⟩ := exists_pow_modEq ho h8 n
        exact ⟨j, hj.trans (Nat.mod_eq_of_lt ht)⟩
      · obtain ⟨j, hj⟩ := exists_pow_modEq (o := o * 3) (by omega) h8 n
        exact ⟨j + 1, by rw [pow_succ', ← mul_assoc, hj, Nat.mod_eq_of_lt ht]⟩
    have hbelow : ∀ x ∈ orbit (n + 3) o, x < 2 ^ (n + 3) ∧ (x % 8 = o % 8 ∨ x % 8 = o * 3 % 8) := by
      rintro x ⟨j, rfl⟩
      refine ⟨Nat.mod_lt _ hpos, ?_⟩
      rw [Nat.mod_mod_of_dvd _ ⟨q, hq⟩]
      exact pow_mod_eight o j
    split
    · rename_i h
      exact ⟨hmem _ (by omega) (by omega), fun x hx => by have := hbelow x hx; omega⟩
    · rename_i h
      exact ⟨hmem _ (by omega) (by omega), fun x hx => by have := hbelow x hx; omega⟩

theorem reach_zero (w : Nat) : reach w 0 = 0 := by
  rw [reach, Nat.gcd_zero_left, if_neg (by have := Nat.two_pow_pos w; omega), Nat.sub_self]

/-- **`reach` is the greatest number that is met.** -/
theorem isGreatest_reach {w r : Nat} (hr : r < 2 ^ w) : IsGreatest (orbit w r) (reach w r) := by
  rcases Nat.eq_zero_or_pos r with rfl | hpos
  · refine ⟨⟨0, by rw [reach_zero, Nat.zero_mul, Nat.zero_mod]⟩, ?_⟩
    rintro x ⟨j, rfl⟩
    rw [reach_zero, Nat.zero_mul, Nat.zero_mod]
  · obtain ⟨a, haw, ha⟩ := (Nat.dvd_prime_pow Nat.prime_two).1 (Nat.gcd_dvd_right r (2 ^ w))
    obtain ⟨o, ho⟩ := Nat.gcd_dvd_left r (2 ^ w)
    obtain ⟨k, rfl⟩ := Nat.exists_eq_add_of_le haw
    rw [ha] at ho
    have hga : 0 < 2 ^ a := Nat.two_pow_pos a
    have hk : 0 < k := by
      refine Nat.pos_of_ne_zero fun h0 => ?_
      subst h0
      have := Nat.le_of_dvd hpos ⟨o, ho⟩
      rw [Nat.add_zero] at hr
      omega
    have hodd : o % 2 = 1 := by
      refine (Nat.mod_two_eq_zero_or_one o).resolve_left fun h0 => ?_
      obtain ⟨v, rfl⟩ := Nat.dvd_of_mod_eq_zero h0
      have h1 : 2 ^ (a + 1) ∣ Nat.gcd r (2 ^ (a + k)) :=
        Nat.dvd_gcd ⟨v, by rw [ho]; ring⟩ (Nat.pow_dvd_pow 2 (by omega))
      have h2 := Nat.le_of_dvd (by rw [ha]; exact hga) h1
      rw [ha, pow_succ] at h2
      omega
    have hdiv : r / 2 ^ a = o := by rw [ho, Nat.mul_div_cancel_left _ hga]
    have horbit : ∀ j, r * 3 ^ j % 2 ^ (a + k) = 2 ^ a * (o * 3 ^ j % 2 ^ k) := fun j => by
      rw [ho, pow_add, mul_assoc, Nat.mul_mod_mul_left]
    obtain ⟨⟨j, hj⟩, hle⟩ := isGreatest_odd hodd k hk
    have hreach : reach (a + k) r =
        2 ^ a * (if 8 ≤ 2 ^ k ∧ (o % 8 = 1 ∨ o % 8 = 3) then 2 ^ k - 5 else 2 ^ k - 1) := by
      have h8 : 8 * 2 ^ a ≤ 2 ^ (a + k) ↔ 8 ≤ 2 ^ k := by
        rw [pow_add, mul_comm, Nat.mul_le_mul_left_iff hga]
      simp only [reach, ha, hdiv, h8]
      split
      · rw [Nat.mul_sub, pow_add, mul_comm 5]
      · rw [Nat.mul_sub, pow_add, mul_one]
    refine ⟨⟨j, ?_⟩, ?_⟩
    · rw [horbit, hj, hreach]
    · rintro x ⟨i, rfl⟩
      rw [horbit, hreach]
      exact Nat.mul_le_mul_left _ (hle ⟨i, rfl⟩)

theorem le_reach {w r : Nat} (hr : r < 2 ^ w) : r ≤ reach w r :=
  (isGreatest_reach hr).2 ⟨0, by rw [pow_zero, mul_one, Nat.mod_eq_of_lt hr]⟩

theorem reach_lt {w r : Nat} (hr : r < 2 ^ w) : reach w r < 2 ^ w := by
  obtain ⟨⟨j, hj⟩, -⟩ := isGreatest_reach hr
  rw [← hj]
  exact Nat.mod_lt _ (Nat.two_pow_pos w)

theorem reach_triple {w r : Nat} (hr : r < 2 ^ w) : reach w (r * 3 % 2 ^ w) = reach w r := by
  have h := isGreatest_reach (Nat.mod_lt (r * 3) (Nat.two_pow_pos w))
  rw [orbit_triple] at h
  exact h.unique (isGreatest_reach hr)

end Tripling
