-- SUMMARY: Counting up under an arbitrary bit mask.
import Mathlib.Data.Nat.Bitwise
import Mathlib.Data.Nat.Prime.Basic
import Mathlib.Tactic.Ring

/-!
# Masked counters

A ring index is advanced by `x ↦ (x + 1) & mask` on fixed-width words. Only the run of ones at
the low end of the mask counts.
-/

namespace MaskedCounter

variable {bits mask x y : Nat}

def next (bits mask x : Nat) : Nat := ((x + 1) % 2 ^ bits) &&& mask

/-- The number of values the counter cycles through. -/
def period (bits mask : Nat) : Nat := Nat.gcd (mask + 1) (2 ^ bits)

theorem exists_period_eq (bits mask : Nat) : ∃ t ≤ bits, period bits mask = 2 ^ t :=
  (Nat.dvd_prime_pow Nat.prime_two).mp (Nat.gcd_dvd_right _ _)

theorem period_pos (bits mask : Nat) : 0 < period bits mask :=
  Nat.gcd_pos_of_pos_left _ (Nat.succ_pos _)

/-- The mask ends in a run of ones. -/
theorem mask_mod_period (bits mask : Nat) :
    mask % period bits mask = period bits mask - 1 := by
  obtain ⟨k, hk⟩ : period bits mask ∣ mask + 1 := Nat.gcd_dvd_left _ _
  have hpos := period_pos bits mask
  generalize period bits mask = p at *
  cases k with
  | zero => simp at hk
  | succ k =>
    have hm : mask = p * k + (p - 1) := by
      rw [Nat.mul_succ] at hk
      omega
    rw [hm, Nat.mul_add_mod]
    exact Nat.mod_eq_of_lt (by omega)

/-- The run of ones is followed by a zero. -/
theorem mask_div_period_even (h : mask < 2 ^ bits) : mask / period bits mask % 2 = 0 := by
  by_contra hodd
  obtain ⟨t, ht, hp⟩ := exists_period_eq bits mask
  have hmod := mask_mod_period bits mask
  have hdiv := Nat.div_add_mod mask (period bits mask)
  rw [hmod] at hdiv
  rw [hp] at hodd hdiv
  have hpow : 0 < 2 ^ t := Nat.two_pow_pos t
  -- the bit above the run is set, so that twice the period still divides
  have hmask : mask + 1 = 2 ^ (t + 1) * (mask / 2 ^ t / 2 + 1) := by
    have heven : mask / 2 ^ t = 2 * (mask / 2 ^ t / 2) + 1 := by omega
    generalize mask / 2 ^ t = k at *
    generalize k / 2 = i at *
    subst heven
    rw [Nat.pow_succ]
    have : 2 ^ t * 2 * (i + 1) = 2 ^ t * (2 * i + 1) + 2 ^ t := by ring
    omega
  have hlt : t < bits := by
    refine lt_of_le_of_ne ht fun hbits => ?_
    subst hbits
    rw [Nat.div_eq_of_lt h] at hodd
    simp at hodd
  have hdvd : 2 ^ (t + 1) ∣ period bits mask :=
    Nat.dvd_gcd ⟨_, hmask⟩ (Nat.pow_dvd_pow 2 hlt)
  rw [hp] at hdvd
  have := Nat.le_of_dvd hpow hdvd
  omega

/-- Counting past an even number does not show under an even mask. -/
theorem succ_and_of_even {a b : Nat} (hb : b % 2 = 0) (ha : a % 2 = 0) :
    (a + 1) &&& b = a &&& b := by
  apply Nat.eq_of_testBit_eq
  intro i
  cases i with
  | zero => simp [hb]
  | succ i =>
    have hdiv : (a + 1) / 2 = a / 2 := by omega
    rw [Nat.testBit_and, Nat.testBit_and, Nat.testBit_succ, hdiv, ← Nat.testBit_succ]

/-- A value inside the mask keeps its bits above the run of ones; the bits in
the run count up. -/
theorem next_of_and_eq (h : mask < 2 ^ bits) (hx : x &&& mask = x) :
    next bits mask x =
      period bits mask * (x / period bits mask) +
        (x % period bits mask + 1) % period bits mask := by
  obtain ⟨t, ht, hp⟩ := exists_period_eq bits mask
  have hmod := mask_mod_period bits mask
  have heven := mask_div_period_even h
  rw [hp] at hmod heven ⊢
  have hxlt : x < 2 ^ bits := (hx ▸ Nat.and_le_right).trans_lt h
  have hhigh : x / 2 ^ t &&& mask / 2 ^ t = x / 2 ^ t := by rw [← Nat.and_div_two_pow, hx]
  have hxeven : x / 2 ^ t % 2 = 0 := by
    rw [← hhigh, ← Nat.pow_one 2, Nat.and_mod_two_pow, Nat.pow_one, heven, Nat.and_zero]
  have hpow : 0 < 2 ^ t := Nat.two_pow_pos t
  have hxsplit := Nat.div_add_mod x (2 ^ t)
  have hxmod := Nat.mod_lt x hpow
  -- the low bits of the result, then the high ones
  have hlow : next bits mask x % 2 ^ t = (x % 2 ^ t + 1) % 2 ^ t := by
    rw [next, Nat.and_mod_two_pow, hmod, Nat.and_two_pow_sub_one_eq_mod,
      Nat.mod_mod, Nat.mod_mod_of_dvd _ (Nat.pow_dvd_pow 2 ht), Nat.mod_add_mod]
  have hup : next bits mask x / 2 ^ t = x / 2 ^ t := by
    rw [next, Nat.and_div_two_pow]
    obtain ⟨k, rfl⟩ := Nat.exists_eq_add_of_le ht
    rw [Nat.pow_add, Nat.mod_mul_right_div_self]
    rw [Nat.pow_add] at hxlt
    have hk : x / 2 ^ t < 2 ^ k := Nat.div_lt_of_lt_mul hxlt
    by_cases hcarry : x % 2 ^ t + 1 < 2 ^ t
    · have hdiv : (x + 1) / 2 ^ t = x / 2 ^ t := by
        rw [← hxsplit, Nat.add_assoc, Nat.mul_add_div hpow, Nat.div_eq_of_lt hcarry,
          Nat.mul_add_div hpow, Nat.div_eq_of_lt hxmod]
      rw [hdiv, Nat.mod_eq_of_lt hk, hhigh]
    · have hdiv : (x + 1) / 2 ^ t = x / 2 ^ t + 1 := by
        have hx1 : x + 1 = 2 ^ t * (x / 2 ^ t + 1) := by
          rw [Nat.mul_succ]
          omega
        rw [hx1, Nat.mul_div_cancel_left _ hpow]
      rw [hdiv]
      -- the carry leaves the run of ones and is masked, or it leaves the word
      rcases Nat.lt_or_ge (x / 2 ^ t + 1) (2 ^ k) with hlt | hge
      · rw [Nat.mod_eq_of_lt hlt, succ_and_of_even heven hxeven, hhigh]
      · cases k with
        | zero =>
          have h0 : x / 2 ^ t = 0 := Nat.lt_one_iff.mp hk
          simp [h0]
        | succ k => rw [Nat.pow_succ] at hk hge; omega
  rw [← Nat.div_add_mod (next bits mask x) (2 ^ t), hlow, hup]

theorem next_and (bits mask x : Nat) : next bits mask x &&& mask = next bits mask x := by
  rw [next, Nat.and_assoc, Nat.and_self]

theorem iterate_next (h : mask < 2 ^ bits) (hx : x &&& mask = x) (j : Nat) :
    (next bits mask)^[j] x =
      period bits mask * (x / period bits mask) +
        (x % period bits mask + j) % period bits mask := by
  induction j with
  | zero => rw [Function.iterate_zero, id, Nat.add_zero, Nat.mod_mod, Nat.div_add_mod]
  | succ j ih =>
    have hin : (next bits mask)^[j] x &&& mask = (next bits mask)^[j] x := by
      cases j with
      | zero => exact hx
      | succ j => rw [Function.iterate_succ_apply', next_and]
    have hpos := period_pos bits mask
    rw [Function.iterate_succ_apply', next_of_and_eq h hin, ih, Nat.mul_add_div hpos,
      Nat.mul_add_mod, Nat.mod_mod, Nat.div_eq_of_lt (Nat.mod_lt _ hpos), Nat.add_zero,
      Nat.mod_add_mod, Nat.add_assoc]

/-- The values the counter reaches in fewer than `n` steps. -/
theorem exists_iterate_eq_iff (h : mask < 2 ^ bits) (hx : x &&& mask = x) (n : Nat) :
    (∃ j < n, (next bits mask)^[j] x = y) ↔
      y / period bits mask = x / period bits mask ∧
        (y % period bits mask + period bits mask - x % period bits mask) % period bits
          mask < n := by
  have hpos := period_pos bits mask
  have hx' := Nat.mod_lt x hpos
  constructor
  · rintro ⟨j, hj, rfl⟩
    rw [iterate_next h hx, Nat.mul_add_div hpos, Nat.mul_add_mod, Nat.mod_mod,
      Nat.div_eq_of_lt (Nat.mod_lt _ hpos), Nat.add_zero, Nat.add_sub_assoc hx'.le,
      Nat.mod_add_mod]
    generalize period bits mask = p at *
    have hsum : x % p + j + (p - x % p) = j + p := by omega
    rw [hsum, Nat.add_mod_right]
    exact ⟨rfl, (Nat.mod_le j p).trans_lt hj⟩
  · rintro ⟨hdiv, hlt⟩
    refine ⟨_, hlt, ?_⟩
    rw [iterate_next h hx, Nat.add_mod_mod, ← hdiv]
    generalize period bits mask = p at *
    have hsum : x % p + (y % p + p - x % p) = y % p + p := by omega
    rw [hsum, Nat.add_mod_right, Nat.mod_mod, Nat.div_add_mod]

end MaskedCounter
