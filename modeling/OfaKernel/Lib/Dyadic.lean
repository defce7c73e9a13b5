-- SUMMARY: Aligned power-of-two blocks.
import Mathlib.Data.Nat.Bitwise
import Mathlib.Order.Interval.Set.Basic
import Mathlib.Tactic.Ring

/-!
# Dyadic blocks

The block of order `o` and index `s` is the interval `[s * 2 ^ o, (s + 1) * 2 ^ o)`.
-/

namespace Dyadic

/-- The points of the block of order `o` and index `s`. -/
def block (o s : Nat) : Set Nat := Set.Ico (s * 2 ^ o) ((s + 1) * 2 ^ o)

theorem mem_block {o s x : Nat} : x ∈ block o s ↔ x / 2 ^ o = s := by
  rw [block, Set.mem_Ico, Nat.div_eq_iff (Nat.two_pow_pos _)]
  constructor
  · have := Nat.succ_mul s (2 ^ o)
    simp only [Nat.succ_eq_add_one] at this
    omega
  · have := Nat.succ_mul s (2 ^ o)
    have hpos : 0 < 2 ^ o := Nat.two_pow_pos _
    simp only [Nat.succ_eq_add_one] at this
    omega

theorem start_div (o s : Nat) : s * 2 ^ o / 2 ^ o = s := Nat.mul_div_cancel _ (Nat.two_pow_pos _)

/-- A block of index `s < 2 ^ (m - o)` starts below `2 ^ m`. -/
theorem start_lt {m o s : Nat} (ho : o ≤ m) (hs : s < 2 ^ (m - o)) : s * 2 ^ o < 2 ^ m := by
  calc s * 2 ^ o < 2 ^ (m - o) * 2 ^ o := Nat.mul_lt_mul_of_pos_right hs (Nat.two_pow_pos _)
    _ = 2 ^ m := by rw [← pow_add, Nat.sub_add_cancel ho]

/-- Such a block lies below `2 ^ m`. -/
theorem lt_of_mem_block {m o s x : Nat} (ho : o ≤ m) (hs : s < 2 ^ (m - o)) (hx : x ∈ block o s) :
    x < 2 ^ m := by
  rw [mem_block] at hx
  have hpow : 2 ^ (m - o) * 2 ^ o = 2 ^ m := by rw [← pow_add, Nat.sub_add_cancel ho]
  rw [← hpow, ← Nat.div_lt_iff_lt_mul (Nat.two_pow_pos o), hx]
  exact hs

/-! ## Buddies -/

theorem xor_one (s : Nat) : s ^^^ 1 = if s % 2 = 0 then s + 1 else s - 1 := by
  split
  · next h => exact Nat.xor_one_of_even (Nat.even_iff.mpr h)
  · next h => exact Nat.xor_one_of_odd (Nat.odd_iff.mpr (by omega))

theorem xor_one_ne (s : Nat) : s ^^^ 1 ≠ s := by
  rw [xor_one]; split <;> omega

theorem xor_one_xor_one (s : Nat) : s ^^^ 1 ^^^ 1 = s := by
  rw [Nat.xor_assoc, Nat.xor_self, Nat.xor_zero]

theorem two_mul_xor_one (s : Nat) : (2 * s) ^^^ 1 = 2 * s + 1 := by
  rw [xor_one, if_pos (by omega)]

/-- A block and its buddy are the halves of their parent. -/
theorem div_eq_or_xor {x o s : Nat} :
    x / 2 ^ (o + 1) = s / 2 ↔ x / 2 ^ o = s ∨ x / 2 ^ o = s ^^^ 1 := by
  have h : x / 2 ^ (o + 1) = x / 2 ^ o / 2 := by rw [pow_succ, Nat.div_div_eq_div_mul]
  rw [h, xor_one]
  split <;> omega

end Dyadic
