-- SUMMARY: Fixed-width C integers with explicit wrap-around.
import Mathlib.Data.Nat.Bitwise

/-!
# C integers

An unsigned 32-bit value is a `Nat` below `2 ^ 32`, a signed one an `Int` in
`[-2 ^ 31, 2 ^ 31)`. The operations wrap, as the kernel is compiled to do.
-/

namespace U32

/-- `(u32)-1`, the failure value of the allocators. -/
def allOnes : Nat := 2 ^ 32 - 1

/-- Conversion to `u32`. -/
@[irreducible] def wrap (n : Nat) : Nat := n % 2 ^ 32

/-- `++n`. -/
@[irreducible] def inc (n : Nat) : Nat := (n + 1) % 2 ^ 32

/-- `--n`. -/
@[irreducible] def dec (n : Nat) : Nat := (n + (2 ^ 32 - 1)) % 2 ^ 32

/-- `a - b`. -/
@[irreducible] def sub (a b : Nat) : Nat := (a + (2 ^ 32 - b % 2 ^ 32)) % 2 ^ 32

theorem wrap_of_lt {n : Nat} (h : n < 2 ^ 32) : wrap n = n := by
  unfold wrap; omega

theorem wrap_lt (n : Nat) : wrap n < 2 ^ 32 := by
  unfold wrap; omega

/-- Masking with `~(2 ^ a - 1)` rounds down to a multiple of `2 ^ a`. -/
theorem and_high {x a : Nat} (hx : x < 2 ^ 32) (ha : a < 32) :
    x &&& (2 ^ 32 - 2 ^ a) = x / 2 ^ a * 2 ^ a := by
  have hsplit : 2 ^ 32 - 2 ^ a = 2 ^ a * (2 ^ (32 - a) - 1) := by
    rw [Nat.mul_sub, Nat.mul_one, ← Nat.pow_add, Nat.add_sub_cancel' (by omega)]
  apply Nat.eq_of_testBit_eq
  intro i
  rw [hsplit, Nat.testBit_and, Nat.testBit_two_pow_mul, Nat.testBit_two_pow_sub_one,
    Nat.mul_comm, Nat.testBit_two_pow_mul, Nat.testBit_div_two_pow]
  by_cases hi : a ≤ i
  · by_cases h32 : i < 32
    · simp [hi, show i - a < 32 - a by omega]
    · have hbit : x.testBit i = false :=
        Nat.testBit_lt_two_pow (hx.trans_le (Nat.pow_le_pow_right (by decide) (by omega)))
      simp [hi, hbit]
  · simp [hi]

theorem inc_of_lt {n : Nat} (h : n + 1 < 2 ^ 32) : inc n = n + 1 := by
  unfold inc; omega

theorem dec_of_pos {n : Nat} (h₀ : 0 < n) (h : n < 2 ^ 32) : dec n = n - 1 := by
  unfold dec; omega

theorem sub_of_le {a b : Nat} (h : b ≤ a) (ha : a < 2 ^ 32) : sub a b = a - b := by
  unfold sub; omega

theorem dec_eq_sub_one (n : Nat) : dec n = sub n 1 := by
  unfold dec sub; omega

theorem dec_inc {n : Nat} (h : n < 2 ^ 32) : dec (inc n) = n := by
  unfold inc dec; omega

theorem inc_dec {n : Nat} (h : n < 2 ^ 32) : inc (dec n) = n := by
  unfold inc dec; omega

theorem inc_wrap (n : Nat) : inc (wrap n) = wrap (n + 1) := by
  unfold inc wrap; omega

theorem dec_wrap (n : Nat) : dec (wrap (n + 1)) = wrap n := by
  unfold dec wrap; omega

end U32

namespace I32

/-- Conversion of an integer to `int`. -/
def wrap (n : Int) : Int := (n + 2 ^ 31) % 2 ^ 32 - 2 ^ 31

theorem wrap_of_range {n : Int} (h₁ : -2 ^ 31 ≤ n) (h₂ : n < 2 ^ 31) : wrap n = n := by
  unfold wrap; omega

theorem wrap_range (n : Int) : -2 ^ 31 ≤ wrap n ∧ wrap n < 2 ^ 31 := by
  unfold wrap; omega

theorem wrap_wrap_add (n k : Int) : wrap (wrap n + k) = wrap (n + k) := by
  unfold wrap; omega

/-- Reading an unsigned 32-bit value as `int`. -/
theorem wrap_natCast {n : Nat} (h : n < 2 ^ 32) :
    wrap n = if n < 2 ^ 31 then (n : Int) else n - 2 ^ 32 := by
  unfold wrap; split <;> omega

end I32
