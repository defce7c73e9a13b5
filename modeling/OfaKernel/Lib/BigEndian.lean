-- SUMMARY: Byte memory read and written as big-endian words.
import Mathlib.Data.Nat.Bitwise

/-!
# Big-endian words

A memory is a byte for each address. Its bits are numbered with the most significant bit of byte
0 first, so that a big-endian word is a range of them.
-/

namespace BigEndian

abbrev Mem := Nat → BitVec 8

/-- Bit `b` of the memory. -/
def bit (m : Mem) (b : Nat) : Bool := (m (b / 8)).getLsbD (7 - b % 8)

/-- The word of `n` bytes at `a`. -/
def read (m : Mem) (a : Nat) : Nat → Nat
  | 0 => 0
  | n + 1 => 2 ^ 8 * read m a n + (m (a + n)).toNat

/-- The word `v` of `n` bytes is stored at `a`. -/
def write (m : Mem) (a n v : Nat) : Mem := fun x =>
  if a ≤ x ∧ x < a + n then BitVec.ofNat 8 (v >>> (8 * (a + n - 1 - x))) else m x

/-- `n` bytes of `src` at `from` are copied to `a`. -/
def copy (m : Mem) (a : Nat) (src : Mem) (start n : Nat) : Mem := fun x =>
  if a ≤ x ∧ x < a + n then src (start + (x - a)) else m x

/-- `n` bytes at `a` are set to 0. -/
def clear (m : Mem) (a n : Nat) : Mem := copy m a (fun _ => 0) 0 n

variable (m src : Mem) (a n v b x : Nat)

theorem read_lt : read m a n < 2 ^ (8 * n) := by
  induction n with
  | zero => simp [read]
  | succ n ih =>
    have hpow : 2 ^ (8 * (n + 1)) = 2 ^ 8 * 2 ^ (8 * n) := by
      rw [← Nat.pow_add]
      congr 1
      omega
    rw [read, hpow]
    omega

theorem testBit_read {j : Nat} (hj : j < 8 * n) :
    (read m a n).testBit j = bit m (8 * (a + n) - 1 - j) := by
  induction n generalizing j with
  | zero => omega
  | succ n ih =>
    rw [read, Nat.testBit_two_pow_mul_add _ (m (a + n)).isLt]
    by_cases hlow : j < 8
    · have hdiv : (8 * (a + (n + 1)) - 1 - j) / 8 = a + n := by omega
      have hmod : 7 - (8 * (a + (n + 1)) - 1 - j) % 8 = j := by omega
      rw [if_pos hlow, bit, hdiv, hmod, BitVec.testBit_toNat]
    · have hidx : 8 * (a + n) - 1 - (j - 8) = 8 * (a + (n + 1)) - 1 - j := by omega
      rw [if_neg hlow, ih (by omega), hidx]

theorem read_eq_zero (h : ∀ x, a ≤ x → x < a + n → m x = 0) : read m a n = 0 := by
  induction n with
  | zero => rfl
  | succ n ih =>
    have hlast : m (a + n) = 0 := h _ (by omega) (by omega)
    rw [read, ih fun x hlo hhi => h x hlo (by omega), hlast]
    rfl

theorem byte_eq_of_bits {m m' : Mem} {x x' : Nat}
    (h : ∀ k, k < 8 → bit m (8 * x + k) = bit m' (8 * x' + k)) : m x = m' x' := by
  apply BitVec.eq_of_getLsbD_eq
  intro i hi
  have hb := h (7 - i) (by omega)
  have hdiv : ∀ y, (8 * y + (7 - i)) / 8 = y := by omega
  have hmod : ∀ y, 7 - (8 * y + (7 - i)) % 8 = i := by omega
  rwa [bit, bit, hdiv, hdiv, hmod, hmod] at hb

theorem bit_write :
    bit (write m a n v) b =
      if 8 * a ≤ b ∧ b < 8 * (a + n) then v.testBit (8 * (a + n) - 1 - b) else bit m b := by
  have hrange : (a ≤ b / 8 ∧ b / 8 < a + n) ↔ (8 * a ≤ b ∧ b < 8 * (a + n)) := by omega
  unfold bit write
  by_cases hb : 8 * a ≤ b ∧ b < 8 * (a + n)
  · have hidx : 8 * (a + n - 1 - b / 8) + (7 - b % 8) = 8 * (a + n) - 1 - b := by omega
    rw [if_pos hb, if_pos (hrange.mpr hb), BitVec.getLsbD_ofNat, Nat.testBit_shiftRight, hidx]
    simp
    omega
  · rw [if_neg hb, if_neg (hrange.not.mpr hb)]

theorem bit_copy {start : Nat} :
    bit (copy m a src start n) b =
      if 8 * a ≤ b ∧ b < 8 * (a + n) then bit src (8 * start + (b - 8 * a)) else bit m b := by
  have hrange : (a ≤ b / 8 ∧ b / 8 < a + n) ↔ (8 * a ≤ b ∧ b < 8 * (a + n)) := by omega
  unfold bit copy
  by_cases hb : 8 * a ≤ b ∧ b < 8 * (a + n)
  · have hdiv : (8 * start + (b - 8 * a)) / 8 = start + (b / 8 - a) := by omega
    have hmod : (8 * start + (b - 8 * a)) % 8 = b % 8 := by omega
    rw [if_pos hb, if_pos (hrange.mpr hb), hdiv, hmod]
  · rw [if_neg hb, if_neg (hrange.not.mpr hb)]

theorem write_of_not (hx : ¬(a ≤ x ∧ x < a + n)) : write m a n v x = m x := if_neg hx

theorem copy_of_not {start : Nat} (hx : ¬(a ≤ x ∧ x < a + n)) : copy m a src start n x = m x :=
  if_neg hx

theorem read_congr {m m' : Mem} {a n : Nat} (h : ∀ x, a ≤ x → x < a + n → m x = m' x) :
    read m a n = read m' a n := by
  induction n with
  | zero => rfl
  | succ n ih =>
    have hlast : m (a + n) = m' (a + n) := h _ (by omega) (by omega)
    rw [read, read, ih fun x hlo hhi => h x hlo (by omega), hlast]

theorem read_write : read (write m a n v) a n = v % 2 ^ (8 * n) := by
  apply Nat.eq_of_testBit_eq
  intro j
  by_cases hj : j < 8 * n
  · have hrange : 8 * a ≤ 8 * (a + n) - 1 - j ∧ 8 * (a + n) - 1 - j < 8 * (a + n) := by omega
    have hidx : 8 * (a + n) - 1 - (8 * (a + n) - 1 - j) = j := by omega
    rw [testBit_read _ _ _ hj, bit_write, if_pos hrange, hidx]
    simp [hj]
  · have hpow : 2 ^ (8 * n) ≤ 2 ^ j := Nat.pow_le_pow_right (by decide) (by omega)
    rw [Nat.testBit_lt_two_pow (Nat.lt_of_lt_of_le (read_lt _ _ _) hpow)]
    simp [hj]

/-- A word that is read and stored elsewhere is copied. -/
theorem write_read {start : Nat} : write m a n (read src start n) = copy m a src start n := by
  funext x
  apply byte_eq_of_bits
  intro k _
  generalize 8 * x + k = b
  rw [bit_write, bit_copy]
  by_cases hb : 8 * a ≤ b ∧ b < 8 * (a + n)
  · have hidx : 8 * (start + n) - 1 - (8 * (a + n) - 1 - b) = 8 * start + (b - 8 * a) := by omega
    rw [if_pos hb, if_pos hb, testBit_read src start n (by omega), hidx]
  · rw [if_neg hb, if_neg hb]

end BigEndian
