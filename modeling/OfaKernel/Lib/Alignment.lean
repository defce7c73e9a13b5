-- SUMMARY: Runs of segments that are broken only at multiples of a power of two.
import Mathlib.Data.Nat.Bitwise
import OfaKernel.Lib.Bitmap
import OfaKernel.Lib.Segments

/-!
# Alignment

When all places where a run of segments is broken lie at multiples of `b`, the run is made of
aligned blocks of `b` neighbours.
-/

namespace Alignment

def firstBit (n : Nat) : Nat := Bitmap.findFirstBit n.testBit 64

/-- `IS_ALIGNED(n, a)`. -/
def IsAligned (n a : Nat) : Prop := n &&& (a - 1) = 0

instance (n a : Nat) : Decidable (IsAligned n a) := inferInstanceAs (Decidable (_ = _))

variable {n m d : Nat}

theorem isAligned_two_pow : IsAligned n (2 ^ m) ↔ 2 ^ m ∣ n := by
  unfold IsAligned
  rw [Nat.and_two_pow_sub_one_eq_mod, Nat.dvd_iff_mod_eq_zero]

theorem two_pow_dvd_iff : 2 ^ d ∣ n ↔ ∀ i < d, n.testBit i = false := by
  rw [Nat.dvd_iff_mod_eq_zero]
  constructor
  · intro h i hi
    have hbit := Nat.testBit_mod_two_pow n d i
    rw [h, Nat.zero_testBit] at hbit
    simpa [hi] using hbit.symm
  · intro h
    refine Nat.eq_of_testBit_eq fun i => ?_
    by_cases hi : i < d
    · simp [h i hi]
    · simp [hi]

theorem two_pow_dvd_or {k : Nat} : 2 ^ d ∣ n ||| k ↔ 2 ^ d ∣ n ∧ 2 ^ d ∣ k := by
  rw [Nat.dvd_iff_mod_eq_zero, Nat.or_mod_two_pow, Nat.or_eq_zero_iff, ← Nat.dvd_iff_mod_eq_zero,
    ← Nat.dvd_iff_mod_eq_zero]

theorem le_firstBit (hd : d ≤ 64) : d ≤ firstBit n ↔ 2 ^ d ∣ n := by
  rw [two_pow_dvd_iff]
  unfold firstBit Bitmap.findFirstBit
  rcases Bitmap.findNextBit_cases n.testBit 64 0 with ⟨i, heq, -, hlt, hset, hclear⟩ | ⟨heq, hclear⟩
  · rw [heq]
    constructor
    · intro h j hj
      exact hclear j (Nat.zero_le j) (Nat.lt_of_lt_of_le hj h)
    · intro h
      by_contra hnot
      rw [h i (Nat.not_le.mp hnot)] at hset
      cases hset
  · rw [heq]
    exact iff_of_true hd fun j hj => hclear j (Nat.zero_le j) (Nat.lt_of_lt_of_le hj hd)

theorem firstBit_lt (h : ¬ 2 ^ m ∣ n) (hm : m ≤ 64) : firstBit n < m := by
  rw [← Nat.not_le, le_firstBit hm]
  exact h

/-! ## Breaks of a run -/

/-- The run continues at `stop`, or anew from a multiple of `b` in memory and in the run, where it
has `off` units before. -/
def BreaksAt (b : Nat) : Option Nat → Nat → List (Nat × Nat) → Prop
  | _, _, [] => True
  | stop, off, (addr, len) :: s =>
    (stop = some addr ∨ b ∣ addr ∧ b ∣ off) ∧ BreaksAt b (some (addr + len)) (off + len) s

variable {b off x y v w : Nat} {stop : Option Nat} {s : List (Nat × Nat)}

/-- Within a block, one starts from a number that is not a multiple. -/
theorem not_dvd_of_div_eq (hb : 0 < b) (hle : x ≤ y) (hdiv : y / b = x / b) (hx : ¬ b ∣ x) :
    ¬ b ∣ y := by
  intro hy
  obtain ⟨q, rfl⟩ := hy
  rw [Nat.mul_div_cancel_left q hb] at hdiv
  have hmod := Nat.div_add_mod x b
  rw [← hdiv] at hmod
  omega

/-- The block that `off` lies inside of goes on from `stop`. -/
theorem BreaksAt.continues {t : Nat} (hb : 0 < b) (h : BreaksAt b (some t) off s) (hoff : ¬ b ∣ off)
    (hdiv : (off + x) / b = off / b) (hv : Segments.lookup s x = some v) : v = t + x := by
  induction s generalizing t off x with
  | nil => cases hv
  | cons e s ih =>
    obtain ⟨addr, len⟩ := e
    obtain ⟨hbreak, hrest⟩ := h
    obtain rfl : t = addr := Option.some.inj (hbreak.resolve_right fun hb => hoff hb.2)
    unfold Segments.lookup at hv
    split at hv
    next hlt => exact (Option.some.inj hv).symm
    next hge =>
      have hmid : (off + len) / b = off / b := by
        have h1 := Nat.div_le_div_right (c := b) (Nat.le_add_right off len)
        have h2 := Nat.div_le_div_right (c := b) (show off + len ≤ off + x by omega)
        omega
      have := ih hrest (not_dvd_of_div_eq hb (Nat.le_add_right _ _) hmid hoff)
        (by rw [show off + len + (x - len) = off + x by omega, hdiv, hmid]) hv
      omega

/-- Two places of one block are as far apart in memory as in the run. -/
theorem BreaksAt.block (hb : 0 < b) (h : BreaksAt b stop off s) (hle : x ≤ y)
    (hdiv : (off + y) / b = (off + x) / b) (hv : Segments.lookup s x = some v)
    (hw : Segments.lookup s y = some w) : w = v + (y - x) := by
  induction s generalizing stop off x y with
  | nil => cases hv
  | cons e s ih =>
    obtain ⟨addr, len⟩ := e
    obtain ⟨-, hrest⟩ := h
    unfold Segments.lookup at hv hw
    split at hv
    next hx =>
      obtain rfl := Option.some.inj hv
      split at hw
      next hy =>
        obtain rfl := Option.some.inj hw
        omega
      next hy =>
        -- the block goes on in the next segments
        have hmid : (off + len) / b = (off + x) / b := by
          have h1 := Nat.div_le_div_right (c := b) (show off + x ≤ off + len by omega)
          have h2 := Nat.div_le_div_right (c := b) (show off + len ≤ off + y by omega)
          omega
        have hinside : ¬ b ∣ off + len := by
          intro hdvd
          obtain ⟨q, hq⟩ := hdvd
          rw [hq, Nat.mul_div_cancel_left q hb] at hmid
          have hmod := Nat.div_add_mod (off + x) b
          rw [← hmid] at hmod
          omega
        have := hrest.continues hb hinside
          (by rw [show off + len + (y - len) = off + y by omega, hdiv, hmid]) hw
        omega
    next hx =>
      rw [if_neg (by omega)] at hw
      have := ih hrest (show x - len ≤ y - len by omega)
        (by rw [show off + len + (y - len) = off + y by omega,
          show off + len + (x - len) = off + x by omega, hdiv]) hv hw
      omega

/-- Memory and run agree on the place inside a block. -/
theorem BreaksAt.mod_eq (h : BreaksAt b stop off s) (hstop : ∀ t ∈ stop, t % b = off % b)
    (hv : Segments.lookup s x = some v) : v % b = (off + x) % b := by
  induction s generalizing stop off x with
  | nil => cases hv
  | cons e s ih =>
    obtain ⟨addr, len⟩ := e
    obtain ⟨hbreak, hrest⟩ := h
    have haddr : addr % b = off % b := by
      rcases hbreak with hcont | ⟨hmem, hrun⟩
      · exact hstop addr hcont
      · rw [Nat.mod_eq_zero_of_dvd hmem, Nat.mod_eq_zero_of_dvd hrun]
    unfold Segments.lookup at hv
    split at hv
    next hlt =>
      obtain rfl := Option.some.inj hv
      rw [Nat.add_mod, haddr, ← Nat.add_mod]
    next hge =>
      have hnext : (addr + len) % b = (off + len) % b := by rw [Nat.add_mod, haddr, ← Nat.add_mod]
      have := ih hrest (fun t ht => Option.some.inj ht ▸ hnext) hv
      rwa [show off + len + (x - len) = off + x by omega] at this

end Alignment
