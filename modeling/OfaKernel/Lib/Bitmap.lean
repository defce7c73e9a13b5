-- SUMMARY: Bitmaps as functions from bit numbers to booleans.
import Mathlib.Data.Nat.Count

/-!
# Bitmaps

A bitmap is the function that reads it. A search that finds nothing returns the size it was
given, as in the kernel. `weight` counts the set bits below a bound.
-/

abbrev Bitmap : Type := Nat → Bool

namespace Bitmap

/-- The bitmap with no bit set. -/
def zero : Bitmap := fun _ => false

/-- `set_bit(i, b)`. -/
def setBit (b : Bitmap) (i : Nat) : Bitmap := fun j => decide (j = i) || b j

/-- `clear_bit(i, b)`. -/
def clearBit (b : Bitmap) (i : Nat) : Bitmap := fun j => !decide (j = i) && b j

/-- `bitmap_set(b, start, len)`. -/
def setRange (b : Bitmap) (start len : Nat) : Bitmap :=
  fun j => (decide (start ≤ j) && decide (j < start + len)) || b j

/-- `bitmap_clear(b, start, len)`. -/
def clearRange (b : Bitmap) (start len : Nat) : Bitmap :=
  fun j => !(decide (start ≤ j) && decide (j < start + len)) && b j

/-- `find_next_bit(b, size, start)`: the first set bit in `[start, size)`, or `size`. -/
def findNextBit (b : Bitmap) (size start : Nat) : Nat :=
  ((List.range' start (size - start)).find? b).getD size

/-- `find_first_bit(b, size)`. -/
def findFirstBit (b : Bitmap) (size : Nat) : Nat := findNextBit b size 0

/-- `find_next_zero_bit(b, size, start)`. -/
def findNextZeroBit (b : Bitmap) (size start : Nat) : Nat :=
  findNextBit (fun i => !b i) size start

/-- `find_first_zero_bit(b, size)`. -/
def findFirstZeroBit (b : Bitmap) (size : Nat) : Nat := findNextZeroBit b size 0

/-- The number of set bits below `n`. -/
def weight (b : Bitmap) (n : Nat) : Nat := Nat.count (fun i => b i = true) n

/-! ## Reading an updated bitmap -/

@[simp] theorem zero_apply (j : Nat) : zero j = false := rfl

@[simp] theorem setBit_self (b : Bitmap) (i : Nat) : b.setBit i i = true := by simp [setBit]

theorem setBit_of_ne {b : Bitmap} {i j : Nat} (h : j ≠ i) : b.setBit i j = b j := by
  simp [setBit, h]

@[simp] theorem setBit_eq_true {b : Bitmap} {i j : Nat} :
    b.setBit i j = true ↔ j = i ∨ b j = true := by simp [setBit]

@[simp] theorem clearBit_self (b : Bitmap) (i : Nat) : b.clearBit i i = false := by simp [clearBit]

theorem clearBit_of_ne {b : Bitmap} {i j : Nat} (h : j ≠ i) : b.clearBit i j = b j := by
  simp [clearBit, h]

@[simp] theorem clearBit_eq_true {b : Bitmap} {i j : Nat} :
    b.clearBit i j = true ↔ j ≠ i ∧ b j = true := by simp [clearBit]

@[simp] theorem setRange_eq_true {b : Bitmap} {start len j : Nat} :
    b.setRange start len j = true ↔ (start ≤ j ∧ j < start + len) ∨ b j = true := by
  simp [setRange]

@[simp] theorem clearRange_eq_true {b : Bitmap} {start len j : Nat} :
    b.clearRange start len j = true ↔ ¬(start ≤ j ∧ j < start + len) ∧ b j = true := by
  simp only [clearRange, Bool.and_eq_true, Bool.not_eq_true', Bool.and_eq_false_iff,
    decide_eq_false_iff_not]
  tauto

theorem setRange_zero (b : Bitmap) (start : Nat) : b.setRange start 0 = b := by
  funext j
  simp only [setRange, Nat.add_zero, Bool.or_eq_right_iff_imp, Bool.and_eq_true, decide_eq_true_eq]
  omega

theorem setRange_succ (b : Bitmap) (start len : Nat) :
    b.setRange start (len + 1) = (b.setRange start len).setBit (start + len) := by
  funext j
  rw [Bool.eq_iff_iff, setRange_eq_true, setBit_eq_true, setRange_eq_true]
  constructor
  · rintro (⟨h₁, h₂⟩ | h)
    · by_cases hj : j = start + len
      · exact .inl hj
      · exact .inr (.inl ⟨h₁, by omega⟩)
    · exact .inr (.inr h)
  · rintro (rfl | ⟨h₁, h₂⟩ | h)
    · exact .inl ⟨by omega, by omega⟩
    · exact .inl ⟨h₁, by omega⟩
    · exact .inr h

theorem setRange_one (b : Bitmap) (start : Nat) : b.setRange start 1 = b.setBit start := by
  rw [setRange_succ, setRange_zero, Nat.add_zero]

theorem findNextBit_cases (b : Bitmap) (size start : Nat) :
    (∃ i, findNextBit b size start = i ∧ start ≤ i ∧ i < size ∧ b i = true ∧
        ∀ j, start ≤ j → j < i → b j = false) ∨
      (findNextBit b size start = size ∧ ∀ j, start ≤ j → j < size → b j = false) := by
  unfold findNextBit
  cases hf : (List.range' start (size - start)).find? b with
  | none =>
    refine .inr ⟨rfl, fun j h₁ h₂ => ?_⟩
    have := List.find?_range'_eq_none.mp hf j h₁ (by omega)
    simpa using this
  | some i =>
    obtain ⟨hb, hi, hlt⟩ := List.find?_range'_eq_some.mp hf
    rw [List.mem_range'_1] at hi
    refine .inl ⟨i, rfl, hi.1, by omega, hb, fun j h₁ h₂ => ?_⟩
    simpa using hlt j h₁ h₂

theorem findNextBit_spec {b : Bitmap} {size start : Nat} (h : findNextBit b size start < size) :
    start ≤ findNextBit b size start ∧ b (findNextBit b size start) = true ∧
      ∀ j, start ≤ j → j < findNextBit b size start → b j = false := by
  rcases findNextBit_cases b size start with ⟨i, hi, h₁, -, h₃, h₄⟩ | ⟨he, -⟩
  · rw [hi]; exact ⟨h₁, h₃, h₄⟩
  · omega

theorem findNextBit_none {b : Bitmap} {size start : Nat} (h : ¬findNextBit b size start < size) :
    ∀ j, start ≤ j → j < size → b j = false := by
  rcases findNextBit_cases b size start with ⟨i, hi, -, h₂, -⟩ | ⟨-, h'⟩
  · omega
  · exact h'

theorem findFirstBit_spec {b : Bitmap} {size : Nat} (h : findFirstBit b size < size) :
    b (findFirstBit b size) = true :=
  (findNextBit_spec h).2.1

theorem findFirstBit_none {b : Bitmap} {size : Nat} (h : ¬findFirstBit b size < size) :
    ∀ j < size, b j = false :=
  fun j hj => findNextBit_none h j (Nat.zero_le j) hj

theorem findNextZeroBit_spec {b : Bitmap} {size start : Nat}
    (h : findNextZeroBit b size start < size) :
    start ≤ findNextZeroBit b size start ∧ b (findNextZeroBit b size start) = false := by
  obtain ⟨h₁, h₂, -⟩ := findNextBit_spec h
  exact ⟨h₁, by simpa [findNextZeroBit] using h₂⟩

theorem findNextZeroBit_eq {b : Bitmap} {size start i : Nat} (h₁ : start ≤ i) (h₂ : i < size)
    (h₃ : b i = false) (h₄ : ∀ j, start ≤ j → j < i → b j = true) :
    findNextZeroBit b size start = i := by
  unfold findNextZeroBit
  rcases findNextBit_cases (fun i => !b i) size start with ⟨k, hk, hk₁, -, hk₃, hk₄⟩ | ⟨-, hn⟩
  · rw [hk]
    rcases Nat.lt_trichotomy k i with hlt | heq | hgt
    · have := h₄ k hk₁ hlt
      simp [this] at hk₃
    · exact heq
    · have := hk₄ i h₁ hgt
      simp [h₃] at this
  · have := hn i h₁ h₂
    simp [h₃] at this

/-! ## Counting -/

@[simp] theorem weight_bound_zero (b : Bitmap) : weight b 0 = 0 := Nat.count_zero _

theorem weight_succ (b : Bitmap) (n : Nat) :
    weight b (n + 1) = weight b n + if b n = true then 1 else 0 := Nat.count_succ _ n

theorem weight_le (b : Bitmap) (n : Nat) : weight b n ≤ n := Nat.count_le _

theorem weight_congr {b b' : Bitmap} {n : Nat} (h : ∀ i < n, b i = b' i) :
    weight b n = weight b' n := by
  induction n with
  | zero => simp
  | succ n ih =>
    rw [weight_succ, weight_succ, ih fun i hi => h i (by omega), h n (by omega)]

@[simp] theorem weight_zero (n : Nat) : weight zero n = 0 := by
  induction n with
  | zero => simp
  | succ n ih => rw [weight_succ, ih]; simp

/-- The set bits and the clear bits below `n` are `n` together. -/
theorem weight_compl (b : Bitmap) (n : Nat) : weight (fun j => !b j) n + weight b n = n := by
  induction n with
  | zero => simp
  | succ n ih =>
    rw [weight_succ, weight_succ]
    cases hb : b n <;> simp <;> omega

theorem weight_setBit {b : Bitmap} {i n : Nat} (hi : i < n) (hb : b i = false) :
    weight (b.setBit i) n = weight b n + 1 := by
  induction n with
  | zero => omega
  | succ n ih =>
    rw [weight_succ, weight_succ]
    by_cases hin : i = n
    · subst hin
      have hlow : weight (b.setBit i) i = weight b i :=
        weight_congr fun j hj => setBit_of_ne (by omega)
      simp [hlow, hb]
    · rw [ih (by omega), setBit_of_ne (fun h => hin h.symm)]
      omega

theorem weight_clearBit {b : Bitmap} {i n : Nat} (hi : i < n) (hb : b i = true) :
    weight (b.clearBit i) n + 1 = weight b n := by
  have hset : (b.clearBit i).setBit i = b := by
    funext j
    by_cases hj : j = i
    · subst hj; simp [hb]
    · rw [setBit_of_ne hj, clearBit_of_ne hj]
  have := weight_setBit (b := b.clearBit i) hi (clearBit_self b i)
  rw [hset] at this
  exact this.symm

theorem weight_setRange {b : Bitmap} {start len n : Nat} (hn : start + len ≤ n)
    (hb : ∀ j, start ≤ j → j < start + len → b j = false) :
    weight (b.setRange start len) n = weight b n + len := by
  induction len with
  | zero => rw [setRange_zero, Nat.add_zero]
  | succ len ih =>
    rw [setRange_succ, weight_setBit (by omega), ih (by omega) fun j h₁ h₂ => hb j h₁ (by omega)]
    · omega
    · have hlast := hb (start + len) (by omega) (by omega)
      rw [Bool.eq_false_iff, Ne, setRange_eq_true]
      rintro (⟨-, h⟩ | h)
      · omega
      · rw [hlast] at h; exact absurd h (by decide)

theorem weight_clearRange {b : Bitmap} {start len n : Nat} (hn : start + len ≤ n)
    (hb : ∀ j, start ≤ j → j < start + len → b j = true) :
    weight (b.clearRange start len) n + len = weight b n := by
  have hset : (b.clearRange start len).setRange start len = b := by
    funext j
    rw [Bool.eq_iff_iff, setRange_eq_true, clearRange_eq_true]
    by_cases hj : start ≤ j ∧ j < start + len
    · simp [hj, hb j hj.1 hj.2]
    · simp [hj]
  have := weight_setRange (b := b.clearRange start len) hn fun j h₁ h₂ => by
    rw [Bool.eq_false_iff, Ne, clearRange_eq_true]
    exact fun h => h.1 ⟨h₁, h₂⟩
  rw [hset] at this
  exact this.symm

/-- Where no bit is set from `m` on, there are at most `m` set bits. -/
theorem weight_le_of_high {b : Bitmap} {m : Nat} (h : ∀ i, m ≤ i → b i = false) (n : Nat) :
    weight b n ≤ m := by
  induction n with
  | zero => simp
  | succ n ih =>
    rcases Nat.lt_or_ge n m with hlt | hge
    · exact (weight_le b (n + 1)).trans hlt
    · rw [weight_succ, h n hge]
      simpa using ih

theorem weight_pos {b : Bitmap} {i n : Nat} (hi : i < n) (hb : b i = true) : 0 < weight b n := by
  have := weight_clearBit hi hb
  omega

end Bitmap
