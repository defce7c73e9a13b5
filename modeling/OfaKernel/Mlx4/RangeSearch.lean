-- SUMMARY: The aligned-range search of the mlx4 bitmap allocator.
import OfaKernel.Mlx4.BitmapAlloc

/-!
# The aligned-range search

`find_aligned_range` jumps over all multiples of `align` that a taken index rules out. It
computes in `u32`.
-/

namespace Mlx4

/-- `s` is a multiple of `align`, `[s, s + len)` lies below `nbits`, and none of
its indices is set or has a bit of `skip_mask`. -/
def FreeRange (table : Bitmap) (nbits len align skipMask s : Nat) : Prop :=
  align ∣ s ∧ s + len ≤ nbits ∧
    ∀ i, s ≤ i → i < s + len → table i = false ∧ i &&& skipMask = 0

/-- `r` is the least number from `start` on with `P`, or -1 if there is none. -/
def LeastFrom (P : Nat → Prop) (start r : Nat) : Prop :=
  IsLeast {s | start ≤ s ∧ P s} r ∨ r = ulongMax ∧ ∀ s, start ≤ s → ¬P s

/-- A start may be moved on as long as no number with `P` is jumped over. -/
theorem LeastFrom.of_jump {P : Nat → Prop} {start start' r : Nat} (h : LeastFrom P start' r)
    (hle : start ≤ start') (hjump : ∀ s, start ≤ s → P s → start' ≤ s) : LeastFrom P start r := by
  rcases h with ⟨⟨hr, hP⟩, hleast⟩ | ⟨rfl, hnone⟩
  · exact .inl ⟨⟨hle.trans hr, hP⟩, fun s hs => hleast ⟨hjump s hs.1 hs.2, hs.2⟩⟩
  · exact .inr ⟨rfl, fun s hs hP => hnone s (hjump s hs hP) hP⟩

theorem LeastFrom.unique {P : Nat → Prop} {start r r' : Nat} (h : LeastFrom P start r)
    (h' : LeastFrom P start r') : r = r' := by
  rcases h with h | ⟨rfl, hnone⟩ <;> rcases h' with h' | ⟨rfl, hnone'⟩
  · exact h.unique h'
  · exact absurd h.1.2 (hnone' r h.1.1)
  · exact absurd h'.1.2 (hnone r' h'.1.1)
  · rfl

/-! ## The search -/

section Search

variable {table : Bitmap} {nbits len a skipMask : Nat}

theorem rangeTaken_eq_false {i : Nat} :
    rangeTaken table skipMask i = false ↔ table i = false ∧ i &&& skipMask = 0 := by
  simp [rangeTaken]

theorem FreeRange.not_taken {s i : Nat} (h : FreeRange table nbits len (2 ^ a) skipMask s)
    (h₁ : s ≤ i) (h₂ : i < s + len) : rangeTaken table skipMask i = false :=
  rangeTaken_eq_false.mpr (h.2.2 i h₁ h₂)

theorem alignUp_eq {start : Nat} (ha : a < 32) (hs : start + 2 ^ a ≤ 2 ^ 32) :
    alignUp start (2 ^ a) = (start + (2 ^ a - 1)) / 2 ^ a * 2 ^ a := by
  have hpos : 0 < 2 ^ a := Nat.two_pow_pos a
  have hlt : 2 ^ a < 2 ^ 32 := Nat.pow_lt_pow_right (by decide) ha
  unfold alignUp
  rw [U32.sub_of_le hpos hlt, U32.wrap_of_lt (by omega),
    show U32.allOnes - (2 ^ a - 1) = 2 ^ 32 - 2 ^ a by unfold U32.allOnes; omega,
    U32.and_high (by omega) ha]

/-- `ALIGN` gives the first multiple from `start` on. -/
theorem alignUp_isLeast {start : Nat} (ha : a < 32) (hs : start + 2 ^ a ≤ 2 ^ 32) :
    IsLeast {s | start ≤ s ∧ 2 ^ a ∣ s} (alignUp start (2 ^ a)) := by
  have hpos : 0 < 2 ^ a := Nat.two_pow_pos a
  have hdiv := Nat.div_add_mod' (start + (2 ^ a - 1)) (2 ^ a)
  rw [alignUp_eq ha hs]
  refine ⟨⟨by omega, Nat.dvd_mul_left _ _⟩, ?_⟩
  rintro _ ⟨hle, k, rfl⟩
  rw [Nat.mul_comm (2 ^ a)] at hle ⊢
  refine Nat.mul_le_mul_right _ (Nat.lt_succ_iff.mp ((Nat.div_lt_iff_lt_mul hpos).mpr ?_))
  rw [Nat.succ_mul]
  omega

theorem alignUp_wrap {start : Nat} (ha : a < 32) (hlt : start < 2 ^ 32)
    (hs : 2 ^ 32 < start + 2 ^ a) : alignUp start (2 ^ a) = 0 := by
  have hpow : 2 ^ a < 2 ^ 32 := Nat.pow_lt_pow_right (by decide) ha
  have hwrap : U32.wrap (start + (2 ^ a - 1)) = start + (2 ^ a - 1) - 2 ^ 32 := by
    unfold U32.wrap
    omega
  unfold alignUp
  rw [U32.sub_of_le (Nat.two_pow_pos a) hpow, hwrap,
    show U32.allOnes - (2 ^ a - 1) = 2 ^ 32 - 2 ^ a by unfold U32.allOnes; omega,
    U32.and_high (by omega) ha, Nat.div_eq_of_lt (by omega), Nat.zero_mul]

/-- The inner loop stops at the first multiple that is not taken or not below
`nbits`. The distance to `nbits` bounds the rounds. -/
theorem skipTaken_least (table : Bitmap) (skipMask : Nat) (hn : nbits + 2 ^ a < 2 ^ 32)
    {n start : Nat} (hpos : 0 < n) (hf : nbits < start + n) (hs : 2 ^ a ∣ start) :
    ∃ s, skipTaken table nbits (2 ^ a) skipMask n start = some s ∧
      IsLeast {s | start ≤ s ∧ 2 ^ a ∣ s ∧
        ¬(s < nbits ∧ rangeTaken table skipMask s = true)} s := by
  induction n generalizing start with
  | zero => omega
  | succ n ih =>
    simp only [skipTaken]
    split
    · next hc =>
        rw [U32.wrap_of_lt (by omega)]
        obtain ⟨s, heq, ⟨hle, hP⟩, hleast⟩ :=
          ih (by omega) (by omega) (Nat.dvd_add hs (Nat.dvd_refl _))
        refine ⟨s, heq, ⟨by omega, hP⟩, ?_⟩
        rintro t ⟨ht, hdvd, hfree⟩
        have hne : t ≠ start := fun he => hfree (he ▸ hc)
        -- the next multiple is a whole step on
        have hnext : 2 ^ a ≤ t - start := Nat.le_of_dvd (by omega) (Nat.dvd_sub hdvd hs)
        exact hleast ⟨by omega, hdvd, hfree⟩
    · next hc => exact ⟨start, rfl, ⟨Nat.le_refl _, hs, hc⟩, fun t ht => ht.1⟩

/-- The search from a start that does not wrap. Every jump goes past the taken
index it has found, which no free range contains. -/
theorem findAlignedRange_leastFrom (table : Bitmap) (skipMask n start : Nat) (hlen : 0 < len)
    (hn : nbits + 2 ^ a < 2 ^ 32) (hl : nbits + len ≤ 2 ^ 32) (hpos : 2 ≤ n)
    (hf : nbits + 2 ≤ start + n) (hs : start + 2 ^ a ≤ 2 ^ 32) :
    ∃ r, findAlignedRange table nbits len (2 ^ a) skipMask n start = some r ∧
      LeastFrom (FreeRange table nbits len (2 ^ a) skipMask) start r := by
  have ha : a < 32 := (Nat.pow_lt_pow_iff_right (by decide : 1 < 2)).mp (by omega)
  induction n generalizing start with
  | zero => omega
  | succ n ih =>
    obtain ⟨⟨hle, hdvd⟩, hup⟩ := alignUp_isLeast ha hs
    obtain ⟨s, hskip, ⟨hle', hdvd', hstop⟩, hleast⟩ :=
      skipTaken_least table skipMask hn (n := n) (by omega) (by omega) hdvd
    -- the inner loop has jumped over no free range
    have hjump : ∀ t, start ≤ t → FreeRange table nbits len (2 ^ a) skipMask t → s ≤ t := by
      intro t ht hfree
      refine hleast ⟨hup ⟨ht, hfree.1⟩, hfree.1, fun hc => ?_⟩
      rw [hfree.not_taken (Nat.le_refl t) (by omega)] at hc
      exact absurd hc.2 (by decide)
    simp only [findAlignedRange, hskip]
    by_cases hfit : s < nbits ∧ s + len ≤ nbits
    · obtain ⟨hlt, hfit⟩ := hfit
      rw [U32.wrap_of_lt (by omega), if_neg (by omega)]
      cases hfind : (List.range' (s + 1) (s + len - (s + 1))).find? (rangeTaken table skipMask) with
      | none =>
        rw [List.find?_range'_eq_none] at hfind
        refine ⟨s, rfl, .inl ⟨⟨hle.trans hle', hdvd', hfit, fun i h₁ h₂ => ?_⟩,
          fun t ht => hjump t ht.1 ht.2⟩⟩
        rw [← rangeTaken_eq_false]
        rcases Nat.eq_or_lt_of_le h₁ with rfl | h₁
        · simpa [hlt] using hstop
        · simpa using hfind i h₁ (by omega)
      | some i =>
        obtain ⟨htaken, hi, -⟩ := List.find?_range'_eq_some.mp hfind
        rw [List.mem_range'_1] at hi
        obtain ⟨r, heq, hr⟩ := ih (i + 1) (by omega) (by omega) (by omega)
        refine ⟨r, heq, hr.of_jump (by omega) fun t ht hfree => ?_⟩
        have hst := hjump t ht hfree
        by_contra hti
        rw [hfree.not_taken (by omega) (by omega)] at htaken
        exact absurd htaken (by decide)
    · have hbad : nbits ≤ s ∨ nbits < U32.wrap (s + len) := by
        by_cases hlt : s < nbits
        · rw [U32.wrap_of_lt (by omega)]
          omega
        · exact .inl (Nat.not_lt.mp hlt)
      rw [if_pos hbad]
      refine ⟨_, rfl, .inr ⟨rfl, fun t ht hfree => hfit ?_⟩⟩
      have hst := hjump t ht hfree
      have hend := hfree.2.1
      omega

/-- A start for which `ALIGN` wraps is as good as the start 0. -/
theorem findAlignedRange_returns (table : Bitmap) (skipMask n start : Nat) (hlen : 0 < len)
    (hn : nbits + 2 ^ a < 2 ^ 32) (hl : nbits + len ≤ 2 ^ 32) (hf : nbits + 2 ≤ n)
    (hs : start < 2 ^ 32) :
    ∃ r, findAlignedRange table nbits len (2 ^ a) skipMask n start = some r ∧
      ∃ first, LeastFrom (FreeRange table nbits len (2 ^ a) skipMask) first r := by
  have ha : a < 32 := (Nat.pow_lt_pow_iff_right (by decide : 1 < 2)).mp (by omega)
  by_cases hwrap : start + 2 ^ a ≤ 2 ^ 32
  · obtain ⟨r, heq, hr⟩ := findAlignedRange_leastFrom table skipMask n start hlen hn hl
      (by omega) (by omega) hwrap
    exact ⟨r, heq, start, hr⟩
  · obtain ⟨r, heq, hr⟩ := findAlignedRange_leastFrom table skipMask n 0 hlen hn hl
      (by omega) (by omega) (by omega)
    have hzero : alignUp 0 (2 ^ a) = 0 := by
      rw [alignUp_eq ha (by omega), Nat.div_eq_of_lt (by omega), Nat.zero_mul]
    refine ⟨r, ?_, 0, hr⟩
    rw [← heq]
    cases n with
    | zero => rfl
    | succ n => rw [findAlignedRange, findAlignedRange, alignUp_wrap ha hs (by omega), hzero]

/-! ## The allocation -/

/-- The call takes a free range if there is one, and its handle is the start of
the range under `top`; else it fails and leaves the table alone. -/
def TakesFree (b : BitmapAllocator) (cnt align skipMask : Nat) (r : BitmapAllocator × Nat) : Prop :=
  (∃ s, FreeRange b.table b.max cnt align skipMask s ∧ r.1.table = b.table.setRange s cnt ∧
      r.2 = s ||| r.1.top) ∨
    (∀ s, ¬FreeRange b.table b.max cnt align skipMask s) ∧ r.1.table = b.table ∧ r.2 = U32.allOnes

variable {b : BitmapAllocator} {cnt align : Nat}

theorem bitmapTakeRange_takesFree {top obj : Nat}
    (h : if obj < b.max then FreeRange b.table b.max cnt align skipMask obj
      else ∀ s, ¬FreeRange b.table b.max cnt align skipMask s) :
    TakesFree b cnt align skipMask (bitmapTakeRange b top obj cnt) := by
  unfold bitmapTakeRange
  split
  · next hlt =>
      rw [if_pos hlt] at h
      exact .inl ⟨obj, h, rfl, rfl⟩
  · next hlt =>
      rw [if_neg hlt] at h
      exact .inr ⟨h, rfl, rfl⟩

theorem bitmapTakeBit_takesFree {top obj : Nat}
    (h : if obj < b.max then FreeRange b.table b.max 1 align skipMask obj
      else ∀ s, ¬FreeRange b.table b.max 1 align skipMask s) :
    TakesFree b 1 align skipMask (bitmapTakeBit b top obj) := by
  unfold bitmapTakeBit
  split
  · next hlt =>
      rw [if_pos hlt] at h
      exact .inl ⟨obj, h, (Bitmap.setRange_one b.table obj).symm, rfl⟩
  · next hlt =>
      rw [if_neg hlt] at h
      exact .inr ⟨h, rfl, rfl⟩

theorem freeRange_one {s : Nat} :
    FreeRange b.table b.max 1 1 0 s ↔ s < b.max ∧ b.table s = false := by
  constructor
  · rintro ⟨-, hs, hfree⟩
    exact ⟨hs, (hfree s (Nat.le_refl s) (Nat.lt_succ_self s)).1⟩
  · rintro ⟨hs, hfree⟩
    refine ⟨Nat.one_dvd s, hs, fun i h₁ h₂ => ⟨?_, Nat.and_zero i⟩⟩
    rwa [show i = s by omega]

theorem bitmapAlloc_takesFree : TakesFree b 1 1 0 (bitmapAlloc b) := by
  unfold bitmapAlloc
  dsimp only
  split
  · apply bitmapTakeBit_takesFree
    split
    · next hlt => exact freeRange_one.mpr ⟨hlt, (Bitmap.findNextZeroBit_spec hlt).2⟩
    · next hlt =>
        intro s hs
        obtain ⟨h₁, h₂⟩ := freeRange_one.mp hs
        simpa [h₂] using Bitmap.findFirstBit_none hlt s h₁
  · next hlt =>
      have hlt' := Nat.not_le.mp hlt
      apply bitmapTakeBit_takesFree
      rw [if_pos hlt']
      exact freeRange_one.mpr ⟨hlt', (Bitmap.findNextZeroBit_spec hlt').2⟩

/-- The second search, from 0, sees every range. -/
theorem bitmapAllocRange_takesFree (hcnt : 0 < cnt) (hn : b.max + 2 ^ a < 2 ^ 32)
    (hl : b.max + cnt ≤ 2 ^ 32) (hlast : b.last < 2 ^ 32) {fuel : Nat} (hf : b.max + 2 ≤ fuel) :
    ∃ r, bitmapAllocRange fuel b cnt (2 ^ a) skipMask = some r ∧
      TakesFree b cnt (2 ^ a) skipMask r := by
  -- the result as a `u32` is below `max` exactly if the search has found a range
  have hfound : ∀ first r, LeastFrom (FreeRange b.table b.max cnt (2 ^ a) skipMask) first r →
      (U32.wrap r < b.max → FreeRange b.table b.max cnt (2 ^ a) skipMask (U32.wrap r)) ∧
        (¬U32.wrap r < b.max → ∀ s, first ≤ s →
          ¬FreeRange b.table b.max cnt (2 ^ a) skipMask s) := by
    rintro first r (⟨⟨-, hr⟩, -⟩ | ⟨rfl, hnone⟩)
    · have hend := hr.2.1
      rw [U32.wrap_of_lt (by omega)]
      exact ⟨fun _ => hr, fun hge => absurd hge (by omega)⟩
    · have hwrap : U32.wrap ulongMax = 2 ^ 32 - 1 := by decide +kernel
      exact ⟨fun hlt => by omega, fun _ => hnone⟩
  unfold bitmapAllocRange
  split
  · next hc =>
      obtain ⟨rfl, h₁, rfl⟩ := hc
      rw [h₁]
      exact ⟨_, rfl, bitmapAlloc_takesFree⟩
  · obtain ⟨r, heq, first, hr⟩ := findAlignedRange_returns b.table skipMask fuel b.last hcnt
      hn hl hf hlast
    obtain ⟨r₀, heq₀, hr₀⟩ := findAlignedRange_leastFrom b.table skipMask fuel 0 hcnt hn hl
      (by omega) (by omega) (by omega)
    rw [heq]
    dsimp only
    split
    · rw [heq₀]
      refine ⟨_, rfl, bitmapTakeRange_takesFree ?_⟩
      split
      · next hlt => exact (hfound 0 r₀ hr₀).1 hlt
      · next hlt => exact fun s => (hfound 0 r₀ hr₀).2 hlt s (Nat.zero_le s)
    · next hlt =>
        have hlt' := Nat.not_le.mp hlt
        refine ⟨_, rfl, bitmapTakeRange_takesFree ?_⟩
        rw [if_pos hlt']
        exact (hfound first r hr).1 hlt'

/-- While no sum leaves `u32`, `find_aligned_range` returns the least free range, and
`mlx4_bitmap_alloc_range` takes one whenever there is one. -/
theorem range_search_complete (nbits len a skipMask : Nat) (hlen : 0 < len)
    (hn : nbits + 2 ^ a < 2 ^ 32) (hl : nbits + len ≤ 2 ^ 32) :
    (∀ table start, start + 2 ^ a ≤ 2 ^ 32 →
      ∃ r, (∀ fuel, nbits + 2 ≤ fuel →
          findAlignedRange table nbits len (2 ^ a) skipMask fuel start = some r) ∧
        LeastFrom (FreeRange table nbits len (2 ^ a) skipMask) start r) ∧
      ∀ b : BitmapAllocator, b.max = nbits → b.last < 2 ^ 32 → ∀ fuel, nbits + 2 ≤ fuel →
        ∃ r, bitmapAllocRange fuel b len (2 ^ a) skipMask = some r ∧
          TakesFree b len (2 ^ a) skipMask r := by
  constructor
  · intro table start hs
    have hfind := fun fuel (hf : nbits + 2 ≤ fuel) =>
      findAlignedRange_leastFrom table skipMask fuel start hlen hn hl (by omega) (by omega) hs
    obtain ⟨r, -, hr⟩ := hfind (nbits + 2) (Nat.le_refl _)
    refine ⟨r, fun fuel hf => ?_, hr⟩
    obtain ⟨r', heq, hr'⟩ := hfind fuel hf
    rw [heq, hr.unique hr']
  · rintro b rfl hlast fuel hf
    exact bitmapAllocRange_takesFree hlen hn hl hlast hf

theorem range_search_complete_pairs :
    (∀ table start, start + 2 ^ 1 ≤ 2 ^ 32 →
      ∃ r, (∀ fuel, 8 + 2 ≤ fuel → findAlignedRange table 8 2 (2 ^ 1) 4 fuel start = some r) ∧
        LeastFrom (FreeRange table 8 2 (2 ^ 1) 4) start r) ∧
      ∀ b : BitmapAllocator, b.max = 8 → b.last < 2 ^ 32 → ∀ fuel, 8 + 2 ≤ fuel →
        ∃ r, bitmapAllocRange fuel b 2 (2 ^ 1) 4 = some r ∧ TakesFree b 2 (2 ^ 1) 4 r :=
  range_search_complete 8 2 1 4 (by decide) (by decide) (by decide)

/-- From start `2 ^ 32 - 1` the search for an even number wraps; a range from `2 ^ 31 + 1` on ends
at 0 and is accepted. -/
theorem findAlignedRange_wraps :
    findAlignedRange Bitmap.zero 8 1 2 0 10 (2 ^ 32 - 1) = some 0 ∧
      findAlignedRange Bitmap.zero (2 ^ 31 + 2) (2 ^ 31 - 1) 1 0 10 (2 ^ 31 + 1) =
        some (2 ^ 31 + 1) ∧ ¬2 ^ 31 + 1 + (2 ^ 31 - 1) ≤ 2 ^ 31 + 2 := by
  decide +kernel

end Search

end Mlx4
