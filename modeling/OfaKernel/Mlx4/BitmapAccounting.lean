-- SUMMARY: Accounting of the mlx4 bitmap allocator.
import OfaKernel.Mlx4.BitmapAlloc

/-!
# Accounting of the bitmap allocator

`alloc` and `alloc_range` or the rotating `top` into the bit number and then read `(u32)-1` as
failure. When `top` has its last value and bit `num - 1` is handed out, the handle is that very
value. `accounting_iff` says for which tables this happens.
-/

namespace Mlx4

namespace BitmapAllocator

/-- The result of an allocation that takes the bits `[obj, obj + cnt)`. -/
def takeAt (b : BitmapAllocator) (last top obj cnt : Nat) : BitmapAllocator × Nat :=
  ({ b with
      table := b.table.setRange obj cnt
      last := last
      top := top
      avail := if obj ||| top ≠ U32.allOnes then U32.sub b.avail cnt else b.avail }, obj ||| top)

/-- What an allocation of `cnt` numbers may do. -/
def AllocOutcome (b : BitmapAllocator) (cnt : Nat) (r : BitmapAllocator × Nat) : Prop :=
  ∃ top, (top = b.top ∨ top = b.nextTop) ∧
    (r = ({ b with top := top }, U32.allOnes) ∨
      ∃ last obj, obj < b.max ∧ obj + cnt ≤ b.max ∧
        (∀ j, obj ≤ j → j < obj + cnt → b.table j = false) ∧ r = b.takeAt last top obj cnt)

end BitmapAllocator

open BitmapAllocator

variable {b : BitmapAllocator}

theorem bitmapTakeBit_outcome {top obj : Nat} (ht : top = b.top ∨ top = b.nextTop)
    (h : obj < b.max → b.table obj = false) :
    b.AllocOutcome 1 (bitmapTakeBit b top obj) := by
  unfold bitmapTakeBit
  split
  · next hlt =>
      refine ⟨top, ht, .inr ⟨if obj + 1 = b.max then 0 else obj + 1, obj, hlt, hlt, ?_, ?_⟩⟩
      · intro j h₁ h₂
        obtain rfl : j = obj := by omega
        exact h hlt
      · simp only [takeAt, Bitmap.setRange_one, U32.dec_eq_sub_one]
  · exact ⟨top, ht, .inl rfl⟩

theorem bitmapAlloc_outcome (b : BitmapAllocator) : b.AllocOutcome 1 (bitmapAlloc b) := by
  unfold bitmapAlloc
  simp only
  split
  · exact bitmapTakeBit_outcome (.inr rfl) fun hlt => (Bitmap.findNextZeroBit_spec hlt).2
  · exact bitmapTakeBit_outcome (.inl rfl) fun hlt => (Bitmap.findNextZeroBit_spec hlt).2

theorem skipTaken_spec {table : Bitmap} {nbits align skipMask n start s : Nat}
    (h : skipTaken table nbits align skipMask n start = some s) (hs : s < nbits) :
    table s = false := by
  induction n generalizing start with
  | zero => simp [skipTaken] at h
  | succ n ih =>
    simp only [skipTaken] at h
    split at h
    · exact ih h
    · next hc =>
        simp only [Option.some.injEq] at h
        subst h
        simp only [hs, true_and, rangeTaken, Bool.or_eq_true, not_or, Bool.not_eq_true] at hc
        exact hc.1

theorem findAlignedRange_sound {table : Bitmap} {nbits len align skipMask n start s : Nat}
    (hn : nbits ≤ 2 ^ 31) (hl : len < 2 ^ 31)
    (h : findAlignedRange table nbits len align skipMask n start = some s) :
    s = ulongMax ∨
      (s < nbits ∧ s + len ≤ nbits ∧ ∀ j, s ≤ j → j < s + len → table j = false) := by
  induction n generalizing start with
  | zero => simp [findAlignedRange] at h
  | succ n ih =>
    simp only [findAlignedRange] at h
    split at h
    · simp at h
    · next s' hskip =>
        split at h
        · simp only [Option.some.injEq] at h
          exact .inl h.symm
        · next hc =>
            rw [not_or, Nat.not_le, Nat.not_lt] at hc
            split at h
            · exact ih h
            · next hfind =>
                simp only [Option.some.injEq] at h
                subst h
                rw [U32.wrap_of_lt (by omega)] at hc hfind
                refine .inr ⟨hc.1, hc.2, fun j h₁ h₂ => ?_⟩
                by_cases hj : j = s'
                · subst hj; exact skipTaken_spec hskip hc.1
                · rw [List.find?_range'_eq_none] at hfind
                  have := hfind j (by omega) (by omega)
                  simp only [rangeTaken, Bool.not_or, Bool.and_eq_true, Bool.not_eq_true'] at this
                  exact this.1

theorem bitmapTakeRange_outcome {top obj cnt : Nat} (ht : top = b.top ∨ top = b.nextTop)
    (h : obj < b.max → obj + cnt ≤ b.max ∧ ∀ j, obj ≤ j → j < obj + cnt → b.table j = false) :
    b.AllocOutcome cnt (bitmapTakeRange b top obj cnt) := by
  unfold bitmapTakeRange
  split
  · next hlt => exact ⟨top, ht, .inr ⟨_, obj, hlt, (h hlt).1, (h hlt).2, rfl⟩⟩
  · exact ⟨top, ht, .inl rfl⟩

theorem bitmapAllocRange_outcome {fuel cnt align skipMask : Nat} {r : BitmapAllocator × Nat}
    (hmax : b.max ≤ 2 ^ 31) (hcnt : cnt < 2 ^ 31)
    (h : bitmapAllocRange fuel b cnt align skipMask = some r) : b.AllocOutcome cnt r := by
  -- a result that survives the conversion to `u32` is a clear range
  have hsound : ∀ start s, findAlignedRange b.table b.max cnt align skipMask fuel start = some s →
      U32.wrap s < b.max →
        U32.wrap s + cnt ≤ b.max ∧ ∀ j, U32.wrap s ≤ j → j < U32.wrap s + cnt →
          b.table j = false := by
    intro start s hf hlt
    rcases findAlignedRange_sound hmax hcnt hf with rfl | ⟨hs, hclear⟩
    · have : U32.wrap ulongMax = 2 ^ 32 - 1 := by decide +kernel
      omega
    · rw [U32.wrap_of_lt (by omega)]
      exact hclear
  unfold bitmapAllocRange at h
  split at h
  · next hc =>
      simp only [Option.some.injEq] at h
      rw [← h, hc.1]
      exact bitmapAlloc_outcome b
  · split at h
    · simp at h
    · next s hf =>
        split at h
        · obtain ⟨s', hf', rfl⟩ := Option.map_eq_some_iff.mp h
          exact bitmapTakeRange_outcome (.inr rfl) (hsound 0 s' hf')
        · simp only [Option.some.injEq] at h
          rw [← h]
          exact bitmapTakeRange_outcome (.inl rfl) (hsound b.last s hf)

/-! ## The invariant -/

/-- The parameters of a table: `num = 2 ^ k` numbers. -/
structure TableParams where
  k : Nat
  mask : Nat
  reservedBot : Nat
  reservedTop : Nat
  k_le : k ≤ 31
  mask_lt : mask < 2 ^ 32
  reserved_le : reservedBot + reservedTop ≤ 2 ^ k

namespace TableParams

/-- No handle of the table can be `(u32)-1`. -/
def NoCollision (p : TableParams) : Prop :=
  p.reservedTop ≠ 0 ∨ 2 ^ p.k ≤ p.reservedBot ∨ p.mask ||| (2 ^ p.k - 1) ≠ U32.allOnes

theorem num_le (p : TableParams) : 2 ^ p.k ≤ 2 ^ 31 := Nat.pow_le_pow_right (by decide) p.k_le

/-- A value of `top`: a multiple of `num` inside the mask. -/
structure IsTop (p : TableParams) (top : Nat) : Prop where
  dvd : 2 ^ p.k ∣ top
  sub_mask : top &&& p.mask = top

variable {top : Nat}

theorem IsTop.lt {p : TableParams} (h : p.IsTop top) : top < 2 ^ 32 := by
  have := Nat.and_le_right (n := top) (m := p.mask)
  rw [h.sub_mask] at this
  exact this.trans_lt p.mask_lt

theorem isTop_zero (p : TableParams) : p.IsTop 0 := ⟨Nat.dvd_zero _, Nat.zero_and _⟩

theorem isTop_next (p : TableParams) (h : p.IsTop top) :
    p.IsTop (U32.wrap (top + 2 ^ p.k) &&& p.mask) := by
  constructor
  · have hd : 2 ^ p.k ∣ U32.wrap (top + 2 ^ p.k) := by
      unfold U32.wrap
      rw [Nat.dvd_mod_iff (Nat.pow_dvd_pow 2 (by have := p.k_le; omega))]
      exact Nat.dvd_add h.dvd (Nat.dvd_refl _)
    rw [Nat.dvd_iff_mod_eq_zero, Nat.and_mod_two_pow, Nat.dvd_iff_mod_eq_zero.mp hd, Nat.zero_and]
  · rw [Nat.and_assoc, Nat.and_self]

variable {obj : Nat}

/-- The handle of bit `obj` under `top` is their sum. -/
theorem handle_eq {p : TableParams} (h : p.IsTop top) (ho : obj < 2 ^ p.k) :
    obj ||| top = top + obj := by
  obtain ⟨q, rfl⟩ := h.dvd
  rw [Nat.or_comm, ← Nat.two_pow_add_eq_or_of_lt ho]

theorem handle_mod {p : TableParams} (h : p.IsTop top) (ho : obj < 2 ^ p.k) :
    (obj ||| top) % 2 ^ p.k = obj := by
  rw [handle_eq h ho]
  obtain ⟨q, rfl⟩ := h.dvd
  rw [Nat.mul_add_mod, Nat.mod_eq_of_lt ho]

/-- Only the last number under the last `top` collides, and only a full mask gets there. -/
theorem collision {p : TableParams} (h : p.IsTop top) (ho : obj < 2 ^ p.k)
    (hc : obj ||| top = U32.allOnes) :
    obj = 2 ^ p.k - 1 ∧ p.mask ||| (2 ^ p.k - 1) = U32.allOnes := by
  have hobj : obj = 2 ^ p.k - 1 := by
    rw [← handle_mod h ho, hc, U32.allOnes]
    have hsplit : 2 ^ 32 = 2 ^ p.k * 2 ^ (32 - p.k) := by
      rw [← pow_add]; congr 1; have := p.k_le; omega
    obtain ⟨m, hm⟩ : ∃ m, 2 ^ (32 - p.k) = m + 1 :=
      ⟨2 ^ (32 - p.k) - 1, (Nat.sub_add_cancel Nat.one_le_two_pow).symm⟩
    have hpos : 0 < 2 ^ p.k := Nat.two_pow_pos _
    rw [hsplit, hm, Nat.mul_add, Nat.mul_one, Nat.add_sub_assoc hpos, Nat.mul_add_mod]
    exact Nat.mod_eq_of_lt (by omega)
  refine ⟨hobj, ?_⟩
  apply Nat.eq_of_testBit_eq
  intro i
  have hbit := congrArg (Nat.testBit · i) hc
  rw [hobj] at hbit
  simp only [Nat.testBit_or, U32.allOnes, Nat.testBit_two_pow_sub_one] at hbit ⊢
  by_cases hk : i < p.k
  · have := p.k_le
    simp [hk, show i < 32 by omega]
  · simp only [hk, decide_false, Bool.false_or, Bool.or_false] at hbit ⊢
    have hm := congrArg (Nat.testBit · i) h.sub_mask
    simp only [Nat.testBit_and] at hm
    by_cases h32 : i < 32
    · simp only [h32, decide_true] at hbit ⊢
      rw [hbit, Bool.true_and] at hm
      exact hm
    · simp only [h32, decide_false]
      exact Nat.testBit_lt_two_pow
        (p.mask_lt.trans_le (Nat.pow_le_pow_right (by decide) (by omega)))

/-- A mask that covers every bit from `num` on keeps multiples of `num`. -/
theorem and_mask_of_full (p : TableParams) {x : Nat}
    (hmask : p.mask ||| (2 ^ p.k - 1) = U32.allOnes)
    (hd : 2 ^ p.k ∣ x) (hx : x < 2 ^ 32) : x &&& p.mask = x := by
  obtain ⟨q, rfl⟩ := hd
  apply Nat.eq_of_testBit_eq
  intro i
  have hbit := congrArg (Nat.testBit · i) hmask
  simp only [Nat.testBit_or, U32.allOnes, Nat.testBit_two_pow_sub_one] at hbit
  rw [Nat.testBit_and]
  by_cases hk : i < p.k
  · rw [Nat.testBit_two_pow_mul]
    simp [hk]
  · by_cases h32 : i < 32
    · simp only [hk, h32, decide_false, decide_true, Bool.or_false] at hbit
      rw [hbit, Bool.and_true]
    · rw [Nat.testBit_lt_two_pow (hx.trans_le (Nat.pow_le_pow_right (by decide) (by omega))),
        Bool.false_and]

end TableParams

namespace BitmapState

/-- A live allocation owns the bits its masked handle names, all of them set
and none of them reserved. -/
structure Owns (p : TableParams) (b : BitmapAllocator) (e : LiveRange) : Prop where
  fits : e.obj % 2 ^ p.k + e.cnt ≤ b.max
  bits_iff : ∀ j, e.bits j = true ↔ e.obj % 2 ^ p.k ≤ j ∧ j < e.obj % 2 ^ p.k + e.cnt
  set : ∀ j, e.bits j = true → b.table j = true ∧ p.reservedBot ≤ j

structure Inv (p : TableParams) (st : BitmapState) : Prop where
  max_eq : st.alloc.max = 2 ^ p.k - p.reservedTop
  reservedTop_eq : st.alloc.reservedTop = p.reservedTop
  mask_eq : st.alloc.mask = p.mask
  top : p.IsTop st.alloc.top
  reserved : ∀ j < p.reservedBot, st.alloc.table j = true
  avail_eq : st.alloc.avail + st.alloc.table.weight st.alloc.max = st.alloc.max
  owns : ∀ e ∈ st.live, Owns p st.alloc e
  disjoint : st.live.Pairwise fun d e => ∀ j, ¬(d.bits j = true ∧ e.bits j = true)

variable {p : TableParams} {st : BitmapState}

theorem Inv.max_le (h : Inv p st) : st.alloc.max ≤ 2 ^ 31 := by
  have := p.num_le
  rw [h.max_eq]; omega

theorem Inv.nextTop (h : Inv p st) : p.IsTop st.alloc.nextTop := by
  have hr := p.reserved_le
  have hsum : st.alloc.top + st.alloc.max + st.alloc.reservedTop = st.alloc.top + 2 ^ p.k := by
    rw [h.max_eq, h.reservedTop_eq]; omega
  unfold BitmapAllocator.nextTop
  rw [hsum, h.mask_eq]
  exact p.isTop_next h.top

variable {b : BitmapAllocator}

theorem masked_eq (hm : b.max = 2 ^ p.k - p.reservedTop) (hr : b.reservedTop = p.reservedTop)
    (obj : Nat) : bitmapMaskedValue b obj = obj % 2 ^ p.k := by
  have h₁ := p.reserved_le
  have h₂ := p.num_le
  have h₃ : 0 < 2 ^ p.k := Nat.two_pow_pos _
  have hnum : b.max + b.reservedTop = 2 ^ p.k := by rw [hm, hr]; omega
  unfold bitmapMaskedValue
  rw [hnum, U32.wrap_of_lt (by omega), U32.sub_of_le h₃ (by omega), Nat.and_two_pow_sub_one_eq_mod]

theorem Inv.masked (h : Inv p st) (obj : Nat) : bitmapMaskedValue st.alloc obj = obj % 2 ^ p.k :=
  masked_eq h.max_eq h.reservedTop_eq obj

theorem Inv.accounted (h : Inv p st) : st.Accounted := by
  constructor
  · have := Bitmap.weight_compl st.alloc.table st.alloc.max
    have := h.avail_eq
    omega
  · refine h.disjoint.imp_of_mem fun {d e} hd he hde => ?_
    rw [Set.disjoint_left]
    intro j hj hj'
    simp only [maskedRange, Set.mem_Ico, h.masked] at hj hj'
    exact hde j ⟨((h.owns d hd).bits_iff j).mpr hj, ((h.owns e he).bits_iff j).mpr hj'⟩

/-- An allocation whose handle is not taken for a failure keeps the invariant. -/
theorem Inv.takeRange (h : Inv p st) {last top obj cnt : Nat} (ht : p.IsTop top)
    (hlt : obj < st.alloc.max) (hfit : obj + cnt ≤ st.alloc.max)
    (hclear : ∀ j, obj ≤ j → j < obj + cnt → st.alloc.table j = false)
    (hne : obj ||| top ≠ U32.allOnes ∨ cnt = 0) :
    Inv p (st.allocated cnt (st.alloc.takeAt last top obj cnt)) := by
  have hk : obj < 2 ^ p.k := by rw [h.max_eq] at hlt; omega
  have hmod := p.handle_mod ht hk
  have hmax := h.max_le
  have hres : ∀ j, obj ≤ j → j < obj + cnt → p.reservedBot ≤ j := by
    intro j h₁ h₂
    by_contra hj
    have := h.reserved j (by omega)
    rw [hclear j h₁ h₂] at this
    exact absurd this (by decide)
  have hw := Bitmap.weight_setRange (b := st.alloc.table) (n := st.alloc.max) hfit hclear
  have hav := h.avail_eq
  have hwle := Bitmap.weight_le (st.alloc.table.setRange obj cnt) st.alloc.max
  have hbits : ∀ j, ((st.alloc.table.setRange obj cnt) j && !st.alloc.table j) = true ↔
      obj ≤ j ∧ j < obj + cnt := by
    intro j
    rw [Bool.and_eq_true, Bitmap.setRange_eq_true, Bool.not_eq_true']
    constructor
    · rintro ⟨hj | hj, hn⟩
      · exact hj
      · rw [hn] at hj; exact absurd hj (by decide)
    · intro hj
      exact ⟨.inl hj, hclear j hj.1 hj.2⟩
  -- older allocations keep their bits
  have howns : ∀ e ∈ st.live, Owns p (st.alloc.takeAt last top obj cnt).1 e := by
    intro e he
    have ho := h.owns e he
    exact ⟨ho.fits, ho.bits_iff, fun j hj => ⟨by simp [takeAt, (ho.set j hj).1], (ho.set j hj).2⟩⟩
  refine ⟨h.max_eq, h.reservedTop_eq, h.mask_eq, ht, ?_, ?_, ?_, ?_⟩
  · intro j hj
    simp [allocated, takeAt, h.reserved j hj]
  · simp only [allocated, takeAt]
    rcases hne with hne | rfl
    · rw [if_pos hne, U32.sub_of_le (by omega) (by omega)]
      omega
    · rw [Bitmap.setRange_zero]
      split
      · rw [U32.sub_of_le (by omega) (by omega)]; omega
      · exact hav
  · intro e he
    simp only [allocated] at he ⊢
    split at he
    · exact howns e he
    · rcases List.mem_cons.mp he with rfl | he
      · refine ⟨?_, ?_, ?_⟩
        · simp only [takeAt, hmod]; exact hfit
        · intro j
          simp only [takeAt, hmod]
          exact hbits j
        · intro j hj
          have hj' := (hbits j).mp hj
          exact ⟨by simp [takeAt, hj'], hres j hj'.1 hj'.2⟩
      · exact howns e he
  · simp only [allocated]
    split
    · exact h.disjoint
    · refine List.pairwise_cons.mpr ⟨fun e he j hj => ?_, h.disjoint⟩
      have hj' := (hbits j).mp hj.1
      have := ((h.owns e he).set j hj.2).1
      rw [hclear j hj'.1 hj'.2] at this
      exact absurd this (by decide)

/-- Under `NoCollision` an allocation keeps the invariant and fails cleanly. -/
theorem Inv.allocOutcome (h : Inv p st) (hp : p.NoCollision) {cnt : Nat}
    {r : BitmapAllocator × Nat} (hr : st.alloc.AllocOutcome cnt r) :
    Inv p (st.allocated cnt r) ∧ st.FailsClean r := by
  obtain ⟨top, ht, hcase⟩ := hr
  have htop : p.IsTop top := by
    rcases ht with rfl | rfl
    · exact h.top
    · exact h.nextTop
  rcases hcase with rfl | ⟨last, obj, hlt, hfit, hclear, rfl⟩
  · constructor
    · exact ⟨h.max_eq, h.reservedTop_eq, h.mask_eq, htop, h.reserved, h.avail_eq,
        fun e he => ⟨(h.owns e he).fits, (h.owns e he).bits_iff, (h.owns e he).set⟩, h.disjoint⟩
    · exact fun _ => ⟨rfl, rfl⟩
  · have hk : obj < 2 ^ p.k := by rw [h.max_eq] at hlt; omega
    have hne : obj ||| top ≠ U32.allOnes ∨ cnt = 0 := by
      by_contra hcon
      simp only [not_or, not_not] at hcon
      obtain ⟨hobj, hmask⟩ := p.collision htop hk hcon.1
      have hbit := hclear obj (Nat.le_refl _) (by omega)
      rcases hp with hp | hp | hp
      · rw [h.max_eq] at hlt; omega
      · have := h.reserved obj (by omega)
        rw [hbit] at this
        exact absurd this (by decide)
      · exact hp hmask
    refine ⟨h.takeRange htop hlt hfit hclear hne, fun hfail => ?_⟩
    rcases hne with hne | rfl
    · exact absurd hfail hne
    · simp only [takeAt, Bitmap.setRange_zero, true_and]
      have hf : obj ||| top = U32.allOnes := hfail
      simp [hf]

/-- A free of a live allocation keeps the invariant and clears its own bits. -/
theorem Inv.free (h : Inv p st) {i : Nat} {e : LiveRange} (he : st.live[i]? = some e)
    (useRr : Bool) :
    Inv p { alloc := bitmapFreeRange st.alloc e.obj e.cnt useRr, live := st.live.eraseIdx i } ∧
      st.FreesOwn e (bitmapFreeRange st.alloc e.obj e.cnt useRr) := by
  have hmem : e ∈ st.live := List.mem_of_getElem? he
  have ho := h.owns e hmem
  have hmax := h.max_le
  have hset : ∀ j, e.obj % 2 ^ p.k ≤ j → j < e.obj % 2 ^ p.k + e.cnt → st.alloc.table j = true :=
    fun j h₁ h₂ => (ho.set j ((ho.bits_iff j).mpr ⟨h₁, h₂⟩)).1
  have hw := Bitmap.weight_clearRange (b := st.alloc.table) ho.fits hset
  have hav := h.avail_eq
  have htable : ∀ j, (bitmapFreeRange st.alloc e.obj e.cnt useRr).table j =
      (st.alloc.table j && !e.bits j) := by
    intro j
    rw [Bool.eq_iff_iff, Bool.and_eq_true, Bool.not_eq_true', Bool.eq_false_iff, Ne, ho.bits_iff j]
    simp only [bitmapFreeRange, h.masked, Bitmap.clearRange_eq_true]
    tauto
  -- the freed allocation shares no bit with the ones that stay
  have hrest : ∀ d ∈ st.live.eraseIdx i, d ∈ st.live ∧ ∀ j,
    ¬(d.bits j = true ∧ e.bits j = true) := by
    intro d hd
    have hperm := List.getElem_cons_eraseIdx_perm (List.getElem?_eq_some_iff.mp he).1
    rw [(List.getElem?_eq_some_iff.mp he).2] at hperm
    have hpw := (hperm.pairwise_iff
      (R := fun d e : LiveRange => ∀ j, ¬(d.bits j = true ∧ e.bits j = true))
      (fun hde j hj => hde j ⟨hj.2, hj.1⟩)).mpr h.disjoint
    exact ⟨List.mem_of_mem_eraseIdx hd, fun j hj => (List.pairwise_cons.mp hpw).1 d hd
      j ⟨hj.2, hj.1⟩⟩
  refine ⟨⟨h.max_eq, h.reservedTop_eq, h.mask_eq, ?_, ?_, ?_, ?_, ?_⟩,
    fun j => ⟨fun hj => (ho.set j hj).1, htable j⟩⟩
  · simp only [bitmapFreeRange]
    split
    · exact h.top
    · exact h.nextTop
  · intro j hj
    rw [htable, h.reserved j hj, Bool.true_and, Bool.not_eq_true', Bool.eq_false_iff]
    intro hbit
    have := (ho.set j hbit).2
    omega
  · simp only [bitmapFreeRange, h.masked]
    rw [U32.wrap_of_lt (by omega)]
    omega
  · intro d hd
    obtain ⟨hdm, hdj⟩ := hrest d hd
    have hod := h.owns d hdm
    refine ⟨hod.fits, hod.bits_iff, fun j hj => ⟨?_, (hod.set j hj).2⟩⟩
    rw [htable, (hod.set j hj).1, Bool.true_and, Bool.not_eq_true', Bool.eq_false_iff]
    exact fun hje => hdj j ⟨hj, hje⟩
  · exact h.disjoint.sublist (List.eraseIdx_sublist ..)

theorem Inv.call (h : Inv p st) (hp : p.NoCollision) (c : BitmapCall) (hv : st.Valid c) :
    Inv p (st.step c) ∧ st.CallOk c := by
  cases c with
  | alloc => exact h.allocOutcome hp (bitmapAlloc_outcome st.alloc)
  | allocRange fuel cnt align skipMask =>
    have hout := fun r hr => h.allocOutcome hp
      (bitmapAllocRange_outcome h.max_le hv
        (show bitmapAllocRange fuel st.alloc cnt align skipMask = some r from hr))
    refine ⟨?_, fun r hr => (hout r hr).2⟩
    simp only [step]
    split
    · exact h
    · next r hr => exact (hout r hr).1
  | free i useRr =>
    obtain ⟨e, he, hcnt⟩ := hv
    have hf := h.free he useRr
    rw [hcnt] at hf
    simp only [step, he, CallOk, bitmapFree]
    refine ⟨hf.1, fun e' he' => ?_⟩
    obtain rfl : e = e' := by simpa using he'
    exact hf.2
  | freeRange i useRr =>
    obtain ⟨e, he⟩ : ∃ e, st.live[i]? = some e := ⟨_, List.getElem?_eq_getElem hv⟩
    simp only [step, he, CallOk]
    refine ⟨(h.free he useRr).1, fun e' he' => ?_⟩
    obtain rfl : e = e' := by simpa using he'
    exact (h.free he useRr).2

/-! ## The run that collides

With a full mask, each free that does not keep the rotation moves `top` one
step on. When `top` is at its end, single allocations walk up to bit `num - 1`. -/

/-- From `st` some run of valid calls breaks the promise of a call. -/
def CanBreak (st : BitmapState) : Prop :=
  ∃ calls, Run.Steps step Valid st calls ∧ ¬Run.Steps step CallOk st calls

theorem CanBreak.of_step {c : BitmapCall} (hv : st.Valid c) (h : (st.step c).CanBreak) :
    st.CanBreak := by
  obtain ⟨calls, h₁, h₂⟩ := h
  exact ⟨c :: calls, ⟨hv, h₁⟩, fun hok => h₂ hok.2⟩

/-- Exactly the first `n` numbers are taken and the search starts at or below `n`. -/
structure Filled (p : TableParams) (st : BitmapState) (n : Nat) : Prop where
  max_eq : st.alloc.max = 2 ^ p.k
  reservedTop_eq : st.alloc.reservedTop = 0
  mask_eq : st.alloc.mask = p.mask
  last_le : st.alloc.last ≤ n
  table_eq : ∀ j, st.alloc.table j = decide (j < n)

theorem bitmapTakeBit_max (b : BitmapAllocator) (top obj : Nat) :
    (bitmapTakeBit b top obj).1.max = b.max := by
  unfold bitmapTakeBit; split <;> rfl

theorem bitmapTakeBit_reservedTop (b : BitmapAllocator) (top obj : Nat) :
    (bitmapTakeBit b top obj).1.reservedTop = b.reservedTop := by
  unfold bitmapTakeBit; split <;> rfl

variable {n : Nat}

/-- An allocation takes the first free number. -/
theorem Filled.alloc_eq (h : Filled p st n) (hn : n < 2 ^ p.k) :
    bitmapAlloc st.alloc = bitmapTakeBit st.alloc st.alloc.top n := by
  have hfind : st.alloc.table.findNextZeroBit st.alloc.max st.alloc.last = n := by
    apply Bitmap.findNextZeroBit_eq h.last_le (by rw [h.max_eq]; exact hn)
    · rw [h.table_eq]; simp
    · intro j _ hj
      rw [h.table_eq]; simpa using hj
  unfold bitmapAlloc
  simp only [hfind]
  rw [if_neg (by rw [h.max_eq]; omega)]

theorem Filled.alloc (h : Filled p st n) (hn : n + 1 < 2 ^ p.k) :
    Filled p (st.step .alloc) (n + 1) ∧ (st.step .alloc).alloc.top = st.alloc.top := by
  have hlt : n < st.alloc.max := by rw [h.max_eq]; omega
  have hlast : ¬n + 1 = st.alloc.max := by rw [h.max_eq]; omega
  simp only [BitmapState.step, allocated, h.alloc_eq (by omega), bitmapTakeBit, if_pos hlt]
  refine ⟨⟨h.max_eq, h.reservedTop_eq, h.mask_eq, ?_, ?_⟩, trivial⟩
  · rw [if_neg hlast]
  · intro j
    rw [Bool.eq_iff_iff, Bitmap.setBit_eq_true, h.table_eq]
    simp only [decide_eq_true_eq]
    omega

/-- With `top` at its end the walk up ends in the collision. -/
theorem Filled.canBreak_last (h : Filled p st n) (hn : n < 2 ^ p.k) (ht : p.IsTop st.alloc.top)
    (hlast : st.alloc.top + 2 ^ p.k = 2 ^ 32) : st.CanBreak := by
  obtain ⟨d, hd⟩ : ∃ d, n + d + 1 = 2 ^ p.k := ⟨2 ^ p.k - n - 1, by omega⟩
  induction d generalizing st n with
  | zero =>
    refine ⟨[.alloc], ⟨trivial, trivial⟩, fun hok => ?_⟩
    have hfail : (bitmapAlloc st.alloc).2 = U32.allOnes := by
      rw [h.alloc_eq hn, bitmapTakeBit, if_pos (by rw [h.max_eq]; omega)]
      simp only [p.handle_eq ht hn, U32.allOnes]
      omega
    have hset : (bitmapAlloc st.alloc).1.table n = true := by
      rw [h.alloc_eq hn, bitmapTakeBit, if_pos (by rw [h.max_eq]; omega)]
      simp
    have hkeep := (hok.1 hfail).1
    rw [hkeep, h.table_eq] at hset
    simp at hset
  | succ d ih =>
    obtain ⟨hf, htop⟩ := h.alloc (by omega)
    refine CanBreak.of_step (c := .alloc) trivial (ih hf (by omega) ?_ ?_ (by omega))
    · rw [htop]; exact ht
    · rw [htop]; exact hlast

/-- One allocation and one free without round robin move `top` a step on. -/
theorem Filled.rotate (h : Filled p st n) (hn : n < 2 ^ p.k) (hlive : st.live = [])
    (hmask : p.mask ||| (2 ^ p.k - 1) = U32.allOnes) (ht : p.IsTop st.alloc.top)
    (hroom : st.alloc.top + 2 ^ p.k < 2 ^ 32) :
    Run.Steps step Valid st [.alloc, .free 0 false] ∧
      Filled p (Run.final step st [.alloc, .free 0 false]) n ∧
      (Run.final step st [.alloc, .free 0 false]).live = [] ∧
      (Run.final step st [.alloc, .free 0 false]).alloc.top = st.alloc.top + 2 ^ p.k := by
  have hlt : n < st.alloc.max := by rw [h.max_eq]; exact hn
  have hne : n ||| st.alloc.top ≠ U32.allOnes := by
    rw [p.handle_eq ht hn, U32.allOnes]; omega
  have hmasked : ∀ b : BitmapAllocator, b.max = st.alloc.max →
    b.reservedTop = st.alloc.reservedTop →
      bitmapMaskedValue b (n ||| st.alloc.top) = n := by
    intro b h₁ h₂
    unfold bitmapMaskedValue
    rw [h₁, h₂, h.max_eq, h.reservedTop_eq, Nat.add_zero, U32.wrap_of_lt (by omega),
      U32.sub_of_le Nat.one_le_two_pow (by omega), Nat.and_two_pow_sub_one_eq_mod,
      p.handle_mod ht hn]
  have htop : U32.wrap (st.alloc.top + 2 ^ p.k) &&& p.mask = st.alloc.top + 2 ^ p.k := by
    rw [U32.wrap_of_lt hroom]
    exact p.and_mask_of_full hmask (Nat.dvd_add ht.dvd (Nat.dvd_refl _)) hroom
  simp only [Run.steps_cons, Run.steps_nil, Run.final, List.foldl, Valid,
    BitmapState.step, allocated,
    h.alloc_eq hn, bitmapTakeBit, if_pos hlt, if_neg hne, hlive, List.getElem?_cons_zero]
  refine ⟨⟨trivial, ⟨_, rfl, rfl⟩, trivial⟩,
    ⟨h.max_eq, h.reservedTop_eq, h.mask_eq, ?_, ?_⟩, rfl, ?_⟩
  · exact (Nat.min_le_right _ _).trans (hmasked _ rfl rfl).le
  · intro j
    have hm := hmasked _ (bitmapTakeBit_max st.alloc st.alloc.top n)
      (bitmapTakeBit_reservedTop st.alloc st.alloc.top n)
    simp only [bitmapTakeBit, if_pos hlt] at hm
    simp only [bitmapFree, bitmapFreeRange, hm]
    rw [Bool.eq_iff_iff, Bitmap.clearRange_eq_true, Bitmap.setBit_eq_true, h.table_eq]
    simp only [decide_eq_true_eq]
    omega
  · simp only [bitmapFree, bitmapFreeRange, Bool.false_eq_true, if_false, BitmapAllocator.nextTop,
      h.max_eq, h.reservedTop_eq, h.mask_eq, Nat.add_zero]
    exact htop

theorem CanBreak.of_final {calls : List BitmapCall} (hv : Run.Steps step Valid st calls)
    (h : (Run.final step st calls).CanBreak) : st.CanBreak := by
  induction calls generalizing st with
  | nil => exact h
  | cons c calls ih => exact CanBreak.of_step hv.1 (ih hv.2 h)

theorem Filled.canBreak (h : Filled p st n) (hn : n < 2 ^ p.k) (hlive : st.live = [])
    (hmask : p.mask ||| (2 ^ p.k - 1) = U32.allOnes) (ht : p.IsTop st.alloc.top) :
    st.CanBreak := by
  have hk := p.k_le
  obtain ⟨r, hr⟩ : ∃ r, st.alloc.top + (r + 1) * 2 ^ p.k = 2 ^ 32 := by
    obtain ⟨q, hq⟩ := ht.dvd
    have hlt := ht.lt
    have hsplit : 2 ^ 32 = 2 ^ p.k * 2 ^ (32 - p.k) := by rw [← pow_add]; congr 1; omega
    rw [hq, hsplit] at hlt
    have hql : q < 2 ^ (32 - p.k) := Nat.lt_of_mul_lt_mul_left hlt
    refine ⟨2 ^ (32 - p.k) - q - 1, ?_⟩
    rw [hq, hsplit, Nat.mul_comm _ (2 ^ p.k), ← Nat.mul_add]
    congr 1
    omega
  -- `r` counts the rotations left until `top` is at its end
  induction r generalizing st with
  | zero => exact h.canBreak_last hn ht (by omega)
  | succ r ih =>
    rw [Nat.succ_mul, Nat.succ_mul] at hr
    obtain ⟨hv, hf, hl, htop⟩ := h.rotate hn hlive hmask ht (by omega)
    refine CanBreak.of_final hv (ih hf hl ?_ ?_)
    · rw [htop]
      exact ⟨Nat.dvd_add ht.dvd (Nat.dvd_refl _), p.and_mask_of_full hmask
        (Nat.dvd_add ht.dvd (Nat.dvd_refl _)) (by omega)⟩
    · rw [htop, Nat.succ_mul]
      omega

/-! ## Every run -/

/-- The table `mlx4_bitmap_init` makes for the parameters. -/
def ofParams (p : TableParams) (b : BitmapAllocator) : Prop :=
  bitmapInit true (2 ^ p.k) p.mask p.reservedBot p.reservedTop = some b

theorem roundupPowOfTwo_pow (k : Nat) : roundupPowOfTwo (2 ^ k) = 2 ^ k := by
  rw [roundupPowOfTwo, Nat.clog_pow _ _ (by decide)]

theorem ofParams_eq (h : ofParams p b) :
    b = { last := 0, top := 0, max := 2 ^ p.k - p.reservedTop, reservedTop := p.reservedTop,
          mask := p.mask, avail := 2 ^ p.k - p.reservedTop - p.reservedBot,
          effectiveLen := 2 ^ p.k - p.reservedTop - p.reservedBot,
          table := Bitmap.zero.setRange 0 p.reservedBot } := by
  have hk := p.num_le
  have hr := p.reserved_le
  unfold ofParams bitmapInit at h
  rw [roundupPowOfTwo_pow, if_neg (fun hne => hne rfl), if_pos rfl] at h
  rw [U32.sub_of_le (a := 2 ^ p.k) (by omega) (by omega), U32.sub_of_le (by omega) (by omega)] at h
  exact (Option.some.inj h).symm

theorem ofParams_inv (h : ofParams p b) : Inv p (init b) := by
  have hr := p.reserved_le
  rw [ofParams_eq h]
  refine ⟨rfl, rfl, rfl, p.isTop_zero, ?_, ?_, by simp [init], by simp [init]⟩
  · simp [init]
  · simp only [init]
    rw [Bitmap.weight_setRange (b := Bitmap.zero) (by omega) (fun j _ _ => rfl), Bitmap.weight_zero]
    omega

theorem ofParams_filled (h : ofParams p b) (ht : p.reservedTop = 0) :
    Filled p (init b) p.reservedBot := by
  rw [ofParams_eq h, ht]
  refine ⟨rfl, rfl, rfl, Nat.zero_le _, fun j => ?_⟩
  simp [init, Bitmap.setRange]

/-- The accounting holds in every state and at every call of every run of the
table, if and only if no handle can be `(u32)-1`. -/
theorem accounting_iff (p : TableParams) (b : BitmapAllocator) (hb : ofParams p b) :
    (∀ calls, Run.Steps step Valid (init b) calls →
      (∀ st ∈ Run.states step (init b) calls, st.Accounted) ∧
        Run.Steps step CallOk (init b) calls) ↔ p.NoCollision := by
  constructor
  · intro hall
    by_contra hp
    simp only [TableParams.NoCollision, not_or, not_not, Nat.not_le] at hp
    obtain ⟨htop, hbot, hmask⟩ := hp
    have hfill := ofParams_filled hb htop
    have hzero : (init b).alloc.top = 0 := by rw [ofParams_eq hb]; rfl
    obtain ⟨calls, hv, hbad⟩ := hfill.canBreak hbot rfl hmask (by rw [hzero]; exact p.isTop_zero)
    exact hbad (hall calls hv).2
  · intro hp calls hv
    have hinv := ofParams_inv hb
    have hstep := fun s c (hs : Inv p s) hc => (hs.call hp c hc).1
    exact ⟨fun st hst => (hv.invariant hstep hinv st hst).accounted,
      hv.each hstep (fun s c hs hc => (hs.call hp c hc).2) hinv⟩

theorem ofParams_exists (p : TableParams) : ∃ b, ofParams p b := by
  unfold ofParams bitmapInit
  rw [roundupPowOfTwo_pow, if_neg (fun hne => hne rfl), if_pos rfl]
  exact ⟨_, rfl⟩

/-- The XRC domain table: 2 ^ 16 numbers under a mask of 16 bits, one reserved. -/
def xrcdTable : TableParams :=
  { k := 16, mask := 2 ^ 16 - 1, reservedBot := 1, reservedTop := 0
    k_le := by decide, mask_lt := by decide, reserved_le := by decide }

/-- The MPT table with the default 2 ^ 19 entries, 16 of them reserved, under the mask `~0`. -/
def mptTable : TableParams :=
  { k := 19, mask := U32.allOnes, reservedBot := 16, reservedTop := 0
    k_le := by decide, mask_lt := by decide, reserved_le := by decide }

theorem accounting_iff_xrcd :
    ∃ b, ofParams xrcdTable b ∧
      ((∀ calls, Run.Steps step Valid (init b) calls →
        (∀ st ∈ Run.states step (init b) calls, st.Accounted) ∧
          Run.Steps step CallOk (init b) calls) ↔ xrcdTable.NoCollision) := by
  obtain ⟨b, hb⟩ := ofParams_exists xrcdTable
  exact ⟨b, hb, accounting_iff xrcdTable b hb⟩

/-- On the MPT table some run of allocations and frees ends in a call that
returns `(u32)-1` and leaves a bit set. -/
theorem mpt_accounting_breaks :
    ∃ b, ofParams mptTable b ∧
      ¬∀ calls, Run.Steps step Valid (init b) calls →
        (∀ st ∈ Run.states step (init b) calls, st.Accounted) ∧
          Run.Steps step CallOk (init b) calls := by
  obtain ⟨b, hb⟩ := ofParams_exists mptTable
  have hzero : (init b).alloc.top = 0 := by rw [ofParams_eq hb]; rfl
  obtain ⟨calls, hv, hbad⟩ := (ofParams_filled hb rfl).canBreak (by decide) rfl (by decide)
    (by rw [hzero]; exact mptTable.isTop_zero)
  exact ⟨b, hb, fun hall => hbad (hall calls hv).2⟩

end BitmapState

end Mlx4
