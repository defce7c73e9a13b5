-- SUMMARY: Completeness of the MTT buddy allocator.
import OfaKernel.Mlx4.Buddy

/-!
# Completeness of the buddy allocator

A free aligned block cannot be free only in pieces, since two free buddies are always joined. So
`mlx4_buddy_alloc` misses no free block.
-/

namespace Mlx4

section Search

open Buddy

variable {b : Buddy} {held : List (Nat × Nat)}

/-- The search comes back empty when no order it looks at has a set bit. -/
theorem buddyAllocSearch_none (h : Held b held) {n o : Nat}
    (hn : buddyAllocSearch b n o = none) :
    ∀ o', o ≤ o' → o' < o + n → o' ≤ b.maxOrder → ∀ s, b.bits o' s = false := by
  induction n generalizing o with
  | zero =>
    omega
  | succ n ih =>
    simp only [buddyAllocSearch] at hn
    split at hn
    · simp at hn
    · next hc =>
        intro o' h₁ h₂ hm s
        by_cases he : o' = o
        · subst he
          by_contra hs
          have hs' : b.bits o' s = true := by simpa using hs
          have hlt := h.bits_range o' hm s hs'
          have hpos := Bitmap.weight_pos hlt hs'
          -- a set bit is counted, and the scan of the bitmap comes to one
          refine hc ⟨?_, ?_⟩
          · rw [h.numFree_eq o' hm]
            omega
          · by_contra hf
            exact hs (Bitmap.findFirstBit_none hf s hlt)
        · exact ih hn o' (by omega) (by omega) hm s

/-- No block in hand meets the block `k` of order `o`. -/
def Untouched (held : List (Nat × Nat)) (o k : Nat) : Prop :=
  ∀ x ∈ Dyadic.block o k, heldCover held x = 0

theorem Untouched.half {o k : Nat} (h : Untouched held (o + 1) k) {s : Nat} (hs : s / 2 = k) :
    Untouched held o s := by
  intro x hx
  refine h x ?_
  rw [Dyadic.mem_block] at hx ⊢
  rw [pow_succ, ← Nat.div_div_eq_div_mul, hx, hs]

/-- The block of order `o'` around the block `s` of order `o` is free. -/
def InsideFree (b : Buddy) (o s : Nat) : Prop :=
  ∃ o', o ≤ o' ∧ o' ≤ b.maxOrder ∧ b.bits o' (s / 2 ^ (o' - o)) = true

theorem InsideFree.parent {o s : Nat} (h : InsideFree b o s) (hs : b.bits o s = false) :
    InsideFree b (o + 1) (s / 2) := by
  obtain ⟨o', h₁, h₂, hb⟩ := h
  have hne : o' ≠ o := by
    rintro rfl
    rw [Nat.sub_self, Nat.pow_zero, Nat.div_one, hs] at hb
    exact absurd hb (by decide)
  refine ⟨o', by omega, h₂, ?_⟩
  rw [Nat.div_div_eq_div_mul, ← pow_succ', show o' - (o + 1) + 1 = o' - o by omega]
  exact hb

/-- An untouched block lies inside one free block: by induction on its order,
and two halves that are free on their own would be buddies. -/
theorem Buddy.Held.insideFree (h : Held b held) {o k : Nat} (hr : b.InRange o k)
    (hu : Untouched held o k) : InsideFree b o k := by
  induction o generalizing k with
  | zero =>
    have hlt : k < 2 ^ b.maxOrder := by simpa using hr.2
    have hheld := hu k (Dyadic.mem_block.mpr (by simp))
    have hc := h.cover k hlt
    have hne : b.freeCover k ≠ 0 := by omega
    obtain ⟨o', ho', hb⟩ := Finset.exists_ne_zero_of_sum_ne_zero hne
    refine ⟨o', Nat.zero_le _, by simpa [Nat.lt_succ_iff] using ho', ?_⟩
    by_contra hb'
    exact hb (if_neg hb')
  | succ o ih =>
    have ho : o < b.maxOrder := hr.1
    have hpow : 2 ^ (b.maxOrder - o) = 2 * 2 ^ (b.maxOrder - (o + 1)) := by
      rw [← pow_succ']
      congr 1
      omega
    have hk := hr.2
    have hlow : InsideFree b o (2 * k) := ih ⟨ho.le, by omega⟩ (hu.half (by omega))
    have hup : InsideFree b o (2 * k + 1) := ih ⟨ho.le, by omega⟩ (hu.half (by omega))
    cases hb : b.bits o (2 * k) with
    | false => simpa using hlow.parent hb
    | true =>
      cases hb' : b.bits o (2 * k + 1) with
      | false => simpa [show (2 * k + 1) / 2 = k by omega] using hup.parent hb'
      | true =>
        refine absurd ⟨hb, ?_⟩ (h.no_buddies o ho (2 * k))
        rw [Dyadic.two_mul_xor_one]
        exact hb'

theorem Buddy.Held.untouched {o s : Nat} (h : Held b ((o, s) :: held)) : Untouched held o s := by
  intro x hx
  have hr := h.index_small
  have hc := h.cover x (Dyadic.lt_of_mem_block hr.1 hr.2.1 hx)
  rw [heldCover_cons, if_pos (Dyadic.mem_block.mp hx)] at hc
  omega

/-- `mlx4_buddy_alloc` fails exactly when every block of the order is touched. -/
theorem buddyAlloc_eq_allOnes_iff (h : Held b held) {order : Nat} (ho : order ≤ b.maxOrder) :
    (buddyAlloc b order).2 = U32.allOnes ↔ ¬∃ k, b.InRange order k ∧ Untouched held order k := by
  cases hs : buddyAllocSearch b (b.maxOrder + 1 - order) order with
  | none =>
    refine iff_of_true (by simp [buddyAlloc, hs]) ?_
    rintro ⟨k, hk, hu⟩
    obtain ⟨o', h₁, h₂, hb⟩ := h.insideFree hk hu
    rw [buddyAllocSearch_none h hs o' h₁ (by omega) h₂] at hb
    exact absurd hb (by decide)
  | some r =>
    obtain ⟨b', s, heq, hne, hm, hh⟩ := buddyAlloc_some h hs
    refine iff_of_false (by rw [heq]; exact hne) ?_
    have hr : b.InRange order s := ⟨ho, by rw [← hm]; exact hh.index_small.2.1⟩
    exact fun hno => hno ⟨s, hr, hh.untouched⟩

end Search

namespace BuddyState

/-- The aligned block `[k * 2 ^ order, (k + 1) * 2 ^ order)` lies inside
`[0, 2 ^ max_order)` and shares nothing with a live allocation. -/
def FreeBlock (st : BuddyState) (maxOrder order k : Nat) : Prop :=
  (k + 1) * 2 ^ order ≤ 2 ^ maxOrder ∧
    ∀ p ∈ st.live,
      Disjoint (Set.Ico (k * 2 ^ order) ((k + 1) * 2 ^ order)) (Set.Ico p.1 (p.1 + 2 ^ p.2))

theorem Inv.untouched_iff {st : BuddyState} (h : st.Inv) (order k : Nat) :
    Untouched st.blocks order k ↔
      ∀ p ∈ st.live, Disjoint (Dyadic.block order k) (Set.Ico p.1 (p.1 + 2 ^ p.2)) := by
  constructor
  · intro hu p hp
    rw [h.interval hp, Set.disjoint_left]
    intro x hx hx'
    have hzero := hu x hx
    rw [Buddy.heldCover, List.countP_eq_zero] at hzero
    exact hzero _ (List.mem_map_of_mem hp) (by simpa using Dyadic.mem_block.mp hx')
  · intro hd x hx
    rw [Buddy.heldCover, List.countP_eq_zero]
    intro q hq hxq
    obtain ⟨p, hp, rfl⟩ := List.mem_map.mp hq
    have hx' : x ∈ Dyadic.block p.2 (p.1 / 2 ^ p.2) := Dyadic.mem_block.mpr (by simpa using hxq)
    rw [← h.interval hp] at hx'
    exact Set.disjoint_left.mp (hd p hp) hx hx'

theorem Inv.freeBlock_iff {st : BuddyState} (h : st.Inv) {order : Nat}
    (ho : order ≤ st.buddy.maxOrder) (k : Nat) :
    st.FreeBlock st.buddy.maxOrder order k ↔
      st.buddy.InRange order k ∧ Untouched st.blocks order k := by
  rw [FreeBlock, Buddy.InRange, h.untouched_iff, Dyadic.block]
  have hpow : 2 ^ st.buddy.maxOrder = 2 ^ (st.buddy.maxOrder - order) * 2 ^ order := by
    rw [← pow_add, Nat.sub_add_cancel ho]
  rw [hpow, Nat.mul_le_mul_right_iff (Nat.two_pow_pos order)]
  simp only [ho, true_and, Nat.lt_iff_add_one_le]

/-- In every state of every run of allocations and frees of live blocks, an
allocation fails if and only if no aligned block of its order is free. -/
theorem alloc_complete {kvmalloc : Nat → Bool} {maxOrder : Nat} {b : Buddy}
    (hinit : buddyInit kvmalloc maxOrder = some b) {calls : List BuddyCall}
    (hv : Run.Steps step Valid (init b) calls) :
    ∀ st ∈ Run.states step (init b) calls, ∀ order ≤ maxOrder,
      (buddyAlloc st.buddy order).2 = U32.allOnes ↔ ¬∃ k, st.FreeBlock maxOrder order k := by
  intro st hst order ho
  obtain ⟨hinv, hm⟩ := inv_every_run hinit hv st hst
  subst hm
  rw [buddyAlloc_eq_allOnes_iff hinv.held ho]
  simp only [hinv.freeBlock_iff ho]

/-- Three allocations and one free leave the blocks 0 and 3 of order 0 free: no
two of them make a block of order 1. -/
theorem alloc_complete_fragmented :
    ∃ b, buddyInit (fun _ => true) 2 = some b ∧
      ∀ st ∈ Run.states step (init b) [.alloc 0, .alloc 0, .alloc 0, .free 0 0], ∀ order ≤ 2,
        (buddyAlloc st.buddy order).2 = U32.allOnes ↔ ¬∃ k, st.FreeBlock 2 order k := by
  refine ⟨_, rfl, alloc_complete (show buddyInit (fun _ => true) 2 = _ from rfl) ?_⟩
  simp only [Run.steps_cons, Run.steps_nil, Valid, true_and, and_true]
  decide +kernel

/-! ## The bitmaps as a function of the live allocations -/

section

variable {st : BuddyState} {o s : Nat}

theorem Inv.freeBlock_of_bit (h : st.Inv) (ho : o ≤ st.buddy.maxOrder)
    (hb : st.buddy.bits o s = true) : st.FreeBlock st.buddy.maxOrder o s := by
  have hr : st.buddy.InRange o s := ⟨ho, h.held.bits_range o ho s hb⟩
  refine (h.freeBlock_iff ho s).mpr ⟨hr, (h.untouched_iff o s).mpr ?_⟩
  exact h.partition.free_live_disjoint o ho s hb

/-- A bit is set exactly for a free block that is not a half of a larger free block. -/
theorem Inv.bits_iff (h : st.Inv) (ho : o ≤ st.buddy.maxOrder) :
    st.buddy.bits o s = true ↔ st.FreeBlock st.buddy.maxOrder o s ∧
      (o < st.buddy.maxOrder → ¬st.FreeBlock st.buddy.maxOrder (o + 1) (s / 2)) := by
  constructor
  · intro hb
    refine ⟨h.freeBlock_of_bit ho hb, fun hlt hparent => ?_⟩
    obtain ⟨hr, hu⟩ := (h.freeBlock_iff hlt _).mp hparent
    obtain ⟨o', ho', hmax, hb'⟩ := h.held.insideFree hr hu
    have hd := h.partition.free_disjoint o ho o' hmax s _ hb hb' (by
      intro he
      have := congrArg Prod.fst he
      simp only at this
      omega)
    refine Set.disjoint_left.mp hd (show s * 2 ^ o ∈ _ from ?_) ?_
    · rw [Dyadic.mem_block, Nat.mul_div_cancel _ (Nat.two_pow_pos o)]
    · obtain ⟨d, rfl⟩ := Nat.exists_eq_add_of_le ho'
      rw [Dyadic.mem_block, Nat.add_sub_cancel_left, pow_add, pow_succ, Nat.mul_assoc,
        ← Nat.div_div_eq_div_mul, Nat.mul_div_cancel _ (Nat.two_pow_pos o), Nat.div_div_eq_div_mul]
  · rintro ⟨hfree, hparent⟩
    obtain ⟨hr, hu⟩ := (h.freeBlock_iff ho s).mp hfree
    obtain ⟨o', ho', hmax, hb⟩ := h.held.insideFree hr hu
    obtain ⟨d, rfl⟩ := Nat.exists_eq_add_of_le ho'
    cases d with
    | zero => simpa using hb
    | succ d =>
      -- the block around it is free, and its parent lies in that block
      have hlt : o < st.buddy.maxOrder := by omega
      have ho₁ : o + 1 ≤ st.buddy.maxOrder := hlt
      refine absurd ((h.freeBlock_iff ho₁ _).mpr ⟨⟨ho₁, ?_⟩, fun x hx => ?_⟩) (hparent hlt)
      · have hs := hr.2
        rw [show st.buddy.maxOrder - o = st.buddy.maxOrder - (o + 1) + 1 by omega, pow_succ] at hs
        omega
      · refine ((h.freeBlock_iff hmax _).mp (h.freeBlock_of_bit hmax hb)).2 x ?_
        rw [Dyadic.mem_block] at hx ⊢
        rw [Nat.add_sub_cancel_left, show o + (d + 1) = o + 1 + d by omega, pow_add,
          ← Nat.div_div_eq_div_mul, hx, Nat.div_div_eq_div_mul, ← pow_succ']

end

/-- The bitmaps and the counters do not remember the order of the calls: two runs with the same
live allocations come to the same free blocks. -/
theorem bits_of_live {kvmalloc : Nat → Bool} {maxOrder : Nat} {b : Buddy}
    (hinit : buddyInit kvmalloc maxOrder = some b) {calls calls' : List BuddyCall}
    (hv : Run.Steps step Valid (init b) calls) (hv' : Run.Steps step Valid (init b) calls') :
    ∀ st ∈ Run.states step (init b) calls, ∀ st' ∈ Run.states step (init b) calls',
      (∀ p, p ∈ st.live ↔ p ∈ st'.live) → ∀ o ≤ maxOrder,
        st.buddy.bits o = st'.buddy.bits o ∧ st.buddy.numFree o = st'.buddy.numFree o := by
  intro st hst st' hst' hlive o ho
  obtain ⟨h, hm⟩ := inv_every_run hinit hv st hst
  obtain ⟨h', hm'⟩ := inv_every_run hinit hv' st' hst'
  have hfree (o k : Nat) : st.FreeBlock maxOrder o k ↔ st'.FreeBlock maxOrder o k := by
    simp only [FreeBlock, hlive]
  have hbits : st.buddy.bits o = st'.buddy.bits o := by
    funext s
    rw [Bool.eq_iff_iff, h.bits_iff (ho.trans_eq hm.symm),
      h'.bits_iff (ho.trans_eq hm'.symm), hm, hm',
      hfree, hfree]
  refine ⟨hbits, ?_⟩
  rw [(h.partition.numFree_eq o (ho.trans_eq hm.symm)).2,
    (h'.partition.numFree_eq o (ho.trans_eq hm'.symm)).2, hbits, hm, hm']

theorem bits_of_live_two_orders : ∃ b, buddyInit (fun _ => true) 2 = some b ∧
    ∀ st ∈ Run.states step (init b) [.alloc 0, .alloc 0, .free 0 0],
    ∀ st' ∈ Run.states step (init b) [.alloc 0, .alloc 0, .alloc 1, .free 0 0, .free 2 1],
      (∀ p, p ∈ st.live ↔ p ∈ st'.live) → ∀ o ≤ 2,
        st.buddy.bits o = st'.buddy.bits o ∧ st.buddy.numFree o = st'.buddy.numFree o := by
  refine ⟨_, rfl, bits_of_live (show buddyInit (fun _ => true) 2 = _ from rfl) ?_ ?_⟩
  all_goals
    simp only [Run.steps_cons, Run.steps_nil, Valid, true_and, and_true]
    decide +kernel

end BuddyState

end Mlx4
