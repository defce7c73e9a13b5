-- SUMMARY: The MTT buddy allocator of mlx4 (`mr.c`).
import Mathlib.Order.CompletePartialOrder
import Mathlib.Algebra.Order.BigOperators.Group.Finset
import OfaKernel.Lib.Bitmap
import OfaKernel.Lib.CInt
import OfaKernel.Lib.Dyadic
import OfaKernel.Lib.Run

/-!
# The MTT buddy allocator

One bitmap per order: a set bit `s` of `bits[o]` is a free block `[s * 2 ^ o, (s + 1) * 2 ^ o)`,
and `num_free[o]` counts the set bits.
-/

open Function List

namespace Mlx4

structure Buddy where
  bits : Nat → Bitmap
  numFree : Nat → Nat
  maxOrder : Nat

namespace Buddy

/-- `set_bit(s, bits[o]); ++num_free[o];` -/
def put (b : Buddy) (o s : Nat) : Buddy :=
  { b with
    bits := update b.bits o ((b.bits o).setBit s)
    numFree := update b.numFree o (U32.inc (b.numFree o)) }

/-- `clear_bit(s, bits[o]); --num_free[o];` -/
def take (b : Buddy) (o s : Nat) : Buddy :=
  { b with
    bits := update b.bits o ((b.bits o).clearBit s)
    numFree := update b.numFree o (U32.dec (b.numFree o)) }

@[simp] theorem put_maxOrder (b : Buddy) (o s : Nat) : (b.put o s).maxOrder = b.maxOrder := rfl
@[simp] theorem take_maxOrder (b : Buddy) (o s : Nat) : (b.take o s).maxOrder = b.maxOrder := rfl

@[simp] theorem put_bits {b : Buddy} {o s o' s' : Nat} :
    (b.put o s).bits o' s' = true ↔ (o' = o ∧ s' = s) ∨ b.bits o' s' = true := by
  by_cases h : o' = o
  · subst h; simp [put]
  · simp [put, h]

@[simp] theorem take_bits {b : Buddy} {o s o' s' : Nat} :
    (b.take o s).bits o' s' = true ↔ ¬(o' = o ∧ s' = s) ∧ b.bits o' s' = true := by
  by_cases h : o' = o
  · subst h; simp [take]
  · simp [take, h]

end Buddy

/-- `mlx4_buddy_init`. `kvmalloc i` says whether the bitmap of order `i` could be allocated. From
`max_order = 31` on, `1 << (max_order - i)` leaves the range of `int` and the array size is
refused. -/
def buddyInit (kvmalloc : Nat → Bool) (maxOrder : Nat) : Option Buddy :=
  if maxOrder ≤ 30 ∧ ∀ i ≤ maxOrder, kvmalloc i = true then
    some
      { bits := update (fun _ => Bitmap.zero) maxOrder (Bitmap.zero.setBit 0)
        numFree := update (fun _ => 0) maxOrder 1
        maxOrder := maxOrder }
  else none

/-- The search loop of `mlx4_buddy_alloc`, with `n` orders left from `o` on. -/
def buddyAllocSearch (b : Buddy) : Nat → Nat → Option (Nat × Nat)
  | 0, _ => none
  | n + 1, o =>
    let m := 2 ^ (b.maxOrder - o)
    let seg := (b.bits o).findFirstBit m
    if b.numFree o ≠ 0 ∧ seg < m then some (o, seg) else buddyAllocSearch b n (o + 1)

/-- The splitting loop of `mlx4_buddy_alloc`: `k` is `o - order`, the number of
halvings left. The lower half stays in hand, the upper half becomes free. -/
def buddySplit (order : Nat) : Nat → Buddy → Nat → Buddy × Nat
  | 0, b, seg => (b, seg)
  | k + 1, b, seg =>
    let seg' := U32.wrap (seg <<< 1)
    buddySplit order k (b.put (order + k) (seg' ^^^ 1)) seg'

def buddyAlloc (b : Buddy) (order : Nat) : Buddy × Nat :=
  match buddyAllocSearch b (b.maxOrder + 1 - order) order with
  | none => (b, U32.allOnes)
  | some (o, seg) =>
    let (b', seg') := buddySplit order (o - order) (b.take o seg) seg
    (b', U32.wrap (seg' <<< order))

/-- The coalescing loop of `mlx4_buddy_free`. When `n`, `max_order + 1 - order`, is used up the
loop has come to a bitmap above `max_order`. -/
def buddyFreeLoop : Nat → Buddy → Nat → Nat → Option Buddy
  | 0, _, _, _ => none
  | n + 1, b, seg, order =>
    if b.bits order (seg ^^^ 1) = true then
      buddyFreeLoop n (b.take order (seg ^^^ 1)) (seg >>> 1) (order + 1)
    else some (b.put order seg)

def buddyFree (b : Buddy) (seg order : Nat) : Option Buddy :=
  buddyFreeLoop (b.maxOrder + 1 - order) b (seg >>> order) order

/-! ## Runs

A state keeps, besides the allocator, the `(seg, order)` pairs that were
returned and not yet freed. -/

structure BuddyState where
  buddy : Buddy
  live : List (Nat × Nat)

inductive BuddyCall where
  | alloc (order : Nat)
  | free (seg order : Nat)

namespace BuddyState

def init (b : Buddy) : BuddyState := { buddy := b, live := [] }

def step (st : BuddyState) : BuddyCall → BuddyState
  | .alloc order =>
    let (b, seg) := buddyAlloc st.buddy order
    { buddy := b, live := if seg = U32.allOnes then st.live else (seg, order) :: st.live }
  | .free seg order =>
    match buddyFree st.buddy seg order with
    | some b => { buddy := b, live := st.live.erase (seg, order) }
    | none => st

/-- A free names a pair that is live. -/
def Valid (st : BuddyState) : BuddyCall → Prop
  | .alloc _ => True
  | .free seg order => (seg, order) ∈ st.live

/-- What the allocator keeps in every state. -/
structure Partition (st : BuddyState) : Prop where
  /-- `num_free[o]` is the number of set bits of `bits[o]`. -/
  numFree_eq : ∀ o ≤ st.buddy.maxOrder,
    (∀ s, st.buddy.bits o s = true → s < 2 ^ (st.buddy.maxOrder - o)) ∧
      st.buddy.numFree o = (st.buddy.bits o).weight (2 ^ (st.buddy.maxOrder - o))
  free_disjoint : ∀ o ≤ st.buddy.maxOrder, ∀ o' ≤ st.buddy.maxOrder, ∀ s s',
    st.buddy.bits o s = true → st.buddy.bits o' s' = true → (o, s) ≠ (o', s') →
      Disjoint (Dyadic.block o s) (Dyadic.block o' s')
  free_live_disjoint : ∀ o ≤ st.buddy.maxOrder, ∀ s, st.buddy.bits o s = true →
    ∀ p ∈ st.live, Disjoint (Dyadic.block o s) (Set.Ico p.1 (p.1 + 2 ^ p.2))
  live_disjoint : st.live.Pairwise fun p q =>
    Disjoint (Set.Ico p.1 (p.1 + 2 ^ p.2)) (Set.Ico q.1 (q.1 + 2 ^ q.2))
  /-- The free and the live blocks cover `[0, 2 ^ max_order)` and nothing else. -/
  cover : ∀ x, x < 2 ^ st.buddy.maxOrder ↔
    (∃ o ≤ st.buddy.maxOrder, ∃ s, st.buddy.bits o s = true ∧ x ∈ Dyadic.block o s) ∨
      ∃ p ∈ st.live, x ∈ Set.Ico p.1 (p.1 + 2 ^ p.2)
  no_buddies : ∀ o < st.buddy.maxOrder, ∀ s,
    ¬(st.buddy.bits o s = true ∧ st.buddy.bits o (s ^^^ 1) = true)
  /-- The loop of a free of a live block stops at an order up to `max_order`. -/
  free_stops : ∀ p ∈ st.live, (buddyFree st.buddy p.1 p.2).isSome = true

end BuddyState

/-!
## The invariant with blocks in hand

`held` lists the blocks that are not in the bitmaps: those the callers own and those a loop has
taken out for the moment. Every point is covered exactly once by the bitmaps and `held`.
-/

namespace Buddy

/-- How many free blocks contain `x`. -/
def freeCover (b : Buddy) (x : Nat) : Nat :=
  ∑ o ∈ Finset.range (b.maxOrder + 1), if b.bits o (x / 2 ^ o) = true then 1 else 0

/-- How many blocks in hand contain `x`. -/
def heldCover (held : List (Nat × Nat)) (x : Nat) : Nat :=
  held.countP fun p => x / 2 ^ p.1 = p.2

@[simp] theorem heldCover_nil (x : Nat) : heldCover [] x = 0 := rfl

@[simp] theorem heldCover_cons (p : Nat × Nat) (held : List (Nat × Nat)) (x : Nat) :
    heldCover (p :: held) x = heldCover held x + if x / 2 ^ p.1 = p.2 then 1 else 0 := by
  simp [heldCover, countP_cons]

/-- The block lies inside `[0, 2 ^ max_order)`. -/
def InRange (b : Buddy) (o s : Nat) : Prop := o ≤ b.maxOrder ∧ s < 2 ^ (b.maxOrder - o)

structure Held (b : Buddy) (held : List (Nat × Nat)) : Prop where
  small : b.maxOrder ≤ 30
  bits_range : ∀ o ≤ b.maxOrder, ∀ s, b.bits o s = true → s < 2 ^ (b.maxOrder - o)
  held_range : ∀ p ∈ held, b.InRange p.1 p.2
  numFree_eq : ∀ o ≤ b.maxOrder, b.numFree o = (b.bits o).weight (2 ^ (b.maxOrder - o))
  cover : ∀ x < 2 ^ b.maxOrder, b.freeCover x + heldCover held x = 1
  no_buddies : ∀ o < b.maxOrder, ∀ s, ¬(b.bits o s = true ∧ b.bits o (s ^^^ 1) = true)

theorem freeCover_congr {b b' : Buddy} {x : Nat} (hm : b'.maxOrder = b.maxOrder)
    (h : ∀ o ≤ b.maxOrder, b'.bits o (x / 2 ^ o) = b.bits o (x / 2 ^ o)) :
    b'.freeCover x = b.freeCover x := by
  unfold freeCover
  rw [hm]
  refine Finset.sum_congr rfl fun o ho => ?_
  rw [h o (by simpa [Nat.lt_succ_iff] using ho)]

variable {o s : Nat}

theorem freeCover_put {b : Buddy} (ho : o ≤ b.maxOrder) (hb : b.bits o s = false) (x : Nat) :
    (b.put o s).freeCover x = b.freeCover x + if x / 2 ^ o = s then 1 else 0 := by
  have hmem : o ∈ Finset.range (b.maxOrder + 1) := by simpa [Nat.lt_succ_iff] using ho
  unfold freeCover
  rw [put_maxOrder, ← Finset.add_sum_erase _ _ hmem, ← Finset.add_sum_erase _ _ hmem]
  have hrest : ∑ i ∈ (Finset.range (b.maxOrder + 1)).erase o,
        (if (b.put o s).bits i (x / 2 ^ i) = true then 1 else 0) =
      ∑ i ∈ (Finset.range (b.maxOrder + 1)).erase o,
        if b.bits i (x / 2 ^ i) = true then 1 else 0 := by
    refine Finset.sum_congr rfl fun i hi => ?_
    have hne : i ≠ o := Finset.ne_of_mem_erase hi
    simp [hne]
  rw [hrest]
  by_cases hx : x / 2 ^ o = s
  · simp [hx, hb]; omega
  · simp [hx]

theorem freeCover_take {b : Buddy} (ho : o ≤ b.maxOrder) (hb : b.bits o s = true) (x : Nat) :
    (b.take o s).freeCover x + (if x / 2 ^ o = s then 1 else 0) = b.freeCover x := by
  have hclear : (b.take o s).bits o s = false := by
    rw [Bool.eq_false_iff, Ne, take_bits]; simp
  have hput := freeCover_put (b := b.take o s) (o := o) (s := s) ho hclear x
  rw [← hput]
  refine freeCover_congr rfl fun i _ => ?_
  rw [Bool.eq_iff_iff, put_bits, take_bits]
  constructor
  · rintro (⟨h₁, h₂⟩ | h)
    · subst h₁; rw [h₂]; exact hb
    · exact h.2
  · intro h
    by_cases he : i = o ∧ x / 2 ^ i = s
    · exact .inl he
    · exact .inr ⟨he, h⟩

variable {b : Buddy} {held : List (Nat × Nat)}

theorem freeCover_pos {o s x : Nat} (ho : o ≤ b.maxOrder) (hb : b.bits o s = true)
    (hx : x / 2 ^ o = s) : 0 < b.freeCover x := by
  have := freeCover_take ho hb x
  rw [if_pos hx] at this
  omega

theorem Held.bit_clear (h : Held b held) (hr : b.InRange o s)
    (hpos : 0 < heldCover held (s * 2 ^ o)) : b.bits o s = false := by
  by_contra hne
  have hset : b.bits o s = true := by simpa using hne
  have hc := h.cover _ (Dyadic.start_lt hr.1 hr.2)
  have := freeCover_pos hr.1 hset (Dyadic.start_div o s)
  omega

/-- A block in hand has no bit, and neither has any block inside it. -/
theorem Held.head_clear (h : Held b ((o, s) :: held)) : b.bits o s = false := by
  refine h.bit_clear (h.held_range (o, s) (by simp)) ?_
  rw [heldCover_cons, if_pos (Dyadic.start_div o s)]
  omega

theorem Held.perm {held' : List (Nat × Nat)} (h : Held b held) (hp : held.Perm held') :
    Held b held' where
  small := h.small
  bits_range := h.bits_range
  held_range p hm := h.held_range p (hp.mem_iff.mpr hm)
  numFree_eq := h.numFree_eq
  cover x hx := by
    have := h.cover x hx
    unfold heldCover at this ⊢
    rwa [← hp.countP_eq]
  no_buddies := h.no_buddies

theorem weight_lt_two_pow (h : Held b held) (o : Nat) :
    (b.bits o).weight (2 ^ (b.maxOrder - o)) ≤ 2 ^ 30 :=
  (Bitmap.weight_le _ _).trans
    (Nat.pow_le_pow_right (by decide) ((Nat.sub_le _ _).trans h.small))

/-- Put the block in hand back into the bitmaps; its buddy must not be free. -/
theorem Held.put (h : Held b ((o, s) :: held))
    (hbud : o < b.maxOrder → b.bits o (s ^^^ 1) = false) : Held (b.put o s) held := by
  have hr : b.InRange o s := h.held_range (o, s) (by simp)
  have hclear := h.head_clear
  refine ⟨h.small, ?_, fun p hp => h.held_range p (by simp [hp]), ?_, ?_, ?_⟩
  · intro o' ho' s' hs'
    rcases put_bits.mp hs' with ⟨rfl, rfl⟩ | hs'
    · exact hr.2
    · exact h.bits_range o' ho' s' hs'
  · intro o' ho'
    by_cases he : o' = o
    · subst he
      have hw := weight_lt_two_pow h o'
      have hset := Bitmap.weight_setBit (n := 2 ^ (b.maxOrder - o')) hr.2 hclear
      simp only [Buddy.put, update_self]
      rw [hset, ← h.numFree_eq o' ho', U32.inc_of_lt]
      rw [h.numFree_eq o' ho']
      omega
    · simp only [Buddy.put, update_of_ne he]
      exact h.numFree_eq o' ho'
  · intro x hx
    have hc := h.cover x hx
    rw [heldCover_cons] at hc
    rw [freeCover_put hr.1 hclear]
    simp only at hc
    omega
  · intro o' ho' s' hs'
    simp only [put_bits, put_maxOrder] at hs' ho'
    rcases hs' with ⟨⟨rfl, rfl⟩ | h₁, ⟨ho, h₂⟩ | h₂⟩
    · exact Dyadic.xor_one_ne _ h₂
    · rw [hbud ho'] at h₂; exact absurd h₂ (by decide)
    · subst ho h₂
      rw [Dyadic.xor_one_xor_one] at hbud
      rw [hbud ho'] at h₁
      exact absurd h₁ (by decide)
    · exact h.no_buddies o' ho' s' ⟨h₁, h₂⟩

/-- Take a free block in hand. -/
theorem Held.take (h : Held b held) (ho : o ≤ b.maxOrder) (hb : b.bits o s = true) :
    Held (b.take o s) ((o, s) :: held) := by
  have hs := h.bits_range o ho s hb
  refine ⟨h.small, ?_, ?_, ?_, ?_, ?_⟩
  · intro o' ho' s' hs'
    exact h.bits_range o' ho' s' (take_bits.mp hs').2
  · intro p hp
    rcases mem_cons.mp hp with rfl | hp
    · exact ⟨ho, hs⟩
    · exact h.held_range p hp
  · intro o' ho'
    by_cases he : o' = o
    · subst he
      have hw := weight_lt_two_pow h o'
      have hpos := Bitmap.weight_pos hs hb
      have hclr := Bitmap.weight_clearBit hs hb
      simp only [Buddy.take, update_self]
      rw [h.numFree_eq o' ho', U32.dec_of_pos hpos (by omega)]
      omega
    · simp only [Buddy.take, update_of_ne he]
      exact h.numFree_eq o' ho'
  · intro x hx
    have hc := h.cover x hx
    have := freeCover_take ho hb x
    rw [heldCover_cons]
    simp only
    omega
  · intro o' ho' s' hs'
    exact h.no_buddies o' ho' s' ⟨(take_bits.mp hs'.1).2, (take_bits.mp hs'.2).2⟩

/-- A block and its buddy in hand are the same as their parent in hand. -/
theorem heldCover_join (held : List (Nat × Nat)) (o s x : Nat) :
    heldCover ((o, s) :: (o, s ^^^ 1) :: held) x = heldCover ((o + 1, s / 2) :: held) x := by
  simp only [heldCover_cons]
  have hiff := Dyadic.div_eq_or_xor (x := x) (o := o) (s := s)
  have hne := Dyadic.xor_one_ne s
  split_ifs <;> omega

theorem Held.join (h : Held b ((o, s) :: (o, s ^^^ 1) :: held)) (ho : o < b.maxOrder) :
    Held b ((o + 1, s / 2) :: held) where
  small := h.small
  bits_range := h.bits_range
  held_range := by
    intro p hp
    rcases mem_cons.mp hp with rfl | hp
    · have hs := (h.held_range (o, s) (by simp)).2
      have hpow : 2 ^ (b.maxOrder - o) = 2 * 2 ^ (b.maxOrder - (o + 1)) := by
        rw [← pow_succ']; congr 1; omega
      refine ⟨ho, ?_⟩
      simp only at hs ⊢
      omega
    · exact h.held_range p (by simp [hp])
  numFree_eq := h.numFree_eq
  cover x hx := by rw [← heldCover_join]; exact h.cover x hx
  no_buddies := h.no_buddies

theorem Held.split (h : Held b ((o + 1, s) :: held)) :
    Held b ((o, 2 * s) :: (o, 2 * s + 1) :: held) where
  small := h.small
  bits_range := h.bits_range
  held_range := by
    obtain ⟨ho, hs⟩ := h.held_range (o + 1, s) (by simp)
    have hpow : 2 ^ (b.maxOrder - o) = 2 * 2 ^ (b.maxOrder - (o + 1)) := by
      rw [← pow_succ']; congr 1; simp only at ho; omega
    simp only at ho hs
    intro p hp
    rcases mem_cons.mp hp with rfl | hp
    · exact ⟨by simp only; omega, by simp only; omega⟩
    rcases mem_cons.mp hp with rfl | hp
    · exact ⟨by simp only; omega, by simp only; omega⟩
    · exact h.held_range p (by simp [hp])
  numFree_eq := h.numFree_eq
  cover x hx := by
    have hc := h.cover x hx
    have hj := heldCover_join held o (2 * s) x
    rw [Dyadic.two_mul_xor_one, Nat.mul_div_cancel_left s (by decide)] at hj
    rw [hj]
    exact hc
  no_buddies := h.no_buddies

end Buddy

/-! ## The loops -/

section Loops

open Buddy

variable {b b' : Buddy} {held : List (Nat × Nat)}

theorem buddyAllocSearch_some {n o o' seg : Nat} (h : buddyAllocSearch b n o = some (o', seg)) :
    o ≤ o' ∧ o' < o + n ∧ b.bits o' seg = true ∧ seg < 2 ^ (b.maxOrder - o') := by
  induction n generalizing o with
  | zero => simp [buddyAllocSearch] at h
  | succ n ih =>
    simp only [buddyAllocSearch] at h
    split at h
    · next hc =>
        obtain ⟨rfl, rfl⟩ := h
        exact ⟨Nat.le_refl _, by omega, Bitmap.findFirstBit_spec hc.2, hc.2⟩
    · obtain ⟨h₁, h₂, h₃⟩ := ih h
      exact ⟨by omega, by omega, h₃⟩

/-- Indices and addresses stay far below `2 ^ 32`. -/
theorem Buddy.Held.index_small {o s : Nat} (h : Held b ((o, s) :: held)) :
    o ≤ b.maxOrder ∧ s < 2 ^ (b.maxOrder - o) ∧ s * 2 ^ o < 2 ^ 30 := by
  obtain ⟨ho, hs⟩ := h.held_range (o, s) (by simp)
  exact ⟨ho, hs, (Dyadic.start_lt ho hs).trans_le (Nat.pow_le_pow_right (by decide) h.small)⟩

variable {order seg : Nat}

theorem buddySplit_held (k : Nat) (h : Held b ((order + k, seg) :: held)) :
    Held (buddySplit order k b seg).1 ((order, (buddySplit order k b seg).2) :: held) ∧
      (buddySplit order k b seg).1.maxOrder = b.maxOrder := by
  induction k generalizing b seg with
  | zero => exact ⟨h, rfl⟩
  | succ k ih =>
    have hsmall := h.index_small.2.2
    have hseg : U32.wrap (seg <<< 1) = 2 * seg := by
      have hle : seg ≤ seg * 2 ^ (order + (k + 1)) := Nat.le_mul_of_pos_right _ (Nat.two_pow_pos _)
      rw [Nat.shiftLeft_eq, U32.wrap_of_lt (by omega)]
      omega
    have hsplit : Held b ((order + k, 2 * seg) :: (order + k, 2 * seg + 1) :: held) := h.split
    have hlow := hsplit.head_clear
    have hput := (hsplit.perm (List.Perm.swap _ _ _)).put fun _ => by
      rw [← Dyadic.two_mul_xor_one, Dyadic.xor_one_xor_one]
      exact hlow
    simp only [buddySplit, hseg, Dyadic.two_mul_xor_one]
    exact ih hput

/-- A search that finds a block makes `mlx4_buddy_alloc` hand one out. -/
theorem buddyAlloc_some (h : Held b held) {r : Nat × Nat}
    (hf : buddyAllocSearch b (b.maxOrder + 1 - order) order = some r) :
    ∃ b' s, buddyAlloc b order = (b', s * 2 ^ order) ∧ s * 2 ^ order ≠ U32.allOnes ∧
      b'.maxOrder = b.maxOrder ∧ Held b' ((order, s) :: held) := by
  obtain ⟨o, seg⟩ := r
  obtain ⟨h₁, h₂, hbit, -⟩ := buddyAllocSearch_some hf
  have htake := h.take (o := o) (s := seg) (by omega) hbit
  have ho : order + (o - order) = o := by omega
  obtain ⟨hs, hm⟩ := buddySplit_held (o - order) (by rw [ho]; exact htake)
  have hsmall := hs.index_small.2.2
  unfold buddyAlloc
  rw [hf]
  refine ⟨_, _, ?_, ?_, hm, hs⟩
  · simp only [Nat.shiftLeft_eq, Prod.mk.injEq, true_and]
    rw [U32.wrap_of_lt (by omega)]
  · unfold U32.allOnes; omega

/-- `mlx4_buddy_alloc` fails and changes nothing, or hands out a block. -/
theorem buddyAlloc_held (h : Held b held) (order : Nat) :
    buddyAlloc b order = (b, U32.allOnes) ∨
      ∃ b' s, buddyAlloc b order = (b', s * 2 ^ order) ∧ s * 2 ^ order ≠ U32.allOnes ∧
        b'.maxOrder = b.maxOrder ∧ Held b' ((order, s) :: held) := by
  cases hf : buddyAllocSearch b (b.maxOrder + 1 - order) order with
  | none =>
    left
    unfold buddyAlloc
    rw [hf]
  | some r => exact .inr (buddyAlloc_some h hf)

/-- The coalescing loop stops, and puts the block in hand back. -/
theorem buddyFreeLoop_held {n order s : Nat} (h : Held b ((order, s) :: held))
    (hn : n = b.maxOrder + 1 - order) :
    ∃ b', buddyFreeLoop n b s order = some b' ∧ b'.maxOrder = b.maxOrder ∧ Held b' held := by
  induction n generalizing b order s with
  | zero => have := h.index_small.1; omega
  | succ n ih =>
    simp only [buddyFreeLoop]
    split
    · next hbit =>
        have ho : order ≤ b.maxOrder := h.index_small.1
        -- at `max_order` the buddy of block 0 is bit 1, which is never set
        have hlt : order < b.maxOrder := by
          by_contra hge
          have heq : b.maxOrder - order = 0 := by omega
          have h₁ := h.index_small.2.1
          have h₂ := h.bits_range order ho _ hbit
          rw [heq] at h₁ h₂
          exact Dyadic.xor_one_ne s (by omega)
        have htake := (h.take ho hbit).perm (List.Perm.swap _ _ _)
        have hjoin := htake.join hlt
        obtain ⟨b', hb', hm, hh⟩ := ih hjoin (by rw [Buddy.take_maxOrder]; omega)
        exact ⟨b', hb', hm, hh⟩
    · next hbit => exact ⟨_, rfl, rfl, h.put fun _ => by simpa using hbit⟩

variable {s : Nat}

theorem buddyFree_held (h : Held b ((order, s) :: held)) :
    ∃ b', buddyFree b (s * 2 ^ order) order = some b' ∧ b'.maxOrder = b.maxOrder ∧
      Held b' held := by
  unfold buddyFree
  rw [Nat.shiftRight_eq_div_pow, Dyadic.start_div]
  exact buddyFreeLoop_held h rfl

theorem Buddy.take_put {o s : Nat} (hclear : b.bits o s = false) (hnum : b.numFree o < 2 ^ 32) :
    (b.put o s).take o s = b := by
  have hbit : ((b.bits o).setBit s).clearBit s = b.bits o := by
    funext j
    by_cases hj : j = s
    · subst hj
      rw [Bitmap.clearBit_self, hclear]
    · rw [Bitmap.clearBit_of_ne hj, Bitmap.setBit_of_ne hj]
  unfold Buddy.put Buddy.take
  simp only [update_self, update_idem]
  rw [hbit, U32.dec_inc hnum, update_eq_self, update_eq_self]

/-- Putting back the block that was just taken out. -/
theorem Buddy.put_take {o s : Nat} (hset : b.bits o s = true) (hnum : b.numFree o < 2 ^ 32) :
    (b.take o s).put o s = b := by
  have hbit : ((b.bits o).clearBit s).setBit s = b.bits o := by
    funext j
    by_cases hj : j = s
    · subst hj
      rw [Bitmap.setBit_self, hset]
    · rw [Bitmap.setBit_of_ne hj, Bitmap.clearBit_of_ne hj]
  unfold Buddy.put Buddy.take
  simp only [update_self, update_idem]
  rw [hbit, U32.inc_dec hnum, update_eq_self, update_eq_self]

/-- The coalescing loop takes back the halves that the splitting loop has put in. -/
theorem buddyFreeLoop_split {order n : Nat} (k : Nat) (h : Held b ((order + k, seg) :: held)) :
    buddyFreeLoop (n + k) (buddySplit order k b seg).1 (buddySplit order k b seg).2 order =
      buddyFreeLoop n b seg (order + k) := by
  induction k generalizing b seg n with
  | zero => rfl
  | succ k ih =>
    have hsmall := h.index_small.2.2
    have hseg : U32.wrap (seg <<< 1) = 2 * seg := by
      have hle : seg ≤ seg * 2 ^ (order + (k + 1)) := Nat.le_mul_of_pos_right _ (Nat.two_pow_pos _)
      rw [Nat.shiftLeft_eq, U32.wrap_of_lt (by omega)]
      omega
    have hsplit : Held b ((order + k, 2 * seg) :: (order + k, 2 * seg + 1) :: held) := h.split
    have hlow := hsplit.head_clear
    have hup := hsplit.perm (List.Perm.swap _ _ _)
    have hput := hup.put fun _ => by
      rw [← Dyadic.two_mul_xor_one, Dyadic.xor_one_xor_one]
      exact hlow
    have hnum : b.numFree (order + k) < 2 ^ 32 := by
      have hw := weight_lt_two_pow h (order + k)
      rw [h.numFree_eq (order + k) (Nat.le_of_succ_le h.index_small.1)]
      omega
    simp only [buddySplit, hseg, Dyadic.two_mul_xor_one]
    rw [show n + (k + 1) = (n + 1) + k by omega, ih hput]
    -- the buddy is the half just put in
    simp only [buddyFreeLoop, Dyadic.two_mul_xor_one]
    rw [if_pos (put_bits.mpr (.inl ⟨rfl, rfl⟩)), take_put hup.head_clear hnum]
    have hparent : (2 * seg) >>> 1 = seg := by
      omega
    rw [hparent]
    rfl

/-- A block that is handed out and freed at once leaves the allocator as it was. -/
theorem buddyFree_buddyAlloc (h : Held b held) (hseg : (buddyAlloc b order).2 ≠ U32.allOnes) :
    buddyFree (buddyAlloc b order).1 (buddyAlloc b order).2 order = some b := by
  unfold buddyAlloc at hseg ⊢
  cases hf : buddyAllocSearch b (b.maxOrder + 1 - order) order with
  | none =>
    rw [hf] at hseg
    exact absurd rfl hseg
  | some r =>
    obtain ⟨o, seg⟩ := r
    obtain ⟨h₁, h₂, hbit, hlt⟩ := buddyAllocSearch_some hf
    have hmax : o ≤ b.maxOrder := by omega
    have htake := h.take hmax hbit
    have ho : order + (o - order) = o := by omega
    have htake' : Held (b.take o seg) ((order + (o - order), seg) :: held) := by
      rw [ho]; exact htake
    obtain ⟨hs, hm⟩ := buddySplit_held (o - order) htake'
    have hsmall := hs.index_small.2.2
    dsimp only
    unfold buddyFree
    rw [Nat.shiftLeft_eq, U32.wrap_of_lt (by omega), Nat.shiftRight_eq_div_pow,
      Dyadic.start_div, hm,
      take_maxOrder, show b.maxOrder + 1 - order = (b.maxOrder - o + 1) + (o - order) by omega,
      buddyFreeLoop_split (o - order) htake', ho]
    -- the buddy of the whole block was not free
    have hbuddy : ¬ (b.take o seg).bits o (seg ^^^ 1) = true := by
      intro hb
      have hb' := (take_bits.mp hb).2
      rcases Nat.lt_or_ge o b.maxOrder with hlt' | hge
      · exact h.no_buddies o hlt' seg ⟨hbit, hb'⟩
      · have heq : b.maxOrder - o = 0 := by omega
        have hr := h.bits_range o hmax _ hb'
        rw [heq] at hlt hr
        exact Dyadic.xor_one_ne seg (by omega)
    have hnum : b.numFree o < 2 ^ 32 := by
      have hw := weight_lt_two_pow h o
      rw [h.numFree_eq o hmax]
      omega
    simp only [buddyFreeLoop]
    rw [if_neg hbuddy, put_take hbit hnum]

theorem buddyInit_held {kvmalloc : Nat → Bool} {maxOrder : Nat}
    (h : buddyInit kvmalloc maxOrder = some b) : b.maxOrder = maxOrder ∧ Held b [] := by
  unfold buddyInit at h
  split at h
  · next hc =>
      simp only [Option.some.injEq] at h
      subst h
      have hbits : ∀ o s, (update (fun _ => Bitmap.zero) maxOrder (Bitmap.zero.setBit 0) :
          Nat → Bitmap) o s = true ↔ o = maxOrder ∧ s = 0 := by
        intro o s
        by_cases ho : o = maxOrder
        · subst ho; simp
        · simp [ho]
      refine ⟨rfl, hc.1, ?_, by simp, ?_, ?_, ?_⟩
      · intro o ho s hs
        obtain ⟨rfl, rfl⟩ := (hbits o s).mp hs
        simp
      · intro o ho
        by_cases he : o = maxOrder
        · subst he
          simp only [update_self, Nat.sub_self, Nat.pow_zero]
          rw [Bitmap.weight_setBit (by decide) rfl, Bitmap.weight_zero]
        · simp [he]
      · intro x hx
        rw [heldCover_nil, Nat.add_zero, freeCover, Finset.sum_eq_single maxOrder]
        · rw [if_pos ((hbits _ _).mpr ⟨rfl, Nat.div_eq_of_lt hx⟩)]
        · intro o _ ho
          rw [if_neg fun hs => ho ((hbits _ _).mp hs).1]
        · simp
      · intro o ho s hs
        have := ((hbits _ _).mp hs.1).1
        simp only at ho
        omega
  · simp at h

end Loops

/-! ## Every run -/

namespace BuddyState

/-- The blocks of the live pairs. -/
def blocks (st : BuddyState) : List (Nat × Nat) := st.live.map fun p => (p.2, p.1 / 2 ^ p.2)

structure Inv (st : BuddyState) : Prop where
  held : st.buddy.Held st.blocks
  aligned : ∀ p ∈ st.live, p.1 / 2 ^ p.2 * 2 ^ p.2 = p.1

variable {st : BuddyState}

theorem Inv.step (h : st.Inv) (c : BuddyCall) (hv : st.Valid c) :
    (st.step c).Inv ∧ (st.step c).buddy.maxOrder = st.buddy.maxOrder := by
  cases c with
  | alloc order =>
    rcases buddyAlloc_held h.held order with hf | ⟨b', s, hb, hne, hm, hh⟩
    · have : st.step (.alloc order) = st := by simp [BuddyState.step, hf]
      rw [this]
      exact ⟨h, rfl⟩
    · simp only [BuddyState.step, hb, if_neg hne]
      refine ⟨⟨?_, ?_⟩, hm⟩
      · simpa [blocks] using hh
      · intro p hp
        rcases mem_cons.mp hp with rfl | hp
        · simp
        · exact h.aligned p hp
  | free seg order =>
    have hmem : (seg, order) ∈ st.live := hv
    have hal := h.aligned _ hmem
    have hperm := (perm_cons_erase hmem).map fun p : Nat × Nat => (p.2, p.1 / 2 ^ p.2)
    obtain ⟨b', hb, hm, hh⟩ := buddyFree_held (h.held.perm hperm)
    rw [hal] at hb
    simp only [BuddyState.step, hb]
    exact ⟨⟨hh, fun p hp => h.aligned p (mem_of_mem_erase hp)⟩, hm⟩

/-- The interval of a live pair is its block. -/
theorem Inv.interval (h : st.Inv) {p : Nat × Nat} (hp : p ∈ st.live) :
    Set.Ico p.1 (p.1 + 2 ^ p.2) = Dyadic.block p.2 (p.1 / 2 ^ p.2) := by
  rw [Dyadic.block, Nat.succ_mul, h.aligned p hp]

theorem Inv.partition (h : st.Inv) : st.Partition := by
  have hh := h.held
  have hfree : ∀ o ≤ st.buddy.maxOrder, ∀ s x, st.buddy.bits o s = true → x ∈ Dyadic.block o s →
      x < 2 ^ st.buddy.maxOrder :=
    fun o ho s x hb hx => Dyadic.lt_of_mem_block ho (hh.bits_range o ho s hb) hx
  have hlive : ∀ p ∈ st.live, ∀ x ∈ Dyadic.block p.2 (p.1 / 2 ^ p.2),
    x < 2 ^ st.buddy.maxOrder := by
    intro p hp x hx
    have hr := hh.held_range (p.2, p.1 / 2 ^ p.2) (mem_map_of_mem hp)
    exact Dyadic.lt_of_mem_block hr.1 hr.2 hx
  -- disjointness: a point that two blocks share would be covered twice
  refine ⟨fun o ho => ⟨hh.bits_range o ho, hh.numFree_eq o ho⟩, ?_, ?_, ?_, ?_, hh.no_buddies, ?_⟩
  · intro o ho o' ho' s s' hb hb' hne
    rw [Set.disjoint_left]
    intro x hx hx'
    have hlt := hfree o ho s x hb hx
    rw [Dyadic.mem_block] at hx hx'
    have h₁ := Buddy.freeCover_take ho hb x
    have h₂ : 0 < (st.buddy.take o s).freeCover x := by
      refine Buddy.freeCover_pos (o := o') ho' (Buddy.take_bits.mpr ⟨?_, hb'⟩) hx'
      rintro ⟨rfl, rfl⟩
      exact hne rfl
    have hc := hh.cover x hlt
    rw [if_pos hx] at h₁
    omega
  · intro o ho s hb p hp
    rw [h.interval hp, Set.disjoint_left]
    intro x hx hx'
    have hlt := hfree o ho s x hb hx
    rw [Dyadic.mem_block] at hx hx'
    have h₁ := Buddy.freeCover_pos ho hb hx
    have h₂ : 0 < Buddy.heldCover st.blocks x := by
      rw [Buddy.heldCover, countP_pos_iff]
      exact ⟨_, mem_map_of_mem hp, by simpa using hx'⟩
    have hc := hh.cover x hlt
    omega
  · rw [pairwise_iff_forall_sublist]
    intro p q hsub
    have hp : p ∈ st.live := hsub.mem (by simp)
    have hq : q ∈ st.live := hsub.mem (by simp)
    rw [h.interval hp, h.interval hq, Set.disjoint_left]
    intro x hx hx'
    have hc := hh.cover x (hlive p hp x hx)
    rw [Dyadic.mem_block] at hx hx'
    have h₂ : 2 ≤ Buddy.heldCover st.blocks x := by
      have := (hsub.map fun p : Nat × Nat => (p.2, p.1 / 2 ^ p.2)).countP_le
        (p := fun p => decide (x / 2 ^ p.1 = p.2))
      refine le_trans ?_ this
      simp [hx, hx']
    omega
  · intro x
    constructor
    · intro hx
      have hc := hh.cover x hx
      by_cases hpos : 0 < Buddy.heldCover st.blocks x
      · rw [Buddy.heldCover, countP_pos_iff] at hpos
        obtain ⟨q, hq, hxq⟩ := hpos
        obtain ⟨p, hp, rfl⟩ := mem_map.mp hq
        refine .inr ⟨p, hp, ?_⟩
        rw [h.interval hp, Dyadic.mem_block]
        simpa using hxq
      · have hne : st.buddy.freeCover x ≠ 0 := by omega
        obtain ⟨o, ho, hob⟩ := Finset.exists_ne_zero_of_sum_ne_zero hne
        refine .inl ⟨o, by simpa [Nat.lt_succ_iff] using ho, x / 2 ^ o, ?_, ?_⟩
        · by_contra hb
          rw [if_neg hb] at hob
          exact hob rfl
        · rw [Dyadic.mem_block]
    · rintro (⟨o, ho, s, hb, hx⟩ | ⟨p, hp, hx⟩)
      · exact hfree o ho s x hb hx
      · rw [h.interval hp] at hx
        exact hlive p hp x hx
  · intro p hp
    have hperm := (perm_cons_erase hp).map fun p : Nat × Nat => (p.2, p.1 / 2 ^ p.2)
    obtain ⟨b', hb, -, -⟩ := buddyFree_held (hh.perm hperm)
    simp only [h.aligned p hp] at hb
    simp [hb]

theorem inv_every_run {kvmalloc : Nat → Bool} {maxOrder : Nat} {b : Buddy}
    (hinit : buddyInit kvmalloc maxOrder = some b) {calls : List BuddyCall}
    (hv : Run.Steps step Valid (init b) calls) :
    ∀ st ∈ Run.states step (init b) calls, st.Inv ∧ st.buddy.maxOrder = maxOrder := by
  obtain ⟨hm, hheld⟩ := buddyInit_held hinit
  have hstep : ∀ s c, s.Inv ∧ s.buddy.maxOrder = maxOrder → Valid s c →
      (s.step c).Inv ∧ (s.step c).buddy.maxOrder = maxOrder := by
    intro s c hs hc
    obtain ⟨h₁, h₂⟩ := hs.1.step c hc
    exact ⟨h₁, h₂.trans hs.2⟩
  exact hv.invariant hstep ⟨⟨hheld, by simp [init]⟩, hm⟩

/-- In every state of every run of allocations and frees of live blocks, the
counters, the partition, the absence of free buddies and the end of the
coalescing loop hold. -/
theorem partition_every_run {kvmalloc : Nat → Bool} {maxOrder : Nat} {b : Buddy}
    (hinit : buddyInit kvmalloc maxOrder = some b) {calls : List BuddyCall}
    (hv : Run.Steps step Valid (init b) calls) :
    ∀ st ∈ Run.states step (init b) calls, st.buddy.maxOrder = maxOrder ∧ st.Partition := by
  intro st hst
  obtain ⟨hinv, hm⟩ := inv_every_run hinit hv st hst
  exact ⟨hm, hinv.partition⟩

/-- A run of order 2: three allocations split the block, two frees join it again. -/
theorem partition_every_run_splits_and_joins :
    ∃ b, buddyInit (fun _ => true) 2 = some b ∧
      ∀ st ∈ Run.states step (init b) [.alloc 0, .alloc 1, .alloc 0, .free 0 0, .free 1 0],
        st.buddy.maxOrder = 2 ∧ st.Partition := by
  refine ⟨_, rfl, partition_every_run (show buddyInit (fun _ => true) 2 = _ from rfl) ?_⟩
  simp only [Run.steps_cons, Run.steps_nil, Valid, true_and, and_true]
  decide +kernel

end BuddyState

end Mlx4
