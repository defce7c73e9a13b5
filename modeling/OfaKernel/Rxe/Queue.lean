-- SUMMARY: The rxe queue shared with user space.
import OfaKernel.Lib.MaskedCounter
import Mathlib.Data.Nat.Log

/-!
# Shared queues

A process can write any value into the header `struct rxe_queue_buf` at any time, so the header
is a history: `h n` is what it holds at the `n`-th moment. Addresses are offsets from `buf->data`
in `unsigned int`; a shift count is taken modulo 32.
-/

namespace Rxe

/-! ## Queues -/

/-- `struct rxe_queue_buf` without its elements. -/
structure RxeQueueBuf where
  log2ElemSize : UInt32
  indexMask : UInt32
  producerIndex : UInt32
  consumerIndex : UInt32
  deriving Repr, DecidableEq

structure RxeQueue where
  bufSize : Nat
  elemSize : Nat
  log2ElemSize : UInt32
  indexMask : UInt32
  deriving Repr, DecidableEq

def roundupPowOfTwo (n : Nat) : Nat := 2 ^ Nat.clog 2 n

def orderBase2 (n : Nat) : Nat := Nat.clog 2 n

def sizeofQueueBuf : Nat := 384

/-- `rxe_queue_init`: the queue and the number of elements written back.
`vmallocUser` tells whether the allocations succeed. -/
def rxeQueueInit (cacheLineSize : Nat) (numElem : Int) (elemSize : Nat) (vmallocUser : Bool) :
    Option (RxeQueue × Nat) :=
  if numElem < 0 then none
  else
    let slotSize := roundupPowOfTwo (if elemSize < cacheLineSize then cacheLineSize else elemSize)
    let numSlots := roundupPowOfTwo (numElem.toNat + 1)
    if vmallocUser then
      some ({ bufSize := sizeofQueueBuf + numSlots * slotSize % 2 ^ 32
              elemSize := elemSize
              log2ElemSize := .ofNat (orderBase2 slotSize)
              indexMask := .ofNat (numSlots - 1) }, numSlots - 1)
    else none

def nextIndex (b : RxeQueueBuf) (index : UInt32) : UInt32 := (index + 1) &&& b.indexMask

def producerAddr (q : RxeQueue) (b : RxeQueueBuf) : UInt32 :=
  (b.producerIndex &&& q.indexMask) <<< q.log2ElemSize

def consumerAddr (q : RxeQueue) (b : RxeQueueBuf) : UInt32 :=
  (b.consumerIndex &&& q.indexMask) <<< q.log2ElemSize

/-- `addr_from_index`, which takes the element size from the shared header. -/
def addrFromIndex (q : RxeQueue) (b : RxeQueueBuf) (index : UInt32) : UInt32 :=
  (index &&& q.indexMask) <<< b.log2ElemSize

inductive WqeState where
  | posted
  | processing
  | pending
  | done
  | error
  deriving Repr, DecidableEq

/-- The loop of `req_retry` over the send queue: the elements it visits, and the states it leaves
in them. `elems` gives the state of the element at an address, `t` counts the iterations. -/
def reqRetryWalk (q : RxeQueue) (h : Nat → RxeQueueBuf) :
    Nat → Nat → UInt32 → (UInt32 → WqeState) → Option (List UInt32 × (UInt32 → WqeState))
  | 0, _, _, _ => none
  | fuel + 1, t, index, elems =>
    if index = (h t).producerIndex then some ([], elems)
    else
      let addr := addrFromIndex q (h t) index
      let next := nextIndex (h t) index
      match elems addr with
      | .posted => some ([addr], elems)
      | .done => (reqRetryWalk q h fuel (t + 1) next elems).map fun r => (addr :: r.1, r.2)
      | .processing | .pending | .error =>
        (reqRetryWalk q h fuel (t + 1) next (Function.update elems addr .posted)).map
          fun r => (addr :: r.1, r.2)

def RxeQueue.numSlots (q : RxeQueue) : Nat := q.indexMask.toNat + 1

/-- The address is that of one of the elements of the data area. -/
def RxeQueue.InData (q : RxeQueue) (addr : UInt32) : Prop :=
  ∃ i < q.numSlots, addr.toNat = i * 2 ^ q.log2ElemSize.toNat

/-- What the queue must keep whatever the process writes into the header. -/
structure Confined (q : RxeQueue) (h : Nat → RxeQueueBuf) : Prop where
  producer : ∀ n, q.InData (producerAddr q (h n))
  consumer : ∀ n, q.InData (consumerAddr q (h n))
  index : ∀ n i, q.InData (addrFromIndex q (h n) i)
  walk : ∀ elems, ∃ fuel vs elems',
    reqRetryWalk q h fuel 0 (h 0).consumerIndex elems = some (vs, elems') ∧
      vs.length ≤ q.numSlots

/-- The powers of two behind a queue: `a` for the slots and `b` for the size of
a slot. The whole data area is below `2 ^ 32` bytes. -/
structure RxeQueue.Sized (q : RxeQueue) (a b : Nat) : Prop where
  mask : q.indexMask.toNat = 2 ^ a - 1
  log2 : q.log2ElemSize.toNat = b
  lt : a + b < 32
  bufSize : q.bufSize = sizeofQueueBuf + 2 ^ a * 2 ^ b

/-- The limits that the callers put on their queues (`RXE_MAX_LOG_CQE`,
`RXE_MAX_QP_WR`, `RXE_MAX_SGE`, `RXE_MAX_INLINE_DATA`) keep the sizes far from
overflow. -/
structure QueueLimits (cacheLineSize : Nat) (numElem : Int) (elemSize : Nat) : Prop where
  cacheLineSize_le : cacheLineSize ≤ 2 ^ 12
  numElem_le : numElem ≤ 2 ^ 15
  elemSize_le : elemSize ≤ 2 ^ 12

theorem rxeQueueInit_sized {cacheLineSize elemSize n : Nat} {numElem : Int} {vmallocUser : Bool}
    {q : RxeQueue} (hl : QueueLimits cacheLineSize numElem elemSize)
    (h : rxeQueueInit cacheLineSize numElem elemSize vmallocUser = some (q, n)) :
    ∃ a b, q.Sized a b := by
  unfold rxeQueueInit at h
  by_cases hneg : numElem < 0
  · rw [if_pos hneg] at h
    cases h
  rw [if_neg hneg] at h
  cases vmallocUser with
  | false => cases h
  | true =>
    obtain ⟨rfl, -⟩ := h
    set size := if elemSize < cacheLineSize then cacheLineSize else elemSize
    have hsize : size ≤ 2 ^ 12 := by
      have h1 := hl.cacheLineSize_le
      have h2 := hl.elemSize_le
      simp only [size]
      split <;> assumption
    have hb : Nat.clog 2 size ≤ 12 := Nat.clog_le_of_le_pow hsize
    have ha : Nat.clog 2 (numElem.toNat + 1) ≤ 16 := by
      apply Nat.clog_le_of_le_pow
      have := hl.numElem_le
      omega
    have hpow : 2 ^ Nat.clog 2 (numElem.toNat + 1) ≤ 2 ^ 16 := Nat.pow_le_pow_right (by omega) ha
    have hpow' : 2 ^ Nat.clog 2 size ≤ 2 ^ 12 := Nat.pow_le_pow_right (by omega) hb
    have hlog : orderBase2 (roundupPowOfTwo size) = Nat.clog 2 size :=
      Nat.clog_pow 2 _ (by omega)
    refine ⟨Nat.clog 2 (numElem.toNat + 1), Nat.clog 2 size, ?_, ?_, by omega, ?_⟩
    · simp only [roundupPowOfTwo]
      exact UInt32.toNat_ofNat_of_lt (by simp only [UInt32.size]; omega)
    · simp only [hlog]
      exact UInt32.toNat_ofNat_of_lt (by simp only [UInt32.size]; omega)
    · simp only [roundupPowOfTwo]
      rw [Nat.mod_eq_of_lt]
      exact (Nat.mul_le_mul hpow hpow').trans_lt (by decide)

/-! ## Addresses -/

section

variable {q : RxeQueue} {a b : Nat}

theorem RxeQueue.Sized.numSlots (hs : q.Sized a b) : q.numSlots = 2 ^ a := by
  have := Nat.two_pow_pos a
  rw [RxeQueue.numSlots, hs.mask]
  omega

/-- The offset of the slot an index is masked to, for a shift count `s`. -/
theorem toNat_shift (hs : q.Sized a b) (i s : UInt32) :
    ((i &&& q.indexMask) <<< s).toNat = i.toNat % 2 ^ a * 2 ^ (s.toNat % 32) % 2 ^ 32 := by
  rw [UInt32.toNat_shiftLeft, UInt32.toNat_and, hs.mask, Nat.and_two_pow_sub_one_eq_mod,
    Nat.shiftLeft_eq]

/-- A shift by the kernel's own element size stays in the data area. -/
theorem RxeQueue.Sized.inData (hs : q.Sized a b) (i : UInt32) {s : UInt32}
    (h : s.toNat % 32 = b) : q.InData ((i &&& q.indexMask) <<< s) := by
  have hi : i.toNat % 2 ^ a < 2 ^ a := Nat.mod_lt _ (Nat.two_pow_pos a)
  refine ⟨i.toNat % 2 ^ a, hs.numSlots ▸ hi, ?_⟩
  rw [toNat_shift hs, h, hs.log2]
  apply Nat.mod_eq_of_lt
  calc i.toNat % 2 ^ a * 2 ^ b < 2 ^ a * 2 ^ b := Nat.mul_lt_mul_of_pos_right hi (Nat.two_pow_pos b)
    _ = 2 ^ (a + b) := (Nat.pow_add 2 a b).symm
    _ ≤ 2 ^ 32 := Nat.pow_le_pow_right (by omega) hs.lt.le

theorem RxeQueue.Sized.log2_mod (hs : q.Sized a b) : q.log2ElemSize.toNat % 32 = b := by
  have := hs.lt
  rw [hs.log2]
  omega

/-- A power of two that is the address of a slot. -/
theorem RxeQueue.Sized.pow_inData (hs : q.Sized a b) {addr : UInt32} {k : Nat}
    (hk : addr.toNat = 2 ^ k) (h : q.InData addr) : b ≤ k ∧ k < a + b := by
  obtain ⟨i, hi, hval⟩ := h
  rw [hk, hs.log2] at hval
  constructor
  · exact (Nat.pow_dvd_pow_iff_le_right (x := 2) (by omega)).mp ⟨i, by rw [hval, Nat.mul_comm]⟩
  · apply (Nat.pow_lt_pow_iff_right (a := 2) (by omega)).mp
    rw [hval, Nat.pow_add]
    exact Nat.mul_lt_mul_of_pos_right (hs.numSlots ▸ hi) (Nat.two_pow_pos b)

/-- The address of an index that is a power of two below the number of slots. -/
theorem toNat_addrFromIndex_pow (hs : q.Sized a b) (hd : RxeQueueBuf) {k : Nat} (hk : k < a)
    (hlt : k + hd.log2ElemSize.toNat % 32 < 32) :
    (addrFromIndex q hd (.ofNat (2 ^ k))).toNat = 2 ^ (k + hd.log2ElemSize.toNat % 32) := by
  have hk32 : 2 ^ k < 2 ^ 32 := Nat.pow_lt_pow_right (by omega) (by have := hs.lt; omega)
  have hka : 2 ^ k < 2 ^ a := Nat.pow_lt_pow_right (by omega) hk
  rw [addrFromIndex, toNat_shift hs, UInt32.toNat_ofNat_of_lt' hk32, Nat.mod_eq_of_lt hka,
    ← Nat.pow_add]
  exact Nat.mod_eq_of_lt (Nat.pow_lt_pow_right (by omega) hlt)

/-- `addr_from_index` is right for every index exactly when the element size in
the header shifts as the kernel's does, or there is only one slot. -/
theorem addrFromIndex_inData_iff (hs : q.Sized a b) (hd : RxeQueueBuf) :
    (∀ i, q.InData (addrFromIndex q hd i)) ↔
      q.indexMask = 0 ∨ hd.log2ElemSize.toNat % 32 = q.log2ElemSize.toNat := by
  have hlt := hs.lt
  constructor
  · intro h
    cases a with
    | zero => exact .inl (UInt32.toNat_inj.mp (by simpa using hs.mask))
    | succ a =>
      -- index 1 bounds the shift; the index that the shift takes to the end refutes a larger one
      have h1 := hs.pow_inData (toNat_addrFromIndex_pow hs hd (Nat.succ_pos a) (by omega)) (h _)
      rw [hs.log2]
      by_contra hne
      have hend := hs.pow_inData
        (toNat_addrFromIndex_pow hs hd (k := a + 1 + b - hd.log2ElemSize.toNat % 32)
          (by omega) (by omega)) (h _)
      omega
  · rintro (h | h) i
    · refine ⟨0, Nat.succ_pos _, ?_⟩
      simp [addrFromIndex, h]
    · exact hs.inData i (h.trans hs.log2)

end

/-- The index the loop has reached after `t` iterations. -/
def indexAt (h : Nat → RxeQueueBuf) : Nat → UInt32
  | 0 => (h 0).consumerIndex
  | t + 1 => nextIndex (h t) (indexAt h t)

section

variable {q : RxeQueue} {h : Nat → RxeQueueBuf}

/-- The loop is over when it meets the producer index. -/
theorem reqRetryWalk_of_meets {k t : Nat}
    (hm : indexAt h (t + k) = (h (t + k)).producerIndex) (elems : UInt32 → WqeState) :
    ∃ vs elems', reqRetryWalk q h (k + 1) t (indexAt h t) elems = some (vs, elems') ∧
      vs.length ≤ k := by
  induction k generalizing t elems with
  | zero =>
    have hm : indexAt h t = (h t).producerIndex := hm
    exact ⟨[], elems, by rw [reqRetryWalk, if_pos hm], le_rfl⟩
  | succ k ih =>
    rw [reqRetryWalk]
    split
    next => exact ⟨[], elems, rfl, Nat.zero_le _⟩
    next =>
      have hm' : indexAt h (t + 1 + k) = (h (t + 1 + k)).producerIndex := by
        rw [Nat.add_right_comm]
        exact hm
      have hrest : ∀ addr e, ∃ vs elems',
          ((reqRetryWalk q h (k + 1) (t + 1) (nextIndex (h t) (indexAt h t)) e).map
            fun r => (addr :: r.1, r.2)) = some (vs, elems') ∧ vs.length ≤ k + 1 := by
        intro addr e
        obtain ⟨vs, elems', hw, hlen⟩ := ih hm' e
        refine ⟨addr :: vs, elems', ?_, Nat.succ_le_succ hlen⟩
        rw [← indexAt, hw]
        rfl
      dsimp only
      split
      next => exact ⟨[_], elems, rfl, by simp⟩
      all_goals exact hrest _ _

/-- Where all elements are done the loop has no other end. -/
theorem meets_of_reqRetryWalk {fuel t : Nat} {vs : List UInt32} {elems' : UInt32 → WqeState}
    (hw : reqRetryWalk q h fuel t (indexAt h t) (fun _ => .done) = some (vs, elems')) :
    indexAt h (t + vs.length) = (h (t + vs.length)).producerIndex := by
  induction fuel generalizing t vs with
  | zero => cases hw
  | succ fuel ih =>
    rw [reqRetryWalk] at hw
    split at hw
    next hm =>
      cases hw
      exact hm
    next =>
      obtain ⟨⟨vs', e⟩, hw', heq⟩ := Option.map_eq_some_iff.mp hw
      cases heq
      have := ih hw'
      rw [List.length_cons, Nat.add_comm vs'.length 1, ← Nat.add_assoc]
      exact this

theorem walk_bounded_iff {n : Nat} :
    (∀ elems, ∃ fuel vs elems',
      reqRetryWalk q h fuel 0 (h 0).consumerIndex elems = some (vs, elems') ∧ vs.length ≤ n) ↔
      ∃ j ≤ n, indexAt h j = (h j).producerIndex := by
  constructor
  · intro hw
    obtain ⟨fuel, vs, elems', hw, hlen⟩ := hw fun _ => .done
    have := meets_of_reqRetryWalk (t := 0) hw
    rw [Nat.zero_add] at this
    exact ⟨vs.length, hlen, this⟩
  · rintro ⟨j, hj, hm⟩ elems
    have hm' : indexAt h (0 + j) = (h (0 + j)).producerIndex := by rwa [Nat.zero_add]
    obtain ⟨vs, elems', hw, hlen⟩ := reqRetryWalk_of_meets (q := q) hm' elems
    exact ⟨j + 1, vs, elems', hw, hlen.trans hj⟩

end

theorem toNat_nextIndex (b : RxeQueueBuf) (i : UInt32) :
    (nextIndex b i).toNat = MaskedCounter.next 32 b.indexMask.toNat i.toNat := by
  rfl

theorem toNat_indexAt_const (b : RxeQueueBuf) (j : Nat) :
    (indexAt (fun _ => b) (j + 1)).toNat =
      (MaskedCounter.next 32 b.indexMask.toNat)^[j] (nextIndex b b.consumerIndex).toNat := by
  induction j with
  | zero => rfl
  | succ j ih => rw [Function.iterate_succ_apply', ← ih, ← toNat_nextIndex, indexAt]

/-- The producer index is the consumer index, or differs from the one after it only in the run of
ones at the low end of the shared mask, by less than `n`. -/
def RxeQueueBuf.Meets (b : RxeQueueBuf) (n : Nat) : Prop :=
  b.consumerIndex = b.producerIndex ∨
    let run := MaskedCounter.period 32 b.indexMask.toNat
    let p := b.producerIndex.toNat
    let first := (nextIndex b b.consumerIndex).toNat
    p / run = first / run ∧ (p % run + run - first % run) % run < n

theorem exists_indexAt_const_iff (b : RxeQueueBuf) (n : Nat) :
    (∃ j ≤ n, indexAt (fun _ => b) j = b.producerIndex) ↔ b.Meets n := by
  have hmask : b.indexMask.toNat < 2 ^ 32 := b.indexMask.toNat_lt
  have hin : (nextIndex b b.consumerIndex).toNat &&& b.indexMask.toNat =
      (nextIndex b b.consumerIndex).toNat := by
    rw [toNat_nextIndex, MaskedCounter.next_and]
  rw [RxeQueueBuf.Meets, ← MaskedCounter.exists_iterate_eq_iff hmask hin]
  constructor
  · rintro ⟨j, hj, hm⟩
    cases j with
    | zero => exact .inl hm
    | succ j => exact .inr ⟨j, hj, by rw [← toNat_indexAt_const, hm]⟩
  · rintro (hm | ⟨j, hj, hm⟩)
    · exact ⟨0, Nat.zero_le _, hm⟩
    · exact ⟨j + 1, hj, UInt32.toNat_inj.mp (by rw [toNat_indexAt_const, hm])⟩

/-- Under the kernel's own mask the producer index has to be a slot number. -/
theorem meets_iff_of_mask {q : RxeQueue} {x y : Nat} (hs : q.Sized x y) {b : RxeQueueBuf}
    (hm : b.indexMask = q.indexMask) :
    b.Meets q.numSlots ↔
      b.consumerIndex = b.producerIndex ∨ b.producerIndex.toNat < q.numSlots := by
  have hpos := Nat.two_pow_pos x
  have hrun : MaskedCounter.period 32 b.indexMask.toNat = 2 ^ x := by
    have hx : 2 ^ x - 1 + 1 = 2 ^ x := by omega
    rw [MaskedCounter.period, hm, hs.mask, hx]
    exact Nat.gcd_eq_left (Nat.pow_dvd_pow 2 (by have := hs.lt; omega))
  have hfirst : (nextIndex b b.consumerIndex).toNat < 2 ^ x := by
    rw [nextIndex, UInt32.toNat_and, hm, hs.mask, Nat.and_two_pow_sub_one_eq_mod]
    exact Nat.mod_lt _ hpos
  simp [RxeQueueBuf.Meets, hrun, hs.numSlots, Nat.mod_lt _ hpos, Nat.div_eq_of_lt hfirst]

/-- The producer and the consumer address are always right. The rest is right exactly if the
shared element size shifts as the kernel's does (or there is only one slot), and the walk meets
the producer index in time; for a header that does not change that is `RxeQueueBuf.Meets`. -/
theorem confined_iff {cacheLineSize elemSize n : Nat} {numElem : Int} {vmallocUser : Bool}
    {q : RxeQueue} (hl : QueueLimits cacheLineSize numElem elemSize)
    (hq : rxeQueueInit cacheLineSize numElem elemSize vmallocUser = some (q, n))
    (h : Nat → RxeQueueBuf) :
    (Confined q h ↔
      (∀ t, q.indexMask = 0 ∨ (h t).log2ElemSize.toNat % 32 = q.log2ElemSize.toNat) ∧
        ∃ j ≤ q.numSlots, indexAt h j = (h j).producerIndex) ∧
    ∀ b, (∀ t, h t = b) →
      ((∃ j ≤ q.numSlots, indexAt h j = (h j).producerIndex) ↔ b.Meets q.numSlots) := by
  obtain ⟨x, y, hs⟩ := rxeQueueInit_sized hl hq
  constructor
  · constructor
    · intro hc
      exact ⟨fun t => (addrFromIndex_inData_iff hs (h t)).mp (hc.index t),
        walk_bounded_iff.mp hc.walk⟩
    · rintro ⟨hlog, hmeet⟩
      exact
        { producer := fun t => hs.inData _ hs.log2_mod
          consumer := fun t => hs.inData _ hs.log2_mod
          index := fun t => (addrFromIndex_inData_iff hs (h t)).mpr (hlog t)
          walk := walk_bounded_iff.mpr hmeet }
  · intro b hb
    obtain rfl : h = fun _ => b := funext hb
    exact exists_indexAt_const_iff b q.numSlots

/-- Four slots of 128 bytes. -/
def smallQueue : RxeQueue where
  bufSize := 896
  elemSize := 100
  log2ElemSize := 7
  indexMask := 3

theorem rxeQueueInit_smallQueue : rxeQueueInit 64 3 100 true = some (smallQueue, 3) := by
  decide

theorem smallQueue_limits : QueueLimits 64 3 100 := ⟨by decide, by decide, by decide⟩

theorem confined_smallQueue :
    QueueLimits 64 3 100 ∧ rxeQueueInit 64 3 100 true = some (smallQueue, 3) ∧
      Confined smallQueue fun _ => ⟨7, 3, 2, 1⟩ :=
  ⟨smallQueue_limits, rxeQueueInit_smallQueue,
    (confined_iff smallQueue_limits rxeQueueInit_smallQueue _).1.mpr
      ⟨fun _ => .inr (by decide), 1, by decide, by decide⟩⟩

/-- A header with a larger element size, and one with a producer index beyond the mask. -/
theorem confined_breaks :
    rxeQueueInit 64 3 100 true = some (smallQueue, 3) ∧
      ¬ Confined smallQueue (fun _ => ⟨8, 3, 2, 1⟩) ∧
      ¬ Confined smallQueue (fun _ => ⟨7, 3, 4, 1⟩) := by
  refine ⟨rxeQueueInit_smallQueue, fun hc => ?_, fun hc => ?_⟩
  · obtain ⟨i, hi, hval⟩ := hc.index 0 2
    have haddr : (addrFromIndex smallQueue ⟨8, 3, 2, 1⟩ 2).toNat = 512 := by decide
    have hsize : 2 ^ smallQueue.log2ElemSize.toNat = 128 := by decide
    have hslots : smallQueue.numSlots = 4 := by decide
    rw [haddr, hsize] at hval
    omega
  · obtain ⟨x, y, hs⟩ := rxeQueueInit_sized smallQueue_limits rxeQueueInit_smallQueue
    have hmeet := (exists_indexAt_const_iff _ _).mp (walk_bounded_iff.mp hc.walk)
    rw [meets_iff_of_mask hs rfl] at hmeet
    revert hmeet
    decide

end Rxe
