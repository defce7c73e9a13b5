-- SUMMARY: The elements of a shared queue, and what a resize does to them.
import OfaKernel.Rxe.Queue
import OfaKernel.Lib.BoundedFifo
import OfaKernel.Lib.CInt
import Mathlib.Data.Nat.ModEq

/-!
# Resizing a queue

A queue with the bytes of its data area; an access that leaves it has no result.
`rxe_queue_resize` moves the elements to a second queue and swaps the two. Both locks are held
meanwhile.
-/

open List

namespace Rxe

/-! ## Queue operations -/

def queueEmpty (q : RxeQueue) (b : RxeQueueBuf) : Bool :=
  (b.producerIndex - b.consumerIndex) &&& q.indexMask == 0

def queueFull (q : RxeQueue) (b : RxeQueueBuf) : Bool :=
  (b.producerIndex + 1 - b.consumerIndex) &&& q.indexMask == 0

def queueCount (q : RxeQueue) (b : RxeQueueBuf) : UInt32 :=
  (b.producerIndex - b.consumerIndex) &&& q.indexMask

def advanceProducer (q : RxeQueue) (b : RxeQueueBuf) : RxeQueueBuf :=
  { b with producerIndex := (b.producerIndex + 1) &&& q.indexMask }

def advanceConsumer (q : RxeQueue) (b : RxeQueueBuf) : RxeQueueBuf :=
  { b with consumerIndex := (b.consumerIndex + 1) &&& q.indexMask }

def queueHead (q : RxeQueue) (b : RxeQueueBuf) : Option UInt32 :=
  if queueEmpty q b then none else some (consumerAddr q b)

/-! ## A queue and its buffer -/

/-- `struct rxe_queue` with the buffer it points to. -/
structure Ring where
  queue : RxeQueue
  buf : RxeQueueBuf
  data : Nat → UInt8

namespace Ring

/-- The bytes behind the header. -/
def dataSize (r : Ring) : Nat := r.queue.bufSize - sizeofQueueBuf

/-- `n` bytes of memory. -/
def bytesAt (data : Nat → UInt8) (addr n : Nat) : List UInt8 :=
  (List.range n).map fun i => data (addr + i)

/-- A `memcpy` of `n` bytes out of the data area. -/
def read (r : Ring) (addr : UInt32) (n : Nat) : Option (List UInt8) :=
  if addr.toNat + n ≤ r.dataSize then some (bytesAt r.data addr.toNat n) else none

/-- The memory behind a copy of bytes to an address. -/
def writeBytes (data : Nat → UInt8) (addr : Nat) (xs : List UInt8) (j : Nat) : UInt8 :=
  if addr ≤ j then xs[j - addr]?.getD (data j) else data j

/-- A `memcpy` into the data area. -/
def write (r : Ring) (addr : UInt32) (xs : List UInt8) : Option Ring :=
  if addr.toNat + xs.length ≤ r.dataSize then
    some { r with data := writeBytes r.data addr.toNat xs }
  else none

def advanceProducer (r : Ring) : Ring := { r with buf := Rxe.advanceProducer r.queue r.buf }

def advanceConsumer (r : Ring) : Ring := { r with buf := Rxe.advanceConsumer r.queue r.buf }

/-- What a producer does (`rxe_cq_post`, `post_one_recv`): nothing when the queue is full, else
the element is copied to its place and the index is advanced. -/
def push (r : Ring) (x : List UInt8) : Option (Bool × Ring) :=
  if queueFull r.queue r.buf then some (false, r)
  else (r.write (producerAddr r.queue r.buf) x).map fun r' => (true, r'.advanceProducer)

/-- What a consumer does (`rxe_poll_cq`): the element at the head of the queue is copied out and
the index is advanced. -/
def pop (r : Ring) : Option (Option (List UInt8) × Ring) :=
  match queueHead r.queue r.buf with
  | none => some (none, r)
  | some addr => (r.read addr r.queue.elemSize).map fun x => (some x, r.advanceConsumer)

/-- The elements that a consumer gets until there is no head any more. -/
def readAll : Nat → Ring → Option (List (List UInt8))
  | 0, r => if queueEmpty r.queue r.buf then some [] else none
  | fuel + 1, r =>
    match r.pop with
    | none => none
    | some (none, _) => some []
    | some (some x, r') => (readAll fuel r').map (x :: ·)

/-- One operation of a producer or a consumer. -/
def step (r : Ring) : BoundedFifo.Op (List UInt8) → Option (BoundedFifo.Out (List UInt8) × Ring)
  | .push x => r.push x |>.map fun p => (.pushed p.1, p.2)
  | .pop => r.pop |>.map fun p => (.popped p.1, p.2)

/-! ## Resizing -/

/-- `rxe_queue_init` with the buffer, which `vmalloc_user` clears. -/
def init (cacheLineSize : Nat) (numElem : Int) (elemSize : Nat) (vmallocUser : Bool) :
    Option (Ring × Nat) :=
  (rxeQueueInit cacheLineSize numElem elemSize vmallocUser).map fun (q, n) =>
    ({ queue := q
       buf := ⟨q.log2ElemSize, q.indexMask, 0, 0⟩
       data := fun _ => 0 }, n)

/-- The loop of `resize_finish`. -/
def copyLoop : Nat → Ring → Ring → Option (Ring × Ring)
  | 0, q, newQ => if queueEmpty q.queue q.buf then some (q, newQ) else none
  | fuel + 1, q, newQ =>
    if queueEmpty q.queue q.buf then some (q, newQ)
    else do
      let x ← q.read (consumerAddr q.queue q.buf) newQ.queue.elemSize
      let newQ' ← newQ.write (producerAddr newQ.queue newQ.buf) x
      copyLoop fuel q.advanceConsumer newQ'.advanceProducer

def einval : Int := -22

def enomem : Int := -12

/-- `resize_finish`: the two queues and the value returned. -/
def resizeFinish (q newQ : Ring) (numElem : Nat) : Option ((Ring × Ring) × Int) :=
  if !queueEmpty q.queue q.buf && decide (numElem < (queueCount q.queue q.buf).toNat) then
    some ((q, newQ), einval)
  else do
    let (q', newQ') ← copyLoop (queueCount q.queue q.buf).toNat q newQ
    -- `swap(*q, *new_q)`
    pure ((newQ', q'), 0)

/-- `rxe_queue_resize` behind `rxe_queue_init`: the queue behind the caller's pointer, the number
of elements written back, and the value returned. `doMmapInfo` is what `do_mmap_info` returns. -/
def resizeWith (doMmapInfo : Int) (q : Ring) (numElem : Nat) :
    Option (Ring × Nat) → Option (Ring × Nat × Int)
  | none => some (q, numElem, enomem)
  | some (newQ, n) =>
    if doMmapInfo ≠ 0 then some (q, numElem, doMmapInfo)
    else
      match resizeFinish q newQ n with
      | none => none
      | some ((q', _), err) => some (q', if err ≠ 0 then numElem else n, err)

/-- `rxe_queue_resize`, which passes the address of its `unsigned int` for that of an `int`. -/
def resize (cacheLineSize : Nat) (vmallocUser : Bool) (doMmapInfo : Int) (q : Ring)
    (numElem : UInt32) (elemSize : Nat) : Option (Ring × Nat × Int) :=
  resizeWith doMmapInfo q numElem.toNat
    (init cacheLineSize (I32.wrap numElem.toNat) elemSize vmallocUser)

end Ring

section

variable {q : RxeQueue} {a b : Nat}

theorem RxeQueue.Sized.toNat_mask (hs : q.Sized a b) (i : UInt32) :
    (i &&& q.indexMask).toNat = i.toNat % 2 ^ a := by
  rw [UInt32.toNat_and, hs.mask, Nat.and_two_pow_sub_one_eq_mod]

theorem RxeQueue.Sized.mod_mod (hs : q.Sized a b) (n : Nat) : n % 2 ^ 32 % 2 ^ a = n % 2 ^ a := by
  have hlt := hs.lt
  exact Nat.mod_mod_of_dvd n (Nat.pow_dvd_pow 2 (by omega))

theorem RxeQueue.Sized.toNat_slot (hs : q.Sized a b) (i : UInt32) :
    ((i &&& q.indexMask) <<< q.log2ElemSize).toNat = i.toNat % 2 ^ a * 2 ^ b := by
  have hi : i.toNat % 2 ^ a < 2 ^ a := Nat.mod_lt _ (Nat.two_pow_pos a)
  rw [toNat_shift hs, hs.log2_mod]
  apply Nat.mod_eq_of_lt
  calc i.toNat % 2 ^ a * 2 ^ b < 2 ^ a * 2 ^ b := Nat.mul_lt_mul_of_pos_right hi (Nat.two_pow_pos b)
    _ = 2 ^ (a + b) := (Nat.pow_add 2 a b).symm
    _ ≤ 2 ^ 32 := Nat.pow_le_pow_right (by omega) hs.lt.le

/-- The masked distance of two indices. -/
theorem RxeQueue.Sized.toNat_distance (hs : q.Sized a b) {p c : UInt32} {n : Nat}
    (h : p.toNat % 2 ^ a = (c.toNat + n) % 2 ^ a) :
    ((p - c) &&& q.indexMask).toNat = n % 2 ^ a := by
  have hc := c.toNat_lt
  have hlt := hs.lt
  rw [hs.toNat_mask, UInt32.toNat_sub, hs.mod_mod]
  have hsum : 2 ^ 32 - c.toNat + (c.toNat + n) = n + 2 ^ 32 := by omega
  calc (2 ^ 32 - c.toNat + p.toNat) % 2 ^ a
      = (2 ^ 32 - c.toNat + (c.toNat + n)) % 2 ^ a := Nat.ModEq.add_left _ h
    _ = (n + 2 ^ 32) % 2 ^ a := by rw [hsum]
    _ = n % 2 ^ a := by
        obtain ⟨k, hk⟩ : 2 ^ a ∣ 2 ^ 32 := Nat.pow_dvd_pow 2 (by omega)
        rw [hk, Nat.add_mul_mod_self_left]

theorem RxeQueue.Sized.toNat_next (hs : q.Sized a b) (i : UInt32) :
    (i + 1).toNat % 2 ^ a = (i.toNat + 1) % 2 ^ a := by
  exact hs.mod_mod _

end

/-! ## The elements of a ring -/

namespace Ring

theorem length_bytesAt (data : Nat → UInt8) (addr n : Nat) : (bytesAt data addr n).length = n := by
  rw [bytesAt, length_map, length_range]

theorem bytesAt_writeBytes (data : Nat → UInt8) (addr : Nat) (xs : List UInt8) :
    bytesAt (writeBytes data addr xs) addr xs.length = xs := by
  apply ext_getElem (length_bytesAt _ _ _)
  intro i h₁ h₂
  simp only [bytesAt, writeBytes, getElem_map, getElem_range]
  rw [if_pos (Nat.le_add_right _ _), Nat.add_sub_cancel_left, List.getElem?_eq_getElem h₂]
  rfl

/-- Bytes elsewhere stay as they are. -/
theorem bytesAt_writeBytes_of_disjoint (data : Nat → UInt8) {addr lo n : Nat} {xs : List UInt8}
    (h : lo + n ≤ addr ∨ addr + xs.length ≤ lo) :
    bytesAt (writeBytes data addr xs) lo n = bytesAt data lo n := by
  apply map_congr_left
  intro i hi
  have hi := mem_range.mp hi
  unfold writeBytes
  rcases h with h | h
  · rw [if_neg (by omega)]
  · rw [if_pos (by omega), List.getElem?_eq_none (by omega)]
    rfl

theorem slots_disjoint {s t b n : Nat} (hn : n ≤ 2 ^ b) (hne : s ≠ t) :
    s * 2 ^ b + n ≤ t * 2 ^ b ∨ t * 2 ^ b + n ≤ s * 2 ^ b := by
  rcases Nat.lt_or_gt_of_ne hne with hlt | hlt
  · have hle := Nat.mul_le_mul_right (2 ^ b) (Nat.succ_le_of_lt hlt)
    rw [Nat.succ_mul] at hle
    omega
  · have hle := Nat.mul_le_mul_right (2 ^ b) (Nat.succ_le_of_lt hlt)
    rw [Nat.succ_mul] at hle
    omega

/-- The ring of `2 ^ a` slots of `2 ^ b` bytes holds these elements. -/
structure Holds (r : Ring) (a b : Nat) (xs : List (List UInt8)) : Prop where
  sized : r.queue.Sized a b
  elemSize_le : r.queue.elemSize ≤ 2 ^ b
  length_lt : xs.length < 2 ^ a
  producer : r.buf.producerIndex.toNat % 2 ^ a =
    (r.buf.consumerIndex.toNat + xs.length) % 2 ^ a
  elem : ∀ i x, xs[i]? = some x → x.length = r.queue.elemSize ∧
    bytesAt r.data ((r.buf.consumerIndex.toNat + i) % 2 ^ a * 2 ^ b) r.queue.elemSize = x

section

variable {r : Ring} {a b : Nat} {x : List UInt8} {xs : List (List UInt8)}

/-- Every ring holds some elements. -/
theorem exists_holds (hs : r.queue.Sized a b) (hle : r.queue.elemSize ≤ 2 ^ b) :
    ∃ xs, r.Holds a b xs := by
  have hpos := Nat.two_pow_pos a
  have hlt := hs.lt
  have hc := r.buf.consumerIndex.toNat_lt
  let n := (2 ^ 32 - r.buf.consumerIndex.toNat + r.buf.producerIndex.toNat) % 2 ^ a
  let slot (i : Nat) : List UInt8 :=
    bytesAt r.data ((r.buf.consumerIndex.toNat + i) % 2 ^ a * 2 ^ b) r.queue.elemSize
  refine ⟨(List.range n).map slot, ?_⟩
  exact
    { sized := hs
      elemSize_le := hle
      length_lt := by
        rw [length_map, length_range]
        exact Nat.mod_lt _ hpos
      producer := by
        obtain ⟨k, hk⟩ : 2 ^ a ∣ 2 ^ 32 := Nat.pow_dvd_pow 2 (by omega)
        have hsum : r.buf.consumerIndex.toNat +
            (2 ^ 32 - r.buf.consumerIndex.toNat + r.buf.producerIndex.toNat) =
              r.buf.producerIndex.toNat + 2 ^ a * k := by omega
        rw [length_map, length_range, Nat.add_mod_mod, hsum, Nat.add_mul_mod_self_left]
      elem := by
        intro i x hx
        rw [List.getElem?_map, Option.map_eq_some_iff] at hx
        obtain ⟨j, hj, rfl⟩ := hx
        obtain ⟨hlen, rfl⟩ := List.getElem?_eq_some_iff.mp hj
        rw [getElem_range]
        exact ⟨length_bytesAt _ _ _, rfl⟩ }

namespace Holds

theorem dataSize (h : r.Holds a b xs) : r.dataSize = 2 ^ a * 2 ^ b := by
  rw [Ring.dataSize, h.sized.bufSize, Nat.add_sub_cancel_left]

/-- A slot lies in the data area. -/
theorem slot_le (h : r.Holds a b xs) (i : Nat) {n : Nat} (hn : n ≤ 2 ^ b) :
    i % 2 ^ a * 2 ^ b + n ≤ r.dataSize := by
  have hi : i % 2 ^ a + 1 ≤ 2 ^ a := Nat.mod_lt _ (Nat.two_pow_pos a)
  calc i % 2 ^ a * 2 ^ b + n ≤ i % 2 ^ a * 2 ^ b + 2 ^ b := Nat.add_le_add_left hn _
    _ = (i % 2 ^ a + 1) * 2 ^ b := (Nat.succ_mul _ _).symm
    _ ≤ 2 ^ a * 2 ^ b := Nat.mul_le_mul_right _ hi
    _ = r.dataSize := h.dataSize.symm

theorem queueCount (h : r.Holds a b xs) : (queueCount r.queue r.buf).toNat = xs.length := by
  rw [Rxe.queueCount, h.sized.toNat_distance h.producer, Nat.mod_eq_of_lt h.length_lt]

theorem queueEmpty_iff (h : r.Holds a b xs) : queueEmpty r.queue r.buf = true ↔ xs = [] := by
  rw [queueEmpty, beq_iff_eq, ← UInt32.toNat_inj, ← length_eq_zero_iff, ← h.queueCount]
  rfl

theorem queueFull_iff (h : r.Holds a b xs) :
    queueFull r.queue r.buf = true ↔ xs.length + 1 = 2 ^ a := by
  have hnext : (r.buf.producerIndex + 1).toNat % 2 ^ a =
      (r.buf.consumerIndex.toNat + (xs.length + 1)) % 2 ^ a := by
    rw [h.sized.toNat_next, ← Nat.add_assoc]
    exact Nat.ModEq.add_right 1 h.producer
  have hlt := h.length_lt
  rw [queueFull, beq_iff_eq, ← UInt32.toNat_inj, h.sized.toNat_distance hnext]
  constructor
  · intro hzero
    by_contra hne
    rw [Nat.mod_eq_of_lt (by omega)] at hzero
    cases hzero
  · intro hend
    rw [hend, Nat.mod_self]
    rfl

theorem read_head (h : r.Holds a b (x :: xs)) :
    r.read (consumerAddr r.queue r.buf) r.queue.elemSize = some x := by
  have haddr : (consumerAddr r.queue r.buf).toNat =
      r.buf.consumerIndex.toNat % 2 ^ a * 2 ^ b := h.sized.toNat_slot _
  rw [read, haddr, if_pos (h.slot_le _ h.elemSize_le)]
  exact congrArg some (h.elem 0 x rfl).2

theorem advanceConsumer (h : r.Holds a b (x :: xs)) : r.advanceConsumer.Holds a b xs := by
  have hlt := h.length_lt
  rw [length_cons] at hlt
  have hnext : ((r.buf.consumerIndex + 1) &&& r.queue.indexMask).toNat =
      (r.buf.consumerIndex.toNat + 1) % 2 ^ a := by
    rw [h.sized.toNat_mask, h.sized.toNat_next]
  exact
    { sized := h.sized
      elemSize_le := h.elemSize_le
      length_lt := by omega
      producer := by
        change r.buf.producerIndex.toNat % _ =
          (((r.buf.consumerIndex + 1) &&& r.queue.indexMask).toNat + _) % _
        rw [hnext, Nat.mod_add_mod, h.producer, length_cons, Nat.add_assoc, Nat.add_comm 1]
      elem := by
        intro i y hy
        obtain ⟨hlen, hbytes⟩ := h.elem (i + 1) y hy
        refine ⟨hlen, ?_⟩
        change bytesAt r.data
          ((((r.buf.consumerIndex + 1) &&& r.queue.indexMask).toNat + i) % _ * _) _ = _
        rw [hnext, Nat.mod_add_mod, Nat.add_assoc, Nat.add_comm 1]
        exact hbytes }

/-- A copy to the place of the producer and its advance put an element behind the others. -/
theorem append (h : r.Holds a b xs) (hroom : xs.length + 1 < 2 ^ a)
    (hx : x.length = r.queue.elemSize) :
    ∃ r', r.write (producerAddr r.queue r.buf) x = some r' ∧ r'.queue = r.queue ∧
      r'.advanceProducer.Holds a b (xs ++ [x]) := by
  have haddr : (producerAddr r.queue r.buf).toNat =
      r.buf.producerIndex.toNat % 2 ^ a * 2 ^ b := h.sized.toNat_slot _
  have hle : x.length ≤ 2 ^ b := hx.trans_le h.elemSize_le
  have hlt := h.length_lt
  refine ⟨{ r with data := writeBytes r.data (r.buf.producerIndex.toNat % 2 ^ a * 2 ^ b) x },
    by rw [write, haddr, if_pos (h.slot_le _ hle)], rfl, ?_⟩
  exact
    { sized := h.sized
      elemSize_le := h.elemSize_le
      length_lt := by rwa [length_append]
      producer := by
        change ((r.buf.producerIndex + 1) &&& r.queue.indexMask).toNat % _ = _
        rw [h.sized.toNat_mask, Nat.mod_mod, h.sized.toNat_next, length_append, ← Nat.add_assoc]
        exact Nat.ModEq.add_right 1 h.producer
      elem := by
        intro i y hy
        change y.length = _ ∧ bytesAt (writeBytes r.data _ x)
          ((r.buf.consumerIndex.toNat + i) % _ * _) _ = _
        rcases Nat.lt_or_ge i xs.length with hi | hi
        · -- an element that was there before: its slot is not that of the producer
          rw [List.getElem?_append_left hi] at hy
          have hne : (r.buf.consumerIndex.toNat + i) % 2 ^ a ≠
              r.buf.producerIndex.toNat % 2 ^ a := by
            intro heq
            have hmod : i ≡ xs.length [MOD 2 ^ a] :=
              Nat.ModEq.add_left_cancel' _ (heq.trans h.producer)
            have := hmod.eq_of_lt_of_lt (hi.trans hlt) hlt
            omega
          obtain ⟨hlen, hbytes⟩ := h.elem i y hy
          refine ⟨hlen, ?_⟩
          rw [bytesAt_writeBytes_of_disjoint]
          · exact hbytes
          · rw [hx]
            exact slots_disjoint h.elemSize_le hne
        · -- the new element
          rw [List.getElem?_append_right hi, List.getElem?_singleton] at hy
          split at hy
          case isFalse => cases hy
          case isTrue hzero =>
            obtain rfl := Option.some.inj hy
            obtain rfl : i = xs.length := by omega
            refine ⟨hx, ?_⟩
            have hsame := bytesAt_writeBytes r.data (r.buf.producerIndex.toNat % 2 ^ a * 2 ^ b) x
            rw [hx] at hsame
            rw [← h.producer]
            exact hsame }

theorem push_full (h : r.Holds a b xs) (hfull : xs.length + 1 = 2 ^ a) :
    r.push x = some (false, r) := by
  rw [push, if_pos (h.queueFull_iff.mpr hfull)]

theorem push_room (h : r.Holds a b xs) (hroom : xs.length + 1 < 2 ^ a)
    (hx : x.length = r.queue.elemSize) :
    ∃ r', r.push x = some (true, r') ∧ r'.queue = r.queue ∧ r'.Holds a b (xs ++ [x]) := by
  obtain ⟨r', hwrite, hqueue, hr'⟩ := h.append hroom hx
  refine ⟨r'.advanceProducer, ?_, hqueue, hr'⟩
  rw [push, if_neg (fun hfull => by have := h.queueFull_iff.mp hfull; omega), hwrite]
  rfl

theorem pop_nil (h : r.Holds a b []) : r.pop = some (none, r) := by
  rw [pop, queueHead, if_pos (h.queueEmpty_iff.mpr rfl)]

theorem pop_cons (h : r.Holds a b (x :: xs)) : r.pop = some (some x, r.advanceConsumer) := by
  have hempty : ¬queueEmpty r.queue r.buf = true := by
    rw [h.queueEmpty_iff]
    exact cons_ne_nil _ _
  rw [pop, queueHead, if_neg hempty]
  dsimp only
  rw [h.read_head]
  rfl

/-- Reading until there is no head gives the elements. -/
theorem readAll (h : r.Holds a b xs) {fuel : Nat} (hfuel : xs.length ≤ fuel) :
    readAll fuel r = some xs := by
  induction xs generalizing r fuel with
  | nil =>
    cases fuel with
    | zero => rw [Ring.readAll, if_pos (h.queueEmpty_iff.mpr rfl)]
    | succ fuel => rw [Ring.readAll, h.pop_nil]
  | cons x xs ih =>
    cases fuel with
    | zero => cases hfuel
    | succ fuel =>
      rw [Ring.readAll, h.pop_cons]
      dsimp only
      rw [ih h.advanceConsumer (Nat.le_of_succ_le_succ hfuel)]
      rfl

/-- The loop of the copy puts all elements of the old ring behind those of the new one. -/
theorem copyLoop {q newQ : Ring} {a' b' : Nat} {ys : List (List UInt8)} (h : q.Holds a b xs)
    (h' : newQ.Holds a' b' ys) (hsize : newQ.queue.elemSize = q.queue.elemSize)
    (hroom : ys.length + xs.length < 2 ^ a') {fuel : Nat} (hfuel : xs.length ≤ fuel) :
    ∃ q' newQ', copyLoop fuel q newQ = some (q', newQ') ∧ newQ'.queue = newQ.queue ∧
      newQ'.Holds a' b' (ys ++ xs) := by
  induction xs generalizing q newQ ys fuel with
  | nil =>
    have hempty := h.queueEmpty_iff.mpr rfl
    refine ⟨q, newQ, ?_, rfl, by rwa [append_nil]⟩
    cases fuel with
    | zero => rw [Ring.copyLoop, if_pos hempty]
    | succ fuel => rw [Ring.copyLoop, if_pos hempty]
  | cons x xs ih =>
    cases fuel with
    | zero => cases hfuel
    | succ fuel =>
      have hempty : ¬queueEmpty q.queue q.buf = true := by
        rw [h.queueEmpty_iff]
        exact cons_ne_nil _ _
      have hread : q.read (consumerAddr q.queue q.buf) newQ.queue.elemSize = some x := by
        rw [hsize]
        exact h.read_head
      rw [length_cons] at hroom
      obtain ⟨newQ', hwrite, hqueue, hnew⟩ :=
        h'.append (by omega) ((h.elem 0 x rfl).1.trans hsize.symm)
      obtain ⟨q', newQ'', hloop, hqueue', hall⟩ := ih h.advanceConsumer hnew
        (by change newQ'.queue.elemSize = _; rw [hqueue]; exact hsize)
        (by rw [length_append, length_singleton]; omega)
        (Nat.le_of_succ_le_succ hfuel)
      refine ⟨q', newQ'', ?_, hqueue'.trans hqueue, ?_⟩
      · rw [Ring.copyLoop, if_neg hempty, hread]
        simp only [Option.bind_eq_bind, Option.bind_some, hwrite]
        exact hloop
      · rwa [append_assoc] at hall

end Holds

end

/-! ## Queues that the callers make -/

end Ring

/-- The size of the data area does not wrap in `unsigned int`. -/
def AreaFits (cacheLineSize numElem elemSize : Nat) : Prop :=
  roundupPowOfTwo (numElem + 1) *
    roundupPowOfTwo (if elemSize < cacheLineSize then cacheLineSize else elemSize) < 2 ^ 32

instance (cacheLineSize numElem elemSize : Nat) :
    Decidable (AreaFits cacheLineSize numElem elemSize) :=
  inferInstanceAs (Decidable (_ < _))

/-- `rxe_cq_chk_attr`; `count` is the number of elements of a queue that is there. -/
def rxeCqChkAttr (maxCqe cqe : Int) (count : Option Int) : Int :=
  if cqe ≤ 0 then Ring.einval
  else if cqe > maxCqe then Ring.einval
  else
    match count with
    | none => 0
    | some n => if cqe < n then Ring.einval else 0

def rxeMaxCqe : Int := 2 ^ 15 - 1

section

variable {cacheLineSize elemSize : Nat}

theorem QueueLimits.areaFits {numElem : Nat} (hl : QueueLimits cacheLineSize numElem elemSize) :
    AreaFits cacheLineSize numElem elemSize := by
  have hslots : Nat.clog 2 (numElem + 1) ≤ 16 := by
    apply Nat.clog_le_of_le_pow
    have hle := hl.numElem_le
    omega
  have hslot : Nat.clog 2 (if elemSize < cacheLineSize then cacheLineSize else elemSize) ≤ 12 := by
    apply Nat.clog_le_of_le_pow
    split
    · exact hl.cacheLineSize_le
    · exact hl.elemSize_le
  calc _ ≤ 2 ^ 16 * 2 ^ 12 :=
        Nat.mul_le_mul (Nat.pow_le_pow_right (by omega) hslots)
          (Nat.pow_le_pow_right (by omega) hslot)
    _ < 2 ^ 32 := by decide

/-- What a completion queue is resized to fits. -/
theorem areaFits_of_cq (hcache : cacheLineSize ≤ 2 ^ 12) (helem : elemSize ≤ 2 ^ 12) {cqe : Int}
    {count : Option Int} (h : rxeCqChkAttr rxeMaxCqe cqe count = 0) :
    AreaFits cacheLineSize cqe.toNat elemSize := by
  apply QueueLimits.areaFits
  refine ⟨hcache, ?_, helem⟩
  unfold rxeCqChkAttr rxeMaxCqe at h
  split at h
  case isTrue => cases h
  case isFalse hpos =>
    split at h
    case isTrue => cases h
    case isFalse hle => omega

end

namespace Ring

/-- The queue is one that `rxe_queue_init` makes; header and elements are arbitrary. -/
def Made (r : Ring) : Prop :=
  ∃ a b, r.queue.Sized a b ∧ r.queue.elemSize ≤ 2 ^ b

def capacity (r : Ring) : Nat := r.queue.indexMask.toNat

theorem Holds.capacity {r : Ring} {a b : Nat} {xs : List (List UInt8)} (h : r.Holds a b xs) :
    r.capacity + 1 = 2 ^ a := by
  have hpos := Nat.two_pow_pos a
  rw [Ring.capacity, h.sized.mask]
  omega

/-- A negative number of elements is refused. -/
theorem init_neg {cacheLineSize elemSize : Nat} {numElem : Int} {vmallocUser : Bool}
    (h : numElem < 0) : init cacheLineSize numElem elemSize vmallocUser = none := by
  unfold init rxeQueueInit
  rw [if_pos h]
  rfl

/-- A new queue is empty and has room for what was asked. -/
theorem init_holds {cacheLineSize numElem elemSize n : Nat} {vmallocUser : Bool} {r : Ring}
    (hfits : AreaFits cacheLineSize numElem elemSize)
    (h : init cacheLineSize numElem elemSize vmallocUser = some (r, n)) :
    ∃ a b, r.Holds a b [] ∧ r.queue.elemSize = elemSize ∧ n + 1 = 2 ^ a ∧ numElem ≤ n := by
  unfold init rxeQueueInit at h
  cases vmallocUser with
  | false => cases h
  | true =>
    simp only [if_true, Int.toNat_natCast] at h
    obtain ⟨rfl, rfl⟩ := Prod.mk.inj (Option.some.inj h)
    unfold AreaFits roundupPowOfTwo at hfits
    set size := if elemSize < cacheLineSize then cacheLineSize else elemSize with hsize
    have hpow : 2 ^ (Nat.clog 2 (numElem + 1) + Nat.clog 2 size) < 2 ^ 32 := by
      rwa [Nat.pow_add]
    have hlt := (Nat.pow_lt_pow_iff_right (by omega)).mp hpow
    have hslots : 2 ^ Nat.clog 2 (numElem + 1) < 2 ^ 32 :=
      Nat.pow_lt_pow_right (by omega) (by omega)
    have hpos := Nat.two_pow_pos (Nat.clog 2 (numElem + 1))
    have hnum : numElem + 1 ≤ 2 ^ Nat.clog 2 (numElem + 1) := Nat.le_pow_clog (by omega) _
    have helem : elemSize ≤ 2 ^ Nat.clog 2 size := by
      refine Nat.le_trans ?_ (Nat.le_pow_clog (by omega) _)
      rw [hsize]
      split <;> omega
    have hlog : orderBase2 (2 ^ Nat.clog 2 size) = Nat.clog 2 size := Nat.clog_pow 2 _ (by omega)
    refine ⟨Nat.clog 2 (numElem + 1), Nat.clog 2 size, ?_, rfl, ?_, ?_⟩
    · exact
        { sized :=
            { mask := UInt32.toNat_ofNat_of_lt (by
                unfold roundupPowOfTwo
                simp only [UInt32.size]
                omega)
              log2 := by
                simp only [roundupPowOfTwo, hlog]
                exact UInt32.toNat_ofNat_of_lt (by simp only [UInt32.size]; omega)
              lt := hlt
              bufSize := by
                simp only [roundupPowOfTwo]
                rw [Nat.mod_eq_of_lt hfits] }
          elemSize_le := helem
          length_lt := hpos
          producer := rfl
          elem := fun i x hx => by cases hx }
    · unfold roundupPowOfTwo
      omega
    · unfold roundupPowOfTwo
      omega

/-- An element that is pushed has the size of an element. -/
def OpSized (elemSize : Nat) : BoundedFifo.Op (List UInt8) → Prop
  | .push x => x.length = elemSize
  | .pop => True

/-- The elements are what a consumer reads, and producers and consumers get the answers of the
bounded queue from then on. -/
structure Behaves (r : Ring) (f : BoundedFifo (List UInt8)) : Prop where
  capacity : f.capacity = r.capacity
  read : ∀ fuel, f.elems.length ≤ fuel → readAll fuel r = some f.elems
  outputs : ∀ ops, (∀ op ∈ ops, OpSized r.queue.elemSize op) →
    BoundedFifo.machineOutputs step r ops = some (f.outputs ops)

/-- The relation that the operations keep. -/
structure Simulates (elemSize : Nat) (r : Ring) (f : BoundedFifo (List UInt8)) : Prop where
  holds : ∃ a b, r.Holds a b f.elems ∧ f.capacity + 1 = 2 ^ a
  elemSize : r.queue.elemSize = elemSize

theorem Simulates.step {n : Nat} {r : Ring} {f : BoundedFifo (List UInt8)}
    (h : Simulates n r f) {op : BoundedFifo.Op (List UInt8)} (hop : OpSized n op) :
    ∃ r', r.step op = some ((f.step op).1, r') ∧ Simulates n r' (f.step op).2 := by
  obtain ⟨⟨a, b, hr, hcap⟩, hsize⟩ := h
  cases op with
  | push x =>
    have hlt := hr.length_lt
    by_cases hroom : f.elems.length < f.capacity
    · obtain ⟨r', hpush, hqueue, hr'⟩ := hr.push_room (by omega) (hop.trans hsize.symm)
      refine ⟨r', ?_, ⟨⟨a, b, ?_, ?_⟩, ?_⟩⟩
      · simp [Ring.step, hpush, BoundedFifo.step, dif_pos hroom]
      · simp only [BoundedFifo.step, dif_pos hroom]
        exact hr'
      · simp only [BoundedFifo.step, dif_pos hroom]
        exact hcap
      · rw [hqueue]
        exact hsize
    · refine ⟨r, ?_, ⟨⟨a, b, ?_, ?_⟩, hsize⟩⟩
      · simp [Ring.step, hr.push_full (x := x) (by omega), BoundedFifo.step, dif_neg hroom]
      · simp only [BoundedFifo.step, dif_neg hroom]
        exact hr
      · simp only [BoundedFifo.step, dif_neg hroom]
        exact hcap
  | pop =>
    obtain ⟨cap, elems, hle⟩ := f
    cases elems with
    | nil => exact ⟨r, by rw [Ring.step, hr.pop_nil]; rfl, ⟨⟨a, b, hr, hcap⟩, hsize⟩⟩
    | cons x xs =>
      exact ⟨r.advanceConsumer, by rw [Ring.step, hr.pop_cons]; rfl,
        ⟨⟨a, b, hr.advanceConsumer, hcap⟩, hsize⟩⟩

theorem Holds.behaves {r : Ring} {a b : Nat} {f : BoundedFifo (List UInt8)}
    (h : r.Holds a b f.elems) (hcap : f.capacity = r.capacity) : r.Behaves f where
  capacity := hcap
  read := fun _ hfuel => h.readAll hfuel
  outputs := fun ops hops => by
    have hsim : Simulates r.queue.elemSize r f :=
      ⟨⟨a, b, h, by rw [hcap, h.capacity]⟩, rfl⟩
    exact BoundedFifo.outputs_eq (fun s g op hs hop => hs.step hop) hsim hops

/-! ## What resizing leaves -/

/-- The end of a resize when the new queue is there. -/
theorem resizeFinish_spec {q newQ : Ring} {a b a' b' n : Nat} {xs : List (List UInt8)}
    (h : q.Holds a b xs) (hnew : newQ.Holds a' b' [])
    (hsize : newQ.queue.elemSize = q.queue.elemSize) (hn : n + 1 = 2 ^ a') :
    resizeFinish q newQ n = some ((q, newQ), einval) ∨
      ∃ q' newQ', resizeFinish q newQ n = some ((newQ', q'), 0) ∧
        newQ'.queue = newQ.queue ∧ newQ'.Holds a' b' xs := by
  unfold resizeFinish
  by_cases hfew : n < xs.length
  · left
    have hempty : queueEmpty q.queue q.buf = false := by
      rw [← Bool.not_eq_true, h.queueEmpty_iff]
      rintro rfl
      cases hfew
    rw [hempty, h.queueCount, decide_eq_true hfew]
    rfl
  · right
    have hroom : ([] : List (List UInt8)).length + xs.length < 2 ^ a' := by
      rw [length_nil, Nat.zero_add]
      omega
    obtain ⟨q', newQ', hloop, hqueue, hall⟩ :=
      h.copyLoop hnew hsize hroom (Nat.le_refl xs.length)
    refine ⟨q', newQ', ?_, hqueue, hall⟩
    rw [h.queueCount, decide_eq_false hfew, Bool.and_false, hloop]
    rfl

/-- Consumers read the same elements as before, and the queue behaves as the bounded queue of
these elements and of its capacity. -/
structure Preserved (r : Ring) (numElem : Nat) (r' : Ring) (n : Nat) (err : Int) : Prop where
  elems : ∃ f f', r.Behaves f ∧ r'.Behaves f' ∧ f'.elems = f.elems
  made : r'.Made
  failed : err ≠ 0 → r' = r ∧ n = numElem
  resized : err = 0 → numElem ≤ r'.capacity ∧ n = r'.capacity

/-- The second queue is empty and has room for what was asked. -/
theorem resizeWith_spec {r : Ring} (hr : r.Made) {numElem : Nat} {doMmapInfo : Int}
    {x : Option (Ring × Nat)}
    (hx : ∀ newQ n, x = some (newQ, n) → ∃ a b, newQ.Holds a b [] ∧
      newQ.queue.elemSize = r.queue.elemSize ∧ n + 1 = 2 ^ a ∧ numElem ≤ n) :
    ∃ r' n err, resizeWith doMmapInfo r numElem x = some (r', n, err) ∧
      Preserved r numElem r' n err := by
  obtain ⟨a, b, hs, hle⟩ := hr
  obtain ⟨xs, hxs⟩ := exists_holds hs hle
  have hcap := hxs.capacity
  have hlen := hxs.length_lt
  have hf : r.Behaves ⟨r.capacity, xs, by omega⟩ := Holds.behaves hxs rfl
  have hfailed : ∀ err : Int, err ≠ 0 → Preserved r numElem r numElem err :=
    fun err hne => ⟨⟨_, _, hf, hf, rfl⟩, ⟨a, b, hs, hle⟩, fun _ => ⟨rfl, rfl⟩,
      fun hzero => absurd hzero hne⟩
  cases x with
  | none => exact ⟨r, _, enomem, rfl, hfailed enomem (by decide)⟩
  | some p =>
    obtain ⟨newQ, n⟩ := p
    obtain ⟨a', b', hnew, hsize, hn, hnum⟩ := hx newQ n rfl
    unfold resizeWith
    dsimp only
    by_cases hmmap : doMmapInfo = 0
    · rw [if_neg (not_not.mpr hmmap)]
      rcases resizeFinish_spec hxs hnew hsize hn with hfail | ⟨q', newQ', hfin, -, hall⟩
      · rw [hfail]
        exact ⟨r, _, einval, rfl, hfailed einval (by decide)⟩
      · rw [hfin]
        have hcap' := hall.capacity
        have hlen' := hall.length_lt
        have hn' : n = newQ'.capacity := by omega
        have hf' : newQ'.Behaves ⟨newQ'.capacity, xs, by omega⟩ := Holds.behaves hall rfl
        exact ⟨newQ', n, 0, rfl, ⟨_, _, hf, hf', rfl⟩, ⟨a', b', hall.sized, hall.elemSize_le⟩,
          fun hne => absurd rfl hne, fun _ => ⟨hn' ▸ hnum, hn'⟩⟩
    · rw [if_pos hmmap]
      exact ⟨r, _, doMmapInfo, rfl, hfailed doMmapInfo hmmap⟩

/-- A queue is resized to any size whose area does not wrap. Either the call fails and the queue
is what it was, or it has at least the capacity asked for, which is written back. -/
theorem resize_preserves {r : Ring} (hr : r.Made) {cacheLineSize : Nat} {numElem : UInt32}
    (hfits : AreaFits cacheLineSize numElem.toNat r.queue.elemSize) (vmallocUser : Bool)
    (doMmapInfo : Int) :
    ∃ r' n err,
      resize cacheLineSize vmallocUser doMmapInfo r numElem r.queue.elemSize = some (r', n, err) ∧
        Preserved r numElem.toNat r' n err := by
  apply resizeWith_spec hr
  intro newQ n hinit
  -- the number is not negative as an `int`
  have hnonneg : 0 ≤ I32.wrap numElem.toNat := by
    by_contra hneg
    rw [init_neg (Int.not_le.mp hneg)] at hinit
    cases hinit
  have hwrap : I32.wrap numElem.toNat = (numElem.toNat : Int) := by
    have hlt := numElem.toNat_lt
    unfold I32.wrap at hnonneg ⊢
    omega
  rw [hwrap] at hinit
  exact init_holds hfits hinit

/-- Four slots of 128 bytes with two elements, the second one behind the wrap. -/
def smallRing : Ring where
  queue := smallQueue
  buf := ⟨7, 3, 1, 7⟩
  data := fun j => .ofNat j

theorem smallRing_made : smallRing.Made :=
  ⟨2, 7, ⟨rfl, rfl, by decide, rfl⟩, by decide⟩

theorem smallRing_fits : AreaFits 64 7 100 := by decide

theorem resize_preserves_smallRing :
    ∃ r' n err, resize 64 true 0 smallRing 7 smallRing.queue.elemSize = some (r', n, err) ∧
      Preserved smallRing 7 r' n err :=
  resize_preserves smallRing_made smallRing_fits true 0

end Ring

end Rxe
