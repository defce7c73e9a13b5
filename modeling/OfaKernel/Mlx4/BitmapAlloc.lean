-- SUMMARY: The mlx4 object-number allocator (`alloc.c`).
import Mathlib.Data.Set.BooleanAlgebra
import Mathlib.Order.CompletePartialOrder
import OfaKernel.Lib.Bitmap
import OfaKernel.Lib.CInt
import OfaKernel.Lib.Run
import Mathlib.Data.Nat.Log

/-!
# The mlx4 bitmap allocator

The bitmap functions of `alloc.c`. A handle is a bit number of `table` with the rotating `top`
or-ed into it; `(u32)-1` stands for failure.
-/

namespace Mlx4

/-- `roundup_pow_of_two(n)`, that is `1UL << fls_long(n - 1)`. For `n = 0` the
shift count is 64, which the processor takes modulo 64. -/
def roundupPowOfTwo (n : Nat) : Nat := 2 ^ Nat.clog 2 n

/-- `struct mlx4_bitmap`. -/
structure BitmapAllocator where
  last : Nat
  top : Nat
  max : Nat
  reservedTop : Nat
  mask : Nat
  avail : Nat
  effectiveLen : Nat
  table : Bitmap

/-- `mlx4_bitmap_init`, with the outcome of its allocation; `none` stands for
`-EINVAL` and `-ENOMEM`. That the reserved bits lie in the words of the table is
`BitmapAllocator.ReservedFit`. -/
def bitmapInit (kcalloc : Bool) (num mask reservedBot reservedTop : Nat) : Option BitmapAllocator :=
  if num ≠ roundupPowOfTwo num then none
  else if kcalloc then
    some
      { last := 0
        top := 0
        max := U32.sub num reservedTop
        reservedTop := reservedTop
        mask := mask
        avail := U32.sub (U32.sub num reservedTop) reservedBot
        effectiveLen := U32.sub (U32.sub num reservedTop) reservedBot
        table := Bitmap.zero.setRange 0 reservedBot }
  else none

/-- The `reservedBot` bits that `mlx4_bitmap_init` sets lie in the `BITS_TO_LONGS(max)` words
that it has allocated. -/
def BitmapAllocator.ReservedFit (b : BitmapAllocator) (reservedBot : Nat) : Prop :=
  reservedBot ≤ 64 * ((b.max + 63) / 64)

instance (b : BitmapAllocator) (reservedBot : Nat) : Decidable (b.ReservedFit reservedBot) :=
  inferInstanceAs (Decidable (reservedBot ≤ 64 * ((b.max + 63) / 64)))

/-- `(bitmap->top + bitmap->max + bitmap->reserved_top) & bitmap->mask`. -/
def BitmapAllocator.nextTop (b : BitmapAllocator) : Nat :=
  U32.wrap (b.top + b.max + b.reservedTop) &&& b.mask

/-- The part of `mlx4_bitmap_alloc` after the searches. -/
def bitmapTakeBit (b : BitmapAllocator) (top obj : Nat) : BitmapAllocator × Nat :=
  if obj < b.max then
    let handle := obj ||| top
    ({ b with
        table := b.table.setBit obj
        last := if obj + 1 = b.max then 0 else obj + 1
        top := top
        avail := if handle ≠ U32.allOnes then U32.dec b.avail else b.avail }, handle)
  else ({ b with top := top }, U32.allOnes)

def bitmapAlloc (b : BitmapAllocator) : BitmapAllocator × Nat :=
  let obj := b.table.findNextZeroBit b.max b.last
  if b.max ≤ obj then bitmapTakeBit b b.nextTop (b.table.findFirstZeroBit b.max)
  else bitmapTakeBit b b.top obj

/-- The value `find_aligned_range` returns when there is no range. -/
def ulongMax : Nat := 2 ^ 64 - 1

/-- `ALIGN(start, align)` on `u32`; `align` is the `u32` image of the `int`. -/
def alignUp (start align : Nat) : Nat :=
  U32.wrap (start + U32.sub align 1) &&& (U32.allOnes - U32.sub align 1)

/-- `test_bit(i, bitmap) || ((u32)i & skip_mask)`. -/
def rangeTaken (table : Bitmap) (skipMask i : Nat) : Bool := table i || i &&& skipMask != 0

/-- The `while` loop of `find_aligned_range`, for at most `n` rounds. -/
def skipTaken (table : Bitmap) (nbits align skipMask : Nat) : Nat → Nat → Option Nat
  | 0, _ => none
  | n + 1, start =>
    if start < nbits ∧ rangeTaken table skipMask start = true then
      skipTaken table nbits align skipMask n (U32.wrap (start + align))
    else some start

/-- `find_aligned_range`. The fuel `n` bounds the jumps back to `again` and the rounds of the
inner loop. -/
def findAlignedRange (table : Bitmap) (nbits len align skipMask : Nat) : Nat → Nat → Option Nat
  | 0, _ => none
  | n + 1, start =>
    match skipTaken table nbits align skipMask n (alignUp start align) with
    | none => none
    | some start =>
      let stop := U32.wrap (start + len)
      if nbits ≤ start ∨ nbits < stop then some ulongMax
      else
        match (List.range' (start + 1) (stop - (start + 1))).find? (rangeTaken table skipMask) with
        | some i => findAlignedRange table nbits len align skipMask n (i + 1)
        | none => some start

/-- The part of `mlx4_bitmap_alloc_range` after the searches. -/
def bitmapTakeRange (b : BitmapAllocator) (top obj cnt : Nat) : BitmapAllocator × Nat :=
  if obj < b.max then
    let handle := obj ||| top
    let last := U32.wrap (obj + cnt)
    ({ b with
        table := b.table.setRange obj cnt
        last := if obj = b.last then (if b.max ≤ last then 0 else last) else b.last
        top := top
        avail := if handle ≠ U32.allOnes then U32.sub b.avail cnt else b.avail }, handle)
  else ({ b with top := top }, U32.allOnes)

/-- `mlx4_bitmap_alloc_range`; `none` while a search has not returned. -/
def bitmapAllocRange (fuel : Nat) (b : BitmapAllocator) (cnt align skipMask : Nat) :
    Option (BitmapAllocator × Nat) :=
  if cnt = 1 ∧ align = 1 ∧ skipMask = 0 then some (bitmapAlloc b)
  else
    match findAlignedRange b.table b.max cnt align skipMask fuel b.last with
    | none => none
    | some obj =>
      if b.max ≤ U32.wrap obj then
        (findAlignedRange b.table b.max cnt align skipMask fuel 0).map fun obj =>
          bitmapTakeRange b b.nextTop (U32.wrap obj) cnt
      else some (bitmapTakeRange b b.top (U32.wrap obj) cnt)

def bitmapMaskedValue (b : BitmapAllocator) (obj : Nat) : Nat :=
  obj &&& U32.sub (U32.wrap (b.max + b.reservedTop)) 1

def bitmapFreeRange (b : BitmapAllocator) (obj cnt : Nat) (useRr : Bool) : BitmapAllocator :=
  let obj := bitmapMaskedValue b obj
  { b with
    last := if useRr then b.last else min b.last obj
    top := if useRr then b.top else b.nextTop
    table := b.table.clearRange obj cnt
    avail := U32.wrap (b.avail + cnt) }

def bitmapFree (b : BitmapAllocator) (obj : Nat) (useRr : Bool) : BitmapAllocator :=
  bitmapFreeRange b obj 1 useRr

/-! ## Runs

A live allocation remembers the handle and the count its caller knows, and the
bits of the table that the call turned on. -/

structure LiveRange where
  obj : Nat
  cnt : Nat
  bits : Bitmap

structure BitmapState where
  alloc : BitmapAllocator
  live : List LiveRange

inductive BitmapCall where
  | alloc
  | allocRange (fuel cnt align skipMask : Nat)
  | free (i : Nat) (useRr : Bool)
  | freeRange (i : Nat) (useRr : Bool)

namespace BitmapState

def init (b : BitmapAllocator) : BitmapState := { alloc := b, live := [] }

/-- The state after an allocation call that returned. The caller keeps every
handle but `(u32)-1`. -/
def allocated (st : BitmapState) (cnt : Nat) (r : BitmapAllocator × Nat) : BitmapState :=
  { alloc := r.1
    live :=
      if r.2 = U32.allOnes then st.live
      else { obj := r.2, cnt := cnt, bits := fun j => r.1.table j && !st.alloc.table j
        } :: st.live }

def step (st : BitmapState) : BitmapCall → BitmapState
  | .alloc => st.allocated 1 (bitmapAlloc st.alloc)
  | .allocRange fuel cnt align skipMask =>
    match bitmapAllocRange fuel st.alloc cnt align skipMask with
    | none => st
    | some r => st.allocated cnt r
  | .free i useRr =>
    match st.live[i]? with
    | none => st
    | some e => { alloc := bitmapFree st.alloc e.obj useRr, live := st.live.eraseIdx i }
  | .freeRange i useRr =>
    match st.live[i]? with
    | none => st
    | some e => { alloc := bitmapFreeRange st.alloc e.obj e.cnt useRr, live := st.live.eraseIdx i }

/-- A free names a live allocation, with the count it was made with; a count is
a non-negative `int`. -/
def Valid (st : BitmapState) : BitmapCall → Prop
  | .alloc => True
  | .allocRange _ cnt _ _ => cnt < 2 ^ 31
  | .free i _ => ∃ e, st.live[i]? = some e ∧ e.cnt = 1
  | .freeRange i _ => i < st.live.length

/-- The bits the free of a live allocation will clear. -/
def maskedRange (st : BitmapState) (e : LiveRange) : Set Nat :=
  Set.Ico (bitmapMaskedValue st.alloc e.obj) (bitmapMaskedValue st.alloc e.obj + e.cnt)

/-- `avail` counts the clear bits, and live allocations do not share a bit. -/
structure Accounted (st : BitmapState) : Prop where
  avail_eq : st.alloc.avail = Bitmap.weight (fun j => !st.alloc.table j) st.alloc.max
  live_disjoint : st.live.Pairwise fun d e => Disjoint (st.maskedRange d) (st.maskedRange e)

/-- A call that returns `(u32)-1` changes neither `table` nor `avail`. -/
def FailsClean (st : BitmapState) (r : BitmapAllocator × Nat) : Prop :=
  r.2 = U32.allOnes → r.1.table = st.alloc.table ∧ r.1.avail = st.alloc.avail

/-- A free clears the bits the allocation set, which are all still set, and no others. -/
def FreesOwn (st : BitmapState) (e : LiveRange) (b : BitmapAllocator) : Prop :=
  ∀ j, (e.bits j = true → st.alloc.table j = true) ∧ b.table j = (st.alloc.table j && !e.bits j)

/-- What each call promises. -/
def CallOk (st : BitmapState) : BitmapCall → Prop
  | .alloc => st.FailsClean (bitmapAlloc st.alloc)
  | .allocRange fuel cnt align skipMask =>
    ∀ r, bitmapAllocRange fuel st.alloc cnt align skipMask = some r → st.FailsClean r
  | .free i useRr => ∀ e, st.live[i]? = some e → st.FreesOwn e (bitmapFree st.alloc e.obj useRr)
  | .freeRange i useRr =>
    ∀ e, st.live[i]? = some e → st.FreesOwn e (bitmapFreeRange st.alloc e.obj e.cnt useRr)

end BitmapState

end Mlx4
