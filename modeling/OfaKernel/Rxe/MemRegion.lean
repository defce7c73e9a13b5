-- SUMMARY: An rxe memory region: its two-level table of buffers.
import OfaKernel.Lib.CInt
import OfaKernel.Rxe.Packet

/-!
# Memory regions of rxe

A region keeps the addresses of its pages in maps of `RXE_BUF_PER_MAP` buffers, found from an
iova by a shift or by a walk. An index outside the maps is a fault.
-/

namespace Rxe.Mr

structure PhysBuf where
  addr : Nat
  size : Nat
  deriving Repr, DecidableEq

/-- `struct rxe_mem`. `map m n` is `map[m]->buf[n]`, of which those with `m < numMap` exist. -/
structure RxeMem where
  state : MemState := .invalid
  type : MemType := .none
  iova : UInt64 := 0
  length : Nat := 0
  offset : Nat := 0
  pageShift : Nat := 0
  pageMask : Nat := 0
  mapShift : Nat
  mapMask : Nat := 0
  numBuf : Nat := 0
  maxBuf : Nat := 0
  numMap : Nat := 0
  map : Option (Nat → Nat → PhysBuf) := none

/-- Why a function stops: an index outside the maps, or the error it returns. -/
inductive MemStop where
  | fault
  | errno (err : Int)
  deriving Repr, DecidableEq

def memEinval : Int := -22
def memEnomem : Int := -12
def memEfault : Int := -14

namespace RxeMem

def bufPerMap (mem : RxeMem) : Nat := 2 ^ mem.mapShift

/-- `buf = map[m]->buf`: the pointer of the map is loaded. -/
def loadMap (mem : RxeMem) (m : Nat) : Except MemStop Unit :=
  if mem.map.isSome ∧ m < mem.numMap then .ok () else .error .fault

/-- `mem->map[m]->buf[n]`. -/
def bufAt (mem : RxeMem) (m n : Nat) : Except MemStop PhysBuf :=
  match mem.map with
  | none => .error .fault
  | some map => if m < mem.numMap ∧ n < mem.bufPerMap then .ok (map m n) else .error .fault

/-- The maps hold other buffers. -/
def setMap (mem : RxeMem) (map : Nat → Nat → PhysBuf) : RxeMem := { mem with map := some map }

def setBuf (mem : RxeMem) (m n : Nat) (b : PhysBuf) : Except MemStop RxeMem :=
  match mem.map with
  | none => .error .fault
  | some map =>
    if m < mem.numMap ∧ n < mem.bufPerMap then
      .ok (mem.setMap (Function.update map m (Function.update (map m) n b)))
    else .error .fault

end RxeMem

/-! ## Setting a region up -/

def memCheckRange (mem : RxeMem) (iova : UInt64) (length : Nat) : Int :=
  match mem.type with
  | .dma => 0
  | .mr | .fmr =>
    if iova.toNat < mem.iova.toNat ∨ mem.length < length ∨
        (mem.iova.toNat + (mem.length - length)) % 2 ^ 64 < iova.toNat then memEfault
    else 0
  | _ => memEfault

def rxeMemInit (mapShift : Nat) : RxeMem := { mapShift }

/-- `rxe_mem_alloc`. `kmalloc` is what the new maps hold, when all of them could be had. -/
def rxeMemAlloc (mem : RxeMem) (numBuf : Nat) (kmalloc : Option (Nat → Nat → PhysBuf)) :
    Except MemStop RxeMem :=
  let numMap := (numBuf + mem.bufPerMap - 1) / mem.bufPerMap
  match kmalloc with
  | none => .error (.errno memEnomem)
  | some bufs =>
    .ok { mem with
          map := some bufs
          mapMask := mem.bufPerMap - 1
          numBuf := numBuf
          numMap := numMap
          maxBuf := numMap * mem.bufPerMap }

/-- The loops that write the buffers, at `map[m]->buf + n`. A page without an address ends them.
The two tell in different ways that the buffers of a map are `full`. -/
def fillBufs (full : Nat → Bool) (size : Nat) :
    List (Option Nat) → Nat → Nat → RxeMem → Except MemStop RxeMem
  | [], _, _, mem => .ok mem
  | none :: _, _, _, _ => .error (.errno memEnomem)
  | some addr :: pages, m, n, mem => do
      let mem ← mem.setBuf m n ⟨addr, size⟩
      if full (n + 1) then
        -- `map++`, also behind the last map
        mem.loadMap (m + 1)
        fillBufs full size pages (m + 1) 0 mem
      else fillBufs full size pages m (n + 1) mem

/-- What `ib_umem_get` gives: the kernel addresses of the pages from `address` on. -/
structure Umem where
  address : Nat
  length : Nat
  pageShift : Nat
  /-- `page_address(sg_page(sg))`, `nmap` times. -/
  pages : List (Option Nat)
  pages_ne_nil : pages ≠ []
  nmap_lt : pages.length < 2 ^ 31
  pageShift_pos : 0 < pageShift
  pageShift_le : pageShift ≤ 30
  no_overflow : address + length < 2 ^ 64
  covers : address % 2 ^ pageShift + length ≤ pages.length * 2 ^ pageShift

def Umem.offset (umem : Umem) : Nat := umem.address &&& (2 ^ umem.pageShift - 1)

/-- The part of `rxe_mem_init_user` that writes the buffers, for a region that has bytes. -/
def userFill (umem : Umem) (mem : RxeMem) : Except MemStop RxeMem :=
  if 0 < umem.length then do
    mem.loadMap 0
    fillBufs (fun numBuf => mem.bufPerMap ≤ numBuf) (2 ^ umem.pageShift) umem.pages 0 0 mem
  else .ok mem

def rxeMemInitUser (mapShift : Nat) (umem : Option Umem) (iova : UInt64)
    (kmalloc : Option (Nat → Nat → PhysBuf)) : Except MemStop RxeMem :=
  match umem with
  | none => .error (.errno memEinval)
  | some umem => do
      let mem ← rxeMemAlloc (rxeMemInit mapShift) umem.pages.length kmalloc
      let mem ← userFill umem { mem with
        pageShift := umem.pageShift, pageMask := 2 ^ umem.pageShift - 1 }
      return { mem with
        length := umem.length, iova := iova, offset := umem.offset
        state := .valid, type := .mr }

def rxeMemInitFast (mapShift maxPages : Nat) (kmalloc : Option (Nat → Nat → PhysBuf)) :
    Except MemStop RxeMem := do
  let mem ← rxeMemAlloc (rxeMemInit mapShift) maxPages kmalloc
  return { mem with maxBuf := maxPages, state := .free, type := .mr }

/-- `rxe_mem_map_pages`. The length is computed as an `int` and stored as a `u64`. -/
def rxeMemMapPages (mem : RxeMem) (page : List Nat) (iova : UInt64) : Except MemStop RxeMem :=
  if mem.maxBuf < page.length then .error (.errno memEinval)
  else do
    mem.loadMap 0
    let mem ← fillBufs (fun numBuf => numBuf == mem.bufPerMap) (2 ^ mem.pageShift)
      (page.map some) 0 0 mem
    return { mem with
      iova := iova
      length := (I32.wrap (page.length * 2 ^ mem.pageShift : Nat) % 2 ^ 64).toNat
      state := .valid }

/-- The walk of `lookup_iova`, with the buffers that are left from `map[m]->buf + n` on. -/
def lookupWalk (mem : RxeMem) : Nat → Nat → Nat → Nat → Except MemStop (Nat × Nat × Nat)
  | 0, _, _, _ => .error .fault
  | left + 1, m, n, offset => do
      let buf ← mem.bufAt m n
      if buf.size ≤ offset then
        if n + 1 = mem.bufPerMap then lookupWalk mem left (m + 1) 0 (offset - buf.size)
        else lookupWalk mem left m (n + 1) (offset - buf.size)
      else return (m, n, offset)

/-- `lookup_iova`: the map, the buffer and the offset in it. The two indices are `int`s, and one
that is negative is a fault like one that is too large. -/
def lookupIova (mem : RxeMem) (iova : UInt64) : Except MemStop (Nat × Nat × Nat) :=
  let offset := ((iova - mem.iova).toNat + mem.offset) % 2 ^ 64
  if mem.pageShift ≠ 0 then
    let page := offset >>> mem.pageShift
    .ok ((page >>> mem.mapShift) % 2 ^ 32, page &&& mem.mapMask, offset &&& mem.pageMask)
  else lookupWalk mem (mem.numMap * mem.bufPerMap) 0 0 offset

def iovaToVaddr (mem : RxeMem) (iova : UInt64) (length : Nat) : Except MemStop (Option Nat) :=
  if mem.state ≠ .valid then .ok none
  else if mem.map.isNone then .ok (some iova.toNat)
  else if memCheckRange mem iova length ≠ 0 then .ok none
  else do
    let (m, n, offset) ← lookupIova mem iova
    let buf ← mem.bufAt m n
    if buf.size < offset + length then return none
    else return some (buf.addr + offset)

inductive CopyDirection where
  | toMemObj
  | fromMemObj
  deriving Repr, DecidableEq

/-- The bytes of the kernel's memory, where the pages are, and those of the caller's buffer,
counted from its start. -/
structure CopyBytes where
  memory : Nat → UInt8
  addr : Nat → UInt8

namespace CopyBytes

/-- `memcpy(dest, src, bytes)` between `va` and the place `pos` of the buffer. -/
def memcpy (st : CopyBytes) (dir : CopyDirection) (va pos bytes : Nat) : CopyBytes :=
  match dir with
  | .toMemObj =>
    { st with memory := fun a => if va ≤ a ∧ a < va + bytes then st.addr (pos + (a - va))
                                 else st.memory a }
  | .fromMemObj =>
    { st with addr := fun k => if pos ≤ k ∧ k < pos + bytes then st.memory (va + (k - pos))
                               else st.addr k }

def dest (st : CopyBytes) (dir : CopyDirection) (va pos bytes : Nat) : List UInt8 :=
  (List.range bytes).map fun k =>
    match dir with
    | .toMemObj => st.memory (va + k)
    | .fromMemObj => st.addr (pos + k)

end CopyBytes

/-- `rxe_crc32`, a checksum that is carried on from byte to byte. -/
structure Crc32 where
  update : UInt32 → List UInt8 → UInt32
  update_nil : ∀ crc, update crc [] = crc
  update_append : ∀ crc xs ys, update (update crc xs) ys = update crc (xs ++ ys)

/-- The loop of `rxe_mem_copy`, with the buffers that are left from `map[m]->buf + i` on. -/
def memCopyLoop (crc32 : Crc32) (mem : RxeMem) (dir : CopyDirection) :
    Nat → Nat → Nat → Nat → Nat → Nat → CopyBytes × Option UInt32 →
      Except MemStop (CopyBytes × Option UInt32)
  | 0, _, _, _, length, _, st => if length = 0 then .ok st else .error .fault
  | left + 1, m, i, offset, length, pos, (st, crc) =>
    if length = 0 then .ok (st, crc)
    else do
      let buf ← mem.bufAt m i
      let bytes := min (I32.wrap (((buf.size : Int) - offset) % 2 ^ 64)) length
      -- a negative number of bytes is nearly all of the memory to `memcpy`
      if bytes < 0 then throw .fault
      let bytes := bytes.toNat
      let st := st.memcpy dir (buf.addr + offset) pos bytes
      let crc := crc.map fun c => crc32.update c (st.dest dir (buf.addr + offset) pos bytes)
      if i + 1 = mem.bufPerMap then
        -- `map++`, also when no byte is left
        mem.loadMap (m + 1)
        memCopyLoop crc32 mem dir left (m + 1) 0 0 (length - bytes) (pos + bytes) (st, crc)
      else memCopyLoop crc32 mem dir left m (i + 1) 0 (length - bytes) (pos + bytes) (st, crc)

/-- `rxe_mem_copy`. The checksum is there when `crcp` is not `NULL`. -/
def rxeMemCopy (crc32 : Crc32) (mem : RxeMem) (iova : UInt64) (length : Nat)
    (dir : CopyDirection) (st : CopyBytes) (crcp : Option UInt32) :
    Except MemStop (CopyBytes × Option UInt32) :=
  if length = 0 then .ok (st, crcp)
  else if mem.type = .dma then
    let st := st.memcpy dir iova.toNat 0 length
    .ok (st, crcp.map fun c => crc32.update c (st.dest dir iova.toNat 0 length))
  else if memCheckRange mem iova length ≠ 0 then .error (.errno memEfault)
  else do
    let (m, i, offset) ← lookupIova mem iova
    -- `buf = map[m]->buf + i`
    mem.loadMap m
    memCopyLoop crc32 mem dir (mem.numMap * mem.bufPerMap) m i offset length 0 (st, crcp)

end Rxe.Mr
