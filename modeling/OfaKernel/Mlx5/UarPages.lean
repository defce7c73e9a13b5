-- SUMMARY: The mlx5 doorbell-register allocator.
import OfaKernel.Mlx5.PageAlloc

/-!
# Doorbell registers

A UAR page is made of adapter pages with four registers each: two regular ones and two for the
fast path. While both kinds are available the page hangs on one of two lists. A page is named by
its address; what would corrupt memory is a `Fault`.
-/

namespace Mlx5

def bfregsPerUar : Nat := 4

def nonFpBfregsPerUar : Nat := 2

def fpBfregsPerUar : Nat := bfregsPerUar - nonFpBfregsPerUar

def adapterPageShift : Nat := 12

def bfOffset : Nat := 0x800

def errAGAIN : Int := -11

/-- The capabilities that the allocator reads. The registers of an adapter page fit behind
their offset, and the UARs of a system page are addressed by an `int`. -/
structure UarCaps where
  uar4k : Bool
  numOfUarsPerPage : Nat
  logBfRegSize : Nat
  uars_pos : uar4k = true → 0 < numOfUarsPerPage
  uars_fit : uar4k = true → numOfUarsPerPage * adapterPageSize ≤ 2 ^ 31
  bfregs_fit : bfOffset + bfregsPerUar * 2 ^ logBfRegSize ≤ adapterPageSize

namespace UarCaps

def uarsPerSysPage (caps : UarCaps) : Nat :=
  if caps.uar4k then caps.numOfUarsPerPage else 1

/-- `bfregs` of `alloc_uars_page`. -/
def bfregs (caps : UarCaps) : Nat := caps.uarsPerSysPage * bfregsPerUar

def mapOffset (caps : UarCaps) (dbi : Nat) : Nat :=
  dbi / bfregsPerUar * adapterPageSize + dbi % bfregsPerUar * 2 ^ caps.logBfRegSize + bfOffset

end UarCaps

/-! ## Pages and registers -/

structure UarsPage where
  map : Nat
  index : Nat
  bfregs : Nat
  regBitmap : Bitmap
  fpBitmap : Bitmap
  regAvail : Nat
  fpAvail : Nat
  refCount : Nat

namespace UarsPage

/-- The bitmap that a call works on. -/
def bitmap (up : UarsPage) (fp : Bool) : Bitmap := if fp then up.fpBitmap else up.regBitmap

/-- The counter that a call works on. -/
def avail (up : UarsPage) (fp : Bool) : Nat := if fp then up.fpAvail else up.regAvail

/-- The page with a new bitmap and counter of one kind. -/
def update (up : UarsPage) (fp : Bool) (bitmap : Bitmap) (avail : Nat) : UarsPage :=
  if fp then { up with fpBitmap := bitmap, fpAvail := avail }
  else { up with regBitmap := bitmap, regAvail := avail }

def krefGet (up : UarsPage) : UarsPage := { up with refCount := up.refCount + 1 }

end UarsPage

structure SqBfreg where
  map : Nat
  up : Nat
  wc : Bool
  index : Nat
deriving DecidableEq

inductive UarFault
  | addedTwice
  | notListed
  | noBit
  | released
  | refCount

/-- `struct mlx5_bfreg_data`, with the pages it points to. -/
structure BfregData where
  page : Nat → Option UarsPage
  regHead : List Nat
  wcHead : List Nat

namespace BfregData

def init : BfregData := ⟨fun _ => none, [], []⟩

/-- The list for pages mapped write-combining or not. -/
def head (s : BfregData) (wc : Bool) : List Nat := if wc then s.wcHead else s.regHead

def setHead (s : BfregData) (wc : Bool) (l : List Nat) : BfregData :=
  if wc then { s with wcHead := l } else { s with regHead := l }

def deref (s : BfregData) (a : Nat) : Except UarFault UarsPage :=
  match s.page a with
  | some up => .ok up
  | none => .error .released

def setPage (s : BfregData) (a : Nat) (up : UarsPage) : BfregData :=
  { s with page := Function.update s.page a (some up) }

def listAdd (s : BfregData) (wc : Bool) (a : Nat) : Except UarFault BfregData :=
  if a ∈ s.regHead ∨ a ∈ s.wcHead then .error .addedTwice
  else .ok (s.setHead wc (a :: s.head wc))

def listAddTail (s : BfregData) (wc : Bool) (a : Nat) : Except UarFault BfregData :=
  if a ∈ s.regHead ∨ a ∈ s.wcHead then .error .addedTwice
  else .ok (s.setHead wc (s.head wc ++ [a]))

/-- `list_del`, from whichever list the page is on. -/
def listDel (s : BfregData) (a : Nat) : Except UarFault BfregData :=
  if a ∈ s.regHead then .ok { s with regHead := s.regHead.erase a }
  else if a ∈ s.wcHead then .ok { s with wcHead := s.wcHead.erase a }
  else .error .notListed

def upRelFunc (s : BfregData) (a : Nat) : Except UarFault BfregData :=
  match s.listDel a with
  | .error f => .error f
  | .ok s => .ok { s with page := Function.update s.page a none }

def krefPut (s : BfregData) (a : Nat) : Except UarFault BfregData :=
  match s.deref a with
  | .error f => .error f
  | .ok up =>
    match up.refCount with
    | 0 => .error .refCount
    | 1 => s.upRelFunc a
    | n + 2 => .ok (s.setPage a { up with refCount := n + 1 })

end BfregData

/-! ## Allocating a page -/

/-- What the kernel and the device answer while a page is allocated. -/
structure UarAnswers where
  kzalloc : Option Nat
  regBitmap : Bool
  fpBitmap : Bool
  cmdAllocUar : Except Int Nat
  ioremap : Option Nat

/-- The loop of `alloc_uars_page`: the regular bitmap and the fast-path bitmap. -/
def initBitmaps (bfregs : Nat) : Bitmap × Bitmap :=
  (List.range bfregs).foldl
    (fun maps i =>
      if i % bfregsPerUar < nonFpBfregsPerUar then (maps.1.setBit i, maps.2)
      else (maps.1, maps.2.setBit i))
    (Bitmap.zero, Bitmap.zero)

def allocUarsPage (caps : UarCaps) (mapWc : Bool) (ans : UarAnswers) :
    Except Int (Nat × UarsPage) :=
  match ans.kzalloc with
  | none => .error errNOMEM
  | some a =>
    if ans.regBitmap && ans.fpBitmap then
      match ans.cmdAllocUar with
      | .error err => .error err
      | .ok index =>
        match ans.ioremap with
        | none => .error (if mapWc then errAGAIN else errNOMEM)
        | some map =>
          .ok (a,
            { map, index
              bfregs := caps.bfregs
              regBitmap := (initBitmaps caps.bfregs).1
              fpBitmap := (initBitmaps caps.bfregs).2
              regAvail := caps.bfregs * nonFpBfregsPerUar / bfregsPerUar
              fpAvail := caps.bfregs * fpBfregsPerUar / bfregsPerUar
              refCount := 1 })
    else .error errNOMEM

section

variable (caps : UarCaps)

def getUarsPage (s : BfregData) (ans : UarAnswers) :
    Except UarFault (BfregData × Except Int Nat) :=
  match s.regHead with
  | a :: _ =>
    match s.deref a with
    | .error f => .error f
    | .ok up => .ok (s.setPage a up.krefGet, .ok a)
  | [] =>
    match allocUarsPage caps false ans with
    | .error err => .ok (s, .error err)
    | .ok (a, up) =>
      match (s.setPage a up).listAdd false a with
      | .error f => .error f
      | .ok s => .ok (s, .ok a)

def putUarsPage (s : BfregData) (a : Nat) : Except UarFault BfregData := s.krefPut a

/-- The end of `alloc_bfreg`, on the page at `a`. The number of the register, `dbi`, is
returned beside it. -/
def takeBfreg (s : BfregData) (a : Nat) (mapWc fastPath : Bool) :
    Except UarFault (BfregData × SqBfreg × Nat) :=
  match s.deref a with
  | .error f => .error f
  | .ok up =>
    let dbi := (up.bitmap fastPath).findFirstBit up.bfregs
    if up.bfregs ≤ dbi then .error .noBit
    else
      let avail := U32.dec (up.avail fastPath)
      let s := s.setPage a (up.update fastPath ((up.bitmap fastPath).clearBit dbi) avail)
      let bfreg : SqBfreg :=
        { map := up.map + caps.mapOffset dbi
          up := a
          wc := mapWc
          index := up.index + dbi / bfregsPerUar }
      if avail = 0 then
        match s.listDel a with
        | .error f => .error f
        | .ok s => .ok (s, bfreg, dbi)
      else .ok (s, bfreg, dbi)

def allocBfreg (s : BfregData) (mapWc fastPath : Bool) (ans : UarAnswers) :
    Except UarFault (BfregData × Except Int (SqBfreg × Nat)) :=
  match s.head mapWc with
  | [] =>
    match allocUarsPage caps mapWc ans with
    | .error err => .ok (s, .error err)
    | .ok (a, up) =>
      match (s.setPage a up).listAdd mapWc a with
      | .error f => .error f
      | .ok s => (takeBfreg caps s a mapWc fastPath).map fun (s, r) => (s, .ok r)
  | a :: _ =>
    match s.deref a with
    | .error f => .error f
    | .ok up =>
      (takeBfreg caps (s.setPage a up.krefGet) a mapWc fastPath).map fun (s, r) => (s, .ok r)

/-- `mlx5_alloc_bfreg`: where write-combining memory cannot be mapped, a register that is
not write-combining. `ans'` are the answers to the second attempt. -/
def mlx5AllocBfreg (s : BfregData) (mapWc fastPath : Bool) (ans ans' : UarAnswers) :
    Except UarFault (BfregData × Except Int (SqBfreg × Nat)) :=
  match allocBfreg caps s mapWc fastPath ans with
  | .error f => .error f
  | .ok (s, .ok r) => .ok (s, .ok r)
  | .ok (s, .error err) =>
    if err = errAGAIN ∧ mapWc = true then allocBfreg caps s false fastPath ans'
    else .ok (s, .error err)

def addrToDbiInSyspage (up : UarsPage) (bfreg : SqBfreg) : Nat :=
  let uarIdx := U32.wrap ((bfreg.map - up.map) >>> adapterPageShift)
  let bfregIdx := U32.wrap ((bfreg.map % adapterPageSize - bfOffset) / 2 ^ caps.logBfRegSize)
  U32.wrap (uarIdx * bfregsPerUar + bfregIdx)

def freeBfreg (s : BfregData) (bfreg : SqBfreg) : Except UarFault BfregData :=
  match s.deref bfreg.up with
  | .error f => .error f
  | .ok up =>
    let dbi := addrToDbiInSyspage caps up bfreg
    let fp := decide (nonFpBfregsPerUar ≤ dbi % bfregsPerUar)
    let avail := U32.inc (up.avail fp)
    let s := s.setPage bfreg.up (up.update fp ((up.bitmap fp).setBit dbi) avail)
    if avail = 1 then
      match s.listAddTail bfreg.wc bfreg.up with
      | .error f => .error f
      | .ok s => s.krefPut bfreg.up
    else s.krefPut bfreg.up

end

end Mlx5
