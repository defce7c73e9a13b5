-- SUMMARY: What rxe packets carry.
import Mathlib.Data.BitVec

/-!
# Packets

An opcode is a transport plus an operation (`ib_pack.h`); `rxe_opcode` gives each the mask bits
the state machines test, none where it is not defined. DETH and RDETH are left out.
-/

namespace Rxe

/-! ## Sequence numbers -/

/-- A packet sequence number. Whoever stores one masks it with `BTH_PSN_MASK`. -/
abbrev Psn := BitVec 24

def psnCompare (a b : Psn) : Int := ((a.setWidth 32 - b.setWidth 32) <<< 8).toInt

/-! ## Opcodes -/

inductive Transport where
  | rc
  | uc
  | rd
  | ud
  deriving Repr, DecidableEq

def Transport.code : Transport → Nat
  | .rc => 0x00
  | .uc => 0x20
  | .rd => 0x40
  | .ud => 0x60

inductive Op where
  | sendFirst
  | sendMiddle
  | sendLast
  | sendLastWithImmediate
  | sendOnly
  | sendOnlyWithImmediate
  | rdmaWriteFirst
  | rdmaWriteMiddle
  | rdmaWriteLast
  | rdmaWriteLastWithImmediate
  | rdmaWriteOnly
  | rdmaWriteOnlyWithImmediate
  | rdmaReadRequest
  | rdmaReadResponseFirst
  | rdmaReadResponseMiddle
  | rdmaReadResponseLast
  | rdmaReadResponseOnly
  | acknowledge
  | atomicAcknowledge
  | compareSwap
  | fetchAdd
  | sendLastWithInvalidate
  | sendOnlyWithInvalidate
  deriving Repr, DecidableEq

def Op.code : Op → Nat
  | .sendFirst => 0x00
  | .sendMiddle => 0x01
  | .sendLast => 0x02
  | .sendLastWithImmediate => 0x03
  | .sendOnly => 0x04
  | .sendOnlyWithImmediate => 0x05
  | .rdmaWriteFirst => 0x06
  | .rdmaWriteMiddle => 0x07
  | .rdmaWriteLast => 0x08
  | .rdmaWriteLastWithImmediate => 0x09
  | .rdmaWriteOnly => 0x0a
  | .rdmaWriteOnlyWithImmediate => 0x0b
  | .rdmaReadRequest => 0x0c
  | .rdmaReadResponseFirst => 0x0d
  | .rdmaReadResponseMiddle => 0x0e
  | .rdmaReadResponseLast => 0x0f
  | .rdmaReadResponseOnly => 0x10
  | .acknowledge => 0x11
  | .atomicAcknowledge => 0x12
  | .compareSwap => 0x13
  | .fetchAdd => 0x14
  | .sendLastWithInvalidate => 0x16
  | .sendOnlyWithInvalidate => 0x17

structure Opcode where
  transport : Transport
  op : Op
  deriving Repr, DecidableEq

instance : LawfulBEq (Option Opcode) := inferInstance

def Opcode.code (o : Opcode) : Nat := o.transport.code + o.op.code

/-- The bits of `enum rxe_hdr_mask` that the state machines test. -/
structure HdrMask where
  rethMask : Bool := false
  aethMask : Bool := false
  atmackMask : Bool := false
  iethMask : Bool := false
  immdtMask : Bool := false
  reqMask : Bool := false
  sendMask : Bool := false
  writeMask : Bool := false
  readMask : Bool := false
  atomicMask : Bool := false
  rwrMask : Bool := false
  compMask : Bool := false
  startMask : Bool := false
  endMask : Bool := false
  deriving Repr, DecidableEq

def Op.mask : Op → HdrMask
  | .sendFirst => { reqMask := true, rwrMask := true, sendMask := true, startMask := true }
  | .sendMiddle => { reqMask := true, sendMask := true }
  | .sendLast => { reqMask := true, compMask := true, sendMask := true, endMask := true }
  | .sendLastWithImmediate =>
    { immdtMask := true, reqMask := true, compMask := true, sendMask := true, endMask := true }
  | .sendOnly =>
    { reqMask := true, compMask := true, rwrMask := true, sendMask := true, startMask := true
      endMask := true }
  | .sendOnlyWithImmediate =>
    { immdtMask := true, reqMask := true, compMask := true, rwrMask := true, sendMask := true
      startMask := true, endMask := true }
  | .rdmaWriteFirst => { rethMask := true, reqMask := true, writeMask := true, startMask := true }
  | .rdmaWriteMiddle => { reqMask := true, writeMask := true }
  | .rdmaWriteLast => { reqMask := true, writeMask := true, endMask := true }
  | .rdmaWriteLastWithImmediate =>
    { immdtMask := true, reqMask := true, writeMask := true, compMask := true, rwrMask := true
      endMask := true }
  | .rdmaWriteOnly =>
    { rethMask := true, reqMask := true, writeMask := true, startMask := true, endMask := true }
  | .rdmaWriteOnlyWithImmediate =>
    { rethMask := true, immdtMask := true, reqMask := true, writeMask := true, compMask := true
      rwrMask := true, startMask := true, endMask := true }
  | .rdmaReadRequest =>
    { rethMask := true, reqMask := true, readMask := true, startMask := true, endMask := true }
  | .rdmaReadResponseFirst => { aethMask := true, startMask := true }
  | .rdmaReadResponseMiddle => {}
  | .rdmaReadResponseLast => { aethMask := true, endMask := true }
  | .rdmaReadResponseOnly => { aethMask := true, startMask := true, endMask := true }
  | .acknowledge => { aethMask := true, startMask := true, endMask := true }
  | .atomicAcknowledge =>
    { aethMask := true, atmackMask := true, startMask := true, endMask := true }
  | .compareSwap => { reqMask := true, atomicMask := true, startMask := true, endMask := true }
  | .fetchAdd => { reqMask := true, atomicMask := true, startMask := true, endMask := true }
  | .sendLastWithInvalidate =>
    { iethMask := true, reqMask := true, compMask := true, sendMask := true, endMask := true }
  | .sendOnlyWithInvalidate =>
    { iethMask := true, reqMask := true, compMask := true, rwrMask := true, sendMask := true
      startMask := true, endMask := true }

/-- The entries that `rxe_opcode` has. -/
def Opcode.defined (o : Opcode) : Bool :=
  match o.transport with
  | .rc => true
  | .uc =>
    o.op ∈ [.sendFirst, .sendMiddle, .sendLast, .sendLastWithImmediate, .sendOnly,
      .sendOnlyWithImmediate, .rdmaWriteFirst, .rdmaWriteMiddle, .rdmaWriteLast,
      .rdmaWriteLastWithImmediate, .rdmaWriteOnly, .rdmaWriteOnlyWithImmediate]
  | .rd => o.op ∉ [.sendLastWithInvalidate, .sendOnlyWithInvalidate]
  | .ud => o.op ∈ [.sendOnly, .sendOnlyWithImmediate]

def Opcode.mask (o : Opcode) : HdrMask := if o.defined then o.op.mask else {}

/-! ## Requests and responses -/

structure Reth where
  va : UInt64
  rkey : UInt32
  len : UInt32
  deriving Repr, DecidableEq

structure Atmeth where
  va : UInt64
  rkey : UInt32
  swapAdd : UInt64
  comp : UInt64
  deriving Repr, DecidableEq

/-- A request packet as the responder sees it. A header that the opcode does not
have is never read. -/
structure ReqPkt where
  opcode : Opcode
  psn : Psn
  ackReq : Bool := false
  pad : Nat := 0
  reth : Reth := ⟨0, 0, 0⟩
  atmeth : Atmeth := ⟨0, 0, 0, 0⟩
  ieth : UInt32 := 0
  imm : UInt32 := 0
  payload : List UInt8 := []
  deriving Repr, DecidableEq

def ReqPkt.mask (p : ReqPkt) : HdrMask := p.opcode.mask

def ReqPkt.payloadSize (p : ReqPkt) : Nat := p.payload.length

/-- A response packet: `syn` and `msn` are those of the AETH, `orig` that of the
atomic acknowledge. -/
structure RespPkt where
  opcode : Opcode
  psn : Psn
  syn : UInt8 := 0
  msn : UInt32 := 0
  orig : UInt64 := 0
  payload : List UInt8 := []
  deriving Repr, DecidableEq

def RespPkt.mask (p : RespPkt) : HdrMask := p.opcode.mask

def aethTypeMask : UInt8 := 0xe0
def aethAck : UInt8 := 0x00
def aethRnrNak : UInt8 := 0x20
def aethNak : UInt8 := 0x60
def aethAckUnlimited : UInt8 := 0x1f
def aethNakPsnSeqError : UInt8 := 0x60
def aethNakInvalidReq : UInt8 := 0x61
def aethNakRemAccErr : UInt8 := 0x62
def aethNakRemOpErr : UInt8 := 0x63

/-! ## Memory regions -/

inductive MemType where
  | none
  | dma
  | mr
  | fmr
  | mw
  deriving Repr, DecidableEq

inductive MemState where
  | zombie
  | invalid
  | free
  | valid
  deriving Repr, DecidableEq

inductive Access where
  | remoteRead
  | remoteWrite
  | remoteAtomic
  deriving Repr, DecidableEq

/-- `struct rxe_mem`, as far as lookup and range checks read it. `samePd` says
that the region belongs to the protection domain of the QP. -/
structure RxeMem where
  type : MemType
  state : MemState
  rkey : UInt32
  access : List Access
  samePd : Bool
  iova : UInt64
  length : UInt64
  deriving Repr, DecidableEq

abbrev MrPool := Nat → Option RxeMem

def memCheckRange (mem : RxeMem) (iova length : UInt64) : Bool :=
  match mem.type with
  | .dma => true
  | .mr | .fmr =>
    !(iova < mem.iova || length > mem.length || iova > mem.iova + mem.length - length)
  | .none | .mw => false

def lookupMem (mrs : MrPool) (access : Access) (key : UInt32) : Option Nat :=
  let index := (key >>> 8).toNat
  match mrs index with
  | none => none
  | some mem =>
    if mem.rkey ≠ key ∨ mem.samePd = false ∨ access ∉ mem.access ∨ mem.state ≠ .valid then none
    else some index

/-- How a call of `rxe_mem_copy` ends. `oops` is an access through a NULL region
or a copy with a negative length. -/
inductive CopyResult where
  | ok
  | err
  | oops
  deriving Repr, DecidableEq

/-- `rxe_mem_copy` for the region `mr`, NULL if there is none. -/
def rxeMemCopy (mrs : MrPool) (mr : Option Nat) (iova : UInt64) (length : Int) : CopyResult :=
  if length = 0 then .ok
  else
    match mr.bind mrs with
    | none => .oops
    | some mem =>
      if mem.type = .dma then (if length < 0 then .oops else .ok)
      else if memCheckRange mem iova (.ofNat (length % 2 ^ 64).toNat) then .ok
      else .err

/-- `ib_mtu_enum_to_int`. -/
inductive IbMtu where
  | mtu256
  | mtu512
  | mtu1024
  | mtu2048
  | mtu4096
  deriving Repr, DecidableEq

def IbMtu.toNat : IbMtu → Nat
  | .mtu256 => 256
  | .mtu512 => 512
  | .mtu1024 => 1024
  | .mtu2048 => 2048
  | .mtu4096 => 4096

end Rxe
