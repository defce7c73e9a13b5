-- SUMMARY: What rxe checks of a received datagram before it computes the ICRC.
import OfaKernel.Rxe.Qp

/-!
# Receiving a datagram

A packet is the part of a UDP datagram behind the UDP header. Its length is compared with what
its headers need, but the length compared is that of the datagram with the UDP header.
-/

namespace Rxe.Recv

/-! ## The table of opcodes -/

/-- The headers behind the BTH. -/
inductive Header where
  | rdeth
  | deth
  | reth
  | aeth
  | atmack
  | atmeth
  | ieth
  | immdt
  deriving Repr, DecidableEq

/-- `enum rxe_hdr_length`. -/
def Header.bytes : Header → Nat
  | .rdeth => 4
  | .deth => 8
  | .reth => 16
  | .aeth => 4
  | .atmack => 8
  | .atmeth => 28
  | .ieth => 4
  | .immdt => 4

def bthBytes : Nat := 12
def icrcSize : Nat := 4

/-- The headers an operation has with any transport. -/
def opHeaders : Op → List Header
  | .sendFirst | .sendMiddle | .sendLast | .sendOnly => []
  | .sendLastWithImmediate | .sendOnlyWithImmediate => [.immdt]
  | .rdmaWriteFirst | .rdmaWriteOnly => [.reth]
  | .rdmaWriteMiddle | .rdmaWriteLast => []
  | .rdmaWriteLastWithImmediate => [.immdt]
  | .rdmaWriteOnlyWithImmediate => [.reth, .immdt]
  | .rdmaReadRequest => [.reth]
  | .rdmaReadResponseFirst | .rdmaReadResponseLast | .rdmaReadResponseOnly => [.aeth]
  | .rdmaReadResponseMiddle => []
  | .acknowledge => [.aeth]
  | .atomicAcknowledge => [.aeth, .atmack]
  | .compareSwap | .fetchAdd => [.atmeth]
  | .sendLastWithInvalidate | .sendOnlyWithInvalidate => [.ieth]

/-- The headers in front of these, those of datagrams. -/
def transportHeaders (o : Opcode) : List Header :=
  match o.transport with
  | .rc | .uc => []
  | .rd => if o.op.mask.reqMask then [.rdeth, .deth] else [.rdeth]
  | .ud => [.deth]

/-- What `rxe_opcode` has of an opcode here. -/
structure OpcodeInfo where
  reqMask : Bool := false
  length : Nat := 0
  dethOffset : Nat := 0
  payloadOffset : Nat := 0
  deriving Repr, DecidableEq

def headersLength (headers : List Header) : Nat := (headers.map Header.bytes).sum

/-- The entry of an opcode. The two acknowledges of RD name no place for a payload. -/
def opcodeInfo (o : Opcode) : OpcodeInfo :=
  let length := bthBytes + headersLength (transportHeaders o ++ opHeaders o.op)
  { reqMask := o.op.mask.reqMask
    length := length
    dethOffset :=
      match o.transport with
      | .rc | .uc => 0
      | .rd => if o.op.mask.reqMask then bthBytes + Header.rdeth.bytes else 0
      | .ud => bthBytes
    payloadOffset :=
      if o.transport = .rd ∧ (o.op = .acknowledge ∨ o.op = .atomicAcknowledge) then 0
      else length }

/-- The opcodes by their codes. -/
def allOps : List Op :=
  [.sendFirst, .sendMiddle, .sendLast, .sendLastWithImmediate, .sendOnly, .sendOnlyWithImmediate,
    .rdmaWriteFirst, .rdmaWriteMiddle, .rdmaWriteLast, .rdmaWriteLastWithImmediate, .rdmaWriteOnly,
    .rdmaWriteOnlyWithImmediate, .rdmaReadRequest, .rdmaReadResponseFirst,
    .rdmaReadResponseMiddle, .rdmaReadResponseLast, .rdmaReadResponseOnly, .acknowledge,
    .atomicAcknowledge, .compareSwap, .fetchAdd, .sendLastWithInvalidate, .sendOnlyWithInvalidate]

def allOpcodes : List Opcode :=
  [Transport.rc, .uc, .rd, .ud].flatMap fun t => allOps.map fun op => ⟨t, op⟩

/-- `rxe_opcode[code]`. An entry that is not written is zero. -/
def rxeOpcode (code : Nat) : OpcodeInfo :=
  match allOpcodes.find? fun o => o.code = code ∧ o.defined with
  | some o => opcodeInfo o
  | none => {}

example : rxeOpcode 0x64 = ⟨true, 20, 12, 20⟩ := by decide
example : rxeOpcode 0x51 = ⟨false, 20, 0, 0⟩ := by decide

/-! ## The datagram and the device -/

/-- The addresses of the IP header. -/
inductive IpHdr where
  | v4 (saddr daddr : UInt32)
  | v6 (saddr daddr : BitVec 128)
  deriving Repr, DecidableEq

/-- A datagram in a linear buffer. `hdr` are the bytes behind the UDP header, those behind the end
of the buffer included. -/
structure Datagram where
  ip : IpHdr
  /-- The length in the UDP header, and of the buffer from there on (`skb->len`). -/
  udpLen : Nat
  hdr : Nat → UInt8
  udp_le : 8 ≤ udpLen
  udp_lt : udpLen < 2 ^ 16

inductive QpType where
  | rc
  | uc
  | ud
  | smi
  | gsi
  | other
  deriving Repr, DecidableEq

/-- A QP as the receiver sees it. The two ends of its address vector are there for IPv4 and for
IPv6. -/
structure RecvQp where
  valid : Bool
  type : QpType
  respState : QpState
  reqState : QpState
  portNum : Nat
  pkeyIndex : Nat
  qkey : Nat
  sgidIn : UInt32 := 0
  dgidIn : UInt32 := 0
  sgidIn6 : BitVec 128 := 0
  dgidIn6 : BitVec 128 := 0

/-- The device and its port. -/
structure RecvDev where
  findGid : BitVec 128 → Bool
  qpGsiIndex : Nat
  pkeyTblLen : Nat
  pkeyTbl : Nat → Nat
  qpPool : Nat → Option RecvQp

namespace Datagram

variable (d : Datagram)

def be16 (offset : Nat) : Nat := (d.hdr offset).toNat * 2 ^ 8 + (d.hdr (offset + 1)).toNat
def be32 (offset : Nat) : Nat := d.be16 offset * 2 ^ 16 + d.be16 (offset + 2)

def bthOpcode : Nat := (d.hdr 0).toNat
def bthPad : Nat := ((d.hdr 1).toNat &&& 0x30) >>> 4
def bthTver : Nat := (d.hdr 1).toNat &&& 0x0f
def bthPkey : Nat := d.be16 2
def bthQpn : Nat := d.be32 4 &&& 0x00ffffff

def info : OpcodeInfo := rxeOpcode d.bthOpcode
def dethQkey : Nat := d.be32 d.info.dethOffset

def paylen : Nat := d.udpLen - 8

/-- `payload_size`, as a number and not as a `size_t`. -/
def payloadSize : Int := d.paylen - d.info.payloadOffset - d.bthPad - icrcSize

end Datagram

/-! ## The checks of the headers -/

def multicastQpn : Nat := 0xffffff
def gsiQkey : Nat := 0x80010000

def stateOrder : QpState → Nat
  | .reset => 0
  | .init => 1
  | .ready => 2
  | .drain => 3
  | .drained => 4
  | .error => 5

def checkTypeState (opcode : Nat) (reqMask : Bool) (qp : RecvQp) : Bool :=
  qp.valid &&
  (match qp.type with
    -- `IB_OPCODE_RC` is 0, so no opcode is refused
    | .rc => decide (opcode &&& Transport.rc.code = 0)
    | .uc => decide (opcode &&& Transport.uc.code ≠ 0)
    | .ud | .smi | .gsi => decide (opcode &&& Transport.ud.code ≠ 0)
    | .other => false) &&
  (if reqMask then decide (qp.respState = .ready)
    else decide (stateOrder .ready ≤ stateOrder qp.reqState ∧
      stateOrder qp.reqState ≤ stateOrder .drained))

def pkeyMatch (key1 key2 : Nat) : Bool :=
  decide (key1 &&& 0x7fff ≠ 0) && decide (key1 &&& 0x7fff = key2 &&& 0x7fff) &&
    (decide (key1 &&& 0x8000 ≠ 0) || decide (key2 &&& 0x8000 ≠ 0))

/-- The counter of the port that a failed check counts up. -/
inductive KeyViolation where
  | badPkey
  | badQkey
  deriving Repr, DecidableEq

/-- `check_keys`: the index of the P_Key. The mask of a packet is never zero, as the GRH bit is
set on all of them. -/
def checkKeys (dev : RecvDev) (d : Datagram) (qpn : Nat) (qp : RecvQp) :
    Except KeyViolation Nat := do
  let pkeyIndex ←
    if qpn = 1 then
      match (List.range dev.pkeyTblLen).find? fun i => pkeyMatch d.bthPkey (dev.pkeyTbl i) with
      | none => throw .badPkey
      | some i => pure i
    else if pkeyMatch d.bthPkey (dev.pkeyTbl qp.pkeyIndex) then pure qp.pkeyIndex
    else throw .badPkey
  if (qp.type = .ud ∨ qp.type = .gsi) ∧
      d.dethQkey ≠ (if qpn = 1 then gsiQkey else qp.qkey) then throw .badQkey
  return pkeyIndex

/-- `check_addr` returned 0. Every packet comes in on port 1. -/
def checkAddr (d : Datagram) (qp : RecvQp) : Bool :=
  if qp.type ≠ .rc ∧ qp.type ≠ .uc then true
  else if qp.portNum ≠ 1 then false
  else
    match d.ip with
    | .v4 saddr daddr => daddr = qp.sgidIn ∧ saddr = qp.dgidIn
    | .v6 saddr daddr => daddr = qp.sgidIn6 ∧ saddr = qp.dgidIn6

def matchDgid (dev : RecvDev) (d : Datagram) : Bool :=
  match d.ip with
  | .v4 _ daddr => dev.findGid (0xffff00000000#128 ||| daddr.toBitVec.setWidth 128)
  | .v6 _ daddr => dev.findGid daddr

/-- `hdr_check`: the index of the QP, or `none` for the multicast QPN; no result when a check
fails. -/
def hdrCheck (dev : RecvDev) (d : Datagram) : Option (Option Nat) :=
  if d.bthTver ≠ 0 then none
  else if d.bthQpn = 0 then none
  else if d.bthQpn ≠ multicastQpn then
    let index := if d.bthQpn = 1 then dev.qpGsiIndex else d.bthQpn
    match dev.qpPool index with
    | none => none
    | some qp =>
      if !checkTypeState d.bthOpcode d.info.reqMask qp then none
      else if !checkAddr d qp then none
      else
        match checkKeys dev d d.bthQpn qp with
        | .error _ => none
        | .ok _ => some (some index)
  else some none

/-- Where a received packet goes. -/
inductive RcvResult where
  /-- It is dropped before its ICRC is computed. -/
  | drop
  | badIcrc
  /-- It is queued to the QP of the index, or to the QPs of the group. -/
  | queue (qp : Option Nat)
  deriving Repr, DecidableEq

/-- `rxe_rcv`, with the ICRC over headers and payload as the function `icrc` of the buffer. It is
compared with the four bytes in front of the end. -/
def rxeRcv (icrc : Datagram → Nat) (dev : RecvDev) (d : Datagram) : RcvResult :=
  if d.udpLen < bthBytes then .drop
  else if !matchDgid dev d then .drop
  else if d.udpLen < d.info.length then .drop
  else
    match hdrCheck dev d with
    | none => .drop
    | some qp => if icrc d ≠ d.be32 (d.paylen - icrcSize) then .badIcrc else .queue qp

/-! ## The lengths -/

/-- The headers, the pad bytes and the ICRC are in the buffer, the payload is not negative, and it
ends with them in the buffer. -/
structure LengthsFit (d : Datagram) : Prop where
  headers : max bthBytes d.info.length + d.bthPad + icrcSize ≤ d.paylen
  payload : 0 ≤ d.payloadSize
  ends : d.info.payloadOffset + d.payloadSize + d.bthPad + icrcSize ≤ d.paylen

/-- The payload starts no later than the headers end. -/
theorem payloadOffset_le (code : Nat) :
    (rxeOpcode code).payloadOffset ≤ (rxeOpcode code).length := by
  unfold rxeOpcode
  split
  case h_1 o _ =>
    unfold opcodeInfo
    dsimp only
    split
    · exact Nat.zero_le _
    · exact Nat.le_refl _
  case h_2 => exact Nat.le_refl 0

/-- The lengths fit when the datagram has room for the UDP header beside the headers of the packet,
the pad bytes and the ICRC. -/
theorem lengthsFit_iff (d : Datagram) :
    LengthsFit d ↔ 8 + max bthBytes d.info.length + d.bthPad + icrcSize ≤ d.udpLen := by
  have hudp := d.udp_le
  have hoffset : d.info.payloadOffset ≤ d.info.length := payloadOffset_le d.bthOpcode
  have hpaylen : d.paylen = d.udpLen - 8 := rfl
  have hpayload : d.payloadSize = d.paylen - d.info.payloadOffset - d.bthPad - icrcSize := rfl
  constructor
  · rintro ⟨hheaders, -, -⟩
    omega
  · intro hle
    exact ⟨by omega, by omega, by omega⟩

/-- The datagram is dropped by a check of the code: it is shorter than the headers are without the
UDP header, or its addresses or headers are refused. -/
def Refused (dev : RecvDev) (d : Datagram) : Prop :=
  d.udpLen < max bthBytes d.info.length ∨ matchDgid dev d = false ∨ hdrCheck dev d = none

theorem rxeRcv_eq_drop_iff (icrc : Datagram → Nat) (dev : RecvDev) (d : Datagram) :
    rxeRcv icrc dev d = .drop ↔ Refused dev d := by
  unfold rxeRcv Refused
  by_cases hbth : d.udpLen < bthBytes
  · rw [if_pos hbth]
    exact ⟨fun _ => .inl (lt_max_of_lt_left hbth), fun _ => rfl⟩
  · rw [if_neg hbth]
    cases hgid : matchDgid dev d with
    | false => simp
    | true =>
      by_cases hlen : d.udpLen < d.info.length
      · simp [hlen]
      · cases hhdr : hdrCheck dev d with
        | none => simp
        | some qp =>
          have hfits : ¬d.udpLen < max bthBytes d.info.length := by omega
          simp only [Bool.not_true, Bool.false_eq_true, if_false, if_neg hlen, hfits, false_or,
            reduceCtorEq, iff_false]
          split
          all_goals exact nofun

/-- What goes on to the ICRC fits exactly when the datagram is longer than its parts by the UDP
header, or is refused before. -/
theorem received_fits_iff (icrc : Datagram → Nat) (dev : RecvDev) (d : Datagram) :
    (rxeRcv icrc dev d ≠ .drop → LengthsFit d) ↔
      Refused dev d ∨ 8 + max bthBytes d.info.length + d.bthPad + icrcSize ≤ d.udpLen := by
  rw [← lengthsFit_iff, ← rxeRcv_eq_drop_iff icrc]
  exact or_iff_not_imp_left.symm

/-- A connected QP of number 17 that is ready, with its address vector. -/
def readyQp : RecvQp :=
  { valid := true, type := .rc, respState := .ready, reqState := .ready, portNum := 1
    pkeyIndex := 0, qkey := 0, sgidIn := 0x0a000002, dgidIn := 0x0a000001 }

def readyDev : RecvDev :=
  { findGid := fun gid => gid = 0xffff0a000002#128
    qpGsiIndex := 1, pkeyTblLen := 1, pkeyTbl := fun _ => 0xffff
    qpPool := fun index => if index = 17 then some readyQp else none }

/-- A BTH of RC SEND_ONLY for it, and nothing behind it. -/
def bthOnly : Datagram :=
  { ip := .v4 0x0a000001 0x0a000002
    udpLen := 20
    hdr := fun k => [0x04, 0, 0xff, 0xff, 0, 0, 0, 17, 0, 0, 0, 0].getD k 0
    udp_le := by decide
    udp_lt := by decide }

/-- Its payload has the size -4. -/
theorem bthOnly_not_fits :
    ¬∀ (icrc : Datagram → Nat) (dev : RecvDev) (d : Datagram),
      rxeRcv icrc dev d ≠ .drop → LengthsFit d := by
  intro hall
  have hpass : rxeRcv (fun _ => 0) readyDev bthOnly ≠ .drop := by decide +kernel
  have hfits := (hall (fun _ => 0) readyDev bthOnly hpass).payload
  exact absurd hfits (by decide)

end Rxe.Recv
