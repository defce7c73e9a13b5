-- SUMMARY: A pass of the rxe requester over one work element.
import OfaKernel.Rxe.Requester
import OfaKernel.Rxe.SendDma

/-!
# A failed transmission

The pass saves the state and the PSNs of the element before it sends and puts them back when
sending fails; `save_state` does not know of the bytes taken. A pass is from the check of the PSN
window to the next jump to `next_wqe`. The payload is an `int`, and no buffer is allocated for a
negative one; lengths within 19 bytes of 2^32, for which the headers make up a buffer, are left out.
-/

namespace Rxe

inductive SendQpType where
  | rc
  | uc
  | ud
  deriving Repr, DecidableEq

def SendQpType.transport : SendQpType → Transport
  | .rc => .rc
  | .uc => .uc
  | .ud => .ud

/-- `struct rxe_send_wqe` with its scatter list. -/
structure DmaWqe where
  opcode : WrOpcode
  sendInline : Bool := false
  remoteAddr : UInt64 := 0
  rkey : UInt32 := 0
  compareAdd : UInt64 := 0
  swap : UInt64 := 0
  imm : UInt32 := 0
  invalidateRkey : UInt32 := 0
  dma : DmaInfo
  iova : UInt64 := 0
  state : WqeState := .posted
  status : SendStatus := .success
  firstPsn : Psn := 0
  lastPsn : Psn := 0
  hasRdAtomic : Bool := false
  deriving Repr, DecidableEq

/-- What the requester reads and writes of its QP. `compPsn` is `comp.psn`, `portMtu` is
`port.mtu_cap`, and `ready` tells whether `req.state` is `QP_STATE_READY`. -/
structure SendQp where
  qpType : SendQpType
  pathMtu : IbMtu
  portMtu : IbMtu := .mtu4096
  psn : Psn := 0
  compPsn : Psn := 0
  opcode : Option Opcode := none
  wqeIndex : Nat := 0
  noackPkts : Nat := 0
  rdAtomic : Int := 0
  needRdAtomic : Bool := false
  waitPsn : Bool := false
  needReqSkb : Bool := false
  ready : Bool := true
  deriving Repr, DecidableEq

/-- The local regions, which bytes are copied from into a packet. -/
abbrev LocalMem := SgeMem (List UInt8)

/-- What a pass leaves, and the packet that it has built and filled. -/
structure PassResult where
  qp : SendQp
  wqe : DmaWqe
  built : Option ReqPkt := none
  deriving Repr, DecidableEq

namespace SendQp

def mtu (qp : SendQp) : Nat := qp.pathMtu.toNat

/-! ## The next opcode -/

def inSendUc (o : Option Opcode) : Bool := o ∈ [some ⟨.uc, .sendFirst⟩, some ⟨.uc, .sendMiddle⟩]

def inWriteUc (o : Option Opcode) : Bool :=
  o ∈ [some ⟨.uc, .rdmaWriteFirst⟩, some ⟨.uc, .rdmaWriteMiddle⟩]

def nextOpcodeUc (reqOpcode : Option Opcode) (opcode : WrOpcode) (fits : Bool) : Option Op :=
  match opcode with
  | .rdmaWrite =>
    some (nextOf (inWriteUc reqOpcode) fits .rdmaWriteLast .rdmaWriteMiddle .rdmaWriteOnly
      .rdmaWriteFirst)
  | .rdmaWriteWithImm =>
    some (nextOf (inWriteUc reqOpcode) fits .rdmaWriteLastWithImmediate .rdmaWriteMiddle
      .rdmaWriteOnlyWithImmediate .rdmaWriteFirst)
  | .send => some (nextOf (inSendUc reqOpcode) fits .sendLast .sendMiddle .sendOnly .sendFirst)
  | .sendWithImm =>
    some (nextOf (inSendUc reqOpcode) fits .sendLastWithImmediate .sendMiddle
      .sendOnlyWithImmediate .sendFirst)
  | _ => none

def nextOpcode (qp : SendQp) (w : DmaWqe) : Option Op :=
  match qp.qpType with
  | .rc => nextOpcodeRc qp.opcode w.opcode (w.dma.resid ≤ qp.mtu)
  | .uc => nextOpcodeUc qp.opcode w.opcode (w.dma.resid ≤ qp.mtu)
  | .ud =>
    match w.opcode with
    | .send => some .sendOnly
    | .sendWithImm => some .sendOnlyWithImmediate
    | _ => none

def getMtu (qp : SendQp) : Nat :=
  match qp.qpType with
  | .rc | .uc => qp.mtu
  | .ud => qp.portMtu.toNat

def checkInitDepth (qp : SendQp) (w : DmaWqe) : SendQp × DmaWqe × Bool :=
  if w.hasRdAtomic then (qp, w, true)
  else if qp.rdAtomic - 1 ≥ 0 then
    ({ qp with rdAtomic := qp.rdAtomic - 1, needRdAtomic := false },
      { w with hasRdAtomic := true }, true)
  else ({ qp with needRdAtomic := true }, w, false)

/-- The acknowledge request of `init_req_packet`, and `noack_pkts` after it. -/
def ackRequest (qp : SendQp) (op : Op) : Bool × Nat :=
  if op.mask.endMask ∨ qp.noackPkts > rxeMaxPktPerAck then (true, 0)
  else (false, qp.noackPkts + 1)

/-- `init_req_packet`, and the bytes that `fill_packet` puts behind the headers. -/
def initReqPacket (qp : SendQp) (w : DmaWqe) (op : Op) (payload : Nat) (ackReq : Bool)
    (data : List UInt8) : ReqPkt :=
  { opcode := ⟨qp.qpType.transport, op⟩
    psn := qp.psn
    ackReq := ackReq
    pad := (4 - payload % 4) % 4
    reth := if op.mask.rethMask then ⟨w.iova, w.rkey, .ofNat w.dma.resid⟩ else ⟨0, 0, 0⟩
    atmeth := if op = .compareSwap then ⟨w.iova, w.rkey, w.swap, w.compareAdd⟩
      else if op = .fetchAdd then ⟨w.iova, w.rkey, w.compareAdd, 0⟩
      else ⟨0, 0, 0, 0⟩
    ieth := if op.mask.iethMask then w.invalidateRkey else 0
    imm := if op.mask.immdtMask then w.imm else 0
    payload := data }

/-- The part of `fill_packet` that takes bytes out of the element. -/
def fillPacket (mem : LocalMem) (w : DmaWqe) (op : Op) (paylen : Nat) :
    DmaInfo × List UInt8 × Int :=
  if op.mask.sendMask ∨ op.mask.writeMask then
    if w.sendInline then
      ({ w.dma with resid := w.dma.resid - paylen, sgeOffset := w.dma.sgeOffset + paylen },
        (w.dma.inlineData.drop w.dma.sgeOffset).take paylen, 0)
    else
      let r := copyData mem w.dma paylen []
      (r.1.1, r.1.2, r.2)
  else (w.dma, [], 0)

/-! ## Sending it -/

/-- `update_wqe_state` and the part of `update_wqe_psn` that writes the element. -/
def updateWqe (qp : SendQp) (w : DmaWqe) (op : Op) (payload : Nat) : DmaWqe :=
  { w with
    state := if op.mask.endMask then (if qp.qpType = .rc then .pending else w.state)
      else .processing
    firstPsn := if op.mask.startMask then qp.psn else w.firstPsn
    lastPsn := if op.mask.startMask then
        qp.psn + .ofNat 24 (numPkt qp.mtu w.dma.resid payload) - 1
      else w.lastPsn }

def nextReqPsn (qp : SendQp) (w : DmaWqe) (op : Op) (payload : Nat) : Psn :=
  if op.mask.readMask then
    (updateWqe qp w op payload).firstPsn + .ofNat 24 (numPkt qp.mtu w.dma.resid payload)
  else qp.psn + 1

def updateState (qp : SendQp) (op : Op) : SendQp :=
  { qp with
    opcode := some ⟨qp.qpType.transport, op⟩
    wqeIndex := if op.mask.endMask then qp.wqeIndex + 1 else qp.wqeIndex
    needReqSkb := false }

/-- The end of `rxe_requester` behind `err`. -/
def failWqe (w : DmaWqe) : DmaWqe := { w with state := .error, status := .locProtErr }

/-- How `rxe_xmit_packet` ends: a QP that is not ready has its packets dropped. -/
def rxeXmitPacket (env : ReqEnv) (qp : SendQp) : XmitResult := if qp.ready then env.xmit else .ok

/-- `rxe_xmit_packet` calls the element of an unconnected message done. -/
def xmitDone (qp : SendQp) (op : Op) (w : DmaWqe) : DmaWqe :=
  if qp.ready ∧ qp.qpType ≠ .rc ∧ op.mask.endMask then { w with state := .done } else w

/-- `rollback_state` for the element; `saved` is what `save_state` has seen. -/
def rollbackState (saved w : DmaWqe) : DmaWqe :=
  { w with state := saved.state, firstPsn := saved.firstPsn, lastPsn := saved.lastPsn }

/-- `rxe_requester` from `save_state` on, `w` being the element after its bytes were taken. -/
def sendPacket (env : ReqEnv) (qp : SendQp) (w : DmaWqe) (op : Op) (payload : Nat)
    (pkt : ReqPkt) : PassResult :=
  let sent := updateWqe qp w op payload
  match rxeXmitPacket env qp with
  | .ok =>
    ⟨updateState { qp with psn := nextReqPsn qp w op payload } op, xmitDone qp op sent, some pkt⟩
  | .again => ⟨{ qp with needReqSkb := true }, rollbackState w sent, some pkt⟩
  | .fail => ⟨{ qp with needReqSkb := true }, failWqe (rollbackState w sent), some pkt⟩

/-- `rxe_requester` from `init_req_packet` on. -/
def buildPacket (env : ReqEnv) (mem : LocalMem) (qp : SendQp) (w : DmaWqe) (op : Op)
    (payload : Nat) : PassResult :=
  if env.initPacket = false ∨ 2 ^ 31 ≤ payload then ⟨qp, failWqe w, none⟩
  else
    let ack := qp.ackRequest op
    let qp := { qp with noackPkts := ack.2 }
    if env.fillPacket = false then ⟨qp, failWqe w, none⟩
    else
      let fill := fillPacket mem w op payload
      if fill.2.2 = 0 then
        sendPacket env qp { w with dma := fill.1 } op payload
          (initReqPacket qp w op payload ack.1 fill.2.1)
      else ⟨qp, failWqe { w with dma := fill.1 }, none⟩

/-- A datagram that does not fit is not sent, and nobody is told. -/
def fakeSend (qp : SendQp) (w : DmaWqe) : PassResult :=
  ⟨{ qp with
      psn := qp.psn + 1, opcode := some ⟨.ud, .sendOnly⟩, wqeIndex := qp.wqeIndex + 1 },
    { w with firstPsn := qp.psn, lastPsn := qp.psn, state := .done, status := .success }, none⟩

/-- `rxe_requester` from `get_mtu` on. A `resid` from 2^31 on is negative as a payload, so that
it is no more than the MTU and stays as it is. -/
def requestPayload (env : ReqEnv) (mem : LocalMem) (qp : SendQp) (w : DmaWqe) (op : Op) :
    PassResult :=
  let payload := if op.mask.sendMask ∨ op.mask.writeMask then w.dma.resid else 0
  if qp.getMtu < payload ∧ payload < 2 ^ 31 then
    if qp.qpType = .ud then fakeSend qp w else buildPacket env mem qp w op qp.getMtu
  else buildPacket env mem qp w op payload

/-- A pass of `rxe_requester` for an element that needs packets. -/
def requesterPass (env : ReqEnv) (mem : LocalMem) (qp : SendQp) (w : DmaWqe) : PassResult :=
  if qp.qpType = .rc ∧ qp.psn.toNat > qp.compPsn.toNat + rxeMaxUnackedPsns then
    ⟨{ qp with waitPsn := true }, w, none⟩
  else if env.inflight then ⟨{ qp with needReqSkb := true }, w, none⟩
  else
    match qp.nextOpcode w with
    | none => ⟨qp, { w with status := .locQpOpErr }, none⟩
    | some op =>
      if op.mask.readMask ∨ op.mask.atomicMask then
        let r := qp.checkInitDepth w
        if r.2.2 then requestPayload env mem r.1 r.2.1 op else ⟨r.1, w, none⟩
      else requestPayload env mem qp w op

/-! ## What a pass builds -/

section Built

variable {env : ReqEnv} {mem : LocalMem} {qp : SendQp} {w : DmaWqe} {op : Op} {payload : Nat}
  {pkt : ReqPkt}

/-- The bytes that a packet takes. -/
def paylen (qp : SendQp) (w : DmaWqe) (op : Op) : Nat :=
  if op.mask.sendMask ∨ op.mask.writeMask then min w.dma.resid qp.getMtu else 0

theorem requestPayload_eq (h : (requestPayload env mem qp w op).built = some pkt) :
    requestPayload env mem qp w op = buildPacket env mem qp w op (qp.paylen w op) := by
  unfold requestPayload at h ⊢
  unfold paylen
  by_cases hdata : op.mask.sendMask ∨ op.mask.writeMask
  · simp only [if_pos hdata] at h ⊢
    by_cases hlong : qp.getMtu < w.dma.resid ∧ w.dma.resid < 2 ^ 31
    · rw [if_pos hlong] at h ⊢
      by_cases hud : qp.qpType = .ud
      · rw [if_pos hud] at h
        cases h
      · rw [if_neg hud, Nat.min_eq_right (Nat.le_of_lt hlong.1)]
    · rw [if_neg hlong] at h ⊢
      have hfit : w.dma.resid ≤ qp.getMtu := by
        by_contra hmore
        have hhuge : 2 ^ 31 ≤ w.dma.resid := by omega
        unfold buildPacket at h
        rw [if_pos (.inr hhuge)] at h
        cases h
      rw [Nat.min_eq_left hfit]
  · simp only [if_neg hdata] at h ⊢
    rw [if_neg (fun hlong => Nat.not_lt_zero _ hlong.1)]

/-- What is left of a packet that was built and not taken by the network. -/
theorem buildPacket_again (hagain : env.xmit = .again) (hready : qp.ready)
    (h : (buildPacket env mem qp w op payload).built = some pkt) :
    payload < 2 ^ 31 ∧ ∃ dma data, fillPacket mem w op payload = (dma, data, 0) ∧
      pkt = initReqPacket qp w op payload (qp.ackRequest op).1 data ∧
      buildPacket env mem qp w op payload =
        ⟨{ qp with noackPkts := (qp.ackRequest op).2, needReqSkb := true },
          { w with dma := dma }, some pkt⟩ := by
  unfold buildPacket at h ⊢
  by_cases hskb : env.initPacket = false ∨ 2 ^ 31 ≤ payload
  · rw [if_pos hskb] at h
    cases h
  · rw [if_neg hskb] at h ⊢
    by_cases hprep : env.fillPacket = false
    · rw [if_pos hprep] at h
      cases h
    · rw [if_neg hprep] at h ⊢
      by_cases hfill : (fillPacket mem w op payload).2.2 = 0
      · rw [if_pos hfill] at h ⊢
        unfold sendPacket rxeXmitPacket at h ⊢
        simp only [hready, hagain, if_true] at h ⊢
        cases h
        exact ⟨by omega, _, _, Prod.ext rfl (Prod.ext rfl hfill), rfl, rfl⟩
      · rw [if_neg hfill] at h
        cases h

/-- With all it needs a pass builds the packet, whatever becomes of it. -/
theorem buildPacket_builds (hinit : env.initPacket = true) (hprep : env.fillPacket = true)
    (hlen : payload < 2 ^ 31) {dma : DmaInfo} {data : List UInt8}
    (hfill : fillPacket mem w op payload = (dma, data, 0)) :
    (buildPacket env mem qp w op payload).built =
      some (initReqPacket qp w op payload (qp.ackRequest op).1 data) := by
  have hskb : ¬ (env.initPacket = false ∨ 2 ^ 31 ≤ payload) := by
    rintro (hno | hlong)
    · exact absurd (hinit.symm.trans hno) (by decide)
    · omega
  unfold buildPacket
  rw [if_neg hskb]
  rw [if_neg (by simp [hprep]), hfill, if_pos rfl]
  unfold sendPacket
  split <;> rfl

theorem fillPacket_zero (mem : LocalMem) (w : DmaWqe) (op : Op) :
    fillPacket mem w op 0 = (w.dma, [], 0) := by
  unfold fillPacket copyData
  split
  · split
    · rfl
    · rw [if_pos rfl]
  · rfl

theorem fillPacket_resid {dma : DmaInfo} {data : List UInt8}
    (hdata : op.mask.sendMask ∨ op.mask.writeMask) (hle : payload ≤ w.dma.resid)
    (hfill : fillPacket mem w op payload = (dma, data, 0)) :
    dma.resid = w.dma.resid - payload := by
  unfold fillPacket at hfill
  rw [if_pos hdata] at hfill
  by_cases hinline : w.sendInline
  · rw [if_pos hinline] at hfill
    cases hfill
    rfl
  · rw [if_neg hinline] at hfill
    have hcopy : (copyData mem w.dma payload []).2 = 0 := congrArg (·.2.2) hfill
    have hadvance := advanceDmaData_of_copyData hcopy
    rw [show (copyData mem w.dma payload []).1.1 = dma from congrArg Prod.fst hfill] at hadvance
    rcases advanceDmaData_spec hle with ⟨-, hres⟩ | ⟨hfail, -⟩
    · rw [hadvance] at hres
      exact hres
    · exact absurd (congrArg Prod.snd hadvance) hfail

def WindowFull (qp : SendQp) : Prop :=
  qp.qpType = .rc ∧ qp.psn.toNat > qp.compPsn.toNat + rxeMaxUnackedPsns

theorem requesterPass_of_nextOpcode (hwindow : ¬ qp.WindowFull) (hflight : env.inflight = false)
    (hop : qp.nextOpcode w = some op)
    (hdepth : op.mask.readMask ∨ op.mask.atomicMask → w.hasRdAtomic = true) :
    requesterPass env mem qp w = requestPayload env mem qp w op := by
  unfold WindowFull at hwindow
  unfold requesterPass
  rw [if_neg hwindow, if_neg (by simp [hflight]), hop]
  dsimp only
  split
  case isTrue hread =>
    unfold checkInitDepth
    rw [if_pos (hdepth hread)]
    rfl
  case isFalse => rfl

/-- A pass that builds a packet comes to it, with the depth of the READs counted. -/
theorem requesterPass_built (h : (requesterPass env mem qp w).built = some pkt) :
    ¬ qp.WindowFull ∧ ∃ op rdAtomic needRdAtomic hasRdAtomic, qp.nextOpcode w = some op ∧
      (op.mask.readMask ∨ op.mask.atomicMask → hasRdAtomic = true) ∧
      requesterPass env mem qp w =
        requestPayload env mem { qp with rdAtomic := rdAtomic, needRdAtomic := needRdAtomic }
          { w with hasRdAtomic := hasRdAtomic } op := by
  unfold requesterPass at h ⊢
  by_cases hwindow : qp.qpType = .rc ∧ qp.psn.toNat > qp.compPsn.toNat + rxeMaxUnackedPsns
  · rw [if_pos hwindow] at h
    cases h
  rw [if_neg hwindow] at h ⊢
  by_cases hflight : env.inflight
  · rw [if_pos hflight] at h
    cases h
  rw [if_neg hflight] at h ⊢
  refine ⟨hwindow, ?_⟩
  cases hop : qp.nextOpcode w with
  | none =>
    rw [hop] at h
    cases h
  | some op =>
    rw [hop] at h
    dsimp only at h ⊢
    by_cases hread : op.mask.readMask ∨ op.mask.atomicMask
    · rw [if_pos hread] at h ⊢
      by_cases hdepth : (qp.checkInitDepth w).2.2
      · unfold checkInitDepth at hdepth ⊢
        split
        case isTrue hhas => exact ⟨op, qp.rdAtomic, qp.needRdAtomic, w.hasRdAtomic, rfl,
          fun _ => hhas, rfl⟩
        case isFalse hhas =>
          rw [if_neg hhas] at hdepth
          split
          case isTrue => exact ⟨op, qp.rdAtomic - 1, false, true, rfl, fun _ => rfl, rfl⟩
          case isFalse hfull =>
            rw [if_neg hfull] at hdepth
            cases hdepth
      · rw [if_neg hdepth] at h
        cases h
    · rw [if_neg hread] at h ⊢
      exact ⟨op, qp.rdAtomic, qp.needRdAtomic, w.hasRdAtomic, rfl,
        fun hread' => absurd hread' hread, rfl⟩

/-- The packets of a SEND or a WRITE are those that carry data. -/
theorem nextOpcode_data (h : qp.nextOpcode w = some op) :
    (op.mask.sendMask ∨ op.mask.writeMask) ↔
      (w.opcode.mask.sendMask ∨ w.opcode.mask.writeMask) := by
  unfold nextOpcode nextOpcodeRc nextOpcodeUc nextOf at h
  cases hop : w.opcode
  all_goals
    rw [hop] at h
    dsimp only at h
    repeat' split at h
    all_goals first
      | (cases h; decide)
      | cases h

theorem getMtu_pos (qp : SendQp) : 0 < qp.getMtu := by
  have hpos : ∀ m : IbMtu, 0 < m.toNat := by
    intro m
    cases m <;> decide
  unfold getMtu mtu
  split <;> exact hpos _

/-! ## The next pass -/

/-- After a failed transmission everything is as before, and the next pass builds the packet
again when nothing else keeps it from building one. -/
structure Rebuilds (mem : LocalMem) (qp : SendQp) (w : DmaWqe) (r : PassResult)
    (pkt : ReqPkt) : Prop where
  resid : r.wqe.dma.resid = w.dma.resid
  curSge : r.wqe.dma.curSge = w.dma.curSge
  sgeOffset : r.wqe.dma.sgeOffset = w.dma.sgeOffset
  state : r.wqe.state = w.state
  firstPsn : r.wqe.firstPsn = w.firstPsn
  lastPsn : r.wqe.lastPsn = w.lastPsn
  psn : r.qp.psn = qp.psn
  again : ∀ env : ReqEnv, env.inflight = false → env.initPacket = true → env.fillPacket = true →
    ∃ pkt', (requesterPass env mem r.qp r.wqe).built = some pkt' ∧ pkt'.psn = pkt.psn ∧
      pkt'.opcode = pkt.opcode ∧ pkt'.payload = pkt.payload ∧ pkt'.reth = pkt.reth

/-- The packet takes no bytes out of the element. -/
def TakesNothing (w : DmaWqe) : Prop :=
  ¬ (w.opcode.mask.sendMask ∨ w.opcode.mask.writeMask) ∨ w.dma.resid = 0

instance (w : DmaWqe) : Decidable (TakesNothing w) :=
  inferInstanceAs (Decidable
    (¬ (w.opcode.mask.sendMask ∨ w.opcode.mask.writeMask) ∨ w.dma.resid = 0))

theorem paylen_eq_zero_iff (hop : qp.nextOpcode w = some op) :
    qp.paylen w op = 0 ↔ TakesNothing w := by
  have hmtu := qp.getMtu_pos
  have hdata := nextOpcode_data hop
  unfold paylen TakesNothing
  rw [← hdata]
  by_cases hsend : op.mask.sendMask ∨ op.mask.writeMask
  · rw [if_pos hsend]
    constructor
    · omega
    · rintro (hno | hres)
      · exact absurd hsend hno
      · rw [hres, Nat.zero_min]
  · rw [if_neg hsend]
    exact ⟨fun _ => .inl hsend, fun _ => rfl⟩

theorem requesterPass_builds (hwindow : ¬ qp.WindowFull) (hop : qp.nextOpcode w = some op)
    (hdepth : op.mask.readMask ∨ op.mask.atomicMask → w.hasRdAtomic = true)
    (hzero : qp.paylen w op = 0) (hflight : env.inflight = false) (hinit : env.initPacket = true)
    (hprep : env.fillPacket = true) :
    (requesterPass env mem qp w).built =
      some (initReqPacket qp w op 0 (qp.ackRequest op).1 []) := by
  have hmtu := qp.getMtu_pos
  have hbuild : requestPayload env mem qp w op = buildPacket env mem qp w op 0 := by
    unfold paylen at hzero
    unfold requestPayload
    by_cases hdata : op.mask.sendMask ∨ op.mask.writeMask
    · rw [if_pos hdata] at hzero
      have hres : w.dma.resid = 0 := by omega
      simp [hres]
    · simp [if_neg hdata]
  rw [requesterPass_of_nextOpcode hwindow hflight hop hdepth, hbuild]
  exact buildPacket_builds hinit hprep (by decide) (fillPacket_zero mem w op)

/-- A transmission that fails is undone if and only if its packet takes no bytes. -/
theorem again_rebuilds_iff (hready : qp.ready) (hagain : env.xmit = .again)
    (hbuilt : (requesterPass env mem qp w).built = some pkt) :
    Rebuilds mem qp w (requesterPass env mem qp w) pkt ↔ TakesNothing w := by
  obtain ⟨hwindow, op, a, b, c, hop, hdepth, hpass⟩ := requesterPass_built hbuilt
  rw [hpass] at hbuilt ⊢
  have hready' : ({ qp with rdAtomic := a, needRdAtomic := b } : SendQp).ready = true := hready
  have hbuild := requestPayload_eq hbuilt
  rw [hbuild] at hbuilt ⊢
  obtain ⟨hlen, dma, data, hfill, rfl, hleft⟩ := buildPacket_again hagain hready' hbuilt
  rw [hleft]
  have hpay := paylen_eq_zero_iff hop
  constructor
  · -- the bytes of the packet are gone
    intro h
    by_contra htakes
    have hsend : op.mask.sendMask ∨ op.mask.writeMask := by
      rw [nextOpcode_data hop]
      exact not_not.mp fun hno => htakes (.inl hno)
    have hle : qp.paylen w op ≤ w.dma.resid := by
      unfold paylen
      rw [if_pos hsend]
      exact Nat.min_le_left _ _
    have hres : dma.resid = w.dma.resid - qp.paylen w op := fillPacket_resid hsend hle hfill
    have hsame : dma.resid = w.dma.resid := h.resid
    have hmore := mt hpay.mp htakes
    omega
  · -- the next pass meets the same element
    intro htakes
    have hzero : qp.paylen w op = 0 := hpay.mpr htakes
    have hnone : fillPacket mem { w with hasRdAtomic := c } op (qp.paylen w op) =
        (w.dma, [], 0) := by
      rw [hzero]
      exact fillPacket_zero mem _ op
    cases hnone.symm.trans hfill
    refine ⟨rfl, rfl, rfl, rfl, rfl, rfl, rfl, fun env' hflight hinit hprep => ?_⟩
    exact ⟨_, requesterPass_builds hwindow hop hdepth hzero hflight hinit hprep,
      rfl, rfl, rfl, rfl⟩

end Built

/-- One region that holds only zeros. -/
def zeroMem : LocalMem where
  lookupMem _ := some 0
  rxeMemCopy _ _ n out := some (out ++ List.replicate n 0)

theorem again_rebuilds_read :
    Rebuilds zeroMem { qpType := .rc, pathMtu := .mtu256, rdAtomic := 1 }
      { opcode := .rdmaRead, dma := { length := 600, resid := 600, sge := [⟨0, 600, 1⟩] } }
      (requesterPass { xmit := .again } zeroMem { qpType := .rc, pathMtu := .mtu256, rdAtomic := 1 }
        { opcode := .rdmaRead, dma := { length := 600, resid := 600, sge := [⟨0, 600, 1⟩] } })
      { opcode := ⟨.rc, .rdmaReadRequest⟩, psn := 0, ackReq := true, reth := ⟨0, 0, 600⟩ } :=
  (again_rebuilds_iff rfl rfl (by decide +kernel)).mpr (.inl (by decide))

/-- The first 256 of 300 bytes are never sent: the next pass builds the packet of the others. -/
theorem again_loses_bytes :
    ¬ ∀ (mem : LocalMem) (env : ReqEnv) (qp : SendQp) (w : DmaWqe) (pkt : ReqPkt),
      qp.ready → env.xmit = .again → (requesterPass env mem qp w).built = some pkt →
      Rebuilds mem qp w (requesterPass env mem qp w) pkt := by
  intro h
  have hresid := (h zeroMem { xmit := .again } { qpType := .rc, pathMtu := .mtu256 }
    { opcode := .send, dma := { length := 300, resid := 300, sge := [⟨0, 300, 1⟩] } }
    { opcode := ⟨.rc, .sendFirst⟩, psn := 0, payload := List.replicate 256 0 }
    rfl rfl (by decide +kernel)).resid
  revert hresid
  decide +kernel

end SendQp

end Rxe
