-- SUMMARY: The requester of an rxe RC QP.
import OfaKernel.Rxe.Qp

/-!
# The requester

`requesterStep` is one turn of the loop of `rxe_requester` and tells whether it goes on. An index
into the send queue counts from the consumer; `-1` leads to the element just behind it.
-/

namespace Rxe

def rxeMaxUnackedPsns : Nat := 128

def rxeMaxPktPerAck : Nat := 64

/-- How `rxe_xmit_packet` ends. -/
inductive XmitResult where
  | ok
  | again
  | fail
  deriving Repr, DecidableEq

/-- What a turn of the requester meets outside of it: whether too many packets of
the QP are in flight, whether a packet can be built and filled, and how sending ends. -/
structure ReqEnv where
  inflight : Bool := false
  initPacket : Bool := true
  fillPacket : Bool := true
  xmit : XmitResult := .ok

/-! ## Work requests -/

/-- The bits of `enum rxe_wr_mask` that the RC state machines test. -/
structure WrMask where
  atomicMask : Bool := false
  sendMask : Bool := false
  readMask : Bool := false
  writeMask : Bool := false
  regMask : Bool := false
  deriving Repr, DecidableEq

def WrOpcode.mask : WrOpcode → WrMask
  | .rdmaWrite | .rdmaWriteWithImm => { writeMask := true }
  | .send | .sendWithImm | .sendWithInv => { sendMask := true }
  | .rdmaRead | .rdmaReadWithInv => { readMask := true }
  | .atomicCmpAndSwp | .atomicFetchAndAdd => { atomicMask := true }
  | .localInv | .regMr => { regMask := true }

def SendWqe.mask (w : SendWqe) : WrMask := w.wr.opcode.mask

/-- The length that `rxe_post_send_kernel` adds up. -/
def SendWr.length (wr : SendWr) : Nat :=
  if wr.opcode.mask.sendMask ∨ wr.opcode.mask.writeMask then wr.data.length else wr.localLength

def SendWr.startIova (wr : SendWr) : UInt64 :=
  if wr.opcode.mask.atomicMask ∨ wr.opcode.mask.readMask ∨ wr.opcode.mask.writeMask then
    wr.remoteAddr
  else 0

def initSendWqe (wr : SendWr) : SendWqe :=
  { wr := wr, length := wr.length, resid := wr.length, iova := wr.startIova }

/-- `rxe_post_send` of one request; one slot of the ring stays empty. -/
def rxePostSend (qp : RxeQp) (wr : SendWr) : RxeQp :=
  if qp.req.state ∈ [.reset, .init] then qp
  else if wr.opcode.mask.atomicMask ∧ (wr.length < 8 ∨ wr.remoteAddr &&& 7 ≠ 0) then qp
  else if qp.sq.length + 1 = qp.sqSlots then qp
  else { qp with sq := qp.sq ++ [initSendWqe wr] }

/-- `wqe_index == producer_index`. -/
def RxeQp.atProducer (qp : RxeQp) : Bool :=
  (qp.req.wqeIndex - qp.sq.length) % qp.sqSlots = 0

/-- `addr_from_index(wqe_index)`. -/
def RxeQp.wqeAt (qp : RxeQp) (i : Int) : Option SendWqe :=
  if 0 ≤ i then qp.sq[i.toNat]? else if i = -1 then qp.sqBehind else none

/-- Write the element at an index. -/
def RxeQp.setWqe (qp : RxeQp) (i : Int) (w : SendWqe) : RxeQp :=
  if 0 ≤ i then { qp with sq := qp.sq.set i.toNat w }
  else if i = -1 then { qp with sqBehind := some w }
  else qp

/-- Whether the last packet sent was the first or a middle one of a SEND. -/
def inSend (o : Option Opcode) : Bool := o ∈ [some ⟨.rc, .sendFirst⟩, some ⟨.rc, .sendMiddle⟩]

/-- Whether the last packet sent was the first or a middle one of a WRITE. -/
def inWrite (o : Option Opcode) : Bool :=
  o ∈ [some ⟨.rc, .rdmaWriteFirst⟩, some ⟨.rc, .rdmaWriteMiddle⟩]

/-- One family of `next_opcode_rc`: the last packet and the middle ones inside a
message, the only and the first one outside. -/
def nextOf (inside fits : Bool) (last middle only first : Op) : Op :=
  if inside then (if fits then last else middle) else (if fits then only else first)

/-- `next_opcode_rc`; `none` for `-EINVAL`. -/
def nextOpcodeRc (reqOpcode : Option Opcode) (opcode : WrOpcode) (fits : Bool) : Option Op :=
  match opcode with
  | .rdmaWrite =>
    some (nextOf (inWrite reqOpcode) fits .rdmaWriteLast .rdmaWriteMiddle .rdmaWriteOnly
      .rdmaWriteFirst)
  | .rdmaWriteWithImm =>
    some (nextOf (inWrite reqOpcode) fits .rdmaWriteLastWithImmediate .rdmaWriteMiddle
      .rdmaWriteOnlyWithImmediate .rdmaWriteFirst)
  | .send => some (nextOf (inSend reqOpcode) fits .sendLast .sendMiddle .sendOnly .sendFirst)
  | .sendWithImm =>
    some (nextOf (inSend reqOpcode) fits .sendLastWithImmediate .sendMiddle
      .sendOnlyWithImmediate .sendFirst)
  | .sendWithInv =>
    some (nextOf (inSend reqOpcode) fits .sendLastWithInvalidate .sendMiddle
      .sendOnlyWithInvalidate .sendFirst)
  | .rdmaRead => some .rdmaReadRequest
  | .atomicCmpAndSwp => some .compareSwap
  | .atomicFetchAndAdd => some .fetchAdd
  | .rdmaReadWithInv | .localInv | .regMr => none

def nextOpcode (mtu : Nat) (reqOpcode : Option Opcode) (w : SendWqe) : Option Op :=
  nextOpcodeRc reqOpcode w.wr.opcode (w.resid ≤ mtu)

/-- The loop of `retry_first_write_send`: `npsn` packets are skipped. -/
def retryFirstWriteSend (mtu : Nat) : Nat → Option Opcode × SendWqe → Option Opcode × SendWqe
  | 0, s => s
  | npsn + 1, (opcode, w) =>
    retryFirstWriteSend mtu npsn
      ((nextOpcode mtu opcode w).map fun op => ⟨.rc, op⟩,
        { w with
          resid := w.resid - min w.resid mtu
          iova := if w.mask.writeMask then w.iova + .ofNat mtu else w.iova })

/-- What `req_retry` does to an element other than the first. -/
def retryReset (w : SendWqe) : SendWqe :=
  { w with iova := w.wr.startIova, resid := w.length, state := .posted }

/-- What `req_retry` does to the first element that is not done, given `comp.psn`;
also `req.opcode` as it leaves it. -/
def retryFirst (mtu : Nat) (compPsn : Psn) (w : SendWqe) : Option Opcode × SendWqe :=
  if w.mask.writeMask ∨ w.mask.sendMask then
    retryFirstWriteSend mtu (compPsn - w.firstPsn).toNat (none, retryReset w)
  else if w.mask.readMask then
    (none, { w with
      iova := w.wr.startIova + .ofNat ((w.length - w.resid) / mtu * mtu), state := .posted })
  else (none, retryReset w)

/-- The walk of `req_retry` over the elements from the consumer on. It stops at one
that is still posted; elements that are done are skipped. -/
def reqRetryFrom (mtu : Nat) (compPsn : Psn) :
    Bool → Option Opcode → List SendWqe → Option Opcode × List SendWqe
  | _, opcode, [] => (opcode, [])
  | first, opcode, w :: ws =>
    match w.state with
    | .posted => (opcode, w :: ws)
    | .done =>
      let r := reqRetryFrom mtu compPsn first opcode ws
      (r.1, w :: r.2)
    | .processing | .pending | .error =>
      let f := if first then retryFirst mtu compPsn w else (opcode, retryReset w)
      let r := reqRetryFrom mtu compPsn false f.1 ws
      (r.1, { f.2 with state := .posted } :: r.2)

def reqRetry (qp : RxeQp) : RxeQp :=
  let r := reqRetryFrom qp.mtu qp.comp.psn true none qp.sq
  { qp with
    sq := r.2
    req := { qp.req with wqeIndex := 0, psn := qp.comp.psn, opcode := r.1 } }

/-! ## One packet -/

def checkDrained (qp : RxeQp) : RxeQp :=
  if qp.req.state = .drain then
    match qp.sq with
    | w :: _ =>
      if qp.req.wqeIndex ≠ 0 ∨ w.state ≠ .posted then qp
      else { qp with req := { qp.req with state := .drained } }
    | [] => { qp with req := { qp.req with state := .drained } }
  else qp

def reqNextWqe (qp : RxeQp) : RxeQp × Option SendWqe :=
  let qp := checkDrained qp
  if qp.atProducer then (qp, none)
  else
    match qp.wqeAt qp.req.wqeIndex with
    | none => (qp.emit .oops, none)
    | some w =>
      if qp.req.state ∈ [.drain, .drained] ∧ w.state ≠ .processing then (qp, none)
      else if w.wr.fence ∧ qp.req.wqeIndex ≠ 0 then
        ({ qp with req := { qp.req with waitFence := true } }, none)
      else (qp, some w)

/-- The branch of `rxe_requester` for work that only concerns memory regions. -/
def localWork (qp : RxeQp) (w : SendWqe) : RxeQp × Bool :=
  let i := qp.req.wqeIndex
  let index := if w.wr.opcode = .localInv then (w.wr.invalidateRkey >>> 8).toNat else w.wr.regMr
  match qp.mrs index with
  | none => (qp.setWqe i { w with state := .error, status := .mwBindErr }, false)
  | some mem =>
    let mem := if w.wr.opcode = .localInv then { mem with state := .free }
      else { mem with state := .valid, access := w.wr.regAccess, rkey := w.wr.regKey
                      iova := w.wr.regIova }
    let qp := qp.setWqe i { w with state := .done, status := .success }
    ({ qp with
        mrs := fun j => if j = index then some mem else qp.mrs j
        req := { qp.req with wqeIndex := i + 1 } }, true)

/-- `check_init_depth`: the QP and the element, and whether the request may go out. -/
def checkInitDepth (qp : RxeQp) (w : SendWqe) : RxeQp × SendWqe × Bool :=
  if w.hasRdAtomic then (qp, w, true)
  else if qp.req.rdAtomic - 1 ≥ 0 then
    ({ qp with req := { qp.req with rdAtomic := qp.req.rdAtomic - 1, needRdAtomic := false } },
      { w with hasRdAtomic := true }, true)
  else ({ qp with req := { qp.req with needRdAtomic := true } }, w, false)

/-- `init_req_packet` and `fill_packet`: the packet `op` with `payload` bytes. -/
def reqPacket (qp : RxeQp) (w : SendWqe) (op : Op) (payload : Nat) (ackReq : Bool) : ReqPkt :=
  { opcode := ⟨.rc, op⟩
    psn := qp.req.psn
    ackReq := ackReq
    pad := (4 - payload % 4) % 4
    reth := if op.mask.rethMask then ⟨w.iova, w.wr.rkey, .ofNat w.resid⟩ else ⟨0, 0, 0⟩
    atmeth := if op = .compareSwap then ⟨w.iova, w.wr.rkey, w.wr.swap, w.wr.compareAdd⟩
      else if op = .fetchAdd then ⟨w.iova, w.wr.rkey, w.wr.compareAdd, 0⟩
      else ⟨0, 0, 0, 0⟩
    ieth := if op.mask.iethMask then w.wr.invalidateRkey else 0
    imm := if op.mask.immdtMask then w.wr.imm else 0
    payload := if op.mask.sendMask ∨ op.mask.writeMask then
        (w.wr.data.drop (w.length - w.resid)).take payload
      else [] }

/-- The acknowledge request of `init_req_packet`, and `noack_pkts` after it. -/
def ackRequest (qp : RxeQp) (op : Op) : Bool × Nat :=
  if op.mask.endMask ∨ qp.req.noackPkts > rxeMaxPktPerAck then (true, 0)
  else (false, qp.req.noackPkts + 1)

/-- `num_pkt` of `update_wqe_psn`: the packets left to send, this one included. -/
def numPkt (mtu resid payload : Nat) : Nat := max 1 ((resid + payload + mtu - 1) % 2 ^ 32 / mtu)

/-- `update_wqe_state` and `update_wqe_psn`, after `payload` bytes were taken. -/
def updateWqe (qp : RxeQp) (w : SendWqe) (op : Op) (payload : Nat) : SendWqe :=
  { w with
    state := if op.mask.endMask then .pending else .processing
    firstPsn := if op.mask.startMask then qp.req.psn else w.firstPsn
    lastPsn := if op.mask.startMask then
        qp.req.psn + .ofNat 24 (numPkt qp.mtu w.resid payload) - 1
      else w.lastPsn }

def nextReqPsn (qp : RxeQp) (w : SendWqe) (op : Op) (payload : Nat) : Psn :=
  if op.mask.readMask then
    (updateWqe qp w op payload).firstPsn + .ofNat 24 (numPkt qp.mtu w.resid payload)
  else qp.req.psn + 1

def updateState (qp : RxeQp) (op : Op) : RxeQp :=
  { qp with
    req := { qp.req with
      opcode := some ⟨.rc, op⟩
      wqeIndex := if op.mask.endMask then qp.req.wqeIndex + 1 else qp.req.wqeIndex }
    retransTimer := qp.retransTimer || qp.hasTimeout }

/-- A local failure: the completer will report it. -/
def failWqe (qp : RxeQp) (w : SendWqe) : RxeQp :=
  qp.setWqe qp.req.wqeIndex { w with state := .error, status := .locProtErr }

/-- `payload` of `rxe_requester`. -/
def reqPayload (mtu : Nat) (w : SendWqe) (op : Op) : Nat :=
  if op.mask.sendMask ∨ op.mask.writeMask then min w.resid mtu else 0

/-- The packet `op` is sent, `w` being the element after its bytes were taken. -/
def requestSent (qp : RxeQp) (w : SendWqe) (op : Op) (payload : Nat) (pkt : ReqPkt) : RxeQp :=
  let sent := qp.setWqe qp.req.wqeIndex (updateWqe qp w op payload)
  let sent := { sent with req := { sent.req with psn := nextReqPsn qp w op payload } }
  updateState (if qp.req.state = .ready then sent.emit (.request pkt) else sent) op

/-- The part of `rxe_requester` that builds and sends the packet `op`. A negative payload has no
packet. The bytes are taken out of the element before the packet goes out, and not put back when
sending fails. -/
def sendRequest (env : ReqEnv) (qp : RxeQp) (w : SendWqe) (op : Op) : RxeQp × Bool :=
  let payload := reqPayload qp.mtu w op
  if env.initPacket = false ∨ (op.mask.sendMask ∨ op.mask.writeMask) ∧ 2 ^ 31 ≤ w.resid then
    (failWqe qp w, false)
  else
    let ack := ackRequest qp op
    let qp' := { qp with req := { qp.req with noackPkts := ack.2 } }
    if env.fillPacket = false then (failWqe qp' w, false)
    else
      let taken := { w with resid := w.resid - payload }
      match env.xmit with
      | .ok => (requestSent qp' taken op payload (reqPacket qp w op payload ack.1), true)
      | .again => (qp'.setWqe qp.req.wqeIndex taken, false)
      | .fail => (failWqe qp' taken, false)

/-- The part of `rxe_requester` for an element that needs packets. -/
def sendWqe (env : ReqEnv) (qp : RxeQp) (w : SendWqe) : RxeQp × Bool :=
  if qp.req.psn.toNat > qp.comp.psn.toNat + rxeMaxUnackedPsns then
    ({ qp with req := { qp.req with waitPsn := true } }, false)
  else if env.inflight then (qp, false)
  else
    match nextOpcode qp.mtu qp.req.opcode w with
    | none => (qp.setWqe qp.req.wqeIndex { w with status := .locQpOpErr }, false)
    | some op =>
      if op.mask.readMask ∨ op.mask.atomicMask then
        let r := checkInitDepth qp w
        if r.2.2 then sendRequest env (r.1.setWqe qp.req.wqeIndex r.2.1) r.2.1 op else (r.1, false)
      else sendRequest env qp w op

/-- The `QP_STATE_RESET` branch of `rxe_requester`. -/
def requesterReset (qp : RxeQp) : RxeQp :=
  { qp with req := { qp.req with
      wqeIndex := 0, opcode := none, needRdAtomic := false, waitPsn := false
      needRetry := false } }

/-- One turn of `rxe_requester`; tells whether the loop goes on. -/
def requesterStep (env : ReqEnv) (qp : RxeQp) : RxeQp × Bool :=
  if qp.req.state = .error then (qp, false)
  else if qp.req.state = .reset then (requesterReset qp, false)
  else
    let qp := if qp.req.needRetry then
        { reqRetry qp with req := { (reqRetry qp).req with needRetry := false } }
      else qp
    let r := reqNextWqe qp
    match r.2 with
    | none => (r.1, false)
    | some w => if w.mask.regMask then localWork r.1 w else sendWqe env r.1 w

end Rxe
