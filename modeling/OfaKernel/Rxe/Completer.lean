-- SUMMARY: The completer of an rxe RC QP.
import OfaKernel.Rxe.Requester

/-!
# The completer

`rxe_completer` takes one response packet, or none, and the element at the head of
the send queue through a chain of states. `compStep` is its `switch`.
-/

namespace Rxe

inductive CompState where
  | getAck
  | getWqe
  | compWqe
  | compAck
  | checkPsn
  | checkAck
  | read
  | atomic
  | writeSend
  | updateComp
  | errorRetry
  | rnrRetry
  | error
  | exit
  | done
  deriving Repr, DecidableEq

/-! ## The head of the send queue -/

/-- Write the element at the head. -/
def RxeQp.setHead (qp : RxeQp) (w : SendWqe) : RxeQp := { qp with sq := w :: qp.sq.tail }

/-- `advance_consumer` on the send queue: indices count from the next element. -/
def RxeQp.advanceSq (qp : RxeQp) : RxeQp :=
  { qp with
    sq := qp.sq.tail
    sqBehind := qp.sq.head?
    req := { qp.req with wqeIndex := qp.req.wqeIndex - 1 } }

def makeSendCqe (w : SendWqe) : SendCqe :=
  { wrId := w.wr.wrId, status := w.status, opcode := w.wr.opcode, byteLen := w.length }

def doCompleteSend (qp : RxeQp) (w : SendWqe) : RxeQp :=
  let qp := qp.advanceSq
  let qp := if qp.sigAll ∨ w.wr.signaled ∨ w.status ≠ .success then
      qp.emit (.sendComp (makeSendCqe w))
    else qp
  { qp with req := { qp.req with waitFence := false } }

/-! ## The states of the completer -/

def getWqe (qp : RxeQp) (pkt : Option RespPkt) : CompState :=
  match qp.sq with
  | [] => if pkt.isSome then .done else .exit
  | w :: _ =>
    match w.state with
    | .posted => if pkt.isSome then .done else .exit
    | .done => .compWqe
    | .error => .error
    | .processing | .pending => if pkt.isSome then .checkPsn else .exit

def resetRetryCounters (qp : RxeQp) : RxeQp :=
  { qp with comp := { qp.comp with
      retryCnt := qp.retryCnt, rnrRetry := qp.rnrRetry, startedRetry := false } }

def compCheckPsn (qp : RxeQp) (pkt : RespPkt) (w : SendWqe) : RxeQp × CompState :=
  if psnCompare pkt.psn w.lastPsn > 0 then
    if w.state = .pending then
      if w.mask.atomicMask ∨ w.mask.readMask then (qp, .errorRetry)
      else (resetRetryCounters qp, .compWqe)
    else (qp, .done)
  else
    let diff := psnCompare pkt.psn qp.comp.psn
    if diff < 0 then (qp, if pkt.psn = w.lastPsn then .compAck else .done)
    else if diff > 0 ∧ (w.mask.atomicMask ∨ w.mask.readMask) then (qp, .done)
    else (qp, .checkAck)

/-- The sequence check of `check_ack`. -/
def ackSeqOk (qp : RxeQp) (pkt : RespPkt) (w : SendWqe) : Bool :=
  match qp.comp.opcode with
  | none => pkt.mask.startMask
  | some ⟨.rc, .rdmaReadResponseFirst⟩ | some ⟨.rc, .rdmaReadResponseMiddle⟩ =>
    pkt.opcode ∈ [⟨.rc, .rdmaReadResponseMiddle⟩, ⟨.rc, .rdmaReadResponseLast⟩] ||
      (pkt.psn = w.firstPsn && pkt.opcode = ⟨.rc, .rdmaReadResponseFirst⟩) ||
      (w.firstPsn = w.lastPsn && pkt.opcode = ⟨.rc, .rdmaReadResponseOnly⟩)
  | some _ => true

/-- A negative acknowledge in `check_ack`. -/
def checkNak (qp : RxeQp) (pkt : RespPkt) (w : SendWqe) : RxeQp × CompState :=
  if pkt.syn = aethNakPsnSeqError then
    let qp := if psnCompare pkt.psn qp.comp.psn > 0 then
        { qp with comp := { qp.comp with psn := pkt.psn }
                  req := { qp.req with waitPsn := false } }
      else qp
    (qp, .errorRetry)
  else if pkt.syn = aethNakInvalidReq then (qp.setHead { w with status := .remInvReqErr }, .error)
  else if pkt.syn = aethNakRemAccErr then (qp.setHead { w with status := .remAccessErr }, .error)
  else (qp.setHead { w with status := .remOpErr }, .error)

def checkAck (qp : RxeQp) (pkt : RespPkt) (w : SendWqe) : RxeQp × CompState :=
  if ackSeqOk qp pkt w = false then (qp, .error)
  else if pkt.opcode ∈ [⟨.rc, .rdmaReadResponseFirst⟩, ⟨.rc, .rdmaReadResponseLast⟩,
      ⟨.rc, .rdmaReadResponseOnly⟩, ⟨.rc, .rdmaReadResponseMiddle⟩] then
    if pkt.opcode.op ≠ .rdmaReadResponseMiddle ∧ pkt.syn &&& aethTypeMask ≠ aethAck then
      (qp, .error)
    else if w.wr.opcode ∉ [.rdmaRead, .rdmaReadWithInv] then
      (qp.setHead { w with status := .fatalErr }, .error)
    else (resetRetryCounters qp, .read)
  else if pkt.opcode = ⟨.rc, .atomicAcknowledge⟩ then
    if pkt.syn &&& aethTypeMask ≠ aethAck then (qp, .error)
    else if w.wr.opcode ∉ [.atomicCmpAndSwp, .atomicFetchAndAdd] then (qp, .error)
    else (resetRetryCounters qp, .atomic)
  else if pkt.opcode = ⟨.rc, .acknowledge⟩ then
    if pkt.syn &&& aethTypeMask = aethAck then (resetRetryCounters qp, .writeSend)
    else if pkt.syn &&& aethTypeMask = aethRnrNak then (qp, .rnrRetry)
    else if pkt.syn &&& aethTypeMask = aethNak then checkNak qp pkt w
    else (qp, .error)
  else (qp, .error)

/-- `copy_data` into the local buffers of the element; `lookupLocal` tells whether
their regions are found. -/
def copyIn (lookupLocal : Bool) (w : SendWqe) (data : List UInt8) : Option SendWqe :=
  if data = [] then some w
  else if data.length > w.resid then none
  else if lookupLocal = false then none
  else some { w with resid := w.resid - data.length, buf := w.buf ++ data }

def doRead (lookupLocal : Bool) (qp : RxeQp) (pkt : RespPkt) (w : SendWqe) : RxeQp × CompState :=
  match copyIn lookupLocal w pkt.payload with
  | none => (qp, .error)
  | some w =>
    (qp.setHead w, if w.resid = 0 ∧ pkt.mask.endMask then .compAck else .updateComp)

/-- The bytes of a value, least significant first. -/
def bytes64 (x : UInt64) : List UInt8 :=
  (List.range 8).map fun i => (x >>> .ofNat (8 * i)).toUInt8

def doAtomic (lookupLocal : Bool) (qp : RxeQp) (pkt : RespPkt) (w : SendWqe) :
    RxeQp × CompState :=
  match copyIn lookupLocal w (bytes64 pkt.orig) with
  | none => (qp, .error)
  | some w => (qp.setHead w, .compAck)

def completeAck (qp : RxeQp) (pkt : RespPkt) (w : SendWqe) : RxeQp × CompState :=
  let qp := if w.hasRdAtomic then
      { qp with
        req := { qp.req with rdAtomic := qp.req.rdAtomic + 1, needRdAtomic := false }
        comp := { qp.comp with
          timeoutRetry := if qp.req.needRdAtomic then false else qp.comp.timeoutRetry } }
    else qp
  let qp := if qp.req.state = .drain ∧ qp.comp.psn = qp.req.psn then
      { qp with req := { qp.req with state := .drained } }
    else qp
  let w := { w with hasRdAtomic := false }
  (doCompleteSend (qp.setHead w) w,
    if psnCompare pkt.psn qp.comp.psn ≥ 0 then .updateComp else .done)

def completeWqe (qp : RxeQp) (pkt : Option RespPkt) (w : SendWqe) : RxeQp × CompState :=
  let qp := if pkt.isSome ∧ w.state = .pending then
      let qp := if psnCompare w.lastPsn qp.comp.psn ≥ 0 then
          { qp with comp := { qp.comp with psn := w.lastPsn + 1, opcode := none } }
        else qp
      { qp with req := { qp.req with waitPsn := false } }
    else qp
  (doCompleteSend qp w, .getWqe)

def updateComp (qp : RxeQp) (pkt : RespPkt) : RxeQp :=
  { qp with
    comp := { qp.comp with
      opcode := if pkt.mask.endMask then none else some pkt.opcode
      psn := if psnCompare pkt.psn qp.comp.psn ≥ 0 then pkt.psn + 1 else qp.comp.psn }
    req := { qp.req with waitPsn := false } }

/-- `COMPST_ERROR_RETRY` with a retry left: whether the requester is told to retry. -/
def errorRetry (qp : RxeQp) : RxeQp :=
  let qp := { qp with comp := { qp.comp with
    retryCnt := if qp.comp.retryCnt = 7 then 7 else qp.comp.retryCnt - 1 } }
  if psnCompare qp.req.psn qp.comp.psn > 0 then
    { qp with req := { qp.req with needRetry := true }
              comp := { qp.comp with startedRetry := true } }
  else qp

/-- The end of `COMPST_EXIT`: the retransmit timer is armed while packets are
unacknowledged. -/
def armRetrans (qp : RxeQp) : RxeQp :=
  if qp.req.state = .ready ∧ psnCompare qp.req.psn qp.comp.psn > 0 ∧ qp.hasTimeout then
    { qp with retransTimer := true }
  else qp

/-- `rxe_qp_error`, for the completer. -/
def compQpError (qp : RxeQp) : RxeQp :=
  { qp with
    req := { qp.req with state := .error }
    resp := { qp.resp with state := .error }
    qpState := .err }

/-- `rxe_drain_resp_pkts`. -/
def drainSq (notify : Bool) : Nat → RxeQp → RxeQp
  | 0, qp => qp
  | n + 1, qp =>
    match qp.sq with
    | [] => qp
    | w :: _ =>
      drainSq notify n
        (if notify then doCompleteSend qp { w with status := .wrFlushErr } else qp.advanceSq)

def rxeDrainRespPkts (qp : RxeQp) (notify : Bool) : RxeQp :=
  drainSq notify qp.sq.length { qp with respPkts := [] }

/-! ## The loop -/

inductive CompStep where
  | next (qp : RxeQp) (pkt : Option RespPkt) (state : CompState)
  | stop (qp : RxeQp)

/-- A state that works on the packet and on the element at the head. -/
def withAck (qp : RxeQp) (pkt : Option RespPkt) (f : RespPkt → SendWqe → RxeQp × CompState) :
    CompStep :=
  match pkt, qp.sq with
  | some p, w :: _ => .next (f p w).1 pkt (f p w).2
  | _, _ => .stop (qp.emit .oops)

/-- The `switch` of `rxe_completer`. -/
def compStep (lookupLocal : Bool) (qp : RxeQp) (pkt : Option RespPkt) (state : CompState) :
    CompStep :=
  match state with
  | .getAck =>
    match qp.respPkts with
    | [] => .next qp none .getWqe
    | p :: ps =>
      .next { qp with respPkts := ps, comp := { qp.comp with timeoutRetry := false } } (some p)
        .getWqe
  | .getWqe => .next qp pkt (getWqe qp pkt)
  | .checkPsn => withAck qp pkt (compCheckPsn qp)
  | .checkAck => withAck qp pkt (checkAck qp)
  | .read => withAck qp pkt (doRead lookupLocal qp)
  | .atomic => withAck qp pkt (doAtomic lookupLocal qp)
  | .writeSend =>
    withAck qp pkt fun p w =>
      (qp, if w.state = .pending ∧ w.lastPsn = p.psn then .compAck else .updateComp)
  | .compAck => withAck qp pkt (completeAck qp)
  | .compWqe =>
    match qp.sq with
    | [] => .stop (qp.emit .oops)
    | w :: _ => .next (completeWqe qp pkt w).1 pkt (completeWqe qp pkt w).2
  | .updateComp =>
    match pkt with
    | none => .stop (qp.emit .oops)
    | some p => .next (updateComp qp p) pkt .done
  | .done => .stop qp
  | .exit =>
    if qp.comp.timeoutRetry ∧ qp.sq ≠ [] then .next qp pkt .errorRetry else .stop (armRetrans qp)
  | .errorRetry =>
    match qp.sq with
    | [] => .stop qp
    | w :: _ =>
      if w.state = .posted then .stop qp
      else if qp.comp.startedRetry ∧ qp.comp.timeoutRetry = false then .stop qp
      else if 0 < qp.comp.retryCnt then .stop (errorRetry qp)
      else .next (qp.setHead { w with status := .retryExcErr }) pkt .error
  | .rnrRetry =>
    match qp.sq with
    | [] => .stop (qp.emit .oops)
    | w :: _ =>
      if 0 < qp.comp.rnrRetry then
        .stop { qp with
          comp := { qp.comp with
            rnrRetry := if qp.comp.rnrRetry = 7 then 7 else qp.comp.rnrRetry - 1 }
          req := { qp.req with needRetry := true }
          rnrNakTimer := true }
      else .next (qp.setHead { w with status := .rnrRetryExcErr }) pkt .error
  | .error =>
    match qp.sq with
    | [] => .stop (qp.emit .oops)
    | w :: _ => .stop (compQpError (doCompleteSend qp w))

/-- The `while` loop; `none` if the fuel runs out. -/
def compLoop (lookupLocal : Bool) : Nat → RxeQp → Option RespPkt → CompState → Option RxeQp
  | 0, _, _, _ => none
  | fuel + 1, qp, pkt, state =>
    match compStep lookupLocal qp pkt state with
    | .stop qp => some qp
    | .next qp pkt state => compLoop lookupLocal fuel qp pkt state

/-- Enough fuel: a chain of checks, and a few rounds for every element completed. -/
def compFuel (qp : RxeQp) : Nat := 16 + 4 * qp.sq.length

/-- The start of `rxe_completer`: a timeout is turned into a retry by timeout. -/
def takeTimeout (qp : RxeQp) : RxeQp :=
  { qp with comp := { qp.comp with timeoutRetry := qp.comp.timeout, timeout := false } }

def rxeCompleter (lookupLocal : Bool) (qp : RxeQp) : Option RxeQp :=
  if qp.req.state = .error ∨ qp.req.state = .reset then
    some (rxeDrainRespPkts qp (qp.req.state = .error))
  else
    let qp := takeTimeout qp
    if qp.req.needRetry then some qp else compLoop lookupLocal (compFuel qp) qp none .getAck

/-- What `rxe_rcv` lets through to the completer, `rxe_comp_queue_pkt`. -/
def rxeCompQueuePkt (qp : RxeQp) (pkt : RespPkt) : RxeQp :=
  if qp.req.state ∈ [.ready, .drain, .drained] then { qp with respPkts := qp.respPkts ++ [pkt] }
  else qp

def retransmitTimer (qp : RxeQp) : RxeQp :=
  if qp.retransTimer then
    { qp with retransTimer := false, comp := { qp.comp with timeout := true } }
  else qp

/-- `rnr_nak_timer`, which only wakes the requester. -/
def rnrNakTimer (qp : RxeQp) : RxeQp := { qp with rnrNakTimer := false }

end Rxe
