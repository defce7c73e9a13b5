-- SUMMARY: The responder state machine of an rxe RC or UC QP.
import OfaKernel.Rxe.Qp
import OfaKernel.Lib.CInt

/-!
# The responder

Every function below is one state of `rxe_responder`; `respStep` is the `switch` and
`rxeResponder` the loop around it. A run ends at an `oops`.
-/

namespace Rxe

/-! ## The surroundings of a run -/

/-- The bytes of the regions, whether the regions of a receive buffer are found, whether an
atomic's address is aligned, whether a packet of a given length can be built and sent, and whether
the receive CQ has room. -/
structure RespEnv where
  mem : Nat → UInt64 → UInt8 := fun _ _ => 0
  lookupLocal : Bool := true
  aligned : Bool := true
  initPacket : Int → Bool := fun _ => true
  xmit : Bool := true
  cqPost : Bool := true

/-- `enum resp_states`. -/
inductive RespState where
  | none
  | getReq
  | chkPsn
  | chkOpSeq
  | chkOpValid
  | chkResource
  | chkLength
  | chkRkey
  | execute
  | readReply
  | complete
  | acknowledge
  | cleanup
  | duplicateRequest
  | errMalformedWqe
  | errUnsupportedOpcode
  | errMisalignedAtomic
  | errPsnOutOfSeq
  | errMissingOpcodeFirst
  | errMissingOpcodeLastC
  | errMissingOpcodeLastD1e
  | errTooManyRdmaAtmReq
  | errRnr
  | errRkeyViolation
  | errLength
  | errCqOverflow
  | error
  | reset
  | done
  | exit
  deriving Repr, DecidableEq

/-! ## The states of the responder -/

def getReq (qp : RxeQp) : RxeQp × Option ReqPkt × RespState :=
  if qp.resp.state = .error then
    match qp.reqPkts with
    | _ :: rest => ({ qp with reqPkts := rest }, none, .getReq)
    | [] => (qp, none, .chkResource)
  else
    match qp.reqPkts with
    | [] => (qp, none, .exit)
    | pkt :: _ => (qp, some pkt, if qp.resp.res.isSome then .readReply else .chkPsn)

def checkPsn (qp : RxeQp) (pkt : ReqPkt) : RxeQp × RespState :=
  let diff := psnCompare pkt.psn qp.resp.psn
  match qp.qpType with
  | .rc =>
    if diff > 0 then
      if qp.resp.sentPsnNak then (qp, .cleanup)
      else ({ qp with resp := { qp.resp with sentPsnNak := true } }, .errPsnOutOfSeq)
    else if diff < 0 then (qp, .duplicateRequest)
    else ({ qp with resp := { qp.resp with sentPsnNak := false } }, .chkOpSeq)
  | .uc =>
    if qp.resp.dropMsg ∨ diff ≠ 0 then
      if pkt.mask.startMask then
        ({ qp with resp := { qp.resp with dropMsg := false } }, .chkOpSeq)
      else ({ qp with resp := { qp.resp with dropMsg := true } }, .cleanup)
    else (qp, .chkOpSeq)

/-- The operations that may follow the first or a middle packet of a SEND. -/
def sendContinuations : QpType → List Op
  | .rc => [.sendMiddle, .sendLast, .sendLastWithImmediate, .sendLastWithInvalidate]
  | .uc => [.sendMiddle, .sendLast, .sendLastWithImmediate]

/-- The operations that may follow the first or a middle packet of an RDMA WRITE. -/
def writeContinuations : List Op :=
  [.rdmaWriteMiddle, .rdmaWriteLast, .rdmaWriteLastWithImmediate]

def checkOpSeq (qp : RxeQp) (pkt : ReqPkt) : RxeQp × RespState :=
  let t := qp.qpType.transport
  let missingLast : RespState := match qp.qpType with
    | .rc => .errMissingOpcodeLastC
    | .uc => .errMissingOpcodeLastD1e
  if qp.resp.opcode ∈ [some ⟨t, .sendFirst⟩, some ⟨t, .sendMiddle⟩] then
    if pkt.opcode.transport = t ∧ pkt.opcode.op ∈ sendContinuations qp.qpType then
      (qp, .chkOpValid)
    else (qp, missingLast)
  else if qp.resp.opcode ∈ [some ⟨t, .rdmaWriteFirst⟩, some ⟨t, .rdmaWriteMiddle⟩] then
    if pkt.opcode.transport = t ∧ pkt.opcode.op ∈ writeContinuations then (qp, .chkOpValid)
    else (qp, missingLast)
  else if pkt.opcode.transport = t ∧
      pkt.opcode.op ∈ sendContinuations qp.qpType ++ writeContinuations then
    match qp.qpType with
    | .rc => (qp, .errMissingOpcodeFirst)
    | .uc => ({ qp with resp := { qp.resp with dropMsg := true } }, .cleanup)
  else (qp, .chkOpValid)

def checkOpValid (qp : RxeQp) (pkt : ReqPkt) : RxeQp × RespState :=
  match qp.qpType with
  | .rc =>
    if (pkt.mask.readMask ∧ .remoteRead ∉ qp.accessFlags) ∨
        (pkt.mask.writeMask ∧ .remoteWrite ∉ qp.accessFlags) ∨
        (pkt.mask.atomicMask ∧ .remoteAtomic ∉ qp.accessFlags) then
      (qp, .errUnsupportedOpcode)
    else (qp, .chkResource)
  | .uc =>
    if pkt.mask.writeMask ∧ .remoteWrite ∉ qp.accessFlags then
      ({ qp with resp := { qp.resp with dropMsg := true } }, .cleanup)
    else (qp, .chkResource)

def getSrqWqe (qp : RxeQp) (srqError : Bool) : RxeQp × RespState :=
  if srqError then (qp, .errRnr)
  else
    match qp.rq with
    | [] => (qp, .errRnr)
    | w :: rest => ({ qp with rq := rest, resp := { qp.resp with wqe := .srq w } }, .chkLength)

/-- `check_resource`; there is no packet when an error QP drains its receive queue. -/
def checkResource (qp : RxeQp) (pkt : Option ReqPkt) : RxeQp × RespState :=
  if qp.resp.state = .error then
    if qp.resp.wqe ≠ .null then
      ({ qp with resp := { qp.resp with status := .wrFlushErr } }, .complete)
    else if qp.srq.isNone then
      match qp.rq with
      | [] => (qp, .exit)
      | _ :: _ =>
        ({ qp with resp := { qp.resp with wqe := .head, status := .wrFlushErr } }, .complete)
    else (qp, .exit)
  else
    match pkt with
    | none => (qp.emit .oops, .exit)
    | some pkt =>
      if pkt.mask.readMask ∨ pkt.mask.atomicMask then
        if qp.maxDestRdAtomic > 0 then (qp, .chkLength) else (qp, .errTooManyRdmaAtmReq)
      else if pkt.mask.rwrMask then
        match qp.srq with
        | some srqError => getSrqWqe qp srqError
        | none =>
          match qp.rq with
          | [] => ({ qp with resp := { qp.resp with wqe := .null } }, .errRnr)
          | _ :: _ => ({ qp with resp := { qp.resp with wqe := .head } }, .chkLength)
      else (qp, .chkLength)

/-- The first part of `check_rkey`: `va`, `rkey` and `resid` are latched from the
packet, which also tells the access to ask for. -/
def latchRkey (qp : RxeQp) (pkt : ReqPkt) : Option (RxeQp × Access) :=
  if pkt.mask.readMask ∨ pkt.mask.writeMask then
    let qp := if pkt.mask.rethMask then
        { qp with resp := { qp.resp with
            va := pkt.reth.va, rkey := pkt.reth.rkey, resid := pkt.reth.len } }
      else qp
    some (qp, if pkt.mask.readMask then .remoteRead else .remoteWrite)
  else if pkt.mask.atomicMask then
    some ({ qp with resp := { qp.resp with
      va := pkt.atmeth.va, rkey := pkt.atmeth.rkey, resid := 8 } }, .remoteAtomic)
  else none

/-- The length checks of `check_rkey` on a WRITE packet. -/
def writeLengthOk (mtu : Nat) (resid : UInt32) (pkt : ReqPkt) : Bool :=
  if resid.toNat > mtu then pkt.payloadSize = mtu ∧ pkt.pad = 0
  else pkt.payloadSize = resid.toNat ∧ pkt.pad = ((0 - resid) &&& 3).toNat

def checkRkey (qp : RxeQp) (pkt : ReqPkt) : RxeQp × RespState :=
  match latchRkey qp pkt with
  | none => (qp, .execute)
  | some (qp, access) =>
    if (pkt.mask.readMask ∨ pkt.mask.writeMask ∨ pkt.mask.sendMask) ∧ pkt.mask.rethMask ∧
        pkt.reth.len = 0 then
      (qp, .execute)
    else
      match lookupMem qp.mrs access qp.resp.rkey with
      | none => (qp, .errRkeyViolation)
      | some index =>
        match qp.mrs index with
        | none => (qp, .errRkeyViolation)
        | some mem =>
          if mem.state = .free then (qp, .errRkeyViolation)
          else if memCheckRange mem qp.resp.va qp.resp.resid.toUInt64 = false then
            (qp, .errRkeyViolation)
          else if pkt.mask.writeMask ∧ writeLengthOk qp.mtu qp.resp.resid pkt = false then
            (qp, .errLength)
          else ({ qp with resp := { qp.resp with mr := some index } }, .execute)

/-- `send_data_in`, through `copy_data`. -/
def sendDataIn (env : RespEnv) (qp : RxeQp) (data : List UInt8) : RxeQp × RespState :=
  match qp.curWqe with
  | none => (qp.emit .oops, .exit)
  | some w =>
    if data = [] then (qp, .none)
    else if data.length > w.length - w.buf.length then (qp, .errMalformedWqe)
    else if env.lookupLocal = false then (qp, .errMalformedWqe)
    else (qp.setCurWqe { w with buf := w.buf ++ data }, .none)

def writeDataIn (qp : RxeQp) (pkt : ReqPkt) : RxeQp × RespState :=
  match rxeMemCopy qp.mrs qp.resp.mr qp.resp.va pkt.payloadSize with
  | .oops => ((qp.emit (.writeIn qp.resp.mr qp.resp.va pkt.payload)).emit .oops, .exit)
  | .err => (qp, .errRkeyViolation)
  | .ok =>
    let qp := qp.emit (.writeIn qp.resp.mr qp.resp.va pkt.payload)
    ({ qp with resp := { qp.resp with
        va := qp.resp.va + .ofNat pkt.payloadSize
        resid := qp.resp.resid - .ofNat pkt.payloadSize } }, .none)

/-- The eight bytes at an address, least significant first. -/
def RespEnv.read64 (env : RespEnv) (mr : Nat) (va : UInt64) : UInt64 :=
  (List.range 8).foldr (fun i x => x <<< 8 ||| (env.mem mr (va + .ofNat i)).toUInt64) 0

def processAtomic (env : RespEnv) (qp : RxeQp) (pkt : ReqPkt) : RxeQp × RespState :=
  match qp.resp.mr with
  | none => (qp.emit .oops, .exit)
  | some index =>
    match qp.mrs index with
    | none => (qp.emit .oops, .exit)
    | some mem =>
      if mem.state ≠ .valid then (qp, .errRkeyViolation)
      else if memCheckRange mem pkt.atmeth.va 8 = false ∨ env.aligned = false then
        (qp, .errMisalignedAtomic)
      else
        let orig := env.read64 index pkt.atmeth.va
        let qp := { qp with resp := { qp.resp with atomicOrig := orig } }
        if pkt.opcode.op = .compareSwap ∧ pkt.opcode.transport ∈ [.rc, .rd] then
          if orig = pkt.atmeth.comp then
            (qp.emit (.atomicWrite index pkt.atmeth.va pkt.atmeth.swapAdd), .none)
          else (qp, .none)
        else (qp.emit (.atomicWrite index pkt.atmeth.va (orig + pkt.atmeth.swapAdd)), .none)

/-- `rxe_xmit_packet` of a response: silently dropped unless the responder is ready.
The result tells whether the call returned 0. -/
def xmitResponse (env : RespEnv) (qp : RxeQp) (p : RespPkt) : RxeQp × Bool :=
  if qp.resp.state ≠ .ready then (qp, true)
  else if env.xmit then (qp.emit (.send p), true)
  else (qp, false)

/-- Length of a response packet from BTH to ICRC. -/
def ackPaylen (o : Op) (payload : Int) : Int :=
  let length : Int := match o with
    | .rdmaReadResponseMiddle => 12
    | .atomicAcknowledge => 24
    | _ => 16
  length + payload + (-payload) % 4 + 4

/-- `prepare_ack_packet` without the payload; `none` when no packet can be built. -/
def prepareAckPacket (env : RespEnv) (qp : RxeQp) (op : Op) (payload : Int) (psn : Psn)
    (syndrome : UInt8) : Option RespPkt :=
  if env.initPacket (ackPaylen op payload) then
    some { opcode := ⟨.rc, op⟩, psn := psn
           syn := if op.mask.aethMask then syndrome else 0
           msn := if op.mask.aethMask then qp.resp.msn else 0
           orig := if op.mask.atmackMask then qp.resp.atomicOrig else 0 }
  else none

/-- The slot that `read_reply` fills for a READ it sees for the first time. -/
def newReadRes (qp : RxeQp) (r : RespRes) (pkt : ReqPkt) : RespRes :=
  { r with
    type := .read
    replay := false
    va := qp.resp.va
    vaOrg := qp.resp.va
    firstPsn := pkt.psn
    lastPsn := if pkt.reth.len = 0 then pkt.psn
      else pkt.psn + .ofNat 24 ((pkt.reth.len + .ofNat qp.mtu - 1).toNat / qp.mtu) - 1
    curPsn := pkt.psn
    resid := qp.resp.resid
    length := qp.resp.resid
    rkey := qp.resp.rkey
    ptr := match qp.resp.mr with
      | none => .null
      | some i => .mem i
    state := .new
    req := pkt.reth }

/-- The first part of `read_reply`: the slot being answered, which is taken at
`res_head` when no READ is in progress. `none` if the pointer leads nowhere. -/
def readReplyRes (qp : RxeQp) (pkt : ReqPkt) : Option (RxeQp × Nat × RespRes) :=
  match qp.resp.res with
  | some _ =>
    match qp.liveRes with
    | none => none
    | some i => (qp.slot i).map fun r => (qp, i, r)
  | none =>
    match qp.resp.resources with
    | none => none
    | some a =>
      match a.slots[qp.resp.resHead]? with
      | none => none
      | some r =>
        let res := newReadRes qp r pkt
        let i := qp.resp.resHead
        let qp := (rxeAdvanceRespResource (qp.setSlot i res)).remember res
        some ({ qp with resp := { qp.resp with mr := none, res := some (a.gen, i) } }, i, res)

/-- The opcode of the next response of a READ. -/
def readReplyOp (mtu : Nat) (r : RespRes) : Op :=
  if r.state = .new then
    if r.resid.toNat ≤ mtu then .rdmaReadResponseOnly else .rdmaReadResponseFirst
  else if r.resid.toNat > mtu then .rdmaReadResponseMiddle
  else .rdmaReadResponseLast

/-- `payload` of `read_reply`, an `int`. -/
def readReplyPayload (mtu : Nat) (r : RespRes) : Int := min (I32.wrap r.resid.toNat) mtu

/-- `rxe_mem_copy` out of the region of a slot. -/
def readCopy (qp : RxeQp) (r : RespRes) (payload : Int) : CopyResult :=
  match r.ptr with
  | .null => rxeMemCopy qp.mrs none r.va payload
  | .mem i => rxeMemCopy qp.mrs (some i) r.va payload
  | .skb _ => if payload = 0 then .ok else .oops

/-- The bytes that a response takes out of the region of its slot. -/
def readBytes (env : RespEnv) (r : RespRes) (payload : Int) : List UInt8 :=
  match r.ptr with
  | .mem i => (List.range payload.toNat).map fun k => env.mem i (r.va + .ofNat k)
  | _ => []

/-- The slot after a response of `payload` bytes. -/
def RespRes.advance (r : RespRes) (payload : Int) : RespRes :=
  { r with
    va := r.va + .ofNat (payload % 2 ^ 64).toNat
    resid := r.resid - .ofNat (payload % 2 ^ 32).toNat
    curPsn := r.curPsn + 1 }

/-- The end of `read_reply`, after the response was sent; `r` is the slot after it. -/
def readReplyFinish (qp : RxeQp) (i : Nat) (r : RespRes) : RxeQp × RespState :=
  let qp := qp.setSlot i r
  if r.resid > 0 then (qp, .done)
  else
    ({ qp with resp := { qp.resp with
        res := none
        opcode := if r.replay then qp.resp.opcode else none
        psn := if psnCompare r.curPsn qp.resp.psn ≥ 0 then r.curPsn else qp.resp.psn } },
      .cleanup)

/-- The part of `read_reply` that hands the response to the network. -/
def readReplyXmit (env : RespEnv) (qp : RxeQp) (i : Nat) (r : RespRes) (payload : Int)
    (ack : RespPkt) : RxeQp × RespState :=
  let sent := xmitResponse env qp ack
  if sent.2 then readReplyFinish sent.1 i (r.advance payload) else (sent.1, .errRnr)

/-- The part of `read_reply` that builds the response `op` for the slot `i`. A copy
that fails is only reported, and the payload stays zero. -/
def readReplySend (env : RespEnv) (qp : RxeQp) (i : Nat) (r : RespRes) (op : Op) :
    RxeQp × RespState :=
  let payload := readReplyPayload qp.mtu r
  match prepareAckPacket env qp op payload r.curPsn aethAckUnlimited with
  | none => (qp, .errRnr)
  | some ack =>
    match readCopy qp r payload with
    | .oops => (qp.emit .oops, .exit)
    | .err =>
      readReplyXmit env qp i r payload { ack with payload := List.replicate payload.toNat 0 }
    | .ok =>
      readReplyXmit env (qp.emit (.readOut r.req r.va payload.toNat)) i r payload
        { ack with payload := readBytes env r payload }

def readReply (env : RespEnv) (qp : RxeQp) (pkt : ReqPkt) : RxeQp × RespState :=
  match readReplyRes qp pkt with
  | none => (qp.emit .oops, .exit)
  | some (qp, i, r) =>
    let next := { r with state := .next }
    readReplySend env (qp.setSlot i next) i next (readReplyOp qp.mtu r)

/-- The part of `execute` that moves the data of a SEND, WRITE or ATOMIC. -/
def executeData (env : RespEnv) (qp : RxeQp) (pkt : ReqPkt) : RxeQp × RespState :=
  if pkt.mask.sendMask then sendDataIn env qp pkt.payload
  else if pkt.mask.writeMask then writeDataIn qp pkt
  else if pkt.mask.atomicMask then processAtomic env qp pkt
  else (qp, .none)

/-- The end of `execute`: the PSN expected next, and whether there is a completion. -/
def executeDone (qp : RxeQp) (pkt : ReqPkt) : RxeQp × RespState :=
  let resp := { qp.resp with
    psn := pkt.psn + 1
    ackPsn := pkt.psn + 1
    opcode := some pkt.opcode
    status := .success
    msn := if pkt.mask.compMask then qp.resp.msn + 1 else qp.resp.msn }
  ({ qp with resp := resp },
    if pkt.mask.compMask then .complete
    else if qp.qpType = .rc then .acknowledge
    else .cleanup)

def execute (env : RespEnv) (qp : RxeQp) (pkt : ReqPkt) : RxeQp × RespState :=
  let qp := qp.emit (.execute pkt)
  if pkt.mask.readMask ∧ ¬ pkt.mask.sendMask ∧ ¬ pkt.mask.writeMask then
    ({ qp with resp := { qp.resp with msn := qp.resp.msn + 1 } }, .readReply)
  else
    let r := executeData env qp pkt
    if r.2 = .none then executeDone r.1 pkt else r

/-- The completion that `do_complete` posts for `resp.wqe`. -/
def recvCqe (qp : RxeQp) (pkt : Option ReqPkt) (w : RecvWqe) : RecvCqe :=
  match pkt, qp.resp.status with
  | some p, .success =>
    { wrId := w.wrId, status := .success
      rdmaWithImm := p.mask.immdtMask && p.mask.writeMask
      imm := if p.mask.immdtMask then some p.imm else none
      invalidate := if p.mask.iethMask then some p.ieth else none
      data := w.buf }
  | _, status => { wrId := w.wrId, status := status }

/-- A SEND with invalidate on a kernel CQ: the region that is freed, or `none` if
the key names no region. -/
def invalidateMr (qp : RxeQp) (key : UInt32) : Option RxeQp :=
  let index := (key >>> 8).toNat
  (qp.mrs index).map fun mem =>
    { qp with mrs := fun i => if i = index then some { mem with state := .free } else qp.mrs i }

/-- The invalidation in `do_complete`, which a user CQ leaves to the process. -/
def invalidateOnComplete (qp : RxeQp) (cqe : RecvCqe) : Option RxeQp :=
  match qp.rcqIsUser, cqe.invalidate with
  | false, some key => invalidateMr qp key
  | _, _ => some qp

/-- The receive element is given back and `resp.wqe` becomes NULL. -/
def popWqe (qp : RxeQp) : RxeQp :=
  { qp with
    rq := if qp.srq.isNone then qp.rq.tail else qp.rq
    resp := { qp.resp with wqe := .null } }

/-- The end of `do_complete`, from `rxe_cq_post` on. -/
def completePost (env : RespEnv) (qp : RxeQp) (pkt : Option ReqPkt) (cqe : RecvCqe) :
    RxeQp × RespState :=
  if env.cqPost = false then (qp, .errCqOverflow)
  else
    (qp.emit (.recv cqe),
      if qp.resp.state = .error then .chkResource
      else if pkt.isNone then .done
      else if qp.qpType = .rc then .acknowledge
      else .cleanup)

def doComplete (env : RespEnv) (qp : RxeQp) (pkt : Option ReqPkt) : RxeQp × RespState :=
  match qp.curWqe with
  | none => (qp, .cleanup)
  | some w =>
    match invalidateOnComplete qp (recvCqe qp pkt w) with
    | none => (qp, .error)
    | some qp' => completePost env (popWqe qp') pkt (recvCqe qp pkt w)

def sendAck (env : RespEnv) (qp : RxeQp) (syndrome : UInt8) (psn : Psn) : RxeQp :=
  match prepareAckPacket env qp .acknowledge 0 psn syndrome with
  | none => qp
  | some ack => (xmitResponse env qp ack).1

def sendAtomicAck (env : RespEnv) (qp : RxeQp) (pkt : ReqPkt) (syndrome : UInt8) : RxeQp :=
  match prepareAckPacket env qp .atomicAcknowledge 0 pkt.psn syndrome with
  | none => qp
  | some ack =>
    match qp.slot qp.resp.resHead with
    | none => qp.emit .oops
    | some r =>
      let res :=
        { freeRdAtomicResource r with
          type := .atomic, ptr := .skb ack
          firstPsn := pkt.psn, lastPsn := pkt.psn, curPsn := pkt.psn }
      let qp := (rxeAdvanceRespResource (qp.setSlot qp.resp.resHead res)).remember res
      (xmitResponse env qp ack).1

def acknowledge (env : RespEnv) (qp : RxeQp) (pkt : ReqPkt) : RxeQp × RespState :=
  if qp.qpType ≠ .rc then (qp, .cleanup)
  else if qp.resp.aethSyndrome ≠ aethAckUnlimited then
    (sendAck env qp qp.resp.aethSyndrome pkt.psn, .cleanup)
  else if pkt.mask.atomicMask then (sendAtomicAck env qp pkt aethAckUnlimited, .cleanup)
  else if pkt.ackReq then (sendAck env qp aethAckUnlimited pkt.psn, .cleanup)
  else (qp, .cleanup)

def cleanup (qp : RxeQp) (pkt : Option ReqPkt) : RxeQp × RespState :=
  ({ qp with
      reqPkts := if pkt.isSome then qp.reqPkts.tail else qp.reqPkts
      resp := { qp.resp with mr := none } }, .done)

/-- How the search of `find_resource` ends; `oops` is a read outside of the array. -/
inductive FindResult where
  | found (i : Nat) (r : RespRes)
  | notFound
  | oops
  deriving Repr, DecidableEq

def RespRes.covers (r : RespRes) (psn : Psn) : Bool :=
  r.type ≠ .unused ∧ psnCompare psn r.firstPsn ≥ 0 ∧ psnCompare psn r.lastPsn ≤ 0

/-- The loop of `find_resource` from index `i`, with `n` slots to go. -/
def findResourceFrom (qp : RxeQp) (psn : Psn) : Nat → Nat → FindResult
  | _, 0 => .notFound
  | i, n + 1 =>
    match qp.slot i with
    | none => .oops
    | some r => if r.covers psn then .found i r else findResourceFrom qp psn (i + 1) n

def findResource (qp : RxeQp) (psn : Psn) : FindResult :=
  findResourceFrom qp psn 0 qp.maxDestRdAtomic.toNat

/-- The test of `duplicate_request` that a READ is a subset of the one in the slot. -/
def RespRes.accepts (r : RespRes) (reth : Reth) : Bool :=
  !(reth.va < r.vaOrg || reth.len > r.length ||
      reth.va + reth.len.toUInt64 > r.vaOrg + r.length.toUInt64) && reth.rkey = r.rkey

/-- The slot as `duplicate_request` resets it for a replay. -/
def replayRes (r : RespRes) (pkt : ReqPkt) : RespRes :=
  { r with
    curPsn := pkt.psn
    state := if pkt.psn = r.firstPsn then .new else .replay
    replay := true
    vaOrg := pkt.reth.va
    va := pkt.reth.va
    resid := pkt.reth.len }

/-- The resending of an atomic's result. The packet given to `rxe_xmit_packet` is the request, so
the requester's state decides. -/
def resendAtomic (env : RespEnv) (qp : RxeQp) (r : RespRes) : RxeQp × RespState :=
  let qp := qp.emit (.replayAtomic r.type)
  match r.ptr with
  | .skb p =>
    if qp.req.state = .ready ∧ env.xmit then (qp.emit (.send p), .cleanup) else (qp, .cleanup)
  | _ => (qp.emit .oops, .exit)

def duplicateRequest (env : RespEnv) (qp : RxeQp) (pkt : ReqPkt) : RxeQp × RespState :=
  if pkt.mask.sendMask ∨ pkt.mask.writeMask then
    if pkt.ackReq then (sendAck env qp aethAckUnlimited (qp.resp.ackPsn - 1), .cleanup)
    else (qp, .cleanup)
  else if pkt.mask.readMask then
    match findResource qp pkt.psn with
    | .oops => (qp.emit .oops, .exit)
    | .notFound => (qp, .cleanup)
    | .found i r =>
      if r.accepts pkt.reth = false then (qp, .cleanup)
      else
        let qp := (qp.setSlot i (replayRes r pkt)).emit (.replayRead r.type)
        ({ qp with resp := { qp.resp with
            res := qp.resp.resources.map fun a => (a.gen, i) } }, .readReply)
  else
    match findResource qp pkt.psn with
    | .oops => (qp.emit .oops, .exit)
    | .notFound => (qp, .cleanup)
    | .found _ r => resendAtomic env qp r

def doClassAcError (qp : RxeQp) (syndrome : UInt8) (status : RecvStatus) : RxeQp :=
  { qp with resp := { qp.resp with
      aethSyndrome := syndrome, status := status, gotoError := true } }

def doClassD1eError (qp : RxeQp) : RxeQp × RespState :=
  if qp.srq.isSome then
    let qp := { qp with resp := { qp.resp with dropMsg := true } }
    if qp.resp.wqe ≠ .null then
      ({ qp with resp := { qp.resp with status := .remInvReqErr } }, .complete)
    else (qp, .cleanup)
  else
    let qp := match qp.curWqe with
      | none => qp
      | some w =>
        let qp := qp.setCurWqe { w with buf := [] }
        { qp with resp := { qp.resp with opcode := none } }
    ({ qp with resp := { qp.resp with mr := none } }, .cleanup)

def rxeQpError (qp : RxeQp) : RxeQp :=
  { qp with
    req := { qp.req with state := .error }
    resp := { qp.resp with state := .error }
    qpState := .err }

def rxeDrainReqPkts (qp : RxeQp) : RxeQp :=
  { qp with reqPkts := [], rq := if qp.srq.isNone then [] else qp.rq }

/-! ## The loop -/

/-- The state of the loop: either it goes on with a QP, a packet and a state, or
it has returned. -/
inductive RespStep where
  | next (qp : RxeQp) (pkt : Option ReqPkt) (state : RespState)
  | stop (qp : RxeQp)

/-- A state that works on the packet. -/
def withPkt (qp : RxeQp) (pkt : Option ReqPkt) (f : ReqPkt → RxeQp × RespState) : RespStep :=
  match pkt with
  | none => .stop (qp.emit .oops)
  | some p => .next (f p).1 pkt (f p).2

/-- `RESPST_DONE` and `RESPST_EXIT`. -/
def leave (qp : RxeQp) (pkt : Option ReqPkt) : RespStep :=
  if qp.resp.gotoError then .next qp pkt .error else .stop qp

/-- The `switch` of `rxe_responder`. -/
def respStep (env : RespEnv) (qp : RxeQp) (pkt : Option ReqPkt) (state : RespState) : RespStep :=
  match state with
  | .none => .stop qp
  | .getReq => .next (getReq qp).1 (getReq qp).2.1 (getReq qp).2.2
  | .chkPsn => withPkt qp pkt (checkPsn qp)
  | .chkOpSeq => withPkt qp pkt (checkOpSeq qp)
  | .chkOpValid => withPkt qp pkt (checkOpValid qp)
  | .chkResource => .next (checkResource qp pkt).1 pkt (checkResource qp pkt).2
  | .chkLength => .next qp pkt .chkRkey
  | .chkRkey => withPkt qp pkt (checkRkey qp)
  | .execute => withPkt qp pkt (execute env qp)
  | .readReply => withPkt qp pkt (readReply env qp)
  | .complete => .next (doComplete env qp pkt).1 pkt (doComplete env qp pkt).2
  | .acknowledge => withPkt qp pkt (acknowledge env qp)
  | .cleanup => .next (cleanup qp pkt).1 pkt (cleanup qp pkt).2
  | .duplicateRequest => withPkt qp pkt (duplicateRequest env qp)
  | .errPsnOutOfSeq => .next (sendAck env qp aethNakPsnSeqError qp.resp.psn) pkt .cleanup
  | .errTooManyRdmaAtmReq | .errMissingOpcodeFirst | .errMissingOpcodeLastC
  | .errUnsupportedOpcode | .errMisalignedAtomic =>
    .next (doClassAcError qp aethNakInvalidReq .remInvReqErr) pkt .complete
  | .errMissingOpcodeLastD1e => .next (doClassD1eError qp).1 pkt (doClassD1eError qp).2
  | .errRnr =>
    match qp.qpType with
    | .rc =>
      withPkt qp pkt fun p =>
        (sendAck env qp (aethRnrNak ||| (~~~aethTypeMask &&& qp.minRnrTimer)) p.psn, .cleanup)
    | .uc => .next { qp with resp := { qp.resp with dropMsg := true } } pkt .cleanup
  | .errRkeyViolation =>
    match qp.qpType with
    | .rc => .next (doClassAcError qp aethNakRemAccErr .remAccessErr) pkt .complete
    | .uc =>
      if qp.srq.isSome then
        .next { qp with resp := { qp.resp with dropMsg := true, status := .remAccessErr } }
          pkt .complete
      else .next { qp with resp := { qp.resp with dropMsg := true } } pkt .cleanup
  | .errLength =>
    match qp.qpType with
    | .rc => .next (doClassAcError qp aethNakInvalidReq .remInvReqErr) pkt .complete
    | .uc =>
      if qp.srq.isSome then
        .next { qp with resp := { qp.resp with status := .remInvReqErr } } pkt .complete
      else .next { qp with resp := { qp.resp with dropMsg := true } } pkt .cleanup
  | .errMalformedWqe => .next (doClassAcError qp aethNakRemOpErr .locQpOpErr) pkt .complete
  | .errCqOverflow => .next qp pkt .error
  | .done | .exit => leave qp pkt
  | .reset => .stop { rxeDrainReqPkts qp with resp := { qp.resp with wqe := .null } }
  | .error => .stop (rxeQpError { qp with resp := { qp.resp with gotoError := false } })

/-- The `while` loop; `none` if the fuel runs out. -/
def respLoop (env : RespEnv) : Nat → RxeQp → Option ReqPkt → RespState → Option RxeQp
  | 0, _, _, _ => none
  | fuel + 1, qp, pkt, state =>
    match respStep env qp pkt state with
    | .stop qp => some qp
    | .next qp pkt state => respLoop env fuel qp pkt state

/-- Enough fuel: a chain of checks for one packet, or what an error QP drains. -/
def respFuel (qp : RxeQp) : Nat := 32 + qp.reqPkts.length + 8 * qp.rq.length

def rxeResponder (env : RespEnv) (qp : RxeQp) : Option RxeQp :=
  let qp := { qp with resp := { qp.resp with aethSyndrome := aethAckUnlimited } }
  respLoop env (respFuel qp) qp none (if qp.resp.state = .reset then .reset else .getReq)

/-- The test of `check_type_state` on the transport bits of the opcode. -/
def typeOk (t : QpType) (o : Opcode) : Bool :=
  match t with
  | .rc => o.code &&& Transport.rc.code = 0
  | .uc => o.code &&& Transport.uc.code ≠ 0

def rxeRcvOk (qp : RxeQp) (pkt : ReqPkt) : Bool :=
  pkt.mask.reqMask && qp.resp.state = .ready && typeOk qp.qpType pkt.opcode

def rxeRespQueuePkt (qp : RxeQp) (pkt : ReqPkt) : RxeQp :=
  if rxeRcvOk qp pkt then { qp with reqPkts := qp.reqPkts ++ [pkt] } else qp

end Rxe
