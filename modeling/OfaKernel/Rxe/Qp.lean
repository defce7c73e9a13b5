-- SUMMARY: The state of a connected rxe QP.
import OfaKernel.Rxe.Packet
import OfaKernel.Rxe.Queue

/-!
# Queue pairs

A connected QP, RC or UC. What the rest of the kernel can see of its work is recorded in `log`,
newest event first. An access through a pointer that does not lead to the object the code takes
it for is the event `oops`. Indices into the send queue count from the consumer. Lengths and
offsets of a scatter list are those of the one buffer that it describes.
-/

namespace Rxe

/-! ## States and statuses -/

inductive QpType where
  | rc
  | uc
  deriving Repr, DecidableEq

def QpType.transport : QpType → Transport
  | .rc => .rc
  | .uc => .uc

inductive QpState where
  | reset
  | init
  | ready
  | drain
  | drained
  | error
  deriving Repr, DecidableEq

inductive IbQpState where
  | reset
  | init
  | rtr
  | rts
  | sqd
  | sqe
  | err
  deriving Repr, DecidableEq

/-- The values of `enum ib_wc_status` that the responder reports. -/
inductive RecvStatus where
  | success
  | locQpOpErr
  | wrFlushErr
  | remInvReqErr
  | remAccessErr
  deriving Repr, DecidableEq

/-- The values of `enum ib_wc_status` that the completer reports. -/
inductive SendStatus where
  | success
  | locQpOpErr
  | locProtErr
  | wrFlushErr
  | mwBindErr
  | remInvReqErr
  | remAccessErr
  | remOpErr
  | retryExcErr
  | rnrRetryExcErr
  | fatalErr
  deriving Repr, DecidableEq

/-! ## Work requests -/

/-- The values of `enum ib_wr_opcode` that a connected QP takes. -/
inductive WrOpcode where
  | rdmaWrite
  | rdmaWriteWithImm
  | send
  | sendWithImm
  | rdmaRead
  | atomicCmpAndSwp
  | atomicFetchAndAdd
  | sendWithInv
  | rdmaReadWithInv
  | localInv
  | regMr
  deriving Repr, DecidableEq

/-- A send work request. `data` is what the local buffers of a SEND or WRITE hold,
`localLength` the length of those that a READ or an atomic fills. -/
structure SendWr where
  wrId : Nat
  opcode : WrOpcode
  signaled : Bool := true
  fence : Bool := false
  data : List UInt8 := []
  localLength : Nat := 0
  remoteAddr : UInt64 := 0
  rkey : UInt32 := 0
  compareAdd : UInt64 := 0
  swap : UInt64 := 0
  imm : UInt32 := 0
  invalidateRkey : UInt32 := 0
  regMr : Nat := 0
  regKey : UInt32 := 0
  regAccess : List Access := []
  regIova : UInt64 := 0
  deriving Repr, DecidableEq

/-- `struct rxe_send_wqe`; `buf` is what the responses have stored so far. -/
structure SendWqe where
  wr : SendWr
  length : Nat
  resid : Nat
  buf : List UInt8 := []
  iova : UInt64 := 0
  state : WqeState := .posted
  status : SendStatus := .success
  firstPsn : Psn := 0
  lastPsn : Psn := 0
  hasRdAtomic : Bool := false
  deriving Repr, DecidableEq

/-- `struct rxe_recv_wqe` with its scatter list as one buffer: `buf` is what has
been copied into it, so that `dma.resid` is `length - buf.length`. -/
structure RecvWqe where
  wrId : Nat
  length : Nat
  buf : List UInt8 := []
  deriving Repr, DecidableEq

/-- `resp.wqe`: NULL, the element at the head of the receive queue, or the copy
of an SRQ element. -/
inductive WqeRef where
  | null
  | head
  | srq (wqe : RecvWqe)
  deriving Repr, DecidableEq

/-- `resp_res.type`: 0, `RXE_READ_MASK` or `RXE_ATOMIC_MASK`. -/
inductive ResType where
  | unused
  | read
  | atomic
  deriving Repr, DecidableEq

inductive RdatmResState where
  | next
  | new
  | replay
  deriving Repr, DecidableEq

/-- The word that `read.mr` and `atomic.skb` share. -/
inductive ResPtr where
  | null
  | mem (index : Nat)
  | skb (p : RespPkt)
  deriving Repr, DecidableEq

/-- `struct resp_res`. `req` is not in the source: it remembers the READ the slot
was last filled for. -/
structure RespRes where
  type : ResType := .unused
  replay : Bool := false
  firstPsn : Psn := 0
  lastPsn : Psn := 0
  curPsn : Psn := 0
  state : RdatmResState := .next
  ptr : ResPtr := .null
  vaOrg : UInt64 := 0
  rkey : UInt32 := 0
  length : UInt32 := 0
  va : UInt64 := 0
  resid : UInt32 := 0
  req : Reth := ⟨0, 0, 0⟩
  deriving Repr, DecidableEq

/-- A READ or an atomic that has taken a slot, with its PSNs. -/
structure RingReq where
  type : ResType
  firstPsn : Psn
  lastPsn : Psn
  deriving DecidableEq

def RespRes.ringReq (r : RespRes) : RingReq := ⟨r.type, r.firstPsn, r.lastPsn⟩

/-- One allocation of `resp.resources`; `gen` tells it from the earlier ones. -/
structure ResArray where
  gen : Nat
  slots : List RespRes
  deriving Repr, DecidableEq

/-- `struct rxe_resp_info`. A pointer to a slot is the allocation and the index. -/
structure RespInfo where
  state : QpState := .reset
  msn : UInt32 := 0
  psn : Psn := 0
  ackPsn : Psn := 0
  opcode : Option Opcode := none
  dropMsg : Bool := false
  gotoError : Bool := false
  sentPsnNak : Bool := false
  status : RecvStatus := .success
  aethSyndrome : UInt8 := 0
  wqe : WqeRef := .null
  va : UInt64 := 0
  mr : Option Nat := none
  resid : UInt32 := 0
  rkey : UInt32 := 0
  atomicOrig : UInt64 := 0
  resources : Option ResArray := none
  resHead : Nat := 0
  res : Option (Nat × Nat) := none
  deriving Repr, DecidableEq

structure ReqInfo where
  state : QpState := .reset
  wqeIndex : Int := 0
  psn : Psn := 0
  opcode : Option Opcode := none
  rdAtomic : Int := 0
  waitFence : Bool := false
  needRdAtomic : Bool := false
  waitPsn : Bool := false
  needRetry : Bool := false
  noackPkts : Nat := 0
  deriving Repr, DecidableEq

structure CompInfo where
  psn : Psn := 0
  opcode : Option Opcode := none
  timeout : Bool := false
  timeoutRetry : Bool := false
  startedRetry : Bool := false
  retryCnt : Nat := 0
  rnrRetry : Nat := 0
  deriving Repr, DecidableEq

/-- A completion on the receive CQ, with the data that the buffer then holds. -/
structure RecvCqe where
  wrId : Nat
  status : RecvStatus
  rdmaWithImm : Bool := false
  imm : Option UInt32 := none
  invalidate : Option UInt32 := none
  data : List UInt8 := []
  deriving Repr, DecidableEq

/-- A completion on the send CQ. -/
structure SendCqe where
  wrId : Nat
  status : SendStatus
  opcode : WrOpcode
  byteLen : Nat
  deriving Repr, DecidableEq

inductive Event where
  /-- A response or a request is handed to the network. -/
  | send (p : RespPkt)
  | request (p : ReqPkt)
  | execute (p : ReqPkt)
  /-- `write_data_in` copies `data` to `va` of the region, NULL if `none`. -/
  | writeIn (mr : Option Nat) (va : UInt64) (data : List UInt8)
  | atomicWrite (mr : Nat) (va val : UInt64)
  /-- `read_reply` takes `len` bytes at `va` for the READ `req`. -/
  | readOut (req : Reth) (va : UInt64) (len : Nat)
  | recv (cqe : RecvCqe)
  | sendComp (cqe : SendCqe)
  /-- A duplicate is answered from a slot of the given type. -/
  | replayRead (type : ResType)
  | replayAtomic (type : ResType)
  /-- `free_rd_atomic_resources` goes over `visited` slots of an array of `allocated`. -/
  | freeResources (visited allocated : Nat)
  | oops
  deriving Repr, DecidableEq

/-- `struct rxe_qp`. `srq` tells whether there is an SRQ, whose queue is then `rq`, and whether it
is in error. `sqBehind` is the send element consumed last, `sqSlots` the number of slots of the
ring; `hasTimeout` says that `qp_timeout_jiffies` is not 0. -/
structure RxeQp where
  qpType : QpType := .rc
  pathMtu : IbMtu := .mtu256
  accessFlags : List Access := []
  maxRdAtomic : UInt8 := 0
  maxDestRdAtomic : UInt8 := 0
  minRnrTimer : UInt8 := 0
  retryCnt : Nat := 0
  rnrRetry : Nat := 0
  hasTimeout : Bool := false
  qpState : IbQpState := .reset
  srq : Option Bool := none
  rcqIsUser : Bool := true
  sigAll : Bool := false
  sq : List SendWqe := []
  sqBehind : Option SendWqe := none
  sqSlots : Nat := 2
  rq : List RecvWqe := []
  reqPkts : List ReqPkt := []
  respPkts : List RespPkt := []
  mrs : MrPool := fun _ => none
  req : ReqInfo := {}
  comp : CompInfo := {}
  resp : RespInfo := {}
  retransTimer : Bool := false
  rnrNakTimer : Bool := false
  /-- How many arrays of responder resources were allocated so far. -/
  allocs : Nat := 0
  /-- The requests that took a slot since the array was last emptied, the last one first. -/
  remembered : List RingReq := []
  log : List Event := []

def RxeQp.mtu (qp : RxeQp) : Nat := qp.pathMtu.toNat

def RxeQp.emit (qp : RxeQp) (e : Event) : RxeQp := { qp with log := e :: qp.log }

/-! ## Receive queue and responder resources -/

/-- The element that `resp.wqe` points to. -/
def RxeQp.curWqe (qp : RxeQp) : Option RecvWqe :=
  match qp.resp.wqe with
  | .null => none
  | .head => qp.rq.head?
  | .srq w => some w

/-- Write to the element that `resp.wqe` points to. -/
def RxeQp.setCurWqe (qp : RxeQp) (w : RecvWqe) : RxeQp :=
  match qp.resp.wqe with
  | .null => qp
  | .head => { qp with rq := w :: qp.rq.tail }
  | .srq _ => { qp with resp := { qp.resp with wqe := .srq w } }

/-- `resp.resources[i]`, if that lies in the array. -/
def RxeQp.slot (qp : RxeQp) (i : Nat) : Option RespRes :=
  match qp.resp.resources with
  | none => none
  | some a => a.slots[i]?

/-- Write `resp.resources[i]`. -/
def RxeQp.setSlot (qp : RxeQp) (i : Nat) (r : RespRes) : RxeQp :=
  match qp.resp.resources with
  | none => qp
  | some a =>
    { qp with resp := { qp.resp with resources := some { a with slots := a.slots.set i r } } }

/-- The index that `resp.res` points to, if its array is still there. -/
def RxeQp.liveRes (qp : RxeQp) : Option Nat :=
  match qp.resp.res, qp.resp.resources with
  | some (gen, i), some a => if gen = a.gen ∧ i < a.slots.length then some i else none
  | _, _ => none

def freeRdAtomicResource (r : RespRes) : RespRes := { r with type := .unused }

/-- The request that filled slot `r` is remembered. -/
def RxeQp.remember (qp : RxeQp) (r : RespRes) : RxeQp :=
  { qp with remembered := r.ringReq :: qp.remembered }

def rxeAdvanceRespResource (qp : RxeQp) : RxeQp :=
  { qp with resp := { qp.resp with
      resHead := if qp.resp.resHead + 1 = qp.maxDestRdAtomic.toNat then 0
        else qp.resp.resHead + 1 } }

end Rxe
