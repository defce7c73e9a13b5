-- SUMMARY: The modify verb of an rxe QP.
import OfaKernel.Rxe.ResponderRun
import OfaKernel.Rxe.Completer

/-!
# Modifying a QP

`rxe_modify_qp` checks the mask and the values and then applies the attributes one by one.
Attributes that no modelled function reads count only in the mask.
-/

namespace Rxe

/-! ## Attribute masks -/

/-- `enum ib_qp_attr_mask`, as far as the table has it for RC and UC. -/
inductive QpAttrMask where
  | state
  | curState
  | enSqdAsyncNotify
  | accessFlags
  | pkeyIndex
  | port
  | qkey
  | av
  | pathMtu
  | timeout
  | retryCnt
  | rnrRetry
  | rqPsn
  | maxQpRdAtomic
  | altPath
  | minRnrTimer
  | sqPsn
  | maxDestRdAtomic
  | pathMigState
  | cap
  | destQpn
  | flowEntropy
  | oooRwDataPlacement
  | offloadType
  deriving Repr, DecidableEq

/-- The column of `qp_state_table` for a connected QP: the attributes a transition
requires and those it also takes, or `none` if it is not valid. -/
def qpStateTable (t : QpType) (cur next : IbQpState) :
    Option (List QpAttrMask × List QpAttrMask) :=
  match cur, next with
  | _, .reset => some ([], [])
  | .reset, .init => some ([.pkeyIndex, .port, .accessFlags], [.flowEntropy])
  | .init, .init => some ([], [.pkeyIndex, .port, .accessFlags])
  | .init, .rtr =>
    match t with
    | .rc => some ([.av, .pathMtu, .destQpn, .rqPsn, .maxDestRdAtomic, .minRnrTimer],
        [.altPath, .accessFlags, .pkeyIndex, .oooRwDataPlacement])
    | .uc => some ([.av, .pathMtu, .destQpn, .rqPsn], [.altPath, .accessFlags, .pkeyIndex])
  | .rtr, .rts =>
    match t with
    | .rc => some ([.timeout, .retryCnt, .rnrRetry, .sqPsn, .maxQpRdAtomic],
        [.curState, .altPath, .accessFlags, .minRnrTimer, .pathMigState, .offloadType])
    | .uc => some ([.sqPsn], [.curState, .altPath, .accessFlags, .pathMigState])
  | .rts, .rts =>
    match t with
    | .rc => some ([],
        [.curState, .accessFlags, .altPath, .pathMigState, .minRnrTimer, .offloadType])
    | .uc => some ([], [.curState, .accessFlags, .altPath, .pathMigState])
  | .rts, .sqd => some ([], [.enSqdAsyncNotify])
  | .sqd, .rts =>
    match t with
    | .rc => some ([], [.curState, .altPath, .accessFlags, .minRnrTimer, .pathMigState])
    | .uc => some ([], [.curState, .altPath, .accessFlags, .pathMigState])
  | .sqd, .sqd =>
    match t with
    | .rc => some ([], [.port, .av, .timeout, .retryCnt, .rnrRetry, .maxQpRdAtomic,
        .maxDestRdAtomic, .altPath, .accessFlags, .pkeyIndex, .minRnrTimer, .pathMigState])
    | .uc => some ([], [.av, .altPath, .accessFlags, .pkeyIndex, .pathMigState])
  | .sqe, .rts =>
    match t with
    | .rc => some ([], [])
    | .uc => some ([], [.curState, .accessFlags])
  | .init, .err | .rtr, .err | .rts, .err | .sqd, .err | .sqe, .err | .err, .err => some ([], [])
  | _, _ => none

def ibModifyQpIsOk (cur next : IbQpState) (t : QpType) (mask : List QpAttrMask) : Bool :=
  if .curState ∈ mask ∧ cur ∉ [.rtr, .rts, .sqd, .sqe] then false
  else
    match qpStateTable t cur next with
    | none => false
    | some (req, opt) =>
      (∀ a ∈ req, a ∈ mask) ∧ ∀ a ∈ mask, a ∈ req ∨ a ∈ opt ∨ a = .state

/-- `struct ib_qp_attr`. The last three tell whether the checks on the capabilities
and on the address vectors pass. -/
structure QpAttr where
  qpState : IbQpState := .reset
  curQpState : IbQpState := .reset
  portNum : Nat := 1
  accessFlags : List Access := []
  pathMtu : IbMtu := .mtu256
  timeout : Nat := 0
  retryCnt : Nat := 0
  rnrRetry : Nat := 0
  rqPsn : Psn := 0
  sqPsn : Psn := 0
  maxRdAtomic : UInt8 := 0
  maxDestRdAtomic : UInt8 := 0
  minRnrTimer : UInt8 := 0
  capOk : Bool := true
  avOk : Bool := true
  altPathOk : Bool := true

/-- The limits of the device. -/
structure RxeDev where
  maxMtu : IbMtu := .mtu4096
  maxQpRdAtom : Nat := 128

def rxeQpChkAttr (dev : RxeDev) (qp : RxeQp) (attr : QpAttr) (mask : List QpAttrMask) : Bool :=
  let cur := if .curState ∈ mask then attr.curQpState else qp.qpState
  let new := if .state ∈ mask then attr.qpState else cur
  ibModifyQpIsOk cur new qp.qpType mask &&
    !(.state ∈ mask && cur = .sqd && qp.req.state = .drain && new ≠ .err) &&
    !(.port ∈ mask && attr.portNum ≠ 1) &&
    !(.cap ∈ mask && !attr.capOk) &&
    !(.av ∈ mask && !attr.avOk) &&
    !(.altPath ∈ mask && !attr.altPathOk) &&
    !(.pathMtu ∈ mask && attr.pathMtu.toNat > dev.maxMtu.toNat) &&
    !(.maxQpRdAtomic ∈ mask && attr.maxRdAtomic.toNat > dev.maxQpRdAtom) &&
    !(.timeout ∈ mask && attr.timeout > 31)

/-- `alloc_rd_atomic_resources`; the flag tells whether `kcalloc` succeeds. -/
def allocRdAtomicResources (kcalloc : Bool) (qp : RxeQp) (n : Nat) : RxeQp :=
  { qp with
    allocs := qp.allocs + 1
    remembered := []
    resp := { qp.resp with
      resHead := 0
      resources := if kcalloc then some ⟨qp.allocs, List.replicate n {}⟩ else none } }

/-- `free_rd_atomic_resources`, which goes by the attribute and not by the array. -/
def freeRdAtomicResources (qp : RxeQp) : RxeQp :=
  match qp.resp.resources with
  | none => qp
  | some a =>
    let visited := qp.maxDestRdAtomic.toNat
    let qp := qp.emit (.freeResources visited a.slots.length)
    let qp := if visited > a.slots.length then qp.emit .oops else qp
    { qp with remembered := [], resp := { qp.resp with resources := none } }

def cleanupRdAtomicResources (qp : RxeQp) : RxeQp :=
  match qp.resp.resources with
  | none => qp
  | some a =>
    let visited := qp.maxDestRdAtomic.toNat
    let qp := if visited > a.slots.length then qp.emit .oops else qp
    let slots := a.slots.mapIdx fun i r => if i < visited then freeRdAtomicResource r else r
    { qp with
      remembered := [], resp := { qp.resp with resources := some { a with slots := slots } } }

/-- `rxe_qp_reset`: the three tasks are run in the reset state, then some of the
fields are cleared. -/
def rxeQpReset (qp : RxeQp) : RxeQp :=
  let qp := { qp with req := { qp.req with state := .reset }
                      resp := { qp.resp with state := .reset } }
  let qp := respond {} qp
  let qp := rxeDrainRespPkts qp false
  let qp := requesterReset qp
  let qp := { qp with
    sqBehind := none
    req := { qp.req with opcode := none, needRetry := false, noackPkts := 0 }
    resp := { qp.resp with
      msn := 0, opcode := none, dropMsg := false, gotoError := false, sentPsnNak := false
      mr := none } }
  cleanupRdAtomicResources qp

def rxeQpDrain (qp : RxeQp) : RxeQp :=
  if qp.req.state = .drained then qp else { qp with req := { qp.req with state := .drain } }

/-- The state change at the end of `rxe_qp_from_attr`. -/
def enterState (qp : RxeQp) (s : IbQpState) : RxeQp :=
  let qp := { qp with qpState := s }
  match s with
  | .reset => rxeQpReset qp
  | .init => { qp with req := { qp.req with state := .init }
                       resp := { qp.resp with state := .init } }
  | .rtr => { qp with resp := { qp.resp with state := .ready } }
  | .rts => { qp with req := { qp.req with state := .ready } }
  | .sqd => rxeQpDrain qp
  | .sqe => qp
  | .err => rxeQpError qp

/-- The part of `rxe_qp_from_attr` for the depths of the READ and atomic resources;
the flag tells whether it goes on. -/
def setRdAtomic (kcalloc : Bool) (qp : RxeQp) (attr : QpAttr) (mask : List QpAttrMask) :
    RxeQp × Bool :=
  let qp := if .maxQpRdAtomic ∈ mask then
      { qp with
        maxRdAtomic := .ofNat (roundupPowOfTwo attr.maxRdAtomic.toNat)
        req := { qp.req with rdAtomic := roundupPowOfTwo attr.maxRdAtomic.toNat } }
    else qp
  if .maxDestRdAtomic ∈ mask then
    let n := roundupPowOfTwo attr.maxDestRdAtomic.toNat
    let qp := freeRdAtomicResources { qp with maxDestRdAtomic := .ofNat n }
    (allocRdAtomicResources kcalloc qp n, kcalloc)
  else (qp, true)

/-- The part of `rxe_qp_from_attr` that copies single attributes. -/
def setAttrs (qp : RxeQp) (attr : QpAttr) (mask : List QpAttrMask) : RxeQp :=
  { qp with
    accessFlags := if .accessFlags ∈ mask then attr.accessFlags else qp.accessFlags
    pathMtu := if .pathMtu ∈ mask then attr.pathMtu else qp.pathMtu
    hasTimeout := if .timeout ∈ mask then attr.timeout ≠ 0 else qp.hasTimeout
    retryCnt := if .retryCnt ∈ mask then attr.retryCnt else qp.retryCnt
    rnrRetry := if .rnrRetry ∈ mask then attr.rnrRetry else qp.rnrRetry
    minRnrTimer := if .minRnrTimer ∈ mask then attr.minRnrTimer else qp.minRnrTimer
    req := { qp.req with psn := if .sqPsn ∈ mask then attr.sqPsn else qp.req.psn }
    comp := { qp.comp with
      psn := if .sqPsn ∈ mask then attr.sqPsn else qp.comp.psn
      retryCnt := if .retryCnt ∈ mask then attr.retryCnt else qp.comp.retryCnt
      rnrRetry := if .rnrRetry ∈ mask then attr.rnrRetry else qp.comp.rnrRetry }
    resp := { qp.resp with psn := if .rqPsn ∈ mask then attr.rqPsn else qp.resp.psn } }

def rxeQpFromAttr (kcalloc : Bool) (qp : RxeQp) (attr : QpAttr) (mask : List QpAttrMask) : RxeQp :=
  let r := setRdAtomic kcalloc qp attr mask
  if r.2 then
    let qp := setAttrs r.1 attr mask
    if .state ∈ mask then enterState qp attr.qpState else qp
  else r.1

def rxeModifyQp (dev : RxeDev) (kcalloc : Bool) (qp : RxeQp) (attr : QpAttr)
    (mask : List QpAttrMask) : RxeQp :=
  if rxeQpChkAttr dev qp attr mask then rxeQpFromAttr kcalloc qp attr mask else qp

/-- What can happen to a QP: a modify verb, a packet, a run of the responder, a new
receive element, an error that requester or completer report. -/
inductive QpAction where
  | modify (dev : RxeDev) (kcalloc : Bool) (attr : QpAttr) (mask : List QpAttrMask)
  | rcv (pkt : ReqPkt)
  | respond (env : RespEnv)
  | postRecv (wqe : RecvWqe)
  | error

def qpStep (qp : RxeQp) : QpAction → RxeQp
  | .modify dev kcalloc attr mask => rxeModifyQp dev kcalloc qp attr mask
  | .rcv pkt => rxeRespQueuePkt qp pkt
  | .respond env => respond env qp
  | .postRecv wqe => { qp with rq := qp.rq ++ [wqe] }
  | .error => rxeQpError qp

def newQp (t : QpType) (srq : Option Bool) (rcqIsUser : Bool) (mrs : MrPool) : RxeQp :=
  { qpType := t, srq := srq, rcqIsUser := rcqIsUser, mrs := mrs }

end Rxe
