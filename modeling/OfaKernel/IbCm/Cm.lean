-- SUMMARY: The IB communication manager of a node.
import Mathlib.Algebra.Group.Nat.Defs
import Mathlib.Data.Prod.Lex
import OfaKernel.Lib.KeyedTree

/-!
# The communication manager

The state of one node: its cm_ids, the allocated timewait_infos by address, the tables
`remote_id_table` and `remote_qp_table`, and `timewait_list`. What the code asks of its
surroundings are the answers in `Env`. Pointers to a timewait_info may dangle; what would corrupt
memory or a table is written down in `faults`. Times, retries and path records beyond their GIDs
are left out.
-/

namespace IbCm

inductive CmState where
  | idle
  | listen
  | reqSent
  | reqRcvd
  | mraReqSent
  | mraReqRcvd
  | repSent
  | repRcvd
  | mraRepSent
  | mraRepRcvd
  | established
  | dreqSent
  | dreqRcvd
  | timewait
  | sidrReqSent
  | sidrReqRcvd
  deriving DecidableEq, Repr

inductive LapState where
  | uninit
  | idle
  | sent
  | rcvd
  | mraSent
  | mraRcvd
  deriving DecidableEq, Repr

/-- `enum ib_qp_type`, as far as the CM tells them apart; `smi` is the value 0. -/
inductive QpType where
  | smi
  | rc
  | uc
  | xrcIni
  | xrcTgt
  deriving DecidableEq, Repr

inductive MsgResponse where
  | req
  | rep
  | other
  deriving DecidableEq, Repr

inductive RejReason where
  | timeout
  | invalidServiceId
  | staleConn
  | invalidGid
  | invalidAltGid
  | consumerDefined
  | other (code : Nat)
  deriving DecidableEq, Repr

/-! ## Messages -/

/-- The two ends of a path record. -/
structure Path where
  sgid : Nat
  dgid : Nat
  pkey : Nat := 0
  mtu : Nat := 0
  /-- It has LIDs, or is an OPA path: what `cm_req_has_alt_path` looks for. -/
  hasLid : Bool := true
  deriving DecidableEq, Repr

structure ReqMsg where
  localCommId : Nat
  serviceId : Nat
  localCaGuid : Nat
  localQpn : Nat
  startingPsn : Nat
  initDepth : Nat
  respRes : Nat
  retryCount : Nat
  rnrRetryCount : Nat
  pathMtu : Nat
  qpType : QpType
  primaryLocalGid : Nat
  primaryRemoteGid : Nat
  /-- `alt_local_gid` and `alt_remote_gid`, if `cm_req_has_alt_path`. -/
  alt : Option (Nat × Nat)
  deriving DecidableEq, Repr

structure RepMsg where
  localCommId : Nat
  remoteCommId : Nat
  localCaGuid : Nat
  localQpn : Nat
  localEecn : Nat
  startingPsn : Nat
  respResources : Nat
  initiatorDepth : Nat
  rnrRetryCount : Nat
  deriving DecidableEq, Repr

/-- The messages of the CM, with the ids of the sender and the receiver first. -/
inductive Body where
  | req (m : ReqMsg)
  | rep (m : RepMsg)
  | rtu (localCommId remoteCommId : Nat) (data : List Nat)
  | mra (localCommId remoteCommId : Nat) (mraed : MsgResponse) (serviceTimeout : Nat)
      (data : List Nat)
  | rej (localCommId remoteCommId : Nat) (rejected : MsgResponse) (reason : RejReason)
      (ari : Nat)
  | dreq (localCommId remoteCommId remoteQpn : Nat)
  | drep (localCommId remoteCommId : Nat) (data : List Nat)
  | lap (localCommId remoteCommId remoteQpn altLocalGid altRemoteGid : Nat)
  | apr (localCommId remoteCommId status : Nat)
  | sidrReq (requestId serviceId : Nat)
  | sidrRep (requestId status qpn : Nat)
  deriving DecidableEq, Repr

/-- A message between two ports. -/
structure Mad where
  src : Nat
  dst : Nat
  body : Body
  deriving DecidableEq, Repr

/-- A response goes back to where the message came from. -/
def Mad.reply (m : Mad) (body : Body) : Mad := { src := m.dst, dst := m.src, body }

/-! ## The state of a node -/

/-- The two tables that link timewait_infos. -/
inductive TwTable where
  | remoteId
  | remoteQp
  deriving DecidableEq, Repr

/-- `struct cm_timewait_info`; `queued` says that its delayed work is pending. -/
structure TimewaitInfo where
  localId : Nat
  remoteId : Nat := 0
  remoteCaGuid : Nat := 0
  remoteQpn : Nat := 0
  insertedRemoteQp : Bool := false
  insertedRemoteId : Bool := false
  queued : Bool := false
  deriving DecidableEq, Repr

namespace TimewaitInfo

def inserted (t : TimewaitInfo) : TwTable → Bool
  | .remoteId => t.insertedRemoteId
  | .remoteQp => t.insertedRemoteQp

def setInserted (t : TimewaitInfo) (tb : TwTable) (b : Bool) : TimewaitInfo :=
  match tb with
  | .remoteId => { t with insertedRemoteId := b }
  | .remoteQp => { t with insertedRemoteQp := b }

/-- What a table is ordered by. -/
def key (t : TimewaitInfo) : TwTable → Nat ×ₗ Nat
  | .remoteId => toLex (t.remoteId, t.remoteCaGuid)
  | .remoteQp => toLex (t.remoteQpn, t.remoteCaGuid)

end TimewaitInfo

/-- What the field `timewait_info` of a cm_id may hold. -/
inductive TwPtr where
  | null
  | err
  | ref (r : Nat)
  deriving DecidableEq, Repr

structure Av where
  port : Option Nat := none
  sgid : Nat := 0
  dgid : Nat := 0
  deriving DecidableEq, Repr

/-- `struct cm_id_private`. The lists hold the ports in whose list the id was entered, and
the timewait_infos among the pending works. -/
structure CmIdPrivate where
  caGuid : Nat
  state : CmState := .idle
  lapState : LapState := .uninit
  remoteId : Nat := 0
  listenSharecount : Nat := 0
  timewaitInfo : TwPtr := .null
  av : Av := {}
  altAv : Av := {}
  privateData : List Nat := []
  localQpn : Nat := 0
  remoteQpn : Nat := 0
  qpType : QpType := .smi
  sqPsn : Nat := 0
  rqPsn : Nat := 0
  pathMtu : Nat := 0
  responderResources : Nat := 0
  initiatorDepth : Nat := 0
  retryCount : Nat := 0
  rnrRetryCount : Nat := 0
  serviceTimeout : Nat := 0
  primList : List Nat := []
  altrList : List Nat := []
  workList : List Nat := []
  deriving DecidableEq, Repr

/-- `cm_alloc_msg` addresses a message of a cm_id by its primary path. -/
def CmIdPrivate.mad (p : CmIdPrivate) (body : Body) : Mad :=
  { src := p.av.sgid, dst := p.av.dgid, body }

/-- What must not happen to a timewait_info. -/
inductive Fault where
  /-- A pointer was followed that holds no timewait_info, or one that was handed over. -/
  | badPointer
  | freed
  /-- `kfree` of what is linked in a table or in `timewait_list`. -/
  | linked
  deriving DecidableEq, Repr

structure Cm where
  ids : Nat → Option CmIdPrivate := fun _ => none
  mem : Nat → Option TimewaitInfo := fun _ => none
  /-- The addresses from here on were never handed out. -/
  brk : Nat := 0
  /-- `remote_id_table` and `remote_qp_table`. -/
  tables : TwTable → SearchTree Nat := fun _ => .leaf
  timewaitList : List Nat := []
  faults : List Fault := []

/-- What stays the same while a node runs: its tree library and its table of GIDs. -/
structure Config where
  rb : SearchTree.Rebalance Nat
  gids : Nat → Option Nat

/-- How far `cm_init_av_by_path` gets once it has the port. -/
inductive PathAnswer where
  | noPkey
  | noAh
  | found
  deriving DecidableEq, Repr

/-- The answers a call or a handler gets from its surroundings. -/
structure Env where
  /-- The client data of the device, and whether it is `going_down`. -/
  cmDev : Option Bool := some false
  kzalloc : Bool := true
  kmemdup : Bool := true
  prim : PathAnswer := .found
  altr : PathAnswer := .found
  wcAh : Bool := true
  /-- `cm_alloc_msg` or `cm_alloc_response_msg`, and `ib_post_send_mad`. -/
  alloc : Bool := true
  post : Bool := true
  /-- The same for a second message of a handler. -/
  sentToo : Bool := true
  modifyMad : Bool := true
  listener : Bool := true
  sidrDup : Bool := false
  roce : Bool := false
  /-- The id `idr_alloc_cyclic` gives to a new cm_id. -/
  newId : Option Nat := none
  /-- The device and the port at which a message arrives. -/
  caGuid : Nat := 0
  port : Nat := 0
  /-- Another event of the cm_id is being processed. -/
  busy : Bool := false
  deriving Repr

/-- Allocated and posted. -/
def Env.sent (env : Env) : Bool := env.alloc && env.post

namespace Cm

def fault (s : Cm) (f : Fault) : Cm := { s with faults := f :: s.faults }

def setId (s : Cm) (l : Nat) (p : CmIdPrivate) : Cm :=
  { s with ids := Function.update s.ids l (some p) }

def setTw (s : Cm) (r : Nat) (t : TimewaitInfo) : Cm :=
  { s with mem := Function.update s.mem r (some t) }

def setTable (s : Cm) (tb : TwTable) (tree : SearchTree Nat) : Cm :=
  { s with tables := Function.update s.tables tb tree }

/-- The key that a descent reads at `r`. -/
def key (s : Cm) (tb : TwTable) (r : Nat) : Nat ×ₗ Nat :=
  (s.mem r).elim (toLex (0, 0)) fun t => t.key tb

/-- The timewait_info behind a pointer that may be followed. -/
def follow (s : Cm) : TwPtr → Option (Nat × TimewaitInfo)
  | .ref r => if r ∈ s.timewaitList then none else (s.mem r).map (r, ·)
  | _ => none

def kfree (s : Cm) : TwPtr → Cm
  | .null => s
  | .err => s.fault .badPointer
  | .ref r =>
    if (s.mem r).isNone then s.fault .freed
    else if r ∈ (s.tables .remoteId).toList ∨ r ∈ (s.tables .remoteQp).toList ∨
        r ∈ s.timewaitList then s.fault .linked
    else { s with mem := Function.update s.mem r none }

end Cm

/-! ## Timewait -/

section

variable (cfg : Config)

/-- The entry of a table with the key of `r`, or the table with `r` linked. -/
def insertTw (tb : TwTable) (s : Cm) (r : Nat) (t : TimewaitInfo) : Except Nat Cm :=
  match (s.tables tb).insertBy (s.key tb) r with
  | .error cur => .error cur
  | .ok tree => .ok ((s.setTw r (t.setInserted tb true)).setTable tb (cfg.rb.insertColor tree))

/-- `rb_erase`, and the flag. -/
def eraseTw (tb : TwTable) (s : Cm) (r : Nat) (t : TimewaitInfo) : Cm :=
  (s.setTw r (t.setInserted tb false)).setTable tb (cfg.rb.erase (s.tables tb) r)

def cmInsertRemoteId : Cm → Nat → TimewaitInfo → Except Nat Cm := insertTw cfg .remoteId

def cmInsertRemoteQpn : Cm → Nat → TimewaitInfo → Except Nat Cm := insertTw cfg .remoteQp

def cmFindRemoteId (s : Cm) (remoteCaGuid remoteId : Nat) : Option Nat :=
  (s.tables .remoteId).findBy (s.key .remoteId) (toLex (remoteId, remoteCaGuid))

/-- `if (timewait_info->inserted_...)` of `cm_cleanup_timewait`. -/
def cleanupTw (tb : TwTable) (s : Cm) (r : Nat) (t : TimewaitInfo) : Cm :=
  if t.inserted tb then eraseTw cfg tb s r t else s

def cmCleanupTimewait (s : Cm) (r : Nat) (t : TimewaitInfo) : Cm :=
  cleanupTw cfg .remoteQp (cleanupTw cfg .remoteId s r t) r (t.setInserted .remoteId false)

/-- A new timewait_info, or no memory. -/
def cmCreateTimewaitInfo (env : Env) (s : Cm) (localId : Nat) : TwPtr × Cm :=
  if env.kzalloc then (.ref s.brk, { s.setTw s.brk { localId } with brk := s.brk + 1 })
  else (.err, s)

/-- Without client data nothing is done, and the state stays. -/
def cmEnterTimewait (env : Env) (s : Cm) (l : Nat) (p : CmIdPrivate) : Cm :=
  match env.cmDev with
  | none => s.setId l p
  | some goingDown =>
    match s.follow p.timewaitInfo with
    | none => s.fault .badPointer
    | some (r, t) =>
      let s := cmCleanupTimewait cfg s r t
      let t := { t with insertedRemoteId := false, insertedRemoteQp := false, queued := !goingDown }
      let s := { s.setTw r t with timewaitList := s.timewaitList ++ [r] }
      s.setId l { p with state := .timewait, timewaitInfo := .null }

def cmResetToIdle (s : Cm) (l : Nat) (p : CmIdPrivate) : Cm :=
  if p.timewaitInfo = .null then s.setId l { p with state := .idle }
  else
    match s.follow p.timewaitInfo with
    | none => s.fault .badPointer
    | some (r, t) =>
      let s := (cmCleanupTimewait cfg s r t).kfree p.timewaitInfo
      s.setId l { p with state := .idle, timewaitInfo := .null }

end

/-! ## Lookups and addresses -/

def cmGetId (s : Cm) (localId remoteId : Nat) : Option CmIdPrivate :=
  (s.ids localId).filter fun p => p.remoteId = remoteId

/-- The two address vectors of a cm_id. -/
inductive AvKind where
  | primary
  | alternate
  deriving DecidableEq, Repr

def CmIdPrivate.setAv (p : CmIdPrivate) (kind : AvKind) (av : Av) : CmIdPrivate :=
  match kind with
  | .primary => { p with av }
  | .alternate => { p with altAv := av }

def CmIdPrivate.getAv (p : CmIdPrivate) : AvKind → Av
  | .primary => p.av
  | .alternate => p.altAv

def Env.path (env : Env) : AvKind → PathAnswer
  | .primary => env.prim
  | .alternate => env.altr

/-- `list_add_tail`, whatever lists the id is in. -/
def addCmIdToPortList (p : CmIdPrivate) (kind : AvKind) (port : Nat) : CmIdPrivate :=
  match kind with
  | .primary => { p with primList := p.primList ++ [port] }
  | .alternate => { p with altrList := p.altrList ++ [port] }

/-- The address vector is filled in, and the id entered in the list of the port. -/
def cmInitAvByPath (cfg : Config) (env : Env) (p : CmIdPrivate) (kind : AvKind) (path : Path) :
    CmIdPrivate × Bool :=
  match cfg.gids path.sgid, env.path kind with
  | none, _ => (p, false)
  | some _, .noPkey => (p, false)
  | some port, .noAh => (p.setAv kind { p.getAv kind with port := some port }, false)
  | some port, .found =>
    ((addCmIdToPortList p kind port).setAv kind
      { port := some port, sgid := path.sgid, dgid := path.dgid }, true)

/-- `cm_init_av_for_response`: back to where the message came from. -/
def avForResponse (env : Env) (m : Mad) : Av :=
  { port := some env.port, sgid := m.dst, dgid := m.src }

end IbCm
