-- SUMMARY: What the IB communication manager does with what reaches it.
import OfaKernel.IbCm.Calls
import OfaKernel.Lib.Run

/-!
# Handlers of the CM

The work handlers for each message, for a failed send and for the end of timewait, and `cmStep`,
one step of a node. The calls that a user's callback makes are steps that follow.
-/

namespace IbCm

section

variable (cfg : Config) (env : Env)

/-! ## REQ -/

/-- A duplicate REQ is answered from the state of the cm_id it created. -/
def cmDupReqHandler (m : Mad) (l : Nat) (p : CmIdPrivate) : List Mad :=
  match p.state with
  | .mraReqSent =>
    posted env (m.reply (cmFormatMra l p .req p.serviceTimeout p.privateData))
  | .timewait => posted env (m.reply (cmFormatRej l p .staleConn 0))
  | _ => []

/-- `cm_issue_rej`: a REJ for a message that has no cm_id. -/
def cmIssueRej (m : Mad) (localCommId remoteCommId : Nat) (reason : RejReason)
    (rejected : MsgResponse) : List Mad :=
  posted env (m.reply (.rej remoteCommId localCommId rejected reason 0))

/-- The label `free_timeinfo`, for an id that is idle. -/
def dropReq (s : Cm) (l : Nat) (p : CmIdPrivate) : Cm := freeId (s.kfree p.timewaitInfo) l p

/-- The cm_id that owns the timewait_info a new one ran into. -/
def ownerOf (s : Cm) (cur : Nat) : Option (Nat × CmIdPrivate) :=
  (s.mem cur).bind fun t => (cmGetId s t.localId t.remoteId).map (t.localId, ·)

/-- The stale connection that a REQ or REP ran into is taken down. -/
def dropStale (s : Cm) (cur : Nat) : Cm × List Mad :=
  match ownerOf s cur with
  | none => (s, [])
  | some (l, _) => ibSendCmDreq cfg env env.sentToo s l

/-- The new cm_id is given up (`none`) or has its listener. -/
def cmMatchReq (s : Cm) (m : Mad) (req : ReqMsg) (r : Nat) (t : TimewaitInfo) :
    Option Cm × Cm × List Mad :=
  match cmInsertRemoteId cfg s r t with
  | .error cur =>
    (none, s, (ownerOf s cur).elim [] fun (l, p) => cmDupReqHandler env m l p)
  | .ok s =>
    let t := t.setInserted .remoteId true
    match cmInsertRemoteQpn cfg s r t with
    | .error cur =>
      let s := cmCleanupTimewait cfg s r t
      let (s, out) := dropStale cfg env s cur
      (none, s, cmIssueRej env m req.localCommId 0 .staleConn .req ++ out)
    | .ok s =>
      if env.listener then (some s, s, [])
      else
        (none, cmCleanupTimewait cfg s r (t.setInserted .remoteQp true),
          cmIssueRej env m req.localCommId 0 .invalidServiceId .req)

/-- The paths of a REQ, seen from the passive side. -/
def ReqMsg.primaryPath (req : ReqMsg) : Path :=
  { sgid := req.primaryRemoteGid, dgid := req.primaryLocalGid }

def ReqMsg.altPath (req : ReqMsg) : Option Path :=
  req.alt.map fun (localGid, remoteGid) => { sgid := remoteGid, dgid := localGid }

/-- The label `rejected`, for a cm_id in `REQ_RCVD` whose path was not found. -/
def rejectReq (s : Cm) (l : Nat) (p : CmIdPrivate) (reason : RejReason) : Cm × List Mad :=
  let (s, out) := ibSendCmRej cfg env reason 0 (s.setId l p) l
  (match s.ids l with
    | none => s
    | some p => dropReq s l p, out)

/-- What the passive side takes from a REQ. -/
def reqRcvd (p : CmIdPrivate) (req : ReqMsg) : CmIdPrivate :=
  { p with
    remoteQpn := req.localQpn
    initiatorDepth := req.respRes
    responderResources := req.initDepth
    pathMtu := req.pathMtu
    sqPsn := req.startingPsn
    retryCount := req.retryCount
    rnrRetryCount := req.rnrRetryCount
    qpType := req.qpType }

/-- The rest of `cm_req_handler`, once the cm_id is in `REQ_RCVD`. -/
def acceptReq (s : Cm) (l : Nat) (p : CmIdPrivate) (req : ReqMsg) : Cm × List Mad :=
  match cmInitAvByPath cfg env p .primary req.primaryPath with
  | (p, false) => rejectReq cfg env s l p .invalidGid
  | (p, true) =>
    match req.altPath with
    | none => (s.setId l (reqRcvd p req), [])
    | some path =>
      match cmInitAvByPath cfg env p .alternate path with
      | (p, false) => rejectReq cfg env s l p .invalidAltGid
      | (p, true) => (s.setId l (reqRcvd p req), [])

def ReqMsg.timewaitInfo (req : ReqMsg) (l : Nat) : TimewaitInfo where
  localId := l
  remoteId := req.localCommId
  remoteCaGuid := req.localCaGuid
  remoteQpn := req.localQpn

def cmReqHandler (s : Cm) (m : Mad) (req : ReqMsg) : Cm × List Mad :=
  match env.newId with
  | none => (s, [])
  | some l =>
    if (s.ids l).isSome ∨ !env.wcAh ∨ !env.kzalloc then (s, [])
    else
      let r := s.brk
      let t := req.timewaitInfo l
      let p : CmIdPrivate := {
        caGuid := env.caGuid
        remoteId := req.localCommId
        av := avForResponse env m
        timewaitInfo := .ref r }
      let s := { (s.setTw r t).setId l p with brk := r + 1 }
      match cmMatchReq cfg env s m req r t with
      | (none, s, out) => (dropReq s l p, out)
      | (some s, _, _) => acceptReq cfg env s l { p with state := .reqRcvd } req

/-- A duplicate REP is answered with what the first one was. -/
def cmDupRepHandler (s : Cm) (m : Mad) (rep : RepMsg) : List Mad :=
  match cmGetId s rep.remoteCommId rep.localCommId with
  | none => []
  | some p =>
    match p.state with
    | .established => posted env (m.reply (.rtu rep.remoteCommId p.remoteId p.privateData))
    | .mraRepSent =>
      posted env (m.reply (cmFormatMra rep.remoteCommId p .rep p.serviceTimeout p.privateData))
    | _ => []

def RepMsg.qpn (rep : RepMsg) (qpType : QpType) : Nat :=
  if qpType = .xrcIni then rep.localEecn else rep.localQpn

/-- The connection is known on the active side. -/
def repRcvd (p : CmIdPrivate) (rep : RepMsg) : CmIdPrivate :=
  { p with
    state := .repRcvd
    remoteId := rep.localCommId
    remoteQpn := rep.qpn p.qpType
    initiatorDepth := rep.respResources
    responderResources := rep.initiatorDepth
    sqPsn := rep.startingPsn
    rnrRetryCount := rep.rnrRetryCount }

/-- The keys that a REP gives to the timewait_info, which is linked nowhere yet. -/
def RepMsg.rekey (rep : RepMsg) (t : TimewaitInfo) (qpType : QpType) : TimewaitInfo :=
  { t with
    remoteId := rep.localCommId
    remoteCaGuid := rep.localCaGuid
    remoteQpn := rep.qpn qpType }

def cmRepHandler (s : Cm) (m : Mad) (rep : RepMsg) : Cm × List Mad :=
  let l := rep.remoteCommId
  match cmGetId s l 0 with
  | none => (s, cmDupRepHandler env s m rep)
  | some p =>
    if p.state = .reqSent ∨ p.state = .mraReqRcvd then
      match s.follow p.timewaitInfo with
      | none => (s.fault .badPointer, [])
      | some (r, t) =>
        let t := rep.rekey t p.qpType
        let s := s.setTw r t
        match cmInsertRemoteId cfg s r t with
        | .error _ => (s, [])
        | .ok s =>
          let t := t.setInserted .remoteId true
          match cmInsertRemoteQpn cfg s r t with
          | .error cur =>
            let s := eraseTw cfg .remoteId s r t
            let (s, out) := dropStale cfg env s cur
            (s, cmIssueRej env m rep.localCommId rep.remoteCommId .staleConn .rep ++ out)
          | .ok s => (s.setId l (repRcvd p rep), [])
    else (s, [])

def cmRtuHandler (s : Cm) (localCommId remoteCommId : Nat) : Cm × List Mad :=
  match cmGetId s remoteCommId localCommId with
  | none => (s, [])
  | some p =>
    if p.state = .repSent ∨ p.state = .mraRepRcvd then
      (s.setId remoteCommId { p with state := .established }, [])
    else (s, [])

/-! ## MRA, REJ, DREQ and DREP -/

def cmMraHandler (s : Cm) (localCommId remoteCommId : Nat) (mraed : MsgResponse) :
    Cm × List Mad :=
  let found := match mraed with
    | .req => cmGetId s remoteCommId 0
    | .rep | .other => cmGetId s remoteCommId localCommId
  match found with
  | none => (s, [])
  | some p =>
    match p.state, mraed, env.modifyMad with
    | .reqSent, .req, true => (s.setId remoteCommId { p with state := .mraReqRcvd }, [])
    | .repSent, .rep, true => (s.setId remoteCommId { p with state := .mraRepRcvd }, [])
    | .established, .other, true =>
      if p.lapState = .sent then (s.setId remoteCommId { p with lapState := .mraRcvd }, [])
      else (s, [])
    | _, _, _ => (s, [])

/-- A REJ for a timeout names the CA of its sender in `ari`; the others are found by ids. -/
def cmAcquireRejectedId (s : Cm) (localCommId remoteCommId : Nat) (rejected : MsgResponse)
    (reason : RejReason) (ari : Nat) : Option (Nat × CmIdPrivate) :=
  if reason = .timeout then
    (cmFindRemoteId s ari localCommId).bind fun r =>
      (s.mem r).bind fun t => (cmGetId s t.localId localCommId).map (t.localId, ·)
  else if rejected = .req then (cmGetId s remoteCommId 0).map (remoteCommId, ·)
  else (cmGetId s remoteCommId localCommId).map (remoteCommId, ·)

def cmRejHandler (s : Cm) (localCommId remoteCommId : Nat) (rejected : MsgResponse)
    (reason : RejReason) (ari : Nat) : Cm × List Mad :=
  match cmAcquireRejectedId s localCommId remoteCommId rejected reason ari with
  | none => (s, [])
  | some (l, p) =>
    match p.state with
    | .reqSent | .mraReqRcvd | .repSent | .mraRepRcvd | .reqRcvd | .mraReqSent =>
      if reason = .staleConn then (cmEnterTimewait cfg env s l p, [])
      else (cmResetToIdle cfg s l p, [])
    | .dreqSent | .repRcvd | .mraRepSent => (cmEnterTimewait cfg env s l p, [])
    | .established =>
      if p.lapState = .uninit ∨ p.lapState = .sent then (cmEnterTimewait cfg env s l p, [])
      else (s, [])
    | _ => (s, [])

def cmDreqHandler (s : Cm) (m : Mad) (localCommId remoteCommId remoteQpn : Nat) :
    Cm × List Mad :=
  match cmGetId s remoteCommId localCommId with
  | none => (s, posted env (m.reply (.drep remoteCommId localCommId [])))
  | some p =>
    if p.localQpn ≠ remoteQpn then (s, [])
    else
      match p.state with
      | .repSent | .dreqSent | .established | .mraRepRcvd =>
        (s.setId remoteCommId { p with state := .dreqRcvd }, [])
      | .timewait => (s, posted env (m.reply (.drep remoteCommId p.remoteId p.privateData)))
      | _ => (s, [])

def cmDrepHandler (s : Cm) (localCommId remoteCommId : Nat) : Cm × List Mad :=
  match cmGetId s remoteCommId localCommId with
  | none => (s, [])
  | some p =>
    if p.state = .dreqSent ∨ p.state = .dreqRcvd then
      (cmEnterTimewait cfg env s remoteCommId p, [])
    else (s, [])

/-- The sender's view of the alternate path is turned round. -/
def cmLapHandler (s : Cm) (m : Mad) (localCommId remoteCommId altLocalGid altRemoteGid : Nat) :
    Cm × List Mad :=
  match cmGetId s remoteCommId localCommId with
  | none => (s, [])
  | some p =>
    if env.roce ∨ p.state ≠ .established then (s, [])
    else
      match p.lapState with
      | .uninit | .idle =>
        if env.wcAh then
          let p := { p with av := avForResponse env m }
          let (p, ok) :=
            cmInitAvByPath cfg env p .alternate { sgid := altRemoteGid, dgid := altLocalGid }
          (s.setId remoteCommId (if ok then { p with lapState := .rcvd } else p), [])
        else (s.setId remoteCommId { p with av := { p.av with port := some env.port } }, [])
      | .mraSent =>
        (s, posted env (m.reply (cmFormatMra remoteCommId p .other p.serviceTimeout
          p.privateData)))
      | _ => (s, [])

def cmAprHandler (s : Cm) (localCommId remoteCommId : Nat) : Cm × List Mad :=
  match cmGetId s remoteCommId localCommId with
  | none => (s, [])
  | some p =>
    if !env.roce ∧ p.state = .established ∧ (p.lapState = .sent ∨ p.lapState = .mraRcvd) then
      (s.setId remoteCommId { p with lapState := .idle }, [])
    else (s, [])

/-- A request that is a duplicate, or that nobody listens for, leaves no cm_id. -/
def cmSidrReqHandler (s : Cm) (m : Mad) (requestId : Nat) : Cm × List Mad :=
  match env.newId with
  | none => (s, [])
  | some l =>
    if (s.ids l).isSome ∨ !env.wcAh ∨ env.sidrDup then (s, [])
    else
      let p : CmIdPrivate := {
        caGuid := env.caGuid
        remoteId := requestId
        state := .sidrReqRcvd
        av := avForResponse env m }
      if env.listener then (s.setId l p, [])
      else if env.sent then (s, [p.mad (.sidrRep requestId sidrUnsupported 0)])
      else (s, if env.sentToo then [p.mad (.sidrRep requestId sidrReject 0)] else [])

def cmSidrRepHandler (s : Cm) (requestId : Nat) : Cm × List Mad :=
  match cmGetId s requestId 0 with
  | none => (s, [])
  | some p =>
    if p.state = .sidrReqSent then (s.setId requestId { p with state := .idle }, []) else (s, [])

/-- `current` says that the message is the one the cm_id waits on, and `state` is what it
was sent in. -/
def cmProcessSendError (current : Bool) (state : CmState) (s : Cm) (l : Nat) : Cm × List Mad :=
  onId s l fun p =>
    if !current || state ≠ p.state then (s, [])
    else
      match state with
      | .reqSent | .mraReqRcvd | .repSent | .mraRepRcvd => (cmResetToIdle cfg s l p, [])
      | .dreqSent => (cmEnterTimewait cfg env s l p, [])
      | .sidrReqSent => (s.setId l { p with state := .idle }, [])
      | _ => (s, [])

/-- The delayed work of a timewait_info runs. -/
def cmTimewaitHandler (s : Cm) (r : Nat) : Cm × List Mad :=
  match s.mem r with
  | none => (s, [])
  | some t =>
    if !t.queued then (s, [])
    else
      let s := { s.setTw r { t with queued := false } with timewaitList := s.timewaitList.erase r }
      match cmGetId s t.localId t.remoteId with
      | none => (s.kfree (.ref r), [])
      | some p =>
        if p.state = .timewait ∧ p.remoteQpn = t.remoteQpn then
          if env.busy then
            (s.setId t.localId { p with state := .idle, workList := p.workList ++ [r] }, [])
          else ((s.setId t.localId { p with state := .idle }).kfree (.ref r), [])
        else (s.kfree (.ref r), [])

/-- `cm_process_work` takes the next work, a timewait_info, and frees it. -/
def cmProcessWork (s : Cm) (l : Nat) : Cm × List Mad :=
  onId s l fun p =>
    match p.workList with
    | [] => (s, [])
    | r :: works => ((s.setId l { p with workList := works }).kfree (.ref r), [])

end

/-- Everything that can happen to the CM of a node. -/
inductive CmEvent where
  | create (l caGuid : Nat)
  | listen (l : Nat) (found : Bool)
  | insertListen (l : Nat)
  | sendReq (l : Nat) (param : ReqParam)
  | sendRep (l : Nat) (param : RepParam)
  | sendRtu (l : Nat) (data : List Nat)
  | sendMra (l serviceTimeout : Nat) (data : List Nat)
  | sendRej (l : Nat) (reason : RejReason) (ari : Nat)
  | sendDreq (l : Nat)
  | sendDrep (l : Nat) (data : List Nat)
  | sendLap (l : Nat) (path : Path)
  | sendApr (l status : Nat)
  | sendSidrReq (l : Nat) (path : Path) (serviceId : Nat)
  | sendSidrRep (l status qpNum : Nat)
  | establish (l : Nat)
  | migrate (l : Nat)
  | destroy (l : Nat) (nomem : Bool) (sends : List Bool)
  | recv (m : Mad)
  | sendError (l : Nat) (current : Bool) (state : CmState)
  | timewaitExit (r : Nat)
  | processWork (l : Nat)

/-- `cm_work_handler`, for a message that was received. -/
def cmRecvHandler (cfg : Config) (env : Env) (s : Cm) (m : Mad) : Cm × List Mad :=
  match m.body with
  | .req req => cmReqHandler cfg env s m req
  | .rep rep => cmRepHandler cfg env s m rep
  | .rtu localCommId remoteCommId _ => cmRtuHandler s localCommId remoteCommId
  | .mra localCommId remoteCommId mraed _ _ => cmMraHandler env s localCommId remoteCommId mraed
  | .rej localCommId remoteCommId rejected reason ari =>
    cmRejHandler cfg env s localCommId remoteCommId rejected reason ari
  | .dreq localCommId remoteCommId remoteQpn =>
    cmDreqHandler env s m localCommId remoteCommId remoteQpn
  | .drep localCommId remoteCommId _ => cmDrepHandler cfg env s localCommId remoteCommId
  | .lap localCommId remoteCommId _ altLocalGid altRemoteGid =>
    cmLapHandler cfg env s m localCommId remoteCommId altLocalGid altRemoteGid
  | .apr localCommId remoteCommId _ => cmAprHandler env s localCommId remoteCommId
  | .sidrReq requestId _ => cmSidrReqHandler env s m requestId
  | .sidrRep requestId _ _ => cmSidrRepHandler s requestId

/-- One step of a node, with the messages it sends. -/
def cmHandle (cfg : Config) (env : Env) (s : Cm) : CmEvent → Cm × List Mad
  | .create l caGuid => (ibCreateCmId s l caGuid, [])
  | .listen l found => ibCmListen found s l
  | .insertListen l => ibCmInsertListen s l
  | .sendReq l param => ibSendCmReq cfg env param s l
  | .sendRep l param => ibSendCmRep env param s l
  | .sendRtu l data => ibSendCmRtu env data s l
  | .sendMra l serviceTimeout data => ibSendCmMra env serviceTimeout data s l
  | .sendRej l reason ari => ibSendCmRej cfg env reason ari s l
  | .sendDreq l => ibSendCmDreq cfg env env.sent s l
  | .sendDrep l data => ibSendCmDrep cfg env data s l
  | .sendLap l path => ibSendCmLap cfg env path s l
  | .sendApr l status => ibSendCmApr env status s l
  | .sendSidrReq l path serviceId => ibSendCmSidrReq cfg env path serviceId s l
  | .sendSidrRep l status qpNum => ibSendCmSidrRep env status qpNum s l
  | .establish l => cmEstablish env s l
  | .migrate l => cmMigrate s l
  | .destroy l nomem sends => cmDestroyId cfg env nomem sends s l
  | .recv m => cmRecvHandler cfg env s m
  | .sendError l current state => cmProcessSendError cfg env current state s l
  | .timewaitExit r => cmTimewaitHandler env s r
  | .processWork l => cmProcessWork s l

/-- The state after a step. -/
def cmStep (cfg : Config) (s : Cm) (e : Env × CmEvent) : Cm := (cmHandle cfg e.1 s e.2).1

end IbCm
