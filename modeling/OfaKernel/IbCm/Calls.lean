-- SUMMARY: The calls a user makes to the IB communication manager.
import OfaKernel.IbCm.Cm

/-!
# Calls to the CM

Each call gives the next state of the node and the messages posted; a call that is refused
changes nothing. Private data that is only passed on is left out.
-/

namespace IbCm

def reqPrivateDataSize : Nat := 92
def mraPrivateDataSize : Nat := 222
def repPrivateDataSize : Nat := 196
def rtuPrivateDataSize : Nat := 224
def drepPrivateDataSize : Nat := 224

def sidrUnsupported : Nat := 1
def sidrReject : Nat := 2

/-- `IB_CM_MRA_FLAG_DELAY`: an MRA is sent only after a duplicate message. -/
def mraFlagDelay : Nat := 0x80

structure ReqParam where
  primaryPath : Option Path
  alternatePath : Option Path := none
  serviceId : Nat := 0
  qpNum : Nat := 0
  qpType : QpType := .rc
  startingPsn : Nat := 0
  privateData : List Nat := []
  peerToPeer : Bool := false
  responderResources : Nat := 0
  initiatorDepth : Nat := 0
  localCmResponseTimeout : Nat := 0
  retryCount : Nat := 0
  rnrRetryCount : Nat := 0
  deriving DecidableEq, Repr

structure RepParam where
  qpNum : Nat := 0
  startingPsn : Nat := 0
  privateData : List Nat := []
  responderResources : Nat := 0
  initiatorDepth : Nat := 0
  rnrRetryCount : Nat := 0
  deriving DecidableEq, Repr

/-- A call on a cm_id. -/
def onId (s : Cm) (l : Nat) (f : CmIdPrivate → Cm × List Mad) : Cm × List Mad :=
  match s.ids l with
  | none => (s, [])
  | some p => f p

/-- The message, if it was allocated and posted. -/
def posted (env : Env) (m : Mad) : List Mad := if env.sent then [m] else []

def cmCopyPrivateData (env : Env) (data : List Nat) : Bool := data.isEmpty || env.kmemdup

def ibCreateCmId (s : Cm) (l caGuid : Nat) : Cm :=
  if (s.ids l).isNone then s.setId l { caGuid } else s

/-- `found` says that somebody listens on the service already. -/
def ibCmListen (found : Bool) (s : Cm) (l : Nat) : Cm × List Mad :=
  onId s l fun p =>
    if p.state = .idle ∧ ¬ found then
      (s.setId l { p with state := .listen, listenSharecount := p.listenSharecount + 1 }, [])
    else (s, [])

def ibCmInsertListen (s : Cm) (l : Nat) : Cm × List Mad :=
  onId s l fun p =>
    if p.state = .listen then
      (s.setId l { p with listenSharecount := p.listenSharecount + 1 }, [])
    else (s, [])

/-! ## Connecting -/

section

variable (cfg : Config) (env : Env)

def cmValidateReqParam (param : ReqParam) (path : Path) : Bool :=
  !param.peerToPeer &&
  (param.qpType == .rc || param.qpType == .uc || param.qpType == .xrcIni) &&
  param.privateData.length ≤ reqPrivateDataSize &&
  param.alternatePath.all fun alt => alt.pkey == path.pkey && alt.mtu == path.mtu

/-- `cm_req_set_qp_type`, as `cm_req_get_qp_type` reads it. -/
def reqQpType : QpType → QpType
  | .uc => .uc
  | .xrcIni => .xrcTgt
  | _ => .rc

/-- The local response timeout is stored over the low bits of the PSN. -/
def cmFormatReq (l : Nat) (p : CmIdPrivate) (param : ReqParam) (path : Path) : ReqMsg where
  localCommId := l
  serviceId := param.serviceId
  localCaGuid := p.caGuid
  localQpn := param.qpNum % 2 ^ 24
  startingPsn := param.startingPsn % 2 ^ 24 ||| param.localCmResponseTimeout / 32
  initDepth := param.initiatorDepth
  respRes := if param.qpType = .xrcIni then 0 else param.responderResources
  retryCount := if param.qpType = .xrcIni then 0 else param.retryCount % 8
  rnrRetryCount := if param.qpType = .xrcIni then 0 else param.rnrRetryCount % 8
  pathMtu := path.mtu % 16
  qpType := reqQpType param.qpType
  primaryLocalGid := path.sgid
  primaryRemoteGid := path.dgid
  alt := (param.alternatePath.filter (·.hasLid)).map fun alt => (alt.sgid, alt.dgid)

/-- The label `error1`: the timewait_info is freed, and the pointer to it stays. -/
def reqError (s : Cm) (l : Nat) (p : CmIdPrivate) : Cm × List Mad :=
  ((s.setId l p).kfree p.timewaitInfo, [])

/-- The parameters are recorded, and the REQ is sent. -/
def sendReq (s : Cm) (l : Nat) (p : CmIdPrivate) (param : ReqParam) (path : Path) :
    Cm × List Mad :=
  let p := { p with
    initiatorDepth := param.initiatorDepth
    responderResources := param.responderResources
    retryCount := param.retryCount
    pathMtu := path.mtu
    qpType := param.qpType }
  if !env.alloc then reqError s l p
  else
    let msg := cmFormatReq l p param path
    let p := { p with localQpn := msg.localQpn, rqPsn := msg.startingPsn }
    if !env.post then reqError s l p
    else (s.setId l { p with state := .reqSent }, [p.mad (.req msg)])

def ibSendCmReq (param : ReqParam) (s : Cm) (l : Nat) : Cm × List Mad :=
  onId s l fun p =>
    match param.primaryPath with
    | none => (s, [])
    | some path =>
      if !cmValidateReqParam param path || p.state ≠ .idle then (s, [])
      else
        let (tw, s) := cmCreateTimewaitInfo env s l
        let p := { p with timewaitInfo := tw }
        if tw = .err then (s.setId l p, [])
        else
          match cmInitAvByPath cfg env p .primary path with
          | (p, false) => reqError s l p
          | (p, true) =>
            match param.alternatePath with
            | none => sendReq env s l p param path
            | some alt =>
              match cmInitAvByPath cfg env p .alternate alt with
              | (p, false) => reqError s l p
              | (p, true) => sendReq env s l p param path

/-- The REP of an XRC target has its QPN in the EECN, and no initiator depth. -/
def cmFormatRep (l : Nat) (p : CmIdPrivate) (param : RepParam) : RepMsg where
  localCommId := l
  remoteCommId := p.remoteId
  localCaGuid := p.caGuid
  localQpn := if p.qpType = .xrcTgt then 0 else param.qpNum % 2 ^ 24
  localEecn := if p.qpType = .xrcTgt then param.qpNum % 2 ^ 24 else 0
  startingPsn := param.startingPsn % 2 ^ 24
  respResources := param.responderResources
  initiatorDepth := if p.qpType = .xrcTgt then 0 else param.initiatorDepth
  rnrRetryCount := param.rnrRetryCount % 8

def ibSendCmRep (param : RepParam) (s : Cm) (l : Nat) : Cm × List Mad :=
  onId s l fun p =>
    if param.privateData.length ≤ repPrivateDataSize ∧
        (p.state = .reqRcvd ∨ p.state = .mraReqSent) ∧ env.sent then
      let msg := cmFormatRep l p param
      (s.setId l { p with
        state := .repSent
        initiatorDepth := param.initiatorDepth
        responderResources := param.responderResources
        rqPsn := msg.startingPsn
        localQpn := param.qpNum % 2 ^ 24 }, [p.mad (.rep msg)])
    else (s, [])

def ibSendCmRtu (data : List Nat) (s : Cm) (l : Nat) : Cm × List Mad :=
  onId s l fun p =>
    if data.length ≤ rtuPrivateDataSize ∧ cmCopyPrivateData env data ∧
        (p.state = .repRcvd ∨ p.state = .mraRepSent) ∧ env.sent then
      (s.setId l { p with state := .established, privateData := data },
        [p.mad (.rtu l p.remoteId data)])
    else (s, [])

/-- What an MRA answers, and the states it leads to. -/
def mraStates (p : CmIdPrivate) : Option (CmState × LapState × MsgResponse) :=
  match p.state, p.lapState with
  | .reqRcvd, lap => some (.mraReqSent, lap, .req)
  | .repRcvd, lap => some (.mraRepSent, lap, .rep)
  | .established, .rcvd => some (.established, .mraSent, .other)
  | _, _ => none

/-- Five bits of the service timeout go into the message. -/
def cmFormatMra (l : Nat) (p : CmIdPrivate) (mraed : MsgResponse) (serviceTimeout : Nat)
    (data : List Nat) : Body :=
  .mra l p.remoteId mraed (serviceTimeout % 32) data

def ibSendCmMra (serviceTimeout : Nat) (data : List Nat) (s : Cm) (l : Nat) : Cm × List Mad :=
  onId s l fun p =>
    if data.length ≤ mraPrivateDataSize ∧ cmCopyPrivateData env data then
      match mraStates p with
      | none => (s, [])
      | some (state, lapState, mraed) =>
        let p' := { p with state, lapState, serviceTimeout, privateData := data }
        if serviceTimeout &&& mraFlagDelay ≠ 0 then (s.setId l p', [])
        else if env.sent then
          (s.setId l p', [p.mad (cmFormatMra l p mraed serviceTimeout data)])
        else (s, [])
    else (s, [])

def cmFormatRej (l : Nat) (p : CmIdPrivate) (reason : RejReason) (ari : Nat) : Body :=
  match p.state with
  | .reqRcvd => .rej 0 p.remoteId .req reason ari
  | .mraReqSent => .rej l p.remoteId .req reason ari
  | .repRcvd | .mraRepSent => .rej l p.remoteId .rep reason ari
  | _ => .rej l p.remoteId .other reason ari

def ibSendCmRej (reason : RejReason) (ari : Nat) (s : Cm) (l : Nat) : Cm × List Mad :=
  onId s l fun p =>
    match p.state with
    | .reqSent | .mraReqRcvd | .reqRcvd | .mraReqSent | .repRcvd | .mraRepSent =>
      (cmResetToIdle cfg s l p, posted env (p.mad (cmFormatRej l p reason ari)))
    | .repSent | .mraRepRcvd =>
      (cmEnterTimewait cfg env s l p, posted env (p.mad (cmFormatRej l p reason ari)))
    | _ => (s, [])

/-- `sent` says whether the DREQ is allocated and posted. -/
def ibSendCmDreq (sent : Bool) (s : Cm) (l : Nat) : Cm × List Mad :=
  onId s l fun p =>
    if p.state ≠ .established then (s, [])
    else if sent then
      (s.setId l { p with state := .dreqSent }, [p.mad (.dreq l p.remoteId p.remoteQpn)])
    else (cmEnterTimewait cfg env s l p, [])

def ibSendCmDrep (data : List Nat) (s : Cm) (l : Nat) : Cm × List Mad :=
  onId s l fun p =>
    if data.length ≤ drepPrivateDataSize ∧ cmCopyPrivateData env data ∧ p.state = .dreqRcvd then
      (cmEnterTimewait cfg env s l { p with privateData := data },
        posted env (p.mad (.drep l p.remoteId data)))
    else (s, [])

/-! ## Alternate paths, and events of the QP -/

def ibSendCmLap (path : Path) (s : Cm) (l : Nat) : Cm × List Mad :=
  onId s l fun p =>
    if p.state = .established ∧ (p.lapState = .uninit ∨ p.lapState = .idle) then
      let (p, ok) := cmInitAvByPath cfg env p .alternate path
      if ok && env.sent then
        (s.setId l { p with lapState := .sent },
          [p.mad (.lap l p.remoteId p.remoteQpn path.sgid path.dgid)])
      else (s.setId l p, [])
    else (s, [])

def ibSendCmApr (status : Nat) (s : Cm) (l : Nat) : Cm × List Mad :=
  onId s l fun p =>
    if p.state = .established ∧ (p.lapState = .rcvd ∨ p.lapState = .mraSent) ∧ env.sent then
      (s.setId l { p with lapState := .idle }, [p.mad (.apr l p.remoteId status)])
    else (s, [])

/-- `IB_EVENT_COMM_EST`. -/
def cmEstablish (s : Cm) (l : Nat) : Cm × List Mad :=
  onId s l fun p =>
    if env.cmDev.isSome ∧ env.kzalloc ∧ (p.state = .repSent ∨ p.state = .mraRepRcvd) then
      (s.setId l { p with state := .established }, [])
    else (s, [])

/-- `IB_EVENT_PATH_MIG`: the address vectors change places; the lists are left alone. -/
def cmMigrate (s : Cm) (l : Nat) : Cm × List Mad :=
  onId s l fun p =>
    if p.state = .established ∧ (p.lapState = .uninit ∨ p.lapState = .idle) then
      (s.setId l { p with lapState := .idle, av := p.altAv, altAv := p.av }, [])
    else (s, [])

/-- The state is looked at only after the address vector was set. -/
def ibSendCmSidrReq (path : Path) (serviceId : Nat) (s : Cm) (l : Nat) : Cm × List Mad :=
  onId s l fun p =>
    let (p, ok) := cmInitAvByPath cfg env p .primary path
    if ok && env.sent && p.state = .idle then
      (s.setId l { p with state := .sidrReqSent }, [p.mad (.sidrReq l serviceId)])
    else (s.setId l p, [])

def ibSendCmSidrRep (status qpNum : Nat) (s : Cm) (l : Nat) : Cm × List Mad :=
  onId s l fun p =>
    if p.state = .sidrReqRcvd ∧ env.sent then
      (s.setId l { p with state := .idle },
        [p.mad (.sidrRep p.remoteId status (qpNum % 2 ^ 24))])
    else (s, [])

/-- The end of `cm_destroy_id`: the id is free, and the pending works are freed. -/
def freeId (s : Cm) (l : Nat) (p : CmIdPrivate) : Cm :=
  let s := p.workList.foldl (fun s r => s.kfree (.ref r)) s
  { s with ids := Function.update s.ids l none }

/-- The state a cm_id is brought to before it is freed. -/
def leave (nomem : Bool) (s : Cm) (l : Nat) (p : CmIdPrivate) : Cm × List Mad :=
  match p.state with
  | .sidrReqRcvd => ibSendCmSidrRep env sidrReject 0 s l
  | .reqSent | .mraReqRcvd => ibSendCmRej cfg env .timeout p.caGuid s l
  | .reqRcvd =>
    if nomem then (cmResetToIdle cfg s l p, [])
    else ibSendCmRej cfg env .consumerDefined 0 s l
  | .repSent | .mraRepRcvd | .mraReqSent | .repRcvd | .mraRepSent =>
    ibSendCmRej cfg env .consumerDefined 0 s l
  | .dreqSent => (cmEnterTimewait cfg env s l p, [])
  | .dreqRcvd => ibSendCmDrep cfg env [] s l
  | _ => (s, [])

/-- `sends` says of each DREQ of the loop around `retest` whether it is sent. The loop may not
end; the state is then that after the given rounds. -/
def cmDestroyId (nomem : Bool) (sends : List Bool) (s : Cm) (l : Nat) : Cm × List Mad :=
  onId s l fun p =>
    if p.state = .listen ∧ 1 < p.listenSharecount then
      (s.setId l { p with listenSharecount := p.listenSharecount - 1 }, [])
    else if p.state = .established ∧ p.qpType ≠ .xrcTgt then
      match sends with
      | [] => (s, [])
      | sent :: sends =>
        let (s, out) := ibSendCmDreq cfg env sent s l
        let (s, out') := cmDestroyId nomem sends s l
        (s, out ++ out')
    else
      let (s, out) := leave cfg env nomem s l p
      (match s.ids l with
        | none => s
        | some p => freeId s l p, out)
termination_by structural sends

end

end IbCm
