-- SUMMARY: Formatting and reading CM REQ and REP messages.
import OfaKernel.IbCm.MsgFields

/-!
# Formatting and reading REQ and REP

The active side formats a REQ, the passive side reads it into an event and its connection id; a
REP goes the other way. Messages are formatted into zeroed memory.
-/

namespace CmMsgs

open IbCm (QpType)

/-! ## Path records -/

inductive PathRecType
  | ib
  | roceV1
  | roceV2
  | opa
deriving DecidableEq

/-- `struct sa_path_rec`; `dlid` and `slid` are the members of the union that `recType`
selects, in an IB record of 16 bits. -/
structure PathRec where
  recType : PathRecType
  dlid : BitVec 32
  slid : BitVec 32
  dgid : Gid
  sgid : Gid
  serviceId : BitVec 64
  flowLabel : BitVec 32
  hopLimit : BitVec 8
  trafficClass : BitVec 8
  reversible : BitVec 8
  pkey : BitVec 16
  sl : BitVec 8
  mtuSelector : BitVec 8
  mtu : BitVec 8
  rateSelector : BitVec 8
  rate : BitVec 8
  packetLifeTimeSelector : BitVec 8
  packetLifeTime : BitVec 8
deriving DecidableEq

def saEq : BitVec 8 := 2

/-- What `sa_path_get_slid` and `sa_path_get_dlid` make of a LID. -/
def pathLid (recType : PathRecType) (lid : BitVec 32) : BitVec 32 :=
  match recType with
  | .ib => lid.trunc 16
  | .opa => lid
  | _ => 0

def saPathGetSlid (path : PathRec) : BitVec 32 := pathLid path.recType path.slid

def saPathGetDlid (path : PathRec) : BitVec 32 := pathLid path.recType path.dlid

def saPathSetSlid (path : PathRec) (slid : BitVec 32) : PathRec :=
  match path.recType with
  | .ib => { path with slid := slid.trunc 16 }
  | .opa => { path with slid }
  | _ => path

def saPathSetDlid (path : PathRec) (dlid : BitVec 32) : PathRec :=
  match path.recType with
  | .ib => { path with dlid := dlid.trunc 16 }
  | .opa => { path with dlid }
  | _ => path

def opaIsExtendedLid (dlid slid : BitVec 32) : Bool := decide (0xC000 ≤ dlid ∨ 0xC000 ≤ slid)

def opaMakeId (lid : BitVec 32) : BitVec 64 := ((0x00066A : BitVec 64) <<< 40) ||| lid.setWidth 64

def ibIsOpaGid (gid : Gid) : Bool := gid.interfaceId >>> 40 == 0x00066A

def opaGetLidFromGid (gid : Gid) : BitVec 32 := (gid.interfaceId &&& 0xFFFFFFFF).setWidth 32

def lidPermissive : BitVec 16 := 0xFFFF

/-- The path record of a REQ has an extended LID. -/
def PathRec.ext (path : PathRec) : Bool :=
  decide (path.recType = .opa) && opaIsExtendedLid path.dlid path.slid

/-! ## Sending a REQ -/

/-- `struct ib_cm_req_param`; no data is a null pointer or a length of 0. -/
structure ReqParam where
  primaryPath : Option PathRec
  alternatePath : Option PathRec
  serviceId : BitVec 64
  qpNum : BitVec 32
  qpType : QpType
  startingPsn : BitVec 32
  privateData : List (BitVec 8)
  peerToPeer : BitVec 8
  responderResources : BitVec 8
  initiatorDepth : BitVec 8
  remoteCmResponseTimeout : BitVec 8
  flowControl : BitVec 8
  localCmResponseTimeout : BitVec 8
  retryCount : BitVec 8
  rnrRetryCount : BitVec 8
  maxCmRetries : BitVec 8
  srq : BitVec 8

def reqPrivateDataSize : Nat := 92

def repPrivateDataSize : Nat := 196

/-- `cm_validate_req_param`: the primary path of a request that passes. -/
def cmValidateReqParam (param : ReqParam) : Option PathRec :=
  if param.peerToPeer ≠ 0 then none
  else
    match param.primaryPath with
    | none => none
    | some pri =>
      if param.qpType ≠ .rc ∧ param.qpType ≠ .uc ∧ param.qpType ≠ .xrcIni then none
      else if reqPrivateDataSize < param.privateData.length then none
      else
        match param.alternatePath with
        | none => some pri
        | some alt => if alt.pkey ≠ pri.pkey ∨ alt.mtu ≠ pri.mtu then none else some pri

/-- What a message says about its sender, apart from the parameters. -/
structure Sender where
  localId : BitVec 32
  remoteId : BitVec 32
  tid : BitVec 64
  nodeGuid : BitVec 64
  ackDelay : BitVec 8

def cmAckTimeout (caAckDelay packetLifeTime : BitVec 8) : BitVec 8 :=
  let delay := caAckDelay.toNat
  let ackTimeout := packetLifeTime.toNat + 1
  BitVec.ofNat 8 <| min 31 <|
    if delay ≤ ackTimeout then ackTimeout + if ackTimeout - 1 ≤ delay then 1 else 0
    else delay + if delay - 1 ≤ ackTimeout then 1 else 0

def copyPrivateData (size : Nat) (data : List (BitVec 8)) : List (BitVec 8) :=
  data ++ List.replicate (size - data.length) 0

def zeroReqPath : ReqPath := ⟨0, 0, ⟨0, 0⟩, ⟨0, 0⟩, 0, 0, 0, 0, 0⟩

def zeroReqMsg : ReqMsg where
  tid := 0
  localCommId := 0
  serviceId := 0
  localCaGuid := 0
  localQkey := 0
  offset32 := 0
  offset36 := 0
  offset40 := 0
  offset44 := 0
  pkey := 0
  offset50 := 0
  offset51 := 0
  primary := zeroReqPath
  alt := zeroReqPath
  privateData := []

def zeroRepMsg : RepMsg := ⟨0, 0, 0, 0, 0, 0, 0, 0, 0, 0, 0, 0, []⟩

/-- The part of `cm_format_req` that fills the fields of one path record: those `primary_…`, and
once more those `alt_…`. -/
def cmFormatReqPath (block : ReqPath) (path : PathRec) (ackDelay : BitVec 8) : ReqPath :=
  let block := { block with localGid := path.sgid, remoteGid := path.dgid }
  let block :=
    if path.ext then
      { block with
        localGid := { block.localGid with interfaceId := opaMakeId path.slid }
        remoteGid := { block.remoteGid with interfaceId := opaMakeId path.dlid } }
    else block
  let block :=
    if path.hopLimit ≤ 1 then
      { block with
        localLid := if path.ext then 0 else (saPathGetSlid path).setWidth 16
        remoteLid := if path.ext then 0 else (saPathGetDlid path).setWidth 16 }
    else { block with localLid := lidPermissive, remoteLid := lidPermissive }
  let block := block.setFlowLabel path.flowLabel
  let block := block.setPacketRate path.rate
  let block := { block with trafficClass := path.trafficClass, hopLimit := path.hopLimit }
  let block := block.setSl path.sl
  let block := block.setSubnetLocal (if path.hopLimit ≤ 1 then 1 else 0)
  block.setLocalAckTimeout (cmAckTimeout ackDelay path.packetLifeTime)

def cmFormatReq (sender : Sender) (param : ReqParam) (pri : PathRec) : ReqMsg :=
  let m := { zeroReqMsg with
    tid := sender.tid
    localCommId := sender.localId
    serviceId := param.serviceId
    localCaGuid := sender.nodeGuid }
  let m := cmReqSetLocalQpn m param.qpNum
  let m := cmReqSetInitDepth m param.initiatorDepth
  let m := cmReqSetRemoteRespTimeout m param.remoteCmResponseTimeout
  let m := cmReqSetQpType m param.qpType
  let m := cmReqSetFlowCtrl m param.flowControl
  let m := cmReqSetStartingPsn m param.startingPsn
  let m := cmReqSetLocalRespTimeout m param.localCmResponseTimeout
  let m := { m with pkey := pri.pkey }
  let m := cmReqSetPathMtu m pri.mtu
  let m := cmReqSetMaxCmRetries m param.maxCmRetries
  let m :=
    if param.qpType ≠ .xrcIni then
      let m := cmReqSetRespRes m param.responderResources
      let m := cmReqSetRetryCount m param.retryCount
      let m := cmReqSetRnrRetryCount m param.rnrRetryCount
      cmReqSetSrq m param.srq
    else m
  let m := { m with primary := cmFormatReqPath m.primary pri sender.ackDelay }
  let m :=
    match param.alternatePath with
    | some alt => { m with alt := cmFormatReqPath m.alt alt sender.ackDelay }
    | none => m
  { m with privateData := copyPrivateData reqPrivateDataSize param.privateData }

/-! ## Receiving a REQ -/

/-- The passive side: its port, and how the message arrived. -/
structure Receiver where
  portNum : BitVec 8
  bthPkey : BitVec 16
  capOpaAh : Bool
  /-- The record type of the GID attribute, on a RoCE port. -/
  gidRecType : Option PathRecType
  /-- `rdma_query_gid` for index 0. -/
  portGid : Option Gid
  grhHopLimit : BitVec 8
  wcSlid : BitVec 16
  wcDlidPathBits : BitVec 8
  wcSl : BitVec 8

/-- The part of `cm_process_routed_req` for one path block. -/
def processRouted (r : Receiver) (block : ReqPath) : ReqPath :=
  if block.getSubnetLocal = 0 then
    let block :=
      if block.localLid = lidPermissive then { block with localLid := r.wcSlid }.setSl r.wcSl
      else block
    if block.remoteLid = lidPermissive then { block with remoteLid := r.wcDlidPathBits.setWidth 16 }
    else block
  else block

def cmProcessRoutedReq (r : Receiver) (m : ReqMsg) : ReqMsg :=
  { m with primary := processRouted r m.primary, alt := processRouted r m.alt }

def cmReqHasAltPath (m : ReqMsg) : Bool := decide (m.alt.localLid ≠ 0) || ibIsOpaGid m.alt.localGid

/-- The record type that `cm_req_handler` gives to the paths. -/
def reqRecType (r : Receiver) (m : ReqMsg) : PathRecType :=
  match r.gidRecType with
  | some recType => recType
  | none => if ibIsOpaGid m.primary.localGid && r.capOpaAh then .opa else .ib

/-- The part of `cm_format_paths_from_req` and `cm_format_path_lid_from_req` for one path. -/
def cmFormatPathFromReq (m : ReqMsg) (block : ReqPath) (recType : PathRecType) : PathRec :=
  let lifeTime := block.getLocalAckTimeout
  let path : PathRec :=
    { recType
      dlid := 0
      slid := 0
      dgid := block.localGid
      sgid := block.remoteGid
      flowLabel := block.getFlowLabel
      hopLimit := block.hopLimit
      trafficClass := block.trafficClass
      reversible := 1
      pkey := m.pkey
      sl := block.getSl
      mtuSelector := saEq
      mtu := cmReqGetPathMtu m
      rateSelector := saEq
      rate := block.getPacketRate
      packetLifeTimeSelector := saEq
      packetLifeTime := lifeTime - if 0 < lifeTime then 1 else 0
      serviceId := m.serviceId }
  if recType = .opa then
    saPathSetSlid (saPathSetDlid path (opaGetLidFromGid block.localGid))
      (opaGetLidFromGid block.remoteGid)
  else
    saPathSetSlid (saPathSetDlid path (block.localLid.setWidth 32)) (block.remoteLid.setWidth 32)

def cmOpaToIbSgid (r : Receiver) (path : PathRec) : PathRec :=
  if r.capOpaAh && ibIsOpaGid path.sgid then
    match r.portGid with
    | some sgid => { path with sgid }
    | none => path
  else path

/-- `struct ib_cm_req_event_param`, with the event's private data. -/
structure ReqEvent where
  bthPkey : BitVec 16
  port : BitVec 8
  primaryPath : PathRec
  alternatePath : Option PathRec
  remoteCaGuid : BitVec 64
  remoteQkey : BitVec 32
  remoteQpn : BitVec 32
  qpType : QpType
  startingPsn : BitVec 32
  responderResources : BitVec 8
  initiatorDepth : BitVec 8
  localCmResponseTimeout : BitVec 8
  flowControl : BitVec 8
  remoteCmResponseTimeout : BitVec 8
  retryCount : BitVec 8
  rnrRetryCount : BitVec 8
  srq : BitVec 8
  privateData : List (BitVec 8)
deriving DecidableEq

/-- What `cm_req_handler` copies into the new connection id. -/
structure ReqCopied where
  remoteId : BitVec 32
  remoteCaGuid : BitVec 64
  serviceId : BitVec 64
  tid : BitVec 64
  /-- The argument of `cm_convert_to_ms` for `timeout_ms`. -/
  timeout : BitVec 8
  maxCmRetries : BitVec 8
  remoteQpn : BitVec 32
  initiatorDepth : BitVec 8
  responderResources : BitVec 8
  pathMtu : BitVec 8
  pkey : BitVec 16
  sqPsn : BitVec 32
  retryCount : BitVec 8
  rnrRetryCount : BitVec 8
  qpType : QpType
deriving DecidableEq

/-- `cm_format_req_event`, on the paths that `cm_req_handler` has read. -/
def cmFormatReqEvent (r : Receiver) (m : ReqMsg) (path0 path1 : PathRec) : ReqEvent where
  bthPkey := r.bthPkey
  port := r.portNum
  primaryPath := cmOpaToIbSgid r path0
  alternatePath := if cmReqHasAltPath m then some (cmOpaToIbSgid r path1) else none
  remoteCaGuid := m.localCaGuid
  remoteQkey := m.localQkey
  remoteQpn := cmReqGetLocalQpn m
  qpType := cmReqGetQpType m
  startingPsn := cmReqGetStartingPsn m
  responderResources := cmReqGetInitDepth m
  initiatorDepth := cmReqGetRespRes m
  localCmResponseTimeout := cmReqGetRemoteRespTimeout m
  flowControl := cmReqGetFlowCtrl m
  remoteCmResponseTimeout := cmReqGetLocalRespTimeout m
  retryCount := cmReqGetRetryCount m
  rnrRetryCount := cmReqGetRnrRetryCount m
  srq := cmReqGetSrq m
  privateData := m.privateData

/-- The reading of a REQ in `cm_req_handler`: the event, and what the connection id keeps. -/
def cmReqHandler (r : Receiver) (m : ReqMsg) : ReqEvent × ReqCopied :=
  let m := cmProcessRoutedReq r m
  let recType := reqRecType r m
  let path0 := { cmFormatPathFromReq m m.primary recType with hopLimit := r.grhHopLimit }
  let path1 := cmFormatPathFromReq m m.alt recType
  (cmFormatReqEvent r m path0 path1,
    { remoteId := m.localCommId
      remoteCaGuid := m.localCaGuid
      serviceId := m.serviceId
      tid := m.tid
      timeout := cmReqGetLocalRespTimeout m
      maxCmRetries := cmReqGetMaxCmRetries m
      remoteQpn := cmReqGetLocalQpn m
      initiatorDepth := cmReqGetRespRes m
      responderResources := cmReqGetInitDepth m
      pathMtu := cmReqGetPathMtu m
      pkey := m.pkey
      sqPsn := cmReqGetStartingPsn m
      retryCount := cmReqGetRetryCount m
      rnrRetryCount := cmReqGetRnrRetryCount m
      qpType := cmReqGetQpType m })

structure RepParam where
  qpNum : BitVec 32
  startingPsn : BitVec 32
  privateData : List (BitVec 8)
  responderResources : BitVec 8
  initiatorDepth : BitVec 8
  failoverAccepted : BitVec 8
  flowControl : BitVec 8
  rnrRetryCount : BitVec 8
  srq : BitVec 8

/-- `cm_format_rep` for a connection id of type `qpType`. -/
def cmFormatRep (sender : Sender) (qpType : QpType) (param : RepParam) : RepMsg :=
  let m := { zeroRepMsg with
    tid := sender.tid, localCommId := sender.localId, remoteCommId := sender.remoteId }
  let m := cmRepSetStartingPsn m param.startingPsn
  let m := { m with respResources := param.responderResources }
  let m := cmRepSetTargetAckDelay m sender.ackDelay
  let m := cmRepSetFailover m param.failoverAccepted
  let m := cmRepSetRnrRetryCount m param.rnrRetryCount
  let m := { m with localCaGuid := sender.nodeGuid }
  let m :=
    if qpType ≠ .xrcTgt then
      let m := { m with initiatorDepth := param.initiatorDepth }
      let m := cmRepSetFlowCtrl m param.flowControl
      let m := cmRepSetSrq m param.srq
      cmRepSetLocalQpn m param.qpNum
    else
      let m := cmRepSetSrq m 1
      cmRepSetLocalEecn m param.qpNum
  { m with privateData := copyPrivateData repPrivateDataSize param.privateData }

end CmMsgs
