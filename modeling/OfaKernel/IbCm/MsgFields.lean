-- SUMMARY: The CM REQ and REP messages as they are on the wire.
import OfaKernel.Lib.BitField
import OfaKernel.IbCm.Cm

/-!
# Message fields

The words of a message are held in host byte order. `primary_…` and `alt_…` name two path blocks
of one layout; an accessor of either is one function on the block.
-/

namespace CmMsgs

open IbCm (QpType)

structure Gid where
  subnetPrefix : BitVec 64
  interfaceId : BitVec 64
deriving DecidableEq

/-- The fields `primary_…` of a REQ, or its fields `alt_…`. -/
structure ReqPath where
  localLid : BitVec 16
  remoteLid : BitVec 16
  localGid : Gid
  remoteGid : Gid
  /-- `primary_offset88`, `alt_offset132`: flow label:20, rsvd:6, packet rate:6. -/
  offset88 : BitVec 32
  trafficClass : BitVec 8
  hopLimit : BitVec 8
  /-- `primary_offset94`, `alt_offset138`: SL:4, subnet local:1, rsvd:3. -/
  offset94 : BitVec 8
  /-- `primary_offset95`, `alt_offset139`: local ACK timeout:5, rsvd:3. -/
  offset95 : BitVec 8
deriving DecidableEq

structure ReqMsg where
  tid : BitVec 64
  localCommId : BitVec 32
  serviceId : BitVec 64
  localCaGuid : BitVec 64
  localQkey : BitVec 32
  /-- local QPN:24, responder resources:8 -/
  offset32 : BitVec 32
  /-- local EECN:24, initiator depth:8 -/
  offset36 : BitVec 32
  /-- remote EECN:24, remote CM response timeout:5, transport service type:2, end-to-end flow
  control:1 -/
  offset40 : BitVec 32
  /-- starting PSN:24, local CM response timeout:5, retry count:3 -/
  offset44 : BitVec 32
  pkey : BitVec 16
  /-- path MTU:4, RDC exists:1, RNR retry count:3 -/
  offset50 : BitVec 8
  /-- max CM retries:4, SRQ:1, extended transport type:3 -/
  offset51 : BitVec 8
  primary : ReqPath
  alt : ReqPath
  privateData : List (BitVec 8)
deriving DecidableEq

structure RepMsg where
  tid : BitVec 64
  localCommId : BitVec 32
  remoteCommId : BitVec 32
  localQkey : BitVec 32
  /-- local QPN:24, rsvd:8 -/
  offset12 : BitVec 32
  /-- local EECN:24, rsvd:8 -/
  offset16 : BitVec 32
  /-- starting PSN:24, rsvd:8 -/
  offset20 : BitVec 32
  respResources : BitVec 8
  initiatorDepth : BitVec 8
  /-- target ACK delay:5, failover accepted:2, end-to-end flow control:1 -/
  offset26 : BitVec 8
  /-- RNR retry count:3, SRQ:1, rsvd:4 -/
  offset27 : BitVec 8
  localCaGuid : BitVec 64
  privateData : List (BitVec 8)
deriving DecidableEq

/-! ## Path blocks -/

namespace ReqPath

/-- `cm_req_get_primary_flow_label`, `cm_req_get_alt_flow_label`. -/
def getFlowLabel (p : ReqPath) : BitVec 32 := p.offset88 >>> 12

/-- `cm_req_set_primary_flow_label`, `cm_req_set_alt_flow_label`. -/
def setFlowLabel (p : ReqPath) (flowLabel : BitVec 32) : ReqPath :=
  { p with offset88 := (p.offset88 &&& 0x00000FFF) ||| (flowLabel <<< 12) }

/-- `cm_req_get_primary_packet_rate`, `cm_req_get_alt_packet_rate`. -/
def getPacketRate (p : ReqPath) : BitVec 8 := (p.offset88 &&& 0x3F).setWidth 8

/-- `cm_req_set_primary_packet_rate`, `cm_req_set_alt_packet_rate`. -/
def setPacketRate (p : ReqPath) (rate : BitVec 8) : ReqPath :=
  { p with offset88 := (p.offset88 &&& 0xFFFFFFC0) ||| (rate.setWidth 32 &&& 0x3F) }

/-- `cm_req_get_primary_sl`, `cm_req_get_alt_sl`. -/
def getSl (p : ReqPath) : BitVec 8 := p.offset94 >>> 4

/-- `cm_req_set_primary_sl`, `cm_req_set_alt_sl`. -/
def setSl (p : ReqPath) (sl : BitVec 8) : ReqPath :=
  { p with offset94 := (p.offset94 &&& 0x0F) ||| (sl <<< 4) }

/-- `cm_req_get_primary_subnet_local`, `cm_req_get_alt_subnet_local`. -/
def getSubnetLocal (p : ReqPath) : BitVec 8 := (p.offset94 &&& 0x08) >>> 3

/-- `cm_req_set_primary_subnet_local`, `cm_req_set_alt_subnet_local`. -/
def setSubnetLocal (p : ReqPath) (subnetLocal : BitVec 8) : ReqPath :=
  { p with offset94 := (p.offset94 &&& 0xF7) ||| ((subnetLocal &&& 0x1) <<< 3) }

/-- `cm_req_get_primary_local_ack_timeout`, `cm_req_get_alt_local_ack_timeout`. -/
def getLocalAckTimeout (p : ReqPath) : BitVec 8 := p.offset95 >>> 3

/-- `cm_req_set_primary_local_ack_timeout`, `cm_req_set_alt_local_ack_timeout`. -/
def setLocalAckTimeout (p : ReqPath) (localAckTimeout : BitVec 8) : ReqPath :=
  { p with offset95 := (p.offset95 &&& 0x07) ||| (localAckTimeout <<< 3) }

end ReqPath

/-! ## REQ -/

section

variable (m : ReqMsg)

def cmReqGetLocalQpn : BitVec 32 := m.offset32 >>> 8

def cmReqSetLocalQpn (qpn : BitVec 32) : ReqMsg :=
  { m with offset32 := (qpn <<< 8) ||| (m.offset32 &&& 0x000000FF) }

def cmReqGetRespRes : BitVec 8 := m.offset32.setWidth 8

def cmReqSetRespRes (respRes : BitVec 8) : ReqMsg :=
  { m with offset32 := respRes.setWidth 32 ||| (m.offset32 &&& 0xFFFFFF00) }

def cmReqGetInitDepth : BitVec 8 := m.offset36.setWidth 8

def cmReqSetInitDepth (initDepth : BitVec 8) : ReqMsg :=
  { m with offset36 := initDepth.setWidth 32 ||| (m.offset36 &&& 0xFFFFFF00) }

def cmReqGetRemoteRespTimeout : BitVec 8 := ((m.offset40 &&& 0xF8) >>> 3).setWidth 8

def cmReqSetRemoteRespTimeout (respTimeout : BitVec 8) : ReqMsg :=
  { m with offset40 := (respTimeout.setWidth 32 <<< 3) ||| (m.offset40 &&& 0xFFFFFF07) }

/-- `cm_req_get_qp_type`; the value 0 of the enumeration is `smi`. -/
def cmReqGetQpType : QpType :=
  match (m.offset40.setWidth 8 &&& 0x06) >>> 1 with
  | 0 => .rc
  | 1 => .uc
  | 3 =>
    match m.offset51 &&& 0x7 with
    | 1 => .xrcTgt
    | _ => .smi
  | _ => .smi

def cmReqSetQpType (qpType : QpType) : ReqMsg :=
  match qpType with
  | .uc => { m with offset40 := (m.offset40 &&& 0xFFFFFFF9) ||| 0x2 }
  | .xrcIni =>
    { m with
      offset40 := (m.offset40 &&& 0xFFFFFFF9) ||| 0x6
      offset51 := (m.offset51 &&& 0xF8) ||| 1 }
  | _ => { m with offset40 := m.offset40 &&& 0xFFFFFFF9 }

def cmReqGetFlowCtrl : BitVec 8 := (m.offset40 &&& 0x1).setWidth 8

def cmReqSetFlowCtrl (flowCtrl : BitVec 8) : ReqMsg :=
  { m with offset40 := (flowCtrl.setWidth 32 &&& 0x1) ||| (m.offset40 &&& 0xFFFFFFFE) }

def cmReqGetStartingPsn : BitVec 32 := m.offset44 >>> 8

def cmReqSetStartingPsn (startingPsn : BitVec 32) : ReqMsg :=
  { m with offset44 := (startingPsn <<< 8) ||| (m.offset44 &&& 0x000000FF) }

def cmReqGetLocalRespTimeout : BitVec 8 := ((m.offset44 &&& 0xF8) >>> 3).setWidth 8

def cmReqSetLocalRespTimeout (respTimeout : BitVec 8) : ReqMsg :=
  { m with offset44 := (respTimeout.setWidth 32 <<< 3) ||| (m.offset44 &&& 0xFFFFFF07) }

def cmReqGetRetryCount : BitVec 8 := (m.offset44 &&& 0x7).setWidth 8

def cmReqSetRetryCount (retryCount : BitVec 8) : ReqMsg :=
  { m with offset44 := (retryCount.setWidth 32 &&& 0x7) ||| (m.offset44 &&& 0xFFFFFFF8) }

def cmReqGetPathMtu : BitVec 8 := m.offset50 >>> 4

def cmReqSetPathMtu (pathMtu : BitVec 8) : ReqMsg :=
  { m with offset50 := (m.offset50 &&& 0xF) ||| (pathMtu <<< 4) }

def cmReqGetRnrRetryCount : BitVec 8 := m.offset50 &&& 0x7

def cmReqSetRnrRetryCount (rnrRetryCount : BitVec 8) : ReqMsg :=
  { m with offset50 := (m.offset50 &&& 0xF8) ||| (rnrRetryCount &&& 0x7) }

def cmReqGetMaxCmRetries : BitVec 8 := m.offset51 >>> 4

def cmReqSetMaxCmRetries (retries : BitVec 8) : ReqMsg :=
  { m with offset51 := (m.offset51 &&& 0xF) ||| (retries <<< 4) }

def cmReqGetSrq : BitVec 8 := (m.offset51 &&& 0x8) >>> 3

def cmReqSetSrq (srq : BitVec 8) : ReqMsg :=
  { m with offset51 := (m.offset51 &&& 0xF7) ||| ((srq &&& 0x1) <<< 3) }

end

/-! ## REP -/

section

variable (m : RepMsg)

def cmRepSetLocalQpn (qpn : BitVec 32) : RepMsg :=
  { m with offset12 := (qpn <<< 8) ||| (m.offset12 &&& 0x000000FF) }

def cmRepSetLocalEecn (eecn : BitVec 32) : RepMsg :=
  { m with offset16 := (eecn <<< 8) ||| (m.offset16 &&& 0x000000FF) }

def cmRepSetStartingPsn (startingPsn : BitVec 32) : RepMsg :=
  { m with offset20 := (startingPsn <<< 8) ||| (m.offset20 &&& 0x000000FF) }

def cmRepSetTargetAckDelay (targetAckDelay : BitVec 8) : RepMsg :=
  { m with offset26 := (m.offset26 &&& 0x07) ||| (targetAckDelay <<< 3) }

def cmRepSetFailover (failover : BitVec 8) : RepMsg :=
  { m with offset26 := (m.offset26 &&& 0xF9) ||| ((failover &&& 0x3) <<< 1) }

def cmRepSetFlowCtrl (flowCtrl : BitVec 8) : RepMsg :=
  { m with offset26 := (m.offset26 &&& 0xFE) ||| (flowCtrl &&& 0x1) }

def cmRepSetRnrRetryCount (rnrRetryCount : BitVec 8) : RepMsg :=
  { m with offset27 := (m.offset27 &&& 0x1F) ||| (rnrRetryCount <<< 5) }

def cmRepSetSrq (srq : BitVec 8) : RepMsg :=
  { m with offset27 := (m.offset27 &&& 0xEF) ||| ((srq &&& 0x1) <<< 4) }

end

end CmMsgs
