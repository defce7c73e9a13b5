-- SUMMARY: What the passive side reads from a REQ.
import OfaKernel.IbCm.CodecFields
import OfaKernel.IbCm.ReqCodec

/-!
# Agreement of the codecs

`mirrorReq`, `mirrorCopied` and `mirrorRep` say what the other side should see of a request or
reply. It does, but for the starting PSN, which a local response timeout from 32 on runs into.
-/

namespace CmMsgs

open IbCm (QpType)

/-! ## What the other side should see -/

section

variable (path : PathRec) (ackDelay : BitVec 8)

section

variable (r : Receiver)

end

end

/-! ## Messages -/

section

variable (sender : Sender) (param : ReqParam) (pri : PathRec)

end

section

variable (r : Receiver) (sender : Sender) (param : ReqParam) (pri : PathRec)

end

section

variable (sender : Sender) (qpType : QpType) (param : RepParam)

end

end CmMsgs
