-- SUMMARY: `svc_rdma_sendto`: the RDMA Writes of a reply and its transport header.
import OfaKernel.Svcrdma.DecodeReq

/-!
# Sending a reply

The server writes the pages of the reply, or the whole reply, into the segments by RDMA Write and
returns the chunk with the bytes that each segment got. A pointer into the received header is the
list of the words from there on. The bytes of a scatterlist entry stand for its address and
length.
-/

namespace Svcrdma

def PageSizes.pageSize (k : PageSizes) : Nat := 2 ^ k.pageShift

/-- `rq_res`, the reply. It starts with the RPC header in `head`, lies in the pages of the
request, and its lengths are below `INT_MAX`. -/
structure RqRes where
  head : List UInt8
  pages : Nat → Nat → UInt8
  pageBase : Nat
  pageLen : Nat
  tail : List UInt8
  head_ne : head ≠ []
  len_lt : head.length + pageLen + tail.length < 2 ^ 31
  base_lt : pageBase + pageLen < 2 ^ 32

def RqRes.pageBytes (k : PageSizes) (xdr : RqRes) : List UInt8 :=
  (List.range xdr.pageLen).map fun i =>
    xdr.pages ((xdr.pageBase + i) / k.pageSize) ((xdr.pageBase + i) % k.pageSize)

/-! ## Outcomes -/

def eIO : Int := -5

def e2BIG : Int := -7

def eNOMEM : Int := -12

def eNOTCONN : Int := -107

/-- Why a function did not get to its end: an error code, a reference through `NULL`, or a
loop that has not ended. -/
inductive Abort where
  | code (ret : Int)
  | fault
  | hang
  deriving Repr, DecidableEq

/-- What `svc_rdma_post_chunk_ctxt` can return: more work requests than the Send Queue is
deep are `-EINVAL`, a lost connection is `-ENOTCONN`. -/
inductive PostResult where
  | posted
  | tooMany
  | lost
  deriving Repr, DecidableEq

/-- Memory, device and connection while one reply is sent. `dmaMapSg` is `ib_dma_map_sg`: it gives
the lengths of the DMA entries and none if it fails. `initWrs` counts the work requests for so
many DMA entries. -/
structure RwEnv where
  sendCtxt : Bool
  writeInfo : Bool
  rwCtxt : Nat → Bool
  dmaMapSg : List Nat → List Nat
  initWrs : Nat → Option Nat
  post : Nat → PostResult
  replyMsg : Bool
  fcCredits : Nat
  merges : ∀ lens, dmaMapSg lens = [] ∨
    ∃ runs : List (List Nat), [] ∉ runs ∧ runs.flatten = lens ∧
      dmaMapSg lens = runs.map List.sum

/-- Nothing is refused. -/
structure RwEnv.Ample (env : RwEnv) : Prop where
  sendCtxt : env.sendCtxt = true
  writeInfo : env.writeInfo = true
  rwCtxt : ∀ n, env.rwCtxt n = true
  dmaMapSg : ∀ lens, lens ≠ [] → env.dmaMapSg lens ≠ []
  initWrs : ∀ n, env.initWrs n ≠ none
  post : ∀ n, env.post n = .posted
  replyMsg : env.replyMsg = true

/-- The loop of `svc_rdma_pagelist_to_sg`. `entries` of the table are left; after the last
one `sg_next` is `NULL`. -/
def pagelistLoop (k : PageSizes) (xdr : RqRes) : Nat → Nat → Nat → Nat →
    Option (List (List UInt8))
  | 0, _, _, _ => none
  | entries + 1, page, pageOff, remaining =>
    let sgeBytes := min remaining (k.pageSize - pageOff)
    let sg := (List.range sgeBytes).map fun i => xdr.pages page (pageOff + i)
    if remaining - sgeBytes = 0 then some [sg]
    else (pagelistLoop k xdr entries (page + 1) 0 (remaining - sgeBytes)).map (sg :: ·)

/-- The loop of `rdma_rw_ctx_init` to the entry that `sg_offset` falls into, with the
number of entries left of those that were mapped. -/
def skipSg (sgOffset sgCnt : Nat) : List Nat → Option Nat
  | [] => none
  | len :: sg => if sgOffset < len then some sgCnt else skipSg (sgOffset - len) (U32.dec sgCnt) sg

/-- `rdma_rw_ctx_init` on a table of `entries`; `sgl` has the lengths of the scatterlist, and
the entries behind it are zero. -/
def rdmaRwCtxInit (env : RwEnv) (entries : Nat) (sgl : List Nat) : Except Abort Nat :=
  let dma := env.dmaMapSg sgl
  if dma = [] then .error (.code eNOMEM)
  else
    match skipSg 0 dma.length (dma ++ List.replicate (entries - dma.length) 0) with
    | none => .error .fault
    | some 0 => .error (.code eIO)
    | some (n + 1) =>
      match env.initWrs (n + 1) with
      | none => .error (.code eIO)
      | some wqes => .ok wqes

/-! ## Writing a chunk -/

/-- One `svc_rdma_rw_ctxt`: the segment and the place in it, and the arguments that
`rdma_rw_ctx_init` got. -/
structure Write where
  segNo : Nat
  segOff : Nat
  handle : Nat
  remoteAddr : Nat
  sgl : List (List UInt8)
  deriving Repr, DecidableEq

def Write.bytes (w : Write) : List UInt8 := w.sgl.flatten

/-- `struct svc_rdma_write_info`. `base` is the part of the kvec that is still to be sent;
the newest entry of `rwctxts` comes first. -/
structure WriteInfo where
  segOff : Nat := 0
  segNo : Nat := 0
  nsegs : Nat
  segs : List Nat
  base : List UInt8 := []
  nextOff : Nat := 0
  rwctxts : List Write := []
  sqecount : Nat := 0

def svcRdmaWriteInfoAlloc (env : RwEnv) (chunk : List Nat) : Except Abort WriteInfo :=
  if env.writeInfo then .ok { nsegs := chunk.getD 1 0, segs := chunk.drop 2 }
  else .error (.code eNOMEM)

/-- A constructor fills a scatterlist table of so many entries with the next bytes. -/
abbrev SgConstructor := WriteInfo → Nat → Nat → Option (List (List UInt8) × WriteInfo)

def svcRdmaVecToSg : SgConstructor := fun info len _ =>
  some ([info.base.take len], { info with base := info.base.drop len })

def svcRdmaPagelistToSg (k : PageSizes) (xdr : RqRes) : SgConstructor :=
    fun info remaining entries =>
  let pageOff := U32.wrap (info.nextOff + xdr.pageBase)
  (pagelistLoop k xdr entries (pageOff / k.pageSize) (pageOff % k.pageSize) remaining).map
    fun sgl => (sgl, { info with nextOff := U32.wrap (info.nextOff + remaining) })

def xdrDecodeHyper (hi lo : Nat) : Nat := hi * 2 ^ 32 + lo

/-- The bookkeeping of `svc_rdma_build_writes` after a context was initialised. -/
def WriteInfo.advance (info : WriteInfo) (w : Write) (segLength writeLen wqes : Nat) : WriteInfo :=
  let full := writeLen = U32.sub segLength info.segOff
  { info with
    rwctxts := w :: info.rwctxts
    sqecount := info.sqecount + wqes
    segNo := if full then info.segNo + 1 else info.segNo
    segOff := if full then 0 else U32.wrap (info.segOff + writeLen) }

/-- `svc_rdma_build_writes`, for at most so many rounds. -/
def buildWritesLoop (k : PageSizes) (env : RwEnv) (constructor : SgConstructor) :
    Nat → WriteInfo → Nat → Except Abort WriteInfo
  | 0, _, _ => .error .hang
  | rounds + 1, info, remaining =>
    if info.nsegs ≤ info.segNo then .error (.code e2BIG)
    else
      let seg := info.segs.drop (4 * info.segNo)
      let segLength := seg.getD 1 0
      let segOffset := (xdrDecodeHyper (seg.getD 2 0) (seg.getD 3 0) + info.segOff) % 2 ^ 64
      let writeLen := min remaining (U32.sub segLength info.segOff)
      let entries := writeLen / k.pageSize + 2
      if env.rwCtxt info.rwctxts.length then
        match constructor info writeLen entries with
        | none => .error .fault
        | some (sgl, info') =>
          match rdmaRwCtxInit env entries (sgl.map List.length) with
          | .error (.code _) => .error (.code eIO)
          | .error e => .error e
          | .ok wqes =>
            let w : Write := ⟨info.segNo, info.segOff, seg.getD 0 0, segOffset, sgl⟩
            if U32.sub remaining writeLen = 0 then .ok (info'.advance w segLength writeLen wqes)
            else buildWritesLoop k env constructor rounds (info'.advance w segLength writeLen wqes)
              (U32.sub remaining writeLen)
      else .error (.code eNOMEM)

/-- `svc_rdma_build_writes`. Every round but the last leaves a segment. -/
def svcRdmaBuildWrites (k : PageSizes) (env : RwEnv) (constructor : SgConstructor)
    (info : WriteInfo) (remaining : Nat) : Except Abort WriteInfo :=
  buildWritesLoop k env constructor (info.nsegs + 1) info remaining

def svcRdmaSendXdrKvec (k : PageSizes) (env : RwEnv) (info : WriteInfo) (vec : List UInt8) :
    Except Abort WriteInfo :=
  svcRdmaBuildWrites k env svcRdmaVecToSg { info with base := vec } vec.length

def svcRdmaSendXdrPagelist (k : PageSizes) (env : RwEnv) (info : WriteInfo) (xdr : RqRes) :
    Except Abort WriteInfo :=
  svcRdmaBuildWrites k env (svcRdmaPagelistToSg k xdr) { info with nextOff := 0 } xdr.pageLen

/-- `svc_rdma_post_chunk_ctxt`: the chain is built from the newest context to the oldest, each
one before those that are in the chain. -/
def svcRdmaPostChunkCtxt (env : RwEnv) (info : WriteInfo) : Except Abort (List Write) :=
  match env.post info.sqecount with
  | .posted => .ok (info.rwctxts.foldl (fun chain w => w :: chain) [])
  | .tooMany => .error (.code eINVAL)
  | .lost => .error (.code eNOTCONN)

/-- `svc_rdma_send_write_chunk`: the returned value and the Writes that were posted. -/
def svcRdmaSendWriteChunk (k : PageSizes) (env : RwEnv) (wrCh : List Nat) (xdr : RqRes) :
    Except Abort (Int × List Write) :=
  if xdr.pageLen = 0 then .ok (0, [])
  else do
    let info ← svcRdmaWriteInfoAlloc env wrCh
    let info ← svcRdmaSendXdrPagelist k env info xdr
    let writes ← svcRdmaPostChunkCtxt env info
    return (I32.wrap xdr.pageLen, writes)

/-- A part of the reply that is sent only if there is one. -/
def sendIf (present : Bool) (send : WriteInfo → Except Abort WriteInfo) (info : WriteInfo) :
    Except Abort WriteInfo :=
  if present then send info else .ok info

def svcRdmaSendReplyChunk (k : PageSizes) (env : RwEnv) (rpCh : List Nat) (writelist : Bool)
    (xdr : RqRes) : Except Abort (Int × List Write) := do
  let info ← svcRdmaWriteInfoAlloc env rpCh
  let info ← svcRdmaSendXdrKvec k env info xdr.head
  let pagesToo := !writelist && xdr.pageLen ≠ 0
  let info ← sendIf pagesToo (svcRdmaSendXdrPagelist k env · xdr) info
  let info ← sendIf (xdr.tail.length ≠ 0) (svcRdmaSendXdrKvec k env · xdr.tail) info
  let writes ← svcRdmaPostChunkCtxt env info
  let consumed := xdr.head.length + (if pagesToo then xdr.pageLen else 0) + xdr.tail.length
  return (I32.wrap consumed, writes)

/-! ## The header of the reply -/

def storeWords (buf : List Nat) (p : Nat) (ws : List Nat) : List Nat :=
  buf.take p ++ ws ++ buf.drop (p + ws.length)

/-- The loop of `xdr_encode_write_chunk` over the segments. -/
def encodeSegments : Nat → List Nat → Nat → List Nat
  | 0, _, _ => []
  | n + 1, src, remaining =>
    let segLen := src.getD 1 0
    let filled := if segLen ≤ remaining then segLen else remaining
    src.getD 0 0 :: filled :: src.getD 2 0 :: src.getD 3 0 ::
      encodeSegments n (src.drop 4) (if segLen ≤ remaining then U32.sub remaining segLen else 0)

/-- `xdr_encode_write_chunk`: the number of segments and the words that are stored. -/
def xdrEncodeWriteChunk (src : List Nat) (remaining : Nat) : Nat × List Nat :=
  let nsegs := src.getD 1 0
  (nsegs, src.getD 0 0 :: nsegs :: encodeSegments nsegs (src.drop 2) remaining)

/-- The loop of `svc_rdma_xdr_encode_write_list`; the place behind the last chunk is
returned with the buffer. -/
def encodeWriteListLoop : Nat → List Nat → Nat → List Nat → Nat → List Nat × Nat
  | 0, resp, p, _, _ => (resp, p)
  | fuel + 1, resp, p, q, consumed =>
    if q.getD 0 0 = 0 then (resp, p)
    else
      let (nsegs, ws) := xdrEncodeWriteChunk q consumed
      encodeWriteListLoop fuel (storeWords resp p ws) (p + (2 + U32.wrap (nsegs * 4)))
        (q.drop (2 + U32.wrap (nsegs * 4))) 0

def svcRdmaXdrEncodeWriteList (resp wrCh : List Nat) (consumed : Nat) : List Nat :=
  let (resp, p) := encodeWriteListLoop wrCh.length resp 5 wrCh consumed
  storeWords resp p [0, 0]

/-- The words after a list of write chunks: `while (*p++ != xdr_zero)`. -/
def skipChunks : Nat → List Nat → List Nat
  | 0, p => p
  | fuel + 1, p =>
    if p.getD 0 0 = 0 then p.drop 1
    else skipChunks fuel (p.drop (2 + U32.wrap (p.getD 1 0 * 4)))

def svcRdmaXdrEncodeReplyChunk (resp rpCh : List Nat) (consumed : Nat) : List Nat :=
  let p := resp.length - (skipChunks resp.length (resp.drop 5)).length
  storeWords resp p (xdrEncodeWriteChunk rpCh consumed).2

def svcRdmaReplyHdrLen (resp : List Nat) : Nat :=
  let p := skipChunks resp.length (resp.drop 5)
  let p := if p.getD 0 0 = 0 then p.drop 1 else p.drop (2 + U32.wrap (p.getD 1 0 * 4))
  4 * (resp.length - p.length)

/-- The words after the read list: `while (*p++ != xdr_zero) p += 5`. -/
def skipReadList : Nat → List Nat → List Nat
  | 0, p => p
  | fuel + 1, p => if p.getD 0 0 = 0 then p.drop 1 else skipReadList fuel (p.drop 6)

/-- `svc_rdma_get_write_arrays`: the write list and the reply chunk, if there are any. -/
def svcRdmaGetWriteArrays (argp : List Nat) : Option (List Nat) × Option (List Nat) :=
  let p := skipReadList argp.length (argp.drop 4)
  let reply := skipChunks p.length p
  (if p.getD 0 0 = 0 then none else some p, if reply.getD 0 0 = 0 then none else some reply)

/-- What became of a reply. -/
inductive Outcome where
  /-- The header that was sent, and the RDMA Writes before it. -/
  | sent (header : List Nat) (writes : List Write)
  /-- An error: `-E2BIG` and `-EINVAL` are answered by `RDMA_ERROR`, all others close the
  connection. -/
  | failed (ret : Int)
  | fault
  | hang
  deriving Repr, DecidableEq

/-- The part of `svc_rdma_sendto` that writes the chunks and builds the header in `resp`. -/
def sendChunks (k : PageSizes) (env : RwEnv) (argp resp : List Nat) (xdr : RqRes) :
    Except Abort (List Nat × List Write) := do
  let (wrLst, rpCh) := svcRdmaGetWriteArrays argp
  let proc := if rpCh.isSome then 1 else 0
  let resp := storeWords resp 0 [argp.getD 0 0, argp.getD 1 0, env.fcCredits, proc, 0, 0, 0]
  let (resp, writes) ← match wrLst with
    | none => .ok (resp, [])
    | some wrLst => do
      let (ret, writes) ← svcRdmaSendWriteChunk k env wrLst xdr
      if ret < 0 then .error (.code ret)
      else .ok (svcRdmaXdrEncodeWriteList resp wrLst ret.toNat, writes)
  match rpCh with
  | none => .ok (resp, writes)
  | some rpCh => do
    let (ret, writes') ← svcRdmaSendReplyChunk k env rpCh wrLst.isSome xdr
    if ret < 0 then .error (.code ret)
    else .ok (svcRdmaXdrEncodeReplyChunk resp rpCh ret.toNat, writes ++ writes')

/-- `svc_rdma_sendto`. `resp` is what the send buffer holds before. -/
def svcRdmaSendto (k : PageSizes) (env : RwEnv) (argp resp : List Nat) (xdr : RqRes) : Outcome :=
  if env.sendCtxt then
    match sendChunks k env argp resp xdr with
    | .error (.code ret) => .failed ret
    | .error .fault => .fault
    | .error .hang => .hang
    | .ok (resp, writes) =>
      if env.replyMsg then .sent (resp.take (svcRdmaReplyHdrLen resp / 4)) writes
      else .failed eNOTCONN
  else .failed eNOMEM

end Svcrdma
