-- SUMMARY: How the client handles a received message.
import OfaKernel.Xprtrdma.DecodeReply
import OfaKernel.Xprtrdma.MarshalReq

/-!
# Handling a received message

A receive buffer is reused, so it is memory without an end, of which the first `n` bytes were
received. `xdr_inline_decode` gives the bytes that are asked for or fails; what
`xdr_stream_remaining` gives is a parameter.
-/

namespace Xprtrdma.Reply

abbrev Mem := Nat → UInt8

/-- A word, as it lies in memory. -/
def wordAt (mem : Mem) (p : Nat) : List UInt8 := [mem p, mem (p + 1), mem (p + 2), mem (p + 3)]

def rpcrdmaVersion : List UInt8 := [0, 0, 0, 1]

/-- `xdr_zero`, and `rdma_msg` and `RPC_CALL` as well. -/
def xdrZero : List UInt8 := [0, 0, 0, 0]

def rdmaMsg : List UInt8 := xdrZero
def rdmaNomsg : List UInt8 := [0, 0, 0, 1]
def rpcCall : List UInt8 := xdrZero

/-- The lengths in `rq_rcv_buf` of a request that is waiting. -/
structure Rqst where
  id : Nat
  headLen : Nat
  pageBase : Nat
  pageLen : Nat
  tailLen : Nat
  deriving Repr, DecidableEq

/-- What the handler reads of the transport. -/
structure Xprt where
  /-- `xprt_lookup_rqst`. -/
  lookup : List UInt8 → Option Rqst
  maxRequests : Nat
  /-- `bc_pa_list` is not empty. -/
  bcRqst : Bool
  /-- `xdr_stream_remaining` of a message of the given length, from a position on. -/
  remaining : Nat → Nat → Nat

inductive Repost where
  | shortReply
  | badVersion
  | noRqst
  deriving Repr, DecidableEq

/-- What comes of a message. A byte that is `none` is one of the upper layer's own. -/
inductive Outcome where
  | badStatus
  | repost (reason : Repost)
  /-- Taken for a backchannel call, but too short for one. -/
  | shortCall
  | callOverflow
  | call (xid bytes : List UInt8)
  | reply (rqst : Nat) (credits : Nat) (status : Int) (bytes : List (Option UInt8))
  deriving Repr, DecidableEq

/-! ## Backchannel calls -/

/-- `rpcrdma_bc_receive_call`, with the stream at `p`. -/
def bcReceiveCall (x : Xprt) (n : Nat) (mem : Mem) (p : Nat) : Outcome :=
  let size := x.remaining n p
  if ¬ x.bcRqst then .callOverflow
  else .call (wordAt mem p) ((List.range size).map fun i => mem (p + i))

/-- `rpcrdma_is_bcall`, with the stream at `p`; `none` for false. The words are peeked at without a
check of the length. -/
def rpcrdmaIsBcall (x : Xprt) (n : Nat) (mem : Mem) (p : Nat) (xid proc : List UInt8) :
    Option Outcome :=
  if proc ≠ rdmaMsg then none
  -- chunk lists
  else if wordAt mem p ≠ xdrZero then none
  else if wordAt mem (p + 4) ≠ xdrZero then none
  else if wordAt mem (p + 8) ≠ xdrZero then none
  -- RPC header
  else if wordAt mem (p + 12) ≠ xid then none
  else if wordAt mem (p + 16) ≠ rpcCall then none
  else if p + 12 ≤ n then some (bcReceiveCall x n mem (p + 12))
  else some .shortCall

/-! ## Replies -/

/-- The words of the message from `p` on. -/
def wordsFrom (n : Nat) (mem : Mem) (p : Nat) : List Nat :=
  (List.range ((n - p) / 4)).map fun i => be32 (wordAt mem (p + 4 * i))

/-- What `rpcrdma_inline_fixup` sets in `rq_rcv_buf`: pointers into the receive buffer, and the page
contents that it copies. -/
structure RcvBuf where
  headBase : Nat
  pages : Nat → Option UInt8
  tailBase : Option Nat

/-- The loop of `rpcrdma_inline_fixup`, for `npages` pages. -/
def fixupPages (mem : Mem) : Nat → Nat → Nat → Nat → Nat → (Nat → Option UInt8) → Nat → Option UInt8
  | 0, _, _, _, _, pages => pages
  | npages + 1, page, pageBase, srcp, pagelistLen, pages =>
    let curlen := min (pageSize - pageBase) pagelistLen
    let dest := page * pageSize + pageBase
    let pages := fun a =>
      if dest ≤ a ∧ a < dest + curlen then some (mem (srcp + (a - dest))) else pages a
    if pagelistLen - curlen = 0 then pages
    else fixupPages mem npages (page + 1) 0 (srcp + curlen) (pagelistLen - curlen) pages

def rpcrdmaInlineFixup (mem : Mem) (rqst : Rqst) (srcp copyLen pad : Nat) : RcvBuf :=
  let headBase := srcp
  let curlen := min rqst.headLen copyLen
  let srcp := srcp + curlen
  let copyLen := copyLen - curlen
  let inPages := copyLen ≠ 0 ∧ rqst.pageLen ≠ 0
  let pagelistLen := if inPages then min rqst.pageLen copyLen else 0
  let pages :=
    if inPages then
      let pageBase := rqst.pageBase % pageSize
      let npages := (pageBase + pagelistLen + pageSize - 1) / pageSize
      fixupPages mem npages (rqst.pageBase / pageSize) pageBase srcp pagelistLen fun _ => none
    else fun _ => none
  let srcp := if inPages then srcp + pagelistLen - pad else srcp
  let copyLen := copyLen - pagelistLen
  { headBase := headBase
    pages := pages
    tailBase := if copyLen ≠ 0 ∨ pad ≠ 0 then some srcp else none }

/-- What the upper layer sees of a reply of `status` bytes. It ignores the content of the pad in
front of the tail. -/
def shown (mem : Mem) (rqst : Rqst) (buf : RcvBuf) (pad status : Nat) : List (Option UInt8) :=
  ((List.range (min status rqst.headLen)).map fun i => some (mem (buf.headBase + i))) ++
  ((List.range (min (status - rqst.headLen) rqst.pageLen)).map fun i => buf.pages
    (rqst.pageBase + i)) ++
  (((List.range (min (status - rqst.headLen - rqst.pageLen) rqst.tailLen)).drop pad).map fun i =>
    buf.tailBase.map fun p => mem (p + i))

def EIO : Int := 5

def xdrAlignSize (n : Nat) : Nat := (n + 3) / 4 * 4

/-- `rpcrdma_decode_msg`, with the stream at `p`: the status and what is seen of the reply. -/
def rpcrdmaDecodeMsg (x : Xprt) (n : Nat) (mem : Mem) (p : Nat) (rqst : Rqst) : Int × List
    (Option UInt8) :=
  match decodeChunkLists (wordsFrom n mem p) with
  | none => (- EIO, [])
  | some (writelist, replychunk, rest) =>
    if replychunk ≠ 0 then (- EIO, [])
    else
      let base := p + 4 * ((wordsFrom n mem p).length - rest.length)
      let rpclen := x.remaining n base
      let buf := rpcrdmaInlineFixup mem rqst base rpclen (writelist % 4)
      let status := I32.wrap (rpclen + xdrAlignSize writelist : Nat)
      (status, if status < 0 then [] else shown mem rqst buf (writelist % 4) status.toNat)

/-- The switch of `rpcrdma_complete_rqst`. A reply chunk has been written by the peer itself, and an
error message has no bytes for the upper layer. -/
def rpcrdmaCompleteRqst (x : Xprt) (n : Nat) (mem : Mem) (p : Nat) (proc : List UInt8)
    (rqst : Rqst) :
    Int × List (Option UInt8) :=
  let r :=
    if proc = rdmaMsg then rpcrdmaDecodeMsg x n mem p rqst
    else if proc = rdmaNomsg then
      ((rpcrdmaDecodeNomsg (wordsFrom n mem p)).elim (- EIO) fun len => I32.wrap len, [])
    else (- EIO, [])
  if r.1 < 0 then (- EIO, []) else r

/-- `rpcrdma_reply_handler` and the completion that it queues, for a message of `n` bytes. -/
def rpcrdmaReplyHandler (x : Xprt) (n : Nat) (mem : Mem) : Outcome :=
  if n = 0 then .badStatus
  -- fixed transport header fields
  else if n < 16 then .repost .shortReply
  else
    let xid := wordAt mem 0
    let vers := wordAt mem 4
    let credits := be32 (wordAt mem 8)
    let proc := wordAt mem 12
    if vers ≠ rpcrdmaVersion then .repost .badVersion
    else
      match rpcrdmaIsBcall x n mem 16 xid proc with
      | some outcome => outcome
      | none =>
        match x.lookup xid with
        | none => .repost .noRqst
        | some rqst =>
          let credits := if credits = 0 then 1 else min credits x.maxRequests
          let r := rpcrdmaCompleteRqst x n mem 16 proc rqst
          .reply rqst.id credits r.1 r.2

end Xprtrdma.Reply
