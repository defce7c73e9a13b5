-- SUMMARY: The budgets of an RPC-over-RDMA client.
import Mathlib.Tactic.NormNum.Prime
import OfaKernel.Lib.CInt
import OfaKernel.Xprtrdma.PrepareSges

/-!
# Segment budgets

The budgets that `frwr_op_open` fixes, compared with what `rpcrdma_convert_iovs`, `frwr_op_map`
and the encoding functions use. Only places and lengths of the buffers matter.
-/

namespace Xprtrdma.Budget

/-! ## Buffers and segments -/

def maxDataSegs : Nat := 1024 * 1024 / pageSize + 1

def maxSegs : Nat := maxDataSegs + 3

/-- `RPCRDMA_HDRLEN_MIN`: the fixed part and the three discriminators. -/
def hdrlenMin : Nat := 4 * 7

/-- `rpcrdma_readchunk_maxsz`, the words of `encode_read_segment`. -/
def readchunkMaxsz : Nat := 6

/-- `rpcrdma_segment_maxsz`, the words of `encode_rdma_segment`. -/
def segmentMaxsz : Nat := 4

structure Kvec where
  iovBase : Nat
  iovLen : Nat
  deriving Repr, DecidableEq

/-- `struct xdr_buf`, without its bytes. -/
structure Buf where
  head : Kvec
  pageBase : Nat
  pageLen : Nat
  tail : Kvec
  deriving Repr, DecidableEq

def Buf.len (xdr : Buf) : Nat := xdr.head.iovLen + xdr.pageLen + xdr.tail.iovLen

structure Seg where
  page : Option Nat
  offset : Nat
  len : Nat
  deriving Repr, DecidableEq

inductive ChunkType where
  | noch
  | readch
  | areadch
  | writech
  | replych
  deriving Repr, DecidableEq

/-! ## Opening the adapter -/

/-- What `frwr_op_open` reads of the device. -/
structure DeviceAttrs where
  sgGaps : Bool
  maxFastRegPageListLen : Nat
  maxQpWr : Int
  deriving Repr, DecidableEq

/-- `struct rpcrdma_ia`, as far as the budgets are concerned. -/
structure Ia where
  /-- `ri_mrtype` is `IB_MR_TYPE_SG_GAPS`. -/
  holesOk : Bool
  maxFrwrDepth : Nat
  maxSegs : Nat
  maxInlineWrite : Nat := 0
  maxInlineRead : Nat := 0
  maxSendSges : Nat := 0
  implicitRoundup : Bool := false
  deriving Repr, DecidableEq

/-- `struct rpcrdma_create_data_internal`. -/
structure Cdata where
  maxRequests : Nat
  inlineWsize : Nat
  inlineRsize : Nat
  deriving Repr, DecidableEq

def ENOMEM : Int := 12
def EINVAL : Int := 22

def backwardWrs : Int := 8

/-- The loop of `frwr_op_open`: two requests more for each further region. -/
def regWrs (depth : Int) : Nat → Int → Option Int
  | 0, _ => none
  | fuel + 1, delta =>
    let delta := delta - depth
    if delta > 0 then (regWrs depth fuel delta).map (· + 2) else some 2

/-- `unsigned int` of an `int`. -/
def toU32 (n : Int) : Nat := (n % 2 ^ 32).toNat

/-- `frwr_op_open`: the error, or the adapter and the connection data. `tooFew` compares with
`RPCRDMA_MIN_SLOT_TABLE`; a depth of zero does not return. -/
def frwrOpOpen (tooFew : Int → Bool) (attrs : DeviceAttrs) (cdata : Cdata) : Option
    (Except Int (Ia × Cdata)) :=
  let depth := min maxDataSegs attrs.maxFastRegPageListLen
  let extra := if depth < maxDataSegs then regWrs depth maxDataSegs
    (maxDataSegs - depth) else some 0
  extra.map fun extra =>
    let wrs := 7 + extra
    let maxQpWr := attrs.maxQpWr - backwardWrs - 1
    if tooFew maxQpWr then .error (-ENOMEM)
    else
      let maxRequests := min cdata.maxRequests (toU32 maxQpWr)
      let maxSendWr := toU32 (maxRequests * wrs)
      let maxRequests := if maxSendWr > toU32 maxQpWr then toU32 (maxQpWr.tdiv wrs) else maxRequests
      if maxRequests = 0 ∧ maxSendWr > toU32 maxQpWr then .error (-EINVAL)
      else
        .ok ({ holesOk := attrs.sgGaps, maxFrwrDepth := depth
               maxSegs := max 1 (maxDataSegs / depth) + 2 },
          { cdata with maxRequests := maxRequests })

/-- `rpcrdma_max_call_header_size`; the size of the fixed header is overwritten. -/
def maxCallHeaderSize (maxsegs : Nat) : Nat :=
    maxsegs * readchunkMaxsz * 4 + 4 + segmentMaxsz * 4 + 4

/-- `rpcrdma_max_reply_header_size`; the size of the fixed header is overwritten. -/
def maxReplyHeaderSize (maxsegs : Nat) : Nat := 4 + maxsegs * segmentMaxsz * 4 + 4

def setMaxHeaderSizes (ia : Ia) (cdata : Cdata) : Ia :=
  { ia with
    maxInlineWrite := U32.sub cdata.inlineWsize (maxCallHeaderSize ia.maxSegs)
    maxInlineRead := U32.sub cdata.inlineRsize (maxReplyHeaderSize ia.maxSegs) }

/-! ## Segments -/

/-- The loop of `rpcrdma_convert_kvec`; no segment is empty, so as many steps as bytes are enough.
-/
def cutKvec (base remaining : Nat) : Nat → List Seg
  | 0 => []
  | fuel + 1 =>
    if remaining = 0 then []
    else
      let n := min (pageSize - base % pageSize) remaining
      ⟨none, base, n⟩ :: cutKvec (base + n) (remaining - n) fuel

def convertKvec (vec : Kvec) : List Seg :=
  let remaining := U32.wrap vec.iovLen
  cutKvec vec.iovBase remaining remaining

/-- The loop of `rpcrdma_convert_iovs` over the pages; `present` says whether a page is there. The
segments, and whether it got to the end. -/
def convertPages (present : Nat → Bool) (page offset len : Nat) : Nat → List Seg × Bool
  | 0 => ([], true)
  | fuel + 1 =>
    if len = 0 then ([], true)
    else if ¬ present page then ([], false)
    else
      let n := min (pageSize - offset) len
      let rest := convertPages present (page + 1) 0 (len - n) fuel
      (⟨some page, offset, n⟩ :: rest.1, rest.2)

/-- The tail is left out of a read or write chunk when the padding is implicit. -/
def withTail (ia : Ia) (xdr : Buf) (type : ChunkType) : Bool :=
  ¬ ((type = .readch ∨ type = .writech) ∧ ia.implicitRoundup) ∧ xdr.tail.iovLen ≠ 0

/-- `rpcrdma_convert_iovs`: the segments stored, and whether it returns their number. -/
def convertIovs (ia : Ia) (present : Nat → Bool) (xdr : Buf) (pos : Nat) (type : ChunkType) :
    List Seg × Bool :=
  let head := if pos = 0 then convertKvec xdr.head else []
  let pages := convertPages present (xdr.pageBase / pageSize) (xdr.pageBase % pageSize)
    xdr.pageLen xdr.pageLen
  if ¬ pages.2 then (head ++ pages.1, false)
  else
    let tail := if withTail ia xdr type then convertKvec xdr.tail else []
    let segs := head ++ pages.1 ++ tail
    (segs, segs.length ≤ maxSegs)

/-- A segment ends, or the next one begins, inside a page. -/
def Gap (a b : Seg) : Prop := b.offset % pageSize ≠ 0 ∨ (a.offset + a.len) % pageSize ≠ 0

instance (a b : Seg) : Decidable (Gap a b) := inferInstanceAs (Decidable (_ ∨ _))

/-- The loop of `frwr_op_map`: how many of the segments go into the region, at most `nsegs`. -/
def mapLoop (holesOk : Bool) : Nat → List Seg → Nat
  | 0, _ => 0
  | _, [] => 0
  | nsegs + 1, seg :: rest =>
    if holesOk then mapLoop holesOk nsegs rest + 1
    else if (0 < nsegs ∧ ∃ next ∈ rest.head?, next.offset % pageSize ≠ 0) ∨
      (seg.offset + seg.len) % pageSize ≠ 0
    then 1
    else mapLoop holesOk nsegs rest + 1

/-- `frwr_op_map`: the segments of the next region. `ib_dma_map_sg` maps each of them. -/
def frwrOpMap (ia : Ia) (segs : List Seg) : Nat :=
    mapLoop ia.holesOk (min segs.length ia.maxFrwrDepth) segs

/-- The loop around `frwr_op_map`: the regions of a chunk, `none` if it does not end. -/
def regions (ia : Ia) : Nat → List Seg → Option Nat
  | 0, _ => none
  | fuel + 1, segs =>
    let rest := segs.drop (frwrOpMap ia segs)
    if rest = [] then some 1 else (regions ia fuel rest).map (· + 1)

/-- `rpcrdma_args_inline`, the loop over the pages. -/
def argsPages (maxSendSges : Nat) (offset remaining count : Nat) : Nat → Bool
  | 0 => true
  | fuel + 1 =>
    if remaining = 0 then true
    else if count + 1 > maxSendSges then false
    else argsPages maxSendSges 0 (remaining - min (pageSize - offset) remaining) (count + 1) fuel

def argsInline (ia : Ia) (xdr : Buf) : Bool :=
  if xdr.len > ia.maxInlineWrite then false
  else argsPages ia.maxSendSges (xdr.pageBase % pageSize) xdr.pageLen 3 xdr.pageLen

/-- A call, and what is known of its results. -/
structure Call where
  snd : Buf
  rcv : Buf
  rcvBuflen : Nat
  /-- `XDRBUF_READ` of the receive buffer. -/
  rcvRead : Bool
  ddpAllowed : Bool
  deriving Repr, DecidableEq

/-- The chunk for the results that `rpcrdma_marshal_req` chooses. -/
def resultChunk (ia : Ia) (call : Call) : ChunkType :=
  if call.rcvBuflen ≤ ia.maxInlineRead then .noch
  else if call.ddpAllowed && call.rcvRead then .writech
  else .replych

/-- The bytes of the transport header of an inline call: an empty read list, and the write list or
reply chunk with its regions. -/
def inlineHeader (ia : Ia) (present : Nat → Bool) (call : Call) : Option Nat :=
  match resultChunk ia call with
  | .writech =>
    let segs := convertIovs ia present call.rcv call.rcv.head.iovLen .writech
    if segs.2 then (regions ia (segs.1.length + 1) segs.1).map fun n => hdrlenMin + 4 + 4 + n
      * segmentMaxsz * 4
    else none
  | .replych =>
    let segs := convertIovs ia present call.rcv 0 .replych
    if segs.2 then (regions ia (segs.1.length + 1) segs.1).map fun n => hdrlenMin + 4 + n
      * segmentMaxsz * 4
    else none
  | _ => some hdrlenMin

end Xprtrdma.Budget
