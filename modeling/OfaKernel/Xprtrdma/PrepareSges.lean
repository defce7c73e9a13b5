-- SUMMARY: The SGEs that the client prepares for the Send of a call.
import Mathlib.Data.List.Basic

/-!
# Preparing a Send

The SGE array: the transport header, the head of the call, one DMA mapping for each page, and one
for the tail. The bytes of an SGE stand for its address and length. Every mapping has a number of
its own.
-/

namespace Xprtrdma

def pageSize : Nat := 4096

/-- A part of one page. -/
structure PagePart where
  page : Nat
  offset : Nat
  len : Nat
  deriving Repr, DecidableEq

/-- Cut `len` bytes from `offset` in `page` at the page boundaries. No part is empty, so `len`
steps are enough. -/
def cutPages (page offset len : Nat) : Nat → List PagePart
  | 0 => []
  | fuel + 1 =>
    if len = 0 then []
    else
      let n := min (pageSize - offset) len
      ⟨page, offset, n⟩ :: cutPages (page + 1) 0 (len - n) fuel

/-- `struct xdr_buf` of a call: the bytes of its iovecs and of its pages, and the places
of the iovecs in their pages. -/
structure XdrBuf where
  head : List UInt8
  headBase : Nat
  pages : Nat → Nat → UInt8
  pageBase : Nat
  pageLen : Nat
  tail : List UInt8
  tailBase : Nat

def XdrBuf.partBytes (xdr : XdrBuf) (p : PagePart) : List UInt8 :=
  (List.range p.len).map fun k => xdr.pages p.page (p.offset + k)

def XdrBuf.pageParts (xdr : XdrBuf) : List PagePart :=
  cutPages (xdr.pageBase / pageSize) (xdr.pageBase % pageSize) xdr.pageLen xdr.pageLen

/-- `enum rpcrdma_chunktype`, as far as calls have it. -/
inductive ChunkType where
  | noch
  | readch
  | areadch
  deriving Repr, DecidableEq

/-! ## Send contexts -/

/-- `struct ib_sge`; the mapping is `none` for the two that always stay mapped. -/
structure Sge where
  bytes : List UInt8
  mapping : Option Nat := none
  deriving Repr, DecidableEq

/-- `struct rpcrdma_sendctx`. The array has the entries written since the context was
taken; `failed` records that the error path has unmapped them. -/
structure SendCtx where
  sges : List Sge := []
  numSge : Nat := 0
  unmapCount : Nat := 0
  failed : Bool := false
  deriving Repr, DecidableEq

/-- Mappings made and unmapped so far. -/
structure Dma where
  next : Nat := 0
  unmapped : List Nat := []
  deriving Repr, DecidableEq

/-- The mappings that `rpcrdma_unmap_sendctx` goes through. -/
def SendCtx.mapped (sc : SendCtx) : List Nat :=
  ((sc.sges.drop 2).take sc.unmapCount).filterMap Sge.mapping

def rpcrdmaUnmapSendctx (dma : Dma) (sc : SendCtx) : Dma :=
  { dma with unmapped := dma.unmapped ++ sc.mapped }

/-- Whether `rpcrdma_dma_map_regbuf` succeeds for header and send buffer, for which SGEs
`ib_dma_map_page` succeeds, and `RPCRDMA_MAX_SEND_SGES`. -/
structure MapEnv where
  hdrOk : Bool := true
  regbufOk : Bool := true
  mapOk : Nat → Bool := fun _ => true
  maxSendSges : Nat := 19

/-- One `ib_dma_map_page` into the next entry of the array. -/
def mapSge (env : MapEnv) (dma : Dma) (sc : SendCtx) (bytes : List UInt8) :
    Option (Dma × SendCtx) :=
  if env.mapOk sc.sges.length then
    some ({ dma with next := dma.next + 1 },
      { sc with sges := sc.sges ++ [⟨bytes, some dma.next⟩], unmapCount := sc.unmapCount + 1 })
  else none

def outMappingErr (dma : Dma) (sc : SendCtx) : Dma × SendCtx × Bool :=
  (rpcrdmaUnmapSendctx dma sc, { sc with failed := true }, false)

/-- The label `out`. -/
def prepareOut (dma : Dma) (sc : SendCtx) : Dma × SendCtx × Bool :=
  (dma, { sc with numSge := sc.sges.length }, true)

def mapTail (env : MapEnv) (dma : Dma) (sc : SendCtx) (bytes : List UInt8) :
    Dma × SendCtx × Bool :=
  match mapSge env dma sc bytes with
  | none => outMappingErr dma sc
  | some (dma, sc) => prepareOut dma sc

/-- The loop over the pages, and then the tail. -/
def mapPages (env : MapEnv) (xdr : XdrBuf) (dma : Dma) (sc : SendCtx) :
    List PagePart → Dma × SendCtx × Bool
  | [] => if xdr.tail.length ≠ 0 then mapTail env dma sc xdr.tail else prepareOut dma sc
  | p :: ps =>
    if sc.sges.length > env.maxSendSges - 2 then outMappingErr dma sc
    else
      match mapSge env dma sc (xdr.partBytes p) with
      | none => outMappingErr dma sc
      | some (dma, sc) => mapPages env xdr dma sc ps

/-- `rpcrdma_prepare_msg_sges`. The tail of a call with a Read chunk is sent from its
first byte past the pad. -/
def rpcrdmaPrepareMsgSges (env : MapEnv) (xdr : XdrBuf) (rtype : ChunkType) (dma : Dma)
    (sc : SendCtx) : Dma × SendCtx × Bool :=
  if env.regbufOk then
    let sc := { sc with sges := sc.sges ++ [⟨xdr.head, none⟩] }
    if rtype = .readch then
      let len := xdr.tail.length
      if len < 4 then prepareOut dma sc
      else mapTail env dma sc (xdr.tail.drop (len % 4))
    else mapPages env xdr dma sc xdr.pageParts
  else (dma, sc, false)

def rpcrdmaPrepareSendSges (env : MapEnv) (hdr : List UInt8) (xdr : XdrBuf) (rtype : ChunkType)
    (dma : Dma) : Dma × SendCtx × Bool :=
  if env.hdrOk then
    let sc : SendCtx := { sges := [⟨hdr, none⟩], numSge := 1 }
    if rtype ≠ .areadch then rpcrdmaPrepareMsgSges env xdr rtype dma sc
    else (dma, sc, true)
  else (dma, {}, false)

end Xprtrdma
