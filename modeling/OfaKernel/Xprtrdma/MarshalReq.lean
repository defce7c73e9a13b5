-- SUMMARY: `rpcrdma_marshal_req`: the registered memory and the message of a call.
import OfaKernel.Xprtrdma.PrepareSges
import Mathlib.Tactic.Ring

/-!
# Marshaling a call

A call is sent inline, or its pages or all of it are left to a read chunk. The memory of a read
chunk is registered piece by piece; how many pieces one registration takes is up to the device.
-/

open List

namespace Xprtrdma

/-! ## Words on the wire -/

/-- A word in big-endian order. -/
def wordBytes (w : Nat) : List UInt8 :=
  [UInt8.ofNat (w / 2 ^ 24), UInt8.ofNat (w / 2 ^ 16), UInt8.ofNat (w / 2 ^ 8), UInt8.ofNat w]

/-- `be32_to_cpup`. -/
def be32 (bytes : List UInt8) : Nat :=
  (bytes.getD 0 0).toNat * 2 ^ 24 + (bytes.getD 1 0).toNat * 2 ^ 16 +
    (bytes.getD 2 0).toNat * 2 ^ 8 + (bytes.getD 3 0).toNat

@[simp] theorem length_wordBytes (w : Nat) : (wordBytes w).length = 4 := rfl

theorem be32_wordBytes {w : Nat} (h : w < 2 ^ 32) (rest : List UInt8) :
    be32 (wordBytes w ++ rest) = w := by
  simp only [be32, wordBytes, cons_append, getD_cons_zero, getD_cons_succ,
    UInt8.toNat_ofNat']
  omega

@[simp] theorem length_flatMap_wordBytes (ws : List Nat) :
    (ws.flatMap wordBytes).length = 4 * ws.length := by
  induction ws with
  | nil => rfl
  | cons w ws ih =>
    rw [flatMap_cons, length_append, ih, length_wordBytes, length_cons]
    omega

/-! ## Memory to register -/

/-- Cut a buffer that starts at `off` of its page at the page boundaries. No piece is empty,
so that as many steps as bytes are enough. -/
def cutBytes (off : Nat) (bytes : List UInt8) : Nat → List (List UInt8)
  | 0 => []
  | fuel + 1 =>
    if bytes = [] then []
    else
      let n := min (pageSize - off) bytes.length
      bytes.take n :: cutBytes 0 (bytes.drop n) fuel

def rpcrdmaConvertKvec (base : Nat) (vec : List UInt8) : List (List UInt8) :=
  cutBytes (base % pageSize) vec vec.length

/-- What marshaling can meet. `roMap` is `ro_map`, by the registrations before and the pieces
left: how many pieces it registers, their handle and offset. -/
structure MarshalEnv where
  map : MapEnv
  roMap : Nat → List (List UInt8) → Option (Nat × Nat × Nat)
  maxSegs : Nat
  hdrRoom : Nat
  implicitRoundup : Bool
  consumes : ∀ i segs n handle offset, roMap i segs = some (n, handle, offset) →
    0 < n ∧ n ≤ segs.length ∧ handle < 2 ^ 32 ∧ offset < 2 ^ 64

/-- `rpcrdma_convert_iovs`, for the chunks of a call. -/
def rpcrdmaConvertIovs (env : MarshalEnv) (xdr : XdrBuf) (pos : Nat) (type : ChunkType) :
    Option (List (List UInt8)) :=
  let head := if pos = 0 then rpcrdmaConvertKvec xdr.headBase xdr.head else []
  let pages := xdr.pageParts.map xdr.partBytes
  let tail :=
    if type = .readch ∧ env.implicitRoundup then []
    else if xdr.tail.length ≠ 0 then rpcrdmaConvertKvec xdr.tailBase xdr.tail
    else []
  let segs := head ++ pages ++ tail
  if env.maxSegs < segs.length then none else some segs

/-- A registered `struct rpcrdma_mr`. -/
structure Mr where
  handle : Nat
  offset : Nat
  bytes : List UInt8
  deriving Repr, DecidableEq

def encodeReadSegment (pos : Nat) (mr : Mr) : List Nat :=
  [1, pos, mr.handle, mr.bytes.length, mr.offset / 2 ^ 32, mr.offset % 2 ^ 32]

/-- The loop of `rpcrdma_encode_read_list`; `i` registrations have been made. -/
def registerSegs (env : MarshalEnv) : Nat → Nat → List (List UInt8) → Option (List Mr)
  | 0, _, _ => none
  | fuel + 1, i, segs => do
    let (n, handle, offset) ← env.roMap i segs
    let mr : Mr := ⟨handle, offset, (segs.take n).flatten⟩
    if segs.length - n = 0 then return [mr]
    return mr :: (← registerSegs env fuel (i + 1) (segs.drop n))

def readPosition (xdr : XdrBuf) (rtype : ChunkType) : Nat :=
  if rtype = .areadch then 0 else xdr.head.length

/-- `rpcrdma_encode_read_list`: the registrations, in order. -/
def rpcrdmaEncodeReadList (env : MarshalEnv) (xdr : XdrBuf) (rtype : ChunkType) :
    Option (List Mr) := do
  let segs ← rpcrdmaConvertIovs env xdr (readPosition xdr rtype) rtype
  registerSegs env (segs.length + 1) 0 segs

def readList (env : MarshalEnv) (xdr : XdrBuf) (rtype : ChunkType) : Option (List Mr) :=
  if rtype = .noch then some [] else rpcrdmaEncodeReadList env xdr rtype

/-- The words of the transport header; `results` are those of the write list and of the
reply chunk. -/
def callHeader (xdr : XdrBuf) (rtype : ChunkType) (xid credits : Nat) (mrs : List Mr)
    (results : List Nat) : List Nat :=
  let proc := if rtype = .areadch then 1 else 0
  [xid, 1, credits, proc] ++ mrs.flatMap (encodeReadSegment (readPosition xdr rtype))
    ++ 0 :: results

/-- `rpcrdma_marshal_req` once it has chosen `rtype`: the registrations and the SGEs of
the Send. -/
def rpcrdmaMarshalReq (env : MarshalEnv) (xdr : XdrBuf) (rtype : ChunkType) (xid credits : Nat)
    (results : List Nat) (dma : Dma) : Option (List Mr × SendCtx) := do
  let mrs ← readList env xdr rtype
  let hdr := callHeader xdr rtype xid credits mrs results
  if env.hdrRoom < hdr.length then none
  else
    match rpcrdmaPrepareSendSges env.map (hdr.flatMap wordBytes) xdr rtype dma with
    | (_, sc, true) => some (mrs, sc)
    | (_, _, false) => none

def SendCtx.message (sc : SendCtx) : List UInt8 := (sc.sges.take sc.numSge).flatMap Sge.bytes

/-! ## What is registered -/

variable {fuel : Nat}

theorem flatten_cutBytes {off : Nat} (hoff : off < pageSize) (bytes : List UInt8)
    (hfuel : bytes.length ≤ fuel) : (cutBytes off bytes fuel).flatten = bytes := by
  induction fuel generalizing off bytes with
  | zero =>
    obtain rfl := length_eq_zero_iff.mp (Nat.le_zero.mp hfuel)
    rfl
  | succ fuel ih =>
    rw [cutBytes]
    split
    case isTrue h => simp [h]
    case isFalse h =>
      rw [flatten_cons, ih (by decide) _ (by rw [length_drop]; omega),
        take_append_drop]

theorem nil_notMem_cutBytes {off : Nat} (hoff : off < pageSize) (bytes : List UInt8) (fuel : Nat) :
    [] ∉ cutBytes off bytes fuel := by
  induction fuel generalizing off bytes with
  | zero => simp [cutBytes]
  | succ fuel ih =>
    rw [cutBytes]
    split
    case isTrue => simp
    case isFalse h =>
      have hpos := length_pos_iff.mpr h
      rw [mem_cons, not_or]
      refine ⟨fun hnil => ?_, ih (by decide) _⟩
      have := congrArg List.length hnil
      rw [length_nil, length_take] at this
      omega

theorem flatten_rpcrdmaConvertKvec (base : Nat) (vec : List UInt8) :
    (rpcrdmaConvertKvec base vec).flatten = vec :=
  flatten_cutBytes (Nat.mod_lt _ (by decide)) vec (Nat.le_refl _)

def XdrBuf.pageBytes (xdr : XdrBuf) : List UInt8 :=
  (List.range xdr.pageLen).map fun i =>
    xdr.pages ((xdr.pageBase + i) / pageSize) ((xdr.pageBase + i) % pageSize)

theorem XdrBuf.flatten_cutPages (xdr : XdrBuf) {page offset len fuel : Nat}
    (hoff : offset < pageSize) (hfuel : len ≤ fuel) :
    ((cutPages page offset len fuel).map xdr.partBytes).flatten =
      (List.range len).map fun i => xdr.pages ((page * pageSize + offset + i) / pageSize)
        ((page * pageSize + offset + i) % pageSize) := by
  induction fuel generalizing page offset len with
  | zero =>
    obtain rfl := Nat.le_zero.mp hfuel
    rfl
  | succ fuel ih =>
    rw [cutPages]
    split
    case isTrue h => simp [h]
    case isFalse h =>
      generalize hn : min (pageSize - offset) len = n
      obtain ⟨r, rfl⟩ : ∃ r, len = n + r := Nat.exists_eq_add_of_le (by omega)
      have hpart : xdr.partBytes ⟨page, offset, n⟩ = (List.range n).map fun i =>
          xdr.pages ((page * pageSize + offset + i) / pageSize)
            ((page * pageSize + offset + i) % pageSize) := by
        apply map_congr_left
        intro i hi
        have hi : i < n := mem_range.mp hi
        have hlt : offset + i < pageSize := by omega
        rw [Nat.add_assoc, Nat.mul_comm, Nat.mul_add_div (by decide), Nat.div_eq_of_lt hlt,
          Nat.mul_add_mod, Nat.mod_eq_of_lt hlt, Nat.add_zero]
      dsimp only
      rw [Nat.add_sub_cancel_left, map_cons, flatten_cons, hpart,
        ih (by decide) (by omega), range_add, map_append, map_map]
      rw [append_cancel_left_eq]
      apply map_congr_left
      intro i hi
      have hr : i < r := mem_range.mp hi
      have hplace : (page + 1) * pageSize + 0 + i = page * pageSize + offset + (n + i) := by
        rw [Nat.add_mul, Nat.one_mul]
        omega
      rw [Function.comp_apply, ← hplace]

theorem XdrBuf.flatten_pageParts (xdr : XdrBuf) :
    (xdr.pageParts.map xdr.partBytes).flatten = xdr.pageBytes := by
  rw [pageParts, xdr.flatten_cutPages (Nat.mod_lt _ (by decide)) (Nat.le_refl _), pageBytes,
    Nat.mul_comm, Nat.div_add_mod]

variable {env : MarshalEnv} {i : Nat} {segs : List (List UInt8)} {mrs : List Mr}

/-- Registration keeps the bytes and their order. -/
theorem registerSegs_bytes (h : registerSegs env fuel i segs = some mrs) :
    mrs.flatMap Mr.bytes = segs.flatten := by
  induction fuel generalizing i segs mrs with
  | zero => cases h
  | succ fuel ih =>
    simp only [registerSegs, Option.bind_eq_bind, Option.bind_eq_some_iff] at h
    obtain ⟨⟨n, handle, offset⟩, hmap, h⟩ := h
    split at h
    case isTrue hall =>
      cases h
      simp [take_of_length_le (show segs.length ≤ n by omega)]
    case isFalse =>
      simp only [Option.bind_eq_some_iff] at h
      obtain ⟨mrs', hrest, h⟩ := h
      cases h
      rw [flatMap_cons, ih hrest, ← flatten_append, take_append_drop]

theorem registerSegs_ne_nil (h : registerSegs env fuel i segs = some mrs) : mrs ≠ [] := by
  cases fuel with
  | zero => cases h
  | succ fuel =>
    simp only [registerSegs, Option.bind_eq_bind, Option.bind_eq_some_iff] at h
    obtain ⟨⟨n, handle, offset⟩, -, h⟩ := h
    split at h
    case isTrue =>
      cases h
      simp
    case isFalse =>
      simp only [Option.bind_eq_some_iff] at h
      obtain ⟨mrs', -, h⟩ := h
      cases h
      simp

/-- Every registration has bytes, and its handle and offset fit their words. -/
theorem registerSegs_wellFormed (h : registerSegs env fuel i segs = some mrs) (hsegs : [] ∉ segs) :
    ∀ mr ∈ mrs, mr.bytes ≠ [] ∧ mr.handle < 2 ^ 32 ∧ mr.offset < 2 ^ 64 := by
  induction fuel generalizing i segs mrs with
  | zero => cases h
  | succ fuel ih =>
    simp only [registerSegs, Option.bind_eq_bind, Option.bind_eq_some_iff] at h
    obtain ⟨⟨n, handle, offset⟩, hmap, h⟩ := h
    obtain ⟨hpos, hle, hhandle, hoffset⟩ := env.consumes _ _ _ _ _ hmap
    have hfirst : (segs.take n).flatten ≠ [] := by
      match segs, n, hpos, hle with
      | [], n + 1, _, hle => simp at hle
      | seg :: segs, n + 1, _, _ =>
        have hseg : seg ≠ [] := fun hnil => hsegs (by simp [hnil])
        simp [hseg]
    split at h
    case isTrue =>
      cases h
      simpa using ⟨by simpa using hfirst, hhandle, hoffset⟩
    case isFalse =>
      simp only [Option.bind_eq_some_iff] at h
      obtain ⟨mrs', hrest, h⟩ := h
      cases h
      have hsegs' : [] ∉ segs.drop n := fun hmem => hsegs (mem_of_mem_drop hmem)
      exact forall_mem_cons.mpr ⟨⟨hfirst, hhandle, hoffset⟩, ih hrest hsegs'⟩

theorem nil_notMem_cutPages (xdr : XdrBuf) {page offset : Nat} (hoff : offset < pageSize)
    (len fuel : Nat) : [] ∉ (cutPages page offset len fuel).map xdr.partBytes := by
  induction fuel generalizing page offset len with
  | zero => simp [cutPages]
  | succ fuel ih =>
    rw [cutPages]
    split
    case isTrue => simp
    case isFalse h =>
      rw [map_cons, mem_cons, not_or]
      refine ⟨fun hnil => ?_, ih (by decide) _⟩
      have := congrArg List.length hnil
      simp only [length_nil, XdrBuf.partBytes, length_map, length_range] at this
      omega

/-- What a read chunk covers: the pages, and all of the call at position zero. -/
def XdrBuf.chunkBytes (xdr : XdrBuf) : ChunkType → List UInt8
  | .noch => []
  | .readch => xdr.pageBytes
  | .areadch => xdr.head ++ xdr.pageBytes ++ xdr.tail

variable {xdr : XdrBuf}

theorem rpcrdmaConvertIovs_segs {rtype : ChunkType} (hround : env.implicitRoundup = true)
    (hhead : rtype = .readch → xdr.head ≠ []) (hrtype : rtype ≠ .noch)
    (h : rpcrdmaConvertIovs env xdr (readPosition xdr rtype) rtype = some segs) :
    segs.flatten = xdr.chunkBytes rtype ∧ [] ∉ segs := by
  have hpages : [] ∉ xdr.pageParts.map xdr.partBytes :=
    nil_notMem_cutPages xdr (Nat.mod_lt _ (by decide)) _ _
  have hkvec : ∀ base vec, [] ∉ rpcrdmaConvertKvec base vec := fun base vec =>
    nil_notMem_cutBytes (Nat.mod_lt _ (by decide)) vec _
  cases rtype with
  | noch => exact absurd rfl hrtype
  | readch =>
    have hpos : xdr.head.length ≠ 0 := by simpa using hhead rfl
    simp only [rpcrdmaConvertIovs, readPosition, reduceCtorEq, ↓reduceIte, hpos, hround, and_self,
      nil_append, append_nil, Option.ite_none_left_eq_some, Option.some.injEq] at h
    obtain ⟨-, rfl⟩ := h
    exact ⟨xdr.flatten_pageParts, hpages⟩
  | areadch =>
    simp only [rpcrdmaConvertIovs, readPosition, reduceCtorEq, ↓reduceIte, false_and,
      Option.ite_none_left_eq_some, Option.some.injEq] at h
    obtain ⟨-, rfl⟩ := h
    have htail : (if xdr.tail.length ≠ 0 then rpcrdmaConvertKvec xdr.tailBase xdr.tail
        else []).flatten = xdr.tail := by
      split
      case isTrue => exact flatten_rpcrdmaConvertKvec _ _
      case isFalse h0 => simpa using h0
    refine ⟨?_, ?_⟩
    · rw [flatten_append, flatten_append, flatten_rpcrdmaConvertKvec,
        xdr.flatten_pageParts, htail]
      rfl
    · simp only [mem_append, not_or]
      refine ⟨⟨hkvec _ _, hpages⟩, ?_⟩
      split
      case isTrue => exact hkvec _ _
      case isFalse => simp

/-- The part of the call that is in the message itself. -/
def XdrBuf.inlineBytes (xdr : XdrBuf) : ChunkType → List UInt8
  | .noch => xdr.head ++ xdr.pageBytes ++ xdr.tail
  | .readch => xdr.head ++ if xdr.tail.length < 4 then [] else xdr.tail.drop (xdr.tail.length % 4)
  | .areadch => []

variable {dma dma' : Dma}

theorem mapTail_message {env : MapEnv} {sc sc' : SendCtx} {bytes : List UInt8}
    (h : mapTail env dma sc bytes = (dma', sc', true)) :
    sc'.message = sc.sges.flatMap Sge.bytes ++ bytes := by
  unfold mapTail mapSge at h
  split at h
  next => simp [outMappingErr] at h
  next heq =>
    split at heq
    case isTrue =>
      cases heq
      obtain ⟨-, rfl, -⟩ := h
      simp [SendCtx.message, take_of_length_le]
    case isFalse => cases heq

theorem mapPages_message {env : MapEnv} {sc sc' : SendCtx} {ps : List PagePart}
    (h : mapPages env xdr dma sc ps = (dma', sc', true)) :
    sc'.message = sc.sges.flatMap Sge.bytes ++ (ps.map xdr.partBytes).flatten ++ xdr.tail := by
  induction ps generalizing dma sc with
  | nil =>
    rw [mapPages] at h
    split at h
    case isTrue =>
      rw [mapTail_message h]
      simp
    case isFalse h0 =>
      obtain ⟨-, rfl, -⟩ := h
      have htail : xdr.tail = [] := by simpa using h0
      simp [SendCtx.message, htail]
  | cons p ps ih =>
    rw [mapPages] at h
    split at h
    case isTrue => simp [outMappingErr] at h
    case isFalse =>
      split at h
      next => simp [outMappingErr] at h
      next heq =>
        unfold mapSge at heq
        split at heq
        case isTrue =>
          cases heq
          rw [ih h]
          simp
        case isFalse => cases heq

variable {sc : SendCtx}

theorem rpcrdmaPrepareSendSges_message {env : MapEnv} {hdr : List UInt8} {rtype : ChunkType}
    (h : rpcrdmaPrepareSendSges env hdr xdr rtype dma = (dma', sc, true)) :
    sc.message = hdr ++ xdr.inlineBytes rtype := by
  unfold rpcrdmaPrepareSendSges at h
  split at h
  case isFalse => simp at h
  cases rtype with
  | areadch =>
    obtain ⟨-, rfl, -⟩ := h
    simp [SendCtx.message, XdrBuf.inlineBytes]
  | noch =>
    simp only [ne_eq, reduceCtorEq, not_false_eq_true, ↓reduceIte, rpcrdmaPrepareMsgSges] at h
    split at h
    case isFalse => simp at h
    rw [mapPages_message h, xdr.flatten_pageParts]
    simp [XdrBuf.inlineBytes]
  | readch =>
    simp only [ne_eq, reduceCtorEq, not_false_eq_true, ↓reduceIte, rpcrdmaPrepareMsgSges] at h
    split at h
    case isFalse => simp at h
    split at h
    case isTrue hshort =>
      obtain ⟨-, rfl, -⟩ := h
      simp [SendCtx.message, XdrBuf.inlineBytes, hshort]
    case isFalse hlong =>
      rw [mapTail_message h]
      simp [XdrBuf.inlineBytes, hlong]

/-- A call that was marshaled: the registrations make up the chunk, and the message is the
header followed by the rest. -/
theorem rpcrdmaMarshalReq_spec {rtype : ChunkType} {xid credits : Nat} {results : List Nat}
    (hround : env.implicitRoundup = true) (hhead : rtype = .readch → xdr.head ≠ [])
    (h : rpcrdmaMarshalReq env xdr rtype xid credits results dma = some (mrs, sc)) :
    mrs.flatMap Mr.bytes = xdr.chunkBytes rtype ∧ (rtype ≠ .noch → mrs ≠ []) ∧
      (rtype = .noch → mrs = []) ∧
      (∀ mr ∈ mrs, mr.bytes ≠ [] ∧ mr.handle < 2 ^ 32 ∧ mr.offset < 2 ^ 64) ∧
      sc.message = (callHeader xdr rtype xid credits mrs results).flatMap wordBytes ++
        xdr.inlineBytes rtype := by
  simp only [rpcrdmaMarshalReq, Option.bind_eq_bind, Option.bind_eq_some_iff] at h
  obtain ⟨mrs', hmrs, h⟩ := h
  unfold readList at hmrs
  split at h
  case isTrue => cases h
  split at h
  next heq =>
    cases h
    have hmsg := rpcrdmaPrepareSendSges_message heq
    by_cases hno : rtype = .noch
    · subst hno
      cases hmrs
      exact ⟨rfl, fun hne => absurd rfl hne, fun _ => rfl, by simp, hmsg⟩
    · rw [if_neg hno] at hmrs
      simp only [rpcrdmaEncodeReadList, Option.bind_eq_bind, Option.bind_eq_some_iff] at hmrs
      obtain ⟨segs, hsegs, hreg⟩ := hmrs
      obtain ⟨hflat, hne⟩ := rpcrdmaConvertIovs_segs hround hhead hno hsegs
      exact ⟨(registerSegs_bytes hreg).trans hflat, fun _ => registerSegs_ne_nil hreg,
        fun h => absurd h hno, registerSegs_wellFormed hreg hne, hmsg⟩
  next => cases h

end Xprtrdma
