-- SUMMARY: `svc_rdma_recvfrom`: the RDMA Reads of a read chunk.
import OfaKernel.Svcrdma.BuildWrites
import OfaKernel.Xprtrdma.MarshalReq

/-!
# Receiving a call

The segments of a read chunk are pulled into the pages of the request, one behind the other. A
chunk at position zero is the whole call; any other chunk is placed between the two parts of the
Receive buffer.
-/

open List

namespace Svcrdma

open Xprtrdma (be32)

/-- `rq_arg` as `svc_rdma_build_arg_xdr` sets it for a received message. -/
def recvArg (msg : List UInt8) (h : msg.length < 2 ^ 31) : RqArg where
  word i := be32 (msg.drop (4 * i))
  len := msg.length
  iovLen := msg.length
  len_lt := h

/-- The pages of a request: `rq_pages` up to `rq_page_end`, with what they hold. -/
structure SvcRqst (k : PageSizes) where
  npages : Nat
  pages : Nat → Nat → UInt8
  npages_le : npages ≤ k.rpcsvcMaxpages + 1
  size_lt : (k.rpcsvcMaxpages + 3) * k.pageSize < 2 ^ 31
  two_le_pageShift : 2 ≤ k.pageShift

/-- One RDMA Read: the memory it reads, and the scatterlist of pages it fills. -/
structure ReadOp where
  handle : Nat
  offset : Nat
  length : Nat
  sgl : List Fill.Piece
  deriving Repr, DecidableEq

/-- `struct svc_rdma_read_info`; the newest Read comes first. -/
structure ReadInfo where
  pageno : Nat := 0
  pageoff : Nat := 0
  chunklen : Nat := 0
  pageCount : Nat := 0
  ops : List ReadOp := []
  sqecount : Nat := 0
  deriving Repr, DecidableEq

/-! ## Building the Reads -/

/-- The place behind `segLen` bytes of the current page. -/
def ReadInfo.advance (k : PageSizes) (info : ReadInfo) (segLen : Nat) : ReadInfo :=
  let full := info.pageoff + segLen = k.pageSize
  { info with
    pageCount := if info.pageoff = 0 then info.pageCount + 1 else info.pageCount
    pageno := if full then info.pageno + 1 else info.pageno
    pageoff := if full then 0 else info.pageoff + segLen }

/-- The loop of `svc_rdma_build_read_segment` over the entries of the scatterlist. The page
behind the last one is `NULL`. -/
def readSgl {k : PageSizes} (rqst : SvcRqst k) :
    Nat → ReadInfo → Nat → Except Abort (List Fill.Piece × ReadInfo)
  | 0, info, _ => .ok ([], info)
  | n + 1, info, len =>
    if rqst.npages ≤ info.pageno then .error .fault
    else
      let segLen := min len (k.pageSize - info.pageoff)
      let info' := info.advance k segLen
      if len - segLen ≠ 0 ∧ rqst.npages < info'.pageno + 1 then .error (.code eINVAL)
      else do
        let (sgl, info'') ← readSgl rqst n info' (len - segLen)
        return (⟨info.pageno, info.pageoff, segLen⟩ :: sgl, info'')

def svcRdmaBuildReadSegment {k : PageSizes} (env : RwEnv) (rqst : SvcRqst k) (info : ReadInfo)
    (rkey len offset : Nat) : Except Abort ReadInfo :=
  let nents := U32.wrap (info.pageoff + len + (k.pageSize - 1)) / k.pageSize
  if env.rwCtxt info.ops.length then
    -- `sg_alloc_table_chained` takes at least one entry
    if nents = 0 then .error .fault
    else do
      let (sgl, info') ← readSgl rqst nents info len
      match rdmaRwCtxInit env nents (sgl.map Fill.Piece.len) with
      | .error (.code _) => .error (.code eIO)
      | .error e => .error e
      | .ok wqes =>
        .ok { info' with
          ops := ⟨rkey, offset, len, sgl⟩ :: info'.ops
          sqecount := info'.sqecount + wqes }
  else .error (.code eNOMEM)

/-- The loop of `svc_rdma_build_read_chunk`, from word `p` on. -/
def readChunkLoop {k : PageSizes} (env : RwEnv) (rqst : SvcRqst k) (m : RqArg) (position : Nat) :
    Nat → Nat → ReadInfo → Except Abort ReadInfo
  | 0, _, _ => .error .hang
  | fuel + 1, p, info =>
    if m.word p ≠ 0 ∧ m.word (p + 1) = position then do
      let info ← svcRdmaBuildReadSegment env rqst info (m.word (p + 2)) (m.word (p + 3))
        (xdrDecodeHyper (m.word (p + 4)) (m.word (p + 5)))
      readChunkLoop env rqst m position fuel (p + 6)
        { info with chunklen := U32.wrap (info.chunklen + m.word (p + 3)) }
    else .ok info

/-- `rq_arg` as the RPC server gets it. -/
structure CallArg where
  head : List UInt8
  pages : Nat → Nat → UInt8
  pageLen : Nat
  tail : List UInt8
  len : Nat

/-- Head, pages and tail one after the other. -/
def CallArg.bytes (k : PageSizes) (arg : CallArg) : List UInt8 :=
  arg.head ++ ((List.range arg.pageLen).map fun i => arg.pages (i / k.pageSize) (i % k.pageSize)) ++
    arg.tail

/-- The pages once all Reads are complete; `remote` is the memory of the client by handle,
offset and length. -/
def readPages {k : PageSizes} (rqst : SvcRqst k) (remote : Nat → Nat → Nat → List UInt8)
    (ops : List ReadOp) : Nat → Nat → UInt8 :=
  ops.foldl (fun mem op => Fill.scatter mem op.sgl
    (remote op.handle op.offset op.length)) rqst.pages

/-- `svc_rdma_build_normal_read_chunk` and `rdma_read_complete`. A position behind the Receive
buffer would give the tail a length below zero. -/
def assembleNormal (head : List UInt8) (position : Nat) (info : ReadInfo)
    (pages : Nat → Nat → UInt8) : Except Abort CallArg :=
  let chunklen := U32.wrap (info.chunklen + 3) / 4 * 4
  if head.length < position then .error .fault
  else .ok
    { head := head.take position
      pages
      pageLen := chunklen
      tail := head.drop position
      len := U32.wrap (head.length + chunklen) }

/-- `svc_rdma_build_pz_read_chunk` and `rdma_read_complete`, with `rc_hdr_count` one. -/
def assemblePz (k : PageSizes) (head : List UInt8) (info : ReadInfo) (pages : Nat → Nat → UInt8) :
    CallArg :=
  let first := min k.pageSize info.chunklen
  { head := (List.range first).map (pages 0)
    pages := fun page => pages (page + 1)
    pageLen := info.chunklen - first
    tail := []
    len := U32.wrap (head.length + info.chunklen) }

/-- `svc_rdma_recv_read_chunk`, and `rdma_read_complete` once the Reads have been posted. -/
def svcRdmaRecvReadChunk {k : PageSizes} (env : RwEnv) (rqst : SvcRqst k)
    (remote : Nat → Nat → Nat → List UInt8) (m : RqArg) (head : List UInt8) :
    Except Abort CallArg := do
  let position := m.word 5
  let info ← readChunkLoop env rqst m position (m.len + 1) 4 {}
  match env.post info.sqecount with
  | .tooMany => .error (.code eINVAL)
  | .lost => .error (.code eNOTCONN)
  | .posted =>
    let pages := readPages rqst remote info.ops.reverse
    if position ≠ 0 then assembleNormal head position info pages
    else .ok (assemblePz k head info pages)

def svcRdmaRecvfrom {k : PageSizes} (env : RwEnv) (rqst : SvcRqst k)
    (remote : Nat → Nat → Nat → List UInt8) (msg : List UInt8) (h : msg.length < 2 ^ 31) :
    Except Abort CallArg :=
  let m := recvArg msg h
  let ret := (svcRdmaXdrDecodeReq k m).val.1
  let head := msg.drop ret.toNat
  if ret ≤ 0 then .error (.code ret)
  else if m.word 4 = 0 then
    .ok { head, pages := rqst.pages, pageLen := 0, tail := [], len := head.length }
  else svcRdmaRecvReadChunk env rqst remote m head

/-! ## The pages of a chunk -/

section

variable {k : PageSizes} {rqst : SvcRqst k} {info : ReadInfo}

/-- The pages as a row of buffers. -/
def SvcRqst.row (rqst : SvcRqst k) : List Nat := List.replicate rqst.npages k.pageSize

theorem SvcRqst.sum_take_row (rqst : SvcRqst k) {i : Nat} (hi : i ≤ rqst.npages) :
    (rqst.row.take i).sum = i * k.pageSize := by
  simp [SvcRqst.row, Nat.min_eq_left hi]

theorem SvcRqst.getD_row (rqst : SvcRqst k) {i : Nat} (hi : i < rqst.npages) :
    rqst.row.getD i 0 = k.pageSize := by
  simp [SvcRqst.row, hi]

/-- The Reads so far fill the pages one behind the other. -/
structure Pulling (rqst : SvcRqst k) (info : ReadInfo) (ps : List Fill.Piece) : Prop where
  placed : Fill.Placed rqst.row ps info.pageno info.pageoff
  off_lt : info.pageoff < k.pageSize

theorem Pulling.position (h : Pulling rqst info ps) :
    info.pageno * k.pageSize + info.pageoff = Fill.total ps := by
  have hle : info.pageno ≤ rqst.npages := by simpa [SvcRqst.row] using h.placed.idx_le
  rw [← h.placed.next, rqst.sum_take_row hle]

/-- One entry of the scatterlist. -/
theorem Pulling.advance {ps : List Fill.Piece} (h : Pulling rqst info ps)
    (hi : info.pageno < rqst.npages) {n : Nat} (hn : info.pageoff + n ≤ k.pageSize) :
    Pulling rqst (info.advance k n) (ps ++ [⟨info.pageno, info.pageoff, n⟩]) := by
  have hi' : info.pageno < rqst.row.length := by simpa [SvcRqst.row] using hi
  have hget := rqst.getD_row hi
  by_cases hfull : info.pageoff + n = k.pageSize
  · have hn' : n = rqst.row.getD info.pageno 0 - info.pageoff := by omega
    have hp := h.placed.push_full hi'
    rw [← hn'] at hp
    refine ⟨?_, ?_⟩
    · simpa [ReadInfo.advance, hfull] using hp
    · simpa [ReadInfo.advance, hfull] using k.pageSize_pos
  · refine ⟨?_, ?_⟩
    · simpa [ReadInfo.advance, hfull] using h.placed.push_part hi' (n := n) (by omega)
    · simp only [ReadInfo.advance, hfull, ↓reduceIte]
      omega

/-- The scatterlist has just as many entries as the segment touches pages. -/
theorem readSgl_spec {ps : List Fill.Piece} (h : Pulling rqst info ps) {len n : Nat}
    (hfits : Fill.total ps + len ≤ rqst.npages * k.pageSize)
    (hn : if len = 0 then n = 0 else n = (info.pageoff + len + (k.pageSize - 1)) / k.pageSize) :
    ∃ sgl info', readSgl rqst n info len = .ok (sgl, info') ∧
      Pulling rqst info' (ps ++ sgl) ∧ Fill.total sgl = len ∧ 0 ∉ sgl.map Fill.Piece.len ∧
      info'.ops = info.ops ∧ info'.sqecount = info.sqecount ∧ info'.chunklen = info.chunklen := by
  have hsize := k.pageSize_pos
  induction n generalizing info ps len with
  | zero =>
    have hlen : len = 0 := by
      by_contra hne
      rw [if_neg hne] at hn
      have := (Nat.div_eq_zero_iff_lt hsize).mp hn.symm
      omega
    exact ⟨[], info, rfl, by simpa using h, by simpa using hlen.symm, by simp, rfl, rfl, rfl⟩
  | succ n ih =>
    have hne : len ≠ 0 := by
      rintro rfl
      simp at hn
    rw [if_neg hne] at hn
    have hpos := h.position
    have hoff := h.off_lt
    have hi : info.pageno < rqst.npages := by
      by_contra hge
      have := Nat.mul_le_mul_right k.pageSize (Nat.not_lt.mp hge)
      omega
    generalize hseg : min len (k.pageSize - info.pageoff) = segLen
    have hsegpos : 0 < segLen := by omega
    have hadv := h.advance hi (n := segLen) (by omega)
    have htotal : Fill.total (ps ++ [⟨info.pageno, info.pageoff, segLen⟩]) + (len - segLen) =
        Fill.total ps + len := by
      simp only [Fill.total_append, Fill.total_singleton]
      omega
    -- the entries left are those for what is left of the segment
    have hn' : if len - segLen = 0 then n = 0 else
        n = ((info.advance k segLen).pageoff + (len - segLen) + (k.pageSize - 1)) / k.pageSize := by
      by_cases hrest : len - segLen = 0
      · rw [if_pos hrest]
        have hlt : info.pageoff + len + (k.pageSize - 1) < 2 * k.pageSize := by omega
        have := (Nat.div_lt_iff_lt_mul hsize).mpr hlt
        omega
      · rw [if_neg hrest]
        have hfull : info.pageoff + segLen = k.pageSize := by omega
        simp only [ReadInfo.advance, hfull, ↓reduceIte, Nat.zero_add]
        have hsplit : info.pageoff + len + (k.pageSize - 1) =
            (len - segLen + (k.pageSize - 1)) + k.pageSize := by omega
        rw [hsplit, Nat.add_div_right _ hsize] at hn
        omega
    obtain ⟨sgl, info', hsgl, hp, hsum, hzero, hops, hsqe, hlen⟩ := ih hadv (by omega) hn'
    have hroom : ¬ (len - segLen ≠ 0 ∧ rqst.npages < (info.advance k segLen).pageno + 1) := by
      rintro ⟨hrest, hover⟩
      have hpos' := hadv.position
      have := Nat.mul_le_mul_right k.pageSize (Nat.lt_succ_iff.mp hover)
      omega
    refine ⟨⟨info.pageno, info.pageoff, segLen⟩ :: sgl, info', ?_, ?_, ?_, ?_, hops, hsqe, hlen⟩
    · rw [readSgl, if_neg (Nat.not_le.mpr hi), hseg]
      simp only [hroom, ↓reduceIte, hsgl]
      rfl
    · rwa [append_assoc, singleton_append] at hp
    · rw [← singleton_append, Fill.total_append, Fill.total_singleton, hsum]
      change segLen + (len - segLen) = len
      omega
    · rw [map_cons, mem_cons, not_or]
      exact ⟨Nat.ne_of_lt hsegpos, hzero⟩

/-- All Reads that were built so far. -/
structure Pulled (rqst : SvcRqst k) (info : ReadInfo) : Prop where
  pulling : Pulling rqst info (info.ops.reverse.flatMap ReadOp.sgl)
  lengths : ∀ op ∈ info.ops, Fill.total op.sgl = op.length

/-- The bytes that the Reads ask for. -/
def ReadInfo.pulled (info : ReadInfo) : Nat := Fill.total (info.ops.reverse.flatMap ReadOp.sgl)

theorem SvcRqst.capacity_lt (rqst : SvcRqst k) :
    rqst.npages * k.pageSize + 2 * k.pageSize < 2 ^ 31 := by
  have hle := Nat.mul_le_mul_right k.pageSize (Nat.add_le_add_right rqst.npages_le 2)
  have hlt := rqst.size_lt
  rw [Nat.add_mul] at hle
  exact Nat.lt_of_le_of_lt hle hlt

theorem svcRdmaBuildReadSegment_spec (env : RwEnv) (h : Pulled rqst info) (rkey offset : Nat)
    {len : Nat} (hlen : len ≠ 0) (hfits : info.pulled + len ≤ rqst.npages * k.pageSize) :
    (∃ info', svcRdmaBuildReadSegment env rqst info rkey len offset = .ok info' ∧
      Pulled rqst info' ∧ info'.chunklen = info.chunklen ∧ info'.pulled = info.pulled + len ∧
      ∃ sgl, info'.ops = ⟨rkey, offset, len, sgl⟩ :: info.ops) ∨
    (¬ env.Ample ∧ ∃ c, svcRdmaBuildReadSegment env rqst info rkey len offset =
    .error (.code c)) := by
  have hcap := rqst.capacity_lt
  have hoff := h.pulling.off_lt
  have hwrap : U32.wrap (info.pageoff + len + (k.pageSize - 1)) =
      info.pageoff + len + (k.pageSize - 1) := U32.wrap_of_lt (by omega)
  unfold svcRdmaBuildReadSegment
  rw [hwrap]
  by_cases hctxt : env.rwCtxt info.ops.length = true
  case neg => exact .inr ⟨fun ha => hctxt (ha.rwCtxt _), eNOMEM, by simp [hctxt]⟩
  obtain ⟨sgl, info', hsgl, hp, hsum, hzero, hops, -, hchunk⟩ := readSgl_spec h.pulling
    (n := (info.pageoff + len + (k.pageSize - 1)) / k.pageSize) hfits (by rw [if_neg hlen])
  have hne : sgl.map Fill.Piece.len ≠ [] := by
    rw [Ne, map_eq_nil_iff]
    rintro rfl
    simp only [Fill.total_nil] at hsum
    omega
  have hnents : (info.pageoff + len + (k.pageSize - 1)) / k.pageSize ≠ 0 :=
    (Nat.div_pos (by omega) k.pageSize_pos).ne'
  simp only [hctxt, ↓reduceIte, if_neg hnents, hsgl]
  rcases rdmaRwCtxInit_nonempty env
    ((info.pageoff + len + (k.pageSize - 1)) / k.pageSize) _ hne hzero with ⟨wqes, hw⟩ | ⟨ha, c, hc⟩
  case inr => exact .inr ⟨ha, eIO, by simp only [bind, Except.bind, hc]⟩
  refine .inl ⟨{ info' with ops := ⟨rkey, offset, len, sgl⟩ :: info'.ops
                            sqecount := info'.sqecount + wqes },
    by simp only [bind, Except.bind, hw], ⟨?_, ?_⟩, hchunk, ?_, sgl, by rw [hops]⟩
  · simp only [reverse_cons, flatMap_append, hops]
    simpa using ⟨hp.placed, hp.off_lt⟩
  · simp only [forall_mem_cons, hops]
    exact ⟨hsum, h.lengths⟩
  · simp only [ReadInfo.pulled, reverse_cons, flatMap_append, Fill.total_append, hops]
    simpa using hsum

theorem RqArg.word_of_drop {m : RqArg} {p w : Nat} {ws : List Nat} (h : m.words.drop p = w :: ws) :
    m.word p = w ∧ m.words.drop (p + 1) = ws := by
  have hin : m.Inside p := by
    by_contra hout
    rw [RqArg.drop_words_eq_nil hout] at h
    cases h
  rw [RqArg.drop_words hin] at h
  simp only [List.cons.injEq] at h
  exact h

/-- The Reads go over the read list in order, one for each registration. -/
theorem readChunkLoop_spec (env : RwEnv) {m : RqArg} {position : Nat} {rest : List Nat}
    (mrs : List Xprtrdma.Mr) (hne : ∀ mr ∈ mrs, mr.bytes ≠ []) {fuel p : Nat}
    (hfuel : mrs.length < fuel)
    (hwords : m.words.drop p =
      mrs.flatMap (Xprtrdma.encodeReadSegment position) ++ 0 :: rest)
    (h : Pulled rqst info) (hchunk : info.chunklen = info.pulled)
    (hfits : info.pulled + (mrs.flatMap Xprtrdma.Mr.bytes).length ≤ rqst.npages * k.pageSize) :
    (∃ info', readChunkLoop env rqst m position fuel p info = .ok info' ∧ Pulled rqst info' ∧
      info'.chunklen = info.pulled + (mrs.flatMap Xprtrdma.Mr.bytes).length ∧
      info'.ops.reverse.map (fun op => (op.handle, op.offset, op.length)) =
        info.ops.reverse.map (fun op => (op.handle, op.offset, op.length)) ++
          mrs.map (fun mr => (mr.handle, mr.offset, mr.bytes.length))) ∨
    (¬ env.Ample ∧ ∃ c, readChunkLoop env rqst m position fuel p info = .error (.code c)) := by
  have hcap := rqst.capacity_lt
  induction mrs generalizing fuel p info with
  | nil =>
    obtain ⟨fuel, rfl⟩ := Nat.exists_eq_succ_of_ne_zero (Nat.ne_of_gt hfuel)
    obtain ⟨hzero, -⟩ := RqArg.word_of_drop hwords
    refine .inl ⟨info, ?_, h, by simpa using hchunk, by simp⟩
    simp [readChunkLoop, hzero]
  | cons mr mrs ih =>
    obtain ⟨fuel, rfl⟩ := Nat.exists_eq_succ_of_ne_zero
      (Nat.ne_of_gt (Nat.lt_of_le_of_lt (Nat.zero_le _) hfuel))
    have hbytes := length_pos_iff.mpr (hne mr (by simp))
    obtain ⟨h0, hwords⟩ := RqArg.word_of_drop hwords
    obtain ⟨h1, hwords⟩ := RqArg.word_of_drop hwords
    obtain ⟨h2, hwords⟩ := RqArg.word_of_drop hwords
    obtain ⟨h3, hwords⟩ := RqArg.word_of_drop hwords
    obtain ⟨h4, hwords⟩ := RqArg.word_of_drop hwords
    obtain ⟨h5, hwords⟩ := RqArg.word_of_drop hwords
    have hoffset : xdrDecodeHyper (mr.offset / 2 ^ 32) (mr.offset % 2 ^ 32) = mr.offset :=
      Nat.div_add_mod' mr.offset _
    simp only [flatMap_cons, length_append] at hfits
    have hloop : readChunkLoop env rqst m position (fuel + 1) p info = (do
        let info ← svcRdmaBuildReadSegment env rqst info mr.handle mr.bytes.length mr.offset
        readChunkLoop env rqst m position fuel (p + 6)
          { info with chunklen := U32.wrap (info.chunklen + mr.bytes.length) }) := by
      rw [readChunkLoop, if_pos ⟨by omega, h1⟩, h2, h3, h4, h5, hoffset]
    rw [hloop]
    rcases svcRdmaBuildReadSegment_spec env h mr.handle mr.offset
      (show mr.bytes.length ≠ 0 by omega) (by omega) with
      ⟨info', hseg, hp, hchunk', hpulled, sgl, hops⟩ | ⟨ha, c, hc⟩
    case inr => exact .inr ⟨ha, c, by rw [hc]; rfl⟩
    rw [hseg]
    have hwrap : U32.wrap (info'.chunklen + mr.bytes.length) = info'.pulled := by
      rw [hchunk', hchunk, hpulled]
      exact U32.wrap_of_lt (by omega)
    have hnext : (do
        let info ← .ok info'
        readChunkLoop env rqst m position fuel (p + 6)
          { info with chunklen := U32.wrap (info.chunklen + mr.bytes.length) }) =
        readChunkLoop env rqst m position fuel (p + 6)
          { info' with chunklen := info'.pulled } := by
      rw [← hwrap]
      rfl
    have hpulled' : ({ info' with chunklen := info'.pulled } : ReadInfo).pulled =
      info'.pulled := rfl
    rw [hnext]
    rcases @ih { info' with chunklen := info'.pulled }
      (fun mr' hmr => hne mr' (mem_cons_of_mem _ hmr)) fuel (p + 6) (by simpa using hfuel) hwords
      ⟨⟨hp.pulling.placed, hp.pulling.off_lt⟩, hp.lengths⟩ rfl
      (by rw [hpulled']; omega) with
      ⟨info'', hrest, hp', hlen, hmap⟩ | hrefused
    · refine .inl ⟨info'', hrest, hp', ?_, ?_⟩
      · simp only [flatMap_cons, length_append]
        omega
      · rw [hmap]
        simp [hops]
    · exact .inr hrefused

end

end Svcrdma
