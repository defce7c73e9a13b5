-- SUMMARY: The call that the server assembles is the one that the client marshaled.
import OfaKernel.Svcrdma.RecvCall
import OfaKernel.Svcrdma.ReplyAgreement

/-!
# Transfer of a call

The client registers page by page and leaves out the pad of a read chunk; the server fills its
own pages and rounds up to the next word.
-/

open List

namespace Svcrdma

open Xprtrdma (XdrBuf ChunkType Mr MarshalEnv Dma SendCtx be32 wordBytes callHeader
  encodeReadSegment
  readPosition rpcrdmaMarshalReq)

/-! ## The pages once the Reads are complete -/

theorem foldl_scatter {α : Type} (f : α → List Fill.Piece) (data : α → List UInt8) (l : List α)
    (hl : ∀ a ∈ l, (data a).length = Fill.total (f a)) (mem : Nat → Nat → UInt8) :
    l.foldl (fun mem a => Fill.scatter mem (f a) (data a)) mem =
      Fill.scatter mem (l.flatMap f) (l.flatMap data) := by
  induction l generalizing mem with
  | nil => rfl
  | cons a l ih =>
    obtain ⟨ha, hl⟩ := forall_mem_cons.mp hl
    rw [foldl_cons, ih hl, flatMap_cons, flatMap_cons,
      Fill.scatter_append _ _ _ _ ha]

theorem length_flatMap_eq_total {α : Type} (f : α → List Fill.Piece) (data : α → List UInt8)
    (l : List α) (hl : ∀ a ∈ l, (data a).length = Fill.total (f a)) :
    (l.flatMap data).length = Fill.total (l.flatMap f) := by
  induction l with
  | nil => rfl
  | cons a l ih =>
    obtain ⟨ha, hl⟩ := forall_mem_cons.mp hl
    rw [flatMap_cons, flatMap_cons, length_append, Fill.total_append, ha, ih hl]

section

variable {k : PageSizes} {rqst : SvcRqst k} {info : ReadInfo} {mrs : List Mr}
  {remote : Nat → Nat → Nat → List UInt8}

/-- What a Read names of its registration. -/
def Mr.triple (mr : Mr) : Nat × Nat × Nat := (mr.handle, mr.offset, mr.bytes.length)

def ReadOp.triple (op : ReadOp) : Nat × Nat × Nat := (op.handle, op.offset, op.length)

/-- The chunk lies at the start of the pages, and what they held before stays behind it. -/
theorem readPages_spec (h : Pulled rqst info)
    (hmap : info.ops.reverse.map ReadOp.triple = mrs.map Mr.triple)
    (hremote : ∀ mr ∈ mrs, remote mr.handle mr.offset mr.bytes.length = mr.bytes) {i o : Nat}
    (hi : i < rqst.npages) (ho : o < k.pageSize) :
    readPages rqst remote info.ops.reverse i o =
      (mrs.flatMap Mr.bytes).getD (i * k.pageSize + o) (rqst.pages i o) := by
  have hdata : info.ops.reverse.flatMap (fun op => remote op.handle op.offset op.length) =
      mrs.flatMap Mr.bytes := by
    have hops : info.ops.reverse.flatMap (fun op => remote op.handle op.offset op.length) =
        (info.ops.reverse.map ReadOp.triple).flatMap fun t => remote t.1 t.2.1 t.2.2 := by
      rw [flatMap_map]
      rfl
    rw [hops, hmap, flatMap_map]
    exact congrArg List.flatten (map_congr_left hremote)
  have hlen : ∀ op ∈ info.ops.reverse,
      (remote op.handle op.offset op.length).length = Fill.total op.sgl := by
    intro op hop
    have hmem : op.triple ∈ mrs.map Mr.triple := by
      rw [← hmap]
      exact mem_map_of_mem hop
    obtain ⟨mr, hmr, heq⟩ := mem_map.mp hmem
    simp only [Mr.triple, ReadOp.triple, Prod.mk.injEq] at heq
    obtain ⟨h1, h2, h3⟩ := heq
    rw [h.lengths op (mem_reverse.mp hop), ← h1, ← h2, ← h3, hremote mr hmr]
  have htotal := length_flatMap_eq_total ReadOp.sgl _ info.ops.reverse hlen
  rw [hdata] at htotal
  have hplaced := h.pulling.placed
  rw [readPages, foldl_scatter _ _ _ hlen, hdata,
    Fill.scatter_inOrder hplaced.order hplaced.inside _ htotal
      (by simpa [SvcRqst.row] using hi) (by rw [rqst.getD_row hi]; exact ho),
    rqst.sum_take_row (Nat.le_of_lt hi)]

/-- The first bytes of the pages, as one row. -/
theorem map_readPages (h : Pulled rqst info)
    (hmap : info.ops.reverse.map ReadOp.triple = mrs.map Mr.triple)
    (hremote : ∀ mr ∈ mrs, remote mr.handle mr.offset mr.bytes.length = mr.bytes) {n : Nat}
    (hn : n ≤ rqst.npages * k.pageSize) :
    ((List.range n).map fun i =>
      readPages rqst remote info.ops.reverse (i / k.pageSize) (i % k.pageSize)) =
    (List.range n).map fun i =>
      (mrs.flatMap Mr.bytes).getD i (rqst.pages (i / k.pageSize) (i % k.pageSize)) := by
  apply map_congr_left
  intro i hi
  have hi := mem_range.mp hi
  have hdiv : i / k.pageSize < rqst.npages := (Nat.div_lt_iff_lt_mul k.pageSize_pos).mpr (by omega)
  rw [readPages_spec h hmap hremote hdiv (Nat.mod_lt _ k.pageSize_pos), Nat.mul_comm,
    Nat.div_add_mod]

end

/-- A list and what follows it. -/
theorem map_getD_range {α : Type} (l : List α) (f : Nat → α) (n : Nat) :
    ((List.range (l.length + n)).map fun i => l.getD i (f i)) =
      l ++ (List.range n).map fun i => f (l.length + i) := by
  rw [range_add, map_append, map_map]
  congr 1
  · apply ext_getElem
    · simp
    · intro i h₁ h₂
      simp [h₂]
  · simp

theorem map_be32_range (hdr : List Nat) (hlt : ∀ w ∈ hdr, w < 2 ^ 32) (body : List UInt8)
    (n : Nat) :
    ((List.range (hdr.length + n)).map fun i =>
      be32 ((hdr.flatMap wordBytes ++ body).drop (4 * i))) =
      hdr ++ (List.range n).map fun i => be32 (body.drop (4 * i)) := by
  induction hdr with
  | nil => simp
  | cons w hdr ih =>
    obtain ⟨hw, hlt⟩ := forall_mem_cons.mp hlt
    have hlen : (w :: hdr).length + n = hdr.length + n + 1 := by
      rw [length_cons]
      omega
    rw [hlen, range_succ_eq_map, map_cons, map_map, cons_append]
    congr 1
    · exact Xprtrdma.be32_wordBytes hw _
    · rw [← ih hlt]
      apply map_congr_left
      intro i _
      have hmul : 4 * (i + 1) = 4 + 4 * i := by omega
      rw [Function.comp_apply, Nat.succ_eq_add_one, hmul, ← drop_drop, flatMap_cons,
        append_assoc, drop_left' (Xprtrdma.length_wordBytes w)]

theorem recvArg_words {hdr : List Nat} (hlt : ∀ w ∈ hdr, w < 2 ^ 32) {body msg : List UInt8}
    (hmsg : msg = hdr.flatMap wordBytes ++ body) (h : msg.length < 2 ^ 31) :
    ∃ rest, (recvArg msg h).words = hdr ++ rest := by
  subst hmsg
  have hlen : (hdr.flatMap wordBytes ++ body).length / 4 = hdr.length + body.length / 4 := by
    rw [length_append, Xprtrdma.length_flatMap_wordBytes]
    omega
  refine ⟨(List.range (body.length / 4)).map fun i => be32 (body.drop (4 * i)), ?_⟩
  unfold RqArg.words recvArg
  rw [hlen]
  exact map_be32_range hdr hlt body _

def headerOfCall {maxRead maxWrite : Nat} (xdr : XdrBuf) (rtype : ChunkType) (xid credits : Nat)
    (mrs : List Mr) (hmrs : ∀ mr ∈ mrs, mr.bytes.length ≤ maxRead)
    (writes : List (Chunk maxWrite)) (reply : Option (Chunk maxRead))
    (hwrites : writes.length ≤ 1) : TransportHeader maxRead maxWrite where
  xid := xid
  credits := credits
  nomsg := rtype = .areadch
  readList := mrs.pmap (fun mr hmr => ⟨1, readPosition xdr rtype, mr.handle, mr.bytes.length,
    mr.offset / 2 ^ 32, mr.offset % 2 ^ 32, Nat.one_ne_zero, hmr⟩) hmrs
  writeList := writes
  replyChunk := reply
  same_position := ⟨readPosition xdr rtype, by
    intro e he
    obtain ⟨mr, hmr, rfl⟩ := mem_pmap.mp he
    rfl⟩
  one_write_chunk := hwrites

theorem encode_headerOfCall {maxRead maxWrite : Nat} (xdr : XdrBuf) (rtype : ChunkType)
    (xid credits : Nat) {mrs : List Mr} (hmrs : ∀ mr ∈ mrs, mr.bytes.length ≤ maxRead)
    (writes : List (Chunk maxWrite)) (reply : Option (Chunk maxRead))
    (hwrites : writes.length ≤ 1) :
    (headerOfCall xdr rtype xid credits mrs hmrs writes reply hwrites).encode =
      callHeader xdr rtype xid credits mrs
        (writes.flatMap Chunk.encode ++ 0 :: encodeReply reply) := by
  have hlist : ∀ (l : List Mr) (hl : ∀ mr ∈ l, mr.bytes.length ≤ maxRead),
      (l.pmap (fun mr hmr => (⟨1, readPosition xdr rtype, mr.handle, mr.bytes.length,
        mr.offset / 2 ^ 32, mr.offset % 2 ^ 32, by decide, hmr⟩ : ReadSegment maxRead)) hl).flatMap
          ReadSegment.encode = l.flatMap (encodeReadSegment (readPosition xdr rtype)) := by
    intro l hl
    induction l with
    | nil => rfl
    | cons mr l ih =>
      rw [pmap_cons, flatMap_cons, flatMap_cons, ih]
      rfl
  have hproc : (decide (rtype = .areadch)).toNat = if rtype = .areadch then 1 else 0 := by
    cases rtype <;> rfl
  simp only [headerOfCall, TransportHeader.encode, encodeLists, callHeader, hlist, hproc]
  simp

/-! ## What arrives -/

/-- The tail of a call: the XDR pad of the page list, and words. -/
structure PaddedTail (xdr : XdrBuf) (pad rest : List UInt8) : Prop where
  tail_eq : xdr.tail = pad ++ rest
  pad_length : pad.length = (4 - xdr.pageLen % 4) % 4
  rest_length : rest.length % 4 = 0

/-- The part of the tail that is sent with a read chunk. -/
theorem PaddedTail.drop_tail {xdr : XdrBuf} {pad rest : List UInt8} (h : PaddedTail xdr pad rest) :
    (if xdr.tail.length < 4 then [] else xdr.tail.drop (xdr.tail.length % 4)) = rest := by
  have hlen : xdr.tail.length = pad.length + rest.length := by rw [h.tail_eq, length_append]
  have hpad := h.pad_length
  have hrest := h.rest_length
  split
  case isTrue hshort =>
    have : rest.length = 0 := by omega
    exact (length_eq_zero_iff.mp this).symm
  case isFalse =>
    have hmod : xdr.tail.length % 4 = pad.length := by omega
    rw [hmod, h.tail_eq, drop_left]

/-- The pad as it arrives: with a read chunk it is what the last page held before. -/
def arrivedPad {k : PageSizes} (rqst : SvcRqst k) (xdr : XdrBuf) (pad : List UInt8) :
    ChunkType → List UInt8
  | .readch => (List.range pad.length).map fun i =>
    rqst.pages ((xdr.pageLen + i) / k.pageSize) ((xdr.pageLen + i) % k.pageSize)
  | _ => pad

section

variable {k : PageSizes} {rqst : SvcRqst k} {info : ReadInfo} {xdr : XdrBuf}
  {pad rest : List UInt8} {mrs : List Mr} {remote : Nat → Nat → Nat → List UInt8}

theorem SvcRqst.le_maxBytesSpecialSeg (rqst : SvcRqst k) :
    rqst.npages * k.pageSize ≤ k.maxBytesSpecialSeg := by
  have hle := Nat.mul_le_mul_right k.pageSize (rqst.npages_le.trans (Nat.le_succ _))
  have hlt := rqst.size_lt
  have hstep := Nat.mul_le_mul_right k.pageSize (Nat.le_succ (k.rpcsvcMaxpages + 2))
  unfold PageSizes.maxBytesSpecialSeg
  rw [Nat.shiftLeft_eq, ← PageSizes.pageSize,
    U32.wrap_of_lt (Nat.lt_of_le_of_lt hstep (hlt.trans (by decide)))]
  exact hle

theorem XdrBuf.length_pageBytes (xdr : XdrBuf) : xdr.pageBytes.length = xdr.pageLen := by
  simp [XdrBuf.pageBytes]

theorem SvcRqst.four_dvd_pageSize (rqst : SvcRqst k) : 4 ∣ k.pageSize :=
  Nat.pow_dvd_pow 2 rqst.two_le_pageShift

/-- A read chunk between head and tail. -/
theorem assembleNormal_spec (hpull : Pulled rqst info)
    (hmap : info.ops.reverse.map ReadOp.triple = mrs.map Mr.triple)
    (hremote : ∀ mr ∈ mrs, remote mr.handle mr.offset mr.bytes.length = mr.bytes)
    (hchunk : info.chunklen = (mrs.flatMap Mr.bytes).length)
    (hbytes : mrs.flatMap Mr.bytes = xdr.pageBytes)
    (hfits : xdr.pageLen ≤ rqst.npages * k.pageSize) (htail : PaddedTail xdr pad rest)
    (hlen : (xdr.head ++ rest).length < 2 ^ 31) :
    ∃ arg, assembleNormal (xdr.head ++ rest) xdr.head.length info
        (readPages rqst remote info.ops.reverse) = .ok arg ∧
      arg.bytes k = xdr.head ++ xdr.pageBytes ++ arrivedPad rqst xdr pad .readch ++ rest ∧
      arg.len = (arg.bytes k).length := by
  have hcap := rqst.capacity_lt
  have hpad := htail.pad_length
  have hpages := XdrBuf.length_pageBytes xdr
  have hround : U32.wrap (info.chunklen + 3) / 4 * 4 = xdr.pageLen + pad.length := by
    rw [hchunk, hbytes, hpages, U32.wrap_of_lt (by omega)]
    omega
  -- the pages end on a word boundary, so the rounded chunk is inside them as well
  have hfits' : xdr.pageLen + pad.length ≤ rqst.npages * k.pageSize := by
    obtain ⟨c, hc⟩ := Dvd.dvd.mul_left rqst.four_dvd_pageSize rqst.npages
    omega
  have hpagebytes : ((List.range (xdr.pageLen + pad.length)).map fun i =>
      readPages rqst remote info.ops.reverse (i / k.pageSize) (i % k.pageSize)) =
      xdr.pageBytes ++ arrivedPad rqst xdr pad .readch := by
    rw [map_readPages hpull hmap hremote hfits', hbytes]
    have := map_getD_range xdr.pageBytes
      (fun i => rqst.pages (i / k.pageSize) (i % k.pageSize)) pad.length
    rw [hpages] at this
    exact this
  have hwrap : U32.wrap ((xdr.head ++ rest).length + (xdr.pageLen + pad.length)) =
      (xdr.head ++ rest).length + (xdr.pageLen + pad.length) := by
    exact U32.wrap_of_lt (by omega)
  refine ⟨_, by rw [assembleNormal, if_neg (by simp), hround], ?_, ?_⟩
  · simp [CallArg.bytes, hpagebytes]
  · simp only [CallArg.bytes, hpagebytes, take_left', drop_left', hwrap]
    simp only [length_append, hpages, arrivedPad, length_map, length_range]
    omega

/-- A chunk at position zero: its first page is the head. -/
theorem assemblePz_spec (hpull : Pulled rqst info)
    (hmap : info.ops.reverse.map ReadOp.triple = mrs.map Mr.triple)
    (hremote : ∀ mr ∈ mrs, remote mr.handle mr.offset mr.bytes.length = mr.bytes)
    (hchunk : info.chunklen = (mrs.flatMap Mr.bytes).length)
    (hfits : (mrs.flatMap Mr.bytes).length ≤ rqst.npages * k.pageSize) :
    (assemblePz k [] info (readPages rqst remote info.ops.reverse)).bytes k =
        mrs.flatMap Mr.bytes ∧
      (assemblePz k [] info (readPages rqst remote info.ops.reverse)).len =
        (mrs.flatMap Mr.bytes).length := by
  have hcap := rqst.capacity_lt
  have hsize := k.pageSize_pos
  constructor
  · set first := min k.pageSize info.chunklen with hfirst
    have hsplit : info.chunklen = first + (info.chunklen - first) := by omega
    -- the pages of the chunk one behind the other, the first one apart
    have hpages : (List.range first).map (readPages rqst remote info.ops.reverse 0) ++
        (List.range (info.chunklen - first)).map (fun i =>
          readPages rqst remote info.ops.reverse (i / k.pageSize + 1) (i % k.pageSize)) =
        (List.range info.chunklen).map fun i =>
          readPages rqst remote info.ops.reverse (i / k.pageSize) (i % k.pageSize) := by
      conv_rhs => rw [hsplit, range_add, map_append, map_map]
      congr 1
      · apply map_congr_left
        intro i hi
        have hi : i < first := mem_range.mp hi
        rw [Nat.div_eq_of_lt (by omega), Nat.mod_eq_of_lt (by omega)]
      · apply map_congr_left
        intro i hi
        have hi : i < info.chunklen - first := mem_range.mp hi
        have hfull : first = k.pageSize := by omega
        rw [Function.comp_apply, hfull, Nat.add_div_left _ hsize, Nat.add_mod_left]
    have hall := map_getD_range (mrs.flatMap Mr.bytes)
      (fun i => rqst.pages (i / k.pageSize) (i % k.pageSize)) 0
    rw [Nat.add_zero, range_zero, map_nil, append_nil] at hall
    simp only [CallArg.bytes, assemblePz, ← hfirst, append_nil]
    rw [hpages, map_readPages hpull hmap hremote (by omega), hchunk, hall]
  · simp only [assemblePz, length_nil, Nat.zero_add, hchunk]
    exact U32.wrap_of_lt (by omega)

theorem Mr.length_le_chunk {mr : Mr} (hmr : mr ∈ mrs) :
    mr.bytes.length ≤ (mrs.flatMap Mr.bytes).length := by
  obtain ⟨before, behind, rfl⟩ := append_of_mem hmr
  simp only [flatMap_append, flatMap_cons, length_append]
  omega

/-- The words of a header that the client has encoded are `u32`. -/
theorem callHeader_lt (rtype : ChunkType) {xid credits : Nat} {results : List Nat}
    (hwire : ∀ w ∈ xid :: credits :: results, w < 2 ^ 32)
    (hmrs : ∀ mr ∈ mrs, mr.bytes.length < 2 ^ 32 ∧ mr.handle < 2 ^ 32 ∧ mr.offset < 2 ^ 64)
    (hpos : mrs ≠ [] → readPosition xdr rtype < 2 ^ 32) :
    ∀ w ∈ callHeader xdr rtype xid credits mrs results, w < 2 ^ 32 := by
  obtain ⟨hxid, hcredits, hresults⟩ : xid < 2 ^ 32 ∧ credits < 2 ^ 32 ∧
      ∀ w ∈ results, w < 2 ^ 32 := by simpa using hwire
  have hlists : ∀ w ∈ mrs.flatMap (encodeReadSegment (readPosition xdr rtype)), w < 2 ^ 32 := by
    intro w hw
    obtain ⟨mr, hmr, hw⟩ := mem_flatMap.mp hw
    obtain ⟨hlen, hhandle, hoffset⟩ := hmrs mr hmr
    have hpos := hpos (ne_nil_of_mem hmr)
    simp only [encodeReadSegment, mem_cons, not_mem_nil, or_false] at hw
    rcases hw with rfl | rfl | rfl | rfl | rfl | rfl <;> omega
  have hproc : (if rtype = .areadch then 1 else 0) < 2 ^ 32 := by split <;> omega
  intro w hw
  simp only [callHeader, mem_append, mem_cons, not_mem_nil, or_false] at hw
  rcases hw with ((rfl | rfl | rfl | rfl) | hw) | rfl | hw
  · exact hxid
  · decide
  · exact hcredits
  · exact hproc
  · exact hlists w hw
  · decide
  · exact hresults w hw

/-- What the server finds in the message of a call: a header of the right length, what goes
inline behind it, and the read list in its fifth word. -/
theorem recv_message {env : MarshalEnv} {rtype : ChunkType} {xid credits : Nat}
    {writes : List (Chunk k.maxBytesWriteSeg)} {reply : Option (Chunk k.maxBytesSpecialSeg)}
    {dma : Dma} {sc : SendCtx} (hround : env.implicitRoundup = true)
    (hhead : rtype = .readch → xdr.head ≠ [])
    (hwrites : writes.length ≤ 1)
    (hwire : ∀ w ∈ xid :: credits :: (writes.flatMap Chunk.encode ++ 0 :: encodeReply reply),
      w < 2 ^ 32)
    (hmarshal : rpcrdmaMarshalReq env xdr rtype xid credits
      (writes.flatMap Chunk.encode ++ 0 :: encodeReply reply) dma = some (mrs, sc))
    (hlen : sc.message.length < 2 ^ 31)
    (hfits : (xdr.chunkBytes rtype).length ≤ rqst.npages * k.pageSize) :
    0 < (svcRdmaXdrDecodeReq k (recvArg sc.message hlen)).val.1 ∧
      sc.message.drop (svcRdmaXdrDecodeReq k (recvArg sc.message hlen)).val.1.toNat =
        xdr.inlineBytes rtype ∧
      mrs.length < (recvArg sc.message hlen).len + 1 ∧
      ∃ tl, (recvArg sc.message hlen).words.drop 4 =
        mrs.flatMap (encodeReadSegment (readPosition xdr rtype)) ++ 0 :: tl := by
  obtain ⟨hchunk, -, hnone, hwf, hmsg⟩ := Xprtrdma.rpcrdmaMarshalReq_spec hround hhead hmarshal
  have hcap := rqst.capacity_lt
  rw [← hchunk] at hfits
  have hle : ∀ mr ∈ mrs, mr.bytes.length ≤ rqst.npages * k.pageSize := fun mr hmr =>
    (Mr.length_le_chunk hmr).trans hfits
  have hpos : mrs ≠ [] → readPosition xdr rtype < 2 ^ 32 := by
    intro hne
    cases rtype with
    | noch => exact absurd (hnone rfl) hne
    | areadch => simp [readPosition]
    | readch =>
      rw [hmsg] at hlen
      simp only [readPosition, reduceCtorEq, ↓reduceIte, XdrBuf.inlineBytes, length_append]
        at hlen ⊢
      omega
  have hlt := callHeader_lt rtype hwire
    (fun mr hmr => ⟨by have := hle mr hmr; omega, (hwf mr hmr).2⟩) hpos
  obtain ⟨tl, hwords⟩ := recvArg_words hlt hmsg hlen
  have henc := encode_headerOfCall xdr rtype xid credits
    (fun mr hmr => (hle mr hmr).trans rqst.le_maxBytesSpecialSeg) writes reply hwrites
  set hdr := callHeader xdr rtype xid credits mrs
    (writes.flatMap Chunk.encode ++ 0 :: encodeReply reply) with hhdr
  rw [← henc] at hwords
  have hret := decodeReq_eq_length hwords
  rw [henc] at hret hwords
  have hhdrlen : 4 + 6 * mrs.length ≤ hdr.length := by
    rw [hhdr, callHeader]
    simp only [length_append, length_flatMap, encodeReadSegment, length_cons,
      length_nil, map_const', sum_replicate_nat]
    omega
  refine ⟨by rw [hret]; omega, ?_, ?_, ?_⟩
  · have hnat : ((4 * (hdr.length : Int)).toNat) = 4 * hdr.length := by omega
    rw [hret, hmsg, hnat, drop_left' (Xprtrdma.length_flatMap_wordBytes hdr)]
  · have hmsglen : 4 * hdr.length ≤ sc.message.length := by
      rw [hmsg, length_append, Xprtrdma.length_flatMap_wordBytes]
      omega
    simp only [recvArg]
    omega
  · rw [hwords, hhdr]
    simp [callHeader]

/-- The Reads of a chunk, and the call that is assembled from them. -/
theorem svcRdmaRecvReadChunk_spec (senv : RwEnv) (remote : Nat → Nat → Nat → List UInt8)
    (head : List UInt8) {m : RqArg} {position : Nat} {tl : List Nat} (hne : mrs ≠ [])
    (hwf : ∀ mr ∈ mrs, mr.bytes ≠ [])
    (hfuel : mrs.length < m.len + 1)
    (hdrop : m.words.drop 4 = mrs.flatMap (encodeReadSegment position) ++ 0 :: tl)
    (hfits : (mrs.flatMap Mr.bytes).length ≤ rqst.npages * k.pageSize) :
    (∃ info, Pulled rqst info ∧ info.chunklen = (mrs.flatMap Mr.bytes).length ∧
      info.ops.reverse.map ReadOp.triple = mrs.map Mr.triple ∧
      svcRdmaRecvReadChunk senv rqst remote m head =
        if position ≠ 0 then
          assembleNormal head position info (readPages rqst remote info.ops.reverse)
        else .ok (assemblePz k head info (readPages rqst remote info.ops.reverse))) ∨
    (¬ senv.Ample ∧ ∃ c, svcRdmaRecvReadChunk senv rqst remote m head = .error (.code c)) := by
  have h5 : m.word 5 = position := by
    obtain ⟨mr, mrs', rfl⟩ := exists_cons_of_ne_nil hne
    obtain ⟨-, hdrop⟩ := RqArg.word_of_drop hdrop
    exact (RqArg.word_of_drop hdrop).1
  have hstart : Pulled rqst {} := ⟨⟨Fill.Placed.start _, k.pageSize_pos⟩, by simp⟩
  unfold svcRdmaRecvReadChunk
  simp only [h5]
  rcases readChunkLoop_spec senv mrs hwf hfuel hdrop hstart rfl
    (by simpa [ReadInfo.pulled] using hfits) with ⟨info, hloop, hpull, hclen, hmap⟩ | ⟨ha, c, hc⟩
  case inr => exact .inr ⟨ha, c, by rw [hc]; rfl⟩
  rw [hloop]
  simp only [bind, Except.bind]
  cases hpost : senv.post info.sqecount with
  | tooMany => exact .inr ⟨fun ha => by simp [ha.post] at hpost, eINVAL, rfl⟩
  | lost => exact .inr ⟨fun ha => by simp [ha.post] at hpost, eNOTCONN, rfl⟩
  | posted => exact .inl ⟨info, hpull, by simpa [ReadInfo.pulled] using hclen, hmap, rfl⟩

end

/-- The call that the server assembles is the call of the client, and its length is right. Only
the pad of a read chunk is not transferred. A call that is not assembled was refused for want of
memory or of room in the Send Queue. -/
theorem call_transfer {k : PageSizes} (env : MarshalEnv) (xdr : XdrBuf) (pad rest : List UInt8)
    (rtype : ChunkType) (xid credits : Nat) (writes : List (Chunk k.maxBytesWriteSeg))
    (reply : Option (Chunk k.maxBytesSpecialSeg)) (dma : Dma) (mrs : List Mr) (sc : SendCtx)
    (senv : RwEnv) (rqst : SvcRqst k) (remote : Nat → Nat → Nat → List UInt8)
    (hround : env.implicitRoundup = true) (hhead : rtype = .readch → xdr.head ≠ [])
    (htail : PaddedTail xdr pad rest) (hwrites : writes.length ≤ 1)
    (hwire : ∀ w ∈ xid :: credits :: (writes.flatMap Chunk.encode ++ 0 :: encodeReply reply),
      w < 2 ^ 32)
    (hmarshal : rpcrdmaMarshalReq env xdr rtype xid credits
      (writes.flatMap Chunk.encode ++ 0 :: encodeReply reply) dma = some (mrs, sc))
    (hremote : ∀ mr ∈ mrs, remote mr.handle mr.offset mr.bytes.length = mr.bytes)
    (hlen : sc.message.length < 2 ^ 31)
    (hfits : (xdr.chunkBytes rtype).length ≤ rqst.npages * k.pageSize) :
    (∃ arg, svcRdmaRecvfrom senv rqst remote sc.message hlen = .ok arg ∧
      arg.bytes k = xdr.head ++ xdr.pageBytes ++ arrivedPad rqst xdr pad rtype ++ rest ∧
      arg.len = (arg.bytes k).length) ∨
    (¬ senv.Ample ∧ ∃ c, svcRdmaRecvfrom senv rqst remote sc.message hlen = .error (.code c)) := by
  obtain ⟨hchunk, hsome, hnone, hwf, hmsg⟩ := Xprtrdma.rpcrdmaMarshalReq_spec hround hhead hmarshal
  obtain ⟨hret, hbody, hfuel, tl, hdrop⟩ := recv_message hround hhead hwrites hwire
    hmarshal hlen hfits
  rw [← hchunk] at hfits
  unfold svcRdmaRecvfrom
  simp only [hbody, if_neg (Int.not_le.mpr hret)]
  by_cases hno : rtype = .noch
  · -- inline
    subst hno
    obtain rfl := hnone rfl
    rw [if_pos (RqArg.word_of_drop hdrop).1]
    refine .inl ⟨_, rfl, ?_, ?_⟩
    · simp [CallArg.bytes, XdrBuf.inlineBytes, arrivedPad, htail.tail_eq]
    · simp [CallArg.bytes]
  have hne := hsome hno
  have h4 : (recvArg sc.message hlen).word 4 = 1 := by
    obtain ⟨mr, mrs', rfl⟩ := exists_cons_of_ne_nil hne
    exact (RqArg.word_of_drop hdrop).1
  rw [if_neg (by rw [h4]; decide)]
  rcases svcRdmaRecvReadChunk_spec senv remote
    (xdr.inlineBytes rtype) hne (fun mr hmr => (hwf mr hmr).1) hfuel hdrop hfits with
    ⟨info, hpull, hclen, hmap, hrecv⟩ | hrefused
  case inr => exact .inr hrefused
  rw [hrecv]
  cases rtype with
  | noch => exact absurd rfl hno
  | readch =>
    have hpos : readPosition xdr .readch = xdr.head.length := rfl
    have hinline : xdr.inlineBytes .readch = xdr.head ++ rest := by
      rw [XdrBuf.inlineBytes, htail.drop_tail]
    have hinlinelen : (xdr.head ++ rest).length < 2 ^ 31 := by
      rw [hmsg, hinline, length_append] at hlen
      omega
    have hpagefits : xdr.pageLen ≤ rqst.npages * k.pageSize := by
      rwa [hchunk, XdrBuf.chunkBytes, XdrBuf.length_pageBytes] at hfits
    rw [hpos, hinline, if_pos (by simpa using hhead rfl)]
    exact .inl (assembleNormal_spec hpull hmap hremote hclen hchunk hpagefits htail hinlinelen)
  | areadch =>
    have hpos : readPosition xdr .areadch = 0 := rfl
    obtain ⟨hbytes, hclen'⟩ := assemblePz_spec hpull hmap hremote hclen hfits
    rw [hpos, if_neg (by simp), XdrBuf.inlineBytes]
    refine .inl ⟨_, rfl, ?_, ?_⟩
    · rw [hbytes, hchunk]
      simp [XdrBuf.chunkBytes, arrivedPad, htail.tail_eq]
    · rw [hclen', hbytes]

/-- A call with one byte in its page, and a pad of zeros. -/
def oddCall : XdrBuf where
  head := [1, 2, 3, 4]
  headBase := 0
  pages _ _ := 9
  pageBase := 100
  pageLen := 1
  tail := [0, 0, 0, 5, 6, 7, 8]
  tailBase := 4

/-- A device that registers everything at once. -/
def oneMr : MarshalEnv where
  map := {}
  roMap _ segs := if segs = [] then none else some (segs.length, 7, 4096)
  maxSegs := 64
  hdrRoom := 64
  implicitRoundup := true
  consumes := by
    intro i segs n handle offset h
    split at h
    case isTrue => cases h
    case isFalse hne =>
      cases h
      exact ⟨length_pos_iff.mpr hne, Nat.le_refl _, by decide, by decide⟩

def usedPages : SvcRqst smallPages where
  npages := 2
  pages _ _ := 255
  npages_le := by decide
  size_lt := by decide
  two_le_pageShift := by decide

/-- The registration and the message of the call. -/
def oddMr : Mr := ⟨7, 4096, [9]⟩

def oddSend : SendCtx where
  sges := [⟨[0, 0, 0, 3, 0, 0, 0, 1, 0, 0, 0, 32, 0, 0, 0, 0, 0, 0, 0, 1, 0, 0, 0, 4, 0, 0, 0, 7,
    0, 0, 0, 1, 0, 0, 0, 0, 0, 0, 16, 0, 0, 0, 0, 0, 0, 0, 0, 0, 0, 0, 0, 0], none⟩,
    ⟨[1, 2, 3, 4], none⟩, ⟨[5, 6, 7, 8], some 0⟩]
  numSge := 3
  unmapCount := 1

theorem oddSend_marshaled :
    rpcrdmaMarshalReq oneMr oddCall .readch 3 32 [0, 0] {} = some ([oddMr], oddSend) := by
  decide +kernel

/-- The client's memory under the one handle. -/
def oddRemote (_ _ _ : Nat) : List UInt8 := [9]

theorem call_transfer_odd :
    ∃ arg, svcRdmaRecvfrom .plain usedPages oddRemote oddSend.message
      (by decide +kernel) = .ok arg ∧
      arg.bytes smallPages = [1, 2, 3, 4] ++ [9] ++ [255, 255, 255] ++ [5, 6, 7, 8] ∧
      arg.len = 12 := by
  obtain ⟨arg, harg, hbytes, hlen⟩ :=
    (call_transfer oneMr oddCall [0, 0, 0] [5, 6, 7, 8] .readch 3 32
    [] none {} [oddMr] oddSend .plain usedPages oddRemote rfl (by decide)
    ⟨by decide, by decide, by decide⟩ (by decide) (by decide) oddSend_marshaled
    (by decide) (by decide +kernel) (by decide +kernel)).resolve_right
    (fun h => h.1 RwEnv.plain_ample)
  exact ⟨arg, harg, hbytes, by rw [hlen, hbytes]; rfl⟩

/-- The pad of a read chunk is not the client's. -/
theorem call_transfer_pad_differs :
    rpcrdmaMarshalReq oneMr oddCall .readch 3 32 [0, 0] {} = some ([oddMr], oddSend) ∧
      oddCall.head ++ oddCall.pageBytes ++ oddCall.tail = [1, 2, 3, 4, 9, 0, 0, 0, 5, 6, 7, 8] ∧
      ((svcRdmaRecvfrom .plain usedPages oddRemote oddSend.message
        (by decide +kernel)).toOption.map (CallArg.bytes smallPages)) =
          some [1, 2, 3, 4, 9, 255, 255, 255, 5, 6, 7, 8] := by
  decide +kernel

end Svcrdma
