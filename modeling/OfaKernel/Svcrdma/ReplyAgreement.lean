-- SUMMARY: The Writes of a reply, its header and what the client decodes agree.
import OfaKernel.Svcrdma.BuildWrites

/-!
# Agreement on a reply

A call offers one chunk at most. The server reports what each segment got, and the client adds it
up.
-/

open List

namespace Svcrdma

open Xprtrdma (RdmaSegment segmentWords segmentWords_nil segmentWords_cons length_segmentWords
  decodeChunkLists)

/-! ## Chunks -/

def Chunk.rdma {maxSeg : Nat} (c : Chunk maxSeg) : List RdmaSegment :=
  c.segments.map fun s => ⟨s.handle, s.length, s.offsetHi, s.offsetLo⟩

variable {maxSeg : Nat}

theorem Chunk.encode_eq (c : Chunk maxSeg) :
    c.encode = c.mark :: c.rdma.length :: segmentWords c.rdma := by
  simp only [Chunk.encode, Chunk.rdma, segmentWords, flatMap_map, length_map]
  rfl

theorem Chunk.segsFit (c : Chunk maxSeg) (h : maxSeg < 2 ^ 32) :
    SegsFit c.rdma := by
  intro s hs
  obtain ⟨e, -, rfl⟩ := mem_map.mp hs
  exact Nat.lt_of_le_of_lt e.length_le h

/-- The segments with other lengths. -/
def refill (segs : List RdmaSegment) (lens : List Nat) : List RdmaSegment :=
  List.zipWith (fun s l => { s with length := l }) segs lens

theorem segLengths_refill {segs : List RdmaSegment} {lens : List Nat}
    (h : lens.length = segs.length) : segLengths (refill segs lens) = lens := by
  induction segs generalizing lens with
  | nil =>
    obtain rfl := length_eq_zero_iff.mp h
    rfl
  | cons s segs ih =>
    cases lens with
    | nil => simp at h
    | cons l lens => simpa [segLengths, refill] using ih (by simpa using h)

theorem length_refill {segs : List RdmaSegment} {lens : List Nat}
    (h : lens.length = segs.length) : (refill segs lens).length = segs.length := by
  rw [← length_segLengths, segLengths_refill h, h]

variable {n : Nat}

theorem encodeSegments_fill (segs : List RdmaSegment) (rest : List Nat) (hn : n < 2 ^ 32) :
    encodeSegments segs.length (segmentWords segs ++ rest) n =
      segmentWords (refill segs (Fill.fill (segLengths segs) n)) := by
  induction segs generalizing n with
  | nil => rfl
  | cons s segs ih =>
    have hlen : (if s.length ≤ n then s.length else n) = min n s.length := by
      split <;> omega
    have hrest : (if s.length ≤ n then U32.sub n s.length else 0) = n - s.length := by
      split
      case isTrue h => exact U32.sub_of_le h hn
      case isFalse h => omega
    simp only [length_cons, encodeSegments, segmentWords_cons, cons_append,
      getD_cons_succ, getD_cons_zero, drop_succ_cons, drop_zero, hlen, hrest]
    rw [ih (by omega)]
    rfl

theorem xdrEncodeWriteChunk_fill (mark : Nat) (segs : List RdmaSegment) (rest : List Nat)
    (hn : n < 2 ^ 32) :
    xdrEncodeWriteChunk (mark :: segs.length :: (segmentWords segs ++ rest)) n =
      (segs.length, mark :: segs.length ::
        segmentWords (refill segs (Fill.fill (segLengths segs) n))) := by
  simp [xdrEncodeWriteChunk, encodeSegments_fill segs rest hn]

/-! ## Walks over a header -/

theorem skipReadList_encode (es : List (ReadSegment maxSeg)) (rest : List Nat) {fuel : Nat}
    (hfuel : es.length < fuel) :
    skipReadList fuel (es.flatMap ReadSegment.encode ++ 0 :: rest) = rest := by
  induction es generalizing fuel with
  | nil =>
    obtain ⟨fuel, rfl⟩ := Nat.exists_eq_succ_of_ne_zero (Nat.ne_of_gt hfuel)
    simp [skipReadList]
  | cons e es ih =>
    obtain ⟨fuel, rfl⟩ := Nat.exists_eq_succ_of_ne_zero (Nat.ne_of_gt (Nat.lt_of_le_of_lt
      (Nat.zero_le _) hfuel))
    have ih := @ih fuel (by simpa using hfuel)
    simpa [skipReadList, ReadSegment.encode, e.mark_ne] using ih

theorem skipChunks_zero (fuel : Nat) (rest : List Nat) :
    skipChunks (fuel + 1) (0 :: rest) = rest := by
  simp [skipChunks]

variable {mark : Nat}

theorem skipChunks_chunk (hmark : mark ≠ 0) (segs : List RdmaSegment) (rest : List Nat)
    (hlen : segs.length * 4 < 2 ^ 32) (fuel : Nat) :
    skipChunks (fuel + 1) (mark :: segs.length :: (segmentWords segs ++ rest)) =
      skipChunks fuel rest := by
  have hdrop : (segmentWords segs ++ rest).drop (segs.length * 4) = rest :=
    drop_left' (by rw [length_segmentWords, Nat.mul_comm])
  have hadd : 2 + segs.length * 4 = segs.length * 4 + 2 := Nat.add_comm _ _
  simp [skipChunks, hmark, U32.wrap_of_lt hlen, hadd, hdrop]

theorem storeWords_append {a : List Nat} {p : Nat} (ha : a.length = p) (b ws : List Nat) :
    storeWords (a ++ b) p ws = a ++ (ws ++ b.drop ws.length) := by
  rw [storeWords, take_left' ha, ← ha, drop_append]
  simp

theorem svcRdmaXdrEncodeWriteList_eq (fixed : List Nat) (hfixed : fixed.length = 5)
    (hmark : mark ≠ 0) (segs : List RdmaSegment) (hlen : segs.length * 4 < 2 ^ 32)
    (buf rest : List Nat) (hn : n < 2 ^ 32) :
    ∃ junk, svcRdmaXdrEncodeWriteList (fixed ++ buf)
        (mark :: segs.length :: (segmentWords segs ++ 0 :: rest)) n =
      fixed ++ mark :: segs.length ::
        (segmentWords (refill segs (Fill.fill (segLengths segs) n)) ++ 0 :: 0 :: junk) := by
  have hdrop : (segmentWords segs ++ 0 :: rest).drop (segs.length * 4) = 0 :: rest :=
    drop_left' (by rw [length_segmentWords, Nat.mul_comm])
  have hadd : 2 + segs.length * 4 = segs.length * 4 + 2 := Nat.add_comm _ _
  set ws := mark :: segs.length :: segmentWords (refill segs (Fill.fill (segLengths segs) n))
    with hws
  have hwslen : ws.length = 2 + segs.length * 4 := by
    rw [hws, length_cons, length_cons, length_segmentWords, length_refill (by simp)]
    omega
  have hloop : encodeWriteListLoop (mark :: segs.length :: (segmentWords segs ++ 0 :: rest)).length
      (fixed ++ buf) 5 (mark :: segs.length :: (segmentWords segs ++ 0 :: rest)) n =
        (fixed ++ (ws ++ buf.drop ws.length), 5 + (2 + segs.length * 4)) := by
    rw [length_cons, length_cons, encodeWriteListLoop, getD_cons_zero, if_neg hmark,
      xdrEncodeWriteChunk_fill mark segs _ hn]
    dsimp only
    rw [encodeWriteListLoop.eq_def]
    simp only [U32.wrap_of_lt hlen, hadd, drop_succ_cons, hdrop, getD_cons_zero,
      ↓reduceIte, ← hws, storeWords_append hfixed]
  unfold svcRdmaXdrEncodeWriteList
  rw [hloop]
  dsimp only
  rw [← append_assoc, storeWords_append (by rw [length_append, hfixed, hwslen])]
  simp [hws]

theorem svcRdmaXdrEncodeReplyChunk_eq (fixed : List Nat) (hfixed : fixed.length = 5) (mark : Nat)
    (segs : List RdmaSegment) (buf rest : List Nat) (hn : n < 2 ^ 32) :
    ∃ junk, svcRdmaXdrEncodeReplyChunk (fixed ++ 0 :: buf)
        (mark :: segs.length :: (segmentWords segs ++ rest)) n =
      fixed ++ 0 :: mark :: segs.length ::
        (segmentWords (refill segs (Fill.fill (segLengths segs) n)) ++ junk) := by
  have hdrop : (fixed ++ 0 :: buf).drop 5 = 0 :: buf := drop_left' hfixed
  have hplace : (fixed ++ 0 :: buf).length - (skipChunks (fixed ++ 0 :: buf).length
      ((fixed ++ 0 :: buf).drop 5)).length = 6 := by
    rw [hdrop, length_append, length_cons, ← Nat.add_assoc, skipChunks_zero]
    omega
  unfold svcRdmaXdrEncodeReplyChunk
  rw [hplace, xdrEncodeWriteChunk_fill mark segs rest hn, append_cons fixed 0 buf]
  rw [storeWords_append (by rw [length_append, hfixed]; rfl), append_assoc]
  exact ⟨_, rfl⟩

theorem svcRdmaReplyHdrLen_write (fixed : List Nat) (hfixed : fixed.length = 5) (hmark : mark ≠ 0)
    (segs : List RdmaSegment) (junk : List Nat) (hlen : segs.length * 4 < 2 ^ 32) :
    svcRdmaReplyHdrLen (fixed ++ mark :: segs.length :: (segmentWords segs ++ 0 :: 0 :: junk)) =
      4 * (9 + 4 * segs.length) := by
  have hdrop : (fixed ++ mark :: segs.length :: (segmentWords segs ++ 0 :: 0 :: junk)).drop 5 =
      mark :: segs.length :: (segmentWords segs ++ 0 :: 0 :: junk) := drop_left' hfixed
  have hfuel : (fixed ++ mark :: segs.length :: (segmentWords segs ++ 0 :: 0 :: junk)).length =
      junk.length + 4 * segs.length + 7 + 1 + 1 := by
    simp only [length_append, length_cons, length_segmentWords, hfixed]
    omega
  unfold svcRdmaReplyHdrLen
  rw [hdrop, hfuel, skipChunks_chunk hmark segs _ hlen, skipChunks_zero]
  simp only [getD_cons_zero, ↓reduceIte, drop_succ_cons, drop_zero]
  omega

theorem svcRdmaReplyHdrLen_reply (fixed : List Nat) (hfixed : fixed.length = 5) (hmark : mark ≠ 0)
    (segs : List RdmaSegment) (junk : List Nat) (hlen : segs.length * 4 < 2 ^ 32) :
    svcRdmaReplyHdrLen (fixed ++ 0 :: mark :: segs.length :: (segmentWords segs ++ junk)) =
      4 * (8 + 4 * segs.length) := by
  have hdrop : (fixed ++ 0 :: mark :: segs.length :: (segmentWords segs ++ junk)).drop 5 =
      0 :: mark :: segs.length :: (segmentWords segs ++ junk) := drop_left' hfixed
  have hfuel : (fixed ++ 0 :: mark :: segs.length :: (segmentWords segs ++ junk)).length =
      junk.length + 4 * segs.length + 7 + 1 := by
    simp only [length_append, length_cons, length_segmentWords, hfixed]
    omega
  have hskip : (segmentWords segs ++ junk).drop (segs.length * 4) = junk :=
    drop_left' (by rw [length_segmentWords, Nat.mul_comm])
  have hadd : 2 + segs.length * 4 = segs.length * 4 + 2 := Nat.add_comm _ _
  unfold svcRdmaReplyHdrLen
  rw [hdrop, hfuel, skipChunks_zero]
  simp only [getD_cons_zero, getD_cons_succ, hmark, ↓reduceIte, U32.wrap_of_lt hlen, hadd,
    drop_succ_cons, hskip]
  omega

/-! ## Writing a chunk -/

/-- The Writes put the payload into the segments, once and in order. -/
structure Wrote (segs : List RdmaSegment) (payload : List UInt8) (ws : List Write) : Prop where
  covers : ws.flatMap Write.bytes = payload
  fits : payload.length ≤ (segLengths segs).sum
  addresses : ∀ w ∈ ws, w.Addresses segs
  inside : ∀ w ∈ ws, w.segOff + w.bytes.length ≤ (segLengths segs).getD w.segNo 0
  order : Fill.InOrder (segLengths segs) (ws.map Write.piece)
  amounts : (List.range segs.length).map (Fill.amount (ws.map Write.piece)) =
    Fill.fill (segLengths segs) payload.length

theorem Building.wrote {segs : List RdmaSegment} {info : WriteInfo} {payload : List UInt8}
    (h : Building segs info payload) : Wrote segs payload info.rwctxts.reverse where
  covers := h.bytes
  fits := h.le_sum
  addresses w hw := h.addresses w (mem_reverse.mp hw)
  inside w hw := (h.placed.inside w.piece (mem_map_of_mem hw)).2
  order := h.placed.order
  amounts := by
    rw [← length_segLengths, h.placed.amounts_eq_fill, total_pieces, h.bytes]

/-- The outcome of writing a chunk. -/
structure Written (env : RwEnv) (segs : List RdmaSegment) (payload : List UInt8)
    (r : Except Abort (Int × List Write)) : Prop where
  ok : Clean segs payload.length → ∀ ret ws, r = .ok (ret, ws) →
    ret = payload.length ∧ Wrote segs payload ws
  code : Clean segs payload.length → ∀ e, r = .error e → ∃ c, e = .code c ∧
    (c = e2BIG → (segLengths segs).sum < payload.length)
  big : Clean segs payload.length → env.Ample → (segLengths segs).sum < payload.length →
    r = .error (.code e2BIG)
  fits : Clean segs payload.length → env.Ample → payload.length ≤ (segLengths segs).sum →
    ∃ ret ws, r = .ok (ret, ws)
  dirty : ¬ Clean segs payload.length → env.Ample → r = .error .fault

section

variable {k : PageSizes} {env : RwEnv} {segs : List RdmaSegment}

/-- Once all stages are done, the Writes are posted. -/
theorem Stage.written {payload : List UInt8} {r : Except Abort WriteInfo} {ret : Int}
    (h : Stage env segs payload r) (hret : ret = payload.length) :
    Written env segs payload (do
      let info ← r
      let writes ← svcRdmaPostChunkCtxt env info
      return (ret, writes)) := by
  have hpost : ∀ info, env.post info.sqecount = .posted →
      svcRdmaPostChunkCtxt env info = .ok info.rwctxts.reverse := by
    intro info hp
    simp [svcRdmaPostChunkCtxt, hp]
  have hrefused : ∀ info, env.post info.sqecount ≠ .posted →
      ∃ c, c ≠ e2BIG ∧ svcRdmaPostChunkCtxt env info = .error (.code c) := by
    intro info hp
    unfold svcRdmaPostChunkCtxt
    split
    next h => exact absurd h hp
    next => exact ⟨eINVAL, by decide, rfl⟩
    next => exact ⟨eNOTCONN, by decide, rfl⟩
  have hok : ∀ info ws, svcRdmaPostChunkCtxt env info = .ok ws → ws = info.rwctxts.reverse := by
    intro info ws hws
    by_cases hp : env.post info.sqecount = .posted
    · rw [hpost info hp] at hws
      cases hws
      rfl
    · obtain ⟨c, -, hc⟩ := hrefused info hp
      rw [hc] at hws
      cases hws
  refine ⟨fun hc => ?_, fun hc => ?_, fun hc ha hbig => ?_, fun hc ha hfit => ?_, fun hd ha => ?_⟩
  · intro ret' ws hr
    cases hrv : r with
    | error e =>
      rw [hrv] at hr
      cases hr
    | ok info =>
      rw [hrv] at hr
      cases hws : svcRdmaPostChunkCtxt env info with
      | error e =>
        simp only [Bind.bind, Except.bind, hws] at hr
        cases hr
      | ok ws' =>
        simp only [Bind.bind, Except.bind, hws, Pure.pure, Except.pure, Except.ok.injEq,
          Prod.mk.injEq] at hr
        obtain ⟨rfl, rfl⟩ := hr
        rw [hok info _ hws]
        exact ⟨hret, ((h.clean hc).ok info hrv).wrote⟩
  · intro e he
    cases hrv : r with
    | error e' =>
      rw [hrv] at he
      cases he
      exact (h.clean hc).code e hrv
    | ok info =>
      rw [hrv] at he
      by_cases hp : env.post info.sqecount = .posted
      · simp only [Bind.bind, Except.bind, hpost info hp] at he
        cases he
      · obtain ⟨c, hne, hcode⟩ := hrefused info hp
        simp only [Bind.bind, Except.bind, hcode, Except.error.injEq] at he
        exact ⟨c, he.symm, fun hbig => absurd hbig hne⟩
  · rw [(h.clean hc).big ha hbig]
    rfl
  · obtain ⟨info, hrv⟩ := (h.clean hc).fits ha hfit
    refine ⟨ret, info.rwctxts.reverse, ?_⟩
    simp only [hrv, Bind.bind, Except.bind, hpost info (ha.post _)]
    rfl
  · rw [h.dirty hd ha]
    rfl

theorem building_start (segs : List RdmaSegment) {nsegs : Nat} (hn : nsegs = segs.length)
    (rest : List Nat) :
    Building segs { nsegs, segs := segmentWords segs ++ rest } [] where
  nsegs := hn
  words := ⟨rest, rfl⟩
  placed := Fill.Placed.start _
  room := .inl rfl
  behind _ hj := absurd hj (Nat.not_lt_zero _)
  addresses := by simp
  bytes := rfl

theorem RqRes.pageBytes_eq (k : PageSizes) (xdr : RqRes) :
    xdr.pageBytes k = xdr.bytesFrom k xdr.pageBase xdr.pageLen := rfl

theorem svcRdmaSendXdrKvec_stage (k : PageSizes) (env : RwEnv) (hfit : SegsFit segs)
    {info : WriteInfo} {done vec : List UInt8}
    (hb : Building segs info done) (hne : vec ≠ []) (hlt : vec.length < 2 ^ 32) :
    Stage env segs (done ++ vec) (svcRdmaSendXdrKvec k env info vec) := by
  have hb' := hb.of_source vec info.nextOff
  have hsegs := hb.nsegs
  exact buildWritesLoop_stage hfit (svcRdmaVecToSg_feeds k) _ hb' rfl hne hlt
    (by simp only [hsegs]; omega)

theorem svcRdmaSendXdrPagelist_stage (hfit : SegsFit segs) {info : WriteInfo} {done : List UInt8}
    (hb : Building segs info done) (xdr : RqRes) (hne : xdr.pageLen ≠ 0) :
    Stage env segs (done ++ xdr.pageBytes k) (svcRdmaSendXdrPagelist k env info xdr) := by
  have hb' := hb.of_source info.base 0
  have hsegs := hb.nsegs
  have hlt := xdr.len_lt
  have hstage := @buildWritesLoop_stage k env segs { info with nextOff := 0 } done
    (xdr.pageBytes k) (svcRdmaPagelistToSg k xdr) _ hfit (svcRdmaPagelistToSg_feeds k xdr)
    (info.nsegs + 1) hb' ⟨Nat.zero_le _, rfl⟩
    (by rw [RqRes.pageBytes_eq, Ne, RqRes.bytesFrom_eq_nil]; exact hne)
    (by rw [RqRes.pageBytes_eq, RqRes.length_bytesFrom]; omega)
    (by simp only [hsegs]; omega)
  rw [RqRes.pageBytes_eq, RqRes.length_bytesFrom] at hstage
  exact hstage

theorem Written.refused {payload : List UInt8} {c : Int} (ha : ¬ env.Ample) (hc : c ≠ e2BIG) :
    Written env segs payload (.error (.code c)) where
  ok _ _ _ h := by cases h
  code _ e h := by
    cases h
    exact ⟨c, rfl, fun hbig => absurd hbig hc⟩
  big _ h := absurd h ha
  fits _ h := absurd h ha
  dirty _ h := absurd h ha

theorem svcRdmaWriteInfoAlloc_cases (env : RwEnv) (segs : List RdmaSegment) (mark : Nat)
    (rest : List Nat) :
    (¬env.Ample ∧ svcRdmaWriteInfoAlloc env (mark :: segs.length :: (segmentWords segs ++ rest)) =
        .error (.code eNOMEM)) ∨
      svcRdmaWriteInfoAlloc env (mark :: segs.length :: (segmentWords segs ++ rest)) =
        .ok { nsegs := segs.length, segs := segmentWords segs ++ rest } := by
  by_cases halloc : env.writeInfo = true
  · right
    simp [svcRdmaWriteInfoAlloc, halloc]
  · left
    exact ⟨fun ha => halloc ha.writeInfo, by simp [svcRdmaWriteInfoAlloc, halloc]⟩

theorem svcRdmaSendWriteChunk_written (k : PageSizes) (env : RwEnv) (hfit : SegsFit segs)
    (mark : Nat) (rest : List Nat)
    (xdr : RqRes) :
    Written env segs (xdr.pageBytes k)
      (svcRdmaSendWriteChunk k env (mark :: segs.length :: (segmentWords segs ++ rest)) xdr) := by
  have hstart := building_start segs rfl rest
  unfold svcRdmaSendWriteChunk
  by_cases hlen : xdr.pageLen = 0
  · have hnil : xdr.pageBytes k = [] := by
      rw [RqRes.pageBytes_eq, RqRes.bytesFrom_eq_nil]
      exact hlen
    rw [if_pos hlen, hnil]
    refine ⟨fun _ => ?_, fun _ e h => (by cases h), fun _ _ h => absurd h (Nat.not_lt_zero _),
      fun _ _ _ => ⟨0, [], rfl⟩, fun hd => absurd hstart.clean hd⟩
    rintro _ _ ⟨⟩
    exact ⟨rfl, hstart.wrote⟩
  · rw [if_neg hlen]
    obtain ⟨ha, hcode⟩ | hinfo := svcRdmaWriteInfoAlloc_cases env segs mark rest
    · rw [hcode]
      exact .refused ha (by decide)
    rw [hinfo]
    have hret : I32.wrap xdr.pageLen = (xdr.pageBytes k).length := by
      have := xdr.len_lt
      rw [RqRes.pageBytes_eq, RqRes.length_bytesFrom]
      exact I32.wrap_of_range (by omega) (by omega)
    exact (svcRdmaSendXdrPagelist_stage hfit hstart xdr hlen).written hret

/-- Head, pages and tail of a reply go into the reply chunk. -/
theorem svcRdmaSendReplyChunk_written (k : PageSizes) (env : RwEnv) (hfit : SegsFit segs)
    (mark : Nat) (rest : List Nat)
    (xdr : RqRes) :
    Written env segs (xdr.head ++ xdr.pageBytes k ++ xdr.tail)
      (svcRdmaSendReplyChunk k env (mark :: segs.length :: (segmentWords segs ++ rest)) false
        xdr) := by
  have hstart := building_start segs rfl rest
  have hlen := xdr.len_lt
  unfold svcRdmaSendReplyChunk
  obtain ⟨ha, hcode⟩ | hinfo := svcRdmaWriteInfoAlloc_cases env segs mark rest
  · rw [hcode]
    exact .refused ha (by decide)
  have hhead := svcRdmaSendXdrKvec_stage k env hfit hstart xdr.head_ne (by omega)
  have hpages : ∀ info, Building segs info xdr.head → Stage env segs (xdr.head ++ xdr.pageBytes k)
      (sendIf (!false && decide (xdr.pageLen ≠ 0)) (svcRdmaSendXdrPagelist k env · xdr) info) := by
    intro info hb
    unfold sendIf
    by_cases h0 : xdr.pageLen = 0
    · have hnil : xdr.pageBytes k = [] := by
        rw [RqRes.pageBytes_eq, RqRes.bytesFrom_eq_nil]
        exact h0
      rw [if_neg (by simp [h0]), hnil, append_nil]
      exact .pure hb
    · rw [if_pos (by simp [h0])]
      exact svcRdmaSendXdrPagelist_stage hfit hb xdr h0
  have htail : ∀ info, Building segs info (xdr.head ++ xdr.pageBytes k) →
      Stage env segs (xdr.head ++ xdr.pageBytes k ++ xdr.tail)
        (sendIf (xdr.tail.length ≠ 0) (svcRdmaSendXdrKvec k env · xdr.tail) info) := by
    intro info hb
    unfold sendIf
    by_cases h0 : xdr.tail = []
    · rw [h0, if_neg (by simp), append_nil]
      exact .pure hb
    · rw [if_pos (by simpa using h0)]
      exact svcRdmaSendXdrKvec_stage k env hfit hb h0 (by omega)
  have hret : I32.wrap ((xdr.head.length + (if (!false && decide (xdr.pageLen ≠ 0)) = true then
      xdr.pageLen else 0) + xdr.tail.length : Nat) : Int) =
        (xdr.head ++ xdr.pageBytes k ++ xdr.tail).length := by
    have hsum : xdr.head.length + (if (!false && decide (xdr.pageLen ≠ 0)) = true then xdr.pageLen
        else 0) + xdr.tail.length = (xdr.head ++ xdr.pageBytes k ++ xdr.tail).length := by
      simp only [length_append, RqRes.pageBytes_eq, RqRes.length_bytesFrom]
      split <;> simp_all
    rw [hsum]
    apply I32.wrap_of_range
    · omega
    · simp only [length_append, RqRes.pageBytes_eq, RqRes.length_bytesFrom]
      omega
  have hall := ((hhead.bind hpages).bind htail).written hret
  simp only [bind_assoc] at hall
  rw [hinfo]
  exact hall

end

/-! ## The agreement -/

section

variable {maxRead maxWrite : Nat}

/-- The segments of the chunk that the reply is written into. -/
def TransportHeader.target (h : TransportHeader maxRead maxWrite) : List RdmaSegment :=
  match h.writeList, h.replyChunk with
  | c :: _, _ => c.rdma
  | [], some c => c.rdma
  | [], none => []

/-- What is written: the pages of the reply, or the whole reply. -/
def TransportHeader.payload (h : TransportHeader maxRead maxWrite) (k : PageSizes) (xdr : RqRes) :
    List UInt8 :=
  match h.writeList, h.replyChunk with
  | _ :: _, _ => xdr.pageBytes k
  | [], some _ => xdr.head ++ xdr.pageBytes k ++ xdr.tail
  | [], none => []

/-- The lists in the header of a reply whose segments got `lens` bytes. -/
def TransportHeader.replyLists (h : TransportHeader maxRead maxWrite) (lens : List Nat) :
    List Nat :=
  match h.writeList, h.replyChunk with
  | c :: _, _ => 0 :: c.mark :: c.rdma.length :: (segmentWords (refill c.rdma lens) ++ [0, 0])
  | [], some c => 0 :: 0 :: c.mark :: c.rdma.length :: segmentWords (refill c.rdma lens)
  | [], none => [0, 0, 0]

/-- What the client finds in the write list and in the reply chunk after `n` bytes. -/
def TransportHeader.received (h : TransportHeader maxRead maxWrite) (n : Nat) : Nat × Nat :=
  match h.writeList, h.replyChunk with
  | _ :: _, _ => (n, 0)
  | [], some _ => (0, n)
  | [], none => (0, 0)

end

/-- The Writes `ws` and the header that was sent after them agree with each other, with the
call and with what the client makes of the header. -/
structure ReplyAgrees (k : PageSizes) (m : RqArg)
    (h : TransportHeader k.maxBytesSpecialSeg k.maxBytesWriteSeg) (xdr : RqRes)
    (header : List Nat) (ws : List Write) : Prop where
  wrote : Wrote h.target (h.payload k xdr) ws
  reported : ∃ credits proc, header = m.word 0 :: m.word 1 :: credits :: proc ::
    h.replyLists ((List.range h.target.length).map (Fill.amount (ws.map Write.piece)))
  no_longer : 4 * header.length ≤ (svcRdmaXdrDecodeReq k m).val.1
  decoded : ∀ rest, decodeChunkLists (header.drop 4 ++ rest) =
    some ((h.received (h.payload k xdr).length).1, (h.received (h.payload k xdr).length).2, rest)

/-- What the server and the client rely on for the reply `xdr` to the call `m` with the header
`h`, whatever the state of memory, device and connection. -/
structure ReplyAgreement (k : PageSizes) (m : RqArg)
    (h : TransportHeader k.maxBytesSpecialSeg k.maxBytesWriteSeg) (xdr : RqRes) : Prop where
  e2big : ∀ env resp, svcRdmaSendto k env m.words resp xdr = .failed e2BIG →
    (segLengths h.target).sum < (h.payload k xdr).length
  exceeds : ∀ env resp, env.Ample → (segLengths h.target).sum < (h.payload k xdr).length →
    svcRdmaSendto k env m.words resp xdr = .failed e2BIG
  fits : ∀ env resp, env.Ample → (h.payload k xdr).length ≤ (segLengths h.target).sum →
    ∃ header ws, svcRdmaSendto k env m.words resp xdr = .sent header ws
  ends : ∀ env resp, svcRdmaSendto k env m.words resp xdr ≠ .fault ∧
    svcRdmaSendto k env m.words resp xdr ≠ .hang
  agrees : ∀ env resp header ws, svcRdmaSendto k env m.words resp xdr = .sent header ws →
    ReplyAgrees k m h xdr header ws

/-- Memory for everything, and every entry mapped on its own. -/
def RwEnv.plain : RwEnv where
  sendCtxt := true
  writeInfo := true
  rwCtxt _ := true
  dmaMapSg := id
  initWrs := some
  post _ := .posted
  replyMsg := true
  fcCredits := 32
  merges lens := by
    refine .inr ⟨lens.map fun n => [n], by simp, ?_, ?_⟩
    · induction lens with
      | nil => rfl
      | cons n lens ih => simpa using ih
    · simp [Function.comp_def]

theorem RwEnv.plain_ample : RwEnv.plain.Ample where
  sendCtxt := rfl
  writeInfo := rfl
  rwCtxt _ := rfl
  dmaMapSg _ h := h
  initWrs _ := by simp [RwEnv.plain]
  post _ := rfl
  replyMsg := rfl

section

variable {k : PageSizes} {m : RqArg}
  {h : TransportHeader k.maxBytesSpecialSeg k.maxBytesWriteSeg} {xdr : RqRes}

/-- From the outcome of writing the chunk to that of the reply: `finish n` is the send buffer
once `n` bytes are reported. -/
theorem replyAgreement_iff_of_written
    (hsend : ∀ env resp, ∃ (r : _) (finish : Nat → List Nat),
    Written env h.target (h.payload k xdr) r ∧
      sendChunks k env m.words resp xdr = (do
        let p ← r
        if p.1 < 0 then .error (.code p.1) else .ok (finish p.1.toNat, p.2)) ∧
      ∀ ws, Wrote h.target (h.payload k xdr) ws → ReplyAgrees k m h xdr
        ((finish (h.payload k xdr).length).take
          (svcRdmaReplyHdrLen (finish (h.payload k xdr).length) / 4)) ws) :
    ReplyAgreement k m h xdr ↔ Clean h.target (h.payload k xdr).length := by
  constructor
  · intro ha
    by_contra hd
    obtain ⟨r, finish, hr, hchunks, -⟩ := hsend .plain []
    have hfault : svcRdmaSendto k .plain m.words [] xdr = .fault := by
      unfold svcRdmaSendto
      rw [hchunks, hr.dirty hd RwEnv.plain_ample]
      rfl
    exact (ha.ends .plain []).1 hfault
  · intro hc
    have hcases : ∀ env resp, (∃ c, svcRdmaSendto k env m.words resp xdr = .failed c ∧
          (c = e2BIG → (segLengths h.target).sum < (h.payload k xdr).length) ∧
          (env.Ample → (segLengths h.target).sum < (h.payload k xdr).length ∧ c = e2BIG)) ∨
        (∃ header ws, svcRdmaSendto k env m.words resp xdr = .sent header ws ∧
          (h.payload k xdr).length ≤ (segLengths h.target).sum ∧
          ReplyAgrees k m h xdr header ws) := by
      intro env resp
      obtain ⟨r, finish, hr, hchunks, hagree⟩ := hsend env resp
      unfold svcRdmaSendto
      by_cases hctxt : env.sendCtxt = true
      case neg =>
        exact .inl ⟨eNOMEM, by simp [hctxt], fun hbig => absurd hbig (by decide),
          fun ha => absurd ha.sendCtxt hctxt⟩
      rw [if_pos hctxt, hchunks]
      cases hrv : r with
      | error e =>
        rw [hrv] at hr
        obtain ⟨c, rfl, hbig⟩ := hr.code hc e rfl
        refine .inl ⟨c, rfl, hbig, fun ha => ?_⟩
        by_cases hlt : (segLengths h.target).sum < (h.payload k xdr).length
        · have := hr.big hc ha hlt
          simp only [Except.error.injEq, Abort.code.injEq] at this
          exact ⟨hlt, this⟩
        · obtain ⟨_, _, hok⟩ := hr.fits hc ha (Nat.not_lt.mp hlt)
          cases hok
      | ok p =>
        obtain ⟨ret, ws⟩ := p
        obtain ⟨rfl, hw⟩ := hr.ok hc ret ws hrv
        have hdone : (do
            let p ← (.ok (((h.payload k xdr).length : Int), ws) : Except Abort (Int × List Write))
            if p.1 < 0 then .error (.code p.1) else .ok (finish p.1.toNat, p.2)) =
            (.ok (finish (h.payload k xdr).length, ws) : Except Abort
              (List Nat × List Write)) := rfl
        rw [hdone]
        by_cases hmsg : env.replyMsg = true
        case neg =>
          exact .inl ⟨eNOTCONN, by simp [hmsg], fun hbig => absurd hbig (by decide),
            fun ha => absurd ha.replyMsg hmsg⟩
        exact .inr ⟨_, ws, by simp [hmsg], hw.fits, hagree ws hw⟩
    constructor
    · intro env resp hout
      rcases hcases env resp with ⟨c, hf, hbig, -⟩ | ⟨header, ws, hs, -⟩
      · rw [hout] at hf
        cases hf
        exact hbig rfl
      · rw [hout] at hs
        cases hs
    · intro env resp ha hlt
      rcases hcases env resp with ⟨c, hf, -, hbig⟩ | ⟨header, ws, -, hle, -⟩
      · rw [hf, (hbig ha).2]
      · omega
    · intro env resp ha hle
      rcases hcases env resp with ⟨c, -, -, hbig⟩ | ⟨header, ws, hs, -⟩
      · have := (hbig ha).1
        omega
      · exact ⟨header, ws, hs⟩
    · intro env resp
      rcases hcases env resp with ⟨c, hf, -⟩ | ⟨header, ws, hs, -⟩
      · rw [hf]
        exact ⟨by simp, by simp⟩
      · rw [hs]
        exact ⟨by simp, by simp⟩
    · intro env resp header ws hout
      rcases hcases env resp with ⟨c, hf, -⟩ | ⟨header', ws', hs, -, hagree⟩
      · rw [hout] at hf
        cases hf
      · rw [hout] at hs
        cases hs
        exact hagree

/-! ## The three kinds of calls -/

theorem length_flatMap_encode {maxSeg : Nat} (es : List (ReadSegment maxSeg)) :
    (es.flatMap ReadSegment.encode).length = 6 * es.length := by
  induction es with
  | nil => rfl
  | cons e es ih =>
    simp only [flatMap_cons, length_append, ih, ReadSegment.encode, length_cons,
      length_nil]
    omega

theorem RqArg.length_words_lt (m : RqArg) : m.words.length < 2 ^ 29 := by
  have := m.len_lt
  simp only [RqArg.words, length_map, length_range]
  omega

theorem Wrote.sum_amounts {segs : List RdmaSegment} {payload : List UInt8} {ws : List Write}
    (h : Wrote segs payload ws) :
    (segLengths (refill segs
      ((List.range segs.length).map (Fill.amount (ws.map Write.piece))))).sum = payload.length := by
  rw [segLengths_refill (by simp), h.amounts, Fill.sum_fill]
  exact Nat.min_eq_left h.fits

variable {rest : List Nat}

/-- The read list is skipped. -/
theorem svcRdmaGetWriteArrays_eq (hh : m.words = h.encode ++ rest) :
    svcRdmaGetWriteArrays m.words =
      let p := h.writeList.flatMap Chunk.encode ++ 0 :: (encodeReply h.replyChunk ++ rest)
      let reply := skipChunks p.length p
      (if p.getD 0 0 = 0 then none else some p,
        if reply.getD 0 0 = 0 then none else some reply) := by
  have hdrop : m.words.drop 4 = h.readList.flatMap ReadSegment.encode ++
      0 :: (h.writeList.flatMap Chunk.encode ++ 0 :: (encodeReply h.replyChunk ++ rest)) := by
    rw [(IsHeaderOf.isCall hh).2]
    simp [encodeLists]
  have hfuel : h.readList.length < m.words.length := by
    rw [hh]
    simp only [TransportHeader.encode, encodeLists, length_append, length_cons,
      length_flatMap_encode]
    omega
  unfold svcRdmaGetWriteArrays
  rw [hdrop, skipReadList_encode _ _ hfuel]

theorem getD_words (hc : m.IsCall) : m.words.getD 0 0 = m.word 0 ∧ m.words.getD 1 0 = m.word 1 := by
  rw [RqArg.words_eq_of_long hc.1]
  exact ⟨rfl, rfl⟩

/-- The value returned for the call is the length of its header. -/
theorem decodeReq_eq_length (hh : m.words = h.encode ++ rest) :
    (svcRdmaXdrDecodeReq k m).val.1 = 4 * h.encode.length := by
  have hd := decodesHeader_of_complete (IsHeaderOf.isCall hh).1 (IsHeaderOf.walk hh)
    h.one_write_chunk
  exact hd.length h (hd.accepts.mpr ⟨h, rest, hh⟩) ⟨rest, hh⟩

theorem replyAgreement_write (hh : m.words = h.encode ++ rest) {c : Chunk k.maxBytesWriteSeg}
    (hw : h.writeList = [c]) (hr : h.replyChunk = none) :
    ReplyAgreement k m h xdr ↔ Clean h.target (h.payload k xdr).length := by
  have htarget : h.target = c.rdma := by simp [TransportHeader.target, hw]
  have hpayload : h.payload k xdr = xdr.pageBytes k := by simp [TransportHeader.payload, hw]
  have hfit : SegsFit c.rdma := c.segsFit (U32.wrap_lt _)
  have henc : h.encode.length = 9 + 6 * h.readList.length + 4 * c.rdma.length := by
    simp only [TransportHeader.encode, encodeLists, hw, hr, length_cons, length_append,
      length_flatMap_encode, flatMap_cons, flatMap_nil, append_nil, Chunk.encode_eq,
      length_segmentWords, encodeReply, length_nil]
    omega
  have hlen : c.rdma.length * 4 < 2 ^ 32 := by
    have := m.length_words_lt
    rw [hh, length_append, henc] at this
    omega
  have harrays : svcRdmaGetWriteArrays m.words =
      (some (c.mark :: c.rdma.length :: (segmentWords c.rdma ++ 0 :: 0 :: rest)), none) := by
    rw [svcRdmaGetWriteArrays_eq hh]
    simp [hw, hr, Chunk.encode_eq, c.mark_ne, encodeReply, skipChunks_chunk c.mark_ne c.rdma _ hlen,
      skipChunks_zero]
  apply replyAgreement_iff_of_written
  intro env resp
  set fixed := [m.words.getD 0 0, m.words.getD 1 0, env.fcCredits, 0, 0] with hfixed
  have hwritten := svcRdmaSendWriteChunk_written k env hfit c.mark (0 :: 0 :: rest)
    xdr
  rw [← htarget, ← hpayload] at hwritten
  refine ⟨_, fun n => svcRdmaXdrEncodeWriteList (fixed ++ 0 :: 0 :: resp.drop 7)
    (c.mark :: c.rdma.length :: (segmentWords c.rdma ++ 0 :: 0 :: rest)) n, hwritten, ?_, ?_⟩
  · rw [htarget]
    simp only [sendChunks, harrays, Option.isSome_none]
    cases svcRdmaSendWriteChunk k env
      (c.mark :: c.rdma.length :: (segmentWords c.rdma ++ 0 :: 0 :: rest)) xdr with
    | error e => rfl
    | ok p =>
      simp only [Bind.bind, Except.bind]
      split
      next => rfl
      next => rfl
  · intro ws hws
    have hn : (h.payload k xdr).length < 2 ^ 32 := by
      have := xdr.len_lt
      rw [hpayload, RqRes.pageBytes_eq, RqRes.length_bytesFrom]
      omega
    obtain ⟨junk, hresp⟩ := svcRdmaXdrEncodeWriteList_eq fixed rfl c.mark_ne c.rdma hlen
      (0 :: 0 :: resp.drop 7) (0 :: rest) hn
    have hamounts := hws.amounts
    have hsum := hws.sum_amounts
    rw [htarget] at hamounts hsum
    rw [hamounts] at hsum
    set segs := refill c.rdma (Fill.fill (segLengths c.rdma) (h.payload k xdr).length) with hsegs
    have hseglen : segs.length = c.rdma.length := length_refill (by simp)
    dsimp only
    rw [hresp, ← hseglen, svcRdmaReplyHdrLen_write fixed rfl c.mark_ne segs junk
      (by rw [hseglen]; exact hlen)]
    have htake : (fixed ++ c.mark :: segs.length :: (segmentWords segs ++ 0 :: 0 :: junk)).take
        (4 * (9 + 4 * segs.length) / 4) =
        fixed ++ c.mark :: segs.length :: (segmentWords segs ++ [0, 0]) := by
      have hsplit : fixed ++ c.mark :: segs.length :: (segmentWords segs ++ 0 :: 0 :: junk) =
          (fixed ++ c.mark :: segs.length :: (segmentWords segs ++ [0, 0])) ++ junk := by simp
      rw [hsplit]
      apply take_left'
      simp only [hfixed, length_append, length_cons, length_nil, length_segmentWords]
      omega
    rw [htake]
    obtain ⟨h0, h1⟩ := getD_words (IsHeaderOf.isCall hh).1
    refine ⟨hws, ⟨env.fcCredits, 0, ?_⟩, ?_, fun tl => ?_⟩
    · rw [htarget, hamounts, hseglen, hfixed, h0, h1]
      simp [TransportHeader.replyLists, hw, hsegs]
    · rw [decodeReq_eq_length hh, henc]
      simp only [hfixed, length_append, length_cons, length_nil, length_segmentWords]
      omega
    · have hd := Xprtrdma.decodeChunkLists_write c.mark_ne segs tl
        (by rw [← segLengths, hsum]; exact hn)
      rw [← segLengths, hsum] at hd
      simpa [hfixed, TransportHeader.received, hw] using hd

theorem replyAgreement_reply (hh : m.words = h.encode ++ rest) {c : Chunk k.maxBytesSpecialSeg}
    (hw : h.writeList = []) (hr : h.replyChunk = some c) :
    ReplyAgreement k m h xdr ↔ Clean h.target (h.payload k xdr).length := by
  have htarget : h.target = c.rdma := by simp [TransportHeader.target, hw, hr]
  have hpayload : h.payload k xdr = xdr.head ++ xdr.pageBytes k ++ xdr.tail := by
    simp [TransportHeader.payload, hw, hr]
  have hfit : SegsFit c.rdma := c.segsFit (U32.wrap_lt _)
  have henc : h.encode.length = 8 + 6 * h.readList.length + 4 * c.rdma.length := by
    simp only [TransportHeader.encode, encodeLists, hw, hr, length_cons, length_append,
      length_flatMap_encode, flatMap_nil, Chunk.encode_eq, length_segmentWords, encodeReply,
      length_nil]
    omega
  have hlen : c.rdma.length * 4 < 2 ^ 32 := by
    have := m.length_words_lt
    rw [hh, length_append, henc] at this
    omega
  have harrays : svcRdmaGetWriteArrays m.words =
      (none, some (c.mark :: c.rdma.length :: (segmentWords c.rdma ++ rest))) := by
    rw [svcRdmaGetWriteArrays_eq hh]
    simp [hw, hr, Chunk.encode_eq, c.mark_ne, encodeReply, skipChunks_zero]
  apply replyAgreement_iff_of_written
  intro env resp
  set fixed := [m.words.getD 0 0, m.words.getD 1 0, env.fcCredits, 1, 0] with hfixed
  have hwritten := svcRdmaSendReplyChunk_written k env hfit c.mark rest xdr
  rw [← htarget, ← hpayload] at hwritten
  refine ⟨_, fun n => svcRdmaXdrEncodeReplyChunk (fixed ++ 0 :: 0 :: resp.drop 7)
    (c.mark :: c.rdma.length :: (segmentWords c.rdma ++ rest)) n, hwritten, ?_, ?_⟩
  · rw [htarget]
    simp only [sendChunks, harrays, Option.isSome_none]
    cases svcRdmaSendReplyChunk k env
      (c.mark :: c.rdma.length :: (segmentWords c.rdma ++ rest)) false xdr with
    | error e => rfl
    | ok p => rfl
  · intro ws hws
    have hn : (h.payload k xdr).length < 2 ^ 32 := by
      have := xdr.len_lt
      rw [hpayload, length_append, length_append, RqRes.pageBytes_eq,
        RqRes.length_bytesFrom]
      omega
    obtain ⟨junk, hresp⟩ := svcRdmaXdrEncodeReplyChunk_eq fixed rfl c.mark c.rdma
      (0 :: resp.drop 7) rest hn
    have hamounts := hws.amounts
    have hsum := hws.sum_amounts
    rw [htarget] at hamounts hsum
    rw [hamounts] at hsum
    set segs := refill c.rdma (Fill.fill (segLengths c.rdma) (h.payload k xdr).length) with hsegs
    have hseglen : segs.length = c.rdma.length := length_refill (by simp)
    dsimp only
    rw [hresp, ← hseglen, svcRdmaReplyHdrLen_reply fixed rfl c.mark_ne segs junk
      (by rw [hseglen]; exact hlen)]
    have htake : (fixed ++ 0 :: c.mark :: segs.length :: (segmentWords segs ++ junk)).take
        (4 * (8 + 4 * segs.length) / 4) =
        fixed ++ 0 :: c.mark :: segs.length :: segmentWords segs := by
      have hsplit : fixed ++ 0 :: c.mark :: segs.length :: (segmentWords segs ++ junk) =
          (fixed ++ 0 :: c.mark :: segs.length :: segmentWords segs) ++ junk := by simp
      rw [hsplit]
      apply take_left'
      simp only [hfixed, length_append, length_cons, length_nil, length_segmentWords]
      omega
    rw [htake]
    obtain ⟨h0, h1⟩ := getD_words (IsHeaderOf.isCall hh).1
    refine ⟨hws, ⟨env.fcCredits, 1, ?_⟩, ?_, fun tl => ?_⟩
    · rw [htarget, hamounts, hseglen, hfixed, h0, h1]
      simp [TransportHeader.replyLists, hw, hr, hsegs]
    · rw [decodeReq_eq_length hh, henc]
      simp only [hfixed, length_append, length_cons, length_nil, length_segmentWords]
      omega
    · have hd := Xprtrdma.decodeChunkLists_reply c.mark_ne segs tl
        (by rw [← segLengths, hsum]; exact hn)
      rw [← segLengths, hsum] at hd
      simpa [hfixed, TransportHeader.received, hw, hr] using hd

theorem replyAgreement_none (hh : m.words = h.encode ++ rest) (hw : h.writeList = [])
    (hr : h.replyChunk = none) :
    ReplyAgreement k m h xdr ↔ Clean h.target (h.payload k xdr).length := by
  have hpayload : h.payload k xdr = [] := by simp [TransportHeader.payload, hw, hr]
  have harrays : svcRdmaGetWriteArrays m.words = (none, none) := by
    rw [svcRdmaGetWriteArrays_eq hh]
    simp [hw, hr, encodeReply, skipChunks_zero]
  apply replyAgreement_iff_of_written
  intro env resp
  set fixed := [m.words.getD 0 0, m.words.getD 1 0, env.fcCredits, 0, 0] with hfixed
  have hstart := building_start h.target rfl []
  refine ⟨.ok (0, []), fun _ => fixed ++ 0 :: 0 :: resp.drop 7, ?_, ?_, ?_⟩
  · rw [hpayload]
    refine ⟨fun _ => ?_, fun _ e he => (by cases he), fun _ _ hlt => absurd hlt (Nat.not_lt_zero _),
      fun _ _ _ => ⟨0, [], rfl⟩, fun hd => absurd hstart.clean hd⟩
    rintro _ _ ⟨⟩
    exact ⟨rfl, hstart.wrote⟩
  · simp only [sendChunks, harrays]
    rfl
  · intro ws hws
    have hlenresp : svcRdmaReplyHdrLen (fixed ++ 0 :: 0 :: resp.drop 7) = 28 := by
      simp [svcRdmaReplyHdrLen, hfixed, skipChunks_zero]
      omega
    rw [hlenresp]
    obtain ⟨h0, h1⟩ := getD_words (IsHeaderOf.isCall hh).1
    have htake : (fixed ++ 0 :: 0 :: resp.drop 7).take (28 / 4) = fixed ++ [0, 0] := by
      simp [hfixed]
    rw [htake]
    refine ⟨hws, ⟨env.fcCredits, 0, ?_⟩, ?_, fun tl => ?_⟩
    · rw [hfixed, h0, h1]
      simp [TransportHeader.replyLists, hw, hr]
    · rw [decodeReq_eq_length hh]
      have := h.seven_le
      simp only [hfixed, length_append, length_cons, length_nil]
      omega
    · simp [hfixed, TransportHeader.received, hw, hr, decodeChunkLists, Xprtrdma.decodeReadList,
        Xprtrdma.decodeWriteList, Xprtrdma.decodeReplyChunk]

end

/-- Every accepted call has a header, unless it has two write chunks; and if it offers one kind of
chunk, server and client agree exactly when no segment of length zero comes before the end of what
is written. -/
theorem reply_agreement_iff_clean (k : PageSizes) (m : RqArg) (xdr : RqRes)
    (haccepted : 0 < (svcRdmaXdrDecodeReq k m).val.1) :
    ((∃ h, IsHeaderOf k m h) ∨ ∃ rest, m.walk k = .complete (2, rest)) ∧
      ∀ h, IsHeaderOf k m h → (h.writeList = [] ∨ h.replyChunk = none) →
        (ReplyAgreement k m h xdr ↔ Clean h.target (h.payload k xdr).length) := by
  constructor
  · obtain ⟨hc, n, rest, hwalk⟩ := walk_of_accepted haccepted
    obtain ⟨-, -, -, -, -, hle, -⟩ := lists_of_walk hwalk
    by_cases hn : n ≤ 1
    · obtain ⟨h, hh⟩ := hc.header_of_walk hwalk hn
      exact .inl ⟨h, rest, hh⟩
    · obtain rfl : n = 2 := by omega
      exact .inr ⟨rest, hwalk⟩
  · rintro h ⟨rest, hh⟩ hone
    have hwrites := h.one_write_chunk
    match hw : h.writeList, hr : h.replyChunk with
    | [], none => exact replyAgreement_none hh hw hr
    | [], some c => exact replyAgreement_reply hh hw hr
    | [c], none => exact replyAgreement_write hh hw hr
    | _ :: _, some _ => simp [hw, hr] at hone
    | _ :: _ :: _, none =>
      rw [hw] at hwrites
      simp at hwrites

/-- A call that offers a write chunk of two segments, with `n` bytes and with 4096 bytes. -/
def writeCall (n : Nat) : RqArg where
  word i := [0, 1, 0, 0, 0, 1, 2, 7, n, 0, 0, 8, 4096, 0, 0, 0, 0].getD i 0
  len := 68
  iovLen := 68
  len_lt := by decide

/-- Pages of 4 KiB, and room for 1 MiB. -/
def smallPages : PageSizes := ⟨259, 12⟩

theorem smallPages_maxBytesWriteSeg : smallPages.maxBytesWriteSeg = 1060864 := by decide +kernel

theorem one_chunk : 1 ≤ 1 := Nat.le_refl 1

def writeHeader (n : Nat) (hn : n ≤ 1) :
    TransportHeader smallPages.maxBytesSpecialSeg smallPages.maxBytesWriteSeg where
  xid := 0
  credits := 0
  nomsg := false
  readList := []
  writeList := [⟨1, [⟨7, n, 0, 0, by rw [smallPages_maxBytesWriteSeg]; omega⟩,
    ⟨8, 4096, 0, 0, by rw [smallPages_maxBytesWriteSeg]; omega⟩], by decide⟩]
  replyChunk := none
  same_position := ⟨0, by simp⟩
  one_write_chunk := one_chunk

def twoByteReply : RqRes where
  head := [0]
  pages _ i := if i = 0 then 11 else 22
  pageBase := 0
  pageLen := 2
  tail := []
  head_ne := by decide
  len_lt := by decide
  base_lt := by decide

/-- The first segment takes one byte, the second the other. -/
theorem reply_agreement_two_segments :
    0 < (svcRdmaXdrDecodeReq smallPages (writeCall 1)).val.1 ∧
      ReplyAgreement smallPages (writeCall 1) (writeHeader 1 (by decide)) twoByteReply := by
  have haccepted : 0 < (svcRdmaXdrDecodeReq smallPages (writeCall 1)).val.1 := by decide +kernel
  refine ⟨haccepted, ((reply_agreement_iff_clean smallPages (writeCall 1) twoByteReply
    haccepted).2 _ ⟨[], by decide +kernel⟩ (.inr rfl)).mpr ?_⟩
  intro j hj hzero
  match j, hj, hzero with
  | 0, _, hzero => exact absurd hzero (by decide)
  | 1, _, hzero => exact absurd hzero (by decide)

/-- The second segment has room for the reply, but the first one is empty: the server never gets
to the second one. -/
theorem reply_agreement_breaks :
    0 < (svcRdmaXdrDecodeReq smallPages (writeCall 0)).val.1 ∧
      IsHeaderOf smallPages (writeCall 0) (writeHeader 0 (by decide)) ∧
      svcRdmaSendto smallPages .plain (writeCall 0).words [] twoByteReply = .fault ∧
      ¬ ReplyAgreement smallPages (writeCall 0) (writeHeader 0 (by decide)) twoByteReply := by
  have hfault : svcRdmaSendto smallPages .plain (writeCall 0).words [] twoByteReply = .fault := by
    decide +kernel
  exact ⟨by decide +kernel, ⟨[], by decide +kernel⟩, hfault, fun h => (h.ends .plain []).1 hfault⟩

end Svcrdma
