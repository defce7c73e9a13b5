-- SUMMARY: `svc_rdma_build_writes` fills the segments of a chunk front to back.
import OfaKernel.Lib.Fill
import OfaKernel.Svcrdma.SendReply
import OfaKernel.Xprtrdma.DecodeReply

/-!
# Building the Writes of a chunk

One round of `svc_rdma_build_writes` puts a piece into the current segment; a segment of length
zero makes it end in a fault.
-/

open List

namespace Svcrdma

open Xprtrdma (RdmaSegment segmentWords segmentWords_nil segmentWords_cons length_segmentWords)

/-! ## Segments -/

def segLengths (segs : List RdmaSegment) : List Nat := segs.map RdmaSegment.length

@[simp] theorem length_segLengths (segs : List RdmaSegment) :
    (segLengths segs).length = segs.length := by
  simp [segLengths]

theorem drop_segmentWords (segs : List RdmaSegment) (rest : List Nat) {i : Nat}
    (hi : i < segs.length) :
    (segmentWords segs ++ rest).drop (4 * i) =
      segs[i].handle :: segs[i].length :: segs[i].offsetHi :: segs[i].offsetLo ::
        (segmentWords (segs.drop (i + 1)) ++ rest) := by
  induction segs generalizing i with
  | nil => simp at hi
  | cons s segs ih =>
    cases i with
    | zero => simp
    | succ i =>
      have hmul : 4 * (i + 1) = 4 * i + 4 := by omega
      rw [segmentWords_cons, hmul]
      simpa using ih (by simpa using hi)

/-- A scatterlist of a single empty entry cannot be initialised. -/
theorem rdmaRwCtxInit_empty (env : RwEnv) (entries : Nat) :
    rdmaRwCtxInit env entries [0] = .error (.code eNOMEM) ∨
      rdmaRwCtxInit env entries [0] = .error .fault := by
  have hskip : ∀ n cnt, skipSg 0 cnt (List.replicate n 0) = none := by
    intro n
    induction n with
    | zero => simp [skipSg]
    | succ n ih => simp [replicate_succ, skipSg, ih]
  rcases env.merges [0] with h | ⟨runs, hne, hflat, h⟩
  · exact .inl (by simp [rdmaRwCtxInit, h])
  · have hruns : runs = [[0]] := by
      match runs, hne, hflat with
      | [] :: _, hne, _ => simp at hne
      | (a :: run) :: runs, hne, hflat =>
        simp only [flatten_cons, cons_append, List.cons.injEq, append_eq_nil_iff]
          at hflat
        obtain ⟨rfl, rfl, hruns⟩ := hflat
        cases runs with
        | nil => rfl
        | cons r runs =>
          simp only [flatten_cons, append_eq_nil_iff] at hruns
          simp [hruns.1] at hne
    have hdma : env.dmaMapSg [0] = [0] := by simp [h, hruns]
    simp [rdmaRwCtxInit, hdma, skipSg, hskip]

theorem RwEnv.Ample.rdmaRwCtxInit_empty {env : RwEnv} (h : env.Ample) (entries : Nat) :
    rdmaRwCtxInit env entries [0] = .error .fault := by
  have hne := h.dmaMapSg [0] (by simp)
  rcases Svcrdma.rdmaRwCtxInit_empty env entries with hr | hr
  · simp only [rdmaRwCtxInit, hne, ↓reduceIte] at hr
    split at hr
    · cases hr
    · simp [eNOMEM, eIO] at hr
    · split at hr
      · simp [eNOMEM, eIO] at hr
      · cases hr
  · exact hr

/-- Without empty entries the context is initialised, unless something is refused. -/
theorem rdmaRwCtxInit_nonempty (env : RwEnv) (entries : Nat) (sgl : List Nat)
    (hne : sgl ≠ []) (hpos : 0 ∉ sgl) :
    (∃ wqes, rdmaRwCtxInit env entries sgl = .ok wqes) ∨
      (¬ env.Ample ∧ ∃ c, rdmaRwCtxInit env entries sgl = .error (.code c)) := by
  rcases env.merges sgl with h | ⟨runs, hrun, hflat, h⟩
  · refine .inr ⟨fun ha => ha.dmaMapSg _ hne h, eNOMEM, ?_⟩
    simp [rdmaRwCtxInit, h]
  · -- the first DMA entry holds the first entry of the scatterlist
    obtain ⟨d, ds, hd, hdpos⟩ : ∃ d ds, env.dmaMapSg sgl = d :: ds ∧ 0 < d := by
      match sgl, runs, hne, hrun, hflat with
      | _ :: _, [] :: _, _, hrun, _ => simp at hrun
      | sg :: sgl, (a :: run) :: runs, _, _, hflat =>
        simp only [flatten_cons, cons_append, List.cons.injEq] at hflat
        have hsg : sg ≠ 0 := by
          rintro rfl
          simp at hpos
        refine ⟨_, _, by rw [h, map_cons], ?_⟩
        simp only [sum_cons]
        omega
    cases hw : env.initWrs (ds.length + 1) with
    | none =>
      exact .inr ⟨fun ha => ha.initWrs _ hw, eIO, by simp [rdmaRwCtxInit, hd, skipSg, hdpos, hw]⟩
    | some wqes => exact .inl ⟨wqes, by simp [rdmaRwCtxInit, hd, skipSg, hdpos, hw]⟩

/-! ## Constructors -/

/-- A constructor that takes its bytes from a source: `Left info bytes` says what is left of
the source. Only the fields `base` and `nextOff` tell the place. -/
structure Feeds (k : PageSizes) (constructor : SgConstructor)
    (Left : List UInt8 → Nat → List UInt8 → Prop) : Prop where
  take : ∀ {info : WriteInfo} {left : List UInt8} {n : Nat}, Left info.base info.nextOff left →
    n ≤ left.length → ∃ sgl base nextOff,
      constructor info n (n / k.pageSize + 2) = some (sgl, { info with base, nextOff }) ∧
      sgl.flatten = left.take n ∧ (if n = 0 then sgl = [[]] else [] ∉ sgl) ∧
      Left base nextOff (left.drop n)

theorem svcRdmaVecToSg_feeds (k : PageSizes) :
    Feeds k svcRdmaVecToSg fun base _ left => base = left where
  take := by
    rintro info left n rfl hn
    refine ⟨_, _, info.nextOff, rfl, by simp, ?_, rfl⟩
    split
    case isTrue h => simp [h]
    case isFalse h =>
      simp only [mem_singleton]
      intro hnil
      have := congrArg List.length hnil
      simp only [length_nil, length_take] at this
      omega

theorem PageSizes.pageSize_pos (k : PageSizes) : 0 < k.pageSize := Nat.two_pow_pos _

/-- The bytes of the page list from `start` on. -/
def RqRes.bytesFrom (k : PageSizes) (xdr : RqRes) (start n : Nat) : List UInt8 :=
  (List.range n).map fun i => xdr.pages ((start + i) / k.pageSize) ((start + i) % k.pageSize)

@[simp] theorem RqRes.length_bytesFrom (k : PageSizes) (xdr : RqRes) (start n : Nat) :
    (xdr.bytesFrom k start n).length = n := by
  simp [bytesFrom]

theorem RqRes.bytesFrom_eq_nil {k : PageSizes} {xdr : RqRes} {start n : Nat} :
    xdr.bytesFrom k start n = [] ↔ n = 0 := by
  rw [← length_eq_zero_iff, length_bytesFrom]

theorem RqRes.bytesFrom_add (k : PageSizes) (xdr : RqRes) (start a b : Nat) :
    xdr.bytesFrom k start (a + b) = xdr.bytesFrom k start a ++ xdr.bytesFrom k (start + a) b := by
  simp [bytesFrom, range_add, Nat.add_assoc]

/-- The loop over the pages, started inside a page: its entries are enough for the pages that
the bytes touch. -/
theorem pagelistLoop_spec (k : PageSizes) (xdr : RqRes) (page : Nat)
    {entries pageOff remaining : Nat} (hoff : pageOff < k.pageSize)
    (hent : pageOff + remaining < entries * k.pageSize + 1)
    (hpos : 0 < entries) :
    ∃ sgl, pagelistLoop k xdr entries page pageOff remaining = some sgl ∧
      sgl.flatten = xdr.bytesFrom k (page * k.pageSize + pageOff) remaining ∧
      (if remaining = 0 then sgl = [[]] else [] ∉ sgl) := by
  have hsize := k.pageSize_pos
  induction entries generalizing page pageOff remaining with
  | zero => omega
  | succ entries ih =>
    -- the part of this page
    have hpart : ∀ n, pageOff + n ≤ k.pageSize →
        ((List.range n).map fun i => xdr.pages page (pageOff + i)) =
          xdr.bytesFrom k (page * k.pageSize + pageOff) n := by
      intro n hn
      apply map_congr_left
      intro i hi
      have hlt : pageOff + i < k.pageSize := by
        have := mem_range.mp hi
        omega
      rw [Nat.add_assoc, Nat.mul_comm, Nat.mul_add_div hsize, Nat.div_eq_of_lt hlt,
        Nat.mul_add_mod, Nat.mod_eq_of_lt hlt, Nat.add_zero]
    rw [pagelistLoop]
    by_cases hlast : pageOff + remaining ≤ k.pageSize
    · have hmin : min remaining (k.pageSize - pageOff) = remaining := by omega
      rw [hmin, Nat.sub_self, if_pos rfl, hpart _ hlast]
      refine ⟨_, rfl, by simp, ?_⟩
      split
      case isTrue h => rw [RqRes.bytesFrom_eq_nil.mpr h]
      case isFalse h =>
        rw [mem_singleton, eq_comm, RqRes.bytesFrom_eq_nil]
        exact h
    · have hmin : min remaining (k.pageSize - pageOff) = k.pageSize - pageOff := by omega
      have hmul : (entries + 1) * k.pageSize = entries * k.pageSize + k.pageSize := by
        rw [Nat.add_mul, Nat.one_mul]
      have hent0 : 0 < entries := by
        rcases Nat.eq_zero_or_pos entries with rfl | h
        · omega
        · exact h
      obtain ⟨sgl, hsgl, hbytes, hne⟩ := @ih (page + 1) 0
        (remaining - (k.pageSize - pageOff)) hsize (by omega) hent0
      rw [if_neg (by omega)] at hne
      rw [hmin, if_neg (by omega), hsgl, hpart _ (by omega)]
      refine ⟨_, rfl, ?_, ?_⟩
      · have hstart : page * k.pageSize + pageOff + (k.pageSize - pageOff) =
            (page + 1) * k.pageSize + 0 := by
          rw [Nat.add_mul, Nat.one_mul]
          omega
        have hsplit : remaining =
          (k.pageSize - pageOff) + (remaining - (k.pageSize - pageOff)) := by
          omega
        rw [flatten_cons, hbytes, ← hstart, ← RqRes.bytesFrom_add, ← hsplit]
      · rw [if_neg (by omega)]
        simp only [mem_cons, not_or]
        refine ⟨?_, hne⟩
        rw [eq_comm, RqRes.bytesFrom_eq_nil]
        omega

/-- What is left of the page list once `nextOff` bytes were taken. -/
def PagesLeft (k : PageSizes) (xdr : RqRes) (nextOff : Nat) (left : List UInt8) : Prop :=
  nextOff ≤ xdr.pageLen ∧ left = xdr.bytesFrom k (xdr.pageBase + nextOff) (xdr.pageLen - nextOff)

theorem svcRdmaPagelistToSg_feeds (k : PageSizes) (xdr : RqRes) :
    Feeds k (svcRdmaPagelistToSg k xdr) fun _ nextOff left => PagesLeft k xdr nextOff left where
  take := by
    rintro info left n ⟨hle, rfl⟩ hn
    have hbase := xdr.base_lt
    rw [RqRes.length_bytesFrom] at hn
    have hsize := k.pageSize_pos
    have hwrap : U32.wrap (info.nextOff + xdr.pageBase) = xdr.pageBase + info.nextOff := by
      rw [U32.wrap_of_lt (by omega), Nat.add_comm]
    have hnext : U32.wrap (info.nextOff + n) = info.nextOff + n := U32.wrap_of_lt (by omega)
    -- so many bytes touch at most two pages more than they fill
    have hent : (xdr.pageBase + info.nextOff) % k.pageSize + n <
        (n / k.pageSize + 2) * k.pageSize + 1 := by
      have h₁ := Nat.mod_lt (xdr.pageBase + info.nextOff) hsize
      have h₂ := Nat.div_add_mod n k.pageSize
      have h₃ := Nat.mod_lt n hsize
      rw [Nat.add_mul, Nat.mul_comm (n / k.pageSize)]
      omega
    obtain ⟨sgl, hsgl, hbytes, hne⟩ := pagelistLoop_spec k xdr
      ((xdr.pageBase + info.nextOff) / k.pageSize) (Nat.mod_lt _ hsize) hent
      (Nat.succ_pos _)
    have hsplit : xdr.pageLen - info.nextOff = n + (xdr.pageLen - (info.nextOff + n)) := by omega
    have hlen := xdr.length_bytesFrom k (xdr.pageBase + info.nextOff) n
    rw [Nat.mul_comm, Nat.div_add_mod] at hbytes
    refine ⟨sgl, info.base, info.nextOff + n, ?_, ?_, hne, by omega, ?_⟩
    · simp [svcRdmaPagelistToSg, hwrap, hnext, hsgl]
    · rw [hbytes, hsplit, RqRes.bytesFrom_add, take_left' hlen]
    · rw [hsplit, RqRes.bytesFrom_add, drop_left' hlen, Nat.add_assoc]

/-! ## One round -/

def Write.piece (w : Write) : Fill.Piece := ⟨w.segNo, w.segOff, w.bytes.length⟩

/-- The Write goes to the memory that its segment describes. -/
def Write.Addresses (segs : List RdmaSegment) (w : Write) : Prop :=
  ∃ s, segs[w.segNo]? = some s ∧ w.handle = s.handle ∧
    w.remoteAddr = (xdrDecodeHyper s.offsetHi s.offsetLo + w.segOff) % 2 ^ 64

/-- The Writes so far have put the bytes `done` into the segments, none of the segments that
were left behind being empty. -/
structure Building (segs : List RdmaSegment) (info : WriteInfo) (done : List UInt8) : Prop where
  nsegs : info.nsegs = segs.length
  words : ∃ rest, info.segs = segmentWords segs ++ rest
  placed : Fill.Placed (segLengths segs) (info.rwctxts.reverse.map Write.piece) info.segNo
    info.segOff
  room : info.segOff = 0 ∨ info.segOff < (segLengths segs).getD info.segNo 0
  behind : ∀ j < info.segNo, 0 < (segLengths segs).getD j 0
  addresses : ∀ w ∈ info.rwctxts, w.Addresses segs
  bytes : info.rwctxts.reverse.flatMap Write.bytes = done

theorem total_pieces (ws : List Write) :
    Fill.total (ws.map Write.piece) = (ws.flatMap Write.bytes).length := by
  induction ws with
  | nil => rfl
  | cons w ws ih =>
    rw [map_cons, ← singleton_append, Fill.total_append, Fill.total_singleton, ih]
    simp [Write.piece]

section

variable {k : PageSizes} {env : RwEnv} {segs : List RdmaSegment} {info : WriteInfo}
  {done left : List UInt8} {constructor : SgConstructor}
  {Left : List UInt8 → Nat → List UInt8 → Prop}

theorem Building.position (h : Building segs info done) :
    ((segLengths segs).take info.segNo).sum + info.segOff = done.length := by
  rw [h.placed.next, total_pieces, h.bytes]

theorem Building.of_source (h : Building segs info done) (base : List UInt8) (nextOff : Nat) :
    Building segs { info with base, nextOff } done :=
  ⟨h.nsegs, h.words, h.placed, h.room, h.behind, h.addresses, h.bytes⟩

/-- The lengths of the segments are `u32`. -/
def SegsFit (segs : List RdmaSegment) : Prop := ∀ s ∈ segs, s.length < 2 ^ 32

theorem SegsFit.getD_lt (h : SegsFit segs) (i : Nat) : (segLengths segs).getD i 0 < 2 ^ 32 := by
  by_cases hi : i < segs.length
  · simpa [segLengths, hi] using h _ (getElem_mem hi)
  · simp [Nat.not_lt.mp hi]

theorem WriteInfo.advance_full (info : WriteInfo) (w : Write) {segLength n : Nat} (wqes : Nat)
    (h : n = U32.sub segLength info.segOff) :
    info.advance w segLength n wqes =
      { info with rwctxts := w :: info.rwctxts, sqecount := info.sqecount + wqes
                  segNo := info.segNo + 1, segOff := 0 } := by
  simp [WriteInfo.advance, h]

theorem WriteInfo.advance_part (info : WriteInfo) (w : Write) {segLength n : Nat} (wqes : Nat)
    (h : n ≠ U32.sub segLength info.segOff) (hlt : info.segOff + n < 2 ^ 32) :
    info.advance w segLength n wqes =
      { info with rwctxts := w :: info.rwctxts, sqecount := info.sqecount + wqes
                  segOff := info.segOff + n } := by
  simp [WriteInfo.advance, h, U32.wrap_of_lt hlt]

/-- The next piece has been written. -/
theorem Building.advance (h : Building segs info done) (hfit : SegsFit segs)
    (hi : info.segNo < segs.length) {n : Nat} {w : Write} (hw : w.segNo = info.segNo)
    (hoff : w.segOff = info.segOff) (hlen : w.bytes.length = n) (haddr : w.Addresses segs)
    (hn : n ≤ (segLengths segs).getD info.segNo 0 - info.segOff)
    (hpos : 0 < (segLengths segs).getD info.segNo 0) (wqes : Nat) :
    Building segs (info.advance w ((segLengths segs).getD info.segNo 0) n wqes)
      (done ++ w.bytes) := by
  have hlt := hfit.getD_lt info.segNo
  have hle := h.placed.off_le
  have hsub := U32.sub_of_le hle hlt
  have hpiece : w.piece = ⟨info.segNo, info.segOff, n⟩ := by
    simp [Write.piece, hw, hoff, hlen]
  have haddr' : ∀ w' ∈ w :: info.rwctxts, w'.Addresses segs :=
    forall_mem_cons.mpr ⟨haddr, h.addresses⟩
  have hbytes : (w :: info.rwctxts).reverse.flatMap Write.bytes = done ++ w.bytes := by
    simp [h.bytes]
  have hpieces : (w :: info.rwctxts).reverse.map Write.piece =
      info.rwctxts.reverse.map Write.piece ++ [⟨info.segNo, info.segOff, n⟩] := by
    simp [hpiece]
  have hi' : info.segNo < (segLengths segs).length := by simpa using hi
  by_cases hfull : n = (segLengths segs).getD info.segNo 0 - info.segOff
  · rw [info.advance_full w wqes (hfull.trans hsub.symm)]
    refine ⟨h.nsegs, h.words, ?_, .inl rfl, ?_, haddr', hbytes⟩
    · rw [hpieces, hfull]
      exact h.placed.push_full hi'
    · intro j hj
      rcases Nat.lt_succ_iff_lt_or_eq.mp hj with hj | rfl
      · exact h.behind j hj
      · exact hpos
  · rw [info.advance_part w wqes (by rwa [hsub]) (by omega)]
    refine ⟨h.nsegs, h.words, ?_, .inr ?_, h.behind, haddr', hbytes⟩
    · rw [hpieces]
      exact h.placed.push_part hi' (by omega)
    · change info.segOff + n < (segLengths segs).getD info.segNo 0
      omega

/-- One round in a segment that is not empty: a Write is built, and the call goes on with the
next segment if bytes are left. -/
theorem buildWritesLoop_round (env : RwEnv) (hb : Building segs info done) (hfit : SegsFit segs)
    (hfeed : Feeds k constructor Left) (hleft : Left info.base info.nextOff left)
    (hne : left ≠ []) (hlt : left.length < 2 ^ 32) (hi : info.segNo < segs.length)
    (hpos : 0 < (segLengths segs).getD info.segNo 0) (rounds : Nat) :
    (¬ env.Ample ∧ ∃ c, c ≠ e2BIG ∧
      buildWritesLoop k env constructor (rounds + 1) info left.length = .error (.code c)) ∨
    (∃ info', Building segs info' (done ++ left) ∧
      done.length + left.length ≤ ((segLengths segs).take (info.segNo + 1)).sum ∧
      buildWritesLoop k env constructor (rounds + 1) info left.length = .ok info') ∨
    (∃ info' n, n < left.length ∧ Building segs info' (done ++ left.take n) ∧
      Left info'.base info'.nextOff (left.drop n) ∧ info'.segNo = info.segNo + 1 ∧
      buildWritesLoop k env constructor (rounds + 1) info left.length =
        buildWritesLoop k env constructor rounds info' (left.drop n).length) := by
  have hsegs := hb.nsegs
  have hle := hb.placed.off_le
  have hsub := U32.sub_of_le hle (hfit.getD_lt info.segNo)
  have hroom := hb.room
  have hleftpos : 0 < left.length := length_pos_iff.mpr hne
  obtain ⟨rest, hwords⟩ := hb.words
  have hdrop := drop_segmentWords segs rest hi
  rw [← hwords] at hdrop
  have hget : (segLengths segs).getD info.segNo 0 = segs[info.segNo].length := by
    simp [segLengths, hi]
  set room := (segLengths segs).getD info.segNo 0 - info.segOff with hroomdef
  set n := min left.length room with hn
  obtain ⟨sgl, base, nextOff, hcons, hflat, hsgl, hleft'⟩ := hfeed.take hleft (n := n) (by omega)
  rw [if_neg (by omega)] at hsgl
  rw [buildWritesLoop, if_neg (by omega), hdrop]
  simp only [getD_cons_succ, getD_cons_zero]
  rw [← hget, hsub, ← hn, hcons, U32.sub_of_le (by omega) hlt]
  dsimp only
  by_cases hctxt : env.rwCtxt info.rwctxts.length = true
  case neg =>
    exact .inl ⟨fun ha => hctxt (ha.rwCtxt _), eNOMEM, by decide, by simp [hctxt]⟩
  rw [if_pos hctxt]
  have hsglne : sgl ≠ [] := by
    rintro rfl
    have := congrArg List.length hflat
    simp only [flatten_nil, length_nil, length_take] at this
    omega
  rcases rdmaRwCtxInit_nonempty env (n / k.pageSize + 2) (sgl.map List.length)
    (by simpa using hsglne) (by simpa using hsgl) with ⟨wqes, hw⟩ | ⟨ha, c, hc⟩
  case inr => exact .inl ⟨ha, eIO, by decide, by rw [hc]⟩
  rw [hw]
  dsimp only
  set w : Write := ⟨info.segNo, info.segOff, segs[info.segNo].handle,
    (xdrDecodeHyper segs[info.segNo].offsetHi segs[info.segNo].offsetLo + info.segOff) % 2 ^ 64,
    sgl⟩ with hwdef
  have hbytes : w.bytes = left.take n := hflat
  have hb' := (hb.of_source base nextOff).advance hfit hi (n := n) (w := w) rfl rfl
    (by rw [hbytes, length_take]; omega)
    ⟨segs[info.segNo], by simp [hwdef, hi], rfl, rfl⟩ (hn.le.trans (Nat.min_le_right _ _)) hpos wqes
  rw [hbytes] at hb'
  by_cases hlast : left.length - n = 0
  · rw [if_pos hlast]
    rw [take_of_length_le (by omega)] at hb'
    refine .inr (.inl ⟨_, hb', ?_, rfl⟩)
    have hposn := hb.position
    have htake := Fill.sum_take_succ (l := segLengths segs) (by simpa using hi)
    omega
  · rw [if_neg hlast]
    refine .inr (.inr ⟨_, n, by omega, hb', hleft', ?_, by rw [length_drop]⟩)
    have hfull : n = U32.sub ((segLengths segs).getD info.segNo 0) info.segOff := by omega
    exact congrArg WriteInfo.segNo
      (WriteInfo.advance_full { info with base, nextOff } w wqes hfull)

/-- A round in a segment of length zero gets a scatterlist without a byte. -/
theorem buildWritesLoop_zero (ha : env.Ample) (hb : Building segs info done)
    (hfeed : Feeds k constructor Left) (hleft : Left info.base info.nextOff left)
    (hi : info.segNo < segs.length) (hzero : (segLengths segs).getD info.segNo 0 = 0)
    (rounds : Nat) :
    buildWritesLoop k env constructor (rounds + 1) info left.length = .error .fault := by
  have hsegs := hb.nsegs
  have hoff : info.segOff = 0 := Nat.le_zero.mp (hb.placed.off_le.trans_eq hzero)
  have hget : segs[info.segNo].length = 0 := by simpa [segLengths, hi] using hzero
  obtain ⟨rest, hwords⟩ := hb.words
  have hdrop := drop_segmentWords segs rest hi
  rw [← hwords] at hdrop
  obtain ⟨sgl, base, nextOff, hcons, -, hsgl, -⟩ := hfeed.take hleft (Nat.zero_le _)
  obtain rfl : sgl = [[]] := hsgl
  have hn : min left.length (U32.sub 0 0) = 0 := by
    rw [U32.sub_of_le (Nat.le_refl _) (by omega)]
    exact Nat.min_zero _
  rw [buildWritesLoop, if_neg (by omega), hdrop]
  simp only [getD_cons_succ, getD_cons_zero, hget, hoff, hn, hcons, ha.rwCtxt,
    ↓reduceIte, map_cons, map_nil, length_nil, ha.rdmaRwCtxInit_empty]

/-! ## Whole calls -/

/-- No segment of length zero comes before the place where `n` bytes end. -/
def Clean (segs : List RdmaSegment) (n : Nat) : Prop :=
  ∀ j < segs.length, (segLengths segs).getD j 0 = 0 → n ≤ ((segLengths segs).take j).sum

theorem Clean.mono {m n : Nat} (h : Clean segs n) (hmn : m ≤ n) : Clean segs m :=
  fun j hj hzero => hmn.trans (h j hj hzero)

/-- The Writes are built, or an error code says why not: `-E2BIG` exactly where the bytes exceed
the segments. -/
structure Built (env : RwEnv) (segs : List RdmaSegment) (bytes : List UInt8)
    (r : Except Abort WriteInfo) : Prop where
  ok : ∀ info, r = .ok info → Building segs info bytes
  code : ∀ e, r = .error e → ∃ c, e = .code c ∧
    (c = e2BIG → (segLengths segs).sum < bytes.length)
  big : env.Ample → (segLengths segs).sum < bytes.length → r = .error (.code e2BIG)
  fits : env.Ample → bytes.length ≤ (segLengths segs).sum → ∃ info, r = .ok info

/-- The outcome of bringing the bytes in the segments to `bytes`. -/
structure Stage (env : RwEnv) (segs : List RdmaSegment) (bytes : List UInt8)
    (r : Except Abort WriteInfo) : Prop where
  clean : Clean segs bytes.length → Built env segs bytes r
  dirty : ¬ Clean segs bytes.length → env.Ample → r = .error .fault

theorem Building.le_sum {bytes : List UInt8} (h : Building segs info bytes) :
    bytes.length ≤ (segLengths segs).sum := by
  rw [← h.bytes, ← total_pieces]
  exact h.placed.total_le

theorem Building.clean {bytes : List UInt8} (h : Building segs info bytes) :
    Clean segs bytes.length := by
  intro j hj hzero
  have hbehind : ¬ j < info.segNo := fun hlt => by
    have := h.behind j hlt
    omega
  rw [← h.position]
  by_cases hoff : info.segOff = 0
  · rw [hoff, Nat.add_zero]
    exact Fill.sum_take_mono _ (Nat.not_lt.mp hbehind)
  · -- the next piece goes into a segment that has room, so that segment is not number `j`
    have hroom := h.room.resolve_left hoff
    have hne : j ≠ info.segNo := by
      rintro rfl
      omega
    have hi' : info.segNo < (segLengths segs).length := by
      rw [length_segLengths]
      omega
    have hnext := Fill.sum_take_mono (segLengths segs) (show info.segNo + 1 ≤ j by omega)
    rw [Fill.sum_take_succ hi'] at hnext
    omega

/-- Nothing to write. -/
theorem Stage.pure {bytes : List UInt8} (h : Building segs info bytes) :
    Stage env segs bytes (.ok info) where
  clean _ := by
    refine ⟨?_, fun e he => (by cases he), fun _ hlt => absurd h.le_sum (Nat.not_le.mpr hlt),
      fun _ _ => ⟨info, rfl⟩⟩
    rintro _ ⟨⟩
    exact h
  dirty hd := absurd h.clean hd

/-- Two stages one after the other. -/
theorem Stage.bind {bytes₁ bytes₂ : List UInt8} {r : Except Abort WriteInfo}
    {f : WriteInfo → Except Abort WriteInfo} (hr : Stage env segs bytes₁ r)
    (hf : ∀ info, Building segs info bytes₁ → Stage env segs (bytes₁ ++ bytes₂) (f info)) :
    Stage env segs (bytes₁ ++ bytes₂) (r >>= f) := by
  have hle : bytes₁.length ≤ (bytes₁ ++ bytes₂).length := by simp
  constructor
  · intro hc
    have h₁ := hr.clean (hc.mono hle)
    cases hrv : r with
    | error e =>
      rw [hrv] at h₁
      obtain ⟨c, rfl, hbig⟩ := h₁.code e rfl
      refine ⟨fun _ h => (by cases h), ?_, ?_, ?_⟩
      · rintro _ ⟨⟩
        exact ⟨c, rfl, fun h => Nat.lt_of_lt_of_le (hbig h) hle⟩
      · intro ha _
        by_cases hlt : (segLengths segs).sum < bytes₁.length
        · exact h₁.big ha hlt
        · obtain ⟨_, h⟩ := h₁.fits ha (Nat.not_lt.mp hlt)
          cases h
      · intro ha hsum
        obtain ⟨_, h⟩ := h₁.fits ha (hle.trans hsum)
        cases h
    | ok info => exact (hf info (h₁.ok info hrv)).clean hc
  · intro hd ha
    by_cases hc₁ : Clean segs bytes₁.length
    · have h₁ := hr.clean hc₁
      have hsum : bytes₁.length ≤ (segLengths segs).sum := by
        unfold Clean at hd
        push Not at hd
        obtain ⟨j, hj, hzero, -⟩ := hd
        exact (hc₁ j hj hzero).trans (Fill.sum_take_le _ _)
      obtain ⟨info, hrv⟩ := h₁.fits ha hsum
      rw [hrv]
      exact (hf info (h₁.ok info hrv)).dirty hd ha
    · rw [hr.dirty hc₁ ha]
      rfl

theorem buildWritesLoop_stage (hfit : SegsFit segs) (hfeed : Feeds k constructor Left)
    (rounds : Nat) (hb : Building segs info done) (hleft : Left info.base info.nextOff left)
    (hne : left ≠ []) (hlt : left.length < 2 ^ 32) (hrounds : segs.length < info.segNo + rounds) :
    Stage env segs (done ++ left) (buildWritesLoop k env constructor rounds info left.length) := by
  have hleftpos : 0 < left.length := length_pos_iff.mpr hne
  induction rounds generalizing info done left with
  | zero =>
    have := hb.placed.idx_le
    simp only [length_segLengths] at this
    omega
  | succ rounds ih =>
    have hposition := hb.position
    by_cases hi : info.segNo < segs.length
    case neg =>
      -- all segments have been left behind
      have hsegs := hb.nsegs
      have hidx : info.segNo = (segLengths segs).length := by
        have := hb.placed.idx_le
        simp only [length_segLengths] at this ⊢
        omega
      have hoff : info.segOff = 0 := by
        have := hb.placed.off_le
        rwa [hidx, getD_eq_default _ _ (Nat.le_refl _), Nat.le_zero] at this
      rw [hidx, take_length, hoff, Nat.add_zero] at hposition
      have hbig : (segLengths segs).sum < (done ++ left).length := by
        rw [length_append]
        omega
      have hloop : buildWritesLoop k env constructor (rounds + 1) info left.length =
          .error (.code e2BIG) := by
        rw [buildWritesLoop, if_pos (by omega)]
      rw [hloop]
      refine ⟨fun _ => ⟨fun _ h => (by cases h), ?_, fun _ _ => rfl, fun _ h => ?_⟩, fun hd => ?_⟩
      · rintro _ ⟨⟩
        exact ⟨e2BIG, rfl, fun _ => hbig⟩
      · exact absurd h (Nat.not_le.mpr hbig)
      · unfold Clean at hd
        push Not at hd
        obtain ⟨j, hj, hzero, -⟩ := hd
        have := hb.behind j (by omega)
        omega
    by_cases hzero : (segLengths segs).getD info.segNo 0 = 0
    · refine ⟨fun hc => ?_, fun _ ha => buildWritesLoop_zero ha hb hfeed hleft hi hzero rounds⟩
      have := hc info.segNo hi hzero
      rw [length_append] at this
      omega
    rcases buildWritesLoop_round env hb hfit hfeed hleft hne hlt hi (by omega) rounds with
      ⟨ha, c, hc, hloop⟩ | ⟨info', hb', hend, hloop⟩ | ⟨info', n, hn, hb', hleft', hno, hloop⟩
    · rw [hloop]
      refine ⟨fun _ => ⟨fun _ h => (by cases h), ?_, fun h => absurd h ha, fun h => absurd h ha⟩,
        fun _ h => absurd h ha⟩
      rintro _ ⟨⟩
      exact ⟨c, rfl, fun h => absurd h hc⟩
    · rw [hloop]
      exact .pure hb'
    · rw [hloop]
      have hsplit : done ++ left.take n ++ left.drop n = done ++ left := by
        rw [append_assoc, take_append_drop]
      rw [← hsplit]
      refine ih hb' hleft' ?_ ?_ (by omega) ?_
      · rw [Ne, drop_eq_nil_iff]
        omega
      · rw [length_drop]
        omega
      · rw [length_drop]
        omega

end

end Svcrdma
