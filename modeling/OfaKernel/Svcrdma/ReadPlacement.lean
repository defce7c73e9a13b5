-- SUMMARY: Where `svc_rdma_build_read_chunk` puts a read chunk.
import Mathlib.Data.Finset.Card
import OfaKernel.Svcrdma.RecvCall

/-!
# Placing a read chunk

The loops of `svc_rdma_build_read_chunk` with what they leave behind on errors too. The end of
the pages is looked at behind each entry, and only if bytes of the segment are left.
-/

namespace Svcrdma

/-- `ri_pageno`, `ri_pageoff`, `rc_page_count`, and all pages and entries so far. -/
structure Placing where
  pageno : Nat := 0
  pageoff : Nat := 0
  pageCount : Nat := 0
  touched : List Nat := []
  sgl : List Fill.Piece := []
  deriving DecidableEq

def Placing.entry (k : PageSizes) (s : Placing) (segLen : Nat) : Placing :=
  let full := s.pageoff + segLen = k.pageSize
  { pageno := if full then s.pageno + 1 else s.pageno
    pageoff := if full then 0 else s.pageoff + segLen
    pageCount := if s.pageoff = 0 then s.pageCount + 1 else s.pageCount
    touched := s.touched ++ [s.pageno]
    sgl := s.sgl ++ [⟨s.pageno, s.pageoff, segLen⟩] }

/-- The loop of `svc_rdma_build_read_segment`; `false` for an overrun. -/
def placeSgl (k : PageSizes) (npages : Nat) : Nat → Nat → Placing → Bool × Placing
  | 0, _, s => (true, s)
  | n + 1, len, s =>
    let segLen := min len (k.pageSize - s.pageoff)
    let s := s.entry k segLen
    if len - segLen ≠ 0 ∧ npages < s.pageno + 1 then (false, s)
    else placeSgl k npages n (len - segLen) s

/-- What a segment gets: whether there is a context, and how `rdma_rw_ctx_init` ends. Its walk over
an empty entry may leave the scatterlist. -/
structure SegOutcome where
  ctxt : Bool
  init : Except Abort Unit

def SegOutcome.Served (o : SegOutcome) : Prop := o.ctxt = true ∧ o.init = .ok ()

/-- `svc_rdma_build_read_segment`. A context without entries is a `BUG`. -/
def placeSegment (k : PageSizes) (npages : Nat) (o : SegOutcome) (len : Nat) (s : Placing) :
    Except Abort Unit × Placing :=
  let nents := U32.wrap (s.pageoff + len + (k.pageSize - 1)) / k.pageSize
  if o.ctxt then
    if nents = 0 then (.error .fault, s)
    else
      match placeSgl k npages nents len s with
      | (false, s) => (.error (.code eINVAL), s)
      | (true, s) =>
        match o.init with
        | .error (.code _) => (.error (.code eIO), s)
        | r => (r, s)
  else (.error (.code eNOMEM), s)

/-- The loop of `svc_rdma_build_read_chunk` from segment `i` on, which is at word `6 * i + 4`. -/
def placeChunk (k : PageSizes) (npages : Nat) (o : Nat → SegOutcome) (m : RqArg) (position : Nat) :
    Nat → Nat → Except Abort Unit → Placing → Option (Except Abort Unit × Placing)
  | 0, _, _, _ => none
  | fuel + 1, i, ret, s =>
    if m.word (6 * i + 4) ≠ 0 ∧ m.word (6 * i + 5) = position then
      match placeSegment k npages (o i) (m.word (6 * i + 7)) s with
      | (.error e, s) => some (.error e, s)
      | (.ok (), s) => placeChunk k npages o m position fuel (i + 1) (.ok ()) s
    else some (ret, s)

/-- `svc_rdma_build_normal_read_chunk` for `headLen` bytes inline, with the lengths (`size_t`) it
leaves in head and tail. -/
def placeNormal (k : PageSizes) (npages : Nat) (o : Nat → SegOutcome) (m : RqArg) (headLen : Nat) :
    Option ((Except Abort Unit × Placing) × Nat × Nat) :=
  let position := m.word 5
  (placeChunk k npages o m position (m.len + 1) 0 (.error (.code eINVAL)) {}).map fun r =>
    match r.1 with
    | .error _ => (r, headLen, 0)
    | .ok () => (r, position, (headLen + (2 ^ 64 - position)) % 2 ^ 64)

/-! ## The property -/

/-- The length of segment `i` of the read list. -/
def segLength (m : RqArg) (i : Nat) : Nat := m.word (6 * i + 7)

/-- The bytes of the segments before `i`. -/
def segOffset (m : RqArg) (i : Nat) : Nat := ((List.range i).map (segLength m)).sum

/-- The read list has `n` segments. -/
def HasSegments (m : RqArg) (n : Nat) : Prop :=
  (∀ i < n, m.word (6 * i + 4) ≠ 0) ∧ m.word (6 * n + 4) = 0

/-- The chunk is in the pages, its bytes one behind the other. -/
structure WellPlaced (k : PageSizes) (npages : Nat) (m : RqArg) (headLen : Nat)
    (r : (Except Abort Unit × Placing) × Nat × Nat) : Prop where
  inside : (∀ i ∈ r.1.2.touched, i < npages) ∧ r.1.2.pageCount ≤ npages
  count : r.1.2.pageCount = r.1.2.touched.toFinset.card
  consecutive : ∀ j (h : j < r.1.2.sgl.length),
    r.1.2.sgl[j].idx * k.pageSize + r.1.2.sgl[j].off = Fill.total (r.1.2.sgl.take j) ∧
      r.1.2.sgl[j].off + r.1.2.sgl[j].len ≤ k.pageSize
  whole : r.1.1 = .ok () → ∃ parts : List (List Fill.Piece), r.1.2.sgl = parts.flatten ∧
    HasSegments m parts.length ∧
      parts.map Fill.total = (List.range parts.length).map (segLength m)
  lengths : r.1.1 = .ok () → r.2.1 + r.2.2 = headLen

/-- Segment `j` is built: it gets what it needs, and is not empty at the start of a page. -/
def SegBuilt (k : PageSizes) (o : Nat → SegOutcome) (m : RqArg) (j : Nat) : Prop :=
  (o j).Served ∧ (segLength m j = 0 → ¬ k.pageSize ∣ segOffset m j)

/-- Segment `j` is reached, has bytes, and begins where the pages, of `cap` bytes, end. -/
def BeginsBehind (k : PageSizes) (o : Nat → SegOutcome) (m : RqArg) (cap j : Nat) : Prop :=
  (∀ i < j, SegBuilt k o m i) ∧ (o j).ctxt = true ∧ segOffset m j = cap ∧ segLength m j ≠ 0

/-- All `n` segments are built. -/
def AllBuilt (k : PageSizes) (o : Nat → SegOutcome) (m : RqArg) (cap n : Nat) : Prop :=
  0 < n ∧ (∀ i < n, SegBuilt k o m i) ∧ segOffset m n ≤ cap

/-- No segment begins behind the pages, and a chunk that is built has its position in the inline
data. -/
def ReadListFits {k : PageSizes} (rqst : SvcRqst k) (o : Nat → SegOutcome) (m : RqArg)
    (headLen : Nat) : Prop :=
  ∀ n, HasSegments m n → (∀ j < n, ¬ BeginsBehind k o m (rqst.npages * k.pageSize) j) ∧
    (AllBuilt k o m (rqst.npages * k.pageSize) n → m.word 5 ≤ headLen)

section

variable {k : PageSizes} {s : Placing} {t n len npages : Nat}

/-- `t` bytes have been placed. -/
structure At (k : PageSizes) (s : Placing) (t : Nat) : Prop where
  off_lt : s.pageoff < k.pageSize
  place : s.pageno * k.pageSize + s.pageoff = t
  total : Fill.total s.sgl = t
  consecutive : ∀ j (h : j < s.sgl.length),
    s.sgl[j].idx * k.pageSize + s.sgl[j].off = Fill.total (s.sgl.take j) ∧
      s.sgl[j].off + s.sgl[j].len ≤ k.pageSize
  count : s.pageCount = if s.pageoff = 0 then s.pageno else s.pageno + 1
  touched : ∀ i, i ∈ s.touched ↔ i < s.pageCount

theorem At.start (k : PageSizes) : At k {} 0 :=
  ⟨k.pageSize_pos, by simp, rfl, by simp, rfl, by simp⟩

/-- An entry without bytes behind a full page would count the page too early. -/
theorem At.entry (h : At k s t) (hn : s.pageoff + n ≤ k.pageSize) (hne : s.pageoff + n ≠ 0) :
    At k (s.entry k n) (t + n) := by
  have hoff := h.off_lt
  have hplace := h.place
  have hcount : (s.entry k n).pageCount = s.pageno + 1 := by
    simp only [Placing.entry, h.count]
    split <;> rfl
  refine ⟨?_, ?_, ?_, ?_, ?_, ?_⟩
  · simp only [Placing.entry]
    split <;> omega
  · simp only [Placing.entry]
    split
    · rw [Nat.succ_mul]
      omega
    · omega
  · simp [Placing.entry, h.total]
  · intro j hj
    simp only [Placing.entry, List.length_append, List.length_singleton] at hj ⊢
    by_cases hlast : j < s.sgl.length
    · rw [List.getElem_append_left hlast, List.take_append_of_le_length (Nat.le_of_lt hlast)]
      exact h.consecutive j hlast
    · obtain rfl : j = s.sgl.length := by omega
      simpa [h.total] using ⟨hplace, hn⟩
  · rw [hcount]
    simp only [Placing.entry]
    split <;> simp
  · intro i
    rw [hcount]
    have hi := h.touched i
    have hc := h.count
    simp only [Placing.entry, List.mem_append, List.mem_singleton, hi]
    split at hc <;> omega

theorem At.pageCount_le_iff (h : At k s t) : s.pageCount ≤ npages ↔ t ≤ npages * k.pageSize := by
  have hoff := h.off_lt
  rw [h.count, ← h.place]
  split
  case isTrue hzero =>
    rw [hzero]
    exact (Nat.mul_le_mul_right_iff k.pageSize_pos).symm
  case isFalse hpos =>
    constructor
    · intro hle
      have := Nat.mul_le_mul_right k.pageSize hle
      rw [Nat.succ_mul] at this
      omega
    · intro hle
      exact Nat.lt_of_mul_lt_mul_right (Nat.lt_of_lt_of_le (by omega) hle)

/-- A segment is built up to the end of the pages, of `cap` bytes; one that begins behind them up
to the end of its page. -/
theorem placeSgl_spec {cap : Nat} (hcap : cap = npages * k.pageSize) (h : At k s t)
    (hn : s.pageoff + len ≤ n * k.pageSize) (hn' : n * k.pageSize < s.pageoff + len + k.pageSize) :
    ∃ s' part, placeSgl k npages n len s = (decide (Fill.total part = len), s') ∧
      s'.sgl = s.sgl ++ part ∧ At k s' (t + Fill.total part) ∧
      Fill.total part = min len (if t < cap then cap - t else k.pageSize - s.pageoff) := by
  have hoff := h.off_lt
  induction n generalizing s t len with
  | zero =>
    obtain rfl : len = 0 := by omega
    exact ⟨s, [], rfl, by simp, h, by simp⟩
  | succ n ih =>
    rw [Nat.succ_mul] at hn hn'
    obtain ⟨seg, hseg⟩ : ∃ seg, seg = min len (k.pageSize - s.pageoff) := ⟨_, rfl⟩
    have hentry := h.entry (n := seg) (by omega) (by omega)
    have hsgl : (s.entry k seg).sgl = s.sgl ++ [⟨s.pageno, s.pageoff, seg⟩] := rfl
    have hone : Fill.total [⟨s.pageno, s.pageoff, seg⟩] = seg := Fill.total_singleton _
    -- an entry that begins inside the pages ends inside them
    have hbelow : t < cap → t + (k.pageSize - s.pageoff) ≤ cap := by
      intro hlt
      have hplace := h.place
      have hpageno : s.pageno < npages := Nat.lt_of_mul_lt_mul_right (a := k.pageSize) (by omega)
      have := Nat.mul_le_mul_right k.pageSize hpageno
      rw [Nat.succ_mul] at this
      omega
    rw [placeSgl, ← hseg]
    by_cases hrest : len - seg = 0
    · -- the segment ends in this page, so this is its last entry
      obtain rfl : seg = len := by omega
      obtain rfl : n = 0 := by
        by_contra hpos
        have := Nat.mul_le_mul_right k.pageSize (Nat.one_le_iff_ne_zero.mpr hpos)
        omega
      rw [if_neg (fun hc => hc.1 hrest)]
      refine ⟨_, _, by rw [hone, placeSgl, decide_eq_true rfl], hsgl, by rwa [hone], ?_⟩
      rw [hone]
      split <;> omega
    have hfull : s.pageoff + seg = k.pageSize := by omega
    have hzero : (s.entry k seg).pageoff = 0 := if_pos hfull
    have hover : npages < (s.entry k seg).pageno + 1 ↔ cap ≤ t + seg := by
      have hpage := hentry.place
      rw [hzero, Nat.add_zero] at hpage
      rw [hcap, ← hpage, Nat.mul_le_mul_right_iff k.pageSize_pos, Nat.lt_succ_iff]
    by_cases hc : npages < (s.entry k seg).pageno + 1
    · rw [if_pos ⟨hrest, hc⟩]
      have := hover.mp hc
      refine ⟨_, _, by rw [hone, decide_eq_false (by omega)], hsgl, by rwa [hone], ?_⟩
      rw [hone]
      split <;> omega
    · rw [if_neg (fun h => hc h.2)]
      have hlt := mt hover.mpr hc
      obtain ⟨s', part, heq, hpart, hat, htotal⟩ :=
        @ih (s.entry k seg) (t + seg) (len - seg) hentry (by omega) (by omega) hentry.off_lt
      have hcons : Fill.total (⟨s.pageno, s.pageoff, seg⟩ :: part) = seg + Fill.total part := by
        rw [← List.singleton_append, Fill.total_append, hone]
      rw [if_pos (by omega)] at htotal
      rw [if_pos (by omega), heq]
      refine ⟨s', ⟨s.pageno, s.pageoff, seg⟩ :: part, ?_, by simp [hpart, hsgl], ?_, by omega⟩
      · rw [hcons, show len = seg + (len - seg) by omega]
        simp
      · rwa [hcons, ← Nat.add_assoc]

/-- The segment that leaves the pages is one that begins where they end. -/
theorem placeSegment_spec (rqst : SvcRqst k) (o : SegOutcome) (h : At k s t)
    (hlen : len ≤ k.maxBytesSpecialSeg) {cap : Nat} (hcap : cap = rqst.npages * k.pageSize) :
    ∃ ret s' part, placeSegment k rqst.npages o len s = (ret, s') ∧ s'.sgl = s.sgl ++ part ∧
      At k s' (t + Fill.total part) ∧
      (ret = .ok () → Fill.total part = len ∧ o.Served ∧ (len = 0 → ¬ k.pageSize ∣ t)) ∧
      (o.Served → (len = 0 → ¬ k.pageSize ∣ t) → t + len ≤ cap → ret = .ok ()) ∧
      (t ≤ cap → (cap < t + Fill.total part ↔ o.ctxt = true ∧ t = cap ∧ len ≠ 0)) := by
  have hoff := h.off_lt
  have hsize := rqst.size_lt
  have hlt := Nat.lt_of_le_of_lt (Nat.mul_le_mul_right k.pageSize (Nat.le_succ _)) hsize
  rw [PageSizes.maxBytesSpecialSeg, Nat.shiftLeft_eq, ← PageSizes.pageSize,
    U32.wrap_of_lt (hlt.trans (by decide))] at hlen
  rw [Nat.add_mul] at hsize hlen
  have hwrap : U32.wrap (s.pageoff + len + (k.pageSize - 1)) = s.pageoff + len + (k.pageSize - 1) :=
    U32.wrap_of_lt (by omega)
  have hdvd : k.pageSize ∣ t ↔ s.pageoff = 0 := by
    rw [← h.place, Nat.dvd_add_right (Nat.dvd_mul_left _ _)]
    exact ⟨fun hd => Nat.eq_zero_of_dvd_of_lt hd hoff, fun hz => hz ▸ Nat.dvd_zero _⟩
  unfold placeSegment
  cases hctxt : o.ctxt with
  | false =>
    refine ⟨_, s, [], rfl, by simp, h, nofun, fun ho => ?_, fun ht => ?_⟩
    · exact absurd (ho.1.symm.trans hctxt) (by decide)
    · simpa using ht
  | true =>
    have hdiv := Nat.div_mul_le_self (s.pageoff + len + (k.pageSize - 1)) k.pageSize
    have hdiv' := Nat.lt_div_mul_add k.pageSize_pos (a := s.pageoff + len + (k.pageSize - 1))
    simp only [if_true, hwrap]
    by_cases hzero : (s.pageoff + len + (k.pageSize - 1)) / k.pageSize = 0
    · -- an empty segment at the start of a page
      rw [hzero] at hdiv'
      obtain ⟨hpage, rfl⟩ : s.pageoff = 0 ∧ len = 0 := by omega
      exact ⟨.error .fault, s, [], by rw [if_pos hzero], by simp, h, nofun,
        fun _ hno => absurd (hdvd.mpr hpage) (hno rfl), fun ht => by simpa using ht⟩
    rw [if_neg hzero]
    obtain ⟨s', part, heq, hpart, hat, htotal⟩ := @placeSgl_spec _ _ _
      ((s.pageoff + len + (k.pageSize - 1)) / k.pageSize) len _ _ hcap h (by omega) (by omega)
    have hleaves : t ≤ cap → (cap < t + Fill.total part ↔ t = cap ∧ len ≠ 0) := by
      intro ht
      split at htotal <;> omega
    have hfits : t + len ≤ cap → Fill.total part = len := by
      intro hfit
      split at htotal <;> omega
    have hempty : len = 0 → ¬ k.pageSize ∣ t := by
      rintro rfl hd
      rw [hdvd.mp hd] at hzero
      exact hzero (Nat.div_eq_of_lt (by have := k.pageSize_pos; omega))
    rw [heq]
    by_cases hall : Fill.total part = len
    · rw [decide_eq_true hall]
      cases hinit : o.init with
      | ok u =>
        exact ⟨.ok (), s', part, rfl, hpart, hat, fun _ => ⟨hall, ⟨hctxt, hinit⟩, hempty⟩,
          fun _ _ _ => rfl, by simpa using hleaves⟩
      | error e =>
        have hno : ¬ o.Served := fun ho => absurd (hinit.symm.trans ho.2) nofun
        cases e <;> exact ⟨_, s', part, rfl, hpart, hat, nofun, fun ho => absurd ho hno,
          by simpa using hleaves⟩
    · rw [decide_eq_false hall]
      exact ⟨_, s', part, rfl, hpart, hat, nofun, fun _ _ hfit => absurd (hfits hfit) hall,
        by simpa using hleaves⟩

end

/-! ## The read list -/

section

variable {k : PageSizes} {m : RqArg} {n : Nat}

@[simp] theorem segOffset_succ (m : RqArg) (i : Nat) :
    segOffset m (i + 1) = segOffset m i + segLength m i := by
  simp [segOffset, List.range_succ]

theorem segOffset_mono (m : RqArg) {i j : Nat} (h : i ≤ j) : segOffset m i ≤ segOffset m j := by
  induction h with
  | refl => exact Nat.le_refl _
  | step _ ih => exact ih.trans (by simp)

theorem HasSegments.unique {n' : Nat} (h : HasSegments m n) (h' : HasSegments m n') : n = n' := by
  rcases Nat.lt_trichotomy n n' with hlt | heq | hlt
  · exact absurd h.2 (h'.1 n hlt)
  · exact heq
  · exact absurd h'.2 (h.1 n' hlt)

theorem readList_segments {position : Option Nat} {i q : Nat}
    (h : (xdrCheckReadList k m position (6 * i + 4)).val = some q) :
    ∃ n, i ≤ n ∧ (n = i ∨ n ≤ m.len) ∧ m.word (6 * n + 4) = 0 ∧ ∀ j, i ≤ j → j < n →
      m.word (6 * j + 4) ≠ 0 ∧ m.word (6 * j + 5) = position.getD (m.word (6 * i + 5)) ∧
        segLength m j ≤ k.maxBytesSpecialSeg := by
  induction hd : m.len - i using Nat.strong_induction_on generalizing position i with
  | _ d ih =>
    rw [xdrCheckReadList] at h
    by_cases hmark : m.word (6 * i + 4) = 0
    · exact ⟨i, Nat.le_refl i, .inl rfl, hmark, fun j hij hji => absurd hji (Nat.not_lt.mpr hij)⟩
    by_cases hpos : position.getD (m.word (6 * i + 5)) = m.word (6 * i + 5)
    case neg => simp [bind, pure, RqArg.be32, hmark, hpos] at h
    by_cases hlen : k.maxBytesSpecialSeg < m.word (6 * i + 7)
    case pos => simp [bind, pure, RqArg.be32, hmark, hpos, hlen] at h
    by_cases hend : m.len < 4 * (6 * i + 4 + 6)
    case pos => simp [bind, pure, RqArg.be32, hmark, hpos, hlen, hend] at h
    simp only [bind, RqArg.be32, hmark, hpos, hlen, hend, ne_eq, not_true, if_false] at h
    obtain ⟨n, hin, hn, hzero, hall⟩ := @ih _ (by omega) _ (i + 1) h rfl
    refine ⟨n, by omega, by omega, hzero, fun j hij hjn => ?_⟩
    by_cases hj : j = i
    · subst hj
      exact ⟨hmark, hpos.symm, Nat.not_lt.mp hlen⟩
    · obtain ⟨hmark', hpos', hlen'⟩ := hall j (by omega) hjn
      exact ⟨hmark', hpos'.trans hpos.symm, hlen'⟩

variable {o : Nat → SegOutcome} {cap position i : Nat} {ret : Except Abort Unit} {s : Placing}

/-- The loop in front of segment `i`. -/
structure LoopAt (k : PageSizes) (o : Nat → SegOutcome) (m : RqArg) (i : Nat)
    (ret : Except Abort Unit) (s : Placing) : Prop where
  at_offset : At k s (segOffset m i)
  parts : ∃ parts : List (List Fill.Piece), s.sgl = parts.flatten ∧
    parts.map Fill.total = (List.range i).map (segLength m)
  built : ∀ j < i, SegBuilt k o m j
  ret : ret = .ok () ↔ 0 < i

theorem placeChunk_spec (rqst : SvcRqst k) (hsegs : HasSegments m n)
    (hpos : ∀ j < n, m.word (6 * j + 5) = position)
    (hlen : ∀ j < n, segLength m j ≤ k.maxBytesSpecialSeg) (hcap : cap = rqst.npages * k.pageSize)
    {fuel : Nat} (hin : i ≤ n) (hfuel : n < i + fuel) (h : LoopAt k o m i ret s) :
    ∃ ret' s' t', placeChunk k rqst.npages o m position fuel i ret s = some (ret', s') ∧
      At k s' t' ∧ segOffset m i ≤ t' ∧ (ret' = .ok () → LoopAt k o m n ret' s') ∧
      (segOffset m i ≤ cap → (t' ≤ cap ↔ ∀ j, i ≤ j → j < n → ¬ BeginsBehind k o m cap j) ∧
        (t' ≤ cap → (ret' = .ok () ↔ AllBuilt k o m cap n))) := by
  induction fuel generalizing i ret s with
  | zero => omega
  | succ fuel ih =>
    rw [placeChunk]
    rcases Nat.eq_or_lt_of_le hin with rfl | hi
    · rw [if_neg (fun hc => hc.1 hsegs.2)]
      refine ⟨ret, s, _, rfl, h.at_offset, Nat.le_refl _, fun _ => h, fun ht => ⟨?_, fun _ => ?_⟩⟩
      · exact iff_of_true ht fun j hij hj => absurd hj (Nat.not_lt.mpr hij)
      · exact h.ret.trans ⟨fun hpos => ⟨hpos, h.built, ht⟩, fun hall => hall.1⟩
    rw [if_pos ⟨hsegs.1 i hi, hpos i hi⟩]
    obtain ⟨ret₁, s₁, part, heq, hpart, hat, hok, hfits, hleaves⟩ :=
      placeSegment_spec rqst (o i) h.at_offset (hlen i hi) hcap
    simp only [segLength] at heq
    rw [heq]
    have hbehind : BeginsBehind k o m cap i ↔
        (o i).ctxt = true ∧ segOffset m i = cap ∧ segLength m i ≠ 0 :=
      ⟨fun hb => hb.2, fun hb => ⟨h.built, hb⟩⟩
    have hmono : segOffset m i + segLength m i ≤ segOffset m n := by
      rw [← segOffset_succ]
      exact segOffset_mono m hi
    cases ret₁ with
    | error e =>
      refine ⟨.error e, s₁, _, rfl, hat, Nat.le_add_right _ _, nofun, fun ht => ⟨?_, ?_⟩⟩
      · rw [← Nat.not_lt, hleaves ht, ← hbehind]
        refine ⟨fun hno j hij _ hb => ?_, fun hno => hno i (Nat.le_refl i) hi⟩
        rcases Nat.eq_or_lt_of_le hij with rfl | hlt
        · exact hno hb
        · -- the segments behind one that fails are not reached
          have hle := segOffset_mono m (Nat.succ_le_of_lt hlt)
          rw [segOffset_succ, hb.2.2.1] at hle
          exact absurd (hfits (hb.1 i hlt).1 (hb.1 i hlt).2 hle) nofun
      · exact fun _ => iff_of_false nofun fun hall =>
          absurd (hfits (hall.2.1 i hi).1 (hall.2.1 i hi).2 (hmono.trans hall.2.2)) nofun
    | ok u =>
      obtain ⟨htotal, hbuilt⟩ := hok rfl
      obtain ⟨parts, hsgl, htotals⟩ := h.parts
      have hnext : LoopAt k o m (i + 1) (.ok ()) s₁ := by
        refine ⟨by rwa [segOffset_succ, ← htotal], ⟨parts ++ [part], ?_, ?_⟩, ?_, ?_⟩
        · simp [hpart, hsgl]
        · simp [List.range_succ, htotals, htotal]
        · intro j hj
          rcases Nat.lt_succ_iff_lt_or_eq.mp hj with hj | rfl
          · exact h.built j hj
          · exact hbuilt
        · exact iff_of_true rfl (Nat.succ_pos i)
      obtain ⟨ret', s', t', hrun, hat', hle, hend, hcond⟩ := ih hi (by omega) hnext
      rw [segOffset_succ] at hle hcond
      rw [htotal] at hleaves
      refine ⟨ret', s', t', hrun, hat', by omega, hend, fun ht => ?_⟩
      by_cases hover : cap < segOffset m i + segLength m i
      · refine ⟨iff_of_false (by omega) fun hno => ?_, by omega⟩
        exact hno i (Nat.le_refl i) hi (hbehind.mpr ((hleaves ht).mp hover))
      · obtain ⟨hiff, hret⟩ := hcond (Nat.not_lt.mp hover)
        refine ⟨hiff.trans ⟨fun hno j hij hj => ?_, fun hno j hij => hno j (by omega)⟩, hret⟩
        rcases Nat.eq_or_lt_of_le hij with rfl | hlt
        · exact fun hb => hover ((hleaves ht).mpr (hbehind.mp hb))
        · exact hno j hlt hj

end

/-- A read chunk is placed well exactly when its list fits. -/
theorem placeNormal_wellPlaced_iff {k : PageSizes} {m : RqArg} {p headLen : Nat} (rqst : SvcRqst k)
    (o : Nat → SegOutcome) (hacc : (xdrCheckReadList k m none 4).val = some p)
    (hhead : headLen < 2 ^ 64) :
    ∃ r, placeNormal k rqst.npages o m headLen = some r ∧
      (WellPlaced k rqst.npages m headLen r ↔ ReadListFits rqst o m headLen) := by
  obtain ⟨n, -, hn, hzero, hall⟩ := readList_segments (i := 0) hacc
  have hsegs : HasSegments m n := ⟨fun j hj => (hall j (Nat.zero_le j) hj).1, hzero⟩
  have hstart : LoopAt k o m 0 (.error (.code eINVAL)) {} :=
    ⟨.start k, ⟨[], rfl, rfl⟩, fun j hj => absurd hj (Nat.not_lt_zero j),
      iff_of_false nofun (Nat.lt_irrefl 0)⟩
  obtain ⟨ret, s, t, hrun, hat, -, hend, hcond⟩ := placeChunk_spec rqst hsegs
    (fun j hj => (hall j (Nat.zero_le j) hj).2.1) (fun j hj => (hall j (Nat.zero_le j) hj).2.2) rfl
    (Nat.zero_le n) (show n < 0 + (m.len + 1) by omega) hstart
  obtain ⟨hiff, hret⟩ := hcond (Nat.zero_le _)
  have hinside : (∀ i ∈ s.touched, i < rqst.npages) ∧ s.pageCount ≤ rqst.npages ↔
      t ≤ rqst.npages * k.pageSize := by
    rw [← hat.pageCount_le_iff]
    exact ⟨fun h => h.2, fun h => ⟨fun i hi => ((hat.touched i).mp hi).trans_le h, h⟩⟩
  have hcount : s.pageCount = s.touched.toFinset.card := by
    rw [← Finset.card_range s.pageCount]
    congr 1
    ext i
    simp [hat.touched]
  have hno (r : Nat × Nat) (hw : WellPlaced k rqst.npages m headLen ((ret, s), r)) :
      ∀ j < n, ¬ BeginsBehind k o m (rqst.npages * k.pageSize) j :=
    fun j => hiff.mp (hinside.mp hw.inside) j (Nat.zero_le j)
  replace hrun : placeChunk k rqst.npages o m (m.word 5) (m.len + 1) 0 (.error (.code eINVAL)) {} =
    some (ret, s) := hrun
  unfold placeNormal
  simp only [hrun, Option.map_some]
  refine ⟨_, rfl, ?_⟩
  cases ret with
  | error e =>
    constructor
    · intro hw n' hn'
      obtain rfl := hsegs.unique hn'
      refine ⟨hno _ hw, fun hall => ?_⟩
      exact absurd ((hret (hinside.mp hw.inside)).mpr hall) nofun
    · intro hfits
      have ht := hiff.mpr fun j _ hj => (hfits n hsegs).1 j hj
      exact ⟨hinside.mpr ht, hcount, hat.consecutive, nofun, nofun⟩
  | ok u =>
    constructor
    · intro hw n' hn'
      obtain rfl := hsegs.unique hn'
      exact ⟨hno _ hw, fun _ => Nat.le.intro (hw.lengths rfl)⟩
    · intro hfits
      obtain ⟨hinside', hposition⟩ := hfits n hsegs
      have ht := hiff.mpr fun j _ hj => hinside' j hj
      have hle := hposition ((hret ht).mp rfl)
      obtain ⟨parts, hsgl, htotals⟩ := (hend rfl).parts
      obtain rfl : parts.length = n := by simpa using congrArg List.length htotals
      refine ⟨hinside.mpr ht, hcount, hat.consecutive, fun _ => ⟨parts, hsgl, hsegs, htotals⟩,
        fun _ => ?_⟩
      dsimp only
      omega

/-- A call with two read segments of these lengths. -/
def readCall (position a b : Nat) : RqArg where
  word i := [0, 1, 0, 0, 1, position, 0, a, 0, 0, 1, position, 0, b, 0, 0, 0, 0, 0].getD i 0
  len := 76
  iovLen := 76
  len_lt := by decide

def onePage : SvcRqst ⟨1, 2⟩ where
  npages := 1
  pages _ _ := 0
  npages_le := by decide
  size_lt := by decide
  two_le_pageShift := by decide

theorem placeNormal_wellPlaced_iff_two :
    ∃ r, placeNormal ⟨1, 2⟩ onePage.npages (fun _ => ⟨true, .ok ()⟩) (readCall 8 1 2) 12 = some r ∧
      (WellPlaced ⟨1, 2⟩ onePage.npages (readCall 8 1 2) 12 r ↔
        ReadListFits onePage (fun _ => ⟨true, .ok ()⟩) (readCall 8 1 2) 12) :=
  placeNormal_wellPlaced_iff (p := 17) onePage _
    (by simp [xdrCheckReadList, readCall, bind, pure, RqArg.be32, PageSizes.maxBytesSpecialSeg,
      U32.wrap_of_lt]) (by decide)

/-- The second of two segments goes to a page that is not there. A position behind the
inline data gives the tail a length below zero. -/
theorem placeNormal_misplaces :
    (∃ r, placeNormal ⟨1, 2⟩ onePage.npages (fun _ => ⟨true, .ok ()⟩) (readCall 8 4 1) 12 = some r ∧
        ¬ WellPlaced ⟨1, 2⟩ onePage.npages (readCall 8 4 1) 12 r) ∧
      ∃ r, placeNormal ⟨1, 2⟩ onePage.npages (fun _ => ⟨true, .ok ()⟩) (readCall 8 1 2) 4 = some r ∧
        ¬ WellPlaced ⟨1, 2⟩ onePage.npages (readCall 8 1 2) 4 r := by
  refine ⟨⟨((.ok (), ⟨1, 1, 2, [0, 1], [⟨0, 0, 4⟩, ⟨1, 0, 1⟩]⟩), 8, 4), by
    decide +kernel, fun h => ?_⟩,
    ⟨((.ok (), ⟨0, 3, 1, [0, 0], [⟨0, 0, 1⟩, ⟨0, 1, 2⟩]⟩), 8, 2 ^ 64 - 4), by
      decide +kernel, fun h => ?_⟩⟩
  · exact absurd h.inside.2 (by decide)
  · exact absurd (h.lengths rfl) (by decide)

end Svcrdma
