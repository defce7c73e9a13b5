-- SUMMARY: The grammar of the RPC-over-RDMA call header.
import Mathlib.Data.List.Basic

/-!
# Transport header

Four fixed words, the read list, the write list and the reply chunk. Each entry is announced by a
word other than zero; a zero ends a list. A walk ends at the word after the part (`complete`), at
a word that no well-formed part can have there (`refused`), or where the message ends (`cut`).
-/

namespace Svcrdma

/-! ## Grammar -/

/-- One segment of a read list, with a length of at most `maxSeg`. -/
structure ReadSegment (maxSeg : Nat) where
  mark : Nat
  position : Nat
  handle : Nat
  length : Nat
  offsetHi : Nat
  offsetLo : Nat
  mark_ne : mark ≠ 0
  length_le : length ≤ maxSeg

def ReadSegment.encode {maxSeg : Nat} (e : ReadSegment maxSeg) : List Nat :=
  [e.mark, e.position, e.handle, e.length, e.offsetHi, e.offsetLo]

/-- One segment of a write chunk or of the reply chunk. -/
structure Segment (maxSeg : Nat) where
  handle : Nat
  length : Nat
  offsetHi : Nat
  offsetLo : Nat
  length_le : length ≤ maxSeg

def Segment.encode {maxSeg : Nat} (s : Segment maxSeg) : List Nat :=
  [s.handle, s.length, s.offsetHi, s.offsetLo]

/-- A counted array of segments, with the word that announces it. -/
structure Chunk (maxSeg : Nat) where
  mark : Nat
  segments : List (Segment maxSeg)
  mark_ne : mark ≠ 0

def Chunk.encode {maxSeg : Nat} (c : Chunk maxSeg) : List Nat :=
  c.mark :: c.segments.length :: c.segments.flatMap Segment.encode

def encodeReply {maxSeg : Nat} : Option (Chunk maxSeg) → List Nat
  | none => [0]
  | some c => c.encode

/-- A complete call header: `maxRead` bounds the segments of the read list and
of the reply chunk, `maxWrite` those of the write list. -/
structure TransportHeader (maxRead maxWrite : Nat) where
  xid : Nat
  credits : Nat
  /-- `RDMA_NOMSG` rather than `RDMA_MSG`. -/
  nomsg : Bool
  readList : List (ReadSegment maxRead)
  writeList : List (Chunk maxWrite)
  replyChunk : Option (Chunk maxRead)
  same_position : ∃ q, ∀ e ∈ readList, e.position = q
  one_write_chunk : writeList.length ≤ 1

def encodeLists {maxRead maxWrite : Nat} (reads : List (ReadSegment maxRead))
    (writes : List (Chunk maxWrite)) (reply : Option (Chunk maxRead)) : List Nat :=
  reads.flatMap ReadSegment.encode ++ 0 :: (writes.flatMap Chunk.encode ++ 0 :: encodeReply reply)

def TransportHeader.encode {maxRead maxWrite : Nat} (h : TransportHeader maxRead maxWrite) :
    List Nat :=
  h.xid :: 1 :: h.credits :: h.nomsg.toNat :: encodeLists h.readList h.writeList h.replyChunk

/-! ## Walks -/

inductive Walk (α : Type) where
  | cut
  | refused
  | complete (a : α)
  deriving Repr, DecidableEq

def Walk.bind {α β : Type} : Walk α → (α → Walk β) → Walk β
  | .cut, _ => .cut
  | .refused, _ => .refused
  | .complete a, f => f a

@[simp] theorem Walk.bind_cut {α β : Type} (f : α → Walk β) : Walk.cut.bind f = .cut := rfl

@[simp] theorem Walk.bind_refused {α β : Type} (f : α → Walk β) :
    Walk.refused.bind f = .refused := rfl

@[simp] theorem Walk.bind_complete {α β : Type} (a : α) (f : α → Walk β) :
    (Walk.complete a).bind f = f a := rfl

@[simp] theorem Walk.bind_complete_right {α : Type} (w : Walk α) :
    (w.bind fun a => .complete a) = w := by
  cases w <;> rfl

theorem Walk.bind_assoc {α β γ : Type} (w : Walk α) (f : α → Walk β) (g : β → Walk γ) :
    (w.bind f).bind g = w.bind fun a => (f a).bind g := by
  cases w <;> rfl

theorem Walk.bind_eq_complete {α β : Type} {w : Walk α} {f : α → Walk β} {b : β} :
    w.bind f = .complete b ↔ ∃ a, w = .complete a ∧ f a = .complete b := by
  cases w <;> simp [Walk.bind]

/-- The rest of the words once the two offset words of a segment are skipped. A
segment whose offset is missing is refused: no decoder looks at the offset. -/
def skipOffset : List Nat → Walk (List Nat)
  | _ :: _ :: ws => .complete ws
  | _ => .refused

/-- The read list, `position` being that of the entries before. -/
def readListWalk (maxSeg : Nat) (position : Option Nat) : List Nat → Walk (List Nat)
  | [] => .cut
  | mark :: ws =>
    if mark = 0 then .complete ws
    else match ws with
      | [] => .cut
      | pos :: ws =>
        if position.getD pos ≠ pos then .refused
        else match ws with
          | _ :: length :: ws =>
            if maxSeg < length then .refused
            else match ws with
              | _ :: _ :: ws => readListWalk maxSeg (some pos) ws
              | _ => .refused
          | _ => .cut

def segmentsWalk (maxSeg : Nat) : Nat → List Nat → Walk (List Nat)
  | 0, ws => .complete ws
  | n + 1, _ :: length :: ws =>
    if maxSeg < length then .refused
    else (skipOffset ws).bind (segmentsWalk maxSeg n)
  | _ + 1, _ => .cut

/-- A chunk, its announcing word already seen. -/
def chunkWalk (maxSeg : Nat) : List Nat → Walk (List Nat)
  | [] => .cut
  | segcount :: ws => segmentsWalk maxSeg segcount ws

/-- The write list, with at most `allowed` chunks; the number of its chunks is
returned with the rest of the words. -/
def writeListWalk (maxSeg : Nat) : Nat → List Nat → Walk (Nat × List Nat)
  | _, [] => .cut
  | 0, mark :: ws =>
    if mark = 0 then .complete (0, ws) else (chunkWalk maxSeg ws).bind fun _ => .refused
  | allowed + 1, mark :: ws =>
    if mark = 0 then .complete (0, ws)
    else (chunkWalk maxSeg ws).bind fun ws =>
      (writeListWalk maxSeg allowed ws).bind fun r => .complete (r.1 + 1, r.2)

def replyChunkWalk (maxSeg : Nat) : List Nat → Walk (List Nat)
  | [] => .cut
  | mark :: ws => if mark = 0 then .complete ws else chunkWalk maxSeg ws

/-- The three lists of a header. A decoder that counts up to two write chunks is
followed to the end; the number of write chunks is returned. -/
def listsWalk (maxRead maxWrite : Nat) (ws : List Nat) : Walk (Nat × List Nat) :=
  (readListWalk maxRead none ws).bind fun ws =>
    (writeListWalk maxWrite 2 ws).bind fun r =>
      (replyChunkWalk maxRead r.2).bind fun ws => .complete (r.1, ws)

/-! ## Complete walks are the encodings -/

variable {maxSeg : Nat}

theorem segmentsWalk_encode (ss : List (Segment maxSeg)) (rest : List Nat) :
    segmentsWalk maxSeg ss.length (ss.flatMap Segment.encode ++ rest) = .complete rest := by
  induction ss with
  | nil => rfl
  | cons s ss ih =>
    have hs : ¬ maxSeg < s.length := Nat.not_lt.mpr s.length_le
    simpa [Segment.encode, segmentsWalk, skipOffset, hs] using ih

variable {ws rest : List Nat}

theorem segments_of_walk {maxSeg n : Nat} (h : segmentsWalk maxSeg n ws = .complete rest) :
    ∃ ss : List (Segment maxSeg), ss.length = n ∧ ws = ss.flatMap Segment.encode ++ rest := by
  induction n generalizing ws with
  | zero =>
    simp only [segmentsWalk, Walk.complete.injEq] at h
    exact ⟨[], rfl, by simp [h]⟩
  | succ n ih =>
    match ws, h with
    | handle :: length :: offsetHi :: offsetLo :: ws, h =>
      simp only [segmentsWalk, skipOffset, Walk.bind_complete] at h
      split at h
      next => cases h
      next hl =>
        obtain ⟨ss, rfl, rfl⟩ := ih h
        exact ⟨⟨handle, length, offsetHi, offsetLo, Nat.not_lt.mp hl⟩ :: ss, rfl,
          by simp [Segment.encode]⟩
    | [_, length, _], h => simp [segmentsWalk, skipOffset] at h
    | [_, length], h => simp [segmentsWalk, skipOffset] at h
    | [_], h => simp [segmentsWalk] at h
    | [], h => simp [segmentsWalk] at h

theorem chunk_of_walk {maxSeg mark : Nat} (hm : mark ≠ 0)
    (h : chunkWalk maxSeg ws = .complete rest) :
    ∃ c : Chunk maxSeg, mark :: ws = c.encode ++ rest := by
  cases ws with
  | nil => cases h
  | cons segcount ws =>
    obtain ⟨ss, rfl, rfl⟩ := segments_of_walk h
    exact ⟨⟨mark, ss, hm⟩, rfl⟩

theorem readListWalk_encode {maxSeg q : Nat} {position : Option Nat}
    (es : List (ReadSegment maxSeg)) (hp : position.getD q = q) (hq : ∀ e ∈ es, e.position = q)
    (rest : List Nat) :
    readListWalk maxSeg position (es.flatMap ReadSegment.encode ++ 0 :: rest) =
      .complete rest := by
  induction es generalizing position with
  | nil => simp [readListWalk.eq_def]
  | cons e es ih =>
    obtain ⟨he, hes⟩ := List.forall_mem_cons.mp hq
    have hl : ¬ maxSeg < e.length := Nat.not_lt.mpr e.length_le
    have ih : readListWalk maxSeg (some q) _ = .complete rest := ih rfl hes
    simpa [ReadSegment.encode, readListWalk, e.mark_ne, he, hp, hl] using ih

theorem readList_of_walk {position : Option Nat}
    (h : readListWalk maxSeg position ws = .complete rest) :
    ∃ es : List (ReadSegment maxSeg), (∃ q, position.getD q = q ∧ ∀ e ∈ es, e.position = q) ∧
      ws = es.flatMap ReadSegment.encode ++ 0 :: rest := by
  fun_induction readListWalk maxSeg position ws with
  | case2 position ws =>
    cases h
    exact ⟨[], ⟨position.getD 0, by cases position <;> simp, by simp⟩, rfl⟩
  | case6 position mark hm pos hp handle length hl offsetHi offsetLo ws ih =>
    obtain ⟨es, ⟨q, hq, hes⟩, rfl⟩ := ih h
    obtain rfl : pos = q := hq
    refine ⟨⟨mark, pos, handle, length, offsetHi, offsetLo, hm, Nat.not_lt.mp hl⟩ :: es,
      ⟨pos, not_not.mp hp, ?_⟩, by simp [ReadSegment.encode]⟩
    simpa using hes
  | _ => cases h

theorem writeListWalk_encode {maxSeg allowed : Nat} (cs : List (Chunk maxSeg))
    (hc : cs.length ≤ allowed) (rest : List Nat) :
    writeListWalk maxSeg allowed (cs.flatMap Chunk.encode ++ 0 :: rest) =
      .complete (cs.length, rest) := by
  induction cs generalizing allowed with
  | nil => cases allowed <;> simp [writeListWalk]
  | cons c cs ih =>
    cases allowed with
    | zero => simp at hc
    | succ allowed =>
      have ih := ih (Nat.le_of_succ_le_succ hc)
      simp [Chunk.encode, writeListWalk, c.mark_ne, chunkWalk, segmentsWalk_encode, ih]

theorem writeList_of_walk {maxSeg allowed n : Nat}
    (h : writeListWalk maxSeg allowed ws = .complete (n, rest)) :
    ∃ cs : List (Chunk maxSeg), cs.length = n ∧ n ≤ allowed ∧
      ws = cs.flatMap Chunk.encode ++ 0 :: rest := by
  induction allowed generalizing n ws with
  | zero =>
    cases ws with
    | nil => simp [writeListWalk] at h
    | cons mark ws =>
      simp only [writeListWalk] at h
      split at h
      next hm => cases h; exact ⟨[], rfl, Nat.zero_le _, by simp [hm]⟩
      next => simp [Walk.bind_eq_complete] at h
  | succ allowed ih =>
    cases ws with
    | nil => simp [writeListWalk] at h
    | cons mark ws =>
      simp only [writeListWalk] at h
      split at h
      next hm => cases h; exact ⟨[], rfl, Nat.zero_le _, by simp [hm]⟩
      next hm =>
        obtain ⟨ws', hw, h⟩ := Walk.bind_eq_complete.mp h
        obtain ⟨⟨k, rest'⟩, hl, h⟩ := Walk.bind_eq_complete.mp h
        cases h
        obtain ⟨cs, rfl, hle, rfl⟩ := ih hl
        obtain ⟨c, hc⟩ := chunk_of_walk hm hw
        exact ⟨c :: cs, rfl, Nat.succ_le_succ hle, by rw [hc]; simp⟩

theorem replyChunkWalk_encode (reply : Option (Chunk maxSeg)) (rest : List Nat) :
    replyChunkWalk maxSeg (encodeReply reply ++ rest) = .complete rest := by
  cases reply with
  | none => rfl
  | some c => simp [encodeReply, Chunk.encode, replyChunkWalk, c.mark_ne, chunkWalk,
      segmentsWalk_encode]

theorem replyChunk_of_walk (h : replyChunkWalk maxSeg ws = .complete rest) :
    ∃ reply : Option (Chunk maxSeg), ws = encodeReply reply ++ rest := by
  cases ws with
  | nil => cases h
  | cons mark ws =>
    simp only [replyChunkWalk] at h
    split at h
    next hm => cases h; exact ⟨none, by simp [encodeReply, hm]⟩
    next hm =>
      obtain ⟨c, hc⟩ := chunk_of_walk hm h
      exact ⟨some c, hc⟩

/-- Well-formed lists with at most two write chunks are walked to their end. -/
theorem listsWalk_encode {maxRead maxWrite : Nat} {reads : List (ReadSegment maxRead)}
    {writes : List (Chunk maxWrite)} (hr : ∃ q, ∀ e ∈ reads, e.position = q)
    (hw : writes.length ≤ 2) (reply : Option (Chunk maxRead)) (rest : List Nat) :
    listsWalk maxRead maxWrite (encodeLists reads writes reply ++ rest) =
      .complete (writes.length, rest) := by
  obtain ⟨q, hq⟩ := hr
  simp only [listsWalk, encodeLists, List.append_assoc, List.cons_append]
  rw [readListWalk_encode (q := q) reads rfl hq, Walk.bind_complete,
    writeListWalk_encode writes hw, Walk.bind_complete, replyChunkWalk_encode]
  rfl

theorem lists_of_walk {maxRead maxWrite n : Nat}
    (h : listsWalk maxRead maxWrite ws = .complete (n, rest)) :
    ∃ (reads : List (ReadSegment maxRead)) (writes : List (Chunk maxWrite))
      (reply : Option (Chunk maxRead)), (∃ q, ∀ e ∈ reads, e.position = q) ∧
      writes.length = n ∧ n ≤ 2 ∧ ws = encodeLists reads writes reply ++ rest := by
  obtain ⟨ws₁, hread, h⟩ := Walk.bind_eq_complete.mp h
  obtain ⟨⟨k, ws₂⟩, hwrite, h⟩ := Walk.bind_eq_complete.mp h
  obtain ⟨ws₃, hreply, h⟩ := Walk.bind_eq_complete.mp h
  cases h
  obtain ⟨reads, ⟨q, -, hq⟩, rfl⟩ := readList_of_walk hread
  obtain ⟨writes, rfl, hle, rfl⟩ := writeList_of_walk hwrite
  obtain ⟨reply, rfl⟩ := replyChunk_of_walk hreply
  exact ⟨reads, writes, reply, ⟨q, hq⟩, rfl, hle, by simp [encodeLists]⟩

end Svcrdma
