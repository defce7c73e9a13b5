-- SUMMARY: The receiving side of RMPP (`mad_rmpp.c`).
import Mathlib.Algebra.Order.Group.Int
import Mathlib.Algebra.Order.Group.Nat
import Mathlib.Data.List.Pairwise
import OfaKernel.Lib.CInt
import OfaKernel.Lib.Run

/-!
# RMPP reassembly

`seg_num` counts the segments of a transaction that are in `rmpp_list` without a gap and
`cur_seg_buf` is the last of them.
-/

open List

namespace Rmpp

/-! ## Segments and transactions -/

/-- A DATA segment: the `seg_num` and `paylen_newwin` words of its RMPP header,
its LAST flag, and the data behind the header. -/
structure Seg (δ : Type) where
  segNum : Nat
  paylenNewwin : Nat
  last : Bool
  data : δ
  deriving DecidableEq

/-- `get_seg_num`, which returns an `int`. -/
def Seg.num {δ : Type} (s : Seg δ) : Int := I32.wrap s.segNum

inductive RmppState where
  | active
  | timeout
  | complete
  | canceling
  deriving DecidableEq, Repr

/-- The size of the receive queue of the agent, between `IB_MAD_QP_MIN_SIZE` and
`IB_MAD_QP_MAX_SIZE`. -/
structure RecvQueue where
  maxActive : Nat
  min_le : 64 ≤ maxActive
  le_max : maxActive ≤ 8192

def RecvQueue.windowSize (q : RecvQueue) : Int := max (q.maxActive >>> 3) 1

/-- `struct mad_rmpp_recv`. `curSegBuf` is the position of `cur_seg_buf` in the list. -/
structure RmppRecv (δ : Type) where
  state : RmppState
  mgmtClass : Nat
  rmppList : List (Seg δ)
  curSegBuf : Nat
  lastAck : Int
  segNum : Int
  newwin : Int

/-- An ACK: `seg_num` and `paylen_newwin`. -/
structure Ack where
  segNum : Int
  newwin : Int
  deriving DecidableEq, Repr

/-- What a call leaves: the transaction, the ACKs sent, and `mad_len` of the work
completion that it returns. -/
structure Outcome (δ : Type) where
  recv : RmppRecv δ
  acks : List Ack
  done : Option Int

variable {δ : Type}

def madDataOffset (mgmtClass : Nat) : Nat :=
  if mgmtClass = 0x03 then 56
  else if mgmtClass = 0x06 ∨ mgmtClass = 0x10 ∨ mgmtClass = 0x12 then 64
  else if 0x30 ≤ mgmtClass ∧ mgmtClass ≤ 0x4f then 40
  else 24

namespace RmppRecv

/-- `get_last_flag(rmpp_recv->cur_seg_buf)`. -/
def curLast (r : RmppRecv δ) : Bool := (r.rmppList[r.curSegBuf]?).any (·.last)

/-- `ack_recv`. When no send buffer can be had, nothing changes. -/
def ackRecv (r : RmppRecv δ) (ok : Bool) : RmppRecv δ × List Ack :=
  if ok then ({ r with lastAck := r.segNum }, [⟨r.segNum, r.newwin⟩]) else (r, [])

/-- `get_mad_len`, without OPA. -/
def madLen (r : RmppRecv δ) : Int :=
  let hdrSize : Int := madDataOffset r.mgmtClass
  let dataSize : Int := 256 - hdrSize
  let pad := I32.wrap (220 - ((r.rmppList[r.curSegBuf]?).elim 0 fun s => (s.paylenNewwin : Int)))
  let pad := if pad > 220 ∨ pad < 0 then 0 else pad
  I32.wrap (hdrSize + r.segNum * dataSize - pad)

def completeRmpp (r : RmppRecv δ) (ackOk : Bool) : Outcome δ :=
  let (r, acks) := r.ackRecv ackOk
  { recv := r, acks := acks, done := some r.madLen }

end RmppRecv

/-- The scan of `find_seg_location`, from the end of the list: the position of the
first segment it meets with a smaller number. -/
def scanBack (segNum : Int) : List (Seg δ) → Option Nat
  | [] => none
  | s :: rest =>
    if segNum > s.num then some rest.length
    else if segNum = s.num then none
    else scanBack segNum rest

def findSegLocation (l : List (Seg δ)) (segNum : Int) : Option Nat := scanBack segNum l.reverse

/-- `update_seg_num`: `bufs` are the segments from position `pos` on. -/
def updateSegNum : List (Seg δ) → Nat → RmppRecv δ → RmppRecv δ
  | [], _, r => r
  | s :: rest, pos, r =>
    if s.num = I32.wrap (r.segNum + 1) then
      updateSegNum rest (pos + 1) { r with curSegBuf := pos, segNum := I32.wrap (r.segNum + 1) }
    else r

/-- `list_add(&new->list, &prev->list)`, with `prev` at position `prev`. -/
def RmppRecv.listAdd (r : RmppRecv δ) (prev : Nat) (seg : Seg δ) : RmppRecv δ :=
  { r with
    rmppList := r.rmppList.take (prev + 1) ++ seg :: r.rmppList.drop (prev + 1)
    curSegBuf := if prev < r.curSegBuf then r.curSegBuf + 1 else r.curSegBuf }

/-- `continue_rmpp`, once the transaction is found. -/
def continueRmpp (q : RecvQueue) (ackOk : Bool) (r : RmppRecv δ) (seg : Seg δ) : Outcome δ :=
  if r.state = .timeout ∨ seg.num > r.newwin then ⟨r, [], none⟩
  else if seg.num ≤ r.lastAck ∨ r.state = .complete then
    ⟨(r.ackRecv ackOk).1, (r.ackRecv ackOk).2, none⟩
  else
    match findSegLocation r.rmppList seg.num with
    | none => ⟨r, [], none⟩
    | some prev =>
      let r' := r.listAdd prev seg
      if r.curSegBuf = prev then
        let r' := updateSegNum (r'.rmppList.drop (prev + 1)) (prev + 1) r'
        if r'.curLast then { r' with state := .complete }.completeRmpp ackOk
        else if r'.segNum = r'.newwin then
          let r' := { r' with newwin := I32.wrap (r'.newwin + q.windowSize) }
          ⟨(r'.ackRecv ackOk).1, (r'.ackRecv ackOk).2, none⟩
        else ⟨r', [], none⟩
      else ⟨r', [], none⟩

def createRmppRecv (mgmtClass : Nat) (seg : Seg δ) : RmppRecv δ :=
  { state := .active, mgmtClass := mgmtClass, rmppList := [seg], curSegBuf := 0
    lastAck := 0, segNum := 1, newwin := 1 }

/-- `start_rmpp`, when no transaction is there for the segment. -/
def startRmpp (q : RecvQueue) (ackOk : Bool) (mgmtClass : Nat) (seg : Seg δ) : Outcome δ :=
  let r := createRmppRecv mgmtClass seg
  if seg.last then { r with state := .complete }.completeRmpp ackOk
  else
    let r := { r with newwin := I32.wrap (r.newwin + q.windowSize) }
    ⟨(r.ackRecv ackOk).1, (r.ackRecv ackOk).2, none⟩

/-! ## The reassembly invariant -/

/-- What the list and the counters of a transaction say about each other. -/
structure Reassembled (r : RmppRecv δ) : Prop where
  increasing : r.rmppList.Pairwise fun s t => s.num < t.num
  head : r.rmppList.head?.map Seg.num = some 1
  prefix_eq : ∀ i : Nat, (i : Int) < r.segNum → r.rmppList[i]?.map Seg.num = some ((i : Int) + 1)
  cur : r.rmppList[r.curSegBuf]?.map Seg.num = some r.segNum
  gap : ∀ s ∈ r.rmppList, s.num ≠ r.segNum + 1
  ack_le : r.lastAck ≤ r.segNum
  le_newwin : r.segNum ≤ r.newwin

/-- A transaction with the number of completions it returned. -/
structure RecvRun (δ : Type) where
  recv : RmppRecv δ
  completions : Nat

namespace RecvRun

def start (q : RecvQueue) (ackOk : Bool) (mgmtClass : Nat) (seg : Seg δ) : RecvRun δ :=
  let o := startRmpp q ackOk mgmtClass seg
  ⟨o.recv, if o.done.isSome then 1 else 0⟩

/-- One more segment; whether an ACK can be sent comes with it. -/
def step (q : RecvQueue) (s : RecvRun δ) (call : Bool × Seg δ) : RecvRun δ :=
  let o := continueRmpp q call.1 s.recv call.2
  ⟨o.recv, if o.done.isSome then s.completions + 1 else s.completions⟩

/-- The transaction is reassembled, and it is returned at most once, with the LAST
flag on `cur_seg_buf`. -/
structure Good (s : RecvRun δ) : Prop where
  reassembled : Reassembled s.recv
  once : s.completions ≤ 1
  last : s.completions = 1 → s.recv.curLast = true

/-- With this segment the window is full: everything up to `newwin` is there, and
the segment of that number is not the last. -/
structure FillsWindow (r : RmppRecv δ) (seg : Seg δ) : Prop where
  active : r.state = .active
  full : ∀ n : Int, 1 ≤ n → n ≤ r.newwin → ∃ s ∈ seg :: r.rmppList, s.num = n
  more : ∀ s ∈ seg :: r.rmppList, s.num = r.newwin → s.last = false

/-- The condition on each segment: a window that it fills can still grow as an `int`. -/
def WindowFits (q : RecvQueue) (s : RecvRun δ) (call : Bool × Seg δ) : Prop :=
  FillsWindow s.recv call.2 → s.recv.newwin + q.windowSize < 2 ^ 31

end RecvRun

theorem scanBack_some {n : Int} {l : List (Seg δ)} {p : Nat} (h : scanBack n l = some p) :
    ∃ b x a, l = b ++ x :: a ∧ a.length = p ∧ x.num < n ∧ ∀ s ∈ b, n < s.num := by
  induction l with
  | nil => simp [scanBack] at h
  | cons s rest ih =>
    rw [scanBack] at h
    by_cases h1 : n > s.num
    · rw [if_pos h1, Option.some.injEq] at h
      exact ⟨[], s, rest, rfl, h, h1, by simp⟩
    · rw [if_neg h1] at h
      by_cases h2 : n = s.num
      · simp [h2] at h
      · rw [if_neg h2] at h
        obtain ⟨b, x, a, rfl, ha, hx, hb⟩ := ih h
        refine ⟨s :: b, x, a, rfl, ha, hx, fun t ht => ?_⟩
        rcases mem_cons.mp ht with rfl | ht
        · omega
        · exact hb t ht

/-- A place is found behind a smaller number, with only larger ones after it. -/
theorem findSegLocation_some {n : Int} {l : List (Seg δ)} {p : Nat}
    (h : findSegLocation l n = some p) :
    ∃ a x b, l = a ++ x :: b ∧ a.length = p ∧ x.num < n ∧ ∀ s ∈ b, n < s.num := by
  obtain ⟨b, x, a, hl, ha, hx, hb⟩ := scanBack_some h
  refine ⟨a.reverse, x, b.reverse, ?_, by simpa using ha, hx, by simpa using hb⟩
  simpa using congrArg List.reverse hl

/-! ## The list in two parts -/

/-- The segments without a gap, and those behind it. -/
structure Gapless (r : RmppRecv δ) (pre rest : List (Seg δ)) : Prop where
  list_eq : r.rmppList = pre ++ rest
  nums : ∀ i (h : i < pre.length), pre[i].num = (i : Int) + 1
  segNum_eq : r.segNum = pre.length
  cur_eq : r.curSegBuf + 1 = pre.length
  sorted : rest.Pairwise fun s t => s.num < t.num
  above : ∀ s ∈ rest, (pre.length : Int) < s.num

namespace Gapless

variable {r : RmppRecv δ} {pre rest : List (Seg δ)}

theorem pos (h : Gapless r pre rest) : 0 < pre.length := by
  have := h.cur_eq
  omega

theorem num_le (h : Gapless r pre rest) {s : Seg δ} (hs : s ∈ pre) :
    1 ≤ s.num ∧ s.num ≤ pre.length := by
  obtain ⟨i, hi, rfl⟩ := mem_iff_getElem.mp hs
  rw [h.nums i hi]
  omega

theorem increasing (h : Gapless r pre rest) :
    r.rmppList.Pairwise fun s t => s.num < t.num := by
  rw [h.list_eq, pairwise_append]
  refine ⟨?_, h.sorted, fun s hs t ht => ?_⟩
  · rw [pairwise_iff_getElem]
    intro i j hi hj hij
    rw [h.nums i hi, h.nums j hj]
    omega
  · have := (h.num_le hs).2
    have := h.above t ht
    omega

theorem cur_lt (h : Gapless r pre rest) : r.curSegBuf < pre.length := by
  have := h.cur_eq
  omega

theorem getElem?_cur (h : Gapless r pre rest) (hlt : r.curSegBuf < pre.length) :
    r.rmppList[r.curSegBuf]? = some pre[r.curSegBuf] := by
  rw [h.list_eq, List.getElem?_append_left hlt, List.getElem?_eq_getElem hlt]

theorem reassembled (h : Gapless r pre rest) (hgap : ∀ s ∈ rest, s.num ≠ pre.length + 1)
    (hack : r.lastAck ≤ r.segNum) (hwin : r.segNum ≤ r.newwin) : Reassembled r := by
  have hpos := h.pos
  refine ⟨h.increasing, ?_, fun i hi => ?_, ?_, fun s hs => ?_, hack, hwin⟩
  · have h0 := h.nums 0 hpos
    cases pre with
    | nil => simp at hpos
    | cons s pre => simpa [h.list_eq] using h0
  · rw [h.segNum_eq] at hi
    have hi' : i < pre.length := by omega
    rw [h.list_eq, List.getElem?_append_left hi', List.getElem?_eq_getElem hi', Option.map_some,
      h.nums i hi']
  · have hc := h.cur_eq
    rw [h.getElem?_cur h.cur_lt, Option.map_some, h.nums _ (by omega), h.segNum_eq]
    congr 1
    omega
  · rw [h.segNum_eq]
    rw [h.list_eq, mem_append] at hs
    rcases hs with hs | hs
    · have := (h.num_le hs).2
      omega
    · exact hgap s hs

/-- The next segment moves from the second part to the first. -/
theorem snoc {s : Seg δ} (h : Gapless r pre (s :: rest)) (hs : s.num = pre.length + 1) :
    Gapless { r with curSegBuf := pre.length, segNum := pre.length + 1 } (pre ++ [s]) rest := by
  have hsorted := pairwise_cons.mp h.sorted
  refine ⟨by simp [h.list_eq], fun i hi => ?_, by simp, by simp, hsorted.2, fun t ht => ?_⟩
  · by_cases hlt : i < pre.length
    · rw [getElem_append_left hlt, h.nums i hlt]
    · have hi' : i = pre.length := by
        simp only [length_append, length_singleton] at hi
        omega
      subst hi'
      simp [hs]
  · have := hsorted.1 t ht
    simp only [length_append, length_singleton]
    omega

/-- `update_seg_num` stops in front of the first gap. -/
theorem update (h : Gapless r pre rest) :
    ∃ more rest', rest = more ++ rest' ∧
      Gapless (updateSegNum rest pre.length r) (pre ++ more) rest' ∧
      ∀ s ∈ rest', s.num ≠ (pre ++ more).length + 1 := by
  induction rest generalizing pre r with
  | nil => exact ⟨[], [], rfl, by simpa [updateSegNum] using h, by simp⟩
  | cons s rest ih =>
    have hlt := (I32.wrap_range s.segNum).2
    have habove := h.above s mem_cons_self
    have hwrap : I32.wrap (r.segNum + 1) = pre.length + 1 := by
      rw [h.segNum_eq]
      unfold Seg.num at habove
      exact I32.wrap_of_range (by omega) (by omega)
    rw [updateSegNum, hwrap]
    by_cases hs : s.num = pre.length + 1
    · rw [if_pos hs]
      obtain ⟨more, rest', hrest, hg, hgap⟩ := ih (h.snoc hs)
      rw [length_append, length_singleton, append_assoc] at hg
      rw [append_assoc] at hgap
      exact ⟨s :: more, rest', by rw [hrest, cons_append], hg, hgap⟩
    · rw [if_neg hs]
      refine ⟨[], s :: rest, rfl, by simpa using h, fun t ht => ?_⟩
      rw [append_nil]
      rcases mem_cons.mp ht with rfl | ht
      · exact hs
      · have := (pairwise_cons.mp h.sorted).1 t ht
        omega

/-- A segment that has a place goes behind the segments without a gap. -/
theorem listAdd {seg : Seg δ} {p : Nat} (h : Gapless r pre rest)
    (hfind : findSegLocation r.rmppList seg.num = some p) :
    ∃ c b, rest = c ++ b ∧ r.curSegBuf + c.length = p ∧ (∀ s ∈ c, s.num < seg.num) ∧
      Gapless (r.listAdd p seg) pre (c ++ seg :: b) := by
  obtain ⟨a, x, b, hl, rfl, hx, hb⟩ := findSegLocation_some hfind
  have hcur := h.cur_eq
  have hlist := h.list_eq
  have hsorted := h.increasing
  -- everything up to `cur_seg_buf` stands in front of the new segment
  have hle : r.curSegBuf ≤ a.length := by
    by_contra hlt
    have hnext : a.length + 1 < pre.length := by omega
    have hxe : (pre ++ rest)[a.length]? = some x := by rw [← hlist, hl]; simp
    rw [List.getElem?_append_left (by omega), List.getElem?_eq_getElem (by omega),
      Option.some.injEq] at hxe
    have hxn := h.nums a.length (by omega)
    have hye : (pre ++ rest)[a.length + 1]? = b[0]? := by
      rw [← hlist, hl, List.getElem?_append_right (by omega)]
      simp
    rw [List.getElem?_append_left hnext, List.getElem?_eq_getElem hnext] at hye
    have hyb := hb _ (mem_of_getElem? hye.symm)
    rw [h.nums _ hnext] at hyb
    rw [hxe] at hxn
    omega
  have happ : pre ++ rest = (a ++ [x]) ++ b := by rw [← hlist, hl]; simp
  obtain ⟨c, hc, hrest⟩ : ∃ c, a ++ [x] = pre ++ c ∧ rest = c ++ b := by
    rcases append_eq_append_iff.mp happ with ⟨c, h1, h2⟩ | ⟨c, h1, h2⟩
    · exact ⟨c, h1, h2⟩
    · have hlen := congrArg List.length h1
      simp only [length_append, length_singleton] at hlen
      have hc : c = [] := length_eq_zero_iff.mp (by omega)
      subst hc
      exact ⟨[], by simp [h1], by simpa using h2.symm⟩
  have hlen : a.length + 1 = pre.length + c.length := by
    simpa using congrArg List.length hc
  have hax : ∀ s ∈ a ++ [x], s.num < seg.num := by
    intro s hs
    rcases mem_append.mp hs with hs | hs
    · rw [hl] at hsorted
      have := (pairwise_append.mp hsorted).2.2 s hs x mem_cons_self
      omega
    · rw [mem_singleton.mp hs]
      exact hx
  have hcs : ∀ s ∈ c, s.num < seg.num := fun s hs =>
    hax s (by rw [hc]; exact mem_append_right _ hs)
  refine ⟨c, b, hrest, by omega, hcs, ?_⟩
  have hsr := h.sorted
  rw [hrest, pairwise_append] at hsr
  refine ⟨?_, h.nums, h.segNum_eq, ?_, ?_, ?_⟩
  · have htake : r.rmppList.take (a.length + 1) = a ++ [x] := by
      rw [hl, show a ++ x :: b = (a ++ [x]) ++ b by simp]
      exact take_left' (by simp)
    have hdrop : r.rmppList.drop (a.length + 1) = b := by
      rw [hl, show a ++ x :: b = (a ++ [x]) ++ b by simp]
      exact drop_left' (by simp)
    rw [RmppRecv.listAdd, htake, hdrop, hc, append_assoc]
  · simp only [RmppRecv.listAdd, if_neg (show ¬a.length < r.curSegBuf by omega)]
    exact hcur
  · rw [pairwise_append]
    refine ⟨hsr.1, pairwise_cons.mpr ⟨hb, hsr.2.1⟩, fun s hs t ht => ?_⟩
    rcases mem_cons.mp ht with rfl | ht
    · exact hcs s hs
    · exact hsr.2.2 s hs t ht
  · have hpre : (pre.length : Int) < seg.num := by
      have hlast : pre[pre.length - 1] ∈ a ++ [x] := by
        rw [hc]
        exact mem_append_left _ (getElem_mem _)
      have := hax _ hlast
      rw [h.nums] at this
      omega
    intro s hs
    rcases mem_append.mp hs with hs | hs
    · exact h.above s (by rw [hrest]; exact mem_append_left _ hs)
    · rcases mem_cons.mp hs with rfl | hs
      · exact hpre
      · exact h.above s (by rw [hrest]; exact mem_append_right _ hs)

end Gapless

section Frame

variable (bufs : List (Seg δ)) (pos : Nat) (r : RmppRecv δ)

@[simp] theorem updateSegNum_state : (updateSegNum bufs pos r).state = r.state := by
  induction bufs generalizing pos r with
  | nil => rfl
  | cons s rest ih => rw [updateSegNum]; split <;> simp [ih]

@[simp] theorem updateSegNum_lastAck : (updateSegNum bufs pos r).lastAck = r.lastAck := by
  induction bufs generalizing pos r with
  | nil => rfl
  | cons s rest ih => rw [updateSegNum]; split <;> simp [ih]

@[simp] theorem updateSegNum_newwin : (updateSegNum bufs pos r).newwin = r.newwin := by
  induction bufs generalizing pos r with
  | nil => rfl
  | cons s rest ih => rw [updateSegNum]; split <;> simp [ih]

@[simp] theorem updateSegNum_rmppList : (updateSegNum bufs pos r).rmppList = r.rmppList := by
  induction bufs generalizing pos r with
  | nil => rfl
  | cons s rest ih => rw [updateSegNum]; split <;> simp [ih]

@[simp] theorem updateSegNum_mgmtClass : (updateSegNum bufs pos r).mgmtClass = r.mgmtClass := by
  induction bufs generalizing pos r with
  | nil => rfl
  | cons s rest ih => rw [updateSegNum]; split <;> simp [ih]

end Frame

theorem mem_listAdd {r : RmppRecv δ} {p : Nat} {seg t : Seg δ} :
    t ∈ (r.listAdd p seg).rmppList ↔ t ∈ seg :: r.rmppList := by
  have happ := take_append_drop (p + 1) r.rmppList
  constructor
  · intro ht
    rcases mem_append.mp ht with ht | ht
    · exact mem_cons_of_mem _ (mem_of_mem_take ht)
    · rcases mem_cons.mp ht with rfl | ht
      · exact mem_cons_self
      · exact mem_cons_of_mem _ (mem_of_mem_drop ht)
  · intro ht
    rcases mem_cons.mp ht with rfl | ht
    · exact mem_append_right _ mem_cons_self
    · rw [← happ] at ht
      rcases mem_append.mp ht with ht | ht
      · exact mem_append_left _ ht
      · exact mem_append_right _ (mem_cons_of_mem _ ht)

theorem RecvQueue.windowSize_range (q : RecvQueue) : 8 ≤ q.windowSize ∧ q.windowSize ≤ 1024 := by
  have h1 := q.min_le
  have h2 := q.le_max
  unfold windowSize
  omega

/-! ## The invariant of a run -/

namespace RecvRun

/-- What every segment keeps: the transaction waits for more inside its window,
or it is complete and returned. -/
structure Inv (s : RecvRun δ) : Prop where
  gapless : ∃ pre rest, Gapless s.recv pre rest ∧ ∀ t ∈ rest, t.num ≠ pre.length + 1
  within : ∀ t ∈ s.recv.rmppList, t.num ≤ s.recv.newwin
  ack_le : s.recv.lastAck ≤ s.recv.segNum
  le_newwin : s.recv.segNum ≤ s.recv.newwin
  phase : (s.recv.state = .active ∧ s.completions = 0 ∧ s.recv.curLast = false ∧
      s.recv.segNum < s.recv.newwin) ∨
    (s.recv.state = .complete ∧ s.completions = 1 ∧ s.recv.curLast = true)

theorem Inv.good {s : RecvRun δ} (h : s.Inv) : s.Good := by
  obtain ⟨pre, rest, hg, hgap⟩ := h.gapless
  refine ⟨hg.reassembled hgap h.ack_le h.le_newwin, ?_, ?_⟩
  · rcases h.phase with ⟨-, hc, -, -⟩ | ⟨-, hc, -⟩ <;> omega
  · intro h1
    rcases h.phase with ⟨-, hc, -, -⟩ | ⟨-, -, hl⟩
    · omega
    · exact hl

/-- An ACK records `seg_num` and changes nothing else. -/
theorem Inv.ackRecv {r : RmppRecv δ} {n : Nat} (h : Inv ⟨r, n⟩) (ok : Bool) :
    Inv ⟨(r.ackRecv ok).1, n⟩ := by
  cases ok with
  | false => exact h
  | true =>
    obtain ⟨pre, rest, hg, hgap⟩ := h.gapless
    exact ⟨⟨pre, rest, ⟨hg.list_eq, hg.nums, hg.segNum_eq, hg.cur_eq, hg.sorted, hg.above⟩, hgap⟩,
      h.within, le_refl _, h.le_newwin, h.phase⟩

theorem Inv.add_behind_gap {r : RmppRecv δ} {n p : Nat} {seg : Seg δ} (h : Inv ⟨r, n⟩)
    (hwin : seg.num ≤ r.newwin) (hfind : findSegLocation r.rmppList seg.num = some p)
    (hp : r.curSegBuf ≠ p) : Inv ⟨r.listAdd p seg, n⟩ := by
  obtain ⟨pre, rest, hg, hgap⟩ : ∃ pre rest, Gapless r pre rest ∧
      ∀ t ∈ rest, t.num ≠ pre.length + 1 := h.gapless
  obtain ⟨c, b, hrest, hlen, hcs, hg'⟩ := hg.listAdd hfind
  have hlast : (r.listAdd p seg).curLast = r.curLast := by
    have hcur : (r.listAdd p seg).curSegBuf = r.curSegBuf := by
      have h1 := hg'.cur_eq
      have h2 := hg.cur_eq
      omega
    rw [RmppRecv.curLast, RmppRecv.curLast, hg'.getElem?_cur hg'.cur_lt, hg.getElem?_cur hg.cur_lt]
    simp only [hcur]
  refine ⟨⟨pre, c ++ seg :: b, hg', fun t ht => ?_⟩, fun t ht => ?_, h.ack_le, h.le_newwin, ?_⟩
  · have hc : c ≠ [] := by
      rintro rfl
      exact hp (by simpa using hlen)
    obtain ⟨y, hy⟩ := exists_mem_of_ne_nil c hc
    have hyr : y ∈ rest := by
      rw [hrest]
      exact mem_append_left _ hy
    have h1 := hg.above y hyr
    have h3 := hcs y hy
    rcases mem_append.mp ht with ht | ht
    · exact hgap t (by rw [hrest]; exact mem_append_left _ ht)
    · rcases mem_cons.mp ht with rfl | ht
      · omega
      · exact hgap t (by rw [hrest]; exact mem_append_right _ ht)
  · rcases mem_cons.mp (mem_listAdd.mp ht) with rfl | ht
    · exact hwin
    · exact h.within t ht
  · have hphase := h.phase
    simp only [hlast]
    exact hphase

/-- The transaction after the segment behind `cur_seg_buf` has come and
`update_seg_num` has run. -/
structure Advanced (r : RmppRecv δ) (seg : Seg δ) (r' : RmppRecv δ) : Prop where
  gapless : ∃ pre rest, Gapless r' pre rest ∧ ∀ t ∈ rest, t.num ≠ pre.length + 1
  mem_iff : ∀ t, t ∈ r'.rmppList ↔ t ∈ seg :: r.rmppList
  within : ∀ t ∈ r'.rmppList, t.num ≤ r'.newwin
  ack_le : r'.lastAck ≤ r'.segNum
  le_newwin : r'.segNum ≤ r'.newwin
  state_eq : r'.state = r.state
  newwin_eq : r'.newwin = r.newwin

theorem Inv.advance {r : RmppRecv δ} {n : Nat} {seg : Seg δ} (h : Inv ⟨r, n⟩)
    (hwin : seg.num ≤ r.newwin)
    (hfind : findSegLocation r.rmppList seg.num = some r.curSegBuf) :
    Advanced r seg (updateSegNum ((r.listAdd r.curSegBuf seg).rmppList.drop (r.curSegBuf + 1))
      (r.curSegBuf + 1) (r.listAdd r.curSegBuf seg)) := by
  obtain ⟨pre, rest, hg, hgap⟩ : ∃ pre rest, Gapless r pre rest ∧
      ∀ t ∈ rest, t.num ≠ pre.length + 1 := h.gapless
  obtain ⟨c, b, hrest, hlen, -, hg'⟩ := hg.listAdd hfind
  have hc : c = [] := length_eq_zero_iff.mp (by omega)
  subst hc
  have hdrop : (r.listAdd r.curSegBuf seg).rmppList.drop (r.curSegBuf + 1) = seg :: b := by
    rw [hg'.list_eq, hg.cur_eq]
    exact drop_left' rfl
  obtain ⟨more, rest', hmore, hg'', hgap''⟩ := hg'.update
  rw [hdrop, hg.cur_eq]
  rw [nil_append] at hg'' hmore
  have hmem : ∀ t, t ∈ (updateSegNum (seg :: b) pre.length (r.listAdd r.curSegBuf seg)).rmppList ↔
      t ∈ seg :: r.rmppList := fun t => by
    rw [updateSegNum_rmppList]
    exact mem_listAdd
  have hseg := hg''.segNum_eq
  have hnewwin : (updateSegNum (seg :: b) pre.length (r.listAdd r.curSegBuf seg)).newwin =
      r.newwin := by
    simp [RmppRecv.listAdd]
  have hwithin : ∀ t ∈ (updateSegNum (seg :: b) pre.length
      (r.listAdd r.curSegBuf seg)).rmppList, t.num ≤ r.newwin := fun t ht => by
    rcases mem_cons.mp ((hmem t).mp ht) with rfl | ht
    · exact hwin
    · exact h.within t ht
  refine ⟨⟨_, _, hg'', hgap''⟩, hmem, by rwa [hnewwin], ?_, ?_, by simp [RmppRecv.listAdd], hnewwin⟩
  · have h1 : r.lastAck ≤ r.segNum := h.ack_le
    have h2 := hg.segNum_eq
    rw [hseg, updateSegNum_lastAck]
    simp only [length_append]
    have h3 : (r.listAdd r.curSegBuf seg).lastAck = r.lastAck := rfl
    omega
  · have hpos := hg''.pos
    have hlast := hg''.nums ((pre ++ more).length - 1) (by omega)
    have hle := hwithin (pre ++ more)[(pre ++ more).length - 1] (by
      rw [hg''.list_eq]
      exact mem_append_left _ (getElem_mem _))
    omega

/-- When the segment brings `seg_num` to the end of the window, it fills it. -/
theorem Advanced.fillsWindow {r r' : RmppRecv δ} {seg : Seg δ} (h : Advanced r seg r')
    (hactive : r.state = .active) (hend : r'.segNum = r'.newwin) (hlast : r'.curLast = false) :
    FillsWindow r seg := by
  obtain ⟨pre, rest, hg, -⟩ := h.gapless
  have hseg := hg.segNum_eq
  rw [h.newwin_eq] at hend
  refine ⟨hactive, fun n h1 h2 => ?_, fun s hs hnum => ?_⟩
  · have hlt : (n - 1).toNat < pre.length := by omega
    refine ⟨pre[(n - 1).toNat], (h.mem_iff _).mp ?_, ?_⟩
    · rw [hg.list_eq]
      exact mem_append_left _ (getElem_mem hlt)
    · rw [hg.nums _ hlt]
      omega
  · have hin := (h.mem_iff s).mpr hs
    rw [hg.list_eq] at hin
    rcases mem_append.mp hin with hin | hin
    · obtain ⟨i, hi, rfl⟩ := mem_iff_getElem.mp hin
      have hcur := hg.cur_eq
      rw [hg.nums i hi] at hnum
      have hic : i = r'.curSegBuf := by omega
      rw [RmppRecv.curLast, hg.getElem?_cur hg.cur_lt] at hlast
      subst hic
      simpa using hlast
    · have := hg.above s hin
      omega

theorem Advanced.inv_done {r r' : RmppRecv δ} {seg : Seg δ} (h : Advanced r seg r')
    (hlast : r'.curLast = true) : Inv ⟨{ r' with state := .complete }, 1⟩ := by
  obtain ⟨pre, rest, hg, hgap⟩ := h.gapless
  exact ⟨⟨pre, rest, ⟨hg.list_eq, hg.nums, hg.segNum_eq, hg.cur_eq, hg.sorted, hg.above⟩, hgap⟩,
    h.within, h.ack_le, h.le_newwin, .inr ⟨rfl, rfl, hlast⟩⟩

/-- The window grows, and stays an `int`. -/
theorem Advanced.inv_grow {q : RecvQueue} {r r' : RmppRecv δ} {seg : Seg δ}
    (h : Advanced r seg r') (hactive : r.state = .active) (hlast : r'.curLast = false)
    (hend : r'.segNum = r'.newwin)
    (hroom : FillsWindow r seg → r.newwin + q.windowSize < 2 ^ 31) :
    Inv ⟨{ r' with newwin := I32.wrap (r'.newwin + q.windowSize) }, 0⟩ := by
  obtain ⟨pre, rest, hg, hgap⟩ := h.gapless
  have hsize := q.windowSize_range
  have hseg := hg.segNum_eq
  have hlt := hroom (h.fillsWindow hactive hend hlast)
  rw [← h.newwin_eq] at hlt
  have hw : I32.wrap (r'.newwin + q.windowSize) = r'.newwin + q.windowSize :=
    I32.wrap_of_range (by omega) hlt
  refine ⟨⟨pre, rest, ⟨hg.list_eq, hg.nums, hg.segNum_eq, hg.cur_eq, hg.sorted, hg.above⟩, hgap⟩,
    fun t ht => ?_, h.ack_le, ?_, .inl ⟨h.state_eq.trans hactive, rfl, hlast, ?_⟩⟩
  · have := h.within t ht
    simp only
    omega
  · simp only
    omega
  · simp only
    omega

/-- The step lemma: a segment whose window fits keeps the invariant. -/
theorem step_inv {q : RecvQueue} {s : RecvRun δ} {call : Bool × Seg δ} (h : s.Inv)
    (hfits : WindowFits q s call) : (step q s call).Inv := by
  obtain ⟨r, n⟩ := s
  obtain ⟨ok, seg⟩ := call
  unfold step continueRmpp
  by_cases hdrop : r.state = .timeout ∨ seg.num > r.newwin
  · simpa [if_pos hdrop] using h
  · rw [if_neg hdrop]
    have hwin : seg.num ≤ r.newwin := by
      by_contra hgt
      exact hdrop (.inr (by omega))
    by_cases hack : seg.num ≤ r.lastAck ∨ r.state = .complete
    · simpa [if_pos hack] using h.ackRecv ok
    · rw [if_neg hack]
      cases hfind : findSegLocation r.rmppList seg.num with
      | none => simpa using h
      | some prev =>
        obtain ⟨hactive, hn, -, -⟩ : r.state = .active ∧ n = 0 ∧ r.curLast = false ∧
            r.segNum < r.newwin := by
          rcases h.phase with hph | ⟨hst, -, -⟩
          · exact hph
          · exact absurd (.inr hst) hack
        by_cases hcur : r.curSegBuf = prev
        · subst hcur
          have hadv := h.advance hwin hfind
          simp only [if_true]
          generalize updateSegNum ((r.listAdd r.curSegBuf seg).rmppList.drop (r.curSegBuf + 1))
            (r.curSegBuf + 1) (r.listAdd r.curSegBuf seg) = r' at hadv ⊢
          by_cases hlast : r'.curLast = true
          · simp only [if_pos hlast, RmppRecv.completeRmpp, Option.isSome_some, if_true, hn]
            exact (hadv.inv_done hlast).ackRecv ok
          · have hlast' : r'.curLast = false := by simpa using hlast
            simp only [if_neg hlast, hn]
            by_cases hend : r'.segNum = r'.newwin
            · simp only [if_pos hend, Option.isSome_none, Bool.false_eq_true, if_false]
              exact (hadv.inv_grow hactive hlast' hend hfits).ackRecv ok
            · simp only [if_neg hend, Option.isSome_none, Bool.false_eq_true, if_false]
              exact ⟨hadv.gapless, hadv.within, hadv.ack_le, hadv.le_newwin,
                .inl ⟨hadv.state_eq.trans hactive, rfl, hlast',
                  lt_of_le_of_ne hadv.le_newwin hend⟩⟩
        · simp only [if_neg hcur, Option.isSome_none, Bool.false_eq_true, if_false]
          exact h.add_behind_gap hwin hfind hcur

theorem createRmppRecv_gapless (mgmtClass : Nat) {seg : Seg δ} (h1 : seg.num = 1) :
    Gapless (createRmppRecv mgmtClass seg) [seg] [] := by
  refine ⟨rfl, fun i hi => ?_, rfl, rfl, List.Pairwise.nil, by simp⟩
  have : i = 0 := by simpa using hi
  subst this
  simpa using h1

theorem start_inv (q : RecvQueue) (ackOk : Bool) (mgmtClass : Nat) {seg : Seg δ}
    (h1 : seg.num = 1) : (start q ackOk mgmtClass seg).Inv := by
  have hg := createRmppRecv_gapless mgmtClass h1
  have hsize := q.windowSize_range
  unfold start startRmpp
  by_cases hlast : seg.last = true
  · simp only [if_pos hlast, RmppRecv.completeRmpp, Option.isSome_some, if_true]
    apply Inv.ackRecv
    refine ⟨⟨[seg], [], ⟨hg.list_eq, hg.nums, hg.segNum_eq, hg.cur_eq, hg.sorted, hg.above⟩,
      by simp⟩, ?_, by simp [createRmppRecv], by simp [createRmppRecv],
      .inr ⟨rfl, rfl, by simpa [RmppRecv.curLast, createRmppRecv] using hlast⟩⟩
    simp [createRmppRecv, h1]
  · simp only [if_neg hlast, Option.isSome_none, Bool.false_eq_true, if_false]
    apply Inv.ackRecv
    have hw : I32.wrap ((createRmppRecv mgmtClass seg).newwin + q.windowSize) =
        1 + q.windowSize := I32.wrap_of_range (by simp [createRmppRecv]; omega)
      (by simp [createRmppRecv]; omega)
    rw [hw]
    refine ⟨⟨[seg], [], ⟨hg.list_eq, hg.nums, hg.segNum_eq, hg.cur_eq, hg.sorted, hg.above⟩,
      by simp⟩, ?_, by simp [createRmppRecv], ?_, .inl ⟨rfl, rfl, ?_, ?_⟩⟩
    · simp [createRmppRecv, h1]
      omega
    · simp [createRmppRecv]
      omega
    · simpa [RmppRecv.curLast, createRmppRecv] using hlast
    · simp [createRmppRecv]
      omega

/-- Every state of a transaction is reassembled, as long as no segment fills a
window that cannot grow. -/
theorem reassembled_every_run (q : RecvQueue) (ackOk : Bool) (mgmtClass : Nat) (first : Seg δ)
    (h1 : first.num = 1) (calls : List (Bool × Seg δ))
    (hfits : Run.Steps (step q) (WindowFits q) (start q ackOk mgmtClass first) calls) :
    ∀ s ∈ Run.states (step q) (start q ackOk mgmtClass first) calls, s.Good := by
  intro s hs
  have hstep : ∀ (s : RecvRun δ) (call : Bool × Seg δ), s.Inv → WindowFits q s call →
      (step q s call).Inv := fun _ _ h hf => step_inv h hf
  exact (hfits.invariant hstep (start_inv q ackOk mgmtClass h1) s hs).good

/-- The receive queue of `IB_MAD_QP_RECV_SIZE` entries, with a window of 64. -/
def defaultQueue : RecvQueue where
  maxActive := 512
  min_le := by decide
  le_max := by decide

/-- A segment without the LAST flag. -/
def middle (n : Nat) : Seg Unit := { segNum := n, paylenNewwin := 0, last := false, data := () }

/-- Segments 3, 2, 2 and 4 behind segment 1, the last one with the LAST flag. -/
def shortRun : List (Bool × Seg Unit) :=
  [(true, middle 3), (true, middle 2), (true, middle 2), (true, { middle 4 with last := true })]

theorem reassembled_every_run_short :
    (Run.final (step defaultQueue) (start defaultQueue true 0x03 (middle 1)) shortRun).Good := by
  refine reassembled_every_run defaultQueue true 0x03 (middle 1) (by decide) shortRun ?_ _
    (Run.final_mem_states _ _)
  refine ⟨fun _ => ?_, fun _ => ?_, fun _ => ?_, fun _ => ?_, trivial⟩ <;> decide +kernel

/-- Segments `2 .. n + 1` in order, each answered by an ACK. -/
def inOrder (n : Nat) : List (Bool × Seg Unit) :=
  (List.range n).map fun i => (true, middle (i + 2))

theorem middle_num {n : Nat} (h : n < 2 ^ 31) : (middle n).num = n := by
  have h0 : I32.wrap (n : Int) = n := I32.wrap_of_range (by omega) (by omega)
  exact h0

/-- The list of segments `1 .. n`. -/
def segsTo (n : Nat) : List (Seg Unit) := (List.range n).map fun i => middle (i + 1)

theorem segsTo_succ (n : Nat) : segsTo (n + 1) = segsTo n ++ [middle (n + 1)] := by
  simp [segsTo, range_succ]

@[simp] theorem segsTo_length (n : Nat) : (segsTo n).length = n := by simp [segsTo]

theorem find_inOrder {n : Nat} (hn : n + 2 < 2 ^ 31) :
    findSegLocation (segsTo (n + 1)) (middle (n + 2)).num = some n := by
  rw [findSegLocation, segsTo_succ, reverse_append, middle_num hn, reverse_singleton,
    singleton_append, scanBack, middle_num (by omega), if_pos (by push_cast; omega)]
  simp

/-- The transaction with the segments `1 .. n` in the list, `k` of them counted. -/
def counted (mgmtClass n k : Nat) (lastAck newwin : Int) : RmppRecv Unit :=
  { state := .active, mgmtClass := mgmtClass, rmppList := segsTo n, curSegBuf := k - 1
    lastAck := lastAck, segNum := k, newwin := newwin }

theorem listAdd_inOrder (mgmtClass n : Nat) (lastAck newwin : Int) :
    (counted mgmtClass (n + 1) (n + 1) lastAck newwin).listAdd n (middle (n + 2)) =
      counted mgmtClass (n + 2) (n + 1) lastAck newwin := by
  have htake : (segsTo (n + 1)).take (n + 1) = segsTo (n + 1) := take_of_length_le (by simp)
  have hdrop : (segsTo (n + 1)).drop (n + 1) = [] := drop_of_length_le (by simp)
  simp [RmppRecv.listAdd, counted, htake, segsTo_succ (n + 1)]

theorem update_inOrder (mgmtClass : Nat) {n : Nat} (hn : n + 2 < 2 ^ 31) (lastAck newwin : Int) :
    updateSegNum ((segsTo (n + 2)).drop (n + 1)) (n + 1)
        (counted mgmtClass (n + 2) (n + 1) lastAck newwin) =
      counted mgmtClass (n + 2) (n + 2) lastAck newwin := by
  have hdrop : (segsTo (n + 2)).drop (n + 1) = [middle (n + 2)] := by
    rw [segsTo_succ]
    exact drop_left' (by simp)
  have hnext : I32.wrap (((n + 1 : Nat) : Int) + 1) = ((n + 2 : Nat) : Int) := by
    rw [I32.wrap_of_range (by omega) (by omega)]
    omega
  rw [hdrop, updateSegNum]
  simp only [counted, hnext, middle_num hn, if_true, updateSegNum]
  simp

theorem curLast_inOrder (mgmtClass n : Nat) (lastAck newwin : Int) :
    (counted mgmtClass (n + 1) (n + 1) lastAck newwin).curLast = false := by
  simp [RmppRecv.curLast, counted, segsTo, middle]

/-- The next segment in order, with its ACK when the window grows. -/
theorem continue_inOrder (mgmtClass : Nat) {n : Nat} (hn : n + 2 < 2 ^ 31) {lastAck : Int}
    (newwin : Int) (hack : lastAck ≤ n + 1) (hwin : ((n + 2 : Nat) : Int) ≤ newwin) :
    (continueRmpp defaultQueue true (counted mgmtClass (n + 1) (n + 1) lastAck newwin)
        (middle (n + 2))).recv =
      if ((n + 2 : Nat) : Int) = newwin then
        counted mgmtClass (n + 2) (n + 2) (n + 2 : Nat) (I32.wrap (newwin + 64))
      else counted mgmtClass (n + 2) (n + 2) lastAck newwin := by
  have hsize : defaultQueue.windowSize = 64 := by decide
  have hdrop : ¬((counted mgmtClass (n + 1) (n + 1) lastAck newwin).state = .timeout ∨
      (middle (n + 2)).num > (counted mgmtClass (n + 1) (n + 1) lastAck newwin).newwin) := by
    rw [middle_num hn]
    simp only [counted]
    rintro (h | h)
    · cases h
    · omega
  have hold : ¬((middle (n + 2)).num ≤ (counted mgmtClass (n + 1) (n + 1) lastAck newwin).lastAck ∨
      (counted mgmtClass (n + 1) (n + 1) lastAck newwin).state = .complete) := by
    rw [middle_num hn]
    simp only [counted]
    rintro (h | h)
    · omega
    · cases h
  have hcur : (counted mgmtClass (n + 1) (n + 1) lastAck newwin).curSegBuf = n := rfl
  have hlist : (counted mgmtClass (n + 2) (n + 1) lastAck newwin).rmppList = segsTo (n + 2) := rfl
  have hfind : findSegLocation (counted mgmtClass (n + 1) (n + 1) lastAck newwin).rmppList
      (middle (n + 2)).num = some n := find_inOrder hn
  unfold continueRmpp
  rw [if_neg hdrop, if_neg hold, hfind]
  simp only [hcur, if_true, listAdd_inOrder, hlist, update_inOrder mgmtClass hn,
    curLast_inOrder mgmtClass (n + 1), Bool.false_eq_true, if_false, hsize]
  simp only [counted, RmppRecv.ackRecv, if_true]
  split <;> rfl

/-- The transaction after `n` segments in order. -/
theorem inOrder_final (n : Nat) (hn : n ≤ 64 * (2 ^ 25 - 1)) :
    ∃ lastAck : Int, lastAck ≤ n + 1 ∧
      (Run.final (RecvRun.step defaultQueue) (start defaultQueue true 0x03 (middle 1))
        (inOrder n)).recv =
        counted 0x03 (n + 1) (n + 1) lastAck (I32.wrap (64 * (n / 64 : Nat) + 65)) := by
  induction n with
  | zero => exact ⟨1, by decide, rfl⟩
  | succ n ih =>
    obtain ⟨lastAck, hack, hfinal⟩ := ih (by omega)
    have hw : I32.wrap (64 * (n / 64 : Nat) + 65) = 64 * (n / 64 : Nat) + 65 :=
      I32.wrap_of_range (by omega) (by omega)
    rw [hw] at hfinal
    have hstep := continue_inOrder 0x03 (n := n) (by omega)
      (64 * (n / 64 : Nat) + 65) hack (by omega)
    have hsucc : Run.final (RecvRun.step defaultQueue) (start defaultQueue true 0x03 (middle 1))
        (inOrder (n + 1)) = RecvRun.step defaultQueue (Run.final (RecvRun.step defaultQueue)
          (start defaultQueue true 0x03 (middle 1)) (inOrder n)) (true, middle (n + 2)) := by
      simp [Run.final, inOrder, range_succ]
    rw [hsucc, RecvRun.step]
    simp only [hfinal, hstep]
    by_cases hend : ((n + 2 : Nat) : Int) = 64 * (n / 64 : Nat) + 65
    · refine ⟨(n + 2 : Nat), by push_cast; omega, ?_⟩
      rw [if_pos hend, show (64 * (n / 64 : Nat) + 65 + 64 : Int) =
        64 * ((n + 1) / 64 : Nat) + 65 by omega]
    · refine ⟨lastAck, by push_cast; omega, ?_⟩
      have hsame : (n + 1) / 64 = n / 64 := by omega
      rw [if_neg hend, hsame, hw]

/-- The window of 64 grows for the last time behind segment 2147483585: `newwin`
leaves the range of `int` and is negative. -/
theorem window_overflows :
    ¬∀ s ∈ Run.states (RecvRun.step defaultQueue) (start defaultQueue true 0x03 (middle 1))
        (inOrder (64 * (2 ^ 25 - 1))), s.Good := by
  intro h
  have hgood := h _ (Run.final_mem_states _ _)
  obtain ⟨lastAck, -, hfinal⟩ := inOrder_final (64 * (2 ^ 25 - 1)) (le_refl _)
  have hle := hgood.reassembled.le_newwin
  rw [hfinal] at hle
  exact absurd hle (by simp only [counted]; decide)

end RecvRun

end Rmpp
