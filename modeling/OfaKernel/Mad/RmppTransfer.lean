-- SUMMARY: An RMPP transfer end to end.
import OfaKernel.Mad.RmppSend

/-!
# RMPP transfers

A send and a receiver exchange DATA segments and ACKs over a channel. Every
message that was put into the channel may be taken out at any time, any number
of times or never.
-/

open List

namespace Rmpp

variable {δ : Type}

/-! ## The receiver's handlers -/

/-- What `process_rmpp_data` does with a segment. -/
inductive DataResult (δ : Type) where
  | handled (o : Outcome δ)
  | dropped
  | nacked

/-- `continue_rmpp`, with the search for the transaction. -/
def continueFound (q : RecvQueue) (ackOk : Bool) (seg : Seg (Option δ)) :
    Option (RmppRecv (Option δ)) → DataResult (Option δ)
  | none => .dropped
  | some r => .handled (continueRmpp q ackOk r seg)

/-- `start_rmpp`: a transaction that is there already gets a duplicate first MAD. -/
def startFound (q : RecvQueue) (allocOk ackOk : Bool) (m : DataMad δ)
    (recv : Option (RmppRecv (Option δ))) : DataResult (Option δ) :=
  if ¬allocOk then .dropped
  else
    match recv with
    | some r => continueFound q ackOk m.seg (some r)
    | none => .handled (startRmpp q ackOk m.mgmtClass m.seg)

/-- `process_rmpp_data`, for a MAD whose `rmpp_status` is 0. -/
def processRmppData (q : RecvQueue) (allocOk ackOk : Bool) (m : DataMad δ)
    (recv : Option (RmppRecv (Option δ))) : DataResult (Option δ) :=
  if m.seg.segNum = 1 then
    if ¬m.first then .nacked else startFound q allocOk ackOk m recv
  else
    if m.first then .nacked else continueFound q ackOk m.seg recv

/-! ## The joint state -/

/-- A completion: `mad_len`, and the list it hands over. -/
structure Delivery (δ : Type) where
  madLen : Int
  rmppList : List (Seg δ)

/-- A send and its receiver. The segments in the channel are `send.sent`; `acks` and `nacked`
are what the receiver put into it, and `delivered` the completions it returned. -/
structure Transfer (δ : Type) where
  send : SendRun δ
  acks : List Ack
  nacked : Bool
  recv : Option (RmppRecv (Option δ))
  delivered : List (Delivery (Option δ))

/-- What happens next. A message is named by its place in the channel. -/
inductive TransferEvent where
  | complete (ok sent : Bool) (jiffies : Nat)
  | timeout (sent : Bool)
  | ack (i : Nat) (sent : Bool) (jiffies : Nat)
  | abort (jiffies : Nat)
  | data (i : Nat) (allocOk ackOk : Bool)
  | recvTimeout
  | recvCleanup

/-- `process_rmpp_abort`, with the status that a receiver's timeout gives. -/
def SendRun.abort (t : Mad.Ticks) (s : SendRun δ) (jiffies : Nat) : SendRun δ :=
  if s.wr.refcount ≤ 0 then s
  else
    let (w, mads) := s.wr.abortSend t jiffies
    ⟨w, mads ++ s.sent⟩

/-- `ib_post_send_mad`, for an agent with an RMPP version. -/
def postSendMad (t : Mad.Ticks) (w : RmppSend δ) (newwin : Int) : Option (SendRun δ) :=
  if isMadClassRmpp w.buf.mgmtClass then some (SendRun.start t w newwin) else none

namespace Transfer

variable (t : Mad.Ticks) (q : RecvQueue)

def start (s : SendRun δ) : Transfer δ :=
  { send := s, acks := [], nacked := false, recv := none, delivered := [] }

/-- The receiver has handled a segment. -/
def receive (s : Transfer δ) : DataResult (Option δ) → Transfer δ
  | .dropped => s
  | .nacked => { s with nacked := true }
  | .handled o =>
    { s with
      recv := some o.recv
      acks := o.acks ++ s.acks
      delivered := (o.done.map fun len => ⟨len, o.recv.rmppList⟩).toList ++ s.delivered }

def recvTimeout (s : Transfer δ) : Transfer δ :=
  if s.recv.any fun r => r.state = .active then { s with recv := none, nacked := true } else s

/-- `recv_cleanup_handler`, which is queued when the transaction is complete. -/
def recvCleanup (s : Transfer δ) : Transfer δ :=
  if s.recv.any fun r => r.state = .complete then { s with recv := none } else s

def step (s : Transfer δ) : TransferEvent → Transfer δ
  | .complete ok sent jiffies => { s with send := s.send.step t (.complete ok sent jiffies) }
  | .timeout sent => { s with send := s.send.step t (.timeout sent) }
  | .ack i sent jiffies =>
    match s.acks[i]? with
    | some a => { s with send := s.send.step t (.ack 0 a.segNum a.newwin sent jiffies) }
    | none => s
  | .abort jiffies => if s.nacked then { s with send := s.send.abort t jiffies } else s
  | .data i allocOk ackOk =>
    match s.send.sent[i]? with
    | some x => s.receive (processRmppData q allocOk ackOk x.mad s.recv)
    | none => s
  | .recvTimeout => s.recvTimeout
  | .recvCleanup => s.recvCleanup

end Transfer

namespace SendBuf

variable {b : SendBuf δ}

/-- What `ib_create_send_mad` says about the sizes of a message. -/
structure Measured (b : SendBuf δ) : Prop extends Sound b where
  hdrLen_eq : b.hdrLen = madDataOffset b.mgmtClass
  segRmppSize_eq : b.segRmppSize = 220
  pad_le : b.pad ≤ 256 - madDataOffset b.mgmtClass
  total : b.segCount * (256 - madDataOffset b.mgmtClass) = b.dataLen + b.pad
  total_lt : b.dataLen + b.pad < 2 ^ 31

/-- A MAD of the message. -/
def Genuine (b : SendBuf δ) (m : DataMad δ) : Prop :=
  ∃ n, 1 ≤ n ∧ n ≤ b.segCount ∧ m = b.dataMad n

/-- The completion hands over the segments in order, with `mad_len` that of the message. -/
structure Delivered (b : SendBuf δ) (d : Delivery (Option δ)) : Prop where
  segments : d.rmppList = (List.range b.segCount).map fun i => (b.dataMad (i + 1)).seg
  madLen : d.madLen = I32.wrap ((b.hdrLen : Int) + b.dataLen)

theorem Measured.count_lt (h : b.Measured) : b.segCount < 2 ^ 24 := by
  have hh := madDataOffset_le b.mgmtClass
  have h1 := h.total
  have h2 := h.total_lt
  have h3 : b.segCount * 192 ≤ b.segCount * (256 - madDataOffset b.mgmtClass) :=
    Nat.mul_le_mul_left _ (by omega)
  omega

end SendBuf

/-- The padding fills the last segment. -/
theorem getPadSize_total (dataLen : Nat) {hdrLen : Nat} (hh : hdrLen ≤ 64) :
    getPadSize hdrLen dataLen 256 ≤ 256 - hdrLen ∧
      (dataLen + getPadSize hdrLen dataLen 256 + (256 - hdrLen) - 1) / (256 - hdrLen) *
        (256 - hdrLen) = dataLen + getPadSize hdrLen dataLen 256 := by
  have hpos := getPadSize_pos dataLen hh
  have hsize : 0 < 256 - hdrLen := by omega
  have hdvd : 256 - hdrLen ∣ dataLen + getPadSize hdrLen dataLen 256 ∧
      getPadSize hdrLen dataLen 256 ≤ 256 - hdrLen := by
    have hmod := Nat.div_add_mod dataLen (256 - hdrLen)
    have hlt := Nat.mod_lt dataLen hsize
    unfold getPadSize
    simp only
    split_ifs with h1 h2
    · have h0 : dataLen % (256 - hdrLen) = 0 := by omega
      exact ⟨Nat.dvd_of_mod_eq_zero (by simpa using h0), by omega⟩
    · refine ⟨⟨dataLen / (256 - hdrLen) + 1, ?_⟩, by omega⟩
      rw [Nat.mul_add, Nat.mul_one]
      omega
    · have h0 : dataLen = 0 := by
        by_contra hne
        exact h1 ⟨hne, by omega⟩
      simp [h0]
  obtain ⟨⟨k, hk⟩, hle⟩ := hdvd
  refine ⟨hle, ?_⟩
  generalize getPadSize hdrLen dataLen 256 = pad at hk hpos ⊢
  generalize 256 - hdrLen = size at hk hsize ⊢
  have hdiv : (dataLen + pad + size - 1) / size = k := by
    rw [hk, Nat.add_sub_assoc (by omega), Nat.mul_add_div hsize, Nat.div_eq_of_lt (by omega)]
    omega
  rw [hdiv, hk, Nat.mul_comm]

theorem createSendMad_measured {mgmtClass dataLen timeoutMs retries : Nat} {payload : Nat → δ}
    {w : RmppSend δ} (h : createSendMad mgmtClass dataLen payload timeoutMs retries = some w) :
    w.buf.Measured ∧ w.buf.mgmtClass = mgmtClass ∧ w.buf.dataLen = dataLen ∧
      ∀ i (hi : i < w.buf.rmppList.length), w.buf.rmppList[i].data = payload (i + 1) := by
  have hb := createSendMad_sound h
  have htotal := getPadSize_total dataLen (madDataOffset_le mgmtClass)
  unfold createSendMad at h
  simp only at h
  split at h
  · cases h
  next hlt =>
    rw [Option.some.injEq] at h
    subst h
    refine ⟨⟨hb.buf, rfl, rfl, htotal.1, ?_, by simpa using hlt⟩, rfl, rfl, fun i hi => ?_⟩
    · simpa using htotal.2
    · simp [allocSendRmppList]

namespace SendRun

variable {t : Mad.Ticks} {b : SendBuf δ} {s : SendRun δ} {w : RmppSend δ}

/-- Whatever happens to a send, only segments of its message are handed over. -/
structure Genuine (b : SendBuf δ) (s : SendRun δ) : Prop where
  bounds : s.wr.Bounds
  buf_eq : s.wr.buf = b
  sent : ∀ x ∈ s.sent, b.Genuine x.mad

theorem Genuine.quiet {r : RmppSend δ × List (Transmission δ)} (h : s.Genuine b)
    (hq : s.wr.Quiet r) : Genuine b ⟨r.1, r.2 ++ s.sent⟩ := by
  obtain ⟨hk, hn, hx⟩ := hq
  refine ⟨keeps_bounds h.bounds hk (by simpa only [hn] using h.bounds.segNum),
    hk.buf_eq.trans h.buf_eq, ?_⟩
  simpa [hx] using h.sent

theorem Genuine.sends {n : Int} {r : RmppSend δ × List (Transmission δ)} (h : s.Genuine b)
    (hs : s.wr.Sends n r) : Genuine b ⟨r.1, r.2 ++ s.sent⟩ := by
  obtain ⟨hk, ⟨h0, h1⟩, hn, x, hx, hmad, -⟩ := hs
  refine ⟨keeps_bounds h.bounds hk (by simp only [hn]; omega), hk.buf_eq.trans h.buf_eq, ?_⟩
  intro y hy
  rw [hx, singleton_append, mem_cons] at hy
  rw [h.buf_eq] at hmad h1
  rcases hy with rfl | hy
  · exact ⟨(n + 1).toNat, by omega, by omega, hmad⟩
  · exact h.sent y hy

theorem Genuine.step (h : s.Genuine b) (e : SendEvent) : (s.step t e).Genuine b := by
  unfold SendRun.step
  split
  · exact h
  · cases e with
    | complete ok sent jiffies =>
      rcases RmppSend.madCompleteSendWr_spec (t := t) h.bounds ok sent jiffies with hq | ⟨hs, -⟩
      · exact h.quiet hq
      · exact h.sends hs
    | ack rmppStatus segNum newwin sent jiffies =>
      rcases RmppSend.processRmppAck_spec (t := t) h.bounds rmppStatus segNum newwin sent jiffies
        with hq | ⟨hs, -⟩
      · exact h.quiet hq
      · exact h.sends hs
    | timeout sent =>
      simp only [handle]
      split
      · rcases RmppSend.retrySend_spec (t := t) h.bounds sent with ⟨hq, -⟩ | ⟨hs, -⟩
        · exact h.quiet hq
        · exact h.sends hs
      · exact h.quiet (h.bounds.quiet (by constructor <;> rfl))

theorem Genuine.abort (h : s.Genuine b) (jiffies : Nat) : (s.abort t jiffies).Genuine b := by
  unfold SendRun.abort
  split
  · exact h
  · exact h.quiet (RmppSend.abortSend_quiet h.bounds jiffies)

theorem Genuine.start (hb : w.Bounds) (h0 : w.segNum = 0) (newwin : Int) :
    (start t w newwin).Genuine w.buf := by
  unfold SendRun.start RmppSend.sendRmppMad
  simp only
  generalize hw : ({ w with
      timeout := t.msecsToJiffies w.buf.timeoutMs
      retriesLeft := w.buf.maxRetries
      status := true
      refcount := 1 + (if 0 < t.msecsToJiffies w.buf.timeoutMs then 1 else 0) +
        if t.msecsToJiffies w.buf.timeoutMs = 0 then 1 else 0
      newwin := newwin } : RmppSend δ) = w'
  have hg : Genuine w.buf ⟨w', []⟩ := by
    subst hw
    exact ⟨⟨hb.buf, hb.lastAck, hb.segNum, hb.curSeg, hb.lastAckSeg⟩, rfl, by simp⟩
  have hseg : w'.segNum = 0 := by
    subst hw
    exact h0
  have hlt : w'.segNum < w'.buf.segCount := by
    have hc : 1 ≤ w'.buf.segCount := hg.bounds.buf.count.1
    omega
  obtain ⟨hs, -⟩ := RmppSend.sendNextSeg_sends (t := t) hg.bounds hlt
  simpa using hg.sends hs

end SendRun

/-! ## The receiving side -/

@[simp] theorem RmppRecv.ackRecv_rmppList (r : RmppRecv δ) (ok : Bool) :
    (r.ackRecv ok).1.rmppList = r.rmppList := by
  cases ok <;> rfl

@[simp] theorem RmppRecv.ackRecv_mgmtClass (r : RmppRecv δ) (ok : Bool) :
    (r.ackRecv ok).1.mgmtClass = r.mgmtClass := by
  cases ok <;> rfl

section Continue

variable {q : RecvQueue} {ackOk : Bool} {r : RmppRecv δ} {seg : Seg δ}

/-- Only the new segment comes into the list. -/
theorem continueRmpp_mem {s : Seg δ} (hs : s ∈ (continueRmpp q ackOk r seg).recv.rmppList) :
    s ∈ seg :: r.rmppList := by
  have hsame : ∀ s ∈ r.rmppList, s ∈ seg :: r.rmppList := fun _ h => mem_cons_of_mem _ h
  unfold continueRmpp at hs
  split at hs
  · exact hsame s hs
  · split at hs
    · exact hsame s (by simpa using hs)
    · split at hs
      · exact hsame s hs
      · apply mem_listAdd.mp
        simp only at hs
        split at hs
        · split at hs
          · simpa [RmppRecv.completeRmpp] using hs
          · split at hs <;> simpa using hs
        · exact hs

theorem continueRmpp_mgmtClass : (continueRmpp q ackOk r seg).recv.mgmtClass = r.mgmtClass := by
  unfold continueRmpp
  split
  · rfl
  · split
    · exact RmppRecv.ackRecv_mgmtClass r ackOk
    · split
      · rfl
      · simp only
        split
        · split
          · simp [RmppRecv.completeRmpp, RmppRecv.listAdd]
          · split <;> simp [RmppRecv.listAdd]
        · rfl

/-- A completion carries the `mad_len` of the transaction that it leaves. -/
theorem continueRmpp_done {len : Int} (h : (continueRmpp q ackOk r seg).done = some len) :
    len = (continueRmpp q ackOk r seg).recv.madLen := by
  unfold continueRmpp at h ⊢
  split at h
  · cases h
  next h1 =>
    rw [if_neg h1]
    split at h
    · cases h
    next h2 =>
      rw [if_neg h2]
      split at h
      · cases h
      next prev hfind =>
        simp only at h ⊢
        split at h
        next h3 =>
          rw [if_pos h3]
          split at h
          next h4 =>
            rw [if_pos h4]
            exact (Option.some.inj h).symm
          next => split at h <;> cases h
        next => cases h

end Continue

/-- What the receiver holds of the message `b`. -/
structure RecvSound (b : SendBuf δ) (r : RmppRecv (Option δ)) : Prop where
  inv : ∃ n, RecvRun.Inv ⟨r, n⟩
  segs : ∀ s ∈ r.rmppList, ∃ n, 1 ≤ n ∧ n ≤ b.segCount ∧ s = (b.dataMad n).seg
  class_eq : r.mgmtClass = b.mgmtClass

namespace RecvSound

variable {b : SendBuf δ} {r : RmppRecv (Option δ)} {q : RecvQueue}

/-- A segment is named by its number. -/
theorem seg_of_num (hb : b.Sound) (h : RecvSound b r) {s : Seg (Option δ)} (hs : s ∈ r.rmppList)
    {n : Nat} (hn : s.num = n) : 1 ≤ n ∧ n ≤ b.segCount ∧ s = (b.dataMad n).seg := by
  obtain ⟨k, h1, h2, rfl⟩ := h.segs s hs
  have hc := hb.count
  rw [SendBuf.dataMad_num b (by omega)] at hn
  have hk : k = n := by omega
  subst hk
  exact ⟨h1, h2, rfl⟩

/-- With the LAST flag on `cur_seg_buf` the list is the message, and nothing else. -/
theorem list_eq (hb : b.Sound) (h : RecvSound b r) (hlast : r.curLast = true) :
    r.rmppList = ((List.range b.segCount).map fun i => (b.dataMad (i + 1)).seg) ∧
      r.segNum = b.segCount ∧ r.rmppList[r.curSegBuf]? = some (b.dataMad b.segCount).seg := by
  obtain ⟨n, hinv⟩ := h.inv
  obtain ⟨pre, rest, hg, -⟩ : ∃ pre rest, Gapless r pre rest ∧
      ∀ t ∈ rest, t.num ≠ pre.length + 1 := hinv.gapless
  have hcur := hg.cur_eq
  have hlt : r.curSegBuf < pre.length := by omega
  have hmem : ∀ s ∈ pre, s ∈ r.rmppList := fun s hs => by
    rw [hg.list_eq]
    exact mem_append_left _ hs
  have hnum : pre[r.curSegBuf].num = (pre.length : Nat) := by
    rw [hg.nums _ hlt]
    omega
  obtain ⟨-, -, hseg⟩ := h.seg_of_num hb (hmem _ (getElem_mem hlt)) hnum
  -- the LAST flag is on the segment of number `seg_count`
  have hcount : pre.length = b.segCount := by
    rw [RmppRecv.curLast, hg.getElem?_cur hg.cur_lt, hseg] at hlast
    simpa [SendBuf.dataMad] using hlast
  have hrest : rest = [] := by
    rw [eq_nil_iff_forall_not_mem]
    intro s hs
    have habove := hg.above s hs
    have hin : s ∈ r.rmppList := by
      rw [hg.list_eq]
      exact mem_append_right _ hs
    obtain ⟨-, h2, -⟩ := h.seg_of_num hb hin (n := s.num.toNat) (by omega)
    omega
  refine ⟨?_, by rw [hg.segNum_eq, hcount], by rw [hg.getElem?_cur hg.cur_lt, hseg, hcount]⟩
  rw [hg.list_eq, hrest, append_nil]
  refine ext_getElem (by simpa using hcount) fun i hi _ => ?_
  obtain ⟨-, -, hi'⟩ := h.seg_of_num hb (hmem _ (getElem_mem hi)) (n := i + 1)
    (by rw [hg.nums i hi]; push_cast; rfl)
  simpa using hi'

/-- The completion of the message. -/
theorem delivered (hb : b.Measured) (hclass : isMadClassRmpp b.mgmtClass = true)
    (h : RecvSound b r) (hlast : r.curLast = true) : b.Delivered ⟨r.madLen, r.rmppList⟩ := by
  obtain ⟨hlist, hseg, hcur⟩ := h.list_eq hb.toSound hlast
  refine ⟨hlist, ?_⟩
  have hhdr := madDataOffset_le b.mgmtClass
  have hlow : 40 ≤ madDataOffset b.mgmtClass := by
    unfold madDataOffset
    simp only [isMadClassRmpp, Bool.or_eq_true, Bool.and_eq_true, decide_eq_true_eq] at hclass
    split_ifs <;> omega
  have hpad := hb.pad_le
  -- the padding comes back from the length in the last segment
  have hpaylen : ((b.dataMad b.segCount).seg.paylenNewwin : Int) = 220 - b.pad := by
    simp only [SendBuf.dataMad, if_true, hb.segRmppSize_eq, toU32]
    omega
  have hwrap : I32.wrap (220 - (220 - (b.pad : Int))) = b.pad := by
    rw [I32.wrap_of_range (by omega) (by omega)]
    omega
  have htotal : (b.segCount : Int) * (256 - madDataOffset b.mgmtClass) = b.dataLen + b.pad := by
    have hsub : ((256 - madDataOffset b.mgmtClass : Nat) : Int) =
      256 - madDataOffset b.mgmtClass := by
      omega
    rw [← hsub]
    exact_mod_cast hb.total
  simp only [RmppRecv.madLen, hcur, Option.elim_some, hpaylen, hwrap, h.class_eq, hseg, htotal,
    hb.hdrLen_eq]
  congr 1
  omega

/-- The first segment of the message starts a transaction. -/
theorem start (hb : b.Measured) (hclass : isMadClassRmpp b.mgmtClass = true) (ackOk : Bool) :
    RecvSound b (startRmpp q ackOk b.mgmtClass (b.dataMad 1).seg).recv ∧
      ∀ len, (startRmpp q ackOk b.mgmtClass (b.dataMad 1).seg).done = some len →
        b.Delivered ⟨len, (startRmpp q ackOk b.mgmtClass (b.dataMad 1).seg).recv.rmppList⟩ := by
  have hc := hb.count
  have hinv := RecvRun.start_inv q ackOk b.mgmtClass (SendBuf.dataMad_num b (by omega : 1 < 2 ^ 31))
  have hsound : RecvSound b (startRmpp q ackOk b.mgmtClass (b.dataMad 1).seg).recv := by
    refine ⟨⟨_, hinv⟩, fun s hs => ⟨1, le_refl 1, hc.1, ?_⟩, ?_⟩
    · unfold startRmpp at hs
      split at hs <;> simpa [RmppRecv.completeRmpp, createRmppRecv] using hs
    · unfold startRmpp
      split <;> simp [RmppRecv.completeRmpp, createRmppRecv]
  refine ⟨hsound, fun len hlen => ?_⟩
  have hlast : (startRmpp q ackOk b.mgmtClass (b.dataMad 1).seg).recv.curLast = true :=
    hinv.good.last (by simp [RecvRun.start, hlen])
  have hmad : len = (startRmpp q ackOk b.mgmtClass (b.dataMad 1).seg).recv.madLen := by
    unfold startRmpp at hlen ⊢
    split at hlen
    next h1 =>
      rw [if_pos h1]
      exact (Option.some.inj hlen).symm
    next => cases hlen
  rw [hmad]
  exact hsound.delivered hb hclass hlast

/-- A message has few segments, so that the window can always grow. -/
theorem windowFits (hb : b.Measured) (h : RecvSound b r) {n : Nat} (hn : 1 ≤ n ∧ n ≤ b.segCount)
    (k : Nat) (ackOk : Bool) : RecvRun.WindowFits q ⟨r, k⟩ (ackOk, (b.dataMad n).seg) := by
  intro hfull
  have hcount := hb.count_lt
  have hsize := q.windowSize_range
  obtain ⟨m, hinv⟩ := h.inv
  obtain ⟨pre, rest, hg, -⟩ : ∃ pre rest, Gapless r pre rest ∧
      ∀ t ∈ rest, t.num ≠ pre.length + 1 := hinv.gapless
  have hpos := hg.pos
  have hseg := hg.segNum_eq
  have hle : r.segNum ≤ r.newwin := hinv.le_newwin
  obtain ⟨s, hs, hnum⟩ := hfull.full r.newwin (by omega) (le_refl _)
  obtain ⟨i, hi1, hi2, rfl⟩ : ∃ i, 1 ≤ i ∧ i ≤ b.segCount ∧ s = (b.dataMad i).seg := by
    rcases mem_cons.mp hs with rfl | hs
    · exact ⟨n, hn.1, hn.2, rfl⟩
    · exact h.segs s hs
  rw [SendBuf.dataMad_num b (by omega)] at hnum
  simp only
  omega

/-- A segment of the message continues its transaction. -/
theorem continued (hb : b.Measured) (hclass : isMadClassRmpp b.mgmtClass = true)
    (h : RecvSound b r) {n : Nat} (hn : 1 ≤ n ∧ n ≤ b.segCount) (ackOk : Bool) :
    RecvSound b (continueRmpp q ackOk r (b.dataMad n).seg).recv ∧
      ∀ len, (continueRmpp q ackOk r (b.dataMad n).seg).done = some len →
        b.Delivered ⟨len, (continueRmpp q ackOk r (b.dataMad n).seg).recv.rmppList⟩ := by
  obtain ⟨k, hinv⟩ := h.inv
  have hstep := RecvRun.step_inv hinv (h.windowFits (q := q) hb hn k ackOk)
  have hsound : RecvSound b (continueRmpp q ackOk r (b.dataMad n).seg).recv := by
    refine ⟨⟨_, hstep⟩, fun s hs => ?_, continueRmpp_mgmtClass.trans h.class_eq⟩
    rcases mem_cons.mp (continueRmpp_mem hs) with rfl | hs
    · exact ⟨n, hn.1, hn.2, rfl⟩
    · exact h.segs s hs
  refine ⟨hsound, fun len hlen => ?_⟩
  rw [continueRmpp_done hlen]
  refine hsound.delivered hb hclass ?_
  -- a completion is counted, and a counted transaction has the LAST flag
  rcases hstep.phase with ⟨-, h0, -, -⟩ | ⟨-, -, hlast⟩
  · simp [RecvRun.step, hlen] at h0
  · exact hlast

end RecvSound

/-! ## Every run -/

namespace Transfer

variable {t : Mad.Ticks} {q : RecvQueue} {b : SendBuf δ} {s : Transfer δ}

/-- What every event keeps. -/
structure Inv (b : SendBuf δ) (s : Transfer δ) : Prop where
  send : s.send.Genuine b
  recv : ∀ r, s.recv = some r → RecvSound b r
  delivered : ∀ d ∈ s.delivered, b.Delivered d

theorem Inv.withSend {r : SendRun δ} (h : s.Inv b) (hr : r.Genuine b) :
    Inv b { s with send := r } :=
  ⟨hr, h.recv, h.delivered⟩

theorem Inv.handled {o : Outcome (Option δ)} (h : s.Inv b) (hr : RecvSound b o.recv)
    (hd : ∀ len, o.done = some len → b.Delivered ⟨len, o.recv.rmppList⟩) :
    (s.receive (.handled o)).Inv b := by
  refine ⟨h.send, fun r heq => ?_, fun d hd' => ?_⟩
  · cases heq
    exact hr
  · rcases mem_append.mp hd' with hd' | hd'
    · simp only [Option.mem_toList, Option.map_eq_some_iff] at hd'
      obtain ⟨len, hlen, rfl⟩ := hd'
      exact hd len hlen
    · exact h.delivered d hd'

theorem Inv.continueFound (hb : b.Measured) (hclass : isMadClassRmpp b.mgmtClass = true)
    (h : s.Inv b) {n : Nat} (hn : 1 ≤ n ∧ n ≤ b.segCount) (ackOk : Bool) :
    (s.receive (continueFound q ackOk (b.dataMad n).seg s.recv)).Inv b := by
  cases hr : s.recv with
  | none => exact h
  | some r =>
    obtain ⟨h1, h2⟩ := (h.recv r hr).continued (q := q) hb hclass hn ackOk
    exact h.handled h1 h2

/-- The receiver takes a segment of the message. -/
theorem Inv.data (hb : b.Measured) (hclass : isMadClassRmpp b.mgmtClass = true) (h : s.Inv b)
    {m : DataMad δ} (hm : b.Genuine m) (allocOk ackOk : Bool) :
    (s.receive (processRmppData q allocOk ackOk m s.recv)).Inv b := by
  obtain ⟨n, h1, h2, rfl⟩ := hm
  have hnum : (b.dataMad n).seg.segNum = n := rfl
  have hfirst : (b.dataMad n).first = decide (n = 1) := rfl
  unfold processRmppData
  rw [hnum, hfirst]
  by_cases hn : n = 1
  · subst hn
    simp only [if_true, decide_true, not_true, if_false, startFound]
    split
    · exact h
    · cases hr : s.recv with
      | some r =>
        have := h.continueFound (q := q) hb hclass ⟨h1, h2⟩ ackOk
        rwa [hr] at this
      | none =>
        obtain ⟨h3, h4⟩ := RecvSound.start (q := q) hb hclass ackOk
        exact h.handled h3 h4
  · simp only [decide_false, Bool.false_eq_true, if_false, hn]
    exact h.continueFound hb hclass ⟨h1, h2⟩ ackOk

theorem Inv.step (hb : b.Measured) (hclass : isMadClassRmpp b.mgmtClass = true) (h : s.Inv b)
    (e : TransferEvent) : (s.step t q e).Inv b := by
  cases e with
  | complete ok sent jiffies => exact h.withSend (h.send.step _)
  | timeout sent => exact h.withSend (h.send.step _)
  | ack i sent jiffies =>
    simp only [Transfer.step]
    split
    · exact h.withSend (h.send.step _)
    · exact h
  | abort jiffies =>
    simp only [Transfer.step]
    split
    · exact h.withSend (h.send.abort jiffies)
    · exact h
  | data i allocOk ackOk =>
    simp only [Transfer.step]
    split
    next x hx => exact h.data hb hclass (h.send.sent x (mem_of_getElem? hx)) allocOk ackOk
    next => exact h
  | recvTimeout =>
    simp only [Transfer.step, recvTimeout]
    split
    · exact ⟨h.send, by simp, h.delivered⟩
    · exact h
  | recvCleanup =>
    simp only [Transfer.step, recvCleanup]
    split
    · exact ⟨h.send, by simp, h.delivered⟩
    · exact h

/-- A transfer that is delivered is the message sent: its segments in order with their payloads,
and its `mad_len`. -/
theorem delivered_every_run (t : Mad.Ticks) (q : RecvQueue) (mgmtClass dataLen : Nat)
    (payload : Nat → δ) (timeoutMs retries : Nat) (w : RmppSend δ)
    (hw : createSendMad mgmtClass dataLen payload timeoutMs retries = some w)
    (newwin : Int) (run : SendRun δ) (hrun : postSendMad t w newwin = some run)
    (events : List TransferEvent) :
    ∀ s ∈ Run.states (step t q) (start run) events, ∀ d ∈ s.delivered,
      d.rmppList.map (fun seg => (seg.num, seg.data)) =
          (List.range w.buf.segCount).map
            (fun (i : Nat) => ((i + 1 : Int), some (payload (i + 1)))) ∧
        d.madLen = I32.wrap ((w.buf.hdrLen : Int) + dataLen) ∧
        (w.buf.hdrLen + dataLen < 2 ^ 31 → d.madLen = w.buf.hdrLen + dataLen) := by
  obtain ⟨hb, -, hlen, hpay⟩ := createSendMad_measured hw
  unfold postSendMad at hrun
  split at hrun
  next hclass =>
    cases hrun
    have hstart : (start (SendRun.start t w newwin)).Inv w.buf :=
      ⟨SendRun.Genuine.start (createSendMad_sound hw) (createSendMad_segNum hw) newwin,
        by simp [start], by simp [start]⟩
    have hstep : ∀ (s : Transfer δ) e, s.Inv w.buf → True → (s.step t q e).Inv w.buf :=
      fun _ e h _ => h.step hb hclass e
    intro s hs d hd
    obtain ⟨hseg, hmad⟩ := ((Run.steps_true _ events).invariant hstep hstart s hs).delivered d hd
    rw [hlen] at hmad
    have hcount := hb.count
    refine ⟨?_, hmad, fun hlt => ?_⟩
    · rw [hseg, map_map]
      refine map_congr_left fun i hi => ?_
      have hi' : i < w.buf.rmppList.length := by
        rw [hb.length_eq]
        exact mem_range.mp hi
      have hlt : i + 1 < 2 ^ 31 := by
        have := hb.length_eq
        omega
      have hdata : (w.buf.dataMad (i + 1)).seg.data = some (payload (i + 1)) := by
        simp [SendBuf.dataMad, List.getElem?_eq_getElem hi', hpay i hi']
      simp only [Function.comp_apply, SendBuf.dataMad_num _ hlt, hdata]
      rfl
    · rw [hmad, I32.wrap_of_range (by omega) (by omega)]
  next => cases hrun

/-- The subnet administration's send of three segments, with their numbers as payload. -/
def numbered : RmppSend Nat := (createSendMad 0x03 550 id 0 3).get (by decide)

def numberedRun : SendRun Nat := SendRun.start SendRun.ticks numbered 1

/-- Segment 3 overtakes segment 2, segment 1 comes twice. -/
def overtaken : List TransferEvent :=
  [.data 0 true true, .complete true true 0, .ack 0 true 0, .complete true true 0,
    .data 0 true true, .data 2 true true, .data 1 true true]

/-- What the receiver delivers then. -/
def overtakenDelivery : Delivery (Option Nat) :=
  (Run.final (step SendRun.ticks RecvRun.defaultQueue) (start numberedRun) overtaken).delivered.head
    (by decide +kernel)

theorem delivered_every_run_overtaken : overtakenDelivery.madLen = 606 :=
  ((delivered_every_run SendRun.ticks RecvRun.defaultQueue 0x03 550 id 0 3 numbered
    (Option.some_get _).symm 1 numberedRun rfl overtaken _ (Run.final_mem_states _ _)
    overtakenDelivery (head_mem _)).2.2 (by decide +kernel)).trans (by decide +kernel)

end Transfer

end Rmpp
