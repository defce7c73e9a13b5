-- SUMMARY: The sending side of RMPP (`mad.c`, `mad_rmpp.c`).
import OfaKernel.Mad.RmppRecv
import OfaKernel.Mad.SendWr

/-!
# RMPP sends

A send is cut into segments when it is created. `send_next_seg` hands them to
the QP one after the other: when the one before has completed, when an ACK has
opened the window, or when the timer of the send expires.
-/

namespace Rmpp

/-! ## The send and its segments -/

structure RmppSegment (δ : Type) where
  num : Nat
  data : δ

/-- A DATA MAD on the wire: the segment with the payload `ib_send_mad` finds for it, its
FIRST flag, and the class in the MAD header. -/
structure DataMad (δ : Type) where
  seg : Seg (Option δ)
  first : Bool
  mgmtClass : Nat

/-- What a send keeps: its `struct ib_mad_send_buf`, the class in its MAD, and `pad`,
`max_retries` and `rmpp_list` of its `struct ib_mad_send_wr_private`. -/
structure SendBuf (δ : Type) where
  mgmtClass : Nat
  hdrLen : Nat
  dataLen : Nat
  pad : Nat
  segSize : Nat
  segRmppSize : Nat
  segCount : Nat
  rmppList : List (RmppSegment δ)
  timeoutMs : Nat
  maxRetries : Nat

/-- `struct ib_mad_send_wr_private`. `curSeg` and `lastAckSeg` are the numbers of the segments the
pointers are at. -/
structure RmppSend (δ : Type) where
  buf : SendBuf δ
  curSeg : Nat
  lastAckSeg : Nat
  segNum : Int
  lastAck : Int
  newwin : Int
  timeout : Nat
  retriesLeft : Nat
  refcount : Int
  status : Bool

/-- `cpu_to_be32` of an `int`, read back as a number. -/
def toU32 (n : Int) : Nat := (n % 2 ^ 32).toNat

variable {δ : Type}

def isMadClassRmpp (mgmtClass : Nat) : Bool :=
  mgmtClass = 0x03 || mgmtClass = 0x06 || mgmtClass = 0x10 || mgmtClass = 0x12 ||
    (0x30 ≤ mgmtClass && mgmtClass ≤ 0x4f)

def getPadSize (hdrLen dataLen madSize : Nat) : Nat :=
  let segSize := madSize - hdrLen
  if dataLen ≠ 0 ∧ segSize ≠ 0 then
    let pad := segSize - dataLen % segSize
    if pad = segSize then 0 else pad
  else segSize

/-- The segments that the loop of `alloc_send_rmpp_list` makes: one for each
`seg_size` bytes, or part of them, of data and padding. -/
def allocSendRmppList (dataLen pad segSize : Nat) (payload : Nat → δ) : List (RmppSegment δ) :=
  (List.range ((dataLen + pad + segSize - 1) / segSize)).map fun i => ⟨i + 1, payload (i + 1)⟩

/-- `ib_create_send_mad` for an RMPP send of `MAD_SIZE` 256. When `data_len + pad` leaves the
range of `int`, the padding is zeroed through a null pointer: no send comes of it. -/
def createSendMad (mgmtClass dataLen : Nat) (payload : Nat → δ) (timeoutMs retries : Nat) :
    Option (RmppSend δ) :=
  let hdrLen := madDataOffset mgmtClass
  let pad := getPadSize hdrLen dataLen 256
  if 2 ^ 31 ≤ dataLen + pad then none
  else
    let segSize := 256 - hdrLen
    let list := allocSendRmppList dataLen pad segSize payload
    some
      { buf :=
          { mgmtClass, hdrLen, dataLen, pad, segSize, segRmppSize := 256 - 36
            segCount := list.length, rmppList := list, timeoutMs, maxRetries := retries }
        curSeg := 1, lastAckSeg := 1, segNum := 0, lastAck := 0, newwin := 0
        timeout := 0, retriesLeft := retries, refcount := 0, status := true }

/-! ## Handing segments to the QP -/

/-- `enum ib_rmpp_result`, with the errors of `ib_send_mad`. -/
inductive RmppResult where
  | processed
  | consumed
  | failed
  deriving DecidableEq, Repr

/-- A DATA MAD given to `ib_send_mad`, with the window at that time. -/
structure Transmission (δ : Type) where
  mad : DataMad δ
  newwin : Int

namespace RmppSend

variable (t : Mad.Ticks) (w : RmppSend δ)

/-- The walk of `list_for_each_entry` around the circle of segments behind the one numbered `k`,
back to it. -/
def walk (k n : Nat) : Nat :=
  ((w.buf.rmppList.drop k ++ w.buf.rmppList.take (k - 1)).find? fun s => s.num = n).elim k (·.num)

/-- The walk of `list_for_each_entry_reverse`. -/
def walkBack (k n : Nat) : Nat :=
  (((w.buf.rmppList.take (k - 1)).reverse ++ (w.buf.rmppList.drop k).reverse).find? fun s =>
    s.num = n).elim k (·.num)

/-- `ib_get_rmpp_segment`, as far as it moves `cur_seg`. -/
def getRmppSegment (segNum : Int) : RmppSend δ :=
  if (w.curSeg : Int) < segNum then { w with curSeg := w.walk w.curSeg segNum.toNat }
  else if (w.curSeg : Int) > segNum then { w with curSeg := w.walkBack w.curSeg segNum.toNat }
  else w

def curData : Option δ := (w.buf.rmppList[w.curSeg - 1]?).map (·.data)

/-- `send_next_seg` with `ib_send_mad`, which takes the payload from `ib_get_rmpp_segment`. -/
def sendNextSeg : RmppSend δ × List (Transmission δ) :=
  let w := { w with segNum := I32.wrap (w.segNum + 1) }
  let first := w.segNum = 1
  let last := w.segNum = w.buf.segCount
  let paylen : Nat :=
    if last then toU32 ((w.buf.segRmppSize : Int) - w.buf.pad)
    else if first then toU32 ((w.buf.segCount : Int) * w.buf.segRmppSize - w.buf.pad)
    else 0
  let w :=
    if w.buf.timeoutMs = 0 ∨ w.buf.timeoutMs > 2000 then
      { w with timeout := t.msecsToJiffies 2000 } else w
  let w := w.getRmppSegment w.segNum
  let seg := { segNum := toU32 w.segNum, paylenNewwin := paylen, last, data := w.curData }
  (w, [{ mad := { seg, first, mgmtClass := w.buf.mgmtClass }, newwin := w.newwin }])

/-- `ib_send_rmpp_mad`, after `ib_post_send_mad` has set the send up; `newwin` is the
result of `init_newwin`. -/
def sendRmppMad (newwin : Int) : RmppSend δ × List (Transmission δ) :=
  let timeout := t.msecsToJiffies w.buf.timeoutMs
  let w :=
    { w with
      timeout, retriesLeft := w.buf.maxRetries, status := true
      refcount := 1 + if 0 < timeout then 1 else 0
      newwin }
  let w := { w with refcount := w.refcount + if w.timeout = 0 then 1 else 0 }
  w.sendNextSeg t

/-- `ib_process_rmpp_send_wc`: `ok` says whether the work completion is a success and
`sent` whether `ib_send_mad` is. -/
def processRmppSendWc (ok sent : Bool) : RmppSend δ × List (Transmission δ) × RmppResult :=
  if ¬ok ∨ ¬w.status then (w, [], .processed)
  else if w.timeout = 0 then (w, [], .processed)
  else if w.lastAck = w.buf.segCount then
    ({ w with timeout := t.msecsToJiffies w.buf.timeoutMs }, [], .processed)
  else if w.segNum = w.newwin ∨ w.segNum = w.buf.segCount then (w, [], .processed)
  else
    let (w, mads) := w.sendNextSeg t
    (w, mads, if sent then .consumed else .failed)

def waitForResponse (jiffies : Nat) : RmppSend δ :=
  { w with timeout := (w.timeout + jiffies) % 2 ^ 64 }

/-- The rest of `ib_mad_complete_send_wr`, when the completion was not consumed. -/
def dropReference (ok : Bool) (jiffies : Nat) : RmppSend δ :=
  let w :=
    if ¬ok ∧ w.status then
      { w with status := false, refcount := w.refcount - if 0 < w.timeout then 1 else 0 }
    else w
  let w := { w with refcount := w.refcount - 1 }
  if w.refcount = 1 ∧ w.timeout ≠ 0 ∧ w.status then w.waitForResponse jiffies else w

def madCompleteSendWr (ok sent : Bool) (jiffies : Nat) : RmppSend δ × List (Transmission δ) :=
  let (w, mads, ret) := w.processRmppSendWc t ok sent
  if ret = .consumed then (w, mads) else (w.dropReference (ok && ret ≠ .failed) jiffies, mads)

/-- `abort_send`, once the send is found. -/
def abortSend (jiffies : Nat) : RmppSend δ × List (Transmission δ) :=
  if w.lastAck = w.buf.segCount ∨ w.timeout = 0 ∨ ¬w.status then (w, [])
  else { w with timeout := 0 }.madCompleteSendWr t false true jiffies

def adjustLastAck (segNum : Int) : RmppSend δ :=
  { w with lastAck := segNum, lastAckSeg := w.walk w.lastAckSeg segNum.toNat }

/-- `process_rmpp_ack`, when `ib_find_send_mad` finds this send. -/
def processRmppAck (rmppStatus : Nat) (segNum newwin : Int) (sent : Bool) (jiffies : Nat) :
    RmppSend δ × List (Transmission δ) :=
  if rmppStatus ≠ 0 then w.abortSend t jiffies
  else if newwin < segNum then w.abortSend t jiffies
  else if w.lastAck = w.buf.segCount ∧ w.timeout ≠ 0 then (w, [])
  else if w.lastAck = w.buf.segCount ∨ w.timeout = 0 ∨ ¬w.status then (w, [])
  else if segNum > w.buf.segCount ∨ segNum > w.newwin then w.abortSend t jiffies
  else if newwin < w.newwin ∨ segNum < w.lastAck then (w, [])
  else
    let w :=
      if segNum > w.lastAck then
        { w.adjustLastAck segNum with retriesLeft := w.buf.maxRetries }
      else w
    let w := { w with newwin := newwin }
    if w.lastAck = w.buf.segCount then
      if w.buf.timeoutMs = 0 then { w with timeout := 0 }.madCompleteSendWr t true true jiffies
      else if w.refcount = 1 then
        ({ w with timeout := t.msecsToJiffies w.buf.timeoutMs }.waitForResponse jiffies, [])
      else (w, [])
    else if w.refcount = 1 ∧ w.segNum < w.newwin ∧ w.segNum < w.buf.segCount then
      let (w, mads) := w.sendNextSeg t
      (if sent then { w with refcount := w.refcount + 1 } else w, mads)
    else (w, [])

def retryRmpp : RmppSend δ × List (Transmission δ) :=
  if w.lastAck = w.buf.segCount then (w, [])
  else { w with segNum := w.lastAck, curSeg := w.lastAckSeg }.sendNextSeg t

/-- `retry_send`, which `timeout_sends` calls. -/
def retrySend (sent : Bool) : RmppSend δ × List (Transmission δ) :=
  if w.retriesLeft = 0 then ({ w with refcount := 0 }, [])
  else
    let w :=
      { w with retriesLeft := w.retriesLeft - 1, timeout := t.msecsToJiffies w.buf.timeoutMs }
    let acked := w.lastAck = w.buf.segCount
    let (w, mads) := w.retryRmpp t
    (if sent ∧ ¬acked then { w with refcount := w.refcount + 1 } else
    { w with refcount := 0 }, mads)

end RmppSend

/-- What `find_rmpp_recv` compares of a received MAD. -/
structure RecvKey where
  tid : Nat
  srcQp : Nat
  slid : Nat
  mgmtClass : Nat
  classVersion : Nat
  method : Nat
  deriving DecidableEq

/-- A transaction on `agent->rmpp_list`, as far as the window of a response depends on it. -/
structure RecvEntry where
  key : RecvKey
  state : RmppState
  repwin : Int

/-- `create_rmpp_recv`, seen so. -/
def RecvEntry.create (key : RecvKey) : RecvEntry := { key, state := .active, repwin := 1 }

def processDsAck (key : RecvKey) (newwin : Int) : List RecvEntry → List RecvEntry
  | [] => []
  | e :: rest =>
    if e.key = key then
      (if e.state = .complete then { e with repwin := newwin } else e) :: rest
    else e :: processDsAck key newwin rest

/-- `process_rmpp_ack`, when no send is found: the ACK of a double-sided transfer. -/
def processUnmatchedAck (recvs : List RecvEntry) (key : RecvKey) (rmppStatus : Nat)
    (segNum newwin : Int) : List RecvEntry :=
  if rmppStatus ≠ 0 then recvs
  else if newwin < segNum then recvs
  else if segNum = 0 then processDsAck key newwin recvs
  else recvs

/-- `IB_MGMT_METHOD_RESP`. -/
def isResp (method : Nat) : Bool := method &&& 0x80 ≠ 0

/-- `init_newwin`: `dlid` is that of the address handle, if `rdma_query_ah` gives one. -/
def initNewwin (recvs : List RecvEntry) (tid mgmtClass classVersion method : Nat)
    (dlid : Option Nat) : Int :=
  if isResp method then
    (recvs.find? fun e => e.key.tid = tid && e.key.mgmtClass = mgmtClass &&
      e.key.classVersion = classVersion && !isResp e.key.method &&
      dlid = some e.key.slid).elim 1 (·.repwin)
  else 1

/-- A send with what was handed to the QP for it, newest first. -/
structure SendRun (δ : Type) where
  wr : RmppSend δ
  sent : List (Transmission δ)

/-- What happens to a send. Each event says whether `ib_send_mad` succeeds in it and what
the clock shows. -/
inductive SendEvent where
  | complete (ok sent : Bool) (jiffies : Nat)
  | ack (rmppStatus : Nat) (segNum newwin : Int) (sent : Bool) (jiffies : Nat)
  | timeout (sent : Bool)

namespace SendRun

variable (t : Mad.Ticks)

def start (w : RmppSend δ) (newwin : Int) : SendRun δ :=
  let (w, mads) := w.sendRmppMad t newwin
  ⟨w, mads⟩

/-- One handler. A send without references is gone, and one that was cancelled is not retried. -/
def handle (w : RmppSend δ) : SendEvent → RmppSend δ × List (Transmission δ)
  | .complete ok sent jiffies => w.madCompleteSendWr t ok sent jiffies
  | .ack rmppStatus segNum newwin sent jiffies =>
    w.processRmppAck t rmppStatus segNum newwin sent jiffies
  | .timeout sent => if w.status then w.retrySend t sent else ({ w with refcount := 0 }, [])

def step (s : SendRun δ) (e : SendEvent) : SendRun δ :=
  if s.wr.refcount ≤ 0 then s
  else
    let (w, mads) := handle t s.wr e
    ⟨w, mads ++ s.sent⟩

/-- Every segment was handed over inside the window of that time and is one of the message. -/
def InWindow (s : SendRun δ) : Prop :=
  ∀ x ∈ s.sent, x.mad.seg.num ≤ x.newwin ∧ x.mad.seg.num ≤ s.wr.buf.segCount

/-- The condition on each event: when a timer retries the segment behind the last
acknowledged one, that segment is inside the window. -/
def RetryInWindow (s : SendRun δ) : SendEvent → Prop
  | .timeout _ =>
    0 < s.wr.refcount → s.wr.status = true → s.wr.retriesLeft ≠ 0 →
      s.wr.lastAck ≠ s.wr.buf.segCount → s.wr.lastAck < s.wr.newwin
  | _ => True

end SendRun

/-! ## What a handler does -/

namespace SendBuf

/-- The segments are numbered from 1. -/
structure Sound (b : SendBuf δ) : Prop where
  nums : ∀ i (h : i < b.rmppList.length), b.rmppList[i].num = i + 1
  length_eq : b.rmppList.length = b.segCount
  count : 1 ≤ b.segCount ∧ b.segCount < 2 ^ 31

def dataMad (b : SendBuf δ) (n : Nat) : DataMad δ :=
  { seg :=
      { segNum := n
        paylenNewwin :=
          if n = b.segCount then toU32 ((b.segRmppSize : Int) - b.pad)
          else if n = 1 then toU32 ((b.segCount : Int) * b.segRmppSize - b.pad)
          else 0
        last := n = b.segCount
        data := (b.rmppList[n - 1]?).map (·.data) }
    first := n = 1
    mgmtClass := b.mgmtClass }

theorem dataMad_num (b : SendBuf δ) {n : Nat} (h : n < 2 ^ 31) : (b.dataMad n).seg.num = n := by
  have h0 : I32.wrap (n : Int) = n := I32.wrap_of_range (by omega) (by omega)
  exact h0

end SendBuf

namespace RmppSend

/-- The numbers of a send stay between 0 and `seg_count`, its pointers at segments. -/
structure Bounds (w : RmppSend δ) : Prop where
  buf : w.buf.Sound
  lastAck : 0 ≤ w.lastAck ∧ w.lastAck ≤ w.buf.segCount
  segNum : 0 ≤ w.segNum ∧ w.segNum ≤ w.buf.segCount
  curSeg : 1 ≤ w.curSeg ∧ w.curSeg ≤ w.buf.segCount
  lastAckSeg : 1 ≤ w.lastAckSeg ∧ w.lastAckSeg ≤ w.buf.segCount

/-- What every handler keeps: the message, the window already open, the pointers. -/
structure Keeps (w w' : RmppSend δ) : Prop where
  buf_eq : w'.buf = w.buf
  newwin_le : w.newwin ≤ w'.newwin
  lastAck : 0 ≤ w'.lastAck ∧ w'.lastAck ≤ w.buf.segCount
  curSeg : 1 ≤ w'.curSeg ∧ w'.curSeg ≤ w.buf.segCount
  lastAckSeg : 1 ≤ w'.lastAckSeg ∧ w'.lastAckSeg ≤ w.buf.segCount

/-- Nothing was handed over. -/
structure Quiet (w : RmppSend δ) (r : RmppSend δ × List (Transmission δ)) : Prop extends
    Keeps w r.1 where
  segNum_eq : r.1.segNum = w.segNum
  none_sent : r.2 = []

/-- The segment behind number `b` was handed over. -/
structure Sends (w : RmppSend δ) (b : Int) (r : RmppSend δ × List (Transmission δ)) : Prop extends
    Keeps w r.1 where
  base : 0 ≤ b ∧ b < w.buf.segCount
  segNum_eq : r.1.segNum = b + 1
  sent : ∃ x, r.2 = [x] ∧ x.mad = w.buf.dataMad (b + 1).toNat ∧ x.newwin = r.1.newwin

/-- What the handlers above depend on is the same. -/
structure SameWindow (w w' : RmppSend δ) : Prop where
  buf_eq : w'.buf = w.buf
  newwin_eq : w'.newwin = w.newwin
  lastAck_eq : w'.lastAck = w.lastAck
  segNum_eq : w'.segNum = w.segNum
  curSeg_eq : w'.curSeg = w.curSeg
  lastAckSeg_eq : w'.lastAckSeg = w.lastAckSeg

variable {t : Mad.Ticks} {w : RmppSend δ}

theorem Keeps.trans {w₁ w₂ w₃ : RmppSend δ} (h : Keeps w₁ w₂) (h' : Keeps w₂ w₃) : Keeps w₁ w₃ := by
  obtain ⟨h1, h2, h3, h4, h5⟩ := h'
  rw [h.buf_eq] at h1 h3 h4 h5
  exact ⟨h1, h.newwin_le.trans h2, h3, h4, h5⟩

theorem Keeps.congr {w₁ w₂ : RmppSend δ} (h : Keeps w w₁) (hs : SameWindow w₁ w₂) : Keeps w w₂ := by
  obtain ⟨s1, s2, s3, -, s5, s6⟩ := hs
  obtain ⟨h1, h2, h3, h4, h5⟩ := h
  exact ⟨s1.trans h1, by rwa [s2], by rwa [s3], by rwa [s5], by rwa [s6]⟩

theorem Bounds.keeps_self (h : w.Bounds) : Keeps w w :=
  ⟨rfl, le_refl _, h.lastAck, h.curSeg, h.lastAckSeg⟩

theorem Bounds.quiet (h : w.Bounds) {w' : RmppSend δ} (hs : SameWindow w w') : Quiet w (w', []) :=
  ⟨h.keeps_self.congr hs, hs.segNum_eq, rfl⟩

theorem Bounds.same {w' : RmppSend δ} (h : w.Bounds) (hs : SameWindow w w') : w'.Bounds := by
  obtain ⟨s1, -, s3, s4, s5, s6⟩ := hs
  obtain ⟨h1, h2, h3, h4, h5⟩ := h
  exact ⟨by rwa [s1], by rwa [s3, s1], by rwa [s4, s1], by rwa [s5, s1], by rwa [s6, s1]⟩

theorem Quiet.congr {w₁ w₂ : RmppSend δ} {l : List (Transmission δ)} (h : Quiet w (w₁, l))
    (hs : SameWindow w₁ w₂) : Quiet w (w₂, l) :=
  ⟨h.toKeeps.congr hs, hs.segNum_eq.trans h.segNum_eq, h.none_sent⟩

theorem Sends.congr {w₁ w₂ : RmppSend δ} {b : Int} {l : List (Transmission δ)}
    (h : Sends w b (w₁, l)) (hs : SameWindow w₁ w₂) : Sends w b (w₂, l) := by
  obtain ⟨hk, h4, h5, x, h6, h7, h8⟩ := h
  exact ⟨hk.congr hs, h4, hs.segNum_eq.trans h5, x, h6, h7, h8.trans hs.newwin_eq.symm⟩

theorem Sends.of_keeps {w' : RmppSend δ} {b : Int} {r : RmppSend δ × List (Transmission δ)}
    (h : Sends w' b r) (hk : Keeps w w') : Sends w b r := by
  obtain ⟨hk', h4, h5, x, h6, h7, h8⟩ := h
  rw [hk.buf_eq] at h4 h7
  exact ⟨hk.trans hk', h4, h5, x, h6, h7, h8⟩

/-- Both walks find the segment they look for, wherever they start. -/
theorem find_num {b : SendBuf δ} (hb : b.Sound) {k n : Nat} (hn : 1 ≤ n ∧ n ≤ b.segCount)
    {l : List (RmppSegment δ)}
    (hl : ∀ s, s ∈ l ↔ s ∈ b.rmppList.drop k ∨ s ∈ b.rmppList.take (k - 1)) :
    (l.find? fun s => s.num = n).elim k (·.num) = n := by
  have hlen := hb.length_eq
  cases hfind : l.find? (fun s => s.num = n) with
  | some s => simpa using List.find?_some hfind
  | none =>
    -- only the segment where the walk starts is not on the way
    by_contra hne
    simp only [Option.elim_none] at hne
    have hin : b.rmppList[n - 1] ∈ l := by
      rw [hl]
      by_cases hk : k < n
      · refine .inl (List.mem_iff_getElem.mpr ⟨n - 1 - k, by simp; omega, ?_⟩)
        simp only [List.getElem_drop]
        congr 1
        omega
      · refine .inr (List.mem_iff_getElem.mpr ⟨n - 1, by simp; omega, ?_⟩)
        simp
    have hno := List.find?_eq_none.mp hfind _ hin
    rw [hb.nums] at hno
    simp only [decide_eq_true_eq] at hno
    omega

theorem walk_eq (hb : w.buf.Sound) {k n : Nat} (hn : 1 ≤ n ∧ n ≤ w.buf.segCount) :
    w.walk k n = n :=
  find_num hb hn fun s => by simp

theorem walkBack_eq (hb : w.buf.Sound) {k n : Nat} (hn : 1 ≤ n ∧ n ≤ w.buf.segCount) :
    w.walkBack k n = n :=
  find_num hb hn fun s => by simp [or_comm]

theorem getRmppSegment_eq (hb : w.buf.Sound) {n : Int} (hn : 1 ≤ n ∧ n ≤ w.buf.segCount) :
    w.getRmppSegment n = { w with curSeg := n.toNat } := by
  have hn' : 1 ≤ n.toNat ∧ n.toNat ≤ w.buf.segCount := by omega
  unfold getRmppSegment
  rw [walk_eq hb hn', walkBack_eq hb hn']
  split_ifs with h1 h2
  · rfl
  · rfl
  · have : w.curSeg = n.toNat := by omega
    rw [← this]

/-! ### The handlers -/

theorem sendNextSeg_sends (h : w.Bounds) (hlt : w.segNum < w.buf.segCount) :
    Sends w w.segNum (w.sendNextSeg t) ∧ (w.sendNextSeg t).1.newwin = w.newwin := by
  have hc := h.buf.count
  have hs := h.segNum
  have hn : 1 ≤ w.segNum + 1 ∧ w.segNum + 1 ≤ w.buf.segCount := by omega
  have hw : I32.wrap (w.segNum + 1) = w.segNum + 1 := I32.wrap_of_range (by omega) (by omega)
  have hnum : toU32 (w.segNum + 1) = (w.segNum + 1).toNat := by unfold toU32; omega
  have hfirst : w.segNum + 1 = 1 ↔ (w.segNum + 1).toNat = 1 := by omega
  have hlast : w.segNum + 1 = w.buf.segCount ↔ (w.segNum + 1).toNat = w.buf.segCount := by omega
  unfold sendNextSeg
  simp only [hw, hfirst, hlast]
  generalize hw' : (if w.buf.timeoutMs = 0 ∨ w.buf.timeoutMs > 2000 then
      { w with segNum := w.segNum + 1, timeout := t.msecsToJiffies 2000 }
    else { w with segNum := w.segNum + 1 } : RmppSend δ) = w'
  obtain ⟨b1, b2, b3, b4, b5, b6⟩ : w'.buf = w.buf ∧ w'.newwin = w.newwin ∧
      w'.lastAck = w.lastAck ∧ w'.segNum = w.segNum + 1 ∧ w'.lastAckSeg = w.lastAckSeg ∧
      w'.curSeg = w.curSeg := by
    subst hw'
    split <;> exact ⟨rfl, rfl, rfl, rfl, rfl, rfl⟩
  rw [getRmppSegment_eq (b1 ▸ h.buf) (by rw [b1, b4]; exact hn)]
  refine ⟨⟨⟨b1, b2.ge, ?_, ?_, ?_⟩, ⟨hs.1, hlt⟩, b4, _, rfl, ?_, rfl⟩, b2⟩
  · simp only [b3]; exact h.lastAck
  · simp only [b4]; omega
  · simp only [b5]; exact h.lastAckSeg
  · simp only [SendBuf.dataMad, curData, b1, b4, hnum]

/-- A completion sends on only when `seg_num` is neither the window nor the last. -/
theorem processRmppSendWc_spec (h : w.Bounds) (ok sent : Bool) :
    Quiet w ((w.processRmppSendWc t ok sent).1, (w.processRmppSendWc t ok sent).2.1) ∨
      (Sends w w.segNum ((w.processRmppSendWc t ok sent).1, (w.processRmppSendWc t ok sent).2.1) ∧
        (w.processRmppSendWc t ok sent).1.newwin = w.newwin ∧ w.segNum ≠ w.newwin ∧ ok = true) := by
  have hquiet : Quiet w (w, []) := h.quiet (by constructor <;> rfl)
  unfold processRmppSendWc
  by_cases h1 : ¬ok = true ∨ ¬w.status = true
  · rw [if_pos h1]; exact .inl hquiet
  rw [if_neg h1]
  by_cases h2 : w.timeout = 0
  · rw [if_pos h2]; exact .inl hquiet
  rw [if_neg h2]
  by_cases h3 : w.lastAck = w.buf.segCount
  · rw [if_pos h3]; exact .inl (h.quiet (by constructor <;> rfl))
  rw [if_neg h3]
  by_cases h4 : w.segNum = w.newwin ∨ w.segNum = w.buf.segCount
  · rw [if_pos h4]; exact .inl hquiet
  rw [if_neg h4]
  have hs := h.segNum
  obtain ⟨hsend, hnew⟩ := sendNextSeg_sends (t := t) h (by omega)
  refine .inr ⟨hsend, hnew, fun he => h4 (.inl he), ?_⟩
  by_contra hok
  exact h1 (.inl hok)

theorem dropReference_same (w : RmppSend δ) (ok : Bool) (jiffies : Nat) :
    SameWindow w (w.dropReference ok jiffies) := by
  unfold dropReference waitForResponse
  simp only
  split_ifs <;> constructor <;> rfl

theorem madCompleteSendWr_spec (h : w.Bounds) (ok sent : Bool) (jiffies : Nat) :
    Quiet w (w.madCompleteSendWr t ok sent jiffies) ∨
      (Sends w w.segNum (w.madCompleteSendWr t ok sent jiffies) ∧
        (w.madCompleteSendWr t ok sent jiffies).1.newwin = w.newwin ∧ w.segNum ≠ w.newwin ∧
          ok = true) := by
  have hspec := processRmppSendWc_spec (t := t) h ok sent
  unfold madCompleteSendWr
  generalize w.processRmppSendWc t ok sent = r at hspec ⊢
  obtain ⟨w', mads, ret⟩ := r
  simp only
  split
  · exact hspec
  · have hsame := dropReference_same w' (ok && ret ≠ .failed) jiffies
    rcases hspec with hq | ⟨hs, hn, hne, hok⟩
    · exact .inl (hq.congr hsame)
    · exact .inr ⟨hs.congr hsame, hsame.newwin_eq.trans hn, hne, hok⟩

/-- A failed completion hands nothing over. -/
theorem madCompleteSendWr_quiet (h : w.Bounds) (sent : Bool) (jiffies : Nat) :
    Quiet w (w.madCompleteSendWr t false sent jiffies) := by
  rcases madCompleteSendWr_spec (t := t) h false sent jiffies with hq | ⟨-, -, -, hok⟩
  · exact hq
  · cases hok

theorem abortSend_quiet (h : w.Bounds) (jiffies : Nat) : Quiet w (w.abortSend t jiffies) := by
  unfold abortSend
  split
  · exact h.quiet (by constructor <;> rfl)
  · have hs : SameWindow w { w with timeout := 0 } := by constructor <;> rfl
    obtain ⟨⟨h1, h2, h3, h4, h5⟩, h6, h7⟩ :=
      madCompleteSendWr_quiet (t := t) (h.same hs) true jiffies
    exact ⟨⟨h1, h2, h3, h4, h5⟩, h6, h7⟩

/-- An ACK that is taken opens the window and moves the last acknowledged segment. -/
theorem acked_bounds (h : w.Bounds) {n m : Int} (hle : n ≤ w.buf.segCount) (hnew : w.newwin ≤ m) :
    let w' := if n > w.lastAck then
      { w.adjustLastAck n with retriesLeft := w.buf.maxRetries } else w
    Keeps w { w' with newwin := m } ∧ w'.segNum = w.segNum ∧ Bounds { w' with newwin := m } := by
  have h1 := h.lastAck
  split
  next hgt =>
    have hn : 1 ≤ n.toNat ∧ n.toNat ≤ w.buf.segCount := by omega
    have hseg : w.walk w.lastAckSeg n.toNat = n.toNat := walk_eq h.buf hn
    have hl : (0 : Int) ≤ n ∧ n ≤ w.buf.segCount := by omega
    simp only [adjustLastAck, hseg]
    exact ⟨⟨rfl, hnew, hl, h.curSeg, hn⟩, trivial, h.buf, hl, h.segNum, h.curSeg, hn⟩
  next =>
    exact ⟨⟨rfl, hnew, h1, h.curSeg, h.lastAckSeg⟩, rfl, h.buf, h1, h.segNum, h.curSeg,
      h.lastAckSeg⟩

/-- Without a timeout the send has its response, and nothing more is sent. -/
theorem madCompleteSendWr_done {ok sent : Bool} {jiffies : Nat} (h : w.timeout = 0) :
    w.madCompleteSendWr t ok sent jiffies = (w.dropReference ok jiffies, []) := by
  have hproc : w.processRmppSendWc t ok sent = (w, [], .processed) := by
    unfold processRmppSendWc
    split <;> rfl
  simp [madCompleteSendWr, hproc]

/-- An ACK sends on only below the window and the last segment. -/
theorem processRmppAck_spec (h : w.Bounds) (rmppStatus : Nat) (segNum newwin : Int) (sent : Bool)
    (jiffies : Nat) :
    Quiet w (w.processRmppAck t rmppStatus segNum newwin sent jiffies) ∨
      (Sends w w.segNum (w.processRmppAck t rmppStatus segNum newwin sent jiffies) ∧
        w.segNum < (w.processRmppAck t rmppStatus segNum newwin sent jiffies).1.newwin) := by
  have hquiet : Quiet w (w, []) := h.quiet (by constructor <;> rfl)
  unfold processRmppAck
  by_cases h1 : rmppStatus ≠ 0
  · rw [if_pos h1]; exact .inl (abortSend_quiet h jiffies)
  rw [if_neg h1]
  by_cases h2 : newwin < segNum
  · rw [if_pos h2]; exact .inl (abortSend_quiet h jiffies)
  rw [if_neg h2]
  by_cases h3 : w.lastAck = w.buf.segCount ∧ w.timeout ≠ 0
  · rw [if_pos h3]; exact .inl hquiet
  rw [if_neg h3]
  by_cases h4 : w.lastAck = w.buf.segCount ∨ w.timeout = 0 ∨ ¬w.status = true
  · rw [if_pos h4]; exact .inl hquiet
  rw [if_neg h4]
  by_cases h5 : segNum > w.buf.segCount ∨ segNum > w.newwin
  · rw [if_pos h5]; exact .inl (abortSend_quiet h jiffies)
  rw [if_neg h5]
  by_cases h6 : newwin < w.newwin ∨ segNum < w.lastAck
  · rw [if_pos h6]; exact .inl hquiet
  rw [if_neg h6]
  obtain ⟨hkeep, hseg, hb⟩ := acked_bounds (n := segNum) (m := newwin) h (by omega) (by omega)
  generalize (if segNum > w.lastAck then
    { w.adjustLastAck segNum with retriesLeft := w.buf.maxRetries } else w) = w' at hkeep hseg hb ⊢
  have hq : Quiet w ({ w' with newwin := newwin }, []) := ⟨hkeep, hseg, rfl⟩
  by_cases h7 : w'.lastAck = w'.buf.segCount
  · rw [if_pos h7]
    left
    by_cases h8 : w'.buf.timeoutMs = 0
    · -- the ACK completes the send
      rw [if_pos h8, madCompleteSendWr_done rfl]
      have hq' : Quiet w ({ w' with newwin := newwin, timeout := 0 }, []) :=
        hq.congr (by constructor <;> rfl)
      exact hq'.congr (dropReference_same _ true jiffies)
    · rw [if_neg h8]
      split
      · exact hq.congr (by constructor <;> rfl)
      · exact hq
  · rw [if_neg h7]
    by_cases h9 : w'.refcount = 1 ∧ w'.segNum < newwin ∧ w'.segNum < w'.buf.segCount
    · rw [if_pos h9]
      obtain ⟨hsend, hn⟩ := sendNextSeg_sends (t := t) hb h9.2.2
      generalize sendNextSeg t { w' with newwin := newwin } = r at hsend hn ⊢
      obtain ⟨w'', mads⟩ := r
      have hsame : SameWindow w''
        (if sent then { w'' with refcount := w''.refcount + 1 } else w'') := by
        split <;> constructor <;> rfl
      have hs : Sends w w.segNum (w'', mads) := hseg ▸ hsend.of_keeps hkeep
      have hlt : w.segNum < w''.newwin := by
        have hn' : w''.newwin = newwin := hn
        omega
      refine .inr ⟨hs.congr hsame, ?_⟩
      simp only [hsame.newwin_eq]
      exact hlt
    · rw [if_neg h9]
      exact .inl hq

theorem retryRmpp_acked (h : w.lastAck = w.buf.segCount) : w.retryRmpp t = (w, []) := if_pos h

theorem retryRmpp_next (h : w.lastAck ≠ w.buf.segCount) :
    w.retryRmpp t =
      { w with segNum := w.lastAck, curSeg := w.lastAckSeg }.sendNextSeg t := if_neg h

theorem retrySend_spec (h : w.Bounds) (sent : Bool) :
    (Quiet w (w.retrySend t sent) ∧ (w.retriesLeft = 0 ∨ w.lastAck = w.buf.segCount)) ∨
      (Sends w w.lastAck (w.retrySend t sent) ∧ (w.retrySend t sent).1.newwin = w.newwin ∧
        w.retriesLeft ≠ 0 ∧ w.lastAck ≠ w.buf.segCount) := by
  unfold retrySend
  by_cases h1 : w.retriesLeft = 0
  · rw [if_pos h1]
    exact .inl ⟨h.quiet (by constructor <;> rfl), .inl h1⟩
  rw [if_neg h1]
  simp only
  by_cases h2 : w.lastAck = w.buf.segCount
  · rw [retryRmpp_acked (by exact h2)]
    refine .inl ⟨?_, .inr h2⟩
    split <;> exact h.quiet (by constructor <;> rfl)
  · have hl := h.lastAck
    rw [retryRmpp_next (by exact h2)]
    generalize hw' : ({ w with
        retriesLeft := w.retriesLeft - 1
        timeout := t.msecsToJiffies w.buf.timeoutMs
        segNum := w.lastAck
        curSeg := w.lastAckSeg } : RmppSend δ) = w'
    have hb : w'.Bounds := by
      subst hw'
      exact ⟨h.buf, hl, hl, h.lastAckSeg, h.lastAckSeg⟩
    have hk : Keeps w w' := by
      subst hw'
      exact ⟨rfl, le_refl _, hl, h.lastAckSeg, h.lastAckSeg⟩
    have hseg : w'.segNum = w.lastAck ∧ w'.newwin = w.newwin ∧ w'.buf = w.buf := by
      subst hw'
      exact ⟨rfl, rfl, rfl⟩
    obtain ⟨hsend, hn⟩ := sendNextSeg_sends (t := t) hb (by rw [hseg.1, hseg.2.2]; omega)
    generalize w'.sendNextSeg t = r at hsend hn ⊢
    obtain ⟨w'', mads⟩ := r
    have hsame : SameWindow w'' (if sent = true ∧ ¬w.lastAck = w.buf.segCount then
        { w'' with refcount := w''.refcount + 1 } else { w'' with refcount := 0 }) := by
      split <;> constructor <;> rfl
    exact .inr ⟨(hseg.1 ▸ hsend.of_keeps hk).congr hsame,
      hsame.newwin_eq.trans (hn.trans hseg.2.1), h1, h2⟩

end RmppSend

theorem madDataOffset_le (mgmtClass : Nat) : madDataOffset mgmtClass ≤ 64 := by
  unfold madDataOffset
  split_ifs <;> omega

theorem getPadSize_pos (dataLen : Nat) {hdrLen : Nat} (hh : hdrLen ≤ 64) :
    0 < dataLen + getPadSize hdrLen dataLen 256 := by
  unfold getPadSize
  by_cases h : dataLen = 0
  · simp [h]
    omega
  · omega

@[simp] theorem allocSendRmppList_length (dataLen pad segSize : Nat) (payload : Nat → δ) :
    (allocSendRmppList dataLen pad segSize payload).length =
      (dataLen + pad + segSize - 1) / segSize := by
  simp [allocSendRmppList]

section Create

variable {mgmtClass dataLen timeoutMs retries : Nat} {payload : Nat → δ} {w : RmppSend δ}

/-- A send has at least one segment, and its segments cover data and padding. -/
theorem createSendMad_sound
    (h : createSendMad mgmtClass dataLen payload timeoutMs retries = some w) : w.Bounds := by
  have hh := madDataOffset_le mgmtClass
  have hpos := getPadSize_pos dataLen hh
  unfold createSendMad at h
  simp only at h
  generalize getPadSize (madDataOffset mgmtClass) dataLen 256 = pad at h hpos
  generalize madDataOffset mgmtClass = hdr at h hh
  by_cases hbig : 2 ^ 31 ≤ dataLen + pad
  · rw [if_pos hbig] at h
    cases h
  · rw [if_neg hbig, Option.some.injEq] at h
    have hsize : 0 < 256 - hdr := by omega
    have hlow : 1 ≤ (dataLen + pad + (256 - hdr) - 1) / (256 - hdr) := by
      rw [Nat.le_div_iff_mul_le hsize]
      omega
    have hhigh : (dataLen + pad + (256 - hdr) - 1) / (256 - hdr) ≤ dataLen + pad := by
      rw [Nat.div_le_iff_le_mul_add_pred hsize]
      have := Nat.mul_le_mul_right (dataLen + pad) hsize
      omega
    subst h
    refine ⟨⟨fun i hi => by simp [allocSendRmppList], rfl, ?_⟩, ?_, ?_, ?_, ?_⟩ <;>
      simp only [allocSendRmppList_length] <;> omega

theorem createSendMad_segNum
    (h : createSendMad mgmtClass dataLen payload timeoutMs retries = some w) : w.segNum = 0 := by
  unfold createSendMad at h
  simp only at h
  split at h
  · cases h
  · rw [Option.some.injEq] at h
    subst h
    rfl

end Create

/-! ## The window over a run -/

namespace SendRun

variable {t : Mad.Ticks} {s : SendRun δ} {w : RmppSend δ}

/-- What every event keeps. As long as nothing was handed over outside the window,
`seg_num` is inside. -/
structure Inv (s : SendRun δ) : Prop where
  bounds : s.wr.Bounds
  inside : s.InWindow → s.wr.segNum ≤ s.wr.newwin

/-- The send after a handler. -/
theorem keeps_bounds {w' : RmppSend δ} (hb : w.Bounds) (h : w.Keeps w')
    (hs : 0 ≤ w'.segNum ∧ w'.segNum ≤ w.buf.segCount) : w'.Bounds := by
  obtain ⟨h1, -, h3, h4, h5⟩ := h
  exact ⟨by rw [h1]; exact hb.buf, by rw [h1]; exact h3, by rw [h1]; exact hs, by rw [h1]; exact h4,
    by rw [h1]; exact h5⟩

/-- The window after a handler that hands over the segment behind `b`. -/
theorem sends_inv (sent : List (Transmission δ)) {b : Int}
    {r : RmppSend δ × List (Transmission δ)} (hb : w.Bounds) (h : w.Sends b r) :
    Inv ⟨r.1, r.2 ++ sent⟩ ∧
      (InWindow ⟨r.1, r.2 ++ sent⟩ ↔ b < r.1.newwin ∧ InWindow ⟨w, sent⟩) := by
  obtain ⟨hk, ⟨hb0, hb1⟩, hs, x, hx, hmad, hnew⟩ := h
  have hc := hb.buf.count
  have hnum : x.mad.seg.num = b + 1 := by
    rw [hmad, SendBuf.dataMad_num _ (by omega)]
    omega
  have hiff : InWindow ⟨r.1, r.2 ++ sent⟩ ↔ b < r.1.newwin ∧ InWindow ⟨w, sent⟩ := by
    simp only [InWindow, hx, List.singleton_append, List.forall_mem_cons, hnum, hnew, hk.buf_eq]
    constructor
    · rintro ⟨⟨h1, -⟩, h2⟩
      exact ⟨by omega, h2⟩
    · rintro ⟨h1, h2⟩
      exact ⟨⟨by omega, by omega⟩, h2⟩
  refine ⟨⟨keeps_bounds hb hk (by simp only [hs]; omega), fun hin => ?_⟩, hiff⟩
  have := (hiff.mp hin).1
  simp only [hs]
  omega

theorem quiet_inv {sent : List (Transmission δ)} {r : RmppSend δ × List (Transmission δ)}
    (hi : Inv ⟨w, sent⟩) (h : w.Quiet r) :
    Inv ⟨r.1, r.2 ++ sent⟩ ∧ (InWindow ⟨r.1, r.2 ++ sent⟩ ↔ InWindow ⟨w, sent⟩) := by
  obtain ⟨hk, hs, hx⟩ := h
  have hb : w.Bounds := hi.bounds
  have hiff : InWindow ⟨r.1, r.2 ++ sent⟩ ↔ InWindow ⟨w, sent⟩ := by
    simp [InWindow, hx, hk.buf_eq]
  refine ⟨⟨keeps_bounds hb hk (by rw [hs]; exact hb.segNum), fun hin => ?_⟩, hiff⟩
  have h1 : w.segNum ≤ w.newwin := hi.inside (hiff.mp hin)
  have h2 := hk.newwin_le
  simp only [hs]
  omega

/-- One handler, with what it keeps and when it stays inside the window. -/
theorem handle_spec {sent : List (Transmission δ)} (hi : Inv ⟨w, sent⟩) (e : SendEvent)
    (hr : 0 < w.refcount) :
    Inv ⟨(handle t w e).1, (handle t w e).2 ++ sent⟩ ∧
      (InWindow ⟨w, sent⟩ → (InWindow ⟨(handle t w e).1, (handle t w e).2 ++ sent⟩ ↔
        RetryInWindow ⟨w, sent⟩ e)) := by
  have hb : w.Bounds := hi.bounds
  cases e with
  | complete ok sentOk jiffies =>
    rcases RmppSend.madCompleteSendWr_spec (t := t) hb ok sentOk jiffies with
      hq | ⟨hs, hn, hne, -⟩
    · obtain ⟨h1, h2⟩ := quiet_inv hi hq
      exact ⟨h1, fun hin => iff_of_true (h2.mpr hin) trivial⟩
    · obtain ⟨h1, h2⟩ := sends_inv sent hb hs
      refine ⟨h1, fun hin => iff_of_true (h2.mpr ⟨?_, hin⟩) trivial⟩
      have hle : w.segNum ≤ w.newwin := hi.inside hin
      omega
  | ack rmppStatus segNum newwin sentOk jiffies =>
    rcases RmppSend.processRmppAck_spec (t := t) hb rmppStatus segNum newwin sentOk jiffies with
      hq | ⟨hs, hlt⟩
    · obtain ⟨h1, h2⟩ := quiet_inv hi hq
      exact ⟨h1, fun hin => iff_of_true (h2.mpr hin) trivial⟩
    · obtain ⟨h1, h2⟩ := sends_inv sent hb hs
      exact ⟨h1, fun hin => iff_of_true (h2.mpr ⟨hlt, hin⟩) trivial⟩
  | timeout sentOk =>
    cases hst : w.status with
    | false =>
      have hq : w.Quiet ({ w with refcount := 0 }, []) := hb.quiet (by constructor <;> rfl)
      obtain ⟨h1, h2⟩ := quiet_inv hi hq
      have heq : handle t w (.timeout sentOk) = ({ w with refcount := 0 }, []) :=
        if_neg (by simp [hst])
      rw [heq]
      exact ⟨h1, fun hin => iff_of_true (h2.mpr hin) fun _ hs => by simp [hst] at hs⟩
    | true =>
      have heq : handle t w (.timeout sentOk) = w.retrySend t sentOk := if_pos hst
      rw [heq]
      rcases RmppSend.retrySend_spec (t := t) hb sentOk with ⟨hq, hdone⟩ | ⟨hs, hn, hr0, hl⟩
      · obtain ⟨h1, h2⟩ := quiet_inv hi hq
        refine ⟨h1, fun hin => iff_of_true (h2.mpr hin) fun _ _ h3 h4 => ?_⟩
        rcases hdone with h0 | h0
        · exact absurd h0 h3
        · exact absurd h0 h4
      · obtain ⟨h1, h2⟩ := sends_inv sent hb hs
        refine ⟨h1, fun hin => h2.trans ?_⟩
        rw [hn]
        exact ⟨fun h _ _ _ _ => h.1, fun h => ⟨h hr hst hr0 hl, hin⟩⟩

theorem step_inv (h : s.Inv) (e : SendEvent) : (step t s e).Inv := by
  unfold step
  split
  · exact h
  next hr => exact (handle_spec h e (by omega)).1

/-- The step lemma: an event stays inside the window exactly under its condition. -/
theorem step_inWindow (h : s.Inv) (hin : s.InWindow) (e : SendEvent) :
    (step t s e).InWindow ↔ RetryInWindow s e := by
  unfold step
  split
  next hr =>
    refine iff_of_true hin ?_
    cases e with
    | timeout sent => intro h0; omega
    | complete ok sent jiffies => trivial
    | ack rmppStatus segNum newwin sent jiffies => trivial
  next hr => exact (handle_spec h e (by omega)).2 hin

/-- The first segment is sent whatever the window is. -/
theorem start_spec (hb : w.Bounds) (h0 : w.segNum = 0) (newwin : Int) :
    (start t w newwin).Inv ∧ ((start t w newwin).InWindow ↔ 1 ≤ newwin) := by
  unfold start RmppSend.sendRmppMad
  simp only
  generalize hw : ({ w with
      timeout := t.msecsToJiffies w.buf.timeoutMs
      retriesLeft := w.buf.maxRetries
      status := true
      refcount := 1 + (if 0 < t.msecsToJiffies w.buf.timeoutMs then 1 else 0) +
        if t.msecsToJiffies w.buf.timeoutMs = 0 then 1 else 0
      newwin := newwin } : RmppSend δ) = w'
  have hb' : w'.Bounds := by
    subst hw
    exact ⟨hb.buf, hb.lastAck, hb.segNum, hb.curSeg, hb.lastAckSeg⟩
  have hseg : w'.segNum = 0 := by
    subst hw
    exact h0
  have hnew : w'.newwin = newwin := by
    subst hw
    rfl
  have hc := hb'.buf.count
  obtain ⟨hs, hn⟩ := RmppSend.sendNextSeg_sends (t := t) hb' (by omega)
  obtain ⟨h1, h2⟩ := sends_inv [] hb' hs
  refine ⟨h1, h2.trans ?_⟩
  have hnil : InWindow (⟨w', []⟩ : SendRun δ) := by simp [InWindow]
  exact ⟨fun h => by have := h.1; omega, fun h => ⟨by omega, hnil⟩⟩

/-- Every segment is handed over inside the window and the message exactly if the initial window
is not closed and no timer retries a segment behind a closed one. -/
theorem window_every_run_iff (t : Mad.Ticks) (mgmtClass dataLen : Nat) (payload : Nat → δ)
    (timeoutMs retries : Nat) (w : RmppSend δ)
    (hw : createSendMad mgmtClass dataLen payload timeoutMs retries = some w)
    (recvs : List RecvEntry) (tid classVersion method : Nat) (dlid : Option Nat)
    (events : List SendEvent) :
    (∀ s ∈ Run.states (step t) (start t w (initNewwin recvs tid mgmtClass classVersion method dlid))
        events, s.InWindow) ↔
      1 ≤ initNewwin recvs tid mgmtClass classVersion method dlid ∧
        Run.Steps (step t) RetryInWindow
          (start t w (initNewwin recvs tid mgmtClass classVersion method dlid)) events := by
  obtain ⟨hi, hiff⟩ := start_spec (t := t) (createSendMad_sound hw) (createSendMad_segNum hw)
    (initNewwin recvs tid mgmtClass classVersion method dlid)
  have hinv : ∀ (s : SendRun δ) e, s.Inv → True → (step t s e).Inv := fun _ e h _ => step_inv h e
  have hstep : ∀ (s : SendRun δ) e, s.Inv → True → s.InWindow →
      ((step t s e).InWindow ↔ RetryInWindow s e) := fun _ e h _ hg => step_inWindow h hg e
  have hrun := fun hin => Run.forall_states_iff hinv hstep hi hin (Run.steps_true _ events)
  constructor
  · intro h
    have h0 := h _ (Run.start_mem_states _ _)
    exact ⟨hiff.mp h0, (hrun h0).mp h⟩
  · rintro ⟨h0, hok⟩
    exact (hrun (hiff.mpr h0)).mpr hok

def ticks : Mad.Ticks := { hz := 1000, hz_pos := Mad.milliTicks_pos }

/-- A send of the subnet administration with three segments of 200 bytes. -/
def smallSend : Option (RmppSend Unit) := createSendMad 0x03 600 (fun _ => ()) 0 3

/-- The request that the response belongs to, completely received. -/
def request : RecvEntry :=
  { RecvEntry.create { tid := 1, srcQp := 1, slid := 7, mgmtClass := 0x03, classVersion := 2
                       method := 0x01 } with state := .complete }

/-- A peer's ACK with segment 0 and window 0 closes the window of the response, and the
first segment is sent all the same. -/
theorem closed_window_ignored :
    ∃ w, smallSend = some w ∧
      initNewwin (processUnmatchedAck [request] request.key 0 0 0) 1 0x03 2 0x81 (some 7) = 0 ∧
      ¬∀ s ∈ Run.states (step ticks) (start ticks w (initNewwin
          (processUnmatchedAck [request] request.key 0 0 0) 1 0x03 2 0x81 (some 7))) [],
        s.InWindow := by
  have hwin : initNewwin (processUnmatchedAck [request] request.key 0 0 0) 1 0x03 2 0x81
    (some 7) = 0 := by
    decide
  refine ⟨_, rfl, hwin, fun h => ?_⟩
  have h0 := h _ (Run.start_mem_states _ _)
  exact absurd (h0 _ List.mem_cons_self).1 (by decide)

/-- The window is extended to 3, and a retry of segment 2 follows. -/
def openedRun : List SendEvent :=
  [.complete true true 0, .ack 0 1 3 true 0, .complete true true 0, .timeout true]

def smallWr : RmppSend Unit := smallSend.get (by decide)

theorem window_every_run_opened :
    (Run.final (step ticks) (start ticks smallWr (initNewwin [] 1 0x03 2 0x01 none))
      openedRun).InWindow :=
  (window_every_run_iff ticks 0x03 600 (fun _ => ()) 0 3 smallWr
    (Option.some_get _).symm [] 1 2 0x01
    none openedRun).mpr
    ⟨by decide, trivial, trivial, trivial, fun _ _ _ _ => by decide +kernel, trivial⟩ _
    (Run.final_mem_states _ _)

end SendRun

end Rmpp
