-- SUMMARY: The timeout FIFO of the SA congestion control.
import Mathlib.Data.List.DropRight
import Mathlib.Data.List.Nodup
import Mathlib.Data.List.Perm.Basic
import OfaKernel.Lib.CInt
import OfaKernel.Mad.SendWr

/-!
# The timeout FIFO

SA MADs that wait are on two lists: `fifo_head`, in the order in which they are sent, and
`to_head`, in the order in which they expire. MADs are named by their address. The timeout work
may run at any time.
-/

open List

namespace Mad

/-- The kernel's time conversions. -/
structure Clock extends Ticks where
  jiffiesToMsecs : Nat → Nat

/-- `time_after(a, b)`: `(long)(b - a) < 0`. -/
def timeAfter (a b : Nat) : Bool := 2 ^ 63 ≤ (b + (2 ^ 64 - a % 2 ^ 64)) % 2 ^ 64

/-- `time_before(a, b)`. -/
def timeBefore (a b : Nat) : Bool := timeAfter b a

/-- `struct tf_entry` and the fields that the congestion control reads of the
`struct ib_mad_send_wr_private` that holds it. -/
structure SaMad where
  madAgentPriv : Nat
  timeoutMs : Nat
  retriesLeft : Int
  expTime : Nat
  canceled : Bool
deriving DecidableEq, Repr

/-- `struct to_fifo`, with the memory of the MADs. -/
structure ToFifo where
  mads : Nat → SaMad
  toHead : List Nat
  fifoHead : List Nat
  numItems : Nat
  stopEnqueue : Bool
  /-- A call of `tf_dequeue` has faulted. -/
  faulted : Bool

/-- `struct sa_cc_data`. -/
structure SaCc where
  outstanding : Nat
  queueSize : Nat
  timeSaMad : Nat
  maxOutstanding : Nat
  drops : Nat
  tf : ToFifo

/-- What the functions return, `.ok` for 0. -/
inductive Ret where
  | ok
  | ebusy
  | enxio
  | einval
deriving DecidableEq, Repr

/-- What `tf_dequeue` returns, an entry with the time it has left, or that it faults. -/
inductive Dequeued where
  | null
  | entry (mad timeLeftMs : Nat)
  | fault
deriving DecidableEq, Repr

/-- How an entry leaves the FIFO: `tf_dequeue` returns it, or it is reported with
`IB_WC_RESP_TIMEOUT_ERR` or `IB_WC_WR_FLUSH_ERR`. -/
inductive Leave where
  | dequeued
  | respTimeout
  | flush
deriving DecidableEq, Repr

namespace ToFifo

def tfCreate (mads : Nat → SaMad) : ToFifo :=
  { mads, toHead := [], fifoHead := [], numItems := 0, stopEnqueue := false, faulted := false }

variable (c : Clock) (tf : ToFifo)

def expTime (mad : Nat) : Nat := (tf.mads mad).expTime

def canceled (mad : Nat) : Bool := (tf.mads mad).canceled

def madAgentPriv (mad : Nat) : Nat := (tf.mads mad).madAgentPriv

def setMad (mad : Nat) (m : SaMad) : ToFifo :=
  { tf with mads := Function.update tf.mads mad m }

/-- `item->exp_time = jiffies + msecs_to_jiffies(timeout_ms)`. -/
def setExpTime (item timeoutMs jiffies : Nat) : ToFifo :=
  tf.setMad item
    { tf.mads item with expTime := (jiffies + c.msecsToJiffies timeoutMs) % 2 ^ 64 }

/-- The insertion of `item` into the timeout list `l`, which is scanned from its tail for an entry
that expires before. -/
def insertTo (item : Nat) (l : List Nat) : List Nat :=
  let keeps := fun tmp => !timeAfter (tf.expTime item) (tf.expTime tmp)
  l.rdropWhile keeps ++ item :: l.rtakeWhile keeps

/-- `tf_enqueue`, past the test of the queue size. -/
def enqueueItem (item : Nat) : ToFifo :=
  { tf with
    toHead := tf.insertTo item tf.toHead
    fifoHead := tf.fifoHead ++ [item]
    numItems := U32.inc tf.numItems }

/-- An entry is unlinked from both lists. -/
def unlink (item : Nat) : ToFifo :=
  { tf with
    toHead := tf.toHead.erase item
    fifoHead := tf.fifoHead.erase item
    numItems := U32.dec tf.numItems }

def timeLeftMs (item jiffies : Nat) : Nat :=
  let timeLeft := (tf.expTime item + (2 ^ 64 - jiffies % 2 ^ 64)) % 2 ^ 64
  c.jiffiesToMsecs (if 2 ^ 63 ≤ timeLeft then 0 else timeLeft)

/-- `tf_dequeue`. When every queued entry is canceled, `tmp` is the address computed from the list
head, and `beyond` says whether the word there that is taken for `canceled` is nonzero. If it is
zero `list_del` follows `tmp->to_list.next`, which is the word of the lock that is held. -/
def tfDequeue (jiffies : Nat) (beyond : Bool) : Dequeued × ToFifo :=
  if tf.fifoHead = [] then (.null, tf)
  else
    match tf.fifoHead.find? fun tmp => !tf.canceled tmp with
    | some tmp => (.entry tmp (tf.timeLeftMs c tmp jiffies), tf.unlink tmp)
    | none =>
      if beyond then (.null, tf) else (.fault, { tf with faulted := true })

/-- `tf_free_agent`: the entries that are reported, and the FIFO without them. -/
def tfFreeAgent (agent : Nat) : List Nat × ToFifo :=
  let freed := tf.fifoHead.filter fun tmp => tf.madAgentPriv tmp = agent
  (freed,
    { tf with
      toHead := tf.toHead.filter (· ∉ freed)
      fifoHead := tf.fifoHead.filter (· ∉ freed)
      numItems := U32.dec^[freed.length] tf.numItems })

/-- `tf_modify_item`. A timeout of 0 cancels the item and moves it to the head of the timeout list
and to the tail of the FIFO. -/
def tfModifyItem (agent sendBuf timeoutMs jiffies : Nat) : Ret × ToFifo :=
  match tf.fifoHead.find? fun item => tf.madAgentPriv item = agent ∧ item = sendBuf with
  | none => (.enxio, tf)
  | some item =>
    let tf := tf.setExpTime c item timeoutMs jiffies
    if timeoutMs ≠ 0 then (.ok, { tf with toHead := tf.insertTo item (tf.toHead.erase item) })
    else
      let tf := tf.setMad item { tf.mads item with canceled := true }
      (.ok,
        { tf with
          toHead := item :: tf.toHead.erase item
          fifoHead := tf.fifoHead.erase item ++ [item] })

/-- The entries that one pass of `timeout_handler_task` takes: the head of the timeout list up to
the first entry that is not due. -/
def due (jiffies : Nat) : List Nat :=
  tf.toHead.takeWhile fun tmp => !timeBefore jiffies (tf.expTime tmp)

/-- How the timeout work reports an entry. -/
def report (tmp : Nat) : Leave := if tf.canceled tmp then .flush else .respTimeout

/-- One pass of the loop of `timeout_handler_task`: the entries it reports, and the FIFO without
them. -/
def timeoutPass (jiffies : Nat) : List (Nat × Leave) × ToFifo :=
  let expLst := tf.due jiffies
  (expLst.map fun tmp => (tmp, tf.report tmp),
    { tf with
      mads := fun m => { tf.mads m with canceled := tf.canceled m && decide (m ∉ expLst) }
      toHead := tf.toHead.dropWhile fun tmp => !timeBefore jiffies (tf.expTime tmp)
      fifoHead := tf.fifoHead.filter (· ∉ expLst)
      numItems := U32.dec^[expLst.length] tf.numItems })

/-- `timeout_handler_task`: one pass for each reading of `jiffies`, until one finds nothing. -/
def timeoutHandlerTask : List Nat → ToFifo → List (Nat × Leave) × ToFifo
  | [], tf => ([], tf)
  | jiffies :: later, tf =>
    let pass := tf.timeoutPass jiffies
    if pass.1 = [] then pass
    else
      let rest := timeoutHandlerTask later pass.2
      (pass.1 ++ rest.1, rest.2)

def tfStopEnqueue : ToFifo := { tf with stopEnqueue := true }

/-- The loop of `sa_cc_destroy` with `n` calls of `tf_dequeue` at most: the entries it reports. -/
def dequeueAll (jiffies : Nat) (beyond : Bool) : Nat → ToFifo → List Nat × ToFifo
  | 0, tf => ([], tf)
  | n + 1, tf =>
    match tf.tfDequeue c jiffies beyond with
    | (.entry tfe _, tf) =>
      let rest := dequeueAll jiffies beyond n tf
      (tfe :: rest.1, rest.2)
    | (.null, tf) => ([], tf)
    | (.fault, tf) => ([], tf)

/-- `sa_cc_destroy`, with the timeout work that is already queued when `tf_free` waits for it: the
entries that are reported. -/
def saCcDestroy (jiffies : Nat) (beyond : Bool) (queuedWork : List Nat) :
    List (Nat × Leave) × ToFifo :=
  let all := tf.tfStopEnqueue.dequeueAll c jiffies beyond (tf.fifoHead.length + 1)
  let work := timeoutHandlerTask (if all.2.faulted then [] else queuedWork) all.2
  (all.1.map (·, .flush) ++ work.1, work.2)

end ToFifo

def SaCc.tfEnqueue (c : Clock) (cc : SaCc) (item timeoutMs jiffies : Nat) : Ret × SaCc :=
  let tf := cc.tf.setExpTime c item timeoutMs jiffies
  if cc.queueSize ≤ tf.numItems ∨ tf.stopEnqueue then
    (.ebusy, { cc with tf, drops := (cc.drops + 1) % 2 ^ 64 })
  else (.ok, { cc with tf := tf.enqueueItem item })

def saCcMaxQueueSize : Nat := 2 ^ 20

def SaCc.queueSizeStore (cc : SaCc) (var : Nat) : Ret × SaCc :=
  if var < 16 ∨ saCcMaxQueueSize < var then (.einval, cc)
  else (.ok, { cc with queueSize := var })

def SaCc.timeSaMadStore (cc : SaCc) (var : Nat) : Ret × SaCc :=
  if var < 1 ∨ 10000 < var then (.einval, cc)
  else (.ok, { cc with timeSaMad := var })

/-- `sa_cc_init`, when its allocations succeed. -/
def saCcInit (mads : Nat → SaMad) : SaCc :=
  { outstanding := 0, queueSize := 2 ^ 16, timeSaMad := 20, maxOutstanding := 16, drops := 0
    tf := .tfCreate mads }

/-! ## Both lists hold the same entries -/

namespace ToFifo

variable {c : Clock} {tf tf' tf'' : ToFifo}

@[simp] theorem setMad_mads_self (mad : Nat) (m : SaMad) : (tf.setMad mad m).mads mad = m :=
  Function.update_self ..

theorem setMad_mads_of_ne (tf : ToFifo) {mad mad' : Nat} (h : mad' ≠ mad) (m : SaMad) :
    (tf.setMad mad m).mads mad' = tf.mads mad' :=
  Function.update_of_ne h ..

@[simp] theorem setExpTime_canceled (tf : ToFifo) (item timeoutMs jiffies mad : Nat) :
    (tf.setExpTime c item timeoutMs jiffies).canceled mad = tf.canceled mad := by
  unfold canceled setExpTime
  by_cases h : mad = item
  · subst h
    simp
  · rw [setMad_mads_of_ne _ h]

theorem insertTo_perm (item : Nat) (l : List Nat) : (tf.insertTo item l).Perm (item :: l) := by
  have happend : ∀ p : Nat → Bool, l.rdropWhile p ++ l.rtakeWhile p = l := by
    intro p
    rw [List.rdropWhile, List.rtakeWhile, ← reverse_append, takeWhile_append_dropWhile,
      reverse_reverse]
  calc tf.insertTo item l
      _ = _ := rfl
      List.Perm _ (item :: (_ ++ _)) := perm_middle
      _ = item :: l := by rw [happend]

/-- What every operation keeps: both lists have the same entries, each once, as many as
`num_items` says. -/
structure Wf (tf : ToFifo) : Prop where
  perm : tf.toHead.Perm tf.fifoHead
  nodup : tf.fifoHead.Nodup
  count : tf.numItems = tf.fifoHead.length
  bound : tf.fifoHead.length ≤ saCcMaxQueueSize

theorem wf_tfCreate (mads : Nat → SaMad) : (tfCreate mads).Wf where
  perm := .nil
  nodup := .nil
  count := rfl
  bound := Nat.zero_le _

theorem Wf.of_lists (h : tf.Wf) (hto : tf'.toHead.Perm tf.toHead)
    (hfifo : tf'.fifoHead.Perm tf.fifoHead) (hnum : tf'.numItems = tf.numItems) : tf'.Wf where
  perm := (hto.trans h.perm).trans hfifo.symm
  nodup := hfifo.nodup_iff.mpr h.nodup
  count := by rw [hnum, h.count, hfifo.length_eq]
  bound := by rw [hfifo.length_eq]; exact h.bound

theorem Wf.enqueueItem (h : tf.Wf) {item : Nat} (hitem : item ∉ tf.fifoHead)
    (hroom : tf.numItems < saCcMaxQueueSize) : (tf.enqueueItem item).Wf := by
  have hlen : (tf.fifoHead ++ [item]).length = tf.fifoHead.length + 1 := by simp
  rw [h.count] at hroom
  constructor
  · have hto := tf.insertTo_perm item tf.toHead
    exact hto.trans ((h.perm.cons item).trans (perm_append_singleton item _).symm)
  · exact (perm_append_singleton item _).nodup_iff.mpr (nodup_cons.mpr ⟨hitem, h.nodup⟩)
  · show U32.inc tf.numItems = (tf.fifoHead ++ [item]).length
    rw [hlen, h.count]
    apply U32.inc_of_lt
    have : saCcMaxQueueSize < 2 ^ 32 := by decide
    omega
  · show (tf.fifoHead ++ [item]).length ≤ saCcMaxQueueSize
    omega

theorem dec_iterate {n k : Nat} (hk : k ≤ n) (hn : n < 2 ^ 32) : U32.dec^[k] n = n - k := by
  induction k with
  | zero => rfl
  | succ k ih =>
    have hprev : U32.dec^[k] n = n - k := ih (by omega)
    rw [Function.iterate_succ_apply', hprev, U32.dec_of_pos (by omega) (by omega)]
    omega

/-! ## Entries leave -/

/-- The entries of `gone` leave the FIFO, and nothing else changes for the others. -/
structure Removes (gone : List Nat) (tf tf' : ToFifo) : Prop where
  nodup : gone.Nodup
  queued : ∀ m ∈ gone, m ∈ tf.fifoHead
  fifo : tf'.fifoHead = tf.fifoHead.filter (· ∉ gone)
  timeouts : tf'.toHead = tf.toHead.filter (· ∉ gone)
  num : tf'.numItems = U32.dec^[gone.length] tf.numItems
  kept : ∀ m ∈ tf'.fifoHead, tf'.mads m = tf.mads m

theorem removes_nil : Removes [] tf tf where
  nodup := .nil
  queued := by simp
  fifo := by simp
  timeouts := by simp
  num := rfl
  kept := fun _ _ => rfl

variable {gone gone' : List Nat}

theorem Removes.mem_iff (h : Removes gone tf tf') {m : Nat} :
    m ∈ tf'.fifoHead ↔ m ∈ tf.fifoHead ∧ m ∉ gone := by
  simp [h.fifo]

theorem Removes.length (h : Removes gone tf tf') (hwf : tf.Wf) :
    tf'.fifoHead.length + gone.length = tf.fifoHead.length := by
  have hsplit : (tf.fifoHead.filter (· ∉ gone)).length + (tf.fifoHead.filter (· ∈ gone)).length =
      tf.fifoHead.length := by
    rw [← countP_eq_length_filter, ← countP_eq_length_filter, Nat.add_comm]
    simpa using (length_eq_countP_add_countP (l := tf.fifoHead) (· ∈ gone)).symm
  have hgone : (tf.fifoHead.filter (· ∈ gone)).Perm gone := by
    apply (perm_ext_iff_of_nodup (hwf.nodup.filter _) h.nodup).mpr
    intro m
    simpa using h.queued m
  rw [h.fifo, ← hgone.length_eq, hsplit]

theorem Removes.wf (h : Removes gone tf tf') (hwf : tf.Wf) : tf'.Wf := by
  have hlen := h.length hwf
  have hbound := hwf.bound
  have hmax : saCcMaxQueueSize < 2 ^ 32 := by decide
  constructor
  · rw [h.fifo, h.timeouts]
    exact hwf.perm.filter _
  · rw [h.fifo]
    exact hwf.nodup.filter _
  · rw [h.num, hwf.count, dec_iterate (by omega) (by omega)]
    omega
  · omega

theorem Removes.trans (h : Removes gone tf tf') (h' : Removes gone' tf' tf'') :
    Removes (gone ++ gone') tf tf'' where
  nodup := h.nodup.append h'.nodup fun m hm hm' => (h.mem_iff.mp (h'.queued m hm')).2 hm
  queued := by
    intro m hm
    rcases mem_append.mp hm with hm | hm
    · exact h.queued m hm
    · exact (h.mem_iff.mp (h'.queued m hm)).1
  fifo := by
    rw [h'.fifo, h.fifo, filter_filter]
    simp [Bool.and_comm]
  timeouts := by
    rw [h'.timeouts, h.timeouts, filter_filter]
    simp [Bool.and_comm]
  num := by
    rw [h'.num, h.num, length_append, Nat.add_comm, Function.iterate_add_apply]
  kept := fun m hm => (h'.kept m hm).trans (h.kept m (h'.mem_iff.mp hm).1)

theorem removes_unlink (h : tf.Wf) {item : Nat} (hitem : item ∈ tf.fifoHead) :
    Removes [item] tf (tf.unlink item) where
  nodup := nodup_singleton item
  queued := by simpa using hitem
  fifo := by
    show tf.fifoHead.erase item = _
    rw [h.nodup.erase_eq_filter]
    congr 1
    funext m
    by_cases hm : m = item <;> simp [hm]
  timeouts := by
    show tf.toHead.erase item = _
    rw [(h.perm.nodup_iff.mpr h.nodup).erase_eq_filter]
    congr 1
    funext m
    by_cases hm : m = item <;> simp [hm]
  num := by
    show U32.dec tf.numItems = _
    rw [length_singleton, Function.iterate_one]
  kept := fun _ _ => rfl

theorem tfDequeue_cases (tf : ToFifo) (jiffies : Nat) (beyond : Bool) :
    (∃ tmp, tf.fifoHead.find? (fun tmp => !tf.canceled tmp) = some tmp ∧
      tf.tfDequeue c jiffies beyond =
        (.entry tmp (tf.timeLeftMs c tmp jiffies), tf.unlink tmp)) ∨
    ((∀ tmp ∈ tf.fifoHead, tf.canceled tmp) ∧ (tf.fifoHead = [] ∨ beyond) ∧
      tf.tfDequeue c jiffies beyond = (.null, tf)) ∨
    ((∀ tmp ∈ tf.fifoHead, tf.canceled tmp) ∧ tf.fifoHead ≠ [] ∧
      ∃ tf' : ToFifo, tf'.mads = tf.mads ∧ tf'.fifoHead = tf.fifoHead ∧ tf'.faulted ∧
        tf.tfDequeue c jiffies beyond = (.fault, tf')) := by
  unfold tfDequeue
  by_cases hempty : tf.fifoHead = []
  · right; left
    simp [hempty]
  rw [if_neg hempty]
  cases hfind : tf.fifoHead.find? fun tmp => !tf.canceled tmp with
  | some tmp =>
    left
    exact ⟨tmp, rfl, rfl⟩
  | none =>
    have hall : ∀ tmp ∈ tf.fifoHead, tf.canceled tmp := by simpa using hfind
    right
    cases beyond with
    | true => exact .inl ⟨hall, .inr rfl, rfl⟩
    | false =>
      exact .inr ⟨hall, hempty, { tf with faulted := true }, rfl, rfl, rfl, rfl⟩

theorem tfModifyItem_of_not {agent sendBuf : Nat}
    (h : ¬(sendBuf ∈ tf.fifoHead ∧ tf.madAgentPriv sendBuf = agent)) (timeoutMs jiffies : Nat) :
    tf.tfModifyItem c agent sendBuf timeoutMs jiffies = (.enxio, tf) := by
  have hnone : tf.fifoHead.find?
      (fun item => decide (tf.madAgentPriv item = agent ∧ item = sendBuf)) = none := by
    apply List.find?_eq_none.mpr
    intro item hitem hfound
    have hfound := of_decide_eq_true hfound
    exact h ⟨hfound.2 ▸ hitem, hfound.2 ▸ hfound.1⟩
  rw [tfModifyItem, hnone]

theorem tfModifyItem_of_queued {agent sendBuf : Nat} (hq : sendBuf ∈ tf.fifoHead)
    (hagent : tf.madAgentPriv sendBuf = agent) (timeoutMs jiffies : Nat) :
    (tf.tfModifyItem c agent sendBuf timeoutMs jiffies).1 = .ok ∧
      (tf.tfModifyItem c agent sendBuf timeoutMs jiffies).2.fifoHead.Perm tf.fifoHead ∧
      ∀ m, (tf.tfModifyItem c agent sendBuf timeoutMs jiffies).2.canceled m =
        (tf.canceled m || decide (m = sendBuf ∧ timeoutMs = 0)) := by
  have hsome : tf.fifoHead.find?
      (fun item => decide (tf.madAgentPriv item = agent ∧ item = sendBuf)) = some sendBuf := by
    cases hfind : tf.fifoHead.find?
      fun item => decide (tf.madAgentPriv item = agent ∧ item = sendBuf) with
    | none => simpa [hagent] using List.find?_eq_none.mp hfind sendBuf hq
    | some item =>
      have hfound := List.find?_some hfind
      simp only [decide_eq_true_eq] at hfound
      rw [hfound.2]
  have htimed := fun m => tf.setExpTime_canceled (c := c) sendBuf timeoutMs jiffies m
  simp only [tfModifyItem, hsome]
  by_cases ht : timeoutMs = 0
  · rw [if_neg (not_not.mpr ht)]
    refine ⟨rfl, ?_, fun m => ?_⟩
    · exact (perm_append_singleton sendBuf _).trans (perm_cons_erase hq).symm
    · by_cases hm : m = sendBuf
      · subst hm
        simp [canceled, ht]
      · have hkept := congrArg SaMad.canceled (setMad_mads_of_ne
          (tf.setExpTime c sendBuf timeoutMs jiffies) hm
          { (tf.setExpTime c sendBuf timeoutMs jiffies).mads sendBuf with canceled := true })
        have hright : (tf.canceled m || decide (m = sendBuf ∧ timeoutMs = 0)) = tf.canceled m := by
          simp [hm]
        rw [hright]
        exact hkept.trans (htimed m)
  · rw [if_pos ht]
    refine ⟨rfl, .refl _, fun m => ?_⟩
    have hright : (tf.canceled m || decide (m = sendBuf ∧ timeoutMs = 0)) = tf.canceled m := by
      simp [ht]
    rw [hright]
    exact htimed m

theorem tfFreeAgent_removes (h : tf.Wf) (agent : Nat) :
    Removes (tf.tfFreeAgent agent).1 tf (tf.tfFreeAgent agent).2 where
  nodup := h.nodup.filter _
  queued := fun _ hm => (mem_filter.mp hm).1
  fifo := rfl
  timeouts := rfl
  num := rfl
  kept := fun _ _ => rfl

theorem timeoutPass_removes (h : tf.Wf) (jiffies : Nat) :
    Removes (tf.due jiffies) tf (tf.timeoutPass jiffies).2 := by
  have hto : tf.toHead.Nodup := h.perm.nodup_iff.mpr h.nodup
  set due := fun tmp => !timeBefore jiffies (tf.expTime tmp) with hdue
  have hsplit : tf.toHead.takeWhile due ++ tf.toHead.dropWhile due = tf.toHead :=
    takeWhile_append_dropWhile
  have hdisj : List.Disjoint (tf.toHead.takeWhile due) (tf.toHead.dropWhile due) := by
    rw [← hsplit] at hto
    exact disjoint_of_nodup_append hto
  constructor
  · exact hto.sublist (takeWhile_sublist _)
  · exact fun m hm => h.perm.subset ((takeWhile_sublist _).subset hm)
  · rfl
  · -- what is cut off is exactly the prefix
    show tf.toHead.dropWhile due = tf.toHead.filter (· ∉ tf.toHead.takeWhile due)
    conv => rhs; arg 2; rw [← hsplit]
    rw [filter_append]
    have hcut : (tf.toHead.takeWhile due).filter (· ∉ tf.toHead.takeWhile due) = [] := by simp
    have hrest : (tf.toHead.dropWhile due).filter (· ∉ tf.toHead.takeWhile due) =
        tf.toHead.dropWhile due := by
      apply filter_eq_self.mpr
      intro m hm
      simpa using fun hm' => hdisj hm' hm
    rw [hcut, hrest, nil_append]
  · rfl
  · intro m hm
    have hnot : m ∉ tf.due jiffies := by simpa using (mem_filter.mp hm).2
    have hkeep : (tf.canceled m && decide (m ∉ tf.due jiffies)) = (tf.mads m).canceled := by
      simp [hnot, canceled]
    show ({ tf.mads m with canceled := _ } : SaMad) = tf.mads m
    rw [hkeep]

theorem timeoutPass_reports (jiffies : Nat) :
    (tf.timeoutPass jiffies).1.map Prod.fst = tf.due jiffies := by
  simp [timeoutPass, Function.comp_def]

theorem timeoutHandlerTask_removes (readings : List Nat) (h : tf.Wf) :
    Removes ((timeoutHandlerTask readings tf).1.map Prod.fst) tf
      (timeoutHandlerTask readings tf).2 := by
  induction readings generalizing tf with
  | nil => exact removes_nil
  | cons jiffies later ih =>
    have hpass := timeoutPass_removes h jiffies
    rw [← timeoutPass_reports] at hpass
    unfold timeoutHandlerTask
    by_cases hnone : (tf.timeoutPass jiffies).1 = []
    · simpa only [if_pos hnone] using hpass
    · simp only [if_neg hnone, map_append]
      exact hpass.trans (ih (hpass.wf h))

/-- While no queued entry is canceled, `sa_cc_destroy` dequeues all of them. -/
theorem dequeueAll_removes (h : tf.Wf) (hlive : ∀ m ∈ tf.fifoHead, tf.canceled m = false)
    (jiffies : Nat) (beyond : Bool) {n : Nat} (hn : tf.fifoHead.length < n) :
    Removes (tf.dequeueAll c jiffies beyond n).1 tf (tf.dequeueAll c jiffies beyond n).2 ∧
      (tf.dequeueAll c jiffies beyond n).2.fifoHead = [] := by
  induction n generalizing tf with
  | zero => omega
  | succ n ih =>
    unfold dequeueAll
    rcases tf.tfDequeue_cases (c := c) jiffies beyond with
      ⟨tmp, hfind, heq⟩ | ⟨hall, -, heq⟩ | ⟨hall, hne, -, -, -, -, heq⟩
    · have hmem : tmp ∈ tf.fifoHead := mem_of_find?_eq_some hfind
      have hfirst := removes_unlink h hmem
      have hlen := hfirst.length h
      have hlive' : ∀ m ∈ (tf.unlink tmp).fifoHead, (tf.unlink tmp).canceled m = false :=
        fun m hm => hlive m (hfirst.mem_iff.mp hm).1
      simp only [length_singleton] at hlen
      obtain ⟨hrest, hnil⟩ := ih (hfirst.wf h) hlive' (by omega)
      simp only [heq]
      exact ⟨hfirst.trans hrest, hnil⟩
    · have hnil : tf.fifoHead = [] := by
        apply eq_nil_iff_forall_not_mem.mpr
        intro m hm
        simpa [hlive m hm] using hall m hm
      simp only [heq]
      exact ⟨removes_nil, hnil⟩
    · obtain ⟨m, hm⟩ := exists_mem_of_ne_nil _ hne
      simpa [hlive m hm] using hall m hm

theorem saCcDestroy_removes (h : tf.Wf) (hlive : ∀ m ∈ tf.fifoHead, tf.canceled m = false)
    (jiffies : Nat) (beyond : Bool) (queuedWork : List Nat) :
    Removes ((tf.saCcDestroy c jiffies beyond queuedWork).1.map Prod.fst) tf
        (tf.saCcDestroy c jiffies beyond queuedWork).2 ∧
      (tf.saCcDestroy c jiffies beyond queuedWork).2.fifoHead = [] := by
  have hstop : tf.tfStopEnqueue.Wf := h.of_lists .rfl .rfl rfl
  obtain ⟨hall, hnil⟩ := dequeueAll_removes (c := c) hstop hlive jiffies beyond
    (Nat.lt_succ_self tf.fifoHead.length)
  have hwork := timeoutHandlerTask_removes
    (if (tf.tfStopEnqueue.dequeueAll c jiffies beyond (tf.fifoHead.length + 1)).2.faulted then []
      else queuedWork) (hall.wf hstop)
  have hboth := hall.trans hwork
  simp only [saCcDestroy, map_append, map_map, Function.comp_def, map_id']
  constructor
  · exact ⟨hboth.nodup, hboth.queued, hboth.fifo, hboth.timeouts, hboth.num, hboth.kept⟩
  · rw [hwork.fifo, hnil]
    rfl

end ToFifo

theorem SaCc.tfEnqueue_full {c : Clock} {cc : SaCc}
    (h : cc.queueSize ≤ cc.tf.numItems ∨ cc.tf.stopEnqueue) (item timeoutMs jiffies : Nat) :
    cc.tfEnqueue c item timeoutMs jiffies =
      (.ebusy,
        { cc with
          tf := cc.tf.setExpTime c item timeoutMs jiffies
          drops := (cc.drops + 1) % 2 ^ 64 }) :=
  if_pos h

theorem SaCc.tfEnqueue_room {c : Clock} {cc : SaCc}
    (h : ¬(cc.queueSize ≤ cc.tf.numItems ∨ cc.tf.stopEnqueue)) (item timeoutMs jiffies : Nat) :
    cc.tfEnqueue c item timeoutMs jiffies =
      (.ok, { cc with tf := (cc.tf.setExpTime c item timeoutMs jiffies).enqueueItem item }) :=
  if_neg h

end Mad
