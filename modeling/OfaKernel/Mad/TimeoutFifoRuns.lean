-- SUMMARY: Every sequence of operations on a timeout FIFO.
import OfaKernel.Mad.TimeoutFifo

/-!
# Runs of the timeout FIFO

A run is a sequence of calls on one FIFO. It records what was enqueued and how it left, and
when each queued MAD was enqueued.
-/

open List

namespace Mad

inductive FifoEvent where
  | enqueued (mad : Nat)
  | left (mad : Nat) (how : Leave)
deriving DecidableEq, Repr

def FifoEvent.isLeave (m : Nat) : FifoEvent → Bool
  | .enqueued _ => false
  | .left m' _ => m' = m

/-- `log` has the latest event first; `born` is the number of the enqueue that put a MAD on the
FIFO last, and `clock` the number of the next one. -/
structure FifoRun where
  cc : SaCc
  log : List FifoEvent := []
  born : Nat → Nat := fun _ => 0
  clock : Nat := 0
  destroyed : Bool := false

inductive FifoOp where
  /-- `ib_create_send_mad`: the memory of a MAD is allocated and zeroed. -/
  | create (mad agent timeoutMs : Nat) (retriesLeft : Int)
  | queueSize (var : Nat)
  | enqueue (mad timeoutMs jiffies : Nat)
  | dequeue (jiffies : Nat) (beyond : Bool)
  | modify (agent sendBuf timeoutMs jiffies : Nat)
  | freeAgent (agent : Nat)
  /-- A pass of `timeout_handler_task`. -/
  | expire (jiffies : Nat)
  | destroy (jiffies : Nat) (beyond : Bool) (queuedWork : List Nat)
deriving DecidableEq, Repr

namespace FifoRun

/-- The run before its first operation. -/
def init (mads : Nat → SaMad) : FifoRun := { cc := saCcInit mads }

variable (c : Clock) (r : FifoRun)

abbrev tf : ToFifo := r.cc.tf

def setTf (tf : ToFifo) : FifoRun := { r with cc := { r.cc with tf } }

/-- The entries of `reports` have left, and `tf` is the FIFO without them. -/
def leave (reports : List (Nat × Leave)) (tf : ToFifo) : FifoRun :=
  { r.setTf tf with log := reports.map (fun l => .left l.1 l.2) ++ r.log }

def create (mad agent timeoutMs : Nat) (retriesLeft : Int) : FifoRun :=
  r.setTf (r.tf.setMad mad ⟨agent, timeoutMs, retriesLeft, 0, false⟩)

def enqueue (mad timeoutMs jiffies : Nat) : FifoRun :=
  match r.cc.tfEnqueue c mad timeoutMs jiffies with
  | (.ok, cc) =>
    { r with
      cc
      log := .enqueued mad :: r.log
      born := Function.update r.born mad r.clock
      clock := r.clock + 1 }
  | (_, cc) => { r with cc }

def dequeue (jiffies : Nat) (beyond : Bool) : FifoRun :=
  match r.tf.tfDequeue c jiffies beyond with
  | (.entry mad _, tf) => r.leave [(mad, .dequeued)] tf
  | (_, tf) => r.setTf tf

def freeAgent (agent : Nat) : FifoRun :=
  r.leave ((r.tf.tfFreeAgent agent).1.map (·, .flush)) (r.tf.tfFreeAgent agent).2

def expire (jiffies : Nat) : FifoRun :=
  r.leave (r.tf.timeoutPass jiffies).1 (r.tf.timeoutPass jiffies).2

def destroy (jiffies : Nat) (beyond : Bool) (queuedWork : List Nat) : FifoRun :=
  let d := r.tf.saCcDestroy c jiffies beyond queuedWork
  { r.leave d.1 d.2 with destroyed := !d.2.faulted }

def act : FifoOp → FifoRun
  | .create mad agent timeoutMs retriesLeft => r.create mad agent timeoutMs retriesLeft
  | .queueSize var => { r with cc := (r.cc.queueSizeStore var).2 }
  | .enqueue mad timeoutMs jiffies => r.enqueue c mad timeoutMs jiffies
  | .dequeue jiffies beyond => r.dequeue c jiffies beyond
  | .modify agent sendBuf timeoutMs jiffies =>
    r.setTf (r.tf.tfModifyItem c agent sendBuf timeoutMs jiffies).2
  | .freeAgent agent => r.freeAgent agent
  | .expire jiffies => r.expire jiffies
  | .destroy jiffies beyond queuedWork => r.destroy c jiffies beyond queuedWork

/-- Nothing is done after a fault. -/
def step (op : FifoOp) : FifoRun := if r.tf.faulted then r else r.act c op

/-- What callers keep to: a queued MAD is neither allocated nor posted again, and nothing is called
after `sa_cc_destroy`. -/
def Valid : FifoOp → Prop
  | .create mad _ _ _ | .enqueue mad _ _ => r.destroyed = false ∧ mad ∉ r.tf.fifoHead
  | _ => r.destroyed = false

instance : ∀ op, Decidable (r.Valid op)
  | .create _ _ _ _ | .enqueue _ _ _ => inferInstanceAs (Decidable (_ ∧ _))
  | .queueSize _ | .dequeue _ _ | .modify _ _ _ _ | .freeAgent _ | .expire _ | .destroy _ _ _ =>
    inferInstanceAs (Decidable (r.destroyed = false))

/-- Every call of `tf_dequeue` finds the FIFO empty or an entry that is not canceled. -/
def Finds : FifoOp → Prop
  | .dequeue _ _ => r.tf.fifoHead = [] ∨ ∃ m ∈ r.tf.fifoHead, r.tf.canceled m = false
  | .destroy _ _ _ => ∀ m ∈ r.tf.fifoHead, r.tf.canceled m = false
  | _ => True

instance : ∀ op, Decidable (r.Finds op)
  | .dequeue _ _ => inferInstanceAs (Decidable (_ ∨ _))
  | .destroy _ _ _ => inferInstanceAs (Decidable (∀ m ∈ _, _))
  | .create _ _ _ _ | .queueSize _ | .enqueue _ _ _ | .modify _ _ _ _ | .freeAgent _ | .expire _ =>
    .isTrue trivial

/-! ## Exactly once -/

def enqueues (m : Nat) : Nat := r.log.count (.enqueued m)

def leaves (m : Nat) : Nat := r.log.countP (FifoEvent.isLeave m)

def flushes (m : Nat) : Nat := r.log.count (.left m .flush)

/-- Both lists have the same entries, and what was enqueued has left exactly once or is queued;
after `sa_cc_destroy` all of it has left. -/
structure Sound : Prop where
  fifo_length : r.tf.numItems = r.tf.fifoHead.length
  to_length : r.tf.numItems = r.tf.toHead.length
  same : ∀ m, m ∈ r.tf.fifoHead ↔ m ∈ r.tf.toHead
  once : ∀ m, r.enqueues m = r.leaves m + if m ∈ r.tf.fifoHead then 1 else 0
  gone : r.destroyed → ∀ m, r.enqueues m = r.leaves m

/-- `m` is the queued entry that was enqueued first of those that are not canceled. -/
def Oldest (m : Nat) : Prop :=
  m ∈ r.tf.fifoHead ∧ r.tf.canceled m = false ∧
    ∀ m' ∈ r.tf.fifoHead, r.tf.canceled m' = false → r.born m ≤ r.born m'

/-- `tf_dequeue` returns the oldest entry that is not canceled, and `NULL` if there is none. -/
def Answers : FifoOp → Prop
  | .dequeue jiffies beyond =>
    match (r.tf.tfDequeue c jiffies beyond).1 with
    | .null => ∀ m ∈ r.tf.fifoHead, r.tf.canceled m
    | .entry m _ => r.Oldest m
    | .fault => False
  | _ => True

/-- The invariant: the entries that are not canceled are queued in the order of their enqueues. -/
structure Good : Prop where
  wf : r.tf.Wf
  size : r.cc.queueSize ≤ saCcMaxQueueSize
  inOrder : (r.tf.fifoHead.filter fun m => !r.tf.canceled m).Pairwise (r.born · < r.born ·)
  young : ∀ m ∈ r.tf.fifoHead, r.born m < r.clock
  once : ∀ m, r.enqueues m = r.leaves m + if m ∈ r.tf.fifoHead then 1 else 0
  gone : r.destroyed → r.tf.fifoHead = []

theorem good_init (mads : Nat → SaMad) : (init mads).Good where
  wf := ToFifo.wf_tfCreate mads
  size := by show 2 ^ 16 ≤ saCcMaxQueueSize; decide
  inOrder := .nil
  young := by simp [init, saCcInit, ToFifo.tfCreate]
  once := fun _ => rfl
  gone := fun _ => rfl

variable {c r}

theorem Good.sound (h : r.Good) : r.Sound where
  fifo_length := h.wf.count
  to_length := by rw [h.wf.count, h.wf.perm.length_eq]
  same := fun _ => h.wf.perm.mem_iff.symm
  once := h.once
  gone := by
    intro hd m
    have honce := h.once m
    rw [h.gone hd] at honce
    simpa using honce

theorem leaves_leave (reports : List (Nat × Leave)) (tf : ToFifo) (m : Nat) :
    (r.leave reports tf).leaves m = (reports.map Prod.fst).count m + r.leaves m := by
  have hmap : (reports.map fun l => FifoEvent.left l.1 l.2).countP (FifoEvent.isLeave m) =
      (reports.map Prod.fst).count m := by
    rw [List.count, countP_map, countP_map]
    congr 1
  show List.countP _ (_ ++ r.log) = _
  rw [countP_append, hmap]
  rfl

theorem enqueues_leave (reports : List (Nat × Leave)) (tf : ToFifo) (m : Nat) :
    (r.leave reports tf).enqueues m = r.enqueues m := by
  have hnone : (reports.map fun l => FifoEvent.left l.1 l.2).count (.enqueued m) = 0 := by
    rw [count_eq_zero]
    simp
  show List.count _ (_ ++ r.log) = _
  rw [count_append, hnone, Nat.zero_add]
  rfl

/-- Entries leave, each with a report. -/
theorem Good.leave (h : r.Good) {reports : List (Nat × Leave)} {tf : ToFifo}
    (hr : ToFifo.Removes (reports.map Prod.fst) r.tf tf) : (r.leave reports tf).Good where
  wf := hr.wf h.wf
  size := h.size
  inOrder := by
    have hsub : (tf.fifoHead.filter fun m => !tf.canceled m).Sublist
        (r.tf.fifoHead.filter fun m => !r.tf.canceled m) := by
      have hflags : ∀ m ∈ tf.fifoHead, (!tf.canceled m) = !r.tf.canceled m := fun m hm => by
        rw [ToFifo.canceled, ToFifo.canceled, hr.kept m hm]
      rw [filter_congr hflags, hr.fifo]
      exact List.Sublist.filter _ filter_sublist
    exact h.inOrder.sublist hsub
  young := fun m hm => h.young m (hr.mem_iff.mp hm).1
  once := by
    intro m
    rw [enqueues_leave, leaves_leave, h.once m]
    show _ = _ + if m ∈ tf.fifoHead then 1 else 0
    by_cases hm : m ∈ reports.map Prod.fst
    · have hq := hr.queued m hm
      have hq' : m ∉ tf.fifoHead := fun hm' => (hr.mem_iff.mp hm').2 hm
      rw [if_pos hq, if_neg hq', count_eq_one_of_mem hr.nodup hm]
      omega
    · have hsame : m ∈ tf.fifoHead ↔ m ∈ r.tf.fifoHead :=
        hr.mem_iff.trans (and_iff_left hm)
      rw [count_eq_zero.mpr hm, Nat.zero_add]
      simp only [hsame]
  gone := by
    intro hd
    show tf.fifoHead = []
    rw [hr.fifo, h.gone hd]
    rfl

/-- The FIFO is reordered, or an entry is canceled, and nothing leaves. -/
theorem Good.setTf (h : r.Good) {tf : ToFifo} (hwf : tf.Wf)
    (hmem : ∀ m, m ∈ tf.fifoHead ↔ m ∈ r.tf.fifoHead)
    (hsub : (tf.fifoHead.filter fun m => !tf.canceled m).Sublist
      (r.tf.fifoHead.filter fun m => !r.tf.canceled m)) : (r.setTf tf).Good where
  wf := hwf
  size := h.size
  inOrder := h.inOrder.sublist hsub
  young := fun m hm => h.young m ((hmem m).mp hm)
  once := by
    intro m
    rw [show (r.setTf tf).enqueues m = _ from h.once m]
    show _ = r.leaves m + if m ∈ tf.fifoHead then 1 else 0
    simp only [hmem m]
  gone := by
    intro hd
    have hnil := h.gone hd
    apply eq_nil_iff_forall_not_mem.mpr
    intro m hm
    simpa [hnil] using (hmem m).mp hm

theorem Good.create (h : r.Good) {mad : Nat} (hmad : mad ∉ r.tf.fifoHead)
    (agent timeoutMs : Nat) (retriesLeft : Int) :
    (r.create mad agent timeoutMs retriesLeft).Good := by
  apply h.setTf
  · exact h.wf.of_lists .rfl .rfl rfl
  · exact fun _ => Iff.rfl
  · have hflags : ∀ m ∈ r.tf.fifoHead,
        (!(r.tf.setMad mad ⟨agent, timeoutMs, retriesLeft, 0, false⟩).canceled m) =
          !r.tf.canceled m := by
      intro m hm
      have hne : m ≠ mad := fun he => hmad (he ▸ hm)
      rw [ToFifo.canceled, ToFifo.setMad_mads_of_ne _ hne]
      rfl
    show List.Sublist (r.tf.fifoHead.filter _) _
    rw [filter_congr hflags]

theorem Good.queueSize (h : r.Good) (var : Nat) :
    ({ r with cc := (r.cc.queueSizeStore var).2 } : FifoRun).Good := by
  unfold SaCc.queueSizeStore
  by_cases hvar : var < 16 ∨ saCcMaxQueueSize < var
  · rw [if_pos hvar]
    exact h
  · rw [if_neg hvar]
    exact ⟨h.wf, by show var ≤ _; omega, h.inOrder, h.young, h.once, h.gone⟩

theorem Good.setExpTime (h : r.Good) (mad timeoutMs jiffies : Nat) :
    (r.setTf (r.tf.setExpTime c mad timeoutMs jiffies)).Good := by
  apply h.setTf
  · exact h.wf.of_lists .rfl .rfl rfl
  · exact fun _ => Iff.rfl
  · simp only [ToFifo.setExpTime_canceled]
    exact .refl _

theorem Good.enqueue (h : r.Good) {mad : Nat} (hmad : mad ∉ r.tf.fifoHead)
    (hlive : r.destroyed = false) (timeoutMs jiffies : Nat) :
    (r.enqueue c mad timeoutMs jiffies).Good := by
  have htimed := h.setExpTime (c := c) mad timeoutMs jiffies
  by_cases hfull : r.cc.queueSize ≤ r.cc.tf.numItems ∨ r.cc.tf.stopEnqueue
  · rw [FifoRun.enqueue, SaCc.tfEnqueue_full hfull]
    exact ⟨htimed.wf, h.size, htimed.inOrder, h.young, h.once, h.gone⟩
  rw [FifoRun.enqueue, SaCc.tfEnqueue_room hfull]
  have hroom : r.tf.numItems < r.cc.queueSize := by
    rw [not_or] at hfull
    exact Nat.lt_of_not_le hfull.1
  -- the born times of the queued entries stay
  have hborn : ∀ m ∈ r.tf.fifoHead, Function.update r.born mad r.clock m = r.born m := by
    intro m hm
    have hne : m ≠ mad := fun he => hmad (he ▸ hm)
    exact Function.update_of_ne hne ..
  constructor
  · exact htimed.wf.enqueueItem hmad (Nat.lt_of_lt_of_le hroom h.size)
  · exact h.size
  · show ((r.tf.fifoHead ++ [mad]).filter _).Pairwise _
    rw [filter_append, pairwise_append]
    refine ⟨?_, (pairwise_singleton ..).sublist filter_sublist, ?_⟩
    · have hold := htimed.inOrder
      refine hold.imp_of_mem fun {a b} ha hb hab => ?_
      show Function.update r.born mad r.clock a < Function.update r.born mad r.clock b
      rw [hborn a (mem_filter.mp ha).1, hborn b (mem_filter.mp hb).1]
      exact hab
    · intro a ha b hb
      have hbm : b = mad := mem_singleton.mp (mem_filter.mp hb).1
      show Function.update r.born mad r.clock a < Function.update r.born mad r.clock b
      rw [hbm, hborn a (mem_filter.mp ha).1, Function.update_self]
      exact h.young a (mem_filter.mp ha).1
  · intro m hm
    show Function.update r.born mad r.clock m < r.clock + 1
    rcases mem_append.mp hm with hm | hm
    · rw [hborn m hm]
      exact Nat.lt_succ_of_lt (h.young m hm)
    · rw [mem_singleton.mp hm, Function.update_self]
      exact Nat.lt_succ_self _
  · intro m
    show List.count _ (_ :: r.log) = List.countP _ (_ :: r.log) +
      if m ∈ r.tf.fifoHead ++ [mad] then 1 else 0
    have honce : r.log.count (.enqueued m) = r.log.countP (FifoEvent.isLeave m) + _ := h.once m
    rw [count_cons, countP_cons_of_neg (by simp [FifoEvent.isLeave]), honce]
    by_cases hm : m = mad
    · subst hm
      simp [hmad]
    · simp [hm, Ne.symm hm]
  · intro hd
    exact absurd hd (by simp [hlive])

theorem Good.dequeue (h : r.Good) (jiffies : Nat) (beyond : Bool)
    (hfinds : r.Finds (.dequeue jiffies beyond)) : (r.dequeue c jiffies beyond).Good := by
  rcases r.tf.tfDequeue_cases (c := c) jiffies beyond with
    ⟨tmp, hfind, heq⟩ | ⟨hall, -, heq⟩ | ⟨hall, hne, -, -, -, -, heq⟩
  · rw [FifoRun.dequeue, heq]
    exact h.leave (ToFifo.removes_unlink h.wf (mem_of_find?_eq_some hfind))
  · rw [FifoRun.dequeue, heq]
    exact h
  · exfalso
    rcases hfinds with hnil | ⟨m, hm, hlive⟩
    · exact hne hnil
    · simpa [hlive] using hall m hm

theorem Good.modify (h : r.Good) (agent sendBuf timeoutMs jiffies : Nat) :
    (r.setTf (r.tf.tfModifyItem c agent sendBuf timeoutMs jiffies).2).Good := by
  unfold ToFifo.tfModifyItem
  cases hfind : r.tf.fifoHead.find?
    fun item => decide (r.tf.madAgentPriv item = agent ∧ item = sendBuf) with
  | none => exact h
  | some item =>
    have hq : item ∈ r.tf.fifoHead := mem_of_find?_eq_some hfind
    have hto : item ∈ r.tf.toHead := h.wf.perm.mem_iff.mpr hq
    have htimed := h.setExpTime (c := c) item timeoutMs jiffies
    by_cases ht : timeoutMs ≠ 0
    · simp only [if_pos ht]
      apply htimed.setTf
      · refine htimed.wf.of_lists ?_ .rfl rfl
        exact (ToFifo.insertTo_perm ..).trans (perm_cons_erase hto).symm
      · exact fun _ => Iff.rfl
      · exact .refl _
    · simp only [if_neg ht]
      have hperm : (r.tf.fifoHead.erase item ++ [item]).Perm r.tf.fifoHead :=
        (perm_append_singleton item _).trans (perm_cons_erase hq).symm
      apply htimed.setTf
      · exact htimed.wf.of_lists (perm_cons_erase hto).symm hperm rfl
      · exact fun m => hperm.mem_iff
      · -- the canceled entry is none of those that are still to be dequeued
        set timed := r.tf.setExpTime c item timeoutMs jiffies with htimed'
        set m' : SaMad := { timed.mads item with canceled := true } with hm'
        have hlast : [item].filter (fun m => !(timed.setMad item m').canceled m) = [] := by
          simp [ToFifo.canceled, hm']
        have hflags : ∀ m ∈ r.tf.fifoHead.erase item,
            (!(timed.setMad item m').canceled m) = !timed.canceled m := by
          intro m hm
          have hne : m ≠ item := (h.wf.nodup.mem_erase_iff.mp hm).1
          rw [ToFifo.canceled, ToFifo.setMad_mads_of_ne _ hne]
          rfl
        show List.Sublist ((r.tf.fifoHead.erase item ++ [item]).filter fun m =>
          !(timed.setMad item m').canceled m) _
        rw [filter_append, hlast, append_nil, filter_congr hflags]
        exact erase_sublist.filter _

theorem Good.freeAgent (h : r.Good) (agent : Nat) : (r.freeAgent agent).Good := by
  apply h.leave
  simpa [Function.comp_def] using ToFifo.tfFreeAgent_removes h.wf agent

theorem Good.expire (h : r.Good) (jiffies : Nat) : (r.expire jiffies).Good := by
  apply h.leave
  rw [ToFifo.timeoutPass_reports]
  exact ToFifo.timeoutPass_removes h.wf jiffies

theorem Good.destroy (h : r.Good) (hlive : ∀ m ∈ r.tf.fifoHead, r.tf.canceled m = false)
    (jiffies : Nat) (beyond : Bool) (queuedWork : List Nat) :
    (r.destroy c jiffies beyond queuedWork).Good := by
  obtain ⟨hall, hnil⟩ :=
    ToFifo.saCcDestroy_removes (c := c) h.wf hlive jiffies beyond queuedWork
  have hleave := h.leave hall
  exact ⟨hleave.wf, hleave.size, hleave.inOrder, hleave.young, hleave.once, fun _ => hnil⟩

theorem Good.step (h : r.Good) (op : FifoOp) (hv : r.Valid op) (hf : r.Finds op) :
    (r.step c op).Good := by
  unfold FifoRun.step
  split
  · exact h
  cases op with
  | create mad agent timeoutMs retriesLeft => exact h.create hv.2 agent timeoutMs retriesLeft
  | queueSize var => exact h.queueSize var
  | enqueue mad timeoutMs jiffies => exact h.enqueue hv.2 hv.1 timeoutMs jiffies
  | dequeue jiffies beyond => exact h.dequeue jiffies beyond hf
  | modify agent sendBuf timeoutMs jiffies => exact h.modify agent sendBuf timeoutMs jiffies
  | freeAgent agent => exact h.freeAgent agent
  | expire jiffies => exact h.expire jiffies
  | destroy jiffies beyond queuedWork => exact h.destroy hf jiffies beyond queuedWork

/-- The first entry that is not canceled is the oldest one. -/
theorem Good.oldest (h : r.Good) {m : Nat}
    (hfind : r.tf.fifoHead.find? (fun m => !r.tf.canceled m) = some m) : r.Oldest m := by
  have hlive : r.tf.canceled m = false := by simpa using List.find?_some hfind
  refine ⟨mem_of_find?_eq_some hfind, hlive, fun m' hm' hlive' => ?_⟩
  have hhead : (r.tf.fifoHead.filter fun m => !r.tf.canceled m).head? = some m := by
    rw [List.head?_filter, hfind]
  obtain ⟨rest, hrest⟩ := List.head?_eq_some_iff.mp hhead
  have horder := h.inOrder
  have hmem : m' ∈ r.tf.fifoHead.filter fun m => !r.tf.canceled m :=
    mem_filter.mpr ⟨hm', by simpa using hlive'⟩
  rw [hrest] at horder hmem
  rcases mem_cons.mp hmem with rfl | hmem
  · exact Nat.le_refl _
  · exact Nat.le_of_lt (rel_of_pairwise_cons horder hmem)

theorem Good.answers (h : r.Good) (op : FifoOp) (hf : r.Finds op) : r.Answers c op := by
  cases op with
  | dequeue jiffies beyond =>
    rcases r.tf.tfDequeue_cases (c := c) jiffies beyond with
      ⟨tmp, hfind, heq⟩ | ⟨hall, -, heq⟩ | ⟨hall, hne, -, -, -, -, heq⟩
    · rw [Answers, heq]
      exact h.oldest hfind
    · rw [Answers, heq]
      exact hall
    · exfalso
      rcases hf with hnil | ⟨m, hm, hlive⟩
      · exact hne hnil
      · simpa [hlive] using hall m hm
  | create | queueSize | enqueue | modify | freeAgent | expire | destroy => trivial

/-- While calls of `tf_dequeue` find the FIFO empty or an entry that is not canceled, what was
enqueued leaves exactly once, the oldest entry that is not canceled first. -/
theorem exactly_once_every_run (c : Clock) (mads : Nat → SaMad) {ops : List FifoOp}
    (hv : Run.Steps (step c) Valid (init mads) ops)
    (hf : Run.Steps (step c) Finds (init mads) ops) :
    (∀ t ∈ Run.states (step c) (init mads) ops, t.Sound) ∧
      Run.Steps (step c) (Answers c) (init mads) ops := by
  have hok := Run.steps_and.mpr ⟨hv, hf⟩
  have hstep : ∀ s op, Good s → (s.Valid op ∧ s.Finds op) → Good (s.step c op) :=
    fun s op hs hop => hs.step op hop.1 hop.2
  constructor
  · intro t ht
    exact (Run.Steps.invariant hstep (good_init mads) hok t ht).sound
  · exact Run.Steps.each hstep (fun s op hs hop => hs.answers op hop.2) (good_init mads) hok

theorem exampleClock_pos : 0 < 1000 := by decide

/-- A clock of 1000 ticks a second. -/
def exampleClock : Clock := { hz := 1000, hz_pos := exampleClock_pos, jiffiesToMsecs := id }

/-- The memory before any MAD is allocated. -/
def noMads : Nat → SaMad := fun _ => ⟨0, 0, 0, 0, false⟩

/-- One MAD is dequeued, one expires, one is canceled and flushed, one goes with its agent and one
with `sa_cc_destroy`. -/
def fiveMads : List FifoOp :=
  [.create 1 7 10 0, .create 2 7 10 0, .create 3 7 10 0, .create 4 8 10 0, .create 5 7 10 0,
    .enqueue 1 10 0, .enqueue 2 5 0, .enqueue 3 9 0, .enqueue 4 20 0, .enqueue 5 30 0,
    .dequeue 1 false, .modify 7 3 0 2, .expire 6, .freeAgent 8, .destroy 8 false []]

theorem exactly_once_five_mads :
    (∀ t ∈ Run.states (step exampleClock) (init noMads) fiveMads, t.Sound) ∧
      Run.Steps (step exampleClock) (Answers exampleClock) (init noMads) fiveMads :=
  exactly_once_every_run exampleClock noMads (by decide +kernel) (by decide +kernel)

/-- `sa_cc_destroy` never reports a canceled MAD, and a `tf_dequeue` that finds only canceled MADs
faults. -/
theorem canceled_mad_lost :
    (Run.Steps (step exampleClock) Valid (init noMads)
        [.create 1 7 10 0, .enqueue 1 10 0, .modify 7 1 0 0, .destroy 0 true []] ∧
      ¬(∀ t ∈ Run.states (step exampleClock) (init noMads)
          [.create 1 7 10 0, .enqueue 1 10 0, .modify 7 1 0 0, .destroy 0 true []], t.Sound)) ∧
    (Run.Steps (step exampleClock) Valid (init noMads)
        [.create 1 7 10 0, .enqueue 1 10 0, .modify 7 1 0 0, .dequeue 0 false] ∧
      ¬Run.Steps (step exampleClock) (Answers exampleClock) (init noMads)
          [.create 1 7 10 0, .enqueue 1 10 0, .modify 7 1 0 0, .dequeue 0 false]) := by
  refine ⟨⟨by decide +kernel, ?_⟩, by decide +kernel, ?_⟩
  · intro h
    have hgone := (h _ (Run.final_mem_states _ _)).gone rfl 1
    revert hgone
    decide +kernel
  · rintro ⟨-, -, -, h, -⟩
    exact h

end FifoRun

end Mad
