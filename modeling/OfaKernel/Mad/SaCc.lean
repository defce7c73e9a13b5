-- SUMMARY: SA congestion control under any interleaving.
import OfaKernel.Mad.TimeoutFifoRuns

/-!
# SA congestion control

At most `max_outstanding` SA MADs are outstanding; the others wait in the timeout FIFO. Every
section under `cc_obj->lock`, every call of the FIFO and the end of a call of `send_sa_cc_mad` is
a step.
-/

namespace Mad

/-- A thread in `send_sa_cc_mad`, with its arguments. -/
structure Post where
  mad : Nat
  timeoutMs : Nat
  retriesLeft : Int
deriving DecidableEq, Repr

/-- `finishing` counts the threads about to take the lock in `sa_cc_mad_done`, `inFlight` has the
MADs that are posted. -/
structure SaRun where
  fifo : FifoRun
  sending : List Post := []
  finishing : Nat := 0
  inFlight : List Nat := []

inductive SaOp where
  | create (mad agent timeoutMs : Nat) (retriesLeft : Int)
  | queueSize (var : Nat)
  | timeSaMad (var : Nat)
  /-- `sa_cc_mad_send`, up to the end of its section under the lock. -/
  | send (mad jiffies : Nat)
  /-- The thread at this place of `sending` has posted its MAD, or `send_sa_cc_mad` fails. -/
  | posted (i : Nat) (sent : Bool)
  | complete (mad : Nat)
  /-- The section under the lock in the loop of `sa_cc_mad_done`. -/
  | done (jiffies : Nat) (beyond : Bool)
  /-- `ib_modify_mad`; `onLists` is its result when `find_send_wr` finds the MAD. -/
  | modify (onLists : Option Ret) (agent sendBuf timeoutMs jiffies : Nat)
  /-- `cancel_sa_cc_mads`. -/
  | freeAgent (agent : Nat)
  | expire (jiffies : Nat)
deriving DecidableEq, Repr

namespace SaRun

/-- The run before its first step. -/
def init (mads : Nat → SaMad) (maxOutstanding : Nat) : SaRun :=
  { fifo := { cc := { saCcInit mads with maxOutstanding } } }

variable (c : Clock) (s : SaRun)

abbrev cc : SaCc := s.fifo.cc

abbrev tf : ToFifo := s.fifo.cc.tf

def setOutstanding (outstanding : Nat) : SaRun :=
  { s with fifo := { s.fifo with cc := { s.cc with outstanding } } }

/-- How long `sa_cc_mad_send` lets a MAD wait, as `int`, at least 0. -/
def sendQtime (m : SaMad) : Nat :=
  let qtime := I32.wrap ((m.timeoutMs * (m.retriesLeft + 1)) % 2 ^ 32 - s.cc.timeSaMad)
  if qtime < 0 then 0 else qtime.toNat

def saCcMadSend (mad jiffies : Nat) : SaRun :=
  let m := s.tf.mads mad
  if s.cc.outstanding < s.cc.maxOutstanding then
    { s.setOutstanding (s.cc.outstanding + 1) with
      sending := ⟨mad, m.timeoutMs, m.retriesLeft⟩ :: s.sending }
  else { s with fifo := s.fifo.enqueue c mad (s.sendQtime m) jiffies }

/-- What `sa_cc_mad_done` sends a dequeued MAD with. -/
def dequeuedPost (mad timeLeftMs : Nat) : Post :=
  let timeoutMs := (s.tf.mads mad).timeoutMs
  let timeLeftMs := U32.wrap (timeLeftMs + s.cc.timeSaMad)
  if timeoutMs < timeLeftMs then ⟨mad, timeoutMs, timeLeftMs / timeoutMs - 1⟩
  else ⟨mad, timeLeftMs, 0⟩

@[simp] theorem dequeuedPost_mad (mad timeLeftMs : Nat) :
    (s.dequeuedPost mad timeLeftMs).mad = mad := by
  unfold dequeuedPost
  by_cases h : (s.tf.mads mad).timeoutMs < U32.wrap (timeLeftMs + s.cc.timeSaMad)
  · simp only [if_pos h]
  · simp only [if_neg h]

/-- The section of `sa_cc_mad_done` under the lock: the slot goes to a queued MAD, or it is
released. -/
def saCcMadDone (jiffies : Nat) (beyond : Bool) : SaRun :=
  let s' := { s with fifo := s.fifo.dequeue c jiffies beyond, finishing := s.finishing - 1 }
  match (s.tf.tfDequeue c jiffies beyond).1 with
  | .null =>
    s'.setOutstanding (if 0 < s.cc.outstanding then s.cc.outstanding - 1 else s.cc.outstanding)
  | .entry mad timeLeftMs => { s' with sending := s.dequeuedPost mad timeLeftMs :: s.sending }
  | .fault => s'

/-- The end of `send_sa_cc_mad`. On an error its thread is in `sa_cc_mad_done` next. -/
def sendSaCcMad (i : Nat) (sent : Bool) : SaRun :=
  match s.sending[i]? with
  | none => s
  | some post =>
    let s' := { s with sending := s.sending.eraseIdx i }
    if sent then { s' with inFlight := post.mad :: s.inFlight }
    else { s' with finishing := s.finishing + 1 }

/-- `ib_mad_complete_send_wr`, `timeout_sends` or `cancel_mads` is done with a MAD that was posted,
and calls `sa_cc_mad_done`. -/
def complete (mad : Nat) : SaRun :=
  { s with inFlight := s.inFlight.erase mad, finishing := s.finishing + 1 }

/-- The new waiting time in `modify_sa_cc_mad`. -/
def modifyQtime (timeoutMs : Nat) : Nat :=
  let qtime := if s.cc.timeSaMad < timeoutMs then I32.wrap (timeoutMs - s.cc.timeSaMad) else 0
  (qtime % 2 ^ 32).toNat

def modifySaCcMad (agent sendBuf timeoutMs jiffies : Nat) : Ret × SaRun :=
  let r := s.tf.tfModifyItem c agent sendBuf (s.modifyQtime timeoutMs) jiffies
  (r.1, { s with fifo := s.fifo.setTf r.2 })

/-- `ib_modify_mad`. A MAD that `find_send_wr` finds is modified where it is. -/
def ibModifyMad (onLists : Option Ret) (agent sendBuf timeoutMs jiffies : Nat) : Ret × SaRun :=
  match onLists with
  | some ret => (ret, s)
  | none =>
    let r := s.modifySaCcMad c agent sendBuf timeoutMs jiffies
    (if r.1 = .ok then .ok else .einval, r.2)

def act : SaOp → SaRun
  | .create mad agent timeoutMs retriesLeft =>
    { s with fifo := s.fifo.create mad agent timeoutMs retriesLeft }
  | .queueSize var => { s with fifo := { s.fifo with cc := (s.cc.queueSizeStore var).2 } }
  | .timeSaMad var => { s with fifo := { s.fifo with cc := (s.cc.timeSaMadStore var).2 } }
  | .send mad jiffies => s.saCcMadSend c mad jiffies
  | .posted i sent => s.sendSaCcMad i sent
  | .complete mad => s.complete mad
  | .done jiffies beyond => s.saCcMadDone c jiffies beyond
  | .modify onLists agent sendBuf timeoutMs jiffies =>
    (s.ibModifyMad c onLists agent sendBuf timeoutMs jiffies).2
  | .freeAgent agent => { s with fifo := s.fifo.freeAgent agent }
  | .expire jiffies => { s with fifo := s.fifo.expire jiffies }

/-- Nothing is done after a fault. -/
def step (op : SaOp) : SaRun := if s.tf.faulted then s else s.act c op

/-- The MADs that the congestion control has: queued, about to be posted, or posted. -/
def owned : List Nat := s.tf.fifoHead ++ s.sending.map Post.mad ++ s.inFlight

/-- A MAD is posted again only after its report, only what was posted completes, and the lists of
the agent have only MADs that `send_sa_cc_mad` has put there. -/
def Valid : SaOp → Prop
  | .create mad _ _ _ | .send mad _ => mad ∉ s.owned
  | .posted i _ => i < s.sending.length
  | .complete mad => mad ∈ s.inFlight
  | .done _ _ => 0 < s.finishing
  | .modify onLists _ sendBuf _ _ =>
    onLists ≠ none → sendBuf ∈ s.sending.map Post.mad ++ s.inFlight
  | .queueSize _ | .timeSaMad _ | .freeAgent _ | .expire _ => True

instance : ∀ op, Decidable (s.Valid op)
  | .create _ _ _ _ | .send _ _ => inferInstanceAs (Decidable (_ ∉ s.owned))
  | .posted _ _ | .done _ _ => inferInstanceAs (Decidable (_ < _))
  | .complete _ => inferInstanceAs (Decidable (_ ∈ _))
  | .modify _ _ _ _ _ => inferInstanceAs (Decidable (_ → _))
  | .queueSize _ | .timeSaMad _ | .freeAgent _ | .expire _ => .isTrue trivial

/-! ## Slots -/

/-- No thread has anything left to do for a MAD. -/
def Quiescent : Prop := s.sending = [] ∧ s.finishing = 0

/-- A slot is taken for each posted MAD, at most `max_outstanding`, and a MAD only waits while all
slots are taken. -/
structure SlotsSound (maxOutstanding : Nat) : Prop where
  slots : s.Quiescent → s.cc.outstanding = s.inFlight.length
  bounded : s.cc.outstanding ≤ maxOutstanding
  full : ∀ m ∈ s.tf.fifoHead, s.tf.canceled m = false → s.cc.outstanding = maxOutstanding

/-- The invariant: a slot is taken for each posted MAD and for each thread that will post one or
release the slot. -/
structure Good (maxOutstanding : Nat) : Prop where
  fifo : s.fifo.Good
  live : s.fifo.destroyed = false
  limit : s.cc.maxOutstanding = maxOutstanding
  slots : s.cc.outstanding = s.inFlight.length + s.sending.length + s.finishing
  bounded : s.cc.outstanding ≤ maxOutstanding
  full : ∀ m ∈ s.tf.fifoHead, s.tf.canceled m = false → s.cc.outstanding = maxOutstanding

theorem good_init (mads : Nat → SaMad) (maxOutstanding : Nat) :
    (init mads maxOutstanding).Good maxOutstanding where
  fifo := by
    have h := FifoRun.good_init mads
    exact ⟨h.wf, h.size, h.inOrder, h.young, h.once, h.gone⟩
  live := rfl
  limit := rfl
  slots := rfl
  bounded := Nat.zero_le _
  full := by simp [init, saCcInit, ToFifo.tfCreate]

variable {c s} {maxOutstanding : Nat}

theorem Good.sound (h : s.Good maxOutstanding) : s.SlotsSound maxOutstanding where
  slots := by
    rintro ⟨hsending, hfinishing⟩
    simpa [hsending, hfinishing] using h.slots
  bounded := h.bounded
  full := h.full

/-- The FIFO changes so that nothing new waits in it. -/
theorem Good.setFifo (h : s.Good maxOutstanding) {fifo : FifoRun} (hgood : fifo.Good)
    (hlive : fifo.destroyed = s.fifo.destroyed)
    (hmax : fifo.cc.maxOutstanding = s.cc.maxOutstanding)
    (hout : fifo.cc.outstanding = s.cc.outstanding)
    (hold : ∀ m ∈ fifo.tf.fifoHead, fifo.tf.canceled m = false →
      m ∈ s.tf.fifoHead ∧ s.tf.canceled m = false) :
    ({ s with fifo } : SaRun).Good maxOutstanding where
  fifo := hgood
  live := hlive.trans h.live
  limit := hmax.trans h.limit
  slots := hout.trans h.slots
  bounded := hout.trans_le h.bounded
  full := fun m hm hlive' => hout.trans (h.full m (hold m hm hlive').1 (hold m hm hlive').2)

theorem Good.create (h : s.Good maxOutstanding) {mad : Nat} (hmad : mad ∉ s.owned)
    (agent timeoutMs : Nat) (retriesLeft : Int) :
    (s.act c (.create mad agent timeoutMs retriesLeft)).Good maxOutstanding := by
  have hq : mad ∉ s.tf.fifoHead := fun hm => hmad (by simp [owned, hm])
  refine h.setFifo (h.fifo.create hq agent timeoutMs retriesLeft) rfl rfl rfl ?_
  intro m hm hlive
  have hne : m ≠ mad := fun he => hq (he ▸ hm)
  refine ⟨hm, ?_⟩
  have hsame := ToFifo.setMad_mads_of_ne s.tf hne ⟨agent, timeoutMs, retriesLeft, 0, false⟩
  exact (congrArg SaMad.canceled hsame).symm.trans hlive

theorem Good.queueSize (h : s.Good maxOutstanding) (var : Nat) :
    (s.act c (.queueSize var)).Good maxOutstanding := by
  have hgood := h.fifo.queueSize var
  show ({ s with fifo := { s.fifo with cc := (s.cc.queueSizeStore var).2 } } : SaRun).Good _
  unfold SaCc.queueSizeStore at hgood ⊢
  by_cases hvar : var < 16 ∨ saCcMaxQueueSize < var
  · rw [if_pos hvar] at hgood ⊢
    exact h
  · rw [if_neg hvar] at hgood ⊢
    exact h.setFifo hgood rfl rfl rfl fun m hm hlive => ⟨hm, hlive⟩

theorem Good.timeSaMad (h : s.Good maxOutstanding) (var : Nat) :
    (s.act c (.timeSaMad var)).Good maxOutstanding := by
  show ({ s with fifo := { s.fifo with cc := (s.cc.timeSaMadStore var).2 } } : SaRun).Good _
  unfold SaCc.timeSaMadStore
  by_cases hvar : var < 1 ∨ 10000 < var
  · rw [if_pos hvar]
    exact h
  · rw [if_neg hvar]
    have hf := h.fifo
    exact h.setFifo ⟨hf.wf, hf.size, hf.inOrder, hf.young, hf.once, hf.gone⟩ rfl rfl rfl
      fun m hm hlive => ⟨hm, hlive⟩

theorem enqueue_cc (r : FifoRun) (mad timeoutMs jiffies : Nat) :
    (r.enqueue c mad timeoutMs jiffies).destroyed = r.destroyed ∧
      (r.enqueue c mad timeoutMs jiffies).cc.outstanding = r.cc.outstanding ∧
      (r.enqueue c mad timeoutMs jiffies).cc.maxOutstanding = r.cc.maxOutstanding := by
  by_cases hfull : r.cc.queueSize ≤ r.cc.tf.numItems ∨ r.cc.tf.stopEnqueue
  · rw [FifoRun.enqueue, SaCc.tfEnqueue_full hfull]
    exact ⟨rfl, rfl, rfl⟩
  · rw [FifoRun.enqueue, SaCc.tfEnqueue_room hfull]
    exact ⟨rfl, rfl, rfl⟩

/-- A MAD takes a slot, or it waits because there is none. -/
theorem Good.send (h : s.Good maxOutstanding) {mad : Nat} (hmad : mad ∉ s.owned) (jiffies : Nat) :
    (s.act c (.send mad jiffies)).Good maxOutstanding := by
  have hq : mad ∉ s.tf.fifoHead := fun hm => hmad (by simp [owned, hm])
  show (s.saCcMadSend c mad jiffies).Good maxOutstanding
  unfold saCcMadSend
  by_cases hslot : s.cc.outstanding < s.cc.maxOutstanding
  · rw [if_pos hslot]
    have hf := h.fifo
    have hlimit := h.limit
    constructor
    · exact ⟨hf.wf, hf.size, hf.inOrder, hf.young, hf.once, hf.gone⟩
    · exact h.live
    · exact h.limit
    · show s.cc.outstanding + 1 = s.inFlight.length + (s.sending.length + 1) + s.finishing
      rw [h.slots]
      omega
    · show s.cc.outstanding + 1 ≤ maxOutstanding
      omega
    · intro m hm hlive
      have hfull := h.full m hm hlive
      omega
  · rw [if_neg hslot]
    have hmax : s.cc.outstanding = maxOutstanding := by
      have hlimit := h.limit
      have hbounded := h.bounded
      omega
    obtain ⟨hlive, hout, hlimit⟩ :=
      enqueue_cc (c := c) s.fifo mad (s.sendQtime (s.tf.mads mad)) jiffies
    constructor
    · exact h.fifo.enqueue hq h.live _ jiffies
    · exact hlive.trans h.live
    · exact hlimit.trans h.limit
    · exact hout.trans h.slots
    · exact hout.trans_le h.bounded
    · exact fun _ _ _ => hout.trans hmax

theorem Good.posted (h : s.Good maxOutstanding) {i : Nat} (hi : i < s.sending.length)
    (sent : Bool) : (s.act c (.posted i sent)).Good maxOutstanding := by
  show (s.sendSaCcMad i sent).Good maxOutstanding
  unfold sendSaCcMad
  obtain ⟨post, hpost⟩ : ∃ post, s.sending[i]? = some post := ⟨_, List.getElem?_eq_getElem hi⟩
  rw [hpost]
  have hlen : (s.sending.eraseIdx i).length + 1 = s.sending.length := by
    rw [List.length_eraseIdx_of_lt hi]
    omega
  have hslots := h.slots
  cases sent with
  | true =>
    refine ⟨h.fifo, h.live, h.limit, ?_, h.bounded, h.full⟩
    show s.cc.outstanding =
      (s.inFlight.length + 1) + (s.sending.eraseIdx i).length + s.finishing
    omega
  | false =>
    refine ⟨h.fifo, h.live, h.limit, ?_, h.bounded, h.full⟩
    show s.cc.outstanding =
      s.inFlight.length + (s.sending.eraseIdx i).length + (s.finishing + 1)
    omega

theorem Good.complete (h : s.Good maxOutstanding) {mad : Nat} (hmad : mad ∈ s.inFlight) :
    (s.act c (.complete mad)).Good maxOutstanding := by
  have hpos := List.length_pos_of_mem hmad
  have hslots := h.slots
  refine ⟨h.fifo, h.live, h.limit, ?_, h.bounded, h.full⟩
  show s.cc.outstanding = (s.inFlight.erase mad).length + s.sending.length + (s.finishing + 1)
  rw [List.length_erase_of_mem hmad]
  omega

/-- A slot is passed on to the oldest MAD that waits, or released if none does. -/
theorem Good.done (h : s.Good maxOutstanding) (jiffies : Nat) (beyond : Bool)
    (hthread : 0 < s.finishing) :
    (s.act c (.done jiffies beyond)).tf.faulted ∨
      (s.act c (.done jiffies beyond)).Good maxOutstanding := by
  have hslots := h.slots
  have hbounded := h.bounded
  show (s.saCcMadDone c jiffies beyond).tf.faulted ∨ (s.saCcMadDone c jiffies beyond).Good _
  unfold saCcMadDone
  rcases s.tf.tfDequeue_cases (c := c) jiffies beyond with
    ⟨tmp, hfind, heq⟩ | ⟨hall, -, heq⟩ | ⟨hall, hne, tf', -, -, hfault, heq⟩
  · have hremoves := ToFifo.removes_unlink h.fifo.wf (List.mem_of_find?_eq_some hfind)
    have hfifo : s.fifo.dequeue c jiffies beyond =
        s.fifo.leave [(tmp, .dequeued)] (s.tf.unlink tmp) := by
      rw [FifoRun.dequeue, heq]
    simp only [heq]
    rw [hfifo]
    right
    constructor
    · exact h.fifo.leave hremoves
    · exact h.live
    · exact h.limit
    · show s.cc.outstanding = s.inFlight.length + (s.sending.length + 1) + (s.finishing - 1)
      omega
    · exact h.bounded
    · exact fun m hm hlive => h.full m (hremoves.mem_iff.mp hm).1 hlive
  · have hfifo : s.fifo.dequeue c jiffies beyond = s.fifo := by
      rw [FifoRun.dequeue, heq]
      rfl
    have hpos : 0 < s.cc.outstanding := by omega
    simp only [heq, if_pos hpos, hfifo]
    have hf := h.fifo
    right
    constructor
    · exact ⟨hf.wf, hf.size, hf.inOrder, hf.young, hf.once, hf.gone⟩
    · exact h.live
    · exact h.limit
    · show s.cc.outstanding - 1 = s.inFlight.length + s.sending.length + (s.finishing - 1)
      omega
    · show s.cc.outstanding - 1 ≤ maxOutstanding
      omega
    · -- nothing waits any more
      intro m hm hlive
      have hlive : s.tf.canceled m = false := hlive
      simpa [hlive] using hall m hm
  · simp only [heq]
    left
    show (s.fifo.dequeue c jiffies beyond).tf.faulted = true
    rw [FifoRun.dequeue, heq]
    exact hfault

theorem Good.modify (h : s.Good maxOutstanding) (onLists : Option Ret)
    (agent sendBuf timeoutMs jiffies : Nat) :
    (s.act c (.modify onLists agent sendBuf timeoutMs jiffies)).Good maxOutstanding := by
  cases onLists with
  | some ret => exact h
  | none =>
    refine h.setFifo (h.fifo.modify agent sendBuf (s.modifyQtime timeoutMs) jiffies) rfl rfl rfl ?_
    by_cases hq : sendBuf ∈ s.tf.fifoHead ∧ s.tf.madAgentPriv sendBuf = agent
    · obtain ⟨-, hperm, hflags⟩ := ToFifo.tfModifyItem_of_queued (c := c) hq.1 hq.2
        (s.modifyQtime timeoutMs) jiffies
      intro m hm hlive
      have hor := (hflags m).symm.trans hlive
      exact ⟨hperm.subset hm, (Bool.or_eq_false_iff.mp hor).1⟩
    · have hsame := ToFifo.tfModifyItem_of_not (c := c) hq (s.modifyQtime timeoutMs) jiffies
      simp only [hsame]
      exact fun m hm hlive => ⟨hm, hlive⟩

theorem Good.freeAgent (h : s.Good maxOutstanding) (agent : Nat) :
    (s.act c (.freeAgent agent)).Good maxOutstanding :=
  h.setFifo (h.fifo.freeAgent agent) rfl rfl rfl fun _ hm hlive =>
    ⟨(ToFifo.tfFreeAgent_removes h.fifo.wf agent).mem_iff.mp hm |>.1, hlive⟩

theorem Good.expire (h : s.Good maxOutstanding) (jiffies : Nat) :
    (s.act c (.expire jiffies)).Good maxOutstanding := by
  have hremoves := ToFifo.timeoutPass_removes h.fifo.wf jiffies
  refine h.setFifo (h.fifo.expire jiffies) rfl rfl rfl fun m hm hlive => ?_
  have hkept := congrArg SaMad.canceled (hremoves.kept m hm)
  exact ⟨(hremoves.mem_iff.mp hm).1, hkept.symm.trans hlive⟩

/-- One step keeps the invariant, or it faults. -/
theorem Good.step (h : s.Good maxOutstanding) (op : SaOp) (hv : s.Valid op) :
    (s.step c op).tf.faulted ∨ (s.step c op).Good maxOutstanding := by
  unfold SaRun.step
  split
  · exact .inr h
  cases op with
  | create mad agent timeoutMs retriesLeft => exact .inr (h.create hv agent timeoutMs retriesLeft)
  | queueSize var => exact .inr (h.queueSize var)
  | timeSaMad var => exact .inr (h.timeSaMad var)
  | send mad jiffies => exact .inr (h.send hv jiffies)
  | posted i sent => exact .inr (h.posted hv sent)
  | complete mad => exact .inr (h.complete hv)
  | done jiffies beyond => exact h.done jiffies beyond hv
  | modify onLists agent sendBuf timeoutMs jiffies =>
    exact .inr (h.modify onLists agent sendBuf timeoutMs jiffies)
  | freeAgent agent => exact .inr (h.freeAgent agent)
  | expire jiffies => exact .inr (h.expire jiffies)

/-- In every run each slot belongs to a MAD that is posted, and no MAD waits while a slot is free,
as long as `tf_dequeue` has not faulted. -/
theorem slots_every_run (c : Clock) (mads : Nat → SaMad) (maxOutstanding : Nat) {ops : List SaOp}
    (hv : Run.Steps (SaRun.step c) Valid (init mads maxOutstanding) ops) :
    ∀ t ∈ Run.states (SaRun.step c) (init mads maxOutstanding) ops,
      t.tf.faulted = false → t.SlotsSound maxOutstanding := by
  have hstep (s : SaRun) (op) (hs : s.tf.faulted ∨ s.Good maxOutstanding) (hop : s.Valid op) :
      (s.step c op).tf.faulted ∨ (s.step c op).Good maxOutstanding := by
    rcases hs with hfault | hgood
    · left
      rw [SaRun.step, if_pos hfault]
      exact hfault
    · exact hgood.step op hop
  intro t ht hlive
  rcases Run.Steps.invariant hstep (.inr (good_init mads maxOutstanding)) hv t ht
    with hfault | hgood
  · exact Bool.noConfusion (hlive.symm.trans hfault)
  · exact hgood.sound

/-- A MAD waits, is sent after a failed one, and its slot is released. -/
def threeMads : List SaOp :=
  [.create 1 7 100 0, .create 2 7 100 0, .create 3 7 100 0, .send 1 0, .posted 0 true,
    .send 2 0, .send 3 0, .complete 1, .done 1 false, .posted 0 false, .done 2 false,
    .posted 0 true, .complete 3, .done 3 false]

theorem slots_one_outstanding :
    Run.Steps (SaRun.step FifoRun.exampleClock) Valid (init FifoRun.noMads 1) threeMads ∧
      ∀ t ∈ Run.states (SaRun.step FifoRun.exampleClock) (init FifoRun.noMads 1) threeMads,
        t.tf.faulted = false ∧ t.SlotsSound 1 := by
  have hvalid : Run.Steps (SaRun.step FifoRun.exampleClock) Valid (init FifoRun.noMads 1)
      threeMads := by decide +kernel
  have hlive : ∀ t ∈ Run.states (SaRun.step FifoRun.exampleClock) (init FifoRun.noMads 1) threeMads,
      t.tf.faulted = false := by decide +kernel
  exact ⟨hvalid, fun t ht => ⟨hlive t ht,
    slots_every_run FifoRun.exampleClock FifoRun.noMads 1 hvalid t ht (hlive t ht)⟩⟩

end SaRun

end Mad
