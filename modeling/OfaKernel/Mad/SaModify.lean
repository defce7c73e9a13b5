-- SUMMARY: A new timeout for a queued SA MAD.
import Mathlib.Data.List.Count
import OfaKernel.Mad.SaCc

/-!
# A new timeout for a queued MAD

`modify_sa_cc_mad` takes the expected time of an SA MAD off the timeout, and for `tf_modify_item` a
timeout of 0 is a cancellation.
-/

open List

namespace Mad

/-! ## Only a cancellation is flushed -/

namespace FifoRun

variable {c : Clock} {r : FifoRun} {m n : Nat}

/-- `m` is not canceled, and was flushed `n` times. -/
def Unflushed (r : FifoRun) (m n : Nat) : Prop := r.tf.canceled m = false ∧ r.flushes m = n

theorem flushes_leave (reports : List (Nat × Leave)) (tf : ToFifo) :
    (r.leave reports tf).flushes m = reports.count (m, .flush) + r.flushes m := by
  have hmap : (reports.map fun l => FifoEvent.left l.1 l.2).count (.left m .flush) =
      reports.count (m, .flush) :=
    count_map_of_injective reports (fun l => FifoEvent.left l.1 l.2)
      (fun a b hab => Prod.ext (FifoEvent.left.inj hab).1 (FifoEvent.left.inj hab).2) (m, .flush)
  show List.count _ (_ ++ r.log) = _
  rw [count_append, hmap]
  rfl

theorem Unflushed.leave (h : r.Unflushed m n) {reports : List (Nat × Leave)} {tf : ToFifo}
    (hflag : tf.canceled m = false) (hnot : (m, Leave.flush) ∉ reports) :
    (r.leave reports tf).Unflushed m n := by
  refine ⟨hflag, ?_⟩
  rw [flushes_leave, count_eq_zero.mpr hnot, Nat.zero_add]
  exact h.2

theorem Unflushed.create (h : r.Unflushed m n) (mad agent timeoutMs : Nat) (retriesLeft : Int) :
    (r.create mad agent timeoutMs retriesLeft).Unflushed m n := by
  refine ⟨?_, h.2⟩
  show (r.tf.setMad mad _).canceled m = false
  by_cases hm : m = mad
  · subst hm
    simp [ToFifo.canceled]
  · rw [ToFifo.canceled, ToFifo.setMad_mads_of_ne _ hm]
    exact h.1

theorem enqueue_canceled (mad timeoutMs jiffies : Nat) :
    (r.enqueue c mad timeoutMs jiffies).tf.canceled m = r.tf.canceled m := by
  have hflag := ToFifo.setExpTime_canceled (c := c) r.tf mad timeoutMs jiffies m
  by_cases hfull : r.cc.queueSize ≤ r.cc.tf.numItems ∨ r.cc.tf.stopEnqueue
  · rw [FifoRun.enqueue, SaCc.tfEnqueue_full hfull]
    exact hflag
  · rw [FifoRun.enqueue, SaCc.tfEnqueue_room hfull]
    exact hflag

theorem enqueue_log (r : FifoRun) (mad timeoutMs jiffies : Nat) :
    (r.enqueue c mad timeoutMs jiffies).log = r.log ∨
      (r.enqueue c mad timeoutMs jiffies).log = .enqueued mad :: r.log := by
  by_cases hfull : r.cc.queueSize ≤ r.cc.tf.numItems ∨ r.cc.tf.stopEnqueue
  · left
    rw [FifoRun.enqueue, SaCc.tfEnqueue_full hfull]
  · right
    rw [FifoRun.enqueue, SaCc.tfEnqueue_room hfull]

theorem enqueue_flushes (mad timeoutMs jiffies : Nat) :
    (r.enqueue c mad timeoutMs jiffies).flushes m = r.flushes m := by
  unfold flushes
  rcases r.enqueue_log (c := c) mad timeoutMs jiffies with hlog | hlog
  · rw [hlog]
  · rw [hlog, count_cons_of_ne (by simp)]

theorem Unflushed.enqueue (h : r.Unflushed m n) (mad timeoutMs jiffies : Nat) :
    (r.enqueue c mad timeoutMs jiffies).Unflushed m n :=
  ⟨(enqueue_canceled mad timeoutMs jiffies).trans h.1,
    (enqueue_flushes mad timeoutMs jiffies).trans h.2⟩

theorem Unflushed.setTf (h : r.Unflushed m n) {tf : ToFifo} (hmads : tf.mads = r.tf.mads) :
    (r.setTf tf).Unflushed m n := by
  refine ⟨?_, h.2⟩
  show (tf.mads m).canceled = false
  rw [hmads]
  exact h.1

theorem Unflushed.dequeue (h : r.Unflushed m n) (jiffies : Nat) (beyond : Bool) :
    (r.dequeue c jiffies beyond).Unflushed m n := by
  rcases r.tf.tfDequeue_cases (c := c) jiffies beyond with
    ⟨tmp, -, heq⟩ | ⟨-, -, heq⟩ | ⟨-, -, tf', hmads, -, -, heq⟩
  · rw [FifoRun.dequeue, heq]
    exact h.leave h.1 (by simp)
  · rw [FifoRun.dequeue, heq]
    exact h
  · rw [FifoRun.dequeue, heq]
    exact h.setTf hmads

theorem Unflushed.modify (h : r.Unflushed m n) {sendBuf : Nat} (hm : sendBuf ≠ m)
    (agent timeoutMs jiffies : Nat) :
    (r.setTf (r.tf.tfModifyItem c agent sendBuf timeoutMs jiffies).2).Unflushed m n := by
  refine ⟨?_, h.2⟩
  show (r.tf.tfModifyItem c agent sendBuf timeoutMs jiffies).2.canceled m = false
  by_cases hq : sendBuf ∈ r.tf.fifoHead ∧ r.tf.madAgentPriv sendBuf = agent
  · obtain ⟨-, -, hflags⟩ :=
      ToFifo.tfModifyItem_of_queued (c := c) hq.1 hq.2 timeoutMs jiffies
    rw [hflags m, h.1]
    simp [Ne.symm hm]
  · rw [ToFifo.tfModifyItem_of_not hq]
    exact h.1

theorem Unflushed.freeAgent (h : r.Unflushed m n) {agent : Nat}
    (hm : ¬(m ∈ r.tf.fifoHead ∧ r.tf.madAgentPriv m = agent)) :
    (r.freeAgent agent).Unflushed m n := by
  apply h.leave h.1
  intro hmem
  obtain ⟨tmp, htmp, heq⟩ := mem_map.mp hmem
  have hsame : tmp = m := congrArg Prod.fst heq
  rw [ToFifo.tfFreeAgent, mem_filter, hsame] at htmp
  exact hm ⟨htmp.1, of_decide_eq_true htmp.2⟩

theorem Unflushed.expire (h : r.Unflushed m n) (jiffies : Nat) :
    (r.expire jiffies).Unflushed m n := by
  apply h.leave
  · show (r.tf.canceled m && _) = false
    rw [h.1, Bool.false_and]
  · intro hmem
    obtain ⟨tmp, -, heq⟩ := mem_map.mp hmem
    have hsame : tmp = m := congrArg Prod.fst heq
    have hflush : r.tf.report tmp = .flush := congrArg Prod.snd heq
    rw [hsame, ToFifo.report, h.1] at hflush
    cases hflush

end FifoRun

namespace SaRun

variable (c : Clock) (s : SaRun)

/-- Steps that change what becomes of `m`: it is modified again, or its agent goes away. -/
def Touches (m : Nat) : SaOp → Prop
  | .modify _ _ sendBuf _ _ => sendBuf = m
  | .freeAgent agent => m ∈ s.tf.fifoHead ∧ s.tf.madAgentPriv m = agent
  | _ => False

instance (m : Nat) : ∀ op, Decidable (s.Touches m op)
  | .modify _ _ _ _ _ => inferInstanceAs (Decidable (_ = _))
  | .freeAgent _ => inferInstanceAs (Decidable (_ ∧ _))
  | .create _ _ _ _ | .queueSize _ | .timeSaMad _ | .send _ _ | .posted _ _ | .complete _
  | .done _ _ | .expire _ => .isFalse id

/-- `ib_modify_mad` succeeds and leaves `canceled` clear, and until the MAD is modified again or
its agent goes away it is never reported with `IB_WC_WR_FLUSH_ERR`. -/
def ModifyKeeps (onLists : Option Ret) (agent sendBuf timeoutMs jiffies : Nat) : Prop :=
  let r := s.ibModifyMad c onLists agent sendBuf timeoutMs jiffies
  r.1 = .ok ∧ r.2.tf.canceled sendBuf = false ∧
    ∀ later, Run.Steps (SaRun.step c) (fun s op => ¬s.Touches sendBuf op) r.2 later →
      (Run.final (SaRun.step c) r.2 later).fifo.flushes sendBuf = r.2.fifo.flushes sendBuf

variable {c s} {m n : Nat}

theorem unflushed_step (h : s.fifo.Unflushed m n) (op : SaOp) (hop : ¬s.Touches m op) :
    (s.step c op).fifo.Unflushed m n := by
  unfold SaRun.step
  split
  · exact h
  cases op with
  | create mad agent timeoutMs retriesLeft => exact h.create mad agent timeoutMs retriesLeft
  | queueSize var =>
    show ({ s.fifo with cc := (s.cc.queueSizeStore var).2 } : FifoRun).Unflushed m n
    unfold SaCc.queueSizeStore
    split <;> exact h
  | timeSaMad var =>
    show ({ s.fifo with cc := (s.cc.timeSaMadStore var).2 } : FifoRun).Unflushed m n
    unfold SaCc.timeSaMadStore
    split <;> exact h
  | send mad jiffies =>
    show (s.saCcMadSend c mad jiffies).fifo.Unflushed m n
    unfold saCcMadSend
    split
    · exact h
    · exact h.enqueue mad _ jiffies
  | posted i sent =>
    show (s.sendSaCcMad i sent).fifo.Unflushed m n
    unfold sendSaCcMad
    split
    · exact h
    · cases sent <;> exact h
  | complete mad => exact h
  | done jiffies beyond =>
    have hdequeue := h.dequeue (c := c) jiffies beyond
    show (s.saCcMadDone c jiffies beyond).fifo.Unflushed m n
    unfold saCcMadDone
    split <;> exact hdequeue
  | modify onLists agent sendBuf timeoutMs jiffies =>
    cases onLists with
    | some ret => exact h
    | none => exact h.modify hop agent _ jiffies
  | freeAgent agent => exact h.freeAgent hop
  | expire jiffies => exact h.expire jiffies

/-! ## A queued MAD is nowhere else -/

theorem tfModifyItem_fifo_perm (tf : ToFifo) (agent sendBuf timeoutMs jiffies : Nat) :
    (tf.tfModifyItem c agent sendBuf timeoutMs jiffies).2.fifoHead.Perm tf.fifoHead := by
  by_cases hq : sendBuf ∈ tf.fifoHead ∧ tf.madAgentPriv sendBuf = agent
  · exact (ToFifo.tfModifyItem_of_queued hq.1 hq.2 timeoutMs jiffies).2.1
  · rw [ToFifo.tfModifyItem_of_not hq]

theorem owned_shrink (h : s.owned.Nodup) {fifo : List Nat} (hsub : fifo.Sublist s.tf.fifoHead) :
    (fifo ++ s.sending.map Post.mad ++ s.inFlight).Nodup :=
  h.sublist ((hsub.append_right _).append_right _)

theorem owned_send (h : s.owned.Nodup) {mad : Nat} (hmad : mad ∉ s.owned) (jiffies : Nat) :
    (s.saCcMadSend c mad jiffies).owned.Nodup := by
  have hnew : (mad :: s.owned).Nodup := nodup_cons.mpr ⟨hmad, h⟩
  unfold saCcMadSend
  by_cases hslot : s.cc.outstanding < s.cc.maxOutstanding
  · rw [if_pos hslot]
    have hperm : (s.tf.fifoHead ++ mad :: s.sending.map Post.mad ++ s.inFlight).Perm
        (mad :: s.owned) := perm_middle.append_right s.inFlight
    exact hperm.nodup_iff.mpr hnew
  rw [if_neg hslot]
  by_cases hfull : s.cc.queueSize ≤ s.cc.tf.numItems ∨ s.cc.tf.stopEnqueue
  · rw [FifoRun.enqueue, SaCc.tfEnqueue_full hfull]
    exact owned_shrink h (.refl _)
  · rw [FifoRun.enqueue, SaCc.tfEnqueue_room hfull]
    have hfront := perm_append_singleton mad s.tf.fifoHead
    have hperm : (s.tf.fifoHead ++ [mad] ++ s.sending.map Post.mad ++ s.inFlight).Perm
        (mad :: s.owned) := (hfront.append_right _).append_right _
    exact hperm.nodup_iff.mpr hnew

theorem owned_posted (h : s.owned.Nodup) {i : Nat} (hi : i < s.sending.length) (sent : Bool) :
    (s.sendSaCcMad i sent).owned.Nodup := by
  unfold sendSaCcMad
  rw [List.getElem?_eq_getElem hi]
  set post := s.sending[i] with hpost
  cases sent with
  | true =>
    -- the MAD moves from the thread to the lists of its agent
    have hmoved : ((s.sending.eraseIdx i).map Post.mad ++ post.mad :: s.inFlight).Perm
        (s.sending.map Post.mad ++ s.inFlight) :=
      perm_middle.trans (((getElem_cons_eraseIdx_perm hi).map Post.mad).append_right s.inFlight)
    have hperm : (s.tf.fifoHead ++ (s.sending.eraseIdx i).map Post.mad ++
        post.mad :: s.inFlight).Perm s.owned := by
      rw [owned, append_assoc, append_assoc]
      exact hmoved.append_left s.tf.fifoHead
    exact hperm.nodup_iff.mpr h
  | false =>
    have hsub := (eraseIdx_sublist s.sending i).map Post.mad
    exact h.sublist ((hsub.append_left _).append_right _)

theorem owned_done (h : s.owned.Nodup) (jiffies : Nat) (beyond : Bool) :
    (s.saCcMadDone c jiffies beyond).owned.Nodup := by
  unfold saCcMadDone
  rcases s.tf.tfDequeue_cases (c := c) jiffies beyond with
    ⟨tmp, hfind, heq⟩ | ⟨-, -, heq⟩ | ⟨-, -, tf', -, hsame, -, heq⟩
  · have hfifo : (s.fifo.dequeue c jiffies beyond).tf.fifoHead = s.tf.fifoHead.erase tmp := by
      rw [FifoRun.dequeue, heq]
      rfl
    -- the MAD moves from the FIFO to the thread
    have hperm : (s.tf.fifoHead.erase tmp ++ tmp :: s.sending.map Post.mad).Perm
        (s.tf.fifoHead ++ s.sending.map Post.mad) := by
      have hmem := mem_of_find?_eq_some hfind
      exact perm_middle.trans ((perm_cons_erase hmem).symm.append_right _)
    simp only [heq]
    show ((s.fifo.dequeue c jiffies beyond).tf.fifoHead ++
      (_ :: s.sending).map Post.mad ++ s.inFlight).Nodup
    rw [hfifo, map_cons, dequeuedPost_mad]
    exact (hperm.append_right s.inFlight).nodup_iff.mpr h
  · have hfifo : (s.fifo.dequeue c jiffies beyond).tf.fifoHead = s.tf.fifoHead := by
      rw [FifoRun.dequeue, heq]
      rfl
    simp only [heq]
    show ((s.fifo.dequeue c jiffies beyond).tf.fifoHead ++
      s.sending.map Post.mad ++ s.inFlight).Nodup
    rw [hfifo]
    exact h
  · have hfifo : (s.fifo.dequeue c jiffies beyond).tf.fifoHead = s.tf.fifoHead := by
      rw [FifoRun.dequeue, heq]
      exact hsame
    simp only [heq]
    show ((s.fifo.dequeue c jiffies beyond).tf.fifoHead ++
      s.sending.map Post.mad ++ s.inFlight).Nodup
    rw [hfifo]
    exact h

/-- The congestion control has every MAD in one place. -/
theorem owned_step (h : s.owned.Nodup) (op : SaOp) (hv : s.Valid op) :
    (s.step c op).owned.Nodup := by
  unfold SaRun.step
  split
  · exact h
  cases op with
  | create mad agent timeoutMs retriesLeft => exact owned_shrink h (.refl _)
  | queueSize var =>
    show ({ s with fifo := { s.fifo with cc := (s.cc.queueSizeStore var).2 } } : SaRun).owned.Nodup
    unfold SaCc.queueSizeStore
    split <;> exact owned_shrink h (.refl _)
  | timeSaMad var =>
    show ({ s with fifo := { s.fifo with cc := (s.cc.timeSaMadStore var).2 } } : SaRun).owned.Nodup
    unfold SaCc.timeSaMadStore
    split <;> exact owned_shrink h (.refl _)
  | send mad jiffies => exact owned_send h hv jiffies
  | posted i sent => exact owned_posted h hv sent
  | complete mad => exact h.sublist (List.Sublist.append_left erase_sublist _)
  | done jiffies beyond => exact owned_done h jiffies beyond
  | modify onLists agent sendBuf timeoutMs jiffies =>
    cases onLists with
    | some ret => exact h
    | none =>
      have hperm := tfModifyItem_fifo_perm (c := c) s.tf agent sendBuf (s.modifyQtime timeoutMs)
        jiffies
      have hall := (hperm.append_right (s.sending.map Post.mad)).append_right s.inFlight
      exact hall.nodup_iff.mpr h
  | freeAgent agent => exact owned_shrink h filter_sublist
  | expire jiffies => exact owned_shrink h filter_sublist

theorem owned_every_run (c : Clock) (mads : Nat → SaMad) (maxOutstanding : Nat) {ops : List SaOp}
    (hv : Run.Steps (SaRun.step c) Valid (init mads maxOutstanding) ops) :
    ∀ t ∈ Run.states (SaRun.step c) (init mads maxOutstanding) ops, t.owned.Nodup :=
  Run.Steps.invariant (fun _ op hs hop => owned_step hs op hop)
    (by simp [owned, init, saCcInit, ToFifo.tfCreate]) hv

theorem modifyQtime_of_lt {timeoutMs : Nat} (hlt : s.cc.timeSaMad < timeoutMs)
    (hbound : timeoutMs < 2 ^ 32) : s.modifyQtime timeoutMs = timeoutMs - s.cc.timeSaMad := by
  unfold modifyQtime I32.wrap
  simp only [if_pos hlt]
  omega

theorem modifyQtime_of_le {timeoutMs : Nat} (hle : timeoutMs ≤ s.cc.timeSaMad) :
    s.modifyQtime timeoutMs = 0 := by
  unfold modifyQtime
  rw [if_neg (Nat.not_lt.mpr hle)]
  rfl

/-- A new timeout keeps a queued MAD from being canceled exactly when it is longer than
`time_sa_mad` and the MAD was not canceled before. -/
theorem modify_keeps_iff (c : Clock) (mads : Nat → SaMad) (maxOutstanding : Nat) {ops : List SaOp}
    (hv : Run.Steps (SaRun.step c) Valid (init mads maxOutstanding) ops) {t : SaRun}
    (ht : t ∈ Run.states (SaRun.step c) (init mads maxOutstanding) ops) {sendBuf : Nat}
    (hq : sendBuf ∈ t.tf.fifoHead) (onLists : Option Ret) {timeoutMs : Nat} (jiffies : Nat)
    (hcall : t.Valid
      (.modify onLists (t.tf.madAgentPriv sendBuf) sendBuf timeoutMs jiffies))
    (hbound : timeoutMs < 2 ^ 32) :
    t.ModifyKeeps c onLists (t.tf.madAgentPriv sendBuf) sendBuf timeoutMs jiffies ↔
      t.cc.timeSaMad < timeoutMs ∧ t.tf.canceled sendBuf = false := by
  -- the lists of the agent do not have a queued MAD
  have hnone : onLists = none := by
    by_contra hsome
    have howned := owned_every_run c mads maxOutstanding hv t ht
    rw [owned, append_assoc] at howned
    exact disjoint_of_nodup_append howned hq (hcall hsome)
  subst hnone
  obtain ⟨hret, -, hflags⟩ := ToFifo.tfModifyItem_of_queued (c := c) hq rfl
    (t.modifyQtime timeoutMs) jiffies
  have hflag := hflags sendBuf
  constructor
  · rintro ⟨-, hclear, -⟩
    have hor := hflag.symm.trans hclear
    obtain ⟨hold, hzero⟩ := Bool.or_eq_false_iff.mp hor
    refine ⟨?_, hold⟩
    by_contra hle
    simp [modifyQtime_of_le (Nat.not_lt.mp hle)] at hzero
  · rintro ⟨hlt, hold⟩
    have hq := modifyQtime_of_lt hlt hbound
    have hclear : (t.ibModifyMad c none (t.tf.madAgentPriv sendBuf) sendBuf timeoutMs
        jiffies).2.tf.canceled sendBuf = false := by
      refine hflag.trans ?_
      rw [hold, hq]
      simp
      omega
    refine ⟨?_, hclear, fun later hlater => ?_⟩
    · exact if_pos hret
    · set t' := (t.ibModifyMad c none (t.tf.madAgentPriv sendBuf) sendBuf timeoutMs jiffies).2
      have hstep : ∀ (s : SaRun) op, s.fifo.Unflushed sendBuf (t'.fifo.flushes sendBuf) →
          ¬s.Touches sendBuf op →
          (s.step c op).fifo.Unflushed sendBuf (t'.fifo.flushes sendBuf) :=
        fun s op hs hop => unflushed_step hs op hop
      exact (Run.Steps.invariant hstep ⟨hclear, rfl⟩ hlater _ (Run.final_mem_states _ _)).2

/-- With the default `time_sa_mad` of 20 ms, a timeout of 21 ms keeps a queued MAD. -/
theorem modify_keeps_21ms :
    ∃ t : SaRun, t.cc.timeSaMad = 20 ∧ t.ModifyKeeps FifoRun.exampleClock none 7 2 21 1 := by
  let ops : List SaOp :=
    [.create 1 7 100 0, .create 2 7 100 0, .send 1 0, .posted 0 true, .send 2 0]
  have hv : Run.Steps (SaRun.step FifoRun.exampleClock) Valid (init FifoRun.noMads 1) ops := by
    decide +kernel
  refine ⟨Run.final (SaRun.step FifoRun.exampleClock) (init FifoRun.noMads 1) ops, rfl, ?_⟩
  have hiff := modify_keeps_iff FifoRun.exampleClock FifoRun.noMads 1 hv
    (Run.final_mem_states _ _) (show 2 ∈ _ from by decide +kernel) none 1
    (fun h => absurd rfl h) (show 21 < 2 ^ 32 by decide)
  exact hiff.mpr (by decide +kernel)

/-- A timeout of 20 ms, which is not 0, cancels it. -/
theorem modify_20ms_cancels :
    Run.Steps (SaRun.step FifoRun.exampleClock) Valid (init FifoRun.noMads 1)
        [.create 1 7 100 0, .create 2 7 100 0, .send 1 0, .posted 0 true, .send 2 0] ∧
      ¬(Run.final (SaRun.step FifoRun.exampleClock) (init FifoRun.noMads 1)
        [.create 1 7 100 0, .create 2 7 100 0, .send 1 0, .posted 0 true, .send 2 0]).ModifyKeeps
          FifoRun.exampleClock none 7 2 20 1 := by
  refine ⟨by decide +kernel, fun h => ?_⟩
  have hclear := h.2.1
  revert hclear
  decide +kernel

end SaRun

end Mad
