-- SUMMARY: The window of unacknowledged PSNs of an rxe RC requester.
import OfaKernel.Rxe.Completer
import OfaKernel.Lib.Run

/-!
# The window of unacknowledged PSNs

The requester stops when more than `RXE_MAX_UNACKED_PSNS` PSNs are unacknowledged. It compares
PSNs as plain numbers, where the rest of the driver uses `psn_compare`; `NoWrap` says when the
two agree.
-/

namespace Rxe

/-! ## The completer returns -/

/-- How many states are at most left before the completer stops or completes an element. -/
def CompState.rank : CompState → Nat
  | .done | .error => 0
  | .errorRetry | .rnrRetry | .updateComp => 1
  | .exit | .compAck => 2
  | .compWqe | .read | .atomic | .writeSend => 3
  | .checkAck => 4
  | .checkPsn => 5
  | .getWqe => 6
  | .getAck => 7

/-- What every turn of the completer's loop takes from. -/
def compMeasure (qp : RxeQp) (state : CompState) : Nat := 4 * qp.sq.length + state.rank

variable {qp : RxeQp} {ws : List SendWqe}

theorem length_setHead {w w' : SendWqe} (h : qp.sq = w :: ws) :
    (qp.setHead w').sq.length = qp.sq.length := by
  simp [RxeQp.setHead, h]

theorem sq_doCompleteSend (qp : RxeQp) (w : SendWqe) :
    (doCompleteSend qp w).sq = qp.sq.tail := by
  unfold doCompleteSend RxeQp.advanceSq RxeQp.emit
  dsimp only
  split <;> rfl

theorem getWqe_rank (qp : RxeQp) (pkt : Option RespPkt) : (getWqe qp pkt).rank ≤ 5 := by
  unfold getWqe
  repeat' split
  all_goals decide

theorem compCheckPsn_measure (qp : RxeQp) (pkt : RespPkt) (w : SendWqe) :
    (compCheckPsn qp pkt w).1.sq = qp.sq ∧ (compCheckPsn qp pkt w).2.rank ≤ 4 := by
  unfold compCheckPsn
  dsimp only
  repeat' split
  all_goals exact ⟨rfl, by simp [CompState.rank]⟩

variable {w : SendWqe}

theorem checkNak_measure (pkt : RespPkt) (h : qp.sq = w :: ws) :
    (checkNak qp pkt w).1.sq.length = qp.sq.length ∧ (checkNak qp pkt w).2.rank ≤ 3 := by
  unfold checkNak
  repeat' split
  all_goals refine ⟨?_, by simp [CompState.rank]⟩
  all_goals first | rfl | exact length_setHead h

theorem checkAck_measure (pkt : RespPkt) (h : qp.sq = w :: ws) :
    (checkAck qp pkt w).1.sq.length = qp.sq.length ∧ (checkAck qp pkt w).2.rank ≤ 3 := by
  unfold checkAck
  repeat' split
  all_goals first
    | exact checkNak_measure pkt h
    | refine ⟨?_, by simp [CompState.rank]⟩
  all_goals first | rfl | exact length_setHead h

theorem doRead_measure (lookupLocal : Bool) (pkt : RespPkt) (h : qp.sq = w :: ws) :
    (doRead lookupLocal qp pkt w).1.sq.length = qp.sq.length ∧
      (doRead lookupLocal qp pkt w).2.rank ≤ 2 := by
  unfold doRead
  split
  · exact ⟨rfl, by simp [CompState.rank]⟩
  · refine ⟨length_setHead h, ?_⟩
    dsimp only
    split <;> decide

theorem doAtomic_measure (lookupLocal : Bool) (pkt : RespPkt) (h : qp.sq = w :: ws) :
    (doAtomic lookupLocal qp pkt w).1.sq.length = qp.sq.length ∧
      (doAtomic lookupLocal qp pkt w).2.rank ≤ 2 := by
  unfold doAtomic
  split
  · exact ⟨rfl, by simp [CompState.rank]⟩
  · exact ⟨length_setHead h, by simp [CompState.rank]⟩

theorem rank_updateComp_or_done (c : Prop) [Decidable c] :
    (if c then CompState.updateComp else CompState.done).rank ≤ 1 := by
  split <;> decide

theorem completeAck_measure (qp : RxeQp) (pkt : RespPkt) (w : SendWqe) :
    (completeAck qp pkt w).1.sq.length ≤ qp.sq.length ∧
      (completeAck qp pkt w).2.rank ≤ 1 := by
  unfold completeAck
  rw [sq_doCompleteSend]
  refine ⟨?_, rank_updateComp_or_done _⟩
  simp only [RxeQp.setHead, List.tail_cons, List.length_tail]
  repeat' split
  all_goals exact Nat.sub_le _ _

theorem completeWqe_measure (pkt : Option RespPkt) (h : qp.sq = w :: ws) :
    (completeWqe qp pkt w).1.sq.length + 1 = qp.sq.length ∧
      (completeWqe qp pkt w).2.rank = 6 := by
  refine ⟨?_, rfl⟩
  unfold completeWqe
  rw [sq_doCompleteSend]
  repeat' split
  all_goals simp [h]

variable {qp' : RxeQp}

theorem withAck_measure {pkt pkt' : Option RespPkt} {state' : CompState}
    {f : RespPkt → SendWqe → RxeQp × CompState} {n : Nat} (hf : ∀ p w ws, qp.sq = w :: ws →
      (f p w).1.sq.length ≤ qp.sq.length ∧ (f p w).2.rank ≤ n)
    (h : withAck qp pkt f = .next qp' pkt' state') :
    qp'.sq.length ≤ qp.sq.length ∧ state'.rank ≤ n := by
  unfold withAck at h
  split at h
  case h_1 hsq =>
    injection h with hqp _ hstate
    subst hqp hstate
    exact hf _ _ _ hsq
  case h_2 => cases h

/-- Every turn of the loop comes nearer to its end. -/
theorem compStep_measure {lookupLocal : Bool} {pkt pkt' : Option RespPkt} {state state' : CompState}
    (h : compStep lookupLocal qp pkt state = .next qp' pkt' state') :
    compMeasure qp' state' < compMeasure qp state := by
  -- a state that works on the element at the head
  have hack : ∀ {f : RespPkt → SendWqe → RxeQp × CompState} {n : Nat},
      (∀ p w ws, qp.sq = w :: ws →
        (f p w).1.sq.length ≤ qp.sq.length ∧ (f p w).2.rank ≤ n) →
      withAck qp pkt f = .next qp' pkt' state' → n < state.rank →
      compMeasure qp' state' < compMeasure qp state := by
    intro f n hf hw hn
    have := withAck_measure hf hw
    unfold compMeasure
    omega
  cases state with
  | getAck =>
    unfold compStep at h
    dsimp only at h
    split at h <;> cases h <;> simp [compMeasure, CompState.rank]
  | getWqe =>
    injection h with hqp _ hstate
    subst hqp hstate
    have := getWqe_rank qp pkt
    simp only [compMeasure, CompState.rank] at *
    omega
  | checkPsn =>
    refine hack (n := 4) (fun p w ws hsq => ?_) h (by decide)
    exact ⟨(congrArg _ (compCheckPsn_measure qp p w).1).le, (compCheckPsn_measure qp p w).2⟩
  | checkAck =>
    refine hack (n := 3) (fun p w ws hsq => ?_) h (by decide)
    exact ⟨(checkAck_measure p hsq).1.le, (checkAck_measure p hsq).2⟩
  | read =>
    refine hack (n := 2) (fun p w ws hsq => ?_) h (by decide)
    exact ⟨(doRead_measure _ p hsq).1.le, (doRead_measure _ p hsq).2⟩
  | atomic =>
    refine hack (n := 2) (fun p w ws hsq => ?_) h (by decide)
    exact ⟨(doAtomic_measure _ p hsq).1.le, (doAtomic_measure _ p hsq).2⟩
  | writeSend =>
    refine hack (n := 2) (fun p w ws hsq => ⟨Nat.le_refl _, ?_⟩) h (by decide)
    dsimp only
    split <;> decide
  | compAck =>
    exact hack (n := 1) (fun p w ws hsq => completeAck_measure qp p w) h (by decide)
  | compWqe =>
    unfold compStep at h
    dsimp only at h
    split at h
    case h_1 => cases h
    case h_2 w ws hsq =>
      injection h with hqp _ hstate
      subst hqp hstate
      have := completeWqe_measure pkt hsq
      simp only [compMeasure, CompState.rank] at *
      omega
  | updateComp =>
    unfold compStep at h
    dsimp only at h
    split at h
    case h_1 => cases h
    case h_2 =>
      injection h with hqp _ hstate
      subst hqp hstate
      simp [compMeasure, CompState.rank, updateComp]
  | done => cases h
  | exit =>
    unfold compStep at h
    dsimp only at h
    split at h <;> cases h
    simp [compMeasure, CompState.rank]
  | errorRetry =>
    unfold compStep at h
    dsimp only at h
    repeat' split at h
    all_goals cases h
    rename_i hsq _ _ _
    simp [compMeasure, CompState.rank, length_setHead hsq]
  | rnrRetry =>
    unfold compStep at h
    dsimp only at h
    repeat' split at h
    all_goals cases h
    rename_i hsq _
    simp [compMeasure, CompState.rank, length_setHead hsq]
  | error =>
    unfold compStep at h
    dsimp only at h
    split at h <;> cases h

theorem compLoop_isSome {lookupLocal : Bool} {fuel : Nat} {pkt : Option RespPkt} {state : CompState}
    (h : compMeasure qp state < fuel) :
    (compLoop lookupLocal fuel qp pkt state).isSome := by
  induction fuel generalizing qp pkt state with
  | zero => exact absurd h (Nat.not_lt_zero _)
  | succ fuel ih =>
    unfold compLoop
    cases hstep : compStep lookupLocal qp pkt state with
    | stop qp' => rfl
    | next qp' pkt' state' =>
      have := compStep_measure hstep
      exact ih (by omega)

theorem rxeCompleter_isSome (lookupLocal : Bool) (qp : RxeQp) :
    (rxeCompleter lookupLocal qp).isSome := by
  unfold rxeCompleter
  dsimp only
  repeat' split
  · rfl
  · rfl
  · apply compLoop_isSome
    simp only [compMeasure, compFuel, CompState.rank]
    omega

/-! ## Runs of requester and completer -/

/-- What happens to the sending side of a QP. -/
inductive SendAction where
  | post (wr : SendWr)
  | turn (env : ReqEnv)
  | complete (lookupLocal : Bool)
  | response (pkt : RespPkt)
  | retransmit
  | rnrNak

/-- One turn of the requester's loop, one call of the completer, or what wakes them. -/
def sendStep (qp : RxeQp) : SendAction → RxeQp
  | .post wr => rxePostSend qp wr
  | .turn env => (requesterStep env qp).1
  | .complete lookupLocal => (rxeCompleter lookupLocal qp).get (rxeCompleter_isSome _ _)
  | .response pkt => rxeCompQueuePkt qp pkt
  | .retransmit => retransmitTimer qp
  | .rnrNak => rnrNakTimer qp

/-- The QP as the turn finds it after a retry it was told to make. -/
def retried (qp : RxeQp) : RxeQp :=
  if qp.req.needRetry then
    { reqRetry qp with req := { (reqRetry qp).req with needRetry := false } }
  else qp

/-- How many PSNs are unacknowledged. -/
def RxeQp.unacked (qp : RxeQp) : Nat := (qp.req.psn - qp.comp.psn).toNat

/-- The turn hands a request packet to the network. -/
def Transmits (env : ReqEnv) (qp : RxeQp) : Prop :=
  ∃ p, (requesterStep env qp).1.log = .request p :: qp.log

def RxeQp.clearWaitPsn (qp : RxeQp) : RxeQp := { qp with req := { qp.req with waitPsn := false } }

/-- The turn sets `wait_psn`: it is set at the end even if it was clear before. -/
def Refuses (env : ReqEnv) (qp : RxeQp) : Prop :=
  (requesterStep env qp.clearWaitPsn).1.req.waitPsn = true

/-- The turn transmits only inside of the window and refuses only outside. -/
structure WindowTurn (env : ReqEnv) (qp : RxeQp) : Prop where
  transmits : Transmits env qp → (retried qp).unacked ≤ rxeMaxUnackedPsns
  refuses : Refuses env qp → rxeMaxUnackedPsns < (retried qp).unacked

def SendAction.WindowKept (qp : RxeQp) : SendAction → Prop
  | .turn env => WindowTurn env qp
  | _ => True

/-- `req.psn` is not below `comp.psn`, unless it has wrapped inside of the window. -/
def NoWrap (qp : RxeQp) : Prop :=
  qp.comp.psn.toNat ≤ qp.req.psn.toNat ∨
    qp.req.psn.toNat + 2 ^ 24 ≤ qp.comp.psn.toNat + rxeMaxUnackedPsns

/-- The element that a turn would send packets of. -/
def toSend (qp : RxeQp) : Option SendWqe :=
  if qp.req.state = .error ∨ qp.req.state = .reset then none
  else (reqNextWqe (retried qp)).2.filter fun w => !w.mask.regMask

/-- When the window is kept by a turn: there is nothing to send, or the PSNs compare as
plain numbers as they compare modulo `2 ^ 24`. -/
def SendAction.NoWrap (qp : RxeQp) : SendAction → Prop
  | .turn _ => (toSend qp).isSome → Rxe.NoWrap (retried qp)
  | _ => True

/-! ## One turn -/

/-- The test of `rxe_requester`. -/
def psnFull (qp : RxeQp) : Prop := qp.req.psn.toNat > qp.comp.psn.toNat + rxeMaxUnackedPsns

theorem unacked_eq (qp : RxeQp) :
    qp.unacked = (qp.req.psn.toNat + 2 ^ 24 - qp.comp.psn.toNat) % 2 ^ 24 := by
  unfold RxeQp.unacked
  rw [BitVec.toNat_sub]
  omega

theorem psnFull.outside (h : psnFull qp) : rxeMaxUnackedPsns < qp.unacked := by
  rw [unacked_eq]
  unfold psnFull rxeMaxUnackedPsns at *
  omega

/-- Where the test lets a packet pass, it is inside of the window just if no wrap counts. -/
theorem inside_iff (h : ¬psnFull qp) :
    qp.unacked ≤ rxeMaxUnackedPsns ↔ NoWrap qp := by
  rw [unacked_eq]
  unfold psnFull NoWrap rxeMaxUnackedPsns at *
  omega

variable {env : ReqEnv}

theorem requesterStep_eq (herr : qp.req.state ≠ .error) (hreset : qp.req.state ≠ .reset) :
    requesterStep env qp =
      match (reqNextWqe (retried qp)).2 with
      | none => ((reqNextWqe (retried qp)).1, false)
      | some w =>
        if w.mask.regMask then localWork (reqNextWqe (retried qp)).1 w
        else sendWqe env (reqNextWqe (retried qp)).1 w := by
  unfold requesterStep
  rw [if_neg herr, if_neg hreset]
  rfl

/-- No packet goes out and `wait_psn` stays. -/
structure Quiet (qp qp' : RxeQp) : Prop where
  log : ∀ p, qp'.log ≠ .request p :: qp.log
  waitPsn : qp'.req.waitPsn = qp.req.waitPsn

theorem Quiet.of_eq (hlog : qp'.log = qp.log) (hwait : qp'.req.waitPsn = qp.req.waitPsn) :
    Quiet qp qp' := by
  refine ⟨fun p => ?_, hwait⟩
  rw [hlog]
  exact List.ne_cons_self

theorem retried_log (qp : RxeQp) : (retried qp).log = qp.log := by
  unfold retried
  split <;> rfl

theorem retried_waitPsn (qp : RxeQp) : (retried qp).req.waitPsn = qp.req.waitPsn := by
  unfold retried
  split <;> rfl

theorem retried_clearWaitPsn (qp : RxeQp) :
    retried qp.clearWaitPsn = (retried qp).clearWaitPsn := by
  unfold retried RxeQp.clearWaitPsn
  split <;> rfl

theorem setWqe_log (qp : RxeQp) (i : Int) (w : SendWqe) : (qp.setWqe i w).log = qp.log := by
  unfold RxeQp.setWqe
  repeat' split
  all_goals rfl

theorem setWqe_req (qp : RxeQp) (i : Int) (w : SendWqe) : (qp.setWqe i w).req = qp.req := by
  unfold RxeQp.setWqe
  repeat' split
  all_goals rfl

theorem checkDrained_frame (qp : RxeQp) :
    (checkDrained qp).log = qp.log ∧ (checkDrained qp).comp = qp.comp ∧
      (checkDrained qp).req.psn = qp.req.psn ∧
      (checkDrained qp).req.waitPsn = qp.req.waitPsn := by
  unfold checkDrained
  repeat' split
  all_goals exact ⟨rfl, rfl, rfl, rfl⟩

theorem reqNextWqe_quiet (qp : RxeQp) : Quiet qp (reqNextWqe qp).1 := by
  obtain ⟨hlog, -, -, hwait⟩ := checkDrained_frame qp
  unfold reqNextWqe
  dsimp only
  split
  · exact .of_eq hlog hwait
  split
  · exact ⟨fun p hp => (by cases hp), hwait⟩
  split
  · exact .of_eq hlog hwait
  split
  all_goals exact .of_eq hlog hwait

/-- The turn has an element: the PSNs and the log are as they were. -/
theorem reqNextWqe_some (h : (reqNextWqe qp).2 = some w) :
    (reqNextWqe qp).1 = checkDrained qp := by
  unfold reqNextWqe at h ⊢
  dsimp only at h ⊢
  split at h
  case isTrue => cases h
  case isFalse hprod =>
    rw [if_neg hprod]
    split at h
    case h_1 => cases h
    case h_2 =>
      split at h
      case isTrue => cases h
      case isFalse hdrain =>
        rw [if_neg hdrain]
        split at h
        case isTrue => cases h
        case isFalse hfence => rw [if_neg hfence]

theorem localWork_quiet (qp : RxeQp) (w : SendWqe) : Quiet qp (localWork qp w).1 := by
  unfold localWork
  dsimp only
  split
  · exact .of_eq (setWqe_log _ _ _) (congrArg ReqInfo.waitPsn (setWqe_req _ _ _))
  · refine .of_eq (setWqe_log _ _ _) ?_
    rw [setWqe_req]

theorem checkInitDepth_waitPsn (qp : RxeQp) (w : SendWqe) :
    (checkInitDepth qp w).1.req.waitPsn = qp.req.waitPsn := by
  unfold checkInitDepth
  repeat' split
  all_goals rfl

theorem updateState_waitPsn (qp : RxeQp) (op : Op) :
    (updateState qp op).req.waitPsn = qp.req.waitPsn := rfl

theorem requestSent_waitPsn (qp : RxeQp) (w : SendWqe) (op : Op) (payload : Nat)
    (pkt : ReqPkt) : (requestSent qp w op payload pkt).req.waitPsn = qp.req.waitPsn := by
  unfold requestSent
  rw [updateState_waitPsn]
  split <;> simp only [RxeQp.emit, setWqe_req]

theorem failWqe_waitPsn (qp : RxeQp) (w : SendWqe) :
    (failWqe qp w).req.waitPsn = qp.req.waitPsn :=
  congrArg ReqInfo.waitPsn (setWqe_req _ _ _)

theorem sendRequest_waitPsn (env : ReqEnv) (qp : RxeQp) (w : SendWqe) (op : Op) :
    (sendRequest env qp w op).1.req.waitPsn = qp.req.waitPsn := by
  unfold sendRequest
  split
  · exact failWqe_waitPsn _ _
  split
  · exact failWqe_waitPsn _ _
  split
  · exact requestSent_waitPsn _ _ _ _ _
  · rw [setWqe_req]
  · exact failWqe_waitPsn _ _

theorem sendWqe_full (env : ReqEnv) (w : SendWqe) (h : psnFull qp) :
    (sendWqe env qp w).1.log = qp.log := by
  unfold psnFull at h
  unfold sendWqe
  rw [if_pos h]

theorem sendWqe_waitPsn (h : ¬psnFull qp) :
    (sendWqe env qp w).1.req.waitPsn = qp.req.waitPsn := by
  unfold psnFull at h
  unfold sendWqe
  rw [if_neg h]
  split
  · rfl
  split
  · exact congrArg ReqInfo.waitPsn (setWqe_req _ _ _)
  split
  · dsimp only
    split
    · rw [sendRequest_waitPsn, setWqe_req, checkInitDepth_waitPsn]
    · exact checkInitDepth_waitPsn _ _
  · exact sendRequest_waitPsn _ _ _ _

/-- A turn is quiet unless it has an element to send packets of. -/
theorem turn_cases (env : ReqEnv) (qp : RxeQp) :
    ((∀ p, (requesterStep env qp).1.log ≠ .request p :: qp.log) ∧
      ((requesterStep env qp).1.req.waitPsn = true → qp.req.waitPsn = true)) ∨
    ∃ w, (toSend qp) = some w ∧
      requesterStep env qp = sendWqe env (checkDrained (retried qp)) w := by
  by_cases herr : qp.req.state = .error
  · all_goals unfold requesterStep at *; simp_all [List.ne_cons_self]
  by_cases hreset : qp.req.state = .reset
  · all_goals unfold requesterStep at *; simp_all [requesterReset, List.ne_cons_self]
  rw [requesterStep_eq herr hreset]
  have hquiet : ∀ {qp'}, Quiet (retried qp) qp' →
      (∀ p, qp'.log ≠ .request p :: qp.log) ∧ (qp'.req.waitPsn = true → qp.req.waitPsn = true) := by
    intro qp' hq
    refine ⟨fun p => retried_log qp ▸ hq.log p, fun h => ?_⟩
    rw [← retried_waitPsn, ← hq.waitPsn]
    exact h
  cases hw : (reqNextWqe (retried qp)).2 with
  | none => exact .inl (hquiet (reqNextWqe_quiet _))
  | some w =>
    have hdrained := checkDrained_frame (retried qp)
    rw [reqNextWqe_some hw]
    dsimp only
    split
    case isTrue hreg =>
      have hlocal := localWork_quiet (checkDrained (retried qp)) w
      refine .inl (hquiet ⟨fun p => hdrained.1 ▸ hlocal.log p, ?_⟩)
      exact hlocal.waitPsn.trans hdrained.2.2.2
    case isFalse hreg =>
      unfold toSend
      rw [if_neg (by tauto), hw]
      simp [hreg]

theorem psnFull_checkDrained (qp : RxeQp) : psnFull (checkDrained qp) ↔ psnFull qp := by
  obtain ⟨-, hcomp, hpsn, -⟩ := checkDrained_frame qp
  unfold psnFull
  rw [hcomp, hpsn]

theorem transmits_passes (h : Transmits env qp) :
    ¬psnFull (retried qp) ∧ (toSend qp).isSome := by
  obtain ⟨p, hp⟩ := h
  obtain ⟨hquiet, -⟩ | ⟨w, hw, hstep⟩ := turn_cases env qp
  · exact absurd hp (hquiet p)
  · refine ⟨fun hfull => ?_, hw ▸ rfl⟩
    have hlog := sendWqe_full env w ((psnFull_checkDrained _).mpr hfull)
    rw [hstep, hlog, (checkDrained_frame _).1, retried_log] at hp
    exact List.ne_cons_self hp

theorem refuses_full (h : Refuses env qp) :
    psnFull (retried qp) := by
  unfold Refuses at h
  obtain ⟨-, hwait⟩ | ⟨w, -, hstep⟩ := turn_cases env qp.clearWaitPsn
  · exact absurd (hwait h) Bool.false_ne_true
  · by_contra hfull
    rw [retried_clearWaitPsn] at hstep
    have hpass : ¬psnFull (checkDrained (retried qp).clearWaitPsn) :=
      fun hf => hfull ((psnFull_checkDrained (retried qp).clearWaitPsn).mp hf)
    rw [hstep, sendWqe_waitPsn hpass, (checkDrained_frame _).2.2.2] at h
    exact Bool.false_ne_true h

theorem windowTurn_of_noWrap (h : (SendAction.turn env).NoWrap qp) : WindowTurn env qp where
  transmits ht := (inside_iff (transmits_passes ht).1).mpr (h (transmits_passes ht).2)
  refuses hr := (refuses_full hr).outside

/-- The window is kept by every turn of a run in which no PSN wraps at the wrong time; and a turn
that transmits keeps it only then. -/
theorem window_kept (qp : RxeQp) (as : List SendAction) :
    (Run.Steps sendStep (fun s a => a.NoWrap s) qp as →
      Run.Steps sendStep (fun s a => a.WindowKept s) qp as) ∧
    ∀ env s, Transmits env s → (WindowTurn env s ↔ NoWrap (retried s)) := by
  constructor
  · intro hsteps
    have hstep : ∀ (s : RxeQp) (a : SendAction), True → a.NoWrap s → a.WindowKept s := by
      intro s a _ ha
      cases a with
      | turn env => exact windowTurn_of_noWrap ha
      | post | complete | response | retransmit | rnrNak => trivial
    exact hsteps.each (fun _ _ _ _ => trivial) hstep trivial
  · intro env s ht
    have hinside := inside_iff (transmits_passes ht).1
    exact ⟨fun h => hinside.mp (h.transmits ht),
      fun h => ⟨fun _ => hinside.mpr h, fun hr => (refuses_full hr).outside⟩⟩

/-- An RC QP in RTS whose send PSN is the last one before the wrap. -/
def lastPsnQp : RxeQp where
  sqSlots := 8
  qpState := .rts
  maxRdAtomic := 1
  req := { state := .ready, psn := 0xffffff, rdAtomic := 1 }
  comp := { psn := 0xffffff }

def readThenSend : List SendAction :=
  [.post { wrId := 1, opcode := .rdmaRead, localLength := 51200 },
    .post { wrId := 2, opcode := .send }, .turn {}, .turn {}]

/-- A run without a wrap: one SEND from PSN 5. -/
theorem window_kept_one_send :
    Run.Steps sendStep (fun s a => a.WindowKept s)
      { lastPsnQp with
        req := { lastPsnQp.req with psn := 5 }, comp := { lastPsnQp.comp with psn := 5 } }
      [.post { wrId := 2, opcode := .send }, .turn {}, .complete true] := by
  apply (window_kept _ _).1
  exact ⟨trivial, fun _ => .inl (by decide), trivial, trivial⟩

/-- Across the wrap the requester sends with 200 PSNs unacknowledged. -/
theorem window_left_across_wrap :
    lastPsnQp.req.psn = lastPsnQp.comp.psn ∧
      ¬Run.Steps sendStep (fun s a => a.WindowKept s) lastPsnQp readThenSend := by
  refine ⟨rfl, fun ⟨_, _, _, h, _⟩ => ?_⟩
  have := h.transmits ⟨_, rfl⟩
  exact absurd this (by decide)

end Rxe
