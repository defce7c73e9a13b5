-- SUMMARY: Runs of the responder.
import OfaKernel.Rxe.Responder

/-!
# Runs of the responder

Every round of `rxe_responder` lowers the rank of the state, or takes something out of the queues
of an error QP, so that a run ends; `respond` is the state in which it does.
-/

namespace Rxe

/-! ## Rules for the loop -/

/-- What holds of the outcome of one round. -/
def RespStep.Holds (P : RxeQp → Option ReqPkt → RespState → Prop) (Q : RxeQp → Prop) :
    RespStep → Prop
  | .next qp pkt state => P qp pkt state
  | .stop qp => Q qp

variable {P : RxeQp → Option ReqPkt → RespState → Prop} {Q : RxeQp → Prop} {qp qp' : RxeQp}
  {pkt : Option ReqPkt} {state : RespState}

theorem respLoop_rule {env : RespEnv}
    (hstep : ∀ qp pkt state, P qp pkt state → (respStep env qp pkt state).Holds P Q) {fuel : Nat}
    (hp : P qp pkt state) (h : respLoop env fuel qp pkt state = some qp') : Q qp' := by
  induction fuel generalizing qp pkt state with
  | zero => cases h
  | succ fuel ih =>
    have hs := hstep qp pkt state hp
    simp only [respLoop] at h
    split at h
    next qp₁ heq =>
      rw [heq] at hs
      cases h
      exact hs
    next qp₁ pkt₁ state₁ heq =>
      rw [heq] at hs
      exact ih hs h

/-- How far a state is from the end of the loop. -/
def RespState.rank : RespState → Nat
  | .none | .error | .reset => 1
  | .done | .exit | .errCqOverflow => 2
  | .cleanup => 3
  | .acknowledge => 4
  | .complete => 5
  | .errMalformedWqe | .errUnsupportedOpcode | .errMisalignedAtomic | .errPsnOutOfSeq
  | .errMissingOpcodeFirst | .errMissingOpcodeLastC | .errMissingOpcodeLastD1e
  | .errTooManyRdmaAtmReq | .errRnr | .errRkeyViolation | .errLength => 6
  | .readReply => 7
  | .execute | .duplicateRequest => 8
  | .chkRkey => 9
  | .chkLength => 10
  | .chkResource => 11
  | .chkOpValid => 12
  | .chkOpSeq => 13
  | .chkPsn => 14
  | .getReq => 15

def RxeQp.toDrain (qp : RxeQp) : Nat :=
  if qp.resp.state = .error then
    qp.reqPkts.length + 7 * (qp.rq.length +
      match qp.resp.wqe with
      | .null => 0
      | .head => if qp.srq.isNone then 0 else 1
      | .srq _ => 1)
  else 0

/-! ## What the helpers can do -/

@[simp] theorem RxeQp.emit_resp (qp : RxeQp) (e : Event) : (qp.emit e).resp = qp.resp := rfl

theorem RxeQp.toDrain_congr (hstate : qp'.resp.state = qp.resp.state)
    (hwqe : qp'.resp.wqe = qp.resp.wqe) (hpkts : qp'.reqPkts = qp.reqPkts) (hrq : qp'.rq = qp.rq)
    (hsrq : qp'.srq = qp.srq) : qp'.toDrain = qp.toDrain := by
  unfold RxeQp.toDrain
  rw [hstate, hwqe, hpkts, hrq, hsrq]

@[simp] theorem RxeQp.emit_toDrain (qp : RxeQp) (e : Event) :
    (qp.emit e).toDrain = qp.toDrain := rfl

theorem xmitResponse_cases (env : RespEnv) (qp : RxeQp) (p : RespPkt) :
    (xmitResponse env qp p).1 = qp ∨ (xmitResponse env qp p).1 = qp.emit (.send p) := by
  unfold xmitResponse
  split
  · exact .inl rfl
  · split
    · exact .inr rfl
    · exact .inl rfl

theorem sendAck_cases (env : RespEnv) (qp : RxeQp) (syndrome : UInt8) (psn : Psn) :
    sendAck env qp syndrome psn = qp ∨ ∃ p, sendAck env qp syndrome psn = qp.emit (.send p) := by
  unfold sendAck
  split
  · exact .inl rfl
  · exact (xmitResponse_cases env qp _).imp id fun h => ⟨_, h⟩

@[simp] theorem RxeQp.setSlot_toDrain (qp : RxeQp) (i : Nat) (r : RespRes) :
    (qp.setSlot i r).toDrain = qp.toDrain := by
  unfold RxeQp.setSlot
  split <;> rfl

@[simp] theorem remember_toDrain (qp : RxeQp) (r : RespRes) :
    ((rxeAdvanceRespResource qp).remember r).toDrain = qp.toDrain :=
  RxeQp.toDrain_congr rfl rfl rfl rfl rfl

theorem xmitResponse_toDrain (env : RespEnv) (qp : RxeQp) (p : RespPkt) :
    (xmitResponse env qp p).1.toDrain = qp.toDrain := by
  obtain h | h := xmitResponse_cases env qp p <;> rw [h]
  rfl

theorem sendAck_toDrain (env : RespEnv) (qp : RxeQp) (syndrome : UInt8) (psn : Psn) :
    (sendAck env qp syndrome psn).toDrain = qp.toDrain := by
  obtain h | ⟨p, h⟩ := sendAck_cases env qp syndrome psn <;> rw [h]
  rfl

theorem sendAtomicAck_toDrain (env : RespEnv) (qp : RxeQp) (pkt : ReqPkt) (syndrome : UInt8) :
    (sendAtomicAck env qp pkt syndrome).toDrain = qp.toDrain := by
  unfold sendAtomicAck
  split
  · rfl
  · split
    · rfl
    · rw [xmitResponse_toDrain, remember_toDrain, RxeQp.setSlot_toDrain]

theorem setCurWqe_toDrain {w w' : RecvWqe} (h : qp.curWqe = some w) :
    (qp.setCurWqe w').toDrain = qp.toDrain := by
  unfold RxeQp.curWqe at h
  unfold RxeQp.setCurWqe
  split at h
  next => cases h
  next heq =>
    cases hrq : qp.rq with
    | nil => rw [hrq] at h; cases h
    | cons x xs => simp [RxeQp.toDrain, heq, hrq]
  next heq => simp [RxeQp.toDrain, heq]

/-- The state is left with a lower rank, and nothing is added to the queues. -/
def Lowers (qp : RxeQp) (state : RespState) (r : RxeQp × RespState) : Prop :=
  r.2.rank < state.rank ∧ r.1.toDrain ≤ qp.toDrain

theorem Lowers.mk' {state state' : RespState} (h : state'.rank < state.rank)
    (hd : qp'.toDrain ≤ qp.toDrain) : Lowers qp state (qp', state') := ⟨h, hd⟩

theorem checkPsn_lowers (qp : RxeQp) (pkt : ReqPkt) : Lowers qp .chkPsn (checkPsn qp pkt) := by
  unfold checkPsn
  dsimp only
  repeat' split
  all_goals exact .mk' (by decide) le_rfl

theorem checkOpSeq_lowers (qp : RxeQp) (pkt : ReqPkt) :
    Lowers qp .chkOpSeq (checkOpSeq qp pkt) := by
  unfold checkOpSeq
  dsimp only
  repeat' split
  all_goals exact .mk' (by decide) le_rfl

theorem checkOpValid_lowers (qp : RxeQp) (pkt : ReqPkt) :
    Lowers qp .chkOpValid (checkOpValid qp pkt) := by
  unfold checkOpValid
  repeat' split
  all_goals exact .mk' (by decide) le_rfl

theorem checkRkey_lowers (qp : RxeQp) (pkt : ReqPkt) :
    Lowers qp .chkRkey (checkRkey qp pkt) := by
  unfold checkRkey
  cases hl : latchRkey qp pkt with
  | none => exact .mk' (by decide) le_rfl
  | some r =>
    have hr : r.1.toDrain = qp.toDrain := by
      unfold latchRkey at hl
      repeat' split at hl
      all_goals cases hl
      all_goals rfl
    dsimp only
    repeat' split
    all_goals exact .mk' (by decide) (hr.le)

theorem sendDataIn_toDrain (env : RespEnv) (qp : RxeQp) (data : List UInt8) :
    (sendDataIn env qp data).1.toDrain = qp.toDrain := by
  unfold sendDataIn
  split
  · rfl
  next h =>
    repeat' split
    any_goals rfl
    exact setCurWqe_toDrain h

theorem executeData_lowers (env : RespEnv) (qp : RxeQp) (pkt : ReqPkt) :
    Lowers qp .execute (executeData env qp pkt) := by
  unfold executeData
  split
  · refine ⟨?_, (sendDataIn_toDrain env qp _).le⟩
    unfold sendDataIn
    repeat' split
    all_goals exact Nat.lt_of_sub_eq_succ rfl
  split
  · unfold writeDataIn
    split
    all_goals exact .mk' (by decide) le_rfl
  split
  · unfold processAtomic
    dsimp only
    repeat' split
    all_goals exact .mk' (by decide) le_rfl
  · exact .mk' (by decide) le_rfl

theorem execute_lowers (env : RespEnv) (qp : RxeQp) (pkt : ReqPkt) :
    Lowers qp .execute (execute env qp pkt) := by
  unfold execute
  dsimp only
  split
  · exact .mk' (by decide) le_rfl
  have hd := executeData_lowers env (qp.emit (.execute pkt)) pkt
  split
  · refine ⟨?_, hd.2⟩
    unfold executeDone
    dsimp only
    repeat' split
    all_goals decide
  · exact hd

theorem readReplyFinish_lowers (qp : RxeQp) (i : Nat) (r : RespRes) :
    Lowers qp .readReply (readReplyFinish qp i r) := by
  unfold readReplyFinish
  split
  · exact .mk' (by decide) (by rw [RxeQp.setSlot_toDrain])
  · have hslot := RxeQp.setSlot_toDrain qp i r
    refine .mk' (by decide) (le_of_eq_of_le ?_ hslot.le)
    exact RxeQp.toDrain_congr rfl rfl rfl rfl rfl

theorem readReplyRes_toDrain {pkt : ReqPkt} {i : Nat} {r : RespRes}
    (h : readReplyRes qp pkt = some (qp', i, r)) : qp'.toDrain = qp.toDrain := by
  unfold readReplyRes at h
  split at h
  · split at h
    · cases h
    · obtain ⟨_, _, heq⟩ := Option.map_eq_some_iff.mp h
      cases heq
      rfl
  · split at h
    · cases h
    · split at h
      · cases h
      next r _ =>
        cases h
        have hslot := RxeQp.setSlot_toDrain qp qp.resp.resHead (newReadRes qp r pkt)
        refine .trans ?_ hslot
        exact RxeQp.toDrain_congr rfl rfl rfl rfl rfl

theorem readReplyXmit_lowers (env : RespEnv) (qp : RxeQp) (i : Nat) (r : RespRes)
    (payload : Int) (ack : RespPkt) :
    Lowers qp .readReply (readReplyXmit env qp i r payload ack) := by
  have hd := xmitResponse_toDrain env qp ack
  unfold readReplyXmit
  dsimp only
  split
  · have hf := readReplyFinish_lowers (xmitResponse env qp ack).1 i (r.advance payload)
    exact ⟨hf.1, hd ▸ hf.2⟩
  · exact .mk' (by decide) hd.le

theorem readReply_lowers (env : RespEnv) (qp : RxeQp) (pkt : ReqPkt) :
    Lowers qp .readReply (readReply env qp pkt) := by
  unfold readReply
  split
  · exact .mk' (by decide) le_rfl
  next qp₁ i r hres =>
    have hd : ∀ r', (qp₁.setSlot i r').toDrain = qp.toDrain := fun r' => by
      rw [RxeQp.setSlot_toDrain, readReplyRes_toDrain hres]
    unfold readReplySend
    dsimp only
    split
    · exact .mk' (by decide) (hd _).le
    · split
      · exact .mk' (by decide) (hd _).le
      · have hx := readReplyXmit_lowers
        exact ⟨(hx _ _ _ _ _ _).1, (hx _ _ _ _ _ _).2.trans (hd _).le⟩
      · have hx := readReplyXmit_lowers
        exact ⟨(hx _ _ _ _ _ _).1, (hx _ _ _ _ _ _).2.trans (hd _).le⟩

theorem acknowledge_lowers (env : RespEnv) (qp : RxeQp) (pkt : ReqPkt) :
    Lowers qp .acknowledge (acknowledge env qp pkt) := by
  unfold acknowledge
  repeat' split
  all_goals refine .mk' (by decide) ?_
  · exact le_rfl
  · rw [sendAck_toDrain]
  · rw [sendAtomicAck_toDrain]
  · rw [sendAck_toDrain]
  · exact le_rfl

theorem duplicateRequest_lowers (env : RespEnv) (qp : RxeQp) (pkt : ReqPkt) :
    Lowers qp .duplicateRequest (duplicateRequest env qp pkt) := by
  unfold duplicateRequest resendAtomic
  dsimp only
  repeat' split
  all_goals refine .mk' (by decide) ?_
  any_goals exact le_rfl
  · rw [sendAck_toDrain]
  · exact (RxeQp.setSlot_toDrain qp _ _).le

theorem cleanup_lowers (qp : RxeQp) (pkt : Option ReqPkt) :
    Lowers qp .cleanup (cleanup qp pkt) := by
  refine .mk' (by decide) ?_
  unfold RxeQp.toDrain
  dsimp only
  repeat' split
  all_goals simp

theorem doClassD1eError_lowers (qp : RxeQp) :
    Lowers qp .errMissingOpcodeLastD1e (doClassD1eError qp) := by
  unfold doClassD1eError
  dsimp only
  split
  · split
    all_goals exact .mk' (by decide) le_rfl
  · split
    · exact .mk' (by decide) le_rfl
    next h => exact .mk' (by decide) (setCurWqe_toDrain h).le

theorem getReq_lowers (qp : RxeQp) :
    (getReq qp).2.2.rank + (getReq qp).1.toDrain < RespState.getReq.rank + qp.toDrain := by
  unfold getReq
  split
  next herr =>
    cases hp : qp.reqPkts with
    | nil => simp [RespState.rank]
    | cons p ps => simp [RxeQp.toDrain, herr, hp]
  · split
    · simp [RespState.rank]
    · split <;> simp [RespState.rank]

theorem checkResource_lowers (qp : RxeQp) (pkt : Option ReqPkt) :
    (checkResource qp pkt).2.rank + (checkResource qp pkt).1.toDrain <
      RespState.chkResource.rank + qp.toDrain := by
  unfold checkResource
  split
  next herr =>
    split
    · simp [RespState.rank, RxeQp.toDrain]
    next hw =>
      split
      next hs =>
        split
        · simp [RespState.rank]
        next hq => simp [RespState.rank, RxeQp.toDrain, herr, hs, hq]; omega
      · simp [RespState.rank]
  next herr =>
    unfold getSrqWqe
    repeat' split
    all_goals simp [RespState.rank, RxeQp.toDrain, herr]

theorem invalidateOnComplete_eq {cqe : RecvCqe} (h : invalidateOnComplete qp cqe = some qp') :
    ∃ mrs, qp' = { qp with mrs := mrs } := by
  unfold invalidateOnComplete at h
  split at h
  · obtain ⟨mem, -, rfl⟩ := Option.map_eq_some_iff.mp h
    exact ⟨_, rfl⟩
  · cases h
    exact ⟨qp.mrs, rfl⟩

/-- Giving an element back leaves at least that much less to drain. -/
theorem popWqe_toDrain {w : RecvWqe} (h : qp.curWqe = some w) (mrs : MrPool) :
    (popWqe { qp with mrs := mrs }).toDrain ≤ qp.toDrain ∧
      (qp.resp.state = .error → (popWqe { qp with mrs := mrs }).toDrain + 7 ≤ qp.toDrain) := by
  unfold RxeQp.curWqe at h
  by_cases herr : qp.resp.state = .error
  · cases hw : qp.resp.wqe with
    | null => rw [hw] at h; cases h
    | head =>
      rw [hw] at h
      cases hrq : qp.rq with
      | nil => simp [hrq] at h
      | cons x xs =>
        cases hs : qp.srq <;> simp [popWqe, RxeQp.toDrain, herr, hw, hs, hrq] <;> omega
    | srq w' =>
      cases hs : qp.srq <;> simp [popWqe, RxeQp.toDrain, herr, hw] <;> omega
  · simp [popWqe, RxeQp.toDrain, herr]

theorem doComplete_lowers (env : RespEnv) (qp : RxeQp) (pkt : Option ReqPkt) :
    (doComplete env qp pkt).2.rank + (doComplete env qp pkt).1.toDrain <
      RespState.complete.rank + qp.toDrain := by
  unfold doComplete
  split
  · simp [RespState.rank]
  next w hw =>
    split
    · simp [RespState.rank]
    next qp' hinv =>
      obtain ⟨mrs, rfl⟩ := invalidateOnComplete_eq hinv
      have hpop := popWqe_toDrain hw mrs
      unfold completePost
      split
      · simp only [RespState.rank]
        omega
      · rw [RxeQp.emit_toDrain]
        split
        next herr =>
          have := hpop.2 herr
          simp only [RespState.rank]
          omega
        · repeat' split
          all_goals simp only [RespState.rank]; omega

/-- Every round of the loop gets closer to its end. -/
theorem respStep_lowers (env : RespEnv) (qp : RxeQp) (pkt : Option ReqPkt) (state : RespState) :
    (respStep env qp pkt state).Holds
      (fun qp' _ state' => state'.rank + qp'.toDrain < state.rank + qp.toDrain)
      fun _ => True := by
  have lift : ∀ {r : RxeQp × RespState}, Lowers qp state r →
      r.2.rank + r.1.toDrain < state.rank + qp.toDrain :=
        fun h => Nat.add_lt_add_of_lt_of_le h.1 h.2
  have hpkt : ∀ f : ReqPkt → RxeQp × RespState, (∀ p, Lowers qp state (f p)) →
      (withPkt qp pkt f).Holds
        (fun qp' _ state' => state'.rank + qp'.toDrain < state.rank + qp.toDrain)
        fun _ => True := by
    intro f hf
    cases pkt with
    | none => trivial
    | some p => exact lift (hf p)
  cases state with
  | getReq => exact getReq_lowers qp
  | chkPsn => exact hpkt _ (checkPsn_lowers qp)
  | chkOpSeq => exact hpkt _ (checkOpSeq_lowers qp)
  | chkOpValid => exact hpkt _ (checkOpValid_lowers qp)
  | chkResource => exact checkResource_lowers qp pkt
  | chkLength => exact lift (.mk' (by decide) le_rfl)
  | chkRkey => exact hpkt _ (checkRkey_lowers qp)
  | execute => exact hpkt _ (execute_lowers env qp)
  | readReply => exact hpkt _ (readReply_lowers env qp)
  | complete => exact doComplete_lowers env qp pkt
  | acknowledge => exact hpkt _ (acknowledge_lowers env qp)
  | cleanup => exact lift (cleanup_lowers qp pkt)
  | duplicateRequest => exact hpkt _ (duplicateRequest_lowers env qp)
  | errPsnOutOfSeq => exact lift (.mk' (by decide) (sendAck_toDrain env qp _ _).le)
  | errMissingOpcodeLastD1e => exact lift (doClassD1eError_lowers qp)
  | errTooManyRdmaAtmReq => exact lift (.mk' (by decide) le_rfl)
  | errMissingOpcodeFirst => exact lift (.mk' (by decide) le_rfl)
  | errMissingOpcodeLastC => exact lift (.mk' (by decide) le_rfl)
  | errUnsupportedOpcode => exact lift (.mk' (by decide) le_rfl)
  | errMisalignedAtomic => exact lift (.mk' (by decide) le_rfl)
  | errMalformedWqe => exact lift (.mk' (by decide) le_rfl)
  | errCqOverflow => exact lift (.mk' (by decide) le_rfl)
  | errRnr =>
    unfold respStep
    dsimp only
    split
    · exact hpkt _ fun p => .mk' (by decide) (sendAck_toDrain env qp _ _).le
    · exact lift (.mk' (by decide) le_rfl)
  | errRkeyViolation =>
    unfold respStep
    dsimp only
    repeat' split
    all_goals exact lift (.mk' (by decide) le_rfl)
  | errLength =>
    unfold respStep
    dsimp only
    repeat' split
    all_goals exact lift (.mk' (by decide) le_rfl)
  | done =>
    unfold respStep leave
    dsimp only
    split
    · exact lift (.mk' (by decide) le_rfl)
    · trivial
  | exit =>
    unfold respStep leave
    dsimp only
    split
    · exact lift (.mk' (by decide) le_rfl)
    · trivial
  | none => trivial
  | reset => trivial
  | error => trivial

theorem respLoop_isSome (env : RespEnv) {fuel : Nat} (h : state.rank + qp.toDrain < fuel) :
    (respLoop env fuel qp pkt state).isSome := by
  induction fuel generalizing qp pkt state with
  | zero => omega
  | succ fuel ih =>
    have hs := respStep_lowers env qp pkt state
    simp only [respLoop]
    split
    · rfl
    next qp₁ pkt₁ state₁ heq =>
      rw [heq] at hs
      exact ih (by simp only [RespStep.Holds] at hs; omega)

/-- A run of the responder comes to an end. -/
theorem rxeResponder_isSome (env : RespEnv) (qp : RxeQp) : (rxeResponder env qp).isSome := by
  apply respLoop_isSome
  have hrank : ∀ b : Prop, [Decidable b] → (if b then RespState.reset else .getReq).rank ≤ 15 := by
    intro b _
    split <;> decide
  refine Nat.lt_of_le_of_lt (Nat.add_le_add_right (hrank _) _) ?_
  simp only [RxeQp.toDrain, respFuel]
  repeat' split
  all_goals omega

/-- The QP after a run of `rxe_responder`. -/
def respond (env : RespEnv) (qp : RxeQp) : RxeQp :=
  (rxeResponder env qp).get (rxeResponder_isSome env qp)

theorem respond_rule {env : RespEnv}
    (hstep : ∀ qp pkt state, P qp pkt state → (respStep env qp pkt state).Holds P Q)
    (hp : P { qp with resp := { qp.resp with aethSyndrome := aethAckUnlimited } } none
      (if qp.resp.state = .reset then .reset else .getReq)) : Q (respond env qp) := by
  apply respLoop_rule hstep hp
  exact (Option.some_get (rxeResponder_isSome env qp)).symm

theorem withPkt_holds {f : ReqPkt → RxeQp × RespState} (hnone : Q (qp.emit .oops))
    (hsome : ∀ p ∈ pkt, P (f p).1 pkt (f p).2) :
    (withPkt qp pkt f).Holds P Q := by
  cases pkt with
  | none => exact hnone
  | some p => exact hsome p rfl

/-- A QP in error drains its receive queue and sends no acknowledge. -/
theorem doComplete_next_of_error (env : RespEnv) (herr : qp.resp.state = .error)
    (pkt : Option ReqPkt) :
    (doComplete env qp pkt).2 ∈ [.cleanup, .error, .errCqOverflow, .chkResource] := by
  unfold doComplete
  split
  · simp
  split
  · simp
  next qp' hinv =>
    obtain ⟨mrs, rfl⟩ := invalidateOnComplete_eq hinv
    unfold completePost
    split
    · simp
    · simp [popWqe, herr]

/-- A run of the responder in the reset state. -/
theorem respond_reset (env : RespEnv) (h : qp.resp.state = .reset) :
    respond env qp =
      { rxeDrainReqPkts qp with
        resp := { qp.resp with aethSyndrome := aethAckUnlimited, wqe := .null } } := by
  apply Option.some.inj
  rw [respond, Option.some_get, rxeResponder, if_pos h, respFuel, Nat.add_assoc,
    Nat.add_comm 32]
  rfl

end Rxe
