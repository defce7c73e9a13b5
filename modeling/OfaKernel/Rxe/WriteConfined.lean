-- SUMMARY: What an rxe responder stores lies in the interval that the WRITE announced.
import OfaKernel.Rxe.ResourceRing

/-!
# Confinement of RDMA WRITEs

`resp.va` and `resp.resid` are what is left of the interval in the RETH of the WRITE in
progress. Every packet with a RETH overwrites them, also one that is refused; only the order
of the opcodes ties the later packets of a WRITE to them.
-/

namespace Rxe

/-! ## Announced intervals -/

/-- The RETH of the WRITE that was executed last. -/
def announced : List Event → Option Reth
  | [] => none
  | .execute p :: l => if p.mask.writeMask ∧ p.mask.rethMask then some p.reth else announced l
  | _ :: l => announced l

/-- `n` bytes from `va` on are in the interval of the RETH. -/
def Reth.Within (r : Reth) (va : UInt64) (n : Nat) : Prop :=
  ∃ k, va = r.va + .ofNat k ∧ k + n ≤ r.len.toNat

/-- Until an `oops`, everything stored in a region is where it was announced. -/
def WritesConfined : List Event → Prop
  | [] => True
  | .writeIn (some _) va data :: l =>
    (.oops ∈ l ∨ ∃ r, announced l = some r ∧ r.Within va data.length) ∧ WritesConfined l
  | _ :: l => WritesConfined l

/-- The opcodes of a WRITE that goes on. -/
def writeHeads (t : QpType) : List (Option Opcode) :=
  [some ⟨t.transport, .rdmaWriteFirst⟩, some ⟨t.transport, .rdmaWriteMiddle⟩]

variable {qp qp' qp'' : RxeQp} {pkt : Option ReqPkt} {state : RespState} {p : ReqPkt}

theorem mem_writeContinuations {t : QpType} {o : Opcode} (ht : o.transport = t.transport) :
    o.op ∈ writeContinuations ↔ o.mask.writeMask = true ∧ o.mask.rethMask = false := by
  obtain ⟨_, op⟩ := o
  subst ht
  cases t <;> cases op <;> decide

theorem mask_of_head {t : QpType} {o : Opcode} (h : some o ∈ writeHeads t) :
    o.mask.writeMask = true := by
  simp only [writeHeads, List.mem_cons, Option.some.injEq, List.not_mem_nil, or_false] at h
  rcases h with rfl | rfl <;> cases t <;> decide

/-- What is left of the WRITE in progress is in the interval announced for it. -/
def InProgress (qp : RxeQp) : Prop :=
  ∃ r, announced qp.log = some r ∧ r.Within qp.resp.va qp.resp.resid.toNat

/-! ## Steps aside of WRITEs -/

/-- An event that neither begins a WRITE nor stores for one. -/
def Event.quiet : Event → Bool
  | .execute _ | .writeIn .. => false
  | _ => true

/-- The fields that say what is left of a WRITE. -/
def RxeQp.left (qp : RxeQp) : QpType × IbQpState × QpState × UInt64 × UInt32 × Option Reth :=
  (qp.qpType, qp.qpState, qp.resp.state, qp.resp.va, qp.resp.resid, announced qp.log)

/-- Nothing is stored, and what is left of a WRITE has not changed. -/
structure Aside (qp qp' : RxeQp) : Prop where
  left : qp'.left = qp.left
  mr : qp.resp.mr = none → qp'.resp.mr = none
  opcode : ∀ o, qp'.resp.opcode = some o → qp.resp.opcode = some o
  pkts : ∀ p ∈ qp'.reqPkts, p ∈ qp.reqPkts
  confined : WritesConfined qp.log → WritesConfined qp'.log
  oops : .oops ∈ qp.log → .oops ∈ qp'.log

theorem Aside.of (hleft : qp'.left = qp.left) (hmr : qp'.resp.mr = qp.resp.mr)
    (hop : qp'.resp.opcode = qp.resp.opcode) (hpkts : qp'.reqPkts = qp.reqPkts)
    (hlog : qp'.log = qp.log) : Aside qp qp' :=
  ⟨hleft, hmr.trans, fun _ => hop.symm.trans, fun _ => by rw [hpkts]; exact id,
    by rw [hlog]; exact id, by rw [hlog]; exact id⟩

theorem Aside.rfl' : Aside qp qp := .of rfl rfl rfl rfl rfl

theorem Aside.trans (h : Aside qp qp') (h' : Aside qp' qp'') : Aside qp qp'' where
  left := h'.left.trans h.left
  mr := h'.mr ∘ h.mr
  opcode o := h.opcode o ∘ h'.opcode o
  pkts p := h.pkts p ∘ h'.pkts p
  confined := h'.confined ∘ h.confined
  oops := h'.oops ∘ h.oops

theorem Aside.emit {e : Event} (he : e.quiet = true) : Aside qp (qp.emit e) := by
  cases e
  case execute | writeIn => cases he
  all_goals exact ⟨rfl, id, fun _ => id, fun _ => id, id, List.mem_cons_of_mem _⟩

theorem InProgress.of_aside (h : InProgress qp) (hq : Aside qp qp') : InProgress qp' := by
  have hleft := hq.left
  simp only [RxeQp.left, Prod.mk.injEq] at hleft
  obtain ⟨-, -, -, hva, hresid, hann⟩ := hleft
  unfold InProgress
  rw [hva, hresid, hann]
  exact h

theorem xmitResponse_aside (env : RespEnv) (qp : RxeQp) (p : RespPkt) :
    Aside qp (xmitResponse env qp p).1 := by
  obtain h | h := xmitResponse_cases env qp p <;> rw [h]
  · exact .rfl'
  · exact .emit rfl

theorem sendAck_aside (env : RespEnv) (qp : RxeQp) (syndrome : UInt8) (psn : Psn) :
    Aside qp (sendAck env qp syndrome psn) := by
  obtain h | ⟨p, h⟩ := sendAck_cases env qp syndrome psn <;> rw [h]
  · exact .rfl'
  · exact .emit rfl

theorem setSlot_aside (qp : RxeQp) (i : Nat) (r : RespRes) : Aside qp (qp.setSlot i r) := by
  unfold RxeQp.setSlot
  split
  all_goals exact .of rfl rfl rfl rfl rfl

theorem setCurWqe_aside (qp : RxeQp) (w : RecvWqe) : Aside qp (qp.setCurWqe w) := by
  unfold RxeQp.setCurWqe
  split
  all_goals exact .of rfl rfl rfl rfl rfl

theorem remember_aside (qp : RxeQp) (r : RespRes) :
    Aside qp ((rxeAdvanceRespResource qp).remember r) :=
  .of rfl rfl rfl rfl rfl

theorem sendAtomicAck_aside (env : RespEnv) (qp : RxeQp) (p : ReqPkt) (syndrome : UInt8) :
    Aside qp (sendAtomicAck env qp p syndrome) := by
  unfold sendAtomicAck
  split
  · exact .rfl'
  split
  · exact .emit rfl
  · exact ((setSlot_aside qp _ _).trans (remember_aside _ _)).trans (xmitResponse_aside env _ _)

theorem acknowledge_aside (env : RespEnv) (qp : RxeQp) (p : ReqPkt) :
    Aside qp (acknowledge env qp p).1 := by
  unfold acknowledge
  repeat' split
  any_goals exact .rfl'
  · exact sendAck_aside env qp _ _
  · exact sendAtomicAck_aside env qp p _
  · exact sendAck_aside env qp _ _

theorem doComplete_aside (env : RespEnv) (qp : RxeQp) (pkt : Option ReqPkt) :
    Aside qp (doComplete env qp pkt).1 := by
  unfold doComplete
  split
  · exact .rfl'
  split
  · exact .rfl'
  next qp' hinv =>
    obtain ⟨mrs, rfl⟩ := invalidateOnComplete_eq hinv
    have hpop : Aside qp (popWqe { qp with mrs := mrs }) :=
      .of rfl rfl rfl rfl rfl
    unfold completePost
    split
    · exact hpop
    · exact hpop.trans (.emit rfl)

theorem doClassD1eError_aside (qp : RxeQp) : Aside qp (doClassD1eError qp).1 := by
  unfold doClassD1eError
  dsimp only
  repeat' split
  any_goals exact .of rfl rfl rfl rfl rfl
  · exact ⟨rfl, fun _ => rfl, fun _ => id, fun _ => id, id, id⟩
  · exact (setCurWqe_aside qp _).trans ⟨rfl, fun _ => rfl, nofun, fun _ => id, id, id⟩

theorem sendDataIn_aside (env : RespEnv) (qp : RxeQp) (data : List UInt8) :
    Aside qp (sendDataIn env qp data).1 := by
  unfold sendDataIn
  split
  · exact .emit rfl
  · repeat' split
    any_goals exact .rfl'
    exact setCurWqe_aside qp _

theorem processAtomic_aside (env : RespEnv) (qp : RxeQp) (p : ReqPkt) :
    Aside qp (processAtomic env qp p).1 := by
  have horig (orig : UInt64) : Aside qp { qp with resp := { qp.resp with atomicOrig := orig } } :=
    .of rfl rfl rfl rfl rfl
  unfold processAtomic
  dsimp only
  repeat' split
  any_goals exact .rfl'
  any_goals exact .emit rfl
  any_goals exact horig _
  all_goals exact (horig _).trans (.emit rfl)

theorem readReplyFinish_aside (qp : RxeQp) (i : Nat) (r : RespRes) :
    Aside qp (readReplyFinish qp i r).1 := by
  have hset := setSlot_aside qp i r
  unfold readReplyFinish
  split
  · exact hset
  · refine hset.trans ⟨rfl, id, fun o ho => ?_, fun _ => id, id, id⟩
    dsimp only at ho
    split at ho
    · exact ho
    · cases ho

theorem readReplyRes_aside {qp qp' : RxeQp} {p : ReqPkt} {i : Nat} {r : RespRes}
    (h : readReplyRes qp p = some (qp', i, r)) :
    Aside qp qp' ∧ (qp.resp.mr = none ∨ qp.resp.res = none → qp'.resp.mr = none) := by
  unfold readReplyRes at h
  split at h
  next heq =>
    split at h
    · cases h
    · obtain ⟨_, _, heq'⟩ := Option.map_eq_some_iff.mp h
      cases heq'
      exact ⟨.rfl', fun h => h.resolve_right (by rw [heq]; nofun)⟩
  · split at h
    · cases h
    · split at h
      · cases h
      next r _ =>
        cases h
        have htake := (setSlot_aside qp qp.resp.resHead (newReadRes qp r p)).trans
          (remember_aside _ (newReadRes qp r p))
        exact ⟨htake.trans ⟨rfl, fun _ => rfl, fun _ => id, fun _ => id, id, id⟩, fun _ => rfl⟩

/-- A READ leaves `resp.mr` NULL, if it was or the READ begins. -/
theorem readReply_aside (env : RespEnv) (qp : RxeQp) (p : ReqPkt) :
    Aside qp (readReply env qp p).1 ∧ (qp.resp.mr = none ∨ qp.resp.res = none →
      .oops ∈ (readReply env qp p).1.log ∨ (readReply env qp p).1.resp.mr = none) := by
  unfold readReply
  split
  · exact ⟨.emit rfl, fun _ => .inl List.mem_cons_self⟩
  next qp₁ i r hres =>
    have h₁ := readReplyRes_aside hres
    have h₂ : Aside qp₁ (readReplySend env (qp₁.setSlot i { r with state := .next }) i
        { r with state := .next } (readReplyOp qp₁.mtu r)).1 := by
      have hset := setSlot_aside qp₁ i { r with state := .next }
      refine hset.trans ?_
      generalize qp₁.setSlot i { r with state := .next } = qp₂
      have hx (q : RxeQp) (ack : RespPkt) (payload : Int) (hq : Aside qp₂ q) :
          Aside qp₂ (readReplyXmit env q i { r with state := .next } payload ack).1 := by
        have hs := hq.trans (xmitResponse_aside env q ack)
        unfold readReplyXmit
        dsimp only
        split
        · exact hs.trans (readReplyFinish_aside _ _ _)
        · exact hs
      unfold readReplySend
      dsimp only
      repeat' split
      · exact .rfl'
      · exact .emit rfl
      · exact hx _ _ _ .rfl'
      · exact hx _ _ _ (.emit rfl)
    exact ⟨h₁.1.trans h₂, fun h => .inr (h₂.mr (h₁.2 h))⟩

theorem duplicateRequest_aside (env : RespEnv) (qp : RxeQp) (p : ReqPkt) :
    Aside qp (duplicateRequest env qp p).1 := by
  unfold duplicateRequest resendAtomic
  dsimp only
  repeat' split
  any_goals exact .rfl'
  any_goals exact .emit rfl
  any_goals exact (Aside.emit (e := .replayAtomic _) rfl).trans (.emit rfl)
  · exact sendAck_aside env qp _ _
  next i r _ _ =>
    have hset := (setSlot_aside qp i (replayRes r p)).trans (.emit (e := .replayRead r.type) rfl)
    exact hset.trans (.of rfl rfl rfl rfl rfl)

/-! ## A run of the responder -/

/-- A packet with an opcode of the transport of the QP. -/
def Own (qp : RxeQp) (p : ReqPkt) : Prop := p.opcode.transport = qp.qpType.transport

theorem own_none : ∀ p' ∈ (none : Option ReqPkt), Own qp p' := by simp

theorem Own.of_type (h : Own qp p) (htype : qp'.qpType = qp.qpType) : Own qp' p :=
  h.trans (congrArg QpType.transport htype.symm)

/-- The packet goes on with a WRITE exactly if one is in progress. -/
def Follows (qp : RxeQp) (p : ReqPkt) : Prop :=
  qp.resp.opcode ∈ writeHeads qp.qpType ↔ p.opcode.op ∈ writeContinuations

/-- The packet may be executed. -/
def Ready (qp : RxeQp) (p : ReqPkt) : Prop :=
  if p.mask.writeMask then
    InProgress (qp.emit (.execute p)) ∧ (qp.resp.mr ≠ none → p.payloadSize ≤ qp.resp.resid.toNat)
  else qp.resp.opcode ∉ writeHeads qp.qpType

/-- What holds in a state of the loop. -/
def At (qp : RxeQp) (pkt : Option ReqPkt) : RespState → Prop
  | .getReq | .duplicateRequest | .done | .exit | .reset | .none => qp.resp.mr = none
  | .chkPsn | .chkOpSeq => qp.resp.mr = none ∧ qp.resp.res = none
  | .chkOpValid | .chkResource | .chkLength | .chkRkey =>
    qp.resp.mr = none ∧ qp.resp.res = none ∧ ∀ p ∈ pkt, Follows qp p
  | .execute => qp.resp.res = none ∧ ∀ p ∈ pkt, Ready qp p
  | .readReply => qp.resp.mr = none ∨ qp.resp.res = none
  | _ => pkt = none → qp.resp.mr = none

theorem some_none {P : Prop} (h : some p = none) : P := nomatch h

theorem At.of_rank (hs : state.rank < 8)
    (hmr : pkt = none ∨ state ∈ [.done, .exit, .reset, .none, .readReply] → qp.resp.mr = none) :
    At qp pkt state := by
  cases state <;> simp_all [At, RespState.rank]

/-- The invariant: the kernel has faulted, the QP is in error and `drained` of packets, or the
WRITE in progress is the announced one and `fine` holds besides. -/
structure Kept (drained fine : Prop) (qp : RxeQp) : Prop where
  confined : WritesConfined qp.log
  own : ∀ p ∈ qp.reqPkts, Own qp p
  live : .oops ∈ qp.log ∨
    (qp.resp.state = .error ∧ qp.qpState ∉ [.reset, .init] ∧ drained) ∨
    (qp.resp.state ≠ .error ∧ (qp.resp.opcode ∈ writeHeads qp.qpType → InProgress qp) ∧ fine)

theorem Kept.of_aside {drained fine drained' fine' : Prop} (h : Kept drained fine qp)
    (hq : Aside qp qp') (hd : drained → drained')
    (hf : qp.resp.state ≠ .error → fine → .oops ∈ qp'.log ∨ fine') : Kept drained' fine' qp' := by
  have hleft := hq.left
  simp only [RxeQp.left, Prod.mk.injEq] at hleft
  obtain ⟨htype, hqp, hstate, -⟩ := hleft
  refine ⟨hq.confined h.confined, fun p hp => (h.own p (hq.pkts p hp)).of_type htype, ?_⟩
  rw [hstate, hqp, htype]
  rcases h.live with ho | ⟨he, hs, hd'⟩ | ⟨he, hp, hf'⟩
  · exact .inl (hq.oops ho)
  · exact .inr (.inl ⟨he, hs, hd hd'⟩)
  · refine (hf he hf').imp_right fun hf => .inr ⟨he, fun hmem => ?_, hf⟩
    cases hc : qp'.resp.opcode with
    | none =>
      rw [hc] at hmem
      simp [writeHeads] at hmem
    | some o =>
      rw [hc, ← hq.opcode o hc] at hmem
      exact (hp hmem).of_aside hq

/-- What holds in every round of the loop. -/
def Loop (qp : RxeQp) (pkt : Option ReqPkt) (state : RespState) : Prop :=
  Kept (pkt = none) (At qp pkt state) qp ∧ ∀ p ∈ pkt, Own qp p

theorem Loop.of_aside {state' : RespState} (h : Loop qp pkt state) (hq : Aside qp qp')
    (hat : qp.resp.state ≠ .error → At qp pkt state → .oops ∈ qp'.log ∨ At qp' pkt state') :
    Loop qp' pkt state' := by
  exact ⟨h.1.of_aside hq id hat, fun p hp => (h.2 p hp).of_type (congrArg Prod.fst hq.left)⟩

theorem checkOpSeq_at (hown : Own qp p) (h : At qp (some p) .chkOpSeq) :
    At (checkOpSeq qp p).1 (some p) (checkOpSeq qp p).2 := by
  obtain ⟨hmr, hres⟩ := h
  have hto (hf : Follows qp p) : At qp (some p) .chkOpValid :=
    ⟨hmr, hres, fun p' hp' => by cases hp'; exact hf⟩
  unfold Own at hown
  unfold checkOpSeq
  dsimp only
  split
  next hsend =>
    split
    next hc =>
      refine hto (iff_of_false (fun hw => ?_) fun hw => ?_)
      · simp only [writeHeads, List.mem_cons, List.not_mem_nil, or_false] at hw hsend
        rcases hsend with hsend | hsend <;> rw [hsend] at hw <;> simp at hw
      · have hop := hc.2
        revert hop hw
        cases qp.qpType <;> cases p.opcode.op <;> decide
    next => cases qp.qpType <;> exact some_none
  split
  next hwrite =>
    split
    next hc => exact hto (iff_of_true hwrite hc.2)
    next => cases qp.qpType <;> exact some_none
  next hwrite =>
    split
    next => split <;> exact some_none
    next hno =>
      refine hto (iff_of_false hwrite fun hw => hno ⟨hown, ?_⟩)
      exact List.mem_append_right _ hw

/-- The interval that is latched before a WRITE is the announced one once the packet is executed. -/
theorem latchRkey_spec {q : RxeQp} {access : Access} (hown : Own qp p) (hf : Follows qp p)
    (hp : qp.resp.opcode ∈ writeHeads qp.qpType → InProgress qp)
    (hl : latchRkey qp p = some (q, access)) :
    q.qpType = qp.qpType ∧ q.resp.opcode = qp.resp.opcode ∧ q.resp.res = qp.resp.res ∧
      q.resp.mr = qp.resp.mr ∧ (p.mask.writeMask = true → InProgress (q.emit (.execute p))) := by
  unfold latchRkey at hl
  split at hl
  next =>
    cases hl
    by_cases hr : p.mask.rethMask = true
    · simp only [if_pos hr]
      refine ⟨trivial, trivial, trivial, trivial, fun hw => ⟨p.reth, ?_, 0, ?_, ?_⟩⟩
      · exact if_pos ⟨hw, hr⟩
      · exact (UInt64.add_zero _).symm
      · exact (Nat.zero_add _).le
    · simp only [if_neg hr]
      refine ⟨trivial, trivial, trivial, trivial, fun hw => ?_⟩
      obtain ⟨r, hann, hin⟩ :=
        hp (hf.mpr ((mem_writeContinuations hown).mpr ⟨hw, Bool.eq_false_iff.mpr hr⟩))
      exact ⟨r, (if_neg fun h => hr h.2).trans hann, hin⟩
  next hno =>
    split at hl
    · cases hl
      exact ⟨rfl, rfl, rfl, rfl, fun hw => absurd (Or.inr hw) hno⟩
    · cases hl

/-- `check_rkey` leaves a WRITE in progress alone, and lets a packet pass only if it is ready. -/
theorem checkRkey_at (hown : Own qp p) (hp : qp.resp.opcode ∈ writeHeads qp.qpType → InProgress qp)
    (h : At qp (some p) .chkRkey) :
    ((checkRkey qp p).1.resp.opcode ∈ writeHeads qp.qpType → InProgress (checkRkey qp p).1) ∧
      At (checkRkey qp p).1 (some p) (checkRkey qp p).2 := by
  obtain ⟨hmr, hres, hf⟩ := h
  have hf := hf p rfl
  have hready {q : RxeQp} (hw : p.mask.writeMask = false)
      (hq : q.resp.opcode = qp.resp.opcode ∧ q.qpType = qp.qpType) : Ready q p := by
    unfold Ready
    rw [hw, if_neg Bool.false_ne_true, hq.1, hq.2]
    intro hmem
    exact Bool.false_ne_true (hw.symm.trans ((mem_writeContinuations hown).mp (hf.mp hmem)).1)
  unfold checkRkey
  cases hl : latchRkey qp p with
  | none =>
    refine ⟨hp, hres, fun p' hp' => ?_⟩
    cases hp'
    refine hready (Bool.eq_false_iff.mpr fun hw => ?_) ⟨rfl, rfl⟩
    unfold latchRkey at hl
    simp [hw] at hl
  | some r =>
    obtain ⟨q, access⟩ := r
    obtain ⟨htype, hop, hres', hmr', hprog⟩ := latchRkey_spec hown hf hp hl
    have hkeep {q' : RxeQp} (hop' : q'.resp.opcode = q.resp.opcode)
        (hleft : q'.left = q.left) : q'.resp.opcode ∈ writeHeads qp.qpType → InProgress q' := by
      intro hmem
      rw [hop', hop] at hmem
      obtain ⟨hw, hr⟩ := (mem_writeContinuations hown).mp (hf.mp hmem)
      have := hprog hw
      simp only [RxeQp.left, Prod.mk.injEq] at hleft
      have hr' : p.mask.rethMask = false := hr
      simpa [InProgress, RxeQp.emit, announced, hr', hleft] using this
    have hexec {q' : RxeQp} (hop' : q'.resp.opcode = q.resp.opcode) (hleft : q'.left = q.left)
        (hlen : p.mask.writeMask = true → q'.resp.mr ≠ none → p.payloadSize ≤ q'.resp.resid.toNat) :
        Ready q' p := by
      simp only [RxeQp.left, Prod.mk.injEq] at hleft
      cases hw : p.mask.writeMask with
      | false => exact hready hw ⟨hop'.trans hop, hleft.1.trans htype⟩
      | true =>
        unfold Ready
        rw [hw, if_pos rfl]
        refine ⟨?_, hlen hw⟩
        simpa [InProgress, RxeQp.emit, announced, hleft] using hprog hw
    have hfail : (q.resp.opcode ∈ writeHeads qp.qpType → InProgress q) ∧
        At q (some p) .errRkeyViolation := ⟨hkeep rfl rfl, some_none⟩
    dsimp only
    repeat' split
    any_goals exact hfail
    · refine ⟨hkeep rfl rfl, hres'.trans hres, fun p' hp' => ?_⟩
      cases hp'
      exact hexec rfl rfl fun _ hne => absurd (hmr'.trans hmr) hne
    · next hlen =>
        refine ⟨hkeep rfl rfl, hres'.trans hres, fun p' hp' => ?_⟩
        cases hp'
        refine hexec rfl rfl fun hw _ => ?_
        rw [not_and, Bool.not_eq_false] at hlen
        have hlen := hlen hw
        unfold writeLengthOk at hlen
        dsimp only
        split at hlen
        all_goals
          simp only [Bool.decide_and, Bool.and_eq_true, decide_eq_true_eq] at hlen
          omega

theorem checkRkey_log (qp : RxeQp) (p : ReqPkt) :
    (checkRkey qp p).1.log = qp.log ∧ (checkRkey qp p).1.reqPkts = qp.reqPkts := by
  unfold checkRkey
  cases hl : latchRkey qp p with
  | none => exact ⟨rfl, rfl⟩
  | some r =>
    have hq : r.1.log = qp.log ∧ r.1.reqPkts = qp.reqPkts := by
      unfold latchRkey at hl
      repeat' split at hl
      all_goals cases hl
      all_goals exact ⟨rfl, rfl⟩
    dsimp only
    repeat' split
    all_goals exact hq

/-- A copy of `write_data_in` takes the bytes that come next in the interval. -/
theorem writeDataIn_kept {drained : Prop} (h : Kept drained (InProgress qp ∧
      (qp.resp.mr ≠ none → p.payloadSize ≤ qp.resp.resid.toNat)) qp) (hd : ¬drained) :
    Kept drained (InProgress (writeDataIn qp p).1) (writeDataIn qp p).1 := by
  obtain ⟨hc, hown, hlive⟩ := h
  have hlive := hlive.imp_right fun h => h.resolve_left fun h => hd h.2.2
  have hin : WritesConfined (.writeIn qp.resp.mr qp.resp.va p.payload :: qp.log) := by
    cases hmr : qp.resp.mr with
    | none => exact hc
    | some i =>
      refine ⟨hlive.imp_right fun ⟨_, _, ⟨r, hann, k, hva, hk⟩, hle⟩ => ⟨r, hann, k, hva, ?_⟩, hc⟩
      have := hle (by rw [hmr]; nofun)
      exact (Nat.add_le_add_left this k).trans hk
  unfold writeDataIn
  split
  next => exact ⟨hin, hown, .inl List.mem_cons_self⟩
  next => exact ⟨hc, hown, hlive.imp_right fun h => .inr ⟨h.1, h.2.1, h.2.2.1⟩⟩
  next hok =>
    refine ⟨hin, hown,
      hlive.imp (List.mem_cons_of_mem _) fun ⟨hs, _, ⟨r, hann, k, hva, hk⟩, hle⟩ => ?_⟩
    have hlen : p.payloadSize ≤ qp.resp.resid.toNat := by
      by_cases hmr : qp.resp.mr = none
      · -- nothing is copied without a region
        unfold rxeMemCopy at hok
        rw [hmr] at hok
        split at hok
        · omega
        · cases hok
      · exact hle hmr
    have hprog : InProgress { qp.emit (.writeIn qp.resp.mr qp.resp.va p.payload) with
        resp := { qp.resp with
          va := qp.resp.va + .ofNat p.payloadSize
          resid := qp.resp.resid - .ofNat p.payloadSize } } := by
      refine ⟨r, hann, k + p.payloadSize, ?_, ?_⟩
      · simp only [hva, UInt64.ofNat_add, UInt64.add_assoc]
      · have hlt := qp.resp.resid.toNat_lt
        have hn : (UInt32.ofNat p.payloadSize).toNat = p.payloadSize :=
          UInt32.toNat_ofNat_of_lt (by simp only [UInt32.size]; omega)
        have hle : UInt32.ofNat p.payloadSize ≤ qp.resp.resid :=
          UInt32.le_iff_toNat_le.mpr (by omega)
        simp only
        rw [UInt32.toNat_sub_of_le _ _ hle, hn]
        omega
    exact .inr ⟨hs, fun _ => hprog, hprog⟩

theorem executeData_next (env : RespEnv) (qp : RxeQp) (p : ReqPkt) :
    .oops ∈ (executeData env qp p).1.log ∨ (executeData env qp p).2 ∈
      [.none, .errMalformedWqe, .errRkeyViolation, .errMisalignedAtomic] := by
  unfold executeData sendDataIn writeDataIn processAtomic
  dsimp only
  repeat' split
  any_goals exact .inl List.mem_cons_self
  all_goals exact .inr (by simp)

theorem sendMask_of_writeMask {t : QpType} {o : Opcode} (ht : o.transport = t.transport)
    (hw : o.mask.writeMask = true) : o.mask.sendMask = false := by
  obtain ⟨_, op⟩ := o
  subst ht
  cases t <;> cases op <;> revert hw <;> decide

theorem execute_loop (env : RespEnv) (h : Loop qp (some p) .execute) :
    Loop (execute env qp p).1 (some p) (execute env qp p).2 := by
  obtain ⟨⟨hc, hpk, hlive⟩, howns⟩ := h
  have hown := howns p rfl
  refine ⟨?_, fun p' hp' => (howns p' hp').of_type (execute_same env qp p).type⟩
  -- the WRITE of the packet has begun
  have hq : Kept False (qp.resp.res = none ∧ (p.mask.writeMask = true →
      InProgress (qp.emit (.execute p)) ∧
        (qp.resp.mr ≠ none → p.payloadSize ≤ qp.resp.resid.toNat)))
      (qp.emit (.execute p)) := by
    refine ⟨hc, hpk, hlive.imp (List.mem_cons_of_mem _) fun h => ?_⟩
    obtain ⟨hs, -, hres, hr⟩ := h.resolve_left fun h => some_none h.2.2
    have hr := hr p rfl
    unfold Ready at hr
    cases hw : p.mask.writeMask with
    | false =>
      rw [hw, if_neg Bool.false_ne_true] at hr
      exact .inr ⟨hs, fun hmem => absurd hmem hr, hres,
        (absurd · Bool.false_ne_true)⟩
    | true =>
      rw [hw, if_pos rfl] at hr
      exact .inr ⟨hs, fun _ => hr.1, hres, fun _ => hr⟩
  unfold execute
  dsimp only
  split
  next hread =>
    refine ⟨hq.confined, hq.own, hq.live.imp_right fun h => .inr ?_⟩
    obtain ⟨hs, hp, hres, -⟩ := h.resolve_left fun h => h.2.2
    exact ⟨hs, hp, .inr hres⟩
  next =>
    -- what the data leaves, and then the state that follows
    have hdata : Kept False (p.mask.writeMask = true →
        InProgress (executeData env (qp.emit (.execute p)) p).1)
        (executeData env (qp.emit (.execute p)) p).1 := by
      unfold executeData
      cases hw : p.mask.writeMask with
      | true =>
        rw [show p.mask.sendMask = false from sendMask_of_writeMask hown hw,
          if_neg Bool.false_ne_true, if_pos rfl]
        have hk := hq.of_aside .rfl' id fun _ h => .inr (h.2 hw)
        exact (writeDataIn_kept hk id).of_aside .rfl' id fun _ h => .inr fun _ => h
      | false =>
        refine hq.of_aside ?_ id fun _ _ => .inr (absurd · Bool.false_ne_true)
        repeat' split
        · exact sendDataIn_aside env _ _
        · next h => cases h
        · exact processAtomic_aside env _ _
        · exact .rfl'
    have hnext := executeData_next env (qp.emit (.execute p)) p
    generalize executeData env (qp.emit (.execute p)) p = r at hdata hnext
    obtain ⟨q, state⟩ := r
    obtain ⟨hc', hpk', hlive'⟩ := hdata
    split
    · refine ⟨hc', hpk', hlive'.imp_right fun h => .inr ?_⟩
      obtain ⟨hs, -, hprog⟩ := h.resolve_left fun h => h.2.2
      refine ⟨hs, fun hmem => hprog (mask_of_head hmem), ?_⟩
      unfold executeDone
      dsimp only
      repeat' split
      all_goals exact some_none
    next hne =>
      refine ⟨hc', hpk', ?_⟩
      rcases hnext with ho | hmem
      · exact .inl ho
      · refine hlive'.imp_right fun h => .inr ?_
        obtain ⟨hs, hp, -⟩ := h.resolve_left fun h => h.2.2
        refine ⟨hs, hp, ?_⟩
        simp only [List.mem_cons, List.not_mem_nil, or_false] at hmem hne
        rcases hmem with rfl | rfl | rfl | rfl
        · exact absurd rfl hne
        all_goals exact some_none

/-- What holds between two runs of the responder. -/
def Idle (qp : RxeQp) : Prop := Kept True (qp.resp.mr = none) qp

theorem Kept.error {drained fine : Prop} (h : Kept drained fine qp) : Idle (rxeQpError qp) :=
  ⟨h.confined, h.own, .inr (.inl ⟨rfl, show IbQpState.err ∉ [.reset, .init] by decide, trivial⟩)⟩

theorem Idle.of_aside (h : Idle qp) (hq : Aside qp qp') : Idle qp' :=
  Kept.of_aside h hq id fun _ hmr => .inr (hq.mr hmr)

theorem checkPsn_loop (h : Loop qp (some p) .chkPsn) :
    Loop (checkPsn qp p).1 (some p) (checkPsn qp p).2 := by
  refine h.of_aside ?_ fun _ hat => .inr ?_
  · unfold checkPsn
    dsimp only
    repeat' split
    all_goals exact .of rfl rfl rfl rfl rfl
  · unfold checkPsn
    dsimp only
    repeat' split
    all_goals first | exact hat | exact hat.1 | exact some_none

theorem checkOpValid_loop (h : Loop qp (some p) .chkOpValid) :
    Loop (checkOpValid qp p).1 (some p) (checkOpValid qp p).2 := by
  refine h.of_aside ?_ fun _ hat => .inr ?_
  · unfold checkOpValid
    repeat' split
    all_goals exact .of rfl rfl rfl rfl rfl
  · unfold checkOpValid
    repeat' split
    all_goals first | exact hat | exact some_none

theorem checkResource_loop (h : Loop qp pkt .chkResource) :
    Loop (checkResource qp pkt).1 pkt (checkResource qp pkt).2 := by
  refine h.of_aside ?_ fun hs hat => ?_
  · unfold checkResource getSrqWqe
    repeat' split
    any_goals exact .of rfl rfl rfl rfl rfl
    exact .emit rfl
  · unfold checkResource getSrqWqe
    rw [if_neg hs]
    repeat' split
    all_goals first | exact .inl List.mem_cons_self | exact .inr hat | exact .inr some_none

theorem checkRkey_loop (h : Loop qp (some p) .chkRkey) :
    Loop (checkRkey qp p).1 (some p) (checkRkey qp p).2 := by
  have hs := checkRkey_same qp p
  obtain ⟨hlog, hpkts⟩ := checkRkey_log qp p
  have hown := h.2 p rfl
  refine ⟨⟨hlog ▸ h.1.confined, fun p' hp' => ?_, ?_⟩, fun p' hp' => (h.2 p' hp').of_type hs.type⟩
  · exact (h.1.own p' (hpkts ▸ hp')).of_type hs.type
  · rw [hlog, hs.state, hs.type]
    refine h.1.live.imp_right fun hl => .inr ?_
    obtain ⟨hne, hp, hat⟩ := hl.resolve_left fun hd => nomatch hd.2.2
    exact ⟨hne, checkRkey_at hown hp hat⟩

theorem getReq_loop (h : Loop qp pkt .getReq) :
    Loop (getReq qp).1 (getReq qp).2.1 (getReq qp).2.2 := by
  have hnone {state' : RespState} (hat : qp.resp.mr = none → At qp none state') :
      Loop qp none state' :=
    ⟨h.1.of_aside .rfl' (fun _ => rfl) fun _ hmr => .inr (hat hmr), own_none⟩
  unfold getReq
  split
  next herr =>
    split
    next rest heq =>
      have hq : Aside qp { qp with reqPkts := rest } :=
        ⟨rfl, id, fun _ => id, fun p hp => heq ▸ List.mem_cons_of_mem _ hp, id, id⟩
      exact ⟨h.1.of_aside hq (fun _ => rfl) fun hne _ => absurd herr hne, own_none⟩
    next =>
      exact ⟨h.1.of_aside .rfl' (fun _ => rfl) fun hne _ => absurd herr hne, own_none⟩
  next hne =>
    split
    next => exact hnone id
    next p rest heq =>
      have hlive := h.1.live.imp_right fun hl => hl.resolve_left fun he => hne he.1
      refine ⟨⟨h.1.confined, h.1.own, hlive.imp_right fun hl => .inr ⟨hne, hl.2.1, ?_⟩⟩, ?_⟩
      · dsimp only
        split
        next => exact .inl hl.2.2
        next hres => exact ⟨hl.2.2, Option.not_isSome_iff_eq_none.mp hres⟩
      · intro p' hp'
        cases hp'
        exact h.1.own p (heq ▸ List.mem_cons_self)

theorem doComplete_loop (env : RespEnv) (h : Loop qp pkt .complete) :
    Loop (doComplete env qp pkt).1 pkt (doComplete env qp pkt).2 := by
  have hq := doComplete_aside env qp pkt
  refine h.of_aside hq fun hs hat => .inr ?_
  have hs' : (doComplete env qp pkt).1.resp.state ≠ .error := by
    rw [(doComplete_same env qp pkt).state]
    exact hs
  have hmr : pkt = none → (doComplete env qp pkt).1.resp.mr = none := fun hn => hq.mr (hat hn)
  revert hs' hmr
  generalize hr : doComplete env qp pkt = r
  unfold doComplete completePost at hr
  repeat' split at hr
  all_goals
    subst hr
    intro hs' hmr
    first
    | exact hmr
    | exact absurd ‹_ = QpState.error› hs'
    | exact hmr (Option.isNone_iff_eq_none.mp ‹_›)

theorem respStep_loop (env : RespEnv) (h : Loop qp pkt state) :
    (respStep env qp pkt state).Holds Loop Idle := by
  have hstop {fine : Prop} (hf : fine → qp.resp.mr = none)
      (h : Kept (pkt = none) fine qp) : Idle qp :=
    h.of_aside .rfl' (fun _ => trivial) fun _ h => .inr (hf h)
  have hpkt {f : ReqPkt → RxeQp × RespState}
      (hf : ∀ p, Loop qp (some p) state → Loop (f p).1 (some p) (f p).2) :
      (withPkt qp pkt f).Holds Loop Idle := by
    refine withPkt_holds ⟨h.1.confined, h.1.own, .inl List.mem_cons_self⟩ fun p hp => ?_
    cases hp
    exact hf p h
  cases state with
  | none => exact hstop id h.1
  | getReq => exact getReq_loop h
  | chkPsn => exact hpkt fun _ => checkPsn_loop
  | chkOpSeq =>
    refine hpkt fun p h => ?_
    refine h.of_aside ?_ fun _ hat => .inr (checkOpSeq_at (h.2 p rfl) hat)
    unfold checkOpSeq
    dsimp only
    repeat' split
    all_goals exact .of rfl rfl rfl rfl rfl
  | chkOpValid => exact hpkt fun _ => checkOpValid_loop
  | chkResource => exact checkResource_loop h
  | chkLength => exact h.of_aside .rfl' fun _ => .inr
  | chkRkey => exact hpkt fun _ => checkRkey_loop
  | execute => exact hpkt fun _ => execute_loop env
  | readReply =>
    refine hpkt fun p h => ?_
    obtain ⟨hq, hmr⟩ := readReply_aside env qp p
    refine h.of_aside hq fun _ hat => (hmr hat).imp_right fun hmr => .of_rank ?_ fun _ => hmr
    exact (readReply_lowers env qp p).1.trans (by decide)
  | complete => exact doComplete_loop env h
  | acknowledge =>
    refine hpkt fun p h => ?_
    refine h.of_aside (acknowledge_aside env qp p) fun _ _ => .inr ?_
    unfold acknowledge
    repeat' split
    all_goals exact some_none
  | cleanup =>
    refine h.of_aside ⟨rfl, fun _ => rfl, fun _ => id, fun p hp => ?_, id, id⟩ fun _ _ => .inr rfl
    revert hp
    unfold cleanup
    dsimp only
    split
    · exact List.mem_of_mem_tail
    · exact id
  | duplicateRequest =>
    refine hpkt fun p h => ?_
    have hq := duplicateRequest_aside env qp p
    refine h.of_aside hq fun _ hat => .inr (.of_rank ?_ fun _ => hq.mr hat)
    exact (duplicateRequest_lowers env qp p).1
  | errPsnOutOfSeq =>
    have hq := sendAck_aside env qp aethNakPsnSeqError qp.resp.psn
    exact h.of_aside hq fun _ hat => .inr fun hn => hq.mr (hat hn)
  | errMissingOpcodeLastD1e =>
    have hq := doClassD1eError_aside qp
    refine h.of_aside hq fun _ hat => .inr (.of_rank ?_ fun hc => hq.mr (hat (hc.resolve_right ?_)))
    · exact (doClassD1eError_lowers qp).1.trans (by decide)
    · unfold doClassD1eError
      dsimp only
      repeat' split
      all_goals simp
  | errRnr =>
    unfold respStep
    dsimp only
    split
    · refine hpkt fun p h => ?_
      exact h.of_aside (sendAck_aside env qp _ _) fun _ _ => .inr some_none
    · exact h.of_aside (.of rfl rfl rfl rfl rfl) fun _ hat => .inr hat
  | errRkeyViolation | errLength =>
    unfold respStep
    dsimp only
    repeat' split
    all_goals exact h.of_aside (.of rfl rfl rfl rfl rfl) fun _ hat => .inr hat
  | errTooManyRdmaAtmReq | errMissingOpcodeFirst | errMissingOpcodeLastC | errUnsupportedOpcode
  | errMisalignedAtomic | errMalformedWqe | errCqOverflow =>
    exact h.of_aside (.of rfl rfl rfl rfl rfl) fun _ hat => .inr hat
  | done | exit =>
    unfold respStep leave
    dsimp only
    split
    · exact h.of_aside .rfl' fun _ hat => .inr fun _ => hat
    · exact hstop id h.1
  | reset =>
    have hq : Aside qp { rxeDrainReqPkts qp with resp := { qp.resp with wqe := .null } } :=
      ⟨rfl, id, fun _ => id, List.forall_mem_nil _, id, id⟩
    exact h.1.of_aside hq (fun _ => trivial) fun _ hmr => .inr hmr
  | error =>
    have hq : Aside qp { qp with resp := { qp.resp with gotoError := false } } :=
      .of rfl rfl rfl rfl rfl
    exact (h.1.of_aside hq id fun _ => .inr).error

theorem respond_idle (env : RespEnv) (h : Idle qp) : Idle (respond env qp) := by
  refine respond_rule (fun _ _ _ => respStep_loop env) ⟨?_, own_none⟩
  have hq : Aside qp { qp with resp := { qp.resp with aethSyndrome := aethAckUnlimited } } :=
    .of rfl rfl rfl rfl rfl
  refine Kept.of_aside h hq (fun _ => rfl) fun _ hmr => .inr ?_
  split
  all_goals exact hmr

/-! ## Runs -/

theorem Aside.emit_if (c : Prop) [Decidable c] :
    Aside qp (if c then qp.emit .oops else qp) := by
  split
  · exact .emit rfl
  · exact .rfl'

theorem freeRdAtomicResources_aside (qp : RxeQp) : Aside qp (freeRdAtomicResources qp) := by
  unfold freeRdAtomicResources
  split
  · exact .rfl'
  next a _ =>
    have hfree : Aside qp (qp.emit (.freeResources qp.maxDestRdAtomic.toNat a.slots.length)) :=
      .emit rfl
    exact (hfree.trans (.emit_if _)).trans (.of rfl rfl rfl rfl rfl)

theorem cleanupRdAtomicResources_aside (qp : RxeQp) : Aside qp (cleanupRdAtomicResources qp) := by
  unfold cleanupRdAtomicResources
  split
  · exact .rfl'
  next a _ =>
    exact (Aside.emit_if (qp.maxDestRdAtomic.toNat > a.slots.length)).trans
      (.of rfl rfl rfl rfl rfl)

theorem drainSq_aside (n : Nat) (qp : RxeQp) : Aside qp (drainSq false n qp) := by
  induction n generalizing qp with
  | zero => exact .rfl'
  | succ n ih =>
    unfold drainSq
    split
    · exact .rfl'
    · have hadv : Aside qp qp.advanceSq := .of rfl rfl rfl rfl rfl
      exact hadv.trans (ih qp.advanceSq)

theorem setRdAtomic_aside (kcalloc : Bool) (qp : RxeQp) (attr : QpAttr) (mask : List QpAttrMask) :
    Aside qp (setRdAtomic kcalloc qp attr mask).1 := by
  unfold setRdAtomic
  dsimp only
  generalize hq : (if QpAttrMask.maxQpRdAtomic ∈ mask then _ else qp : RxeQp) = qp₁
  have h₁ : Aside qp qp₁ := by
    subst hq
    split
    all_goals exact .of rfl rfl rfl rfl rfl
  refine h₁.trans ?_
  split
  · generalize roundupPowOfTwo attr.maxDestRdAtomic.toNat = n
    have hset : Aside qp₁ { qp₁ with maxDestRdAtomic := .ofNat n } :=
      .of rfl rfl rfl rfl rfl
    exact (hset.trans (freeRdAtomicResources_aside _)).trans
      (.of rfl rfl rfl rfl rfl)
  · exact .rfl'

/-- A reset forgets the WRITE in progress. -/
theorem rxeQpReset_idle (hc : WritesConfined qp.log) : Idle (rxeQpReset qp) := by
  unfold rxeQpReset
  dsimp only
  rw [respond_reset _ rfl]
  refine Idle.of_aside ?_ (cleanupRdAtomicResources_aside _)
  generalize hq : ({ rxeDrainReqPkts _ with resp := _ } : RxeQp) = qp₁
  have hdrain : Aside qp₁ (rxeDrainRespPkts qp₁ false) :=
    have hempty : Aside qp₁ { qp₁ with respPkts := [] } :=
      .of rfl rfl rfl rfl rfl
    hempty.trans (drainSq_aside _ _)
  have hstate : (rxeDrainRespPkts qp₁ false).resp.state = .reset := by
    have hleft := hdrain.left
    simp only [RxeQp.left, Prod.mk.injEq] at hleft
    rw [hleft.2.2.1, ← hq]
  refine ⟨hdrain.confined (by rw [← hq]; exact hc), fun p hp => ?_, .inr (.inr ⟨?_, ?_, rfl⟩)⟩
  · have hp := hdrain.pkts p hp
    rw [← hq] at hp
    cases hp
  · exact fun he => nomatch hstate.symm.trans he
  · intro hmem
    simp [writeHeads, requesterReset] at hmem

/-- INIT is entered from RESET or INIT, and RTR from INIT. -/
theorem qpState_of_chkAttr {dev : RxeDev} {attr : QpAttr} {mask : List QpAttrMask}
    (h : rxeQpChkAttr dev qp attr mask) (hmem : .state ∈ mask)
    (hs : attr.qpState = .init ∨ attr.qpState = .rtr) : qp.qpState ∈ [.reset, .init] := by
  simp only [rxeQpChkAttr, Bool.and_eq_true, if_pos hmem] at h
  have hok := h.1.1.1.1.1.1.1.1
  unfold ibModifyQpIsOk at hok
  by_cases hm : .curState ∈ mask
  · simp only [if_pos hm] at hok
    split at hok
    next => cases hok
    next hcur =>
      rw [not_and, not_not] at hcur
      have hcur := hcur hm
      generalize attr.curQpState = cur at hok hcur
      revert hok hcur
      rcases hs with hs | hs <;> rw [hs] <;> cases cur <;> simp [qpStateTable]
  · simp only [hm, false_and, if_false] at hok
    generalize qp.qpState = cur at hok ⊢
    revert hok
    rcases hs with hs | hs <;> rw [hs] <;> cases cur <;> simp [qpStateTable]

theorem rxeModifyQp_idle {dev : RxeDev} {kcalloc : Bool} {attr : QpAttr} {mask : List QpAttrMask}
    (h : Idle qp) : Idle (rxeModifyQp dev kcalloc qp attr mask) := by
  unfold rxeModifyQp
  split
  next hchk =>
    have hset := setRdAtomic_aside kcalloc qp attr mask
    unfold rxeQpFromAttr
    dsimp only
    split
    next =>
      have hattrs : Aside qp (setAttrs (setRdAtomic kcalloc qp attr mask).1 attr mask) :=
        hset.trans (.of rfl rfl rfl rfl rfl)
      have hi := h.of_aside hattrs
      split
      next hmem =>
        have hfrom := qpState_of_chkAttr hchk hmem
        have hleft := hattrs.left
        simp only [RxeQp.left, Prod.mk.injEq] at hleft
        rw [← hleft.2.1] at hfrom
        generalize setAttrs _ attr mask = q at hi hfrom
        -- what is in progress goes on, unless the QP was in error
        have hlive (hs : attr.qpState = .init ∨ attr.qpState = .rtr) :=
          hi.live.imp_right fun hl => (hl.resolve_left fun he => he.2.1 (hfrom hs)).2
        have hmove {s : IbQpState} (hs : s ∉ [.reset, .init]) : Idle { q with qpState := s } :=
          ⟨hi.confined, hi.own,
            hi.live.imp_right fun hl => hl.imp_left fun he => ⟨he.1, hs, trivial⟩⟩
        cases hs : attr.qpState with
        | reset => exact rxeQpReset_idle hi.confined
        | init =>
          exact ⟨hi.confined, hi.own, (hlive (.inl hs)).imp_right fun hl => .inr ⟨nofun, hl⟩⟩
        | rtr =>
          exact ⟨hi.confined, hi.own, (hlive (.inr hs)).imp_right fun hl => .inr ⟨nofun, hl⟩⟩
        | rts => exact (hmove (s := .rts) (by decide)).of_aside (.of rfl rfl rfl rfl rfl)
        | sqd =>
          unfold enterState rxeQpDrain
          dsimp only
          split
          · exact hmove (by decide)
          · exact (hmove (s := .sqd) (by decide)).of_aside (.of rfl rfl rfl rfl rfl)
        | sqe => exact hmove (by decide)
        | err => exact hi.error
      next => exact hi
    next => exact h.of_aside hset
  next => exact h

/-- A packet that is received is of the transport of the QP. -/
def OwnStep (qp : RxeQp) : QpAction → Prop
  | .rcv pkt => Own qp pkt
  | _ => True

instance (qp : RxeQp) : ∀ a, Decidable (OwnStep qp a)
  | .rcv p => inferInstanceAs (Decidable (p.opcode.transport = qp.qpType.transport))
  | .modify .. | .respond _ | .postRecv _ | .error => isTrue trivial

theorem qpStep_idle {a : QpAction} (h : Idle qp) (hown : OwnStep qp a) : Idle (qpStep qp a) := by
  cases a with
  | modify dev kcalloc attr mask => exact rxeModifyQp_idle h
  | rcv pkt =>
    unfold qpStep rxeRespQueuePkt
    dsimp only
    split
    · refine ⟨h.confined, fun p hp => ?_, h.live⟩
      rcases List.mem_append.mp hp with hp | hp
      · exact h.own p hp
      · rw [List.mem_singleton.mp hp]
        exact hown
    · exact h
  | respond env => exact respond_idle env h
  | postRecv wqe => exact h.of_aside (.of rfl rfl rfl rfl rfl)
  | error => exact h.error

/-- In every run of a QP all that is stored for an RDMA WRITE lies in the interval that the RETH
of its first packet announced, also when requests are refused or the QP is reset in between. -/
theorem writes_every_run (t : QpType) (srq : Option Bool) (rcqIsUser : Bool) (mrs : MrPool)
    (as : List QpAction) (h : Run.Steps qpStep OwnStep (newQp t srq rcqIsUser mrs) as) :
    ∀ qp ∈ Run.states qpStep (newQp t srq rcqIsUser mrs) as, WritesConfined qp.log := by
  have hnew : Idle (newQp t srq rcqIsUser mrs) :=
    ⟨trivial, List.forall_mem_nil _, .inr (.inr ⟨nofun, by simp [writeHeads, newQp], rfl⟩)⟩
  intro qp hqp
  exact (h.invariant (fun _ _ => qpStep_idle) hnew qp hqp).confined

def writePkt (op : Op) (psn : Psn) (pad : Nat) (payload : List UInt8) : ReqPkt :=
  { opcode := ⟨.rc, op⟩, psn := psn, pad := pad, reth := ⟨8, 0x100, 257⟩, payload := payload }

/-- A WRITE of 257 bytes in two packets. -/
def writeRun : List QpAction :=
  connect 4 ++ [.rcv (writePkt .rdmaWriteFirst 0 0 (List.replicate 256 1)), .respond {},
    .rcv (writePkt .rdmaWriteLast 1 3 [2]), .respond {}]

theorem writes_every_run_two_packets :
    .writeIn (some 1) 264 [2] ∈ (Run.final qpStep (newQp .rc none false onePool) writeRun).log ∧
      ∀ qp ∈ Run.states qpStep (newQp .rc none false onePool) writeRun, WritesConfined qp.log := by
  refine ⟨by decide +kernel, writes_every_run .rc none false onePool _ ?_⟩
  decide +kernel

end Rxe
