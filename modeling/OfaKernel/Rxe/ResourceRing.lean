-- SUMMARY: The ring of READ and atomic resources of an rxe responder stays safe.
import OfaKernel.Rxe.ModifyQp
import OfaKernel.Lib.Run

/-!
# The ring of responder resources

The responder remembers its last READ and atomic requests in an array. `resp.res_head` is an
index of it and `resp.res` points into it; both outlive the array when it is replaced. `RingSafe`
says what the responder relies on, `RingStepOk` when a step keeps it.
-/

namespace Rxe

/-! ## Safety of the ring -/

def Event.RingOk : Event → Prop
  | .freeResources visited allocated => visited = allocated
  | .replayRead type => type = .read
  | .replayAtomic type => type = .atomic
  | _ => True

/-- The ring as the responder relies on it. -/
structure RingSafe (qp : RxeQp) : Prop where
  head : ∀ a, qp.resp.resources = some a → qp.resp.resHead < a.slots.length
  ready : qp.resp.state = .ready → qp.resp.resources.isSome
  res : ∀ p, qp.resp.res = some p → ∃ a r, qp.resp.resources = some a ∧ p.1 = a.gen ∧
    a.slots[p.2]? = some r ∧ r.type = .read
  events : ∀ e ∈ qp.log, e.RingOk

/-- A duplicate of PSN `psn` lies in the request `q`. -/
def RingReq.Covers (q : RingReq) (psn : Psn) : Prop :=
  0 ≤ psnCompare psn q.firstPsn ∧ psnCompare psn q.lastPsn ≤ 0

instance (q : RingReq) (psn : Psn) : Decidable (q.Covers psn) := inferInstanceAs (Decidable (_ ∧ _))

/-- The kind of request that `pkt` repeats, unless it is a SEND or a WRITE. -/
def ReqPkt.repeats (pkt : ReqPkt) : ResType := if pkt.mask.readMask then .read else .atomic

/-- A duplicate READ or atomic lies in no request of the other kind among the last that took a
slot, as many as there are slots. -/
def DupOk (qp : RxeQp) (pkt : ReqPkt) : Prop :=
  pkt.mask.sendMask ∨ pkt.mask.writeMask ∨
    ∀ q ∈ qp.remembered.take qp.maxDestRdAtomic.toNat, q.Covers pkt.psn → q.type = pkt.repeats

/-- Resources are replaced by as many, at most 128, while no READ is being answered, and not lost
while requests are accepted; a reset finds no READ being answered; a duplicate lies in no request of
the other kind. -/
def RingStepOk (qp : RxeQp) : QpAction → Prop
  | .modify dev kcalloc attr mask =>
    rxeQpChkAttr dev qp attr mask →
      (.maxDestRdAtomic ∈ mask →
        attr.maxDestRdAtomic ≤ 128 ∧ qp.resp.res = none ∧
        (kcalloc ∨ qp.resp.state ≠ .ready) ∧
        ∀ a ∈ qp.resp.resources,
          a.slots.length = roundupPowOfTwo attr.maxDestRdAtomic.toNat) ∧
      (.state ∈ mask → attr.qpState = .reset → qp.resp.res = none)
  | .respond _ =>
    qp.resp.state ≠ .error → qp.resp.res = none →
      ∀ pkt ∈ qp.reqPkts.head?, psnCompare pkt.psn qp.resp.psn < 0 → DupOk qp pkt
  | _ => True

instance (qp : RxeQp) (pkt : ReqPkt) : Decidable (DupOk qp pkt) :=
  inferInstanceAs (Decidable (_ ∨ _ ∨ _))

instance (qp : RxeQp) : ∀ a : QpAction, Decidable (RingStepOk qp a)
  | .modify .. => inferInstanceAs (Decidable (_ → (_ → _ ∧ _ ∧ _ ∧ ∀ _ ∈ _, _) ∧ (_ → _ → _)))
  | .respond _ => inferInstanceAs (Decidable (_ → _ → ∀ _ ∈ _, _ → _))
  | .rcv _ | .postRecv _ | .error => .isTrue trivial

/-- How many requests took a slot after slot `j` of `n`, if `head` is the next. -/
def slotAge (n head j : Nat) : Nat := if j < head then head - 1 - j else head + n - 1 - j

/-- The invariant behind `RingSafe`: the array has as many slots as the attribute says, and a slot
in use holds the request that its age says. -/
structure RingInv (qp : RxeQp) : Prop where
  type : qp.qpType = .rc
  length : ∀ a, qp.resp.resources = some a → a.slots.length = qp.maxDestRdAtomic.toNat
  past : ∀ a, qp.resp.resources = some a → ∀ j r, a.slots[j]? = some r → r.type ≠ .unused →
    qp.remembered[slotAge a.slots.length qp.resp.resHead j]? = some r.ringReq
  safe : RingSafe qp

/-! ## States that leave the ring alone -/

/-- The ring is the same, and only events that do not matter to it were added. -/
structure SameRing (qp qp' : RxeQp) : Prop where
  type : qp'.qpType = qp.qpType
  max : qp'.maxDestRdAtomic = qp.maxDestRdAtomic
  state : qp'.resp.state = qp.resp.state
  resources : qp'.resp.resources = qp.resp.resources
  resHead : qp'.resp.resHead = qp.resp.resHead
  res : qp'.resp.res = qp.resp.res
  remembered : qp'.remembered = qp.remembered
  events : ∀ e ∈ qp'.log, e ∈ qp.log ∨ e.RingOk

variable {qp : RxeQp}

variable {qp' : RxeQp} {i : Nat} {r : RespRes}

theorem SameRing.of (h : (qp'.qpType, qp'.maxDestRdAtomic, qp'.resp.state, qp'.resp.resources,
      qp'.resp.resHead, qp'.resp.res, qp'.remembered, qp'.log) =
    (qp.qpType, qp.maxDestRdAtomic, qp.resp.state, qp.resp.resources, qp.resp.resHead, qp.resp.res,
      qp.remembered, qp.log)) : SameRing qp qp' := by
  simp only [Prod.mk.injEq] at h
  obtain ⟨htype, hmax, hstate, hresources, hhead, hres, hremembered, hlog⟩ := h
  exact ⟨htype, hmax, hstate, hresources, hhead, hres, hremembered, fun e he => .inl (hlog ▸ he)⟩

theorem SameRing.rfl' : SameRing qp qp := .of rfl

theorem SameRing.trans {qp₁ qp₂ qp₃ : RxeQp} (h : SameRing qp₁ qp₂) (h' : SameRing qp₂ qp₃) :
    SameRing qp₁ qp₃ where
  type := h'.type.trans h.type
  max := h'.max.trans h.max
  state := h'.state.trans h.state
  resources := h'.resources.trans h.resources
  resHead := h'.resHead.trans h.resHead
  res := h'.res.trans h.res
  remembered := h'.remembered.trans h.remembered
  events e he := (h'.events e he).elim (h.events e) .inr

theorem SameRing.emit (qp : RxeQp) {e : Event} (he : e.RingOk) : SameRing qp (qp.emit e) := by
  refine ⟨rfl, rfl, rfl, rfl, rfl, rfl, rfl, fun e' h => ?_⟩
  rcases List.mem_cons.mp h with rfl | h
  · exact .inr he
  · exact .inl h

theorem SameRing.slot (h : SameRing qp qp') : qp'.slot i = qp.slot i := by
  simp only [RxeQp.slot, h.resources]

theorem RingInv.of_same (hi : RingInv qp) (h : SameRing qp qp') :
    RingInv qp' where
  type := h.type.trans hi.type
  length := by rw [h.resources, h.max]; exact hi.length
  past := by rw [h.resources, h.resHead, h.remembered]; exact hi.past
  safe :=
    { head := by rw [h.resources, h.resHead]; exact hi.safe.head
      ready := by rw [h.resources, h.state]; exact hi.safe.ready
      res := by rw [h.resources, h.res]; exact hi.safe.res
      events := fun e he => (h.events e he).elim (hi.safe.events e) id }

theorem sendAck_same (env : RespEnv) (qp : RxeQp) (syndrome : UInt8) (psn : Psn) :
    SameRing qp (sendAck env qp syndrome psn) := by
  obtain h | ⟨p, h⟩ := sendAck_cases env qp syndrome psn <;> rw [h]
  · exact .rfl'
  · exact .emit qp trivial

theorem xmitResponse_same (env : RespEnv) (qp : RxeQp) (p : RespPkt) :
    SameRing qp (xmitResponse env qp p).1 := by
  obtain h | h := xmitResponse_cases env qp p <;> rw [h]
  · exact .rfl'
  · exact .emit qp trivial

theorem checkPsn_same (qp : RxeQp) (pkt : ReqPkt) : SameRing qp (checkPsn qp pkt).1 := by
  unfold checkPsn
  dsimp only
  repeat' split
  all_goals exact .of rfl

theorem checkOpSeq_same (qp : RxeQp) (pkt : ReqPkt) : SameRing qp (checkOpSeq qp pkt).1 := by
  unfold checkOpSeq
  dsimp only
  repeat' split
  all_goals exact .of rfl

theorem checkOpValid_same (qp : RxeQp) (pkt : ReqPkt) : SameRing qp (checkOpValid qp pkt).1 := by
  unfold checkOpValid
  repeat' split
  all_goals exact .of rfl

theorem checkResource_same (qp : RxeQp) (pkt : Option ReqPkt) :
    SameRing qp (checkResource qp pkt).1 := by
  unfold checkResource getSrqWqe
  repeat' split
  any_goals exact .emit qp trivial
  all_goals exact .of rfl

variable {pkt : ReqPkt}

theorem latchRkey_same {access : Access} (h : latchRkey qp pkt = some (qp', access)) :
    SameRing qp qp' := by
  unfold latchRkey at h
  repeat' split at h
  all_goals cases h
  all_goals exact .of rfl

theorem checkRkey_same (qp : RxeQp) (pkt : ReqPkt) : SameRing qp (checkRkey qp pkt).1 := by
  unfold checkRkey
  split
  · exact .rfl'
  next qp' access hl =>
    have := latchRkey_same hl
    repeat' split
    any_goals exact this
    exact this.trans (.of rfl)

theorem setCurWqe_same (qp : RxeQp) (w : RecvWqe) : SameRing qp (qp.setCurWqe w) := by
  unfold RxeQp.setCurWqe
  split
  all_goals exact .of rfl

theorem sendDataIn_same (env : RespEnv) (qp : RxeQp) (data : List UInt8) :
    SameRing qp (sendDataIn env qp data).1 := by
  unfold sendDataIn
  split
  · exact .emit qp trivial
  · repeat' split
    any_goals exact .rfl'
    exact setCurWqe_same qp _

theorem writeDataIn_same (qp : RxeQp) (pkt : ReqPkt) : SameRing qp (writeDataIn qp pkt).1 := by
  unfold writeDataIn
  split
  · exact (SameRing.emit qp (e := .writeIn _ _ _) trivial).trans (.emit _ trivial)
  · exact .rfl'
  · exact (SameRing.emit qp (e := .writeIn _ _ _) trivial).trans
      (.of rfl)

theorem processAtomic_same (env : RespEnv) (qp : RxeQp) (pkt : ReqPkt) :
    SameRing qp (processAtomic env qp pkt).1 := by
  have horig : ∀ orig, SameRing qp { qp with resp := { qp.resp with atomicOrig := orig } } :=
    fun _ => .of rfl
  unfold processAtomic
  split
  · exact .emit qp trivial
  split
  · exact .emit qp trivial
  split
  · exact .rfl'
  split
  · exact .rfl'
  dsimp only
  split
  · split
    · exact (horig _).trans (.emit _ trivial)
    · exact horig _
  · exact (horig _).trans (.emit _ trivial)

theorem execute_same (env : RespEnv) (qp : RxeQp) (pkt : ReqPkt) :
    SameRing qp (execute env qp pkt).1 := by
  have hemit : SameRing qp (qp.emit (.execute pkt)) := .emit qp trivial
  have hdata : SameRing qp (executeData env (qp.emit (.execute pkt)) pkt).1 := by
    apply hemit.trans
    unfold executeData
    repeat' split
    · exact sendDataIn_same env _ _
    · exact writeDataIn_same _ _
    · exact processAtomic_same env _ _
    · exact .rfl'
  unfold execute
  dsimp only
  split
  · exact hemit.trans (.of rfl)
  · split
    · exact hdata.trans (.of rfl)
    · exact hdata

theorem doComplete_same (env : RespEnv) (qp : RxeQp) (pkt : Option ReqPkt) :
    SameRing qp (doComplete env qp pkt).1 := by
  unfold doComplete
  split
  · exact .rfl'
  split
  · exact .rfl'
  next qp' hinv =>
    obtain ⟨mrs, rfl⟩ := invalidateOnComplete_eq hinv
    have hpop : SameRing qp (popWqe { qp with mrs := mrs }) :=
      .of rfl
    unfold completePost
    split
    · exact hpop
    · exact hpop.trans (.emit _ trivial)

theorem doClassD1eError_same (qp : RxeQp) : SameRing qp (doClassD1eError qp).1 := by
  unfold doClassD1eError
  dsimp only
  split
  · split
    all_goals exact .of rfl
  · split
    · exact .of rfl
    · exact (setCurWqe_same qp _).trans (.of rfl)

/-! ## States that use the ring -/

theorem slotAge_lt {n head j : Nat} (hj : j < n) (hhead : head < n) : slotAge n head j < n := by
  unfold slotAge
  split <;> omega

/-- A request that takes the next slot makes the others older. -/
theorem slotAge_advance {n head j : Nat} (hj : j < n) (hhead : head < n) :
    slotAge n (if head + 1 = n then 0 else head + 1) j =
      if head = j then 0 else slotAge n head j + 1 := by
  unfold slotAge
  split_ifs <;> omega

theorem RxeQp.setSlot_some {a : ResArray} (ha : qp.resp.resources = some a) (i : Nat)
    (r : RespRes) : qp.setSlot i r = { qp with
      resp := { qp.resp with resources := some { a with slots := a.slots.set i r } } } := by
  rw [RxeQp.setSlot, ha]

theorem RxeQp.slot_eq_some (h : qp.slot i = some r) :
    ∃ a, qp.resp.resources = some a ∧ a.slots[i]? = some r := by
  unfold RxeQp.slot at h
  split at h
  · cases h
  next a ha => exact ⟨a, ha, h⟩

theorem RxeQp.setSlot_slot {r₀ : RespRes} (h : qp.slot i = some r₀) :
    (qp.setSlot i r).slot i = some r := by
  obtain ⟨a, ha, h⟩ := RxeQp.slot_eq_some h
  rw [RxeQp.setSlot_some ha]
  exact List.getElem?_set_self (List.getElem?_eq_some_iff.mp h).1

/-- A write to a slot that still holds the same request. -/
theorem RingInv.setSlot (hi : RingInv qp) {r₀ : RespRes} (hslot : qp.slot i = some r₀)
    (hr : r.ringReq = r₀.ringReq) : RingInv (qp.setSlot i r) := by
  obtain ⟨a, ha, hslot⟩ := RxeQp.slot_eq_some hslot
  rw [RxeQp.setSlot_some ha]
  -- what any slot holds after the write, some slot held before with the same request
  have hset : ∀ (j : Nat) (r' : RespRes), (a.slots.set i r)[j]? = some r' →
      ∃ r₁, a.slots[j]? = some r₁ ∧ r'.ringReq = r₁.ringReq := by
    intro j r' hj
    by_cases hij : i = j
    · subst hij
      rw [List.getElem?_set_self (List.getElem?_eq_some_iff.mp hslot).1] at hj
      cases hj
      exact ⟨r₀, hslot, hr⟩
    · rw [List.getElem?_set_ne hij] at hj
      exact ⟨r', hj, rfl⟩
  refine ⟨hi.type, ?_, ?_, ?_, fun _ => rfl, ?_, hi.safe.events⟩
  · simpa using hi.length a ha
  · rintro _ ⟨⟩ j r' hj hlive
    obtain ⟨r₁, hr₁, heq⟩ := hset j r' hj
    have htype : r'.type = r₁.type := congrArg RingReq.type heq
    rw [heq, List.length_set]
    exact hi.past a ha j r₁ hr₁ (htype ▸ hlive)
  · simpa using hi.safe.head a ha
  · intro p hp
    obtain ⟨a', r', ha', hgen, hp', htype⟩ := hi.safe.res p hp
    obtain rfl := Option.some.inj (ha.symm.trans ha')
    by_cases hip : i = p.2
    · have hr₀ : r₀ = r' := by
        rw [hip, hp'] at hslot
        exact (Option.some.inj hslot).symm
      have hread : r.type = .read := (congrArg RingReq.type hr).trans (hr₀ ▸ htype)
      exact ⟨_, r, rfl, hgen,
        hip ▸ List.getElem?_set_self (List.getElem?_eq_some_iff.mp hslot).1, hread⟩
    · exact ⟨_, r', rfl, hgen, (List.getElem?_set_ne hip).trans hp', htype⟩

/-- A request takes the next slot. -/
theorem RingInv.take (hi : RingInv qp) (hres : qp.resp.res = none) (r : RespRes) :
    RingInv ((rxeAdvanceRespResource (qp.setSlot qp.resp.resHead r)).remember r) := by
  have hnone : ∀ p, qp.resp.res ≠ some p := fun p => by simp [hres]
  cases ha : qp.resp.resources with
  | none =>
    have hset : qp.setSlot qp.resp.resHead r = qp := by rw [RxeQp.setSlot, ha]
    have hempty : ∀ a, qp.resp.resources ≠ some a := fun a => by simp [ha]
    rw [hset]
    exact ⟨hi.type, fun a h => absurd h (hempty a), fun a h => absurd h (hempty a),
      fun a h => absurd h (hempty a), hi.safe.ready, fun p hp => absurd hp (hnone p),
      hi.safe.events⟩
  | some a =>
    have hlen := hi.length a ha
    have hhead := hi.safe.head a ha
    rw [RxeQp.setSlot_some ha]
    refine ⟨hi.type, ?_, ?_, ?_, fun _ => rfl, fun p hp => absurd hp (hnone p), hi.safe.events⟩
    · rintro _ ⟨⟩
      exact List.length_set.trans hlen
    · rintro _ ⟨⟩ j r' hj hlive
      have hj' : j < a.slots.length := by simpa using (List.getElem?_eq_some_iff.mp hj).1
      simp only [RxeQp.remember, rxeAdvanceRespResource, List.length_set, ← hlen] at hj ⊢
      rw [slotAge_advance hj' hhead]
      split
      next hij =>
        rw [hij, List.getElem?_set_self hj'] at hj
        cases hj
        rfl
      next hij =>
        rw [List.getElem?_set_ne hij] at hj
        exact hi.past a ha j r' hj hlive
    · rintro _ ⟨⟩
      simp only [RxeQp.remember, rxeAdvanceRespResource, List.length_set]
      split <;> omega

theorem sendAtomicAck_inv {env : RespEnv} (hi : RingInv qp) (hres : qp.resp.res = none)
    (pkt : ReqPkt) (syndrome : UInt8) :
    RingInv (sendAtomicAck env qp pkt syndrome) := by
  unfold sendAtomicAck
  split
  · exact hi
  split
  · exact hi.of_same (.emit qp trivial)
  · exact (hi.take hres _).of_same (xmitResponse_same env _ _)

theorem readReplyRes_inv (hi : RingInv qp) (h : readReplyRes qp pkt = some (qp', i, r)) :
    RingInv qp' ∧ qp'.slot i = some r := by
  unfold readReplyRes at h
  split at h
  next p hp =>
    split at h
    · cases h
    next j hj =>
      obtain ⟨r', hr', heq⟩ := Option.map_eq_some_iff.mp h
      cases heq
      exact ⟨hi, hr'⟩
  next hnone =>
    split at h
    · cases h
    next a ha =>
      split at h
      · cases h
      next r₀ hr₀ =>
        cases h
        have htake := hi.take hnone (newReadRes qp r₀ pkt)
        have hself := List.getElem?_set_self (a := newReadRes qp r₀ pkt) (hi.safe.head a ha)
        have hnew : (qp.setSlot qp.resp.resHead (newReadRes qp r₀ pkt)).resp.resources =
            some { a with slots := a.slots.set qp.resp.resHead (newReadRes qp r₀ pkt) } := by
          rw [RxeQp.setSlot_some ha]
        have hslot : ∀ q : RxeQp, q.resp.resources =
            some { a with slots := a.slots.set qp.resp.resHead (newReadRes qp r₀ pkt) } →
            q.slot qp.resp.resHead = some (newReadRes qp r₀ pkt) := fun q hq => by
          rw [RxeQp.slot, hq]
          exact hself
        refine ⟨⟨htake.type, htake.length, htake.past, htake.safe.head, htake.safe.ready, ?_,
          htake.safe.events⟩, hslot _ hnew⟩
        rintro p ⟨⟩
        exact ⟨_, _, hnew, rfl, hself, rfl⟩

theorem readReplyFinish_inv (hi : RingInv qp) {r₀ : RespRes} (hslot : qp.slot i = some r₀)
    (hr : r.ringReq = r₀.ringReq) : RingInv (readReplyFinish qp i r).1 := by
  have hset := hi.setSlot hslot hr
  unfold readReplyFinish
  split
  · exact hset
  · refine ⟨hset.type, hset.length, hset.past, hset.safe.head, hset.safe.ready, ?_,
      hset.safe.events⟩
    intro p hp
    cases hp

theorem readReply_inv (env : RespEnv) (hi : RingInv qp) (pkt : ReqPkt) :
    RingInv (readReply env qp pkt).1 := by
  have hxmit : ∀ {qp : RxeQp} {i : Nat} {r : RespRes} {payload : Int} {ack : RespPkt},
      RingInv qp → qp.slot i = some r → RingInv (readReplyXmit env qp i r payload ack).1 := by
    intro qp i r payload ack hi hslot
    have hsame := xmitResponse_same env qp ack
    unfold readReplyXmit
    dsimp only
    split
    · exact readReplyFinish_inv (hi.of_same hsame) (hsame.slot.trans hslot) rfl
    · exact hi.of_same hsame
  unfold readReply
  split
  · exact hi.of_same (.emit qp trivial)
  next qp₁ i r hres =>
    obtain ⟨hi₁, hslot⟩ := readReplyRes_inv hi hres
    have hset := hi₁.setSlot (r := { r with state := .next }) hslot rfl
    have hslot₁ := RxeQp.setSlot_slot (r := { r with state := .next }) hslot
    unfold readReplySend
    dsimp only
    split
    · exact hset
    · split
      · exact hset.of_same (.emit _ trivial)
      · exact hxmit hset hslot₁
      · exact hxmit (hset.of_same (.emit _ trivial)) hslot₁

theorem findResource_found {psn : Psn} (h : findResource qp psn = .found i r) :
    qp.slot i = some r ∧ r.covers psn := by
  have hfrom : ∀ n j, findResourceFrom qp psn j n = .found i r →
      qp.slot i = some r ∧ r.covers psn := by
    intro n
    induction n with
    | zero => intro j hj; cases hj
    | succ n ih =>
      intro j hj
      simp only [findResourceFrom] at hj
      split at hj
      · cases hj
      next r' hr' =>
        split at hj
        next hcov => cases hj; exact ⟨hr', hcov⟩
        · exact ih (j + 1) hj
  exact hfrom _ 0 h

/-- The slot that a duplicate finds by its PSN is of its kind. -/
theorem DupOk.found (hd : DupOk qp pkt) (hi : RingInv qp)
    (hdata : ¬(pkt.mask.sendMask ∨ pkt.mask.writeMask))
    (hf : findResource qp pkt.psn = .found i r) : r.type = pkt.repeats := by
  obtain ⟨hslot, hcov⟩ := findResource_found hf
  simp only [RespRes.covers, decide_eq_true_eq] at hcov
  obtain ⟨a, ha, hslot⟩ := RxeQp.slot_eq_some hslot
  have hage := slotAge_lt (List.getElem?_eq_some_iff.mp hslot).1 (hi.safe.head a ha)
  have hpast := hi.past a ha i r hslot hcov.1
  rw [not_or] at hdata
  refine (hd.resolve_left hdata.1).resolve_left hdata.2 r.ringReq ?_ hcov.2
  rw [← hi.length a ha]
  exact List.mem_of_getElem? ((List.getElem?_take_of_lt hage).trans hpast)

theorem duplicateRequest_inv (env : RespEnv) (hi : RingInv qp) (hd : DupOk qp pkt) :
    RingInv (duplicateRequest env qp pkt).1 := by
  unfold duplicateRequest
  split
  · split
    · exact hi.of_same (sendAck_same env qp _ _)
    · exact hi
  next hdata =>
  have hfound : ∀ {i r}, findResource qp pkt.psn = .found i r → r.type = pkt.repeats :=
    fun hf => hd.found hi hdata hf
  split
  next hread =>
    split
    · exact hi.of_same (.emit qp trivial)
    · exact hi
    next i r hf =>
      split
      · exact hi
      next hacc =>
        have htype : r.type = .read := by rw [hfound hf, ReqPkt.repeats, if_pos hread]
        have hslot := (findResource_found hf).1
        have hset := (hi.setSlot (r := replayRes r pkt) hslot rfl).of_same
          (.emit _ (e := .replayRead r.type) htype)
        refine ⟨hset.type, hset.length, hset.past, hset.safe.head, hset.safe.ready, ?_,
          hset.safe.events⟩
        intro p hp
        obtain ⟨a, ha, hnew⟩ :=
          RxeQp.slot_eq_some (RxeQp.setSlot_slot (r := replayRes r pkt) hslot)
        have hp' : some (a.gen, i) = some p := by
          simpa [RxeQp.emit, ha] using hp
        obtain rfl := Option.some.inj hp'
        exact ⟨a, _, ha, rfl, hnew, htype⟩
  next hread =>
    split
    · exact hi.of_same (.emit qp trivial)
    · exact hi
    next i r hf =>
      have htype : r.type = .atomic := by rw [hfound hf, ReqPkt.repeats, if_neg hread]
      have hrep : SameRing qp (qp.emit (.replayAtomic r.type)) := .emit qp htype
      unfold resendAtomic
      dsimp only
      split
      · split
        · exact hi.of_same (hrep.trans (.emit _ trivial))
        · exact hi.of_same hrep
      · exact hi.of_same (hrep.trans (.emit _ trivial))

/-! ## A run of the responder -/

/-- A state that only the packet at the head of the queue leads to. -/
def RespState.early : RespState → Bool
  | .getReq | .chkPsn | .duplicateRequest => true
  | _ => false

theorem RespState.early_of_rank {s : RespState} (h : s.rank < 8) : s.early = false := by
  revert h
  cases s <;> simp [RespState.rank, RespState.early]

/-- A state that is reached only while no READ is being answered. -/
def RespState.idle : RespState → Bool
  | .chkPsn | .chkOpSeq | .chkOpValid | .chkLength | .chkRkey | .execute | .duplicateRequest
  | .acknowledge | .errMalformedWqe | .errUnsupportedOpcode | .errMisalignedAtomic
  | .errMissingOpcodeFirst | .errMissingOpcodeLastC | .errMissingOpcodeLastD1e
  | .errTooManyRdmaAtmReq | .errRkeyViolation | .errLength => true
  | _ => false

/-- What holds in every round of the loop. -/
structure RingLoop (qp : RxeQp) (pkt : Option ReqPkt) (state : RespState) : Prop where
  inv : RingInv qp
  idle : state.idle → qp.resp.res = none
  drain : state = .chkResource ∨ state = .complete → qp.resp.state ≠ .error →
    qp.resp.res = none
  start : state = .getReq → qp.resp.state ≠ .error → qp.resp.res = none →
    ∀ p ∈ qp.reqPkts.head?, psnCompare p.psn qp.resp.psn < 0 → DupOk qp p
  psn : state = .chkPsn → ∀ p ∈ pkt, psnCompare p.psn qp.resp.psn < 0 → DupOk qp p
  dup : state = .duplicateRequest → ∀ p ∈ pkt, DupOk qp p

variable {state : RespState}

/-- A state that no packet check precedes any more asks only for the invariant. -/
theorem RingLoop.late {pkt : Option ReqPkt} (hi : RingInv qp) (hs : state.early = false)
    (hres : qp.resp.res = none) : RingLoop qp pkt state := by
  refine ⟨hi, fun _ => hres, fun _ _ => hres, ?_, ?_, ?_⟩
  all_goals rintro rfl; cases hs

/-- The states at the end of the loop ask for the invariant alone. -/
theorem RingLoop.last {pkt : Option ReqPkt} (hi : RingInv qp)
    (hs : state ∈ [.readReply, .cleanup, .done, .exit, .error, .errRnr, .errCqOverflow, .none]) :
    RingLoop qp pkt state := by
  refine ⟨hi, ?_, ?_, ?_, ?_, ?_⟩
  · intro h
    simp only [List.mem_cons, List.not_mem_nil, or_false] at hs
    rcases hs with rfl | rfl | rfl | rfl | rfl | rfl | rfl | rfl <;> cases h
  all_goals
    simp only [List.mem_cons, List.not_mem_nil, or_false] at hs
    rcases hs with rfl | rfl | rfl | rfl | rfl | rfl | rfl | rfl <;> simp

/-- A state that leaves the ring alone and finds it idle. -/
theorem RingLoop.of_same {pkt pkt' : Option ReqPkt} {state state' : RespState}
    (h : RingLoop qp pkt state) (hres : qp.resp.res = none) (hs : SameRing qp qp')
    (hearly : state'.early = false) : RingLoop qp' pkt' state' :=
  .late (h.inv.of_same hs) hearly (hs.res.trans hres)

theorem DupOk.of_same (hs : SameRing qp qp') {p : ReqPkt} (h : DupOk qp p) :
    DupOk qp' p := by
  rw [DupOk, hs.remembered, hs.max]
  exact h

theorem respStep_ringLoop (env : RespEnv) (qp : RxeQp) (pkt : Option ReqPkt) (state : RespState)
    (h : RingLoop qp pkt state) : (respStep env qp pkt state).Holds RingLoop RingInv := by
  have hoops : RingInv (qp.emit .oops) := h.inv.of_same (.emit qp trivial)
  cases state with
  | getReq =>
    simp only [respStep, RespStep.Holds, getReq]
    by_cases herr : qp.resp.state = .error
    · simp only [if_pos herr]
      cases hp : qp.reqPkts with
      | nil => exact ⟨h.inv, by simp [RespState.idle], fun _ hne => absurd herr hne, by simp,
          by simp, by simp⟩
      | cons p ps =>
        refine ⟨h.inv.of_same (.of rfl),
          by simp [RespState.idle], by simp, fun _ hne => absurd herr hne, by simp, by simp⟩
    · simp only [if_neg herr]
      cases hp : qp.reqPkts with
      | nil => exact .last h.inv (by simp)
      | cons p ps =>
        cases hres : qp.resp.res with
        | some r => exact .last h.inv (by simp)
        | none =>
          refine ⟨h.inv, fun _ => hres, by simp, by simp, fun _ p' hp' => ?_, by simp⟩
          cases hp'
          exact h.start rfl herr hres p (by simp [hp])
  | chkPsn =>
    refine withPkt_holds hoops fun p hp => ?_
    have hsame := checkPsn_same qp p
    have hres := hsame.res.trans (h.idle rfl)
    refine ⟨h.inv.of_same hsame, fun _ => hres, fun _ _ => hres, ?_, ?_, fun hs p' hp' => ?_⟩
    · unfold checkPsn
      dsimp only
      repeat' split
      all_goals simp
    · unfold checkPsn
      dsimp only
      repeat' split
      all_goals simp
    · obtain rfl : p = p' := Option.some.inj ((Option.mem_def.mp hp).symm.trans hp')
      refine (h.psn rfl p hp ?_).of_same hsame
      revert hs
      unfold checkPsn
      dsimp only
      repeat' split
      all_goals simp_all
  | chkOpSeq =>
    refine withPkt_holds hoops fun p _ => h.of_same (h.idle rfl) (checkOpSeq_same qp p) ?_
    unfold checkOpSeq
    dsimp only
    repeat' split
    all_goals rfl
  | chkOpValid =>
    refine withPkt_holds hoops fun p _ => h.of_same (h.idle rfl) (checkOpValid_same qp p) ?_
    unfold checkOpValid
    repeat' split
    all_goals rfl
  | chkResource =>
    have hsame := checkResource_same qp pkt
    have hinv := h.inv.of_same hsame
    by_cases herr : qp.resp.state = .error
    · refine ⟨hinv, ?_, fun _ hne => absurd (hsame.state.trans herr) hne, ?_, ?_, ?_⟩
      all_goals
        unfold checkResource
        repeat' split
        all_goals simp_all [RespState.idle]
    · refine .late hinv ?_ (hsame.res.trans (h.drain (.inl rfl) herr))
      unfold checkResource getSrqWqe
      repeat' split
      all_goals rfl
  | chkLength => exact h.of_same (h.idle rfl) .rfl' rfl
  | chkRkey =>
    refine withPkt_holds hoops fun p _ => h.of_same (h.idle rfl) (checkRkey_same qp p) ?_
    unfold checkRkey
    repeat' split
    all_goals rfl
  | execute =>
    exact withPkt_holds hoops fun p _ => h.of_same (h.idle rfl) (execute_same env qp p)
      (RespState.early_of_rank (execute_lowers env qp p).1)
  | readReply =>
    refine withPkt_holds hoops fun p _ => .last (readReply_inv env h.inv p) ?_
    unfold readReply readReplySend readReplyXmit readReplyFinish
    dsimp only
    repeat' split
    all_goals simp
  | complete =>
    have hsame := doComplete_same env qp pkt
    have hinv := h.inv.of_same hsame
    by_cases herr : qp.resp.state = .error
    · have hnext := doComplete_next_of_error env herr pkt
      refine ⟨hinv, ?_, fun _ hne => absurd (hsame.state.trans herr) hne, ?_, ?_, ?_⟩
      all_goals
        intro hs
        revert hnext hs
        generalize (doComplete env qp pkt).2 = s
        cases s <;> simp [RespState.idle]
    · refine .late hinv ?_ (hsame.res.trans (h.drain (.inr rfl) herr))
      unfold doComplete completePost
      repeat' split
      all_goals rfl
  | acknowledge =>
    refine withPkt_holds hoops fun p _ => .last ?_ ?_
    · unfold acknowledge
      repeat' split
      · exact h.inv
      · exact h.inv.of_same (sendAck_same env qp _ _)
      · exact sendAtomicAck_inv h.inv (h.idle rfl) p _
      · exact h.inv.of_same (sendAck_same env qp _ _)
      · exact h.inv
    · unfold acknowledge
      repeat' split
      all_goals simp
  | cleanup =>
    exact .last (h.inv.of_same (.of rfl)) (by simp [cleanup])
  | duplicateRequest =>
    refine withPkt_holds hoops fun p hp =>
      .last (duplicateRequest_inv env h.inv (h.dup rfl p hp)) ?_
    unfold duplicateRequest resendAtomic
    dsimp only
    repeat' split
    all_goals simp
  | errPsnOutOfSeq => exact .last (h.inv.of_same (sendAck_same env qp _ _)) (by simp)
  | errTooManyRdmaAtmReq => exact h.of_same (h.idle rfl) (.of rfl) rfl
  | errMissingOpcodeFirst => exact h.of_same (h.idle rfl) (.of rfl) rfl
  | errMissingOpcodeLastC => exact h.of_same (h.idle rfl) (.of rfl) rfl
  | errUnsupportedOpcode => exact h.of_same (h.idle rfl) (.of rfl) rfl
  | errMisalignedAtomic => exact h.of_same (h.idle rfl) (.of rfl) rfl
  | errMalformedWqe => exact h.of_same (h.idle rfl) (.of rfl) rfl
  | errMissingOpcodeLastD1e =>
    refine h.of_same (h.idle rfl) (doClassD1eError_same qp) ?_
    unfold doClassD1eError
    dsimp only
    repeat' split
    all_goals rfl
  | errRnr =>
    simp only [respStep, h.inv.type]
    exact withPkt_holds hoops fun p _ => .last (h.inv.of_same (sendAck_same env qp _ _)) (by simp)
  | errRkeyViolation =>
    simp only [respStep, h.inv.type]
    exact h.of_same (h.idle rfl) (.of rfl) rfl
  | errLength =>
    simp only [respStep, h.inv.type]
    exact h.of_same (h.idle rfl) (.of rfl) rfl
  | errCqOverflow => exact .last h.inv (by simp)
  | done =>
    simp only [respStep, leave]
    split
    · exact .last h.inv (by simp)
    · exact h.inv
  | exit =>
    simp only [respStep, leave]
    split
    · exact .last h.inv (by simp)
    · exact h.inv
  | reset => exact h.inv.of_same (.of rfl)
  | error =>
    exact ⟨h.inv.type, h.inv.length, h.inv.past, h.inv.safe.head, (fun hr => by cases hr),
      h.inv.safe.res,
      h.inv.safe.events⟩
  | none => exact h.inv

theorem respond_ringInv {env : RespEnv} (hi : RingInv qp) (hok : RingStepOk qp (.respond env)) :
    RingInv (respond env qp) := by
  have hsame : SameRing qp { qp with resp := { qp.resp with aethSyndrome := aethAckUnlimited } } :=
    .of rfl
  refine respond_rule (respStep_ringLoop env) ?_
  refine ⟨hi.of_same hsame, ?_, ?_, ?_, ?_, ?_⟩
  · split <;> simp [RespState.idle]
  · split <;> simp
  · intro _ hne hres p hp hlt
    exact (hok hne hres p hp hlt).of_same hsame
  · split <;> simp
  · split <;> simp

/-! ## The modify verb -/

theorem drainSq_same (n : Nat) (qp : RxeQp) : SameRing qp (drainSq false n qp) := by
  induction n generalizing qp with
  | zero => exact .rfl'
  | succ n ih =>
    unfold drainSq
    split
    · exact .rfl'
    · have hadv : SameRing qp qp.advanceSq := .of rfl
      exact hadv.trans (ih qp.advanceSq)

theorem cleanupRdAtomicResources_inv (hi : RingInv qp) (hres : qp.resp.res = none) :
    RingInv (cleanupRdAtomicResources qp) := by
  unfold cleanupRdAtomicResources
  cases ha : qp.resp.resources with
  | none => exact hi
  | some a =>
    have hlen := hi.length a ha
    dsimp only
    rw [if_neg (by omega)]
    refine ⟨hi.type, ?_, ?_, ?_, fun _ => rfl, ?_, hi.safe.events⟩
    · simpa using hlen
    · -- no slot is in use any more
      rintro _ ⟨⟩ j r hj hlive
      rw [List.getElem?_mapIdx] at hj
      obtain ⟨r₀, hr₀, rfl⟩ := Option.map_eq_some_iff.mp hj
      have hlt := (List.getElem?_eq_some_iff.mp hr₀).1
      rw [if_pos (by omega)] at hlive
      exact absurd rfl hlive
    · simpa using hi.safe.head a ha
    · intro p hp
      have hp' : qp.resp.res = some p := hp
      rw [hres] at hp'
      cases hp'

theorem rxeQpReset_inv (hi : RingInv qp) (hres : qp.resp.res = none) :
    RingInv (rxeQpReset qp) := by
  unfold rxeQpReset
  dsimp only
  rw [respond_reset _ rfl]
  generalize hq : ({ rxeDrainReqPkts _ with resp := _ } : RxeQp) = qp₁
  have hi₁ : RingInv qp₁ := by
    subst hq
    exact ⟨hi.type, hi.length, hi.past, hi.safe.head, (fun h => by cases h), hi.safe.res,
      hi.safe.events⟩
  have hres₁ : qp₁.resp.res = none := by subst hq; exact hres
  have hdrain : SameRing qp₁ (rxeDrainRespPkts qp₁ false) :=
    have hempty : SameRing qp₁ { qp₁ with respPkts := [] } :=
      .of rfl
    hempty.trans (drainSq_same _ _)
  exact cleanupRdAtomicResources_inv
    (hi₁.of_same (hdrain.trans (.of rfl)))
    (hdrain.res.trans hres₁)

theorem roundupPowOfTwo_le {n : Nat} (h : n ≤ 128) : roundupPowOfTwo n ≤ 128 :=
  Nat.pow_le_pow_right (n := 2) (by omega) (Nat.clog_le_of_le_pow (y := 7) h)

/-- Freeing an array that has as many slots as the attribute says. -/
theorem freeRdAtomicResources_spec (qp : RxeQp)
    (hlen : ∀ a ∈ qp.resp.resources, a.slots.length = qp.maxDestRdAtomic.toNat) :
    ∃ log past, freeRdAtomicResources qp =
        { qp with
          log := log, remembered := past, resp := { qp.resp with resources := none } } ∧
      ∀ e ∈ log, e ∈ qp.log ∨ e.RingOk := by
  unfold freeRdAtomicResources
  split
  next ha =>
    refine ⟨qp.log, qp.remembered, ?_, fun _ h => .inl h⟩
    conv_rhs => rw [← ha]
  next a ha =>
    have heq := hlen a ha
    dsimp only
    rw [if_neg (by omega)]
    refine ⟨_, _, rfl, fun e he => ?_⟩
    rcases List.mem_cons.mp he with rfl | he
    · exact .inr heq.symm
    · exact .inl he

theorem freeRdAtomicResources_res (qp : RxeQp) :
    (freeRdAtomicResources qp).resp.res = qp.resp.res := by
  unfold freeRdAtomicResources
  split
  · rfl
  · dsimp only
    split <;> rfl

theorem setRdAtomic_res (kcalloc : Bool) (qp : RxeQp) (attr : QpAttr) (mask : List QpAttrMask) :
    (setRdAtomic kcalloc qp attr mask).1.resp.res = qp.resp.res := by
  unfold setRdAtomic
  dsimp only
  split
  · refine (freeRdAtomicResources_res _).trans ?_
    split <;> rfl
  · split <;> rfl

variable {attr : QpAttr} {mask : List QpAttrMask}

/-- Replacing the resources by as many. -/
theorem setRdAtomic_inv (hi : RingInv qp) (kcalloc : Bool)
    (hok : .maxDestRdAtomic ∈ mask → attr.maxDestRdAtomic ≤ 128 ∧ qp.resp.res = none ∧
      (kcalloc ∨ qp.resp.state ≠ .ready) ∧ ∀ a ∈ qp.resp.resources,
        a.slots.length = roundupPowOfTwo attr.maxDestRdAtomic.toNat) :
    RingInv (setRdAtomic kcalloc qp attr mask).1 ∧
      (.maxDestRdAtomic ∈ mask → (setRdAtomic kcalloc qp attr mask).2 →
        (setRdAtomic kcalloc qp attr mask).1.resp.resources.isSome) := by
  unfold setRdAtomic
  dsimp only
  generalize hq : (if QpAttrMask.maxQpRdAtomic ∈ mask then _ else qp : RxeQp) = qp₁
  have hs : SameRing qp qp₁ := by
    subst hq
    split
    · exact .of rfl
    · exact .rfl'
  split
  next hmem =>
    obtain ⟨hle, hres, halloc, hlen⟩ := hok hmem
    have hn : roundupPowOfTwo attr.maxDestRdAtomic.toNat ≤ 128 := roundupPowOfTwo_le hle
    have hpos : 0 < roundupPowOfTwo attr.maxDestRdAtomic.toNat := Nat.two_pow_pos _
    generalize roundupPowOfTwo attr.maxDestRdAtomic.toNat = n at hlen hn hpos
    have hmax : (UInt8.ofNat n).toNat = n := by
      rw [UInt8.toNat_ofNat']
      omega
    obtain ⟨log, past, hfree, hlog⟩ :=
      freeRdAtomicResources_spec { qp₁ with maxDestRdAtomic := .ofNat n }
        (fun a ha => (hlen a (hs.resources ▸ ha)).trans hmax.symm)
    rw [hfree]
    refine ⟨⟨hs.type.trans hi.type, ?_, ?_, ?_, ?_, ?_, ?_⟩, ?_⟩
    · intro a ha
      cases kcalloc with
      | false => cases ha
      | true =>
        cases ha
        simp [allocRdAtomicResources, hmax]
    · intro a ha j r hj hlive
      cases kcalloc with
      | false => cases ha
      | true =>
        cases ha
        obtain rfl := List.eq_of_mem_replicate (List.mem_of_getElem? hj)
        exact absurd rfl hlive
    · intro a ha
      cases kcalloc with
      | false => cases ha
      | true =>
        cases ha
        simpa [allocRdAtomicResources] using hpos
    · intro hready
      have hready' : qp.resp.state = .ready := hs.state.symm.trans hready
      rcases halloc with h | h
      · simp [allocRdAtomicResources, h]
      · exact absurd hready' h
    · intro p hp
      have hp' : qp.resp.res = some p := hs.res.symm.trans hp
      rw [hres] at hp'
      cases hp'
    · exact fun e he => (hlog e he).elim (fun h => (hs.events e h).elim (hi.safe.events e) id) id
    · intro _ hk
      have hk' : kcalloc = true := hk
      simp [allocRdAtomicResources, hk']
  next hmem => exact ⟨hi.of_same hs, fun h => absurd h hmem⟩

/-- Only the transition from INIT leads to RTR, and on an RC QP it asks for the
resources. -/
theorem maxDestRdAtomic_of_rtr {dev : RxeDev} (hrc : qp.qpType = .rc)
    (h : rxeQpChkAttr dev qp attr mask) (hmem : .state ∈ mask) (hrtr : attr.qpState = .rtr) :
    .maxDestRdAtomic ∈ mask := by
  simp only [rxeQpChkAttr, Bool.and_eq_true, if_pos hmem, hrtr, hrc] at h
  have hok := h.1.1.1.1.1.1.1.1
  generalize (if QpAttrMask.curState ∈ mask then attr.curQpState else qp.qpState) = cur at hok
  unfold ibModifyQpIsOk at hok
  split at hok
  · cases hok
  · cases cur <;> simp [qpStateTable] at hok
    exact hok.1.2.2.2.2.1

theorem enterState_inv (hi : RingInv qp) {s : IbQpState} (hreset : s = .reset → qp.resp.res = none)
    (hrtr : s = .rtr → qp.resp.resources.isSome) : RingInv (enterState qp s) := by
  have hq : RingInv { qp with qpState := s } :=
    hi.of_same (.of rfl)
  cases s with
  | reset => exact rxeQpReset_inv hq (hreset rfl)
  | init =>
    exact ⟨hq.type, hq.length, hq.past, hq.safe.head, (fun h => by cases h), hq.safe.res,
      hq.safe.events⟩
  | rtr =>
    exact ⟨hq.type, hq.length, hq.past, hq.safe.head, (fun _ => hrtr rfl), hq.safe.res,
      hq.safe.events⟩
  | rts => exact hq.of_same (.of rfl)
  | sqd =>
    unfold enterState rxeQpDrain
    dsimp only
    split
    · exact hq
    · exact hq.of_same (.of rfl)
  | sqe => exact hq
  | err =>
    exact ⟨hq.type, hq.length, hq.past, hq.safe.head, (fun h => by cases h), hq.safe.res,
      hq.safe.events⟩

theorem rxeModifyQp_inv {dev : RxeDev} {kcalloc : Bool} (hi : RingInv qp)
    (hok : RingStepOk qp (.modify dev kcalloc attr mask)) :
    RingInv (rxeModifyQp dev kcalloc qp attr mask) := by
  unfold rxeModifyQp
  split
  next hchk =>
    obtain ⟨hmax, hreset⟩ := hok hchk
    obtain ⟨hset, halloc⟩ := setRdAtomic_inv hi kcalloc hmax
    unfold rxeQpFromAttr
    dsimp only
    split
    next hgo =>
      have hattrs : RingInv (setAttrs (setRdAtomic kcalloc qp attr mask).1 attr mask) :=
        hset.of_same (.of rfl)
      split
      next hmem =>
        apply enterState_inv hattrs
        · intro hs
          have hres := hreset hmem hs
          exact (setRdAtomic_res kcalloc qp attr mask).trans hres
        · intro hs
          exact halloc (maxDestRdAtomic_of_rtr hi.type hchk hmem hs) hgo
      · exact hattrs
    · exact hset
  · exact hi

theorem qpStep_inv {a : QpAction} (hi : RingInv qp) (hok : RingStepOk qp a) :
    RingInv (qpStep qp a) := by
  cases a with
  | modify dev kcalloc attr mask => exact rxeModifyQp_inv hi hok
  | rcv pkt =>
    refine hi.of_same ?_
    unfold qpStep rxeRespQueuePkt
    dsimp only
    split
    · exact .of rfl
    · exact .rfl'
  | respond env => exact respond_ringInv hi hok
  | postRecv wqe => exact hi.of_same (.of rfl)
  | error =>
    exact ⟨hi.type, hi.length, hi.past, hi.safe.head, (fun h => by cases h), hi.safe.res,
      hi.safe.events⟩

theorem newQp_ringInv (srq : Option Bool) (rcqIsUser : Bool) (mrs : MrPool) :
    RingInv (newQp .rc srq rcqIsUser mrs) where
  type := rfl
  length a ha := by cases ha
  past a ha := by cases ha
  safe :=
    { head := fun a ha => by cases ha
      ready := fun h => by cases h
      res := fun p hp => by cases hp
      events := fun e he => by cases he }

/-- In every run of an RC QP whose steps meet `RingStepOk` the ring is safe in every
state. -/
theorem ring_every_run (srq : Option Bool) (rcqIsUser : Bool) (mrs : MrPool)
    (as : List QpAction)
    (h : Run.Steps qpStep RingStepOk (newQp .rc srq rcqIsUser mrs) as) :
    ∀ qp ∈ Run.states qpStep (newQp .rc srq rcqIsUser mrs) as, RingSafe qp := by
  intro qp hqp
  have hinv := h.invariant (fun _ _ => qpStep_inv) (newQp_ringInv srq rcqIsUser mrs)
  exact (hinv qp hqp).safe

/-- The attributes of the transitions to INIT and RTR. -/
def initMask : List QpAttrMask := [.state, .pkeyIndex, .port, .accessFlags]

def rtrMask : List QpAttrMask :=
  [.state, .av, .pathMtu, .destQpn, .rqPsn, .maxDestRdAtomic, .minRnrTimer]

/-- Connecting a QP with a depth of `n`. -/
def connect (n : UInt8) : List QpAction :=
  [.modify {} true { qpState := .init, accessFlags := [.remoteRead, .remoteWrite] } initMask,
   .modify {} true { qpState := .rtr, maxDestRdAtomic := n } rtrMask]

def reset : QpAction :=
  .modify {} true { qpState := .reset } [.state]

/-- One region of 4096 bytes at address 0. -/
def onePool : MrPool := fun i =>
  if i = 1 then
    some ⟨.mr, .valid, 0x100, [.remoteRead, .remoteWrite], true, 0, 4096⟩
  else none

def readPkt (psn : Psn) (len : UInt32) : ReqPkt :=
  { opcode := ⟨.rc, .rdmaReadRequest⟩, psn := psn, reth := { va := 0, rkey := 0x100, len := len } }

/-- A READ, its duplicate, and a second connection of the same depth. -/
def reconnectRun : List QpAction :=
  connect 4 ++ [.rcv (readPkt 0 300), .respond {}, .respond {},
    .rcv (readPkt 0 300), .respond {}, .respond {}, reset] ++ connect 3

theorem ring_every_run_reconnect :
    Run.Steps qpStep RingStepOk (newQp .rc none false onePool) reconnectRun ∧
      ∀ qp ∈ Run.states qpStep (newQp .rc none false onePool) reconnectRun, RingSafe qp := by
  have h : Run.Steps qpStep RingStepOk (newQp .rc none false onePool) reconnectRun := by
    decide +kernel
  exact ⟨h, ring_every_run none false onePool _ h⟩

/-- Connected again with twice the depth, the QP frees two slots of an array of one. -/
theorem freeResources_past_the_end :
    ¬ ∀ qp ∈ Run.states qpStep (newQp .rc none false onePool)
        (connect 1 ++ [reset] ++ connect 2), RingSafe qp := by
  intro h
  have hsafe := h _ (Run.final_mem_states _ _)
  have hev : .freeResources 2 1 ∈ (Run.final qpStep (newQp .rc none false onePool)
      (connect 1 ++ [reset] ++ connect 2)).log := by
    decide +kernel
  have heq : (2 : Nat) = 1 := hsafe.events _ hev
  omega

end Rxe
