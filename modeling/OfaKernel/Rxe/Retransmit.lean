-- SUMMARY: Retransmission of an rxe RC message.
import OfaKernel.Rxe.SendPath
import OfaKernel.Lib.Run

/-!
# Retransmission

A retry skips the packets in front of the first unacknowledged PSN. `place` is where the loop
comes to after a number of packets.
-/

namespace Rxe

namespace SendQp

/-! ## The retry -/

/-- One turn of the loop of `retry_first_write_send`. -/
def retrySkip (s : SendQp × DmaWqe) : SendQp × DmaWqe :=
  let toSend := min s.2.dma.resid s.1.mtu
  ({ s.1 with opcode := (s.1.nextOpcode s.2).map fun op => ⟨s.1.qpType.transport, op⟩ },
    { s.2 with
      dma := if s.2.sendInline then
          { s.2.dma with
            resid := s.2.dma.resid - toSend, sgeOffset := s.2.dma.sgeOffset + toSend }
        else (advanceDmaData s.2.dma toSend).1
      iova := if s.2.opcode.mask.writeMask then s.2.iova + .ofNat s.1.mtu else s.2.iova })

def retryFirstWriteSend : Nat → SendQp × DmaWqe → SendQp × DmaWqe
  | 0, s => s
  | npsn + 1, s => retryFirstWriteSend npsn (retrySkip s)

/-- `wqe->iova` as a retry sets it first. -/
def startIova (w : DmaWqe) : UInt64 :=
  if w.opcode.mask.atomicMask ∨ w.opcode.mask.readMask ∨ w.opcode.mask.writeMask then w.remoteAddr
  else 0

/-- What `req_retry` does to the first element that is not done. A READ keeps its descriptor:
the bytes that have come need not be asked for again. -/
def retryFirst (qp : SendQp) (w : DmaWqe) : SendQp × DmaWqe :=
  let w := { w with iova := startIova w }
  let w := if w.opcode.mask.readMask then w else { w with dma := w.dma.rewind }
  let r := if w.opcode.mask.writeMask ∨ w.opcode.mask.sendMask then
      retryFirstWriteSend (qp.compPsn - w.firstPsn).toNat (qp, w)
    else if w.opcode.mask.readMask then
      (qp, { w with iova := w.iova + .ofNat ((w.dma.length - w.dma.resid) / qp.mtu * qp.mtu) })
    else (qp, w)
  (r.1, { r.2 with state := .posted })

/-- `req_retry`, `w` being the element at the consumer. -/
def reqRetry (qp : SendQp) (w : DmaWqe) : SendQp × DmaWqe :=
  let qp := { qp with wqeIndex := 0, psn := qp.compPsn, opcode := none }
  match w.state with
  | .posted | .done => (qp, w)
  | .processing | .pending | .error => retryFirst qp w

end SendQp

/-- A place in a message: the opcode of the packet in front of it, and the cursor. -/
abbrev Place := Option Opcode × DmaInfo

def Place.next (mtu : Nat) (w : DmaWqe) (s : Place) : Place :=
  ((nextOpcodeRc s.1 w.opcode (s.2.resid ≤ mtu)).map fun op => ⟨.rc, op⟩,
    if w.sendInline then
      { s.2 with
        resid := s.2.resid - min s.2.resid mtu, sgeOffset := s.2.sgeOffset + min s.2.resid mtu }
    else (advanceDmaData s.2 (min s.2.resid mtu)).1)

/-- The place of the `j`-th packet of the element `w`. -/
def place (mtu : Nat) (w : DmaWqe) (j : Nat) : Place :=
  (Place.next mtu w)^[j] (none, w.dma.rewind)

section Place

variable {mtu : Nat} {w : DmaWqe} {j : Nat}

theorem place_succ : place mtu w (j + 1) = (place mtu w j).next mtu w :=
  Function.iterate_succ_apply' _ _ _

theorem retryFirstWriteSend_place (n : Nat) (qp : SendQp) (w : DmaWqe) (hrc : qp.qpType = .rc) :
    ∃ iova, SendQp.retryFirstWriteSend n (qp, w) =
      ({ qp with opcode := ((Place.next qp.mtu w)^[n] (qp.opcode, w.dma)).1 },
        { w with dma := ((Place.next qp.mtu w)^[n] (qp.opcode, w.dma)).2, iova := iova }) := by
  induction n generalizing qp w with
  | zero => exact ⟨w.iova, rfl⟩
  | succ n ih =>
    have hskip : SendQp.retrySkip (qp, w) =
        ({ qp with opcode := (Place.next qp.mtu w (qp.opcode, w.dma)).1 },
          { w with
            dma := (Place.next qp.mtu w (qp.opcode, w.dma)).2
            iova := if w.opcode.mask.writeMask then w.iova + .ofNat qp.mtu else w.iova }) := by
      have hop : (qp.nextOpcode w).map (fun op => (⟨qp.qpType.transport, op⟩ : Opcode)) =
          (Place.next qp.mtu w (qp.opcode, w.dma)).1 := by
        unfold SendQp.nextOpcode Place.next
        rw [hrc]
        rfl
      unfold SendQp.retrySkip
      rw [hop]
      rfl
    rw [SendQp.retryFirstWriteSend, hskip]
    exact ih _ _ hrc

/-! ## The bytes in front of a place -/

/-- What a packet takes, and what is left when the list of elements is too short. -/
theorem resid_next (mtu : Nat) (w : DmaWqe) (s : Place) :
    (s.next mtu w).2.resid + min s.2.resid mtu = s.2.resid ∨
      (w.sendInline = false ∧ (s.next mtu w).2.resid = s.2.resid ∧
        (s.next mtu w).2.sge.length ≤ (s.next mtu w).2.curSge) := by
  have hle : min s.2.resid mtu ≤ s.2.resid := Nat.min_le_left _ _
  unfold Place.next
  dsimp only
  by_cases hinline : w.sendInline
  · rw [if_pos hinline]
    exact .inl (Nat.sub_add_cancel hle)
  · rw [if_neg hinline]
    rcases advanceDmaData_spec hle with ⟨-, hres⟩ | ⟨-, hres, hbehind⟩
    · omega
    · have hsge := congrArg DmaInfo.sge (rewind_advanceDmaData s.2 (min s.2.resid mtu))
      exact .inr ⟨Bool.eq_false_iff.mpr hinline, hres, hsge ▸ hbehind⟩

theorem rewind_next (mtu : Nat) (w : DmaWqe) (s : Place) :
    (s.next mtu w).2.rewind = s.2.rewind := by
  unfold Place.next
  split
  · rfl
  · exact rewind_advanceDmaData _ _

theorem sge_next (mtu : Nat) (w : DmaWqe) (s : Place) : (s.next mtu w).2.sge = s.2.sge := by
  have hrewind := congrArg DmaInfo.sge (rewind_next mtu w s)
  exact hrewind

theorem curSge_next (mtu : Nat) (w : DmaWqe) (s : Place) :
    s.2.curSge ≤ (s.next mtu w).2.curSge := by
  unfold Place.next
  split
  · exact Nat.le_refl _
  · exact curSge_advanceDmaData _ _

theorem rewind_place (mtu : Nat) (w : DmaWqe) (j : Nat) :
    (place mtu w j).2.rewind = w.dma.rewind := by
  induction j with
  | zero => rfl
  | succ j ih => rw [place_succ, rewind_next, ih]

/-- No more than the packets in front of it is gone at a place. -/
theorem length_le_place (mtu : Nat) (w : DmaWqe) (j : Nat) :
    w.dma.length ≤ (place mtu w j).2.resid + j * mtu := by
  induction j with
  | zero => exact Nat.le_of_eq (by rw [Nat.zero_mul]; rfl)
  | succ j ih =>
    rw [place_succ, Nat.succ_mul]
    rcases resid_next mtu w (place mtu w j) with hres | ⟨-, hres, -⟩
    all_goals omega

/-- The packets in front of a place are gone, or there is nothing more to build. -/
theorem place_le_length (mtu : Nat) (w : DmaWqe) (j : Nat) :
    (place mtu w j).2.resid + j * mtu ≤ w.dma.length ∨ (place mtu w j).2.resid = 0 ∨
      (w.sendInline = false ∧ (place mtu w j).2.sge.length ≤ (place mtu w j).2.curSge) := by
  induction j with
  | zero => exact .inl (Nat.le_of_eq (by rw [Nat.zero_mul]; rfl))
  | succ j ih =>
    rw [place_succ, Nat.succ_mul]
    rcases resid_next mtu w (place mtu w j) with hres | ⟨hsge, -, hbehind⟩
    · rcases ih with hle | hnone | ⟨hsge, hbehind⟩
      · by_cases hlast : (place mtu w j).2.resid ≤ mtu
        · exact .inr (.inl (by omega))
        · exact .inl (by omega)
      · exact .inr (.inl (by omega))
      · refine .inr (.inr ⟨hsge, ?_⟩)
        rw [sge_next]
        exact hbehind.trans (curSge_next mtu w _)
    · exact .inr (.inr ⟨hsge, hbehind⟩)

variable {o : Option Opcode} {fits : Bool} {op : Op}

/-- The packets of a message: the first at its start, the last where the rest fits. -/
theorem nextOpcodeRc_data (hdata : w.opcode.mask.sendMask ∨ w.opcode.mask.writeMask)
    (h : nextOpcodeRc o w.opcode fits = some op) :
    op.mask.endMask = fits ∧ op.mask.readMask = false ∧ op.mask.atomicMask = false ∧
      (op.mask.sendMask ∨ op.mask.writeMask) := by
  unfold nextOpcodeRc nextOf at h
  cases hop : w.opcode
  all_goals rw [hop] at h hdata
  all_goals first
    | exact absurd hdata (by decide)
    | (cases fits <;> dsimp only at h <;> split at h <;> cases h <;> decide)

theorem nextOpcodeRc_isSome (hdata : w.opcode.mask.sendMask ∨ w.opcode.mask.writeMask)
    (o : Option Opcode) (fits : Bool) : ∃ op, nextOpcodeRc o w.opcode fits = some op := by
  cases hop : w.opcode
  all_goals rw [hop] at hdata
  all_goals first
    | exact absurd hdata (by decide)
    | exact ⟨_, rfl⟩

theorem startMask_behind {op op' : Op} (hdata : w.opcode.mask.sendMask ∨ w.opcode.mask.writeMask)
    (h : nextOpcodeRc o w.opcode false = some op)
    (h' : nextOpcodeRc (some ⟨.rc, op⟩) w.opcode fits = some op') : op'.mask.startMask = false := by
  unfold nextOpcodeRc nextOf at h
  cases hop : w.opcode
  all_goals rw [hop] at h h' hdata
  all_goals first
    | exact absurd hdata (by decide)
    | (dsimp only at h; split at h <;> cases h <;> cases fits <;> cases h' <;> decide)

theorem startMask_outside (hdata : w.opcode.mask.sendMask ∨ w.opcode.mask.writeMask)
    (hout : inSend o = false ∧ inWrite o = false) (h : nextOpcodeRc o w.opcode fits = some op) :
    op.mask.startMask = true := by
  unfold nextOpcodeRc at h
  rw [hout.1, hout.2] at h
  cases hop : w.opcode
  all_goals rw [hop] at h hdata
  all_goals first
    | exact absurd hdata (by decide)
    | (cases fits <;> cases h <;> decide)

theorem startMask_place (hdata : w.opcode.mask.sendMask ∨ w.opcode.mask.writeMask)
    (hj : j = 0 ∨ j * mtu < w.dma.length)
    (h : nextOpcodeRc (place mtu w j).1 w.opcode fits = some op) :
    op.mask.startMask = true ↔ j = 0 := by
  cases j with
  | zero =>
    have hstart := startMask_outside hdata
      (by decide : inSend none = false ∧ inWrite none = false) h
    exact ⟨fun _ => rfl, fun _ => hstart⟩
  | succ j =>
    have hlong : (j + 1) * mtu < w.dma.length := hj.resolve_left (Nat.succ_ne_zero j)
    have hleft := length_le_place mtu w j
    have hmore : ¬ (place mtu w j).2.resid ≤ mtu := by
      rw [Nat.succ_mul] at hlong
      omega
    obtain ⟨op', hop'⟩ := nextOpcodeRc_isSome hdata (place mtu w j).1 false
    have hplace : (place mtu w (j + 1)).1 = some ⟨.rc, op'⟩ := by
      rw [place_succ]
      unfold Place.next
      rw [decide_eq_false hmore, hop']
      rfl
    rw [hplace] at h
    have hno := startMask_behind hdata hop' h
    constructor
    · intro hyes
      rw [hno] at hyes
      cases hyes
    · intro hzero
      cases hzero

/-! ## The packet of a place -/

/-- The packets of a message, as `update_wqe_psn` counts them at its first one. -/
def pktCount (mtu : Nat) (w : DmaWqe) : Nat := numPkt mtu w.dma.length 0

theorem pktCount_pos (mtu : Nat) (w : DmaWqe) : 0 < pktCount mtu w := Nat.le_max_left _ _

theorem pktCount_lt (hmtu : 256 ≤ mtu) (w : DmaWqe) : pktCount mtu w < 2 ^ 24 := by
  have hdiv : (w.dma.length + 0 + mtu - 1) % 2 ^ 32 / mtu < 2 ^ 24 :=
    Nat.div_lt_of_lt_mul (by omega)
  exact Nat.max_lt.mpr ⟨by decide, hdiv⟩

/-- A place that a packet is counted for is in the message. -/
theorem mul_lt_of_lt_pktCount (hmtu : 256 ≤ mtu) (hj : j < pktCount mtu w) :
    j = 0 ∨ j * mtu < w.dma.length := by
  by_cases hzero : j = 0
  · exact .inl hzero
  · have hdiv : j + 1 ≤ (w.dma.length + 0 + mtu - 1) % 2 ^ 32 / mtu := by
      rcases lt_max_iff.mp hj with hone | hdiv
      · omega
      · exact hdiv
    have hmul := (Nat.le_div_iff_mul_le (by omega)).mp hdiv
    rw [Nat.succ_mul] at hmul
    omega

theorem lt_pktCount (hmtu : 256 ≤ mtu) (hmtu' : mtu ≤ 4096) (hshort : w.dma.length < 2 ^ 31)
    (hj : j * mtu < w.dma.length) : j < pktCount mtu w := by
  have hmod : (w.dma.length + 0 + mtu - 1) % 2 ^ 32 = w.dma.length + 0 + mtu - 1 :=
    Nat.mod_eq_of_lt (by omega)
  have hdiv : j + 1 ≤ (w.dma.length + 0 + mtu - 1) % 2 ^ 32 / mtu := by
    rw [hmod, Nat.le_div_iff_mul_le (by omega), Nat.succ_mul]
    omega
  exact lt_max_iff.mpr (.inr hdiv)

/-- The bytes of the packet of a place. -/
def placeData (mem : LocalMem) (mtu : Nat) (w : DmaWqe) (j : Nat) : List UInt8 :=
  (SendQp.fillPacket mem { w with dma := (place mtu w j).2 } .sendOnly
    (min (place mtu w j).2.resid mtu)).2.1

/-- The packet of a place. -/
structure IsPacketAt (mem : LocalMem) (mtu : Nat) (w : DmaWqe) (start : Psn) (j : Nat)
    (p : ReqPkt) : Prop where
  psn : p.psn = start + .ofNat 24 j
  opcode : some p.opcode = (place mtu w (j + 1)).1
  payload : p.payload = placeData mem mtu w j

theorem fillPacket_data (mem : LocalMem) (w : DmaWqe) (n : Nat)
    (hdata : op.mask.sendMask ∨ op.mask.writeMask) :
    SendQp.fillPacket mem w op n = SendQp.fillPacket mem w .sendOnly n := by
  have hsend : Op.sendOnly.mask.sendMask ∨ Op.sendOnly.mask.writeMask := .inl rfl
  unfold SendQp.fillPacket
  rw [if_pos hdata, if_pos hsend]

theorem fillPacket_place {mem : LocalMem} {dma : DmaInfo} {data : List UInt8}
    (hdata : op.mask.sendMask ∨ op.mask.writeMask)
    (h : SendQp.fillPacket mem { w with dma := (place mtu w j).2 } op
      (min (place mtu w j).2.resid mtu) = (dma, data, 0)) :
    dma = (place mtu w (j + 1)).2 ∧ data = placeData mem mtu w j := by
  rw [fillPacket_data mem _ _ hdata] at h
  have hbytes : data = placeData mem mtu w j := by
    unfold placeData
    rw [h]
  refine ⟨?_, hbytes⟩
  have hsend : Op.sendOnly.mask.sendMask ∨ Op.sendOnly.mask.writeMask := .inl rfl
  unfold SendQp.fillPacket at h
  rw [if_pos hsend] at h
  rw [place_succ]
  unfold Place.next
  by_cases hinline : w.sendInline
  · rw [if_pos hinline] at h ⊢
    exact (congrArg Prod.fst h).symm
  · rw [if_neg hinline] at h ⊢
    rw [advanceDmaData_of_copyData (congrArg (·.2.2) h)]
    exact (congrArg Prod.fst h).symm

end Place

end Rxe
