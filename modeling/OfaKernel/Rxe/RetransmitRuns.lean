-- SUMMARY: Runs of passes and retries over an rxe RC message.
import OfaKernel.Rxe.Retransmit

/-!
# A message on its way

The packets of one SEND or RDMA WRITE are built in any order with the retries of the completer.
`log` records every packet that is built.
-/

namespace Rxe

/-! ## A pass over a message -/

namespace SendQp

/-- What no pass changes. -/
structure PassFrame (qp : SendQp) (w : DmaWqe) (r : PassResult) : Prop where
  qpType : r.qp.qpType = qp.qpType
  pathMtu : r.qp.pathMtu = qp.pathMtu
  opcode : r.wqe.opcode = w.opcode
  sendInline : r.wqe.sendInline = w.sendInline
  rewind : r.wqe.dma.rewind = w.dma.rewind

/-- How a pass over a SEND or a WRITE ends: it waits, it fails, or it builds a packet. -/
inductive PassCases (env : ReqEnv) (mem : LocalMem) (qp : SendQp) (w : DmaWqe) :
    PassResult → Prop where
  | waits (r : PassResult) (built : r.built = none) (wqe : r.wqe = w) (psn : r.qp.psn = qp.psn)
      (opcode : r.qp.opcode = qp.opcode) : PassCases env mem qp w r
  | fails (r : PassResult) (built : r.built = none) (state : r.wqe.state = .error)
      (firstPsn : r.wqe.firstPsn = w.firstPsn) (lastPsn : r.wqe.lastPsn = w.lastPsn) :
      PassCases env mem qp w r
  | builds (op : Op) (dma : DmaInfo) (data : List UInt8) (ackReq : Bool) (noackPkts : Nat)
      (op_eq : qp.nextOpcode w = some op) (short : w.dma.resid < 2 ^ 31)
      (fill : fillPacket mem w op (min w.dma.resid qp.mtu) = (dma, data, 0)) :
      PassCases env mem qp w (sendPacket env { qp with noackPkts := noackPkts }
        { w with dma := dma } op (min w.dma.resid qp.mtu)
        (initReqPacket qp w op (min w.dma.resid qp.mtu) ackReq data))

variable {env : ReqEnv} {mem : LocalMem} {qp : SendQp} {w : DmaWqe} {op : Op}

theorem rewind_fillPacket (mem : LocalMem) (w : DmaWqe) (op : Op) (n : Nat) :
    (fillPacket mem w op n).1.rewind = w.dma.rewind := by
  unfold fillPacket
  split
  · split
    · rfl
    · exact rewind_copyData mem w.dma n []
  · rfl

theorem sendPacket_frame (env : ReqEnv) (qp : SendQp) (w : DmaWqe) (op : Op) (payload : Nat)
    (pkt : ReqPkt) : PassFrame qp w (sendPacket env qp w op payload pkt) := by
  unfold sendPacket
  split
  case h_1 =>
    unfold xmitDone
    split <;> exact ⟨rfl, rfl, rfl, rfl, rfl⟩
  case h_2 => exact ⟨rfl, rfl, rfl, rfl, rfl⟩
  case h_3 => exact ⟨rfl, rfl, rfl, rfl, rfl⟩

theorem buildPacket_frame (payload : Nat) :
    PassFrame qp w (buildPacket env mem qp w op payload) := by
  unfold buildPacket
  dsimp only
  split
  · exact ⟨rfl, rfl, rfl, rfl, rfl⟩
  · split
    · exact ⟨rfl, rfl, rfl, rfl, rfl⟩
    · split
      · have h := sendPacket_frame env { qp with noackPkts := (qp.ackRequest op).2 }
          { w with dma := (fillPacket mem w op payload).1 } op payload
          (initReqPacket qp w op payload (qp.ackRequest op).1 (fillPacket mem w op payload).2.1)
        exact ⟨h.qpType, h.pathMtu, h.opcode, h.sendInline,
          h.rewind.trans (rewind_fillPacket mem w op payload)⟩
      · exact ⟨rfl, rfl, rfl, rfl, rewind_fillPacket mem w op payload⟩

theorem buildPacket_cases (env : ReqEnv) (mem : LocalMem) (hop : qp.nextOpcode w = some op)
    (hshort : w.dma.resid < 2 ^ 31) :
    PassCases env mem qp w (buildPacket env mem qp w op (min w.dma.resid qp.mtu)) := by
  unfold buildPacket
  dsimp only
  split
  case isTrue => exact .fails _ rfl rfl rfl rfl
  case isFalse =>
    split
    case isTrue => exact .fails _ rfl rfl rfl rfl
    case isFalse =>
      split
      case isTrue hfill =>
        exact .builds op _ _ _ _ hop hshort (Prod.ext rfl (Prod.ext rfl hfill))
      case isFalse => exact .fails _ rfl rfl rfl rfl

theorem requesterPass_cases (env : ReqEnv) (mem : LocalMem) (hrc : qp.qpType = .rc)
    (hdata : w.opcode.mask.sendMask ∨ w.opcode.mask.writeMask) :
    PassFrame qp w (requesterPass env mem qp w) ∧
      PassCases env mem qp w (requesterPass env mem qp w) := by
  obtain ⟨op, hop⟩ := nextOpcodeRc_isSome hdata qp.opcode (w.dma.resid ≤ qp.mtu)
  obtain ⟨-, hread, hatomic, hsend⟩ := nextOpcodeRc_data hdata hop
  have hnext : qp.nextOpcode w = some op := by
    unfold nextOpcode
    rw [hrc]
    exact hop
  have hmtu : qp.getMtu = qp.mtu := by
    unfold getMtu
    rw [hrc]
  unfold requesterPass
  split
  case isTrue => exact ⟨⟨rfl, rfl, rfl, rfl, rfl⟩, .waits _ rfl rfl rfl rfl⟩
  case isFalse =>
    split
    case isTrue => exact ⟨⟨rfl, rfl, rfl, rfl, rfl⟩, .waits _ rfl rfl rfl rfl⟩
    case isFalse =>
      rw [hnext]
      dsimp only
      rw [if_neg (by simp [hread, hatomic])]
      unfold requestPayload
      simp only [if_pos hsend, hmtu]
      split
      case isTrue hlong =>
        rw [if_neg (by simp [hrc])]
        have hcases := buildPacket_cases env mem hnext hlong.2
        rw [Nat.min_eq_right (Nat.le_of_lt hlong.1)] at hcases
        exact ⟨buildPacket_frame _, hcases⟩
      case isFalse hfits =>
        refine ⟨buildPacket_frame _, ?_⟩
        by_cases hshort : w.dma.resid < 2 ^ 31
        · have hcases := buildPacket_cases env mem hnext hshort
          rw [Nat.min_eq_left (by omega)] at hcases
          exact hcases
        · unfold buildPacket
          rw [if_pos (.inr (Nat.not_lt.mp hshort))]
          exact .fails _ rfl rfl rfl rfl

/-! The three ways a packet ends, on an RC QP. -/

variable {payload : Nat} {pkt : ReqPkt}

theorem sendPacket_ok (hrc : qp.qpType = .rc) (h : rxeXmitPacket env qp = .ok) :
    sendPacket env qp w op payload pkt =
      ⟨updateState { qp with psn := nextReqPsn qp w op payload } op, updateWqe qp w op payload,
        some pkt⟩ := by
  have hdone : xmitDone qp op (updateWqe qp w op payload) = updateWqe qp w op payload := by
    unfold xmitDone
    rw [if_neg (fun hno => hno.2.1 hrc)]
  unfold sendPacket
  rw [h]
  dsimp only
  rw [hdone]

theorem sendPacket_again (h : rxeXmitPacket env qp = .again) :
    sendPacket env qp w op payload pkt = ⟨{ qp with needReqSkb := true }, w, some pkt⟩ := by
  unfold sendPacket
  rw [h]
  rfl

theorem sendPacket_fail (h : rxeXmitPacket env qp = .fail) :
    sendPacket env qp w op payload pkt =
      ⟨{ qp with needReqSkb := true }, failWqe w, some pkt⟩ := by
  unfold sendPacket
  rw [h]
  rfl

end SendQp

/-! ## Runs -/

/-- The QP and one element on its way, and the packets that were built for it. `sent` says that
one of them was taken by the network. -/
structure Sending where
  qp : SendQp
  wqe : DmaWqe
  log : List ReqPkt := []
  sent : Bool := false

/-- A pass of the requester, work on the elements behind, an acknowledgement, a retry. -/
inductive SendAct where
  | pass (env : ReqEnv)
  | behind (opcode : Option Opcode) (psn : Psn)
  | acked (compPsn : Psn)
  | retry

namespace Sending

/-- A pass works on the element until its last packet is gone. -/
def pass (mem : LocalMem) (s : Sending) (env : ReqEnv) : Sending :=
  let r := SendQp.requesterPass env mem s.qp s.wqe
  { qp := r.qp
    wqe := r.wqe
    log := s.log ++ r.built.toList
    sent := s.sent || (r.built.isSome && SendQp.rxeXmitPacket env s.qp = .ok) }

def step (mem : LocalMem) (s : Sending) : SendAct → Sending
  | .pass env =>
    if s.wqe.state = .posted ∨ s.wqe.state = .processing then s.pass mem env else s
  | .behind opcode psn =>
    if s.wqe.state = .pending then { s with qp := { s.qp with opcode := opcode, psn := psn } }
    else s
  | .acked compPsn => { s with qp := { s.qp with compPsn := compPsn } }
  | .retry =>
    let r := SendQp.reqRetry s.qp s.wqe
    { s with qp := r.1, wqe := r.2 }

/-- The completer asks for a retry of an element that it waits for, at one of its PSNs. -/
def RetryDue (s : Sending) : SendAct → Prop
  | .retry => s.sent ∧ (s.wqe.state = .processing ∨ s.wqe.state = .pending) ∧
      (s.qp.compPsn - s.wqe.firstPsn).toNat ≤ (s.wqe.lastPsn - s.wqe.firstPsn).toNat
  | _ => True

/-- The network takes every packet that has bytes, or the QP fails. -/
def NotAgain (s : Sending) : SendAct → Prop
  | .pass env => env.xmit = .again → SendQp.TakesNothing s.wqe
  | _ => True

instance (s : Sending) : ∀ act, Decidable (s.RetryDue act)
  | .pass _ | .behind _ _ | .acked _ => .isTrue trivial
  | .retry => inferInstanceAs (Decidable (s.sent ∧
      (s.wqe.state = .processing ∨ s.wqe.state = .pending) ∧
      (s.qp.compPsn - s.wqe.firstPsn).toNat ≤ (s.wqe.lastPsn - s.wqe.firstPsn).toNat))

instance (s : Sending) : ∀ act, Decidable (s.NotAgain act)
  | .pass env => inferInstanceAs (Decidable (env.xmit = .again → SendQp.TakesNothing s.wqe))
  | .behind _ _ | .acked _ | .retry => .isTrue trivial

/-- A SEND or a WRITE at its start, behind the last packet of another message. -/
structure Fresh (s : Sending) : Prop where
  rc : s.qp.qpType = .rc
  data : s.wqe.opcode.mask.sendMask ∨ s.wqe.opcode.mask.writeMask
  outside : inSend s.qp.opcode = false ∧ inWrite s.qp.opcode = false
  state : s.wqe.state = .posted
  dma : s.wqe.dma = s.wqe.dma.rewind
  log : s.log = []
  sent : s.sent = false

/-- Each PSN carries the same opcode and the same bytes whenever it is built. -/
def Faithful (s : Sending) : Prop :=
  ∀ p ∈ s.log, ∀ p' ∈ s.log, p.psn = p'.psn → p.opcode = p'.opcode ∧ p.payload = p'.payload

/-- The requester is at the place of the `j`-th packet. -/
structure AtPlace (mtu : Nat) (w : DmaWqe) (start : Psn) (s : Sending) (j : Nat) : Prop where
  counted : j < pktCount mtu w
  psn : s.qp.psn = start + .ofNat 24 j
  opcode : ∀ fits, nextOpcodeRc s.qp.opcode w.opcode fits =
    nextOpcodeRc (place mtu w j).1 w.opcode fits
  dma : s.wqe.dma = (place mtu w j).2
  sent : j ≠ 0 → s.sent = true

/-- `w` is the element at its start and `start` its first PSN. -/
structure Inv (mem : LocalMem) (mtu : Nat) (w : DmaWqe) (start : Psn) (s : Sending) : Prop where
  rc : s.qp.qpType = .rc
  mtu_eq : s.qp.mtu = mtu
  opcode : s.wqe.opcode = w.opcode
  sendInline : s.wqe.sendInline = w.sendInline
  rewind : s.wqe.dma.rewind = w.dma.rewind
  psns : s.sent = true → w.dma.length < 2 ^ 31 ∧ s.wqe.firstPsn = start ∧
    s.wqe.lastPsn = start + .ofNat 24 (pktCount mtu w) - 1
  here : s.wqe.state = .posted ∨ s.wqe.state = .processing →
    ∃ j, AtPlace mtu w start s j
  log : ∀ p ∈ s.log, ∃ j < pktCount mtu w, IsPacketAt mem mtu w start j p

variable {mem : LocalMem} {mtu : Nat} {w : DmaWqe} {start : Psn} {s : Sending}

theorem Fresh.inv (h : s.Fresh) : Inv mem s.qp.mtu s.wqe s.qp.psn s where
  rc := h.rc
  mtu_eq := rfl
  opcode := rfl
  sendInline := rfl
  rewind := rfl
  psns hsent := by
    rw [h.sent] at hsent
    cases hsent
  here _ := by
    refine ⟨0, pktCount_pos _ _, (BitVec.add_zero _).symm, fun fits => ?_, h.dma,
      fun hno => absurd rfl hno⟩
    unfold nextOpcodeRc
    rw [h.outside.1, h.outside.2]
    rfl
  log p hp := by
    rw [h.log] at hp
    cases hp

/-- Packets of one PSN are packets of one place. -/
theorem Inv.faithful (h : Inv mem mtu w start s) (hmtu : 256 ≤ mtu) : s.Faithful := by
  intro p hp p' hp' hpsn
  obtain ⟨j, hj, hat⟩ := h.log p hp
  obtain ⟨j', hj', hat'⟩ := h.log p' hp'
  have hcount := pktCount_lt hmtu w
  have hsame : j = j' := by
    rw [hat.psn, hat'.psn] at hpsn
    have hoff := (BitVec.add_right_inj _).mp hpsn
    have hnat := congrArg BitVec.toNat hoff
    rw [BitVec.toNat_ofNat, BitVec.toNat_ofNat, Nat.mod_eq_of_lt (by omega),
      Nat.mod_eq_of_lt (by omega)] at hnat
    exact hnat
  subst hsame
  refine ⟨?_, hat.payload.trans hat'.payload.symm⟩
  exact Option.some.inj (hat.opcode.trans hat'.opcode.symm)

/-! ## The steps -/

theorem fillPacket_congr {w w' : DmaWqe} (hinline : w.sendInline = w'.sendInline)
    (hdma : w.dma = w'.dma) (mem : LocalMem) (op : Op) (n : Nat) :
    SendQp.fillPacket mem w op n = SendQp.fillPacket mem w' op n := by
  unfold SendQp.fillPacket
  rw [hinline, hdma]

/-- A place whose packet is not the last has a next one. -/
theorem succ_lt_pktCount {j : Nat} {op : Op} {dma : DmaInfo} {data : List UInt8}
    (hmtu : 256 ≤ mtu) (hmtu' : mtu ≤ 4096) (hshort : w.dma.length < 2 ^ 31)
    (hdata : op.mask.sendMask ∨ op.mask.writeMask) (hmore : ¬ (place mtu w j).2.resid ≤ mtu)
    (hfill : SendQp.fillPacket mem { w with dma := (place mtu w j).2 } op
      (min (place mtu w j).2.resid mtu) = (dma, data, 0)) : j + 1 < pktCount mtu w := by
  refine lt_pktCount hmtu hmtu' hshort ?_
  rw [Nat.succ_mul]
  rcases place_le_length mtu w j with hle | hnone | ⟨hlist, hbehind⟩
  · omega
  · omega
  · -- nothing could be copied from behind the list
    have hpos : 0 < min (place mtu w j).2.resid mtu := by omega
    unfold SendQp.fillPacket at hfill
    rw [if_pos hdata] at hfill
    rw [hlist, if_neg Bool.false_ne_true] at hfill
    exact absurd (congrArg (·.2.2) hfill) (copyData_behind mem [] hbehind hpos)

theorem AtPlace.nextOpcode {j : Nat} {op : Op} (hat : AtPlace mtu w start s j)
    (h : Inv mem mtu w start s) (hop : s.qp.nextOpcode s.wqe = some op) :
    nextOpcodeRc (place mtu w j).1 w.opcode ((place mtu w j).2.resid ≤ mtu) = some op := by
  unfold SendQp.nextOpcode at hop
  rw [h.rc] at hop
  rw [h.opcode, h.mtu_eq, hat.opcode, hat.dma] at hop
  exact hop

theorem psns_updateWqe {j : Nat} {op : Op} {dma : DmaInfo} {n : Nat} (h : Inv mem mtu w start s)
    (hat : AtPlace mtu w start s j) (hdata : w.opcode.mask.sendMask ∨ w.opcode.mask.writeMask)
    (hmtu : 256 ≤ mtu) (hop : s.qp.nextOpcode s.wqe = some op)
    (hres : dma.resid = s.wqe.dma.resid - min s.wqe.dma.resid mtu) :
    let sent := SendQp.updateWqe { s.qp with noackPkts := n } { s.wqe with dma := dma } op
      (min s.wqe.dma.resid s.qp.mtu)
    sent.firstPsn = start ∧ sent.lastPsn = start + .ofNat 24 (pktCount mtu w) - 1 := by
  have hstart := startMask_place hdata (mul_lt_of_lt_pktCount hmtu hat.counted)
    (hat.nextOpcode h hop)
  unfold SendQp.updateWqe
  by_cases hj : j = 0
  · subst hj
    have hpsn : s.qp.psn = start := hat.psn.trans (BitVec.add_zero _)
    have hlen : s.wqe.dma.resid = w.dma.length := by
      rw [hat.dma]
      rfl
    have hcount : numPkt s.qp.mtu dma.resid (min s.wqe.dma.resid s.qp.mtu) =
        pktCount mtu w := by
      have hsum : dma.resid + min s.wqe.dma.resid mtu = w.dma.length + 0 := by omega
      unfold pktCount numPkt
      rw [h.mtu_eq, hsum]
    rw [if_pos (hstart.mpr rfl), if_pos (hstart.mpr rfl)]
    refine ⟨hpsn, ?_⟩
    show s.qp.psn + .ofNat 24 (numPkt s.qp.mtu dma.resid (min s.wqe.dma.resid s.qp.mtu)) - 1 = _
    rw [hcount, hpsn]
  · rw [if_neg (mt hstart.mp hj), if_neg (mt hstart.mp hj)]
    exact (h.psns (hat.sent hj)).2

theorem Inv.pass_builds {j : Nat} {op : Op} {dma : DmaInfo} {data : List UInt8} {ackReq : Bool}
    {n : Nat} {env : ReqEnv} (h : Inv mem mtu w start s) (hat : AtPlace mtu w start s j)
    (hdata : w.opcode.mask.sendMask ∨ w.opcode.mask.writeMask)
    (hmtu : 256 ≤ mtu) (hmtu' : mtu ≤ 4096)
    (hagain : env.xmit = .again → SendQp.TakesNothing s.wqe)
    (hop : s.qp.nextOpcode s.wqe = some op) (hshort : s.wqe.dma.resid < 2 ^ 31)
    (hfill : SendQp.fillPacket mem s.wqe op (min s.wqe.dma.resid s.qp.mtu) = (dma, data, 0))
    {r : PassResult}
    (hr : r = SendQp.sendPacket env { s.qp with noackPkts := n } { s.wqe with dma := dma } op
      (min s.wqe.dma.resid s.qp.mtu)
      (SendQp.initReqPacket s.qp s.wqe op (min s.wqe.dma.resid s.qp.mtu) ackReq data))
    (hframe : SendQp.PassFrame s.qp s.wqe r) :
    Inv mem mtu w start
      { qp := r.qp, wqe := r.wqe, log := s.log ++ r.built.toList
        sent := s.sent || (r.built.isSome && SendQp.rxeXmitPacket env s.qp = .ok) } := by
  have hplace := hat.nextOpcode h hop
  obtain ⟨hend, hread, -, hsend⟩ := nextOpcodeRc_data hdata hplace
  have hfill' : SendQp.fillPacket mem { w with dma := (place mtu w j).2 } op
      (min (place mtu w j).2.resid mtu) = (dma, data, 0) := by
    have hcongr := fillPacket_congr (w := { w with dma := (place mtu w j).2 })
      h.sendInline.symm hat.dma.symm mem op (min (place mtu w j).2.resid mtu)
    rw [hcongr, ← hat.dma, ← h.mtu_eq]
    exact hfill
  obtain ⟨hdma, hbytes⟩ := fillPacket_place hsend hfill'
  have hnext : (place mtu w (j + 1)).1 = some ⟨.rc, op⟩ := by
    rw [place_succ]
    unfold Place.next
    rw [hplace]
    rfl
  have hpacket : IsPacketAt mem mtu w start j
      (SendQp.initReqPacket s.qp s.wqe op (min s.wqe.dma.resid s.qp.mtu) ackReq data) := by
    refine ⟨hat.psn, ?_, hbytes⟩
    unfold SendQp.initReqPacket
    rw [hnext, h.rc]
    rfl
  have hlog : ∀ p ∈ s.log ++ [SendQp.initReqPacket s.qp s.wqe op (min s.wqe.dma.resid s.qp.mtu)
      ackReq data], ∃ j < pktCount mtu w, IsPacketAt mem mtu w start j p := by
    intro p hp
    rcases List.mem_append.mp hp with hp | hp
    · exact h.log p hp
    · cases List.mem_singleton.mp hp
      exact ⟨j, hat.counted, hpacket⟩
  have hsdata : s.wqe.opcode.mask.sendMask ∨ s.wqe.opcode.mask.writeMask := by
    rw [h.opcode]
    exact hdata
  have hrewind : r.wqe.dma.rewind = w.dma.rewind := hframe.rewind.trans h.rewind
  have hmtu_eq : r.qp.mtu = mtu := by
    rw [← h.mtu_eq]
    exact congrArg IbMtu.toNat hframe.pathMtu
  have hrc := hframe.qpType.trans h.rc
  have hopcode := hframe.opcode.trans h.opcode
  have hinline := hframe.sendInline.trans h.sendInline
  cases hxmit : SendQp.rxeXmitPacket env s.qp with
  | ok =>
    cases hr.trans (SendQp.sendPacket_ok h.rc hxmit)
    have hres : dma.resid = s.wqe.dma.resid - min s.wqe.dma.resid mtu :=
      h.mtu_eq ▸ SendQp.fillPacket_resid hsend (Nat.min_le_left _ _) hfill
    have hlen : w.dma.length < 2 ^ 31 := by
      by_cases hj : j = 0
      · rw [hat.dma, hj] at hshort
        exact hshort
      · exact (h.psns (hat.sent hj)).1
    refine ⟨hrc, hmtu_eq, hopcode, hinline, hrewind, fun _ =>
      ⟨hlen, psns_updateWqe h hat hdata hmtu hop hres⟩, fun hon => ?_, hlog⟩
    by_cases hlast : (place mtu w j).2.resid ≤ mtu
    · -- behind its last packet the element is pending
      have hpend : op.mask.endMask = true := hend.trans (decide_eq_true hlast)
      unfold SendQp.updateWqe at hon
      rw [if_pos hpend, if_pos h.rc] at hon
      rcases hon with hon | hon <;> cases hon
    · have hcount := succ_lt_pktCount hmtu hmtu' hlen hsend hlast hfill'
      refine ⟨j + 1, hcount, ?_, fun fits => ?_, hdma, fun _ => ?_⟩
      · unfold SendQp.nextReqPsn
        rw [hread, if_neg Bool.false_ne_true, BitVec.ofNat_add, ← BitVec.add_assoc, ← hat.psn]
        rfl
      · rw [hnext, h.rc]
        rfl
      · simp
  | again =>
    cases hr.trans (SendQp.sendPacket_again hxmit)
    have henv : env.xmit = .again := by
      unfold SendQp.rxeXmitPacket at hxmit
      split at hxmit
      · exact hxmit
      · cases hxmit
    have hnone : s.wqe.dma.resid = 0 := (hagain henv).resolve_left (not_not.mpr hsdata)
    have hsame : dma = s.wqe.dma := by
      rw [hnone, Nat.zero_min, SendQp.fillPacket_zero] at hfill
      exact (congrArg Prod.fst hfill).symm
    refine ⟨hrc, hmtu_eq, hopcode, hinline, hrewind, fun hsent => ?_, fun _ => ?_, hlog⟩
    · exact h.psns (by simpa using hsent)
    · exact ⟨j, hat.counted, hat.psn, hat.opcode, hsame.trans hat.dma, fun hj => by
        simp [hat.sent hj]⟩
  | fail =>
    cases hr.trans (SendQp.sendPacket_fail hxmit)
    refine ⟨hrc, hmtu_eq, hopcode, hinline, hrewind, fun hsent => ?_, fun hon => ?_, hlog⟩
    · exact h.psns (by simpa using hsent)
    · rcases hon with hon | hon <;> cases hon

theorem Inv.pass {env : ReqEnv} (h : Inv mem mtu w start s)
    (hdata : w.opcode.mask.sendMask ∨ w.opcode.mask.writeMask)
    (hmtu : 256 ≤ mtu) (hmtu' : mtu ≤ 4096)
    (hagain : env.xmit = .again → SendQp.TakesNothing s.wqe)
    (hstate : s.wqe.state = .posted ∨ s.wqe.state = .processing) :
    Inv mem mtu w start (s.pass mem env) := by
  obtain ⟨j, hat⟩ := h.here hstate
  have hsdata : s.wqe.opcode.mask.sendMask ∨ s.wqe.opcode.mask.writeMask := by
    rw [h.opcode]
    exact hdata
  obtain ⟨hframe, hcases⟩ :=
    SendQp.requesterPass_cases env mem h.rc hsdata
  unfold Sending.pass
  dsimp only
  generalize SendQp.requesterPass env mem s.qp s.wqe = r at hframe hcases
  have hrewind : r.wqe.dma.rewind = w.dma.rewind := hframe.rewind.trans h.rewind
  have hmtu_eq : r.qp.mtu = mtu := by
    rw [← h.mtu_eq]
    exact congrArg IbMtu.toNat hframe.pathMtu
  cases hcases with
  | waits _ hbuilt hwqe hpsn hopc =>
    rw [hbuilt, hwqe]
    refine ⟨hframe.qpType.trans h.rc, hmtu_eq, h.opcode, h.sendInline, h.rewind, fun hsent => ?_,
      fun _ => ⟨j, hat.counted, hpsn.trans hat.psn, fun fits => ?_, hat.dma, fun hj => ?_⟩,
      by simpa using h.log⟩
    · exact h.psns (by simpa using hsent)
    · rw [hopc]
      exact hat.opcode fits
    · simp [hat.sent hj]
  | fails _ hbuilt herror hfirst hlast =>
    rw [hbuilt]
    refine ⟨hframe.qpType.trans h.rc, hmtu_eq, hframe.opcode.trans h.opcode,
      hframe.sendInline.trans h.sendInline, hrewind, fun hsent => ?_, fun hon => ?_,
      by simpa using h.log⟩
    · obtain ⟨hlen, hstart, hend⟩ := h.psns (by simpa using hsent)
      exact ⟨hlen, hfirst.trans hstart, hlast.trans hend⟩
    · rw [herror] at hon
      rcases hon with hon | hon <;> cases hon
  | builds op dma data ackReq n hop hshort hfill =>
    exact h.pass_builds hat hdata hmtu hmtu' hagain hop hshort hfill rfl hframe

/-- The places depend on the opcode, the inline flag and the list of the element alone. -/
theorem place_congr {w w' : DmaWqe} (hopcode : w.opcode = w'.opcode)
    (hinline : w.sendInline = w'.sendInline) : Place.next mtu w = Place.next mtu w' := by
  unfold Place.next
  rw [hopcode, hinline]

theorem reqRetry_data {qp : SendQp} {w : DmaWqe} (hrc : qp.qpType = .rc)
    (hdata : w.opcode.mask.sendMask ∨ w.opcode.mask.writeMask)
    (hstate : w.state = .processing ∨ w.state = .pending) :
    ∃ iova, SendQp.reqRetry qp w =
      ({ qp with
          wqeIndex := 0, psn := qp.compPsn
          opcode := (place qp.mtu w (qp.compPsn - w.firstPsn).toNat).1 },
        { w with
          dma := (place qp.mtu w (qp.compPsn - w.firstPsn).toNat).2, iova := iova
          state := .posted }) := by
  have hread : w.opcode.mask.readMask = false := by
    cases hop : w.opcode
    all_goals
      rw [hop] at hdata
      revert hdata
      decide
  have hretry : SendQp.reqRetry qp w =
      SendQp.retryFirst { qp with wqeIndex := 0, psn := qp.compPsn, opcode := none } w := by
    unfold SendQp.reqRetry
    rcases hstate with hstate | hstate <;> rw [hstate]
  obtain ⟨iova, hskip⟩ := retryFirstWriteSend_place (qp.compPsn - w.firstPsn).toNat
    { qp with wqeIndex := 0, psn := qp.compPsn, opcode := none }
    { w with iova := SendQp.startIova w, dma := w.dma.rewind } hrc
  refine ⟨iova, ?_⟩
  rw [hretry]
  unfold SendQp.retryFirst
  dsimp only
  rw [hread, if_neg Bool.false_ne_true, if_pos hdata.symm, hskip]
  rfl

/-- A retry goes to the place of the PSN that it starts at. -/
theorem Inv.retry (h : Inv mem mtu w start s)
    (hdata : w.opcode.mask.sendMask ∨ w.opcode.mask.writeMask) (hmtu : 256 ≤ mtu)
    (hdue : s.RetryDue .retry) : Inv mem mtu w start (s.step mem .retry) := by
  obtain ⟨hsent, hstate, hrange⟩ := hdue
  obtain ⟨hlen, hfirst, hlast⟩ := h.psns hsent
  have hsdata : s.wqe.opcode.mask.sendMask ∨ s.wqe.opcode.mask.writeMask := by
    rw [h.opcode]
    exact hdata
  obtain ⟨iova, hretry⟩ := reqRetry_data h.rc hsdata hstate
  have hplace : ∀ m, place s.qp.mtu s.wqe m = place mtu w m := by
    intro m
    unfold place
    rw [h.mtu_eq, place_congr h.opcode h.sendInline, h.rewind]
  have hcount : (s.qp.compPsn - s.wqe.firstPsn).toNat < pktCount mtu w := by
    obtain ⟨count, hcount⟩ := Nat.exists_eq_succ_of_ne_zero (pktCount_pos mtu w).ne'
    have hlt := pktCount_lt hmtu w
    have hwidth : start + .ofNat 24 (count + 1) - 1 - start = .ofNat 24 count := by
      rw [BitVec.ofNat_add]
      show start + (.ofNat 24 count + 1) - 1 - start = _
      rw [← BitVec.add_assoc, BitVec.add_sub_cancel, BitVec.add_comm, BitVec.add_sub_cancel]
    rw [hfirst, hlast, hcount, hwidth, BitVec.toNat_ofNat, Nat.mod_eq_of_lt (by omega)] at hrange
    rw [hfirst, hcount]
    exact Nat.lt_succ_of_le hrange
  have hpsn : s.qp.compPsn = start + .ofNat 24 (s.qp.compPsn - s.wqe.firstPsn).toNat := by
    bv_omega
  unfold Sending.step
  rw [hretry, hplace]
  refine ⟨h.rc, h.mtu_eq, h.opcode, h.sendInline, ?_, h.psns, fun _ =>
    ⟨_, hcount, hpsn, fun _ => rfl, rfl, fun _ => hsent⟩, h.log⟩
  exact rewind_place mtu w _

theorem Inv.step (h : Inv mem mtu w start s)
    (hdata : w.opcode.mask.sendMask ∨ w.opcode.mask.writeMask)
    (hmtu : 256 ≤ mtu) (hmtu' : mtu ≤ 4096) (act : SendAct) (hdue : s.RetryDue act)
    (hagain : s.NotAgain act) : Inv mem mtu w start (s.step mem act) := by
  cases act with
  | pass env =>
    unfold Sending.step
    dsimp only
    split
    case isTrue hstate => exact h.pass hdata hmtu hmtu' hagain hstate
    case isFalse => exact h
  | behind opcode psn =>
    unfold Sending.step
    dsimp only
    split
    case isTrue hpend =>
      refine ⟨h.rc, h.mtu_eq, h.opcode, h.sendInline, h.rewind, h.psns, fun hon => ?_, h.log⟩
      rw [hpend] at hon
      rcases hon with hon | hon <;> cases hon
    case isFalse => exact h
  | acked compPsn =>
    refine ⟨h.rc, h.mtu_eq, h.opcode, h.sendInline, h.rewind, h.psns, fun hon => ?_, h.log⟩
    obtain ⟨j, hat⟩ := h.here hon
    exact ⟨j, hat.counted, hat.psn, hat.opcode, hat.dma, hat.sent⟩
  | retry => exact h.retry hdata hmtu hdue

/-- A packet is the same whenever it is built, in every run where the network takes what it is
given. -/
theorem retransmission_faithful (mem : LocalMem) (s : Sending) (acts : List SendAct)
    (hfresh : s.Fresh)
    (hrun : Run.Steps (step mem) (fun t act => t.RetryDue act ∧ t.NotAgain act) s acts) :
    ∀ t ∈ Run.states (step mem) s acts, t.Faithful := by
  have hmtu : 256 ≤ s.qp.mtu ∧ s.qp.mtu ≤ 4096 := by
    unfold SendQp.mtu
    cases s.qp.pathMtu <;> decide
  intro t ht
  have hinv : Inv mem s.qp.mtu s.wqe s.qp.psn t := hrun.invariant
    (fun t act h hok => h.step hfresh.data hmtu.1 hmtu.2 act hok.1 hok.2) hfresh.inv t ht
  exact hinv.faithful hmtu.1

/-- A SEND of 600 bytes, three packets of 256 bytes at most. -/
def send600 : Sending where
  qp := { qpType := .rc, pathMtu := .mtu256 }
  wqe := { opcode := .send, dma := { length := 600, resid := 600, sge := [⟨0, 600, 1⟩] } }

theorem send600_fresh : send600.Fresh :=
  ⟨rfl, .inl rfl, ⟨rfl, rfl⟩, rfl, rfl, rfl, rfl⟩

/-- The second and the third packet are sent again. -/
theorem retransmission_faithful_send600 :
    (Run.final (step SendQp.zeroMem) send600
      [.pass {}, .pass {}, .pass {}, .acked 1, .retry, .pass {}, .pass {}]).Faithful :=
  retransmission_faithful _ _ _ send600_fresh (by decide +kernel) _ (Run.final_mem_states _ _)

/-- The message goes out without its first 256 bytes, and the retry sends a middle packet where
the last one was. -/
theorem retransmission_after_again :
    ¬ ∀ (mem : LocalMem) (s : Sending) (acts : List SendAct), s.Fresh →
      Run.Steps (step mem) RetryDue s acts → ∀ t ∈ Run.states (step mem) s acts, t.Faithful := by
  intro h
  have hfaithful := h SendQp.zeroMem send600
    [.pass { xmit := .again }, .pass {}, .pass {}, .acked 1, .retry, .pass {}] send600_fresh
    (by decide +kernel) _ (Run.final_mem_states _ _)
  revert hfaithful
  unfold Faithful
  decide +kernel

end Sending

end Rxe
