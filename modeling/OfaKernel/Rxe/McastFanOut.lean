-- SUMMARY: One buffer for all QPs of a multicast group.
import OfaKernel.Lib.Run
import OfaKernel.Rxe.Recv

/-!
# Multicast fan-out

All QPs of a group get the same buffer, with the same control block. Their tasks may run at any
time from then on.
-/

open List

namespace Rxe.Recv

/-! ## The model -/

/-- A QP of a group (`struct rxe_mc_elem`). -/
structure Member where
  qp : Nat
  state : RecvQp

/-- `struct rxe_mc_grp`. `rxe_mcast_add_grp_elem` adds no QP twice. -/
structure McGroup where
  members : List Member
  nodup : (members.map (·.qp)).Nodup

/-- `check_type_state` and `check_keys` both return 0. -/
def Member.accepts (dev : RecvDev) (d : Datagram) (m : Member) : Bool :=
  checkTypeState d.bthOpcode d.info.reqMask m.state && (checkKeys dev d d.bthQpn m.state).isOk

/-- The buffer during and after `rxe_rcv_mcast_pkt`, which is called with one reference to it. -/
structure FanOut where
  /-- The QPs that the loop has not come to. -/
  rest : List Member
  users : Int := 1
  pktQp : Option Nat := none
  /-- The QPs it was queued to, in order. -/
  queued : List Nat := []
  /-- The QPs whose task took it from the queue, with what `pkt->qp` named then. -/
  seen : List (Nat × Option Nat) := []
  /-- The QPs whose task freed it. -/
  released : List Nat := []
  returned : Bool := false

inductive FanAct where
  /-- A turn of the loop over the group. -/
  | next
  /-- The end of the function. -/
  | ret
  /-- The task of a QP takes the packet from the queue (`get_req`). -/
  | dequeue (qp : Nat)
  /-- It is done with it (`cleanup`). -/
  | release (qp : Nat)
  deriving Repr, DecidableEq

namespace FanOut

section Model

variable (accepts : Member → Bool)

/-- A turn: `skb_get` is called by the place in the list. -/
def turn (s : FanOut) : FanOut :=
  match s.rest with
  | [] => s
  | m :: rest =>
    if accepts m then
      { s with
        rest := rest
        users := if rest.isEmpty then s.users else s.users + 1
        pktQp := some m.qp
        queued := s.queued ++ [m.qp] }
    else { s with rest := rest }

/-- Whatever happens to the buffer. A step that cannot be taken changes nothing. -/
def step (s : FanOut) : FanAct → FanOut
  | .next => s.turn accepts
  | .ret =>
    if s.rest.isEmpty ∧ s.returned = false then
      -- `kfree_skb`
      { s with users := s.users - 1, returned := true }
    else s
  | .dequeue qp =>
    if qp ∈ s.queued ∧ qp ∉ s.seen.map (·.1) then { s with seen := s.seen ++ [(qp, s.pktQp)] }
    else s
  | .release qp =>
    if qp ∈ s.seen.map (·.1) ∧ qp ∉ s.released then
      { s with users := s.users - 1, released := s.released ++ [qp] }
    else s

/-- Each task finds its own QP in the packet. When the function has returned, the packet was
queued once to each QP that takes it, and each that still has it holds a reference. -/
structure Delivers (members : List Member) (s : FanOut) : Prop where
  named : ∀ t ∈ s.seen, t.2 = some t.1
  queued : s.returned = true → s.queued = (members.filter accepts).map (·.qp)
  users : s.returned = true → s.users = s.queued.length - s.released.length

end Model

/-! ## Groups for which it goes right -/

section Good

variable {accepts : Member → Bool} {members : List Member}

/-- One QP at most takes the packet, and it is not the last one of the list. -/
def OneNotLast (accepts : Member → Bool) (members : List Member) : Prop :=
  (members.filter accepts).length ≤ 1 ∧ ∀ m, members.getLast? = some m → accepts m = false

/-- What holds of the buffer at any time then. -/
structure Inv (accepts : Member → Bool) (members : List Member) (s : FanOut) : Prop where
  split : ∃ done, members = done ++ s.rest ∧ s.queued = (done.filter accepts).map (·.qp)
  pktQp : s.pktQp = s.queued.getLast?
  users : s.users = 1 + s.queued.length - s.released.length - if s.returned then 1 else 0
  seen : ∀ t ∈ s.seen, t.1 ∈ s.queued ∧ t.2 = some t.1
  returned : s.returned = true → s.rest = []

theorem inv_start (accepts : Member → Bool) (members : List Member) :
    Inv accepts members { rest := members } where
  split := ⟨[], rfl, rfl⟩
  pktQp := rfl
  users := rfl
  seen := nofun
  returned := nofun

/-- No more QPs of a part of the list take the packet than of the list. -/
theorem length_filter_le (xs ys : List Member) :
    (xs.filter accepts).length ≤ ((xs ++ ys).filter accepts).length := by
  rw [filter_append, length_append]
  exact Nat.le_add_right _ _

/-- The packet is queued to one QP at most. -/
theorem Inv.length_le {s : FanOut} (h : Inv accepts members s)
    (hgood : OneNotLast accepts members) : s.queued.length ≤ 1 := by
  obtain ⟨done, hsplit, hqueued⟩ := h.split
  rw [hqueued, length_map]
  refine le_trans (length_filter_le done s.rest) ?_
  rw [← hsplit]
  exact hgood.1

theorem Inv.named {s : FanOut} (h : Inv accepts members s) (hgood : OneNotLast accepts members)
    {qp : Nat} (hqp : qp ∈ s.queued) : s.pktQp = some qp := by
  have hlen := h.length_le hgood
  rw [h.pktQp]
  match hq : s.queued, hqp, hlen with
  | [q], hmem, _ =>
    obtain rfl := mem_singleton.mp hmem
    rfl
  | _ :: _ :: _, _, hlen => simp at hlen

theorem Inv.turn {s : FanOut} (h : Inv accepts members s) (hgood : OneNotLast accepts members) :
    Inv accepts members (s.turn accepts) := by
  obtain ⟨done, hsplit, hqueued⟩ := h.split
  unfold FanOut.turn
  cases hrest : s.rest with
  | nil => exact h
  | cons m rest =>
    have hsplit' : members = (done ++ [m]) ++ rest := by
      rw [hsplit, hrest, append_assoc, singleton_append]
    have hnot : s.returned = false := by
      by_contra hret
      rw [h.returned (Bool.not_eq_false _ ▸ hret)] at hrest
      cases hrest
    have husers := h.users
    dsimp only
    cases hm : accepts m with
    | true =>
      have hqueued' : s.queued ++ [m.qp] = ((done ++ [m]).filter accepts).map (·.qp) := by
        rw [hqueued, filter_append, map_append, filter_singleton, hm]
        rfl
      -- the last QP of the list does not take the packet
      have hmore : rest ≠ [] := by
        rintro rfl
        rw [append_nil] at hsplit'
        have hlast := hgood.2 m (by rw [hsplit', List.getLast?_concat])
        rw [hm] at hlast
        cases hlast
      -- and no other one took it
      have hfirst : s.queued = [] := by
        have hle : (s.queued ++ [m.qp]).length ≤ 1 := by
          rw [hqueued', length_map]
          refine le_trans (length_filter_le (done ++ [m]) rest) ?_
          rw [← hsplit']
          exact hgood.1
        rw [length_append, length_singleton] at hle
        exact length_eq_zero_iff.mp (by omega)
      rw [if_pos rfl]
      refine ⟨⟨done ++ [m], hsplit', hqueued'⟩, ?_, ?_, ?_, ?_⟩
      · exact (List.getLast?_concat).symm
      · have hempty : ¬rest.isEmpty = true := by
          rwa [List.isEmpty_iff]
        rw [if_neg hempty, husers, length_append, length_singleton, hnot]
        push_cast
        ring
      · intro t ht
        have hin := (h.seen t ht).1
        rw [hfirst] at hin
        cases hin
      · intro hret
        rw [hnot] at hret
        cases hret
    | false =>
      refine ⟨⟨done ++ [m], hsplit', ?_⟩, h.pktQp, h.users, h.seen, ?_⟩
      · rw [hqueued, filter_append, filter_singleton, hm]
        simp
      · intro hret
        rw [hnot] at hret
        cases hret

theorem Inv.step {s : FanOut} (h : Inv accepts members s) (hgood : OneNotLast accepts members)
    (act : FanAct) : Inv accepts members (s.step accepts act) := by
  cases act with
  | next => exact h.turn hgood
  | ret =>
    unfold FanOut.step
    dsimp only
    split
    case isFalse => exact h
    case isTrue hret =>
      refine ⟨h.split, h.pktQp, ?_, h.seen, fun _ => List.isEmpty_iff.mp hret.1⟩
      have husers := h.users
      rw [hret.2] at husers
      rw [husers]
      simp
  | dequeue qp =>
    unfold FanOut.step
    dsimp only
    split
    case isFalse => exact h
    case isTrue hqp =>
      refine ⟨h.split, h.pktQp, h.users, fun t ht => ?_, h.returned⟩
      rcases mem_append.mp ht with hold | hnew
      · exact h.seen t hold
      · obtain rfl := mem_singleton.mp hnew
        exact ⟨hqp.1, h.named hgood hqp.1⟩
  | release qp =>
    unfold FanOut.step
    dsimp only
    split
    case isFalse => exact h
    case isTrue hqp =>
      refine ⟨h.split, h.pktQp, ?_, h.seen, h.returned⟩
      have husers := h.users
      rw [husers, length_append, length_singleton]
      push_cast
      ring

theorem Inv.delivers {s : FanOut} (h : Inv accepts members s) : Delivers accepts members s where
  named := fun t ht => (h.seen t ht).2
  queued := by
    intro hret
    obtain ⟨done, hsplit, hqueued⟩ := h.split
    rw [h.returned hret, append_nil] at hsplit
    rw [hqueued, hsplit]
  users := by
    intro hret
    have husers := h.users
    rw [hret, if_pos rfl] at husers
    rw [husers]
    ring

end Good

section Turns

variable {accepts : Member → Bool}

/-- The references the loop takes. -/
def taken (accepts : Member → Bool) : List Member → Nat
  | [] => 0
  | m :: rest => (if accepts m ∧ rest ≠ [] then 1 else 0) + taken accepts rest

/-- There is one for each QP that takes the packet, but for the last of the list. -/
theorem taken_eq (members : List Member) :
    taken accepts members + (if members.getLast?.any accepts then 1 else 0) =
      (members.filter accepts).length := by
  induction members with
  | nil => rfl
  | cons m rest ih =>
    unfold taken
    cases rest with
    | nil =>
      cases hm : accepts m
      all_goals simp [taken, hm]
    | cons m' rest =>
      rw [List.getLast?_cons_cons, filter_cons]
      cases hm : accepts m
      · simpa [hm] using ih
      · simp only [if_true, length_cons, ← ih]
        simp only [ne_eq, reduceCtorEq, not_false_eq_true, and_true, if_true]
        omega

/-- The buffer when all turns were taken. -/
theorem final_turns (members : List Member) (s : FanOut) (hrest : s.rest = members) :
    Run.final (step accepts) s (List.replicate members.length .next) =
      { s with
        rest := []
        users := s.users + taken accepts members
        pktQp := ((members.filter accepts).getLast?.map (·.qp)).or s.pktQp
        queued := s.queued ++ (members.filter accepts).map (·.qp) } := by
  induction members generalizing s with
  | nil =>
    cases s
    cases hrest
    simp [Run.final, taken]
  | cons m rest ih =>
    have hturn : s.step accepts .next =
        if accepts m then
          { s with
            rest := rest
            users := if rest.isEmpty then s.users else s.users + 1
            pktQp := some m.qp
            queued := s.queued ++ [m.qp] }
        else { s with rest := rest } := by
      unfold step turn
      rw [hrest]
    have htaken : taken accepts (m :: rest) =
        (if accepts m = true ∧ rest ≠ [] then 1 else 0) + taken accepts rest := rfl
    have hrun : Run.final (step accepts) s (List.replicate (m :: rest).length .next) =
        Run.final (step accepts) (s.step accepts .next) (List.replicate rest.length .next) := rfl
    rw [hrun, hturn]
    cases hm : accepts m with
    | true =>
      rw [if_pos rfl, ih _ rfl, filter_cons_of_pos hm]
      congr 1
      · rw [htaken, hm]
        cases rest with
        | nil => simp
        | cons m' rest =>
          rw [if_neg (by simp), if_pos (by simp)]
          push_cast
          ring
      · cases hq : rest.filter accepts with
        | nil => simp
        | cons m' ms => rw [List.getLast?_cons_cons]; simp [List.getLast?_cons]
      · simp
    | false =>
      rw [if_neg Bool.false_ne_true, ih _ rfl, filter_cons_of_neg (by simp [hm])]
      rw [htaken, hm, if_neg (by simp), Nat.zero_add]

end Turns

/-- The buffer as the function gets it, for a group that was found or not. -/
def start (group : Option McGroup) : FanOut :=
  { rest := (group.map (·.members)).getD [] }

/-- In every order of steps `Delivers` holds exactly when one QP of the group at most takes the
packet and the last one of its list does not. -/
theorem delivers_iff (dev : RecvDev) (d : Datagram) (group : McGroup) :
    (∀ acts, ∀ s ∈ Run.states (step (Member.accepts dev d)) (start (some group)) acts,
      Delivers (Member.accepts dev d) group.members s) ↔
      OneNotLast (Member.accepts dev d) group.members := by
  constructor
  · intro hall
    have hturns := @final_turns (Member.accepts dev d) group.members
      (start (some group)) rfl
    -- what holds when an action follows the turns of the loop
    have hafter : ∀ act, Delivers (Member.accepts dev d) group.members
        (step (Member.accepts dev d) (Run.final (step (Member.accepts dev d)) (start (some group))
          (List.replicate group.members.length .next)) act) := by
      intro act
      have hend := hall (List.replicate group.members.length .next ++ [act]) _
        (Run.final_mem_states _ _)
      rwa [Run.final, foldl_append] at hend
    constructor
    · -- the first QP that takes the packet looks at it when the loop is over
      by_contra hmany
      obtain ⟨m, m', ms, hfilter⟩ : ∃ m m' ms,
          group.members.filter (Member.accepts dev d) = m :: m' :: ms := by
        rcases hf : group.members.filter (Member.accepts dev d) with _ | ⟨m, _ | ⟨m', ms⟩⟩
        · rw [hf] at hmany
          exact absurd (Nat.zero_le 1) hmany
        · rw [hf] at hmany
          exact absurd (Nat.le_refl 1) hmany
        · exact ⟨m, m', ms, rfl⟩
      have hnodup : ((m :: m' :: ms).map (·.qp)).Nodup := by
        rw [← hfilter]
        exact group.nodup.sublist (filter_sublist.map _)
      have hnamed := (hafter (.dequeue m.qp)).named
      rw [hturns, hfilter] at hnamed
      have hseen := hnamed (m.qp, ((m' :: ms).getLast?.map (·.qp)).or none) (by
        simp [step, start])
      obtain ⟨l, hl⟩ : ∃ l, (m' :: ms).getLast? = some l := 
        ⟨_, List.getLast?_eq_some_getLast (cons_ne_nil _ _)⟩
      rw [hl] at hseen
      have heq : l.qp = m.qp := Option.some.inj hseen
      have hmem : m.qp ∈ (m' :: ms).map (·.qp) := by
        rw [← heq]
        exact mem_map_of_mem (mem_of_getLast? hl)
      exact (nodup_cons.mp hnodup).1 hmem
    · intro m hlast
      have husers := (hafter .ret).users
      have hcount := @taken_eq (Member.accepts dev d) group.members
      rw [hturns] at husers
      have hret : (1 : Int) + taken (Member.accepts dev d) group.members - 1 =
          ([] ++ (group.members.filter (Member.accepts dev d)).map (·.qp) : List Nat).length -
            ([] : List Nat).length := husers rfl
      rw [nil_append, length_map, length_nil] at hret
      cases hm : Member.accepts dev d m with
      | false => rfl
      | true =>
        rw [hlast, Option.any_some, hm, if_pos rfl] at hcount
        omega
  · intro hgood acts
    have hsteps := @Run.steps_true _ _ (step (Member.accepts dev d)) (start (some group)) acts
    intro s hs
    have hinv := hsteps.invariant (fun s act hs _ => hs.step hgood act)
      (inv_start (Member.accepts dev d) group.members) s hs
    exact hinv.delivers

/-- A datagram QP that is ready. -/
def readyUd : RecvQp :=
  { valid := true, type := .ud, respState := .ready, reqState := .ready, portNum := 1
    pkeyIndex := 0, qkey := 0 }

/-- A packet UD SEND_ONLY for a group, with an empty payload. -/
def groupSend : Datagram :=
  { ip := .v4 0x0a000001 0xe0000001
    udpLen := 32
    hdr := fun k => [0x64, 0, 0xff, 0xff, 0, 0xff, 0xff, 0xff].getD k 0
    udp_le := by decide
    udp_lt := by decide }

/-- The only QP of a group, which takes the packet. -/
def oneMember : McGroup := { members := [⟨17, readyUd⟩], nodup := by decide }

/-- The last reference is gone when the function returns, while the packet is in the queue. -/
theorem oneMember_not_delivered :
    ¬∀ (dev : RecvDev) (d : Datagram) (group : McGroup) acts,
      ∀ s ∈ Run.states (step (Member.accepts dev d)) (start (some group)) acts,
        Delivers (Member.accepts dev d) group.members s := by
  intro hall
  have husers := (hall readyDev groupSend oneMember [.next, .ret] _
    (Run.final_mem_states _ _)).users
  exact absurd (husers rfl) (by decide)

end FanOut

end Rxe.Recv
