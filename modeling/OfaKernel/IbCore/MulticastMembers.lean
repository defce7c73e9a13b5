-- SUMMARY: Every run of a multicast group keeps its counts.
import Mathlib.Data.List.Count
import Mathlib.Data.List.Nodup
import OfaKernel.IbCore.Multicast
import OfaKernel.Lib.Run

/-!
# Membership of a multicast group

The counts of a group are those of the members on its active list, and every join state of
theirs is in the group's record. An idle group has no other join states.
-/

open Function List

namespace IbCore

/-! ## Lists and counts -/

/-- The member at `m` has asked for join state `i`. -/
def hasState (mem : Nat → Option Member) (i m : Nat) : Bool :=
  (mem m).any fun x => x.mcRec.joinState.testBit i

/-- What the two lists, the members and the counts say about each other. -/
structure Rolls (pending active : List Nat) (mem : Nat → Option Member) (members : Nat → Int) :
    Prop where
  nodup : (pending ++ active).Nodup
  pending_state : ∀ m ∈ pending, ∃ x, mem m = some x ∧ x.state ≠ .member
  active_iff : ∀ m, m ∈ active ↔ ∃ x, mem m = some x ∧ x.state = .member
  counts : ∀ i < 4, members i = active.countP (hasState mem i)

namespace Rolls

variable {pending active : List Nat} {mem : Nat → Option Member} {members : Nat → Int} {m : Nat}
  {x : Member}

theorem active_nodup (h : Rolls pending active mem members) : active.Nodup :=
  (nodup_append.mp h.nodup).2.1

/-- Members with other addresses count the same. -/
theorem countP_update {y : Option Member} (hm : m ∉ active) (i : Nat) :
    active.countP (hasState (update mem m y) i) = active.countP (hasState mem i) := by
  refine countP_congr fun k hk => ?_
  have hne : k ≠ m := fun h => hm (h ▸ hk)
  simp [hasState, update_of_ne hne]

theorem not_mem_active (h : Rolls pending active mem members) (hx : mem m = some x)
    (hs : x.state ≠ .member) : m ∉ active := fun hm => by
  obtain ⟨y, hy, hst⟩ := (h.active_iff m).mp hm
  rw [hx] at hy
  cases hy
  exact hs hst

/-- A new member waits at the end of the pending list. -/
theorem queue (h : Rolls pending active mem members) (hm : mem m = none) (hs : x.state ≠ .member) :
    Rolls (pending ++ [m]) active (update mem m (some x)) members := by
  have hp : m ∉ pending := fun hin => by
    obtain ⟨y, hy, -⟩ := h.pending_state m hin
    rw [hm] at hy
    cases hy
  have ha : m ∉ active := fun hin => by
    obtain ⟨y, hy, -⟩ := (h.active_iff m).mp hin
    rw [hm] at hy
    cases hy
  refine ⟨?_, fun k hk => ?_, fun k => ?_, fun i hi => ?_⟩
  · have hperm : (pending ++ [m] ++ active).Perm (m :: (pending ++ active)) := by
      simp
    rw [hperm.nodup_iff]
    exact nodup_cons.mpr ⟨by simp [hp, ha], h.nodup⟩
  · rcases mem_append.mp hk with hk | hk
    · obtain ⟨y, hy, hst⟩ := h.pending_state k hk
      have hne : k ≠ m := fun he => hp (he ▸ hk)
      exact ⟨y, by rw [update_of_ne hne, hy], hst⟩
    · rw [mem_singleton.mp hk]
      exact ⟨x, update_self .., hs⟩
  · rw [h.active_iff k]
    by_cases hk : k = m
    · subst hk
      simp [hm, hs]
    · rw [update_of_ne hk]
  · rw [h.counts i hi, countP_update ha]

/-- A member that is not active leaves the pending list. -/
theorem unlist (h : Rolls pending active mem members) (ha : m ∉ active) :
    Rolls (pending.erase m) (active.erase m) mem members := by
  rw [erase_of_not_mem ha]
  refine ⟨?_, fun k hk => h.pending_state k (mem_of_mem_erase hk), h.active_iff, h.counts⟩
  have hsub : (pending.erase m ++ active).Sublist (pending ++ active) :=
    erase_sublist.append_right active
  exact hsub.nodup h.nodup

/-- A member goes, or is none of the group any more; an active one is no longer counted. -/
theorem remove (h : Rolls pending active mem members) (hx : mem m = some x) {y : Option Member}
    (hy : ∀ z, y = some z → z.state ≠ .member) :
    Rolls (pending.erase m) (active.erase m) (update mem m y)
      (if x.state = .member then adjust members x.mcRec.joinState (-1) else members) := by
  have hnd := nodup_append.mp h.nodup
  have hnot : m ∉ active.erase m := fun hin => (hnd.2.1.mem_erase_iff.mp hin).1 rfl
  refine ⟨?_, fun k hk => ?_, fun k => ?_, fun i hi => ?_⟩
  · have hsub : (pending.erase m ++ active.erase m).Sublist (pending ++ active) :=
      erase_sublist.append erase_sublist
    exact hsub.nodup h.nodup
  · obtain ⟨hne, hk⟩ := hnd.1.mem_erase_iff.mp hk
    rw [update_of_ne hne]
    exact h.pending_state k hk
  · rw [hnd.2.1.mem_erase_iff, h.active_iff k]
    by_cases hk : k = m
    · subst hk
      simp only [ne_eq, not_true_eq_false, false_and, update_self, false_iff, not_exists,
        not_and]
      exact fun z hz => hy z hz
    · simp [hk]
  · rw [countP_update hnot]
    by_cases hst : x.state = .member
    · have hin : m ∈ active := (h.active_iff m).mpr ⟨x, hx, hst⟩
      have hbit : hasState mem i m = x.mcRec.joinState.testBit i := by simp [hasState, hx]
      have hperm := (perm_cons_erase hin).countP_eq (hasState mem i)
      rw [countP_cons, hbit] at hperm
      rw [if_pos hst, adjust, h.counts i hi, hperm]
      cases x.mcRec.joinState.testBit i <;> simp [hi]
    · have hin : m ∉ active := h.not_mem_active hx hst
      rw [if_neg hst, erase_of_not_mem hin]
      exact h.counts i hi

/-- A pending member becomes active. -/
theorem join (h : Rolls pending active mem members) (hx : mem m = some x) (hs : x.state ≠ .member)
    {y : Member} (hy : y.state = .member) :
    Rolls (pending.erase m) (m :: active.erase m) (update mem m (some y))
      (adjust members y.mcRec.joinState 1) := by
  have hnd := nodup_append.mp h.nodup
  have hin : m ∉ active := h.not_mem_active hx hs
  rw [erase_of_not_mem hin]
  refine ⟨?_, fun k hk => ?_, fun k => ?_, fun i hi => ?_⟩
  · have hperm : (pending.erase m ++ m :: active).Perm (m :: (pending.erase m ++ active)) :=
      perm_middle
    rw [hperm.nodup_iff]
    have hsub : (pending.erase m ++ active).Sublist (pending ++ active) :=
      erase_sublist.append_right active
    refine nodup_cons.mpr ⟨fun hmem => ?_, hsub.nodup h.nodup⟩
    rcases mem_append.mp hmem with hmem | hmem
    · exact (hnd.1.mem_erase_iff.mp hmem).1 rfl
    · exact hin hmem
  · obtain ⟨hne, hk⟩ := hnd.1.mem_erase_iff.mp hk
    rw [update_of_ne hne]
    exact h.pending_state k hk
  · by_cases hk : k = m
    · subst hk
      simp [hy]
    · rw [mem_cons, update_of_ne hk, h.active_iff k]
      simp [hk]
  · have hbit : hasState (update mem m (some y)) i m = y.mcRec.joinState.testBit i := by
      simp [hasState]
    rw [countP_cons, countP_update hin, hbit, adjust, h.counts i hi]
    cases y.mcRec.joinState.testBit i <;> simp [hi]

/-- A count of 0 is that of a join state that no active member has. -/
theorem not_hasState (h : Rolls pending active mem members) {i : Nat} (hi : i < 4)
    (h0 : members i = 0) (hm : m ∈ active) : hasState mem i m = false := by
  have hc := h.counts i hi
  have hz : active.countP (hasState mem i) = 0 := by omega
  simpa using countP_eq_zero.mp hz m hm

/-- A count of 0 stays 0 when a member goes. -/
theorem remove_zero (h : Rolls pending active mem members) (hx : mem m = some x) {i : Nat}
    (hi : i < 4) (h0 : members i = 0) :
    (if x.state = .member then adjust members x.mcRec.joinState (-1) else members) i = 0 := by
  split
  next hst =>
    have hno := h.not_hasState hi h0 ((h.active_iff m).mpr ⟨x, hx, hst⟩)
    have hbit : x.mcRec.joinState.testBit i = false := by simpa [hasState, hx] using hno
    simp [adjust, hbit, h0]
  next => exact h0

end Rolls

namespace Group

variable {g : Group} {m : Nat} {x : Member}

/-! ## References -/

/-- Lists and counts, and the references to the group: one of each member, and one of its
work. -/
structure Books (g : Group) : Prop where
  rolls : Rolls g.pendingList g.activeList g.mem g.members
  live_nodup : g.live.Nodup
  live_iff : ∀ m, m ∈ g.live ↔ (g.mem m).isSome
  refcount : g.refcount = g.live.length + if g.state = .idle then 0 else 1
  phase : g.phase = .none ↔ g.state = .idle

theorem freeMulticast_eq (g : Group) (m : Nat) (x : Member) : g.freeMulticast m x =
    { g with
      pendingList := g.pendingList.erase m
      activeList := g.activeList.erase m
      members := if x.state = .member then adjust g.members x.mcRec.joinState (-1) else g.members
      mem := update g.mem m none
      live := g.live.erase m
      state := if g.state = .idle then .busy else g.state
      phase := if g.state = .idle then .work else g.phase
      refcount := if g.state = .idle then g.refcount else g.refcount - 1 } := by
  unfold freeMulticast
  by_cases h1 : x.state = .member <;> by_cases h2 : g.state = .idle <;>
    simp [h1, h2, listDelInit, adjustMembership]

theorem queueJoin_eq (g : Group) (m : Nat) (rec : McmemberRec) (compMask : Nat) :
    g.queueJoin m rec compMask =
      { g with
        mem := update g.mem m (some ⟨rec, compMask, .joining⟩)
        live := m :: g.live
        pendingList := g.pendingList ++ [m]
        state := if g.state = .idle then .busy else g.state
        phase := if g.state = .idle then .work else g.phase
        refcount := g.refcount + 1 + if g.state = .idle then 1 else 0 } := by
  unfold queueJoin
  by_cases h : g.state = .idle <;> simp [h, setMember]

theorem groupsEvent_eq (g : Group) (state : GroupState) : g.groupsEvent state =
    { g with
      phase := if g.state = .idle then .work else g.phase
      refcount := g.refcount + if g.state = .idle then 1 else 0
      state := if g.state = .groupError then .groupError else state } := by
  unfold groupsEvent
  by_cases h1 : g.state = .idle
  · simp [h1]
  · by_cases h2 : g.state = .groupError <;> simp [h1, h2]
    rw [← h2]

theorem joinGroup_eq (g : Group) (m : Nat) (x : Member) (joinState : Nat) :
    g.joinGroup m x joinState =
      { g with
        members := adjust g.members joinState 1
        mcRec := { g.mcRec with joinState := g.mcRec.joinState ||| joinState }
        mem := update g.mem m (some
          { x with state := .member, mcRec := { g.mcRec with joinState := joinState } })
        pendingList := g.pendingList.erase m
        activeList := m :: g.activeList.erase m } := rfl

namespace Books

theorem new (mgid : Nat) : (Group.new mgid).Books where
  rolls := ⟨by simp [Group.new], by simp [Group.new], by simp [Group.new], by simp [Group.new]⟩
  live_nodup := by simp [Group.new]
  live_iff := by simp [Group.new]
  refcount := by simp [Group.new]
  phase := by simp [Group.new]

theorem queueJoin (h : g.Books) (hm : g.mem m = none) (rec : McmemberRec) (compMask : Nat) :
    (g.queueJoin m rec compMask).Books := by
  have hlive : m ∉ g.live := fun hin => by
    have := (h.live_iff m).mp hin
    rw [hm] at this
    cases this
  rw [queueJoin_eq]
  refine ⟨h.rolls.queue hm (by simp), nodup_cons.mpr ⟨hlive, h.live_nodup⟩, fun k => ?_, ?_, ?_⟩
  · simp only [mem_cons, h.live_iff k, update_apply]
    by_cases hk : k = m <;> simp [hk]
  · have := h.refcount
    by_cases hs : g.state = .idle <;> simp [hs] at this ⊢ <;> omega
  · have := h.phase
    by_cases hs : g.state = .idle <;> simp [hs] at this ⊢
    exact this

theorem freeMulticast (h : g.Books) (hx : g.mem m = some x) : (g.freeMulticast m x).Books := by
  have hlive : m ∈ g.live := (h.live_iff m).mpr (by simp [hx])
  have hlen := length_erase_of_mem hlive
  have hpos : 0 < g.live.length := length_pos_of_mem hlive
  rw [freeMulticast_eq]
  refine ⟨h.rolls.remove hx (by simp), h.live_nodup.erase m, fun k => ?_, ?_, ?_⟩
  · simp only [h.live_nodup.mem_erase_iff, h.live_iff k, update_apply]
    by_cases hk : k = m <;> simp [hk]
  · have := h.refcount
    by_cases hs : g.state = .idle <;> simp [hs] at this ⊢ <;> omega
  · have := h.phase
    by_cases hs : g.state = .idle <;> simp [hs] at this ⊢
    exact this

theorem groupsEvent (h : g.Books) {state : GroupState} (hs : state ≠ .idle) :
    (g.groupsEvent state).Books := by
  rw [groupsEvent_eq]
  refine ⟨h.rolls, h.live_nodup, h.live_iff, ?_, ?_⟩
  · have := h.refcount
    by_cases h1 : g.state = .idle
    · simp [h1, hs] at this ⊢
      omega
    · by_cases h2 : g.state = .groupError <;> simp [h1, h2, hs] at this ⊢ <;> exact this
  · have := h.phase
    by_cases h1 : g.state = .idle
    · simp [h1, hs]
    · by_cases h2 : g.state = .groupError <;> simp [h1, h2, hs] at this ⊢ <;> exact this

/-- The work goes on: lists and members change, and the group is not idle. -/
theorem goOn {g' : Group} (h : g.Books) (hb : g.state ≠ .idle)
    (hr : Rolls g'.pendingList g'.activeList g'.mem g'.members) (hl : g'.live = g.live)
    (hm : ∀ m, (g'.mem m).isSome = (g.mem m).isSome) (hc : g'.refcount = g.refcount)
    (hs : g'.state ≠ .idle) (hp : g'.phase ≠ .none) : g'.Books := by
  refine ⟨hr, hl ▸ h.live_nodup, fun k => ?_, ?_, iff_of_false hp hs⟩
  · rw [hl, hm]
    exact h.live_iff k
  · rw [hc, hl, h.refcount, if_neg hb, if_neg hs]

theorem not_idle (h : g.Books) (hp : g.phase ≠ .none) : g.state ≠ .idle :=
  fun hs => hp (h.phase.mpr hs)

/-- The work moves on, and nothing else changes. -/
theorem move (h : g.Books) (hb : g.phase ≠ .none) {p : Phase} (hp : p ≠ .none) :
    Books { g with phase := p } :=
  h.goOn (h.not_idle hb) h.rolls rfl (fun _ => rfl) rfl (h.not_idle hb) hp

/-- A member that is not active is taken off its list. -/
theorem listDelInit (h : g.Books) (hb : g.phase ≠ .none) (ha : m ∉ g.activeList) {p : Phase}
    (hp : p ≠ .none) : Books { g.listDelInit m with phase := p } :=
  h.goOn (h.not_idle hb) (h.rolls.unlist ha) rfl (fun _ => rfl) rfl (h.not_idle hb) hp

theorem pending_head (h : g.Books) {rest : List Nat} (hl : g.pendingList = m :: rest) :
    ∃ x, g.mem m = some x ∧ x.state ≠ .member ∧ m ∉ g.activeList := by
  obtain ⟨x, hx, hs⟩ := h.rolls.pending_state m (by rw [hl]; exact mem_cons_self)
  exact ⟨x, hx, hs, h.rolls.not_mem_active hx hs⟩

theorem workTurn (h : g.Books) (hp : g.phase = .work) : g.workTurn.Books := by
  have hnone : g.phase ≠ .none := by
    rw [hp]
    decide
  have hidle := h.not_idle hnone
  unfold Group.workTurn
  split
  · exact h.move hnone (by decide)
  next hbusy =>
    split
    next m rest hl =>
      obtain ⟨x, hx, hst, ha⟩ := h.pending_head hl
      simp only [hx]
      split
      next hin =>
        split
        · rw [joinGroup_eq]
          refine h.goOn hidle (h.rolls.join hx hst rfl) rfl (fun k => ?_) rfl hidle (by simp)
          by_cases hk : k = m <;> simp [hk, hx]
        · exact h.listDelInit hnone ha (by simp)
      next => exact h.move hnone (by simp)
    next =>
      simp only
      split
      · exact h.goOn hidle h.rolls rfl (fun _ => rfl) rfl hidle (by simp)
      · refine ⟨h.rolls, h.live_nodup, h.live_iff, ?_, by simp⟩
        have := h.refcount
        simp only [if_neg hidle] at this
        simp only [if_true]
        omega

theorem errorTurn (h : g.Books) (hp : g.phase ≠ .none) : g.errorTurn.Books := by
  have hidle := h.not_idle hp
  unfold Group.errorTurn
  split
  next m rest hl =>
    obtain ⟨x, hx, hst⟩ := (h.rolls.active_iff m).mp (by rw [hl]; exact mem_cons_self)
    simp only [hx]
    have hr := h.rolls.remove hx (y := some { x with state := .error }) (by simp)
    rw [if_pos hst] at hr
    refine h.goOn hidle hr rfl (fun k => ?_) rfl hidle (by simp)
    simp only [setMember, Group.listDelInit, adjustMembership, update_apply]
    by_cases hk : k = m <;> simp [hk, hx]
  next => exact h.goOn hidle h.rolls rfl (fun _ => rfl) rfl (by simp) (by simp)

theorem callbackTurn (h : g.Books) (hp : g.phase ≠ .none) (m : Nat) (inError ret : Bool) :
    (g.callbackTurn m inError ret).Books := by
  have hmove := h.move hp (p := if inError then .errorLoop else .work)
    (by cases inError <;> decide)
  unfold Group.callbackTurn
  cases ret with
  | false => exact hmove
  | true =>
    simp only [if_true]
    split
    next x hx => exact hmove.freeMulticast hx
    next => exact hmove

/-- A member that the work holds is not active while its join is not decided. -/
theorem turn (h : g.Books) (hsend : ∀ m requested, g.phase = .sendJoin m requested →
    m ∉ g.activeList) (a : Answers) : (g.turn a).Books := by
  unfold Group.turn
  split
  next hp => exact h.workTurn hp
  next hp =>
    have hnone : g.phase ≠ .none := by
      rw [hp]
      decide
    unfold groupErrorTurn
    split
    · exact h.goOn (h.not_idle hnone) h.rolls rfl (fun _ => rfl) rfl (by simp) (by simp)
    · exact h.errorTurn hnone
  next hp => exact h.errorTurn (by rw [hp]; decide)
  next m inError hp => exact h.callbackTurn (by rw [hp]; simp) m inError a.ret
  next m requested hp =>
    have hnone : g.phase ≠ .none := by
      rw [hp]
      simp
    have hidle := h.not_idle hnone
    unfold sendJoinTurn
    split
    · exact h.goOn hidle h.rolls rfl (fun _ => rfl) rfl hidle (by simp)
    · exact h.goOn hidle (h.rolls.unlist (hsend m requested hp)) rfl (fun _ => rfl) rfl
        hidle (by simp)
  next l hp =>
    have hidle := h.not_idle (by rw [hp]; simp)
    refine h.goOn hidle h.rolls rfl (fun _ => rfl) rfl hidle ?_
    unfold sendLeaveTurn
    cases a.sent <;> simp
  next => exact h

theorem joinHandler (h : g.Books) (hp : g.phase ≠ .none) (status : Int) (rec : McmemberRec)
    (findPkey : Option Nat) : (g.joinHandler status rec findPkey).Books := by
  have hidle := h.not_idle hp
  unfold Group.joinHandler
  split
  · unfold processJoinError
    split
    next m rest hl =>
      obtain ⟨x, hx, hst, ha⟩ := h.pending_head hl
      split
      · exact h.listDelInit hp ha (by simp)
      · exact h.move hp (by simp)
    next => exact h.move hp (by simp)
  · exact h.goOn hidle h.rolls rfl (fun _ => rfl) rfl hidle (by simp)

theorem leaveHandler (h : g.Books) (hp : g.phase ≠ .none) (status : Int) (sent : Bool) :
    (g.leaveHandler status sent).Books := by
  unfold Group.leaveHandler
  split
  · exact h.goOn (h.not_idle hp) h.rolls rfl (fun _ => rfl) rfl (h.not_idle hp) hp
  · exact h.move hp (by simp)

end Books

/-! ## What is being asked of the SA -/

/-- No state of an active member is being left, and the member whose join is being sent is not
active. -/
structure Inv (g : Group) : Prop extends Books g where
  send : ∀ m requested, g.phase = .sendJoin m requested → m ∉ g.activeList
  leave : ∀ l, g.phase = .sendLeave l ∨ (g.phase = .leaving ∧ g.leaveState = l) →
    ∀ i, l.testBit i = true → i < 4 ∧ g.members i = 0

/-- `unusedStates` has the bits of the counts that are 0. -/
theorem testBit_foldl (p : Nat → Prop) [DecidablePred p] (l : List Nat) (a k : Nat) :
    (l.foldl (fun leave i => if p i then leave ||| 1 <<< i else leave) a).testBit k =
      (a.testBit k || (decide (k ∈ l) && decide (p k))) := by
  induction l generalizing a with
  | nil => simp
  | cons i l ih =>
    rw [foldl_cons, ih]
    have hbit : (1 <<< i : Nat).testBit k = decide (i = k) := by
      rw [Nat.one_shiftLeft, Nat.testBit_two_pow]
    by_cases hi : p i
    · rw [if_pos hi, Nat.testBit_or, hbit]
      by_cases hk : k = i
      · subst hk
        simp [hi]
      · simp [hk, Ne.symm hk]
    · rw [if_neg hi]
      by_cases hk : k = i
      · subst hk
        simp [hi]
      · simp [hk]

theorem testBit_getLeaveState (g : Group) (i : Nat) : g.getLeaveState.testBit i = true ↔
    (i < 4 ∧ g.members i = 0) ∧ g.mcRec.joinState.testBit i = true := by
  unfold getLeaveState unusedStates
  rw [Nat.testBit_and, testBit_foldl]
  simp

theorem testBit_andNot (a b i : Nat) : (andNot a b).testBit i = (a.testBit i && !b.testBit i) := by
  unfold andNot
  rw [Nat.testBit_xor, Nat.testBit_and]
  cases a.testBit i <;> cases b.testBit i <;> rfl

namespace Inv

/-- In a phase that neither sends a join nor leaves there is nothing to keep. -/
theorem of_books {g' : Group} (h : g'.Books) (hs : ∀ m requested, g'.phase ≠ .sendJoin m requested)
    (hl : ∀ l, g'.phase ≠ .sendLeave l) (hn : g'.phase ≠ .leaving) : g'.Inv :=
  ⟨h, fun m requested hp => absurd hp (hs m requested), fun l hp => by
    rcases hp with hp | ⟨hp, -⟩
    · exact absurd hp (hl l)
    · exact absurd hp hn⟩

theorem new (mgid : Nat) : (Group.new mgid).Inv :=
  of_books (.new mgid) (by simp [Group.new]) (by simp [Group.new]) (by simp [Group.new])

/-- The phase is the same, no member has become active, and counts of 0 are still 0. -/
theorem samePhase {g' : Group} (h : g.Inv) (hb : g'.Books)
    (hp : g'.phase = if g.state = .idle then .work else g.phase)
    (ha : ∀ m ∈ g'.activeList, m ∈ g.activeList) (hl : g'.leaveState = g.leaveState)
    (hm : ∀ i < 4, g.members i = 0 → g'.members i = 0) : g'.Inv := by
  by_cases hs : g.state = .idle
  · rw [if_pos hs] at hp
    exact of_books hb (by simp [hp]) (by simp [hp]) (by simp [hp])
  · rw [if_neg hs] at hp
    refine ⟨hb, fun m requested hq hin => ?_, fun l hq i hi => ?_⟩
    · exact h.send m requested (hp ▸ hq) (ha m hin)
    · rw [hp, hl] at hq
      obtain ⟨h4, h0⟩ := h.leave l hq i hi
      exact ⟨h4, hm i h4 h0⟩

theorem queueJoin (h : g.Inv) (hm : g.mem m = none) (rec : McmemberRec) (compMask : Nat) :
    (g.queueJoin m rec compMask).Inv := by
  refine h.samePhase (h.toBooks.queueJoin hm rec compMask) ?_ ?_ ?_ ?_ <;> rw [queueJoin_eq]
  · exact fun _ hk => hk
  · exact fun _ _ h0 => h0

theorem freeMulticast (h : g.Inv) (hx : g.mem m = some x) : (g.freeMulticast m x).Inv := by
  refine h.samePhase (h.toBooks.freeMulticast hx) ?_ ?_ ?_ ?_ <;> rw [freeMulticast_eq]
  · exact fun _ hk => mem_of_mem_erase hk
  · exact fun i hi h0 => h.rolls.remove_zero hx hi h0

theorem groupsEvent (h : g.Inv) {state : GroupState} (hs : state ≠ .idle) :
    (g.groupsEvent state).Inv := by
  refine h.samePhase (h.toBooks.groupsEvent hs) ?_ ?_ ?_ ?_ <;> rw [groupsEvent_eq]
  · exact fun _ hk => hk
  · exact fun _ _ h0 => h0

theorem workTurn (h : g.Inv) (hp : g.phase = .work) : g.workTurn.Inv := by
  have hb := h.toBooks.workTurn hp
  unfold Group.workTurn at hb ⊢
  split at hb
  next hbusy =>
    rw [if_pos hbusy]
    exact of_books hb (by simp) (by simp) (by simp)
  next hbusy =>
    rw [if_neg hbusy]
    split at hb
    next m rest hl =>
      obtain ⟨x, hx, -, ha⟩ := h.toBooks.pending_head hl
      simp only [hx] at hb ⊢
      split at hb
      next hin =>
        rw [if_pos hin]
        exact of_books hb (by simp) (by simp) (by simp)
      next hin =>
        rw [if_neg hin]
        refine ⟨hb, fun k requested hk => ?_, fun l hk => by simp at hk⟩
        simp only [Phase.sendJoin.injEq] at hk
        exact hk.1 ▸ ha
    next =>
      simp only at hb ⊢
      split at hb
      next hleave =>
        rw [if_pos hleave]
        refine ⟨hb, by simp, fun l hk i hi => ?_⟩
        obtain rfl : g.getLeaveState = l := by simpa using hk
        exact ((testBit_getLeaveState g i).mp hi).1
      next hleave =>
        rw [if_neg hleave]
        exact of_books hb (by simp) (by simp) (by simp)

theorem errorTurn (h : g.Inv) (hp : g.phase ≠ .none) : g.errorTurn.Inv := by
  have hb := h.toBooks.errorTurn hp
  unfold Group.errorTurn at hb ⊢
  split at hb
  next m rest hl =>
    obtain ⟨x, hx, -⟩ := (h.rolls.active_iff m).mp (by rw [hl]; exact mem_cons_self)
    simp only [hx] at hb ⊢
    exact of_books hb (by simp) (by simp) (by simp)
  next => exact of_books hb (by simp) (by simp) (by simp)

theorem callbackTurn (h : g.Inv) (hp : g.phase ≠ .none) (m : Nat) (inError ret : Bool) :
    (g.callbackTurn m inError ret).Inv := by
  have hmove : Inv { g with phase := if inError then .errorLoop else .work } := by
    cases inError
    all_goals exact of_books (h.toBooks.move hp (by decide)) (by simp) (by simp) (by simp)
  unfold Group.callbackTurn
  cases ret with
  | false => exact hmove
  | true =>
    simp only [if_true]
    split
    next x hx => exact hmove.freeMulticast hx
    next => exact hmove

theorem turn (h : g.Inv) (a : Answers) : (g.turn a).Inv := by
  have hb := h.toBooks.turn h.send a
  unfold Group.turn at hb ⊢
  split at hb
  next hp => exact h.workTurn hp
  next hp =>
    have hnone : g.phase ≠ .none := by
      rw [hp]
      decide
    unfold groupErrorTurn at hb ⊢
    split at hb
    next hkey =>
      rw [if_pos hkey]
      exact of_books hb (by simp) (by simp) (by simp)
    next hkey =>
      rw [if_neg hkey]
      exact h.errorTurn hnone
  next hp => exact h.errorTurn (by rw [hp]; decide)
  next m inError hp => exact h.callbackTurn (by rw [hp]; simp) m inError a.ret
  next m requested hp =>
    unfold sendJoinTurn at hb ⊢
    split at hb
    next hsent =>
      rw [if_pos hsent]
      exact of_books hb (by simp) (by simp) (by simp)
    next hsent =>
      rw [if_neg hsent]
      exact of_books hb (by simp) (by simp) (by simp)
  next l hp =>
    unfold sendLeaveTurn at hb ⊢
    revert hb
    cases a.sent with
    | false =>
      intro hb
      exact of_books hb (by simp) (by simp) (by simp)
    | true =>
      intro hb
      refine ⟨hb, by simp, fun l' hl' i hi => ?_⟩
      obtain rfl : l = l' := by simpa using hl'
      exact h.leave l (.inl hp) i hi
  next => exact h

theorem joinHandler (h : g.Inv) (hp : g.phase ≠ .none) (status : Int) (rec : McmemberRec)
    (findPkey : Option Nat) : (g.joinHandler status rec findPkey).Inv := by
  have hb := h.toBooks.joinHandler hp status rec findPkey
  unfold Group.joinHandler processJoinError at hb ⊢
  split at hb
  next hst =>
    rw [if_pos hst]
    split at hb
    next m rest hl =>
      split at hb
      next hlast =>
        rw [if_pos hlast]
        exact of_books hb (by simp) (by simp) (by simp)
      next hlast =>
        rw [if_neg hlast]
        exact of_books hb (by simp) (by simp) (by simp)
    next => exact of_books hb (by simp) (by simp) (by simp)
  next hst =>
    rw [if_neg hst]
    exact of_books hb (by simp) (by simp) (by simp)

theorem leaveHandler (h : g.Inv) (hp : g.phase = .leaving) (status : Int) (sent : Bool) :
    (g.leaveHandler status sent).Inv := by
  have hb := h.toBooks.leaveHandler (by rw [hp]; decide) status sent
  unfold Group.leaveHandler at hb ⊢
  split at hb
  next hagain =>
    rw [if_pos hagain]
    exact ⟨hb, h.send, h.leave⟩
  next hagain =>
    rw [if_neg hagain]
    exact of_books hb (by simp) (by simp) (by simp)

/-- The step lemma of what does not depend on the SA. -/
theorem handle (h : g.Inv) (e : Event) : (g.handle e).Inv := by
  cases e with
  | join m rec compMask =>
    simp only [Group.handle]
    split
    next hf => exact h.queueJoin hf.1 rec compMask
    next => exact h
  | free m =>
    simp only [Group.handle]
    split
    next x hx => exact h.freeMulticast hx
    next => exact h
  | portEvent pkey => exact h.groupsEvent (by cases pkey <;> simp)
  | turn a => exact h.turn a
  | joinReply status rec findPkey =>
    simp only [Group.handle]
    split
    next r hp => exact h.joinHandler (by rw [hp]; simp) status rec findPkey
    next => exact h
  | leaveReply status sent =>
    simp only [Group.handle]
    split
    next hp => exact h.leaveHandler hp status sent
    next => exact h

end Inv

/-! ## The join states that the group holds -/

/-- The record has the states of every active member, and in an idle group no others. -/
structure Held (g : Group) : Prop where
  states : ∀ m ∈ g.activeList, ∀ i, hasState g.mem i m = true → g.mcRec.joinState.testBit i = true
  idle : g.state = .idle → ∀ i < 4, g.mcRec.joinState.testBit i = true → g.members i ≠ 0

theorem same_active (g : Group) :
    ∀ k ∈ g.activeList, k ∈ g.activeList ∧ ∀ i, hasState g.mem i k = hasState g.mem i k :=
  fun _ hk => ⟨hk, fun _ => rfl⟩

namespace Held

theorem new (mgid : Nat) : (Group.new mgid).Held where
  states := by simp [Group.new]
  idle := by simp [Group.new, McmemberRec.zero]

/-- Outside an idle group only the states of active members count. -/
theorem of_states {g' : Group} (hs : ∀ m ∈ g'.activeList, ∀ i, hasState g'.mem i m = true →
    g'.mcRec.joinState.testBit i = true) (hi : g'.state ≠ .idle) : g'.Held :=
  ⟨hs, fun h => absurd h hi⟩

/-- No member becomes active, and the record keeps its states. -/
theorem keep {g' : Group} (h : g.Held) (ha : ∀ m ∈ g'.activeList, m ∈ g.activeList ∧
      ∀ i, hasState g'.mem i m = hasState g.mem i m)
    (hr : ∀ i, g.mcRec.joinState.testBit i = true → g'.mcRec.joinState.testBit i = true)
    (hi : g'.state ≠ .idle) : g'.Held :=
  of_states (fun m hm i hb => by
    obtain ⟨hin, hsame⟩ := ha m hm
    exact hr i (h.states m hin i ((hsame i).symm.trans hb))) hi

theorem queueJoin (h : g.Held) (hb : g.Books) (hm : g.mem m = none) (rec : McmemberRec)
    (compMask : Nat) : (g.queueJoin m rec compMask).Held := by
  rw [queueJoin_eq]
  refine h.keep (fun k hk => ⟨hk, fun i => ?_⟩) (fun _ hi => hi) ?_
  · have hne : k ≠ m := by
      rintro rfl
      obtain ⟨x, hx, -⟩ := (hb.rolls.active_iff k).mp hk
      rw [hm] at hx
      cases hx
    simp [hasState, update_of_ne hne]
  · by_cases hs : g.state = .idle <;> simp [hs]

theorem freeMulticast (h : g.Held) (hb : g.Books) : (g.freeMulticast m x).Held := by
  rw [freeMulticast_eq]
  refine h.keep (fun k hk => ?_) (fun _ hi => hi) ?_
  · obtain ⟨hne, hk⟩ := hb.rolls.active_nodup.mem_erase_iff.mp hk
    exact ⟨hk, fun i => by simp [hasState, update_of_ne hne]⟩
  · by_cases hs : g.state = .idle <;> simp [hs]

theorem groupsEvent (h : g.Held) {state : GroupState} (hs : state ≠ .idle) :
    (g.groupsEvent state).Held := by
  rw [groupsEvent_eq]
  refine h.keep (fun k hk => ⟨hk, fun _ => rfl⟩) (fun _ hi => hi) ?_
  by_cases hs' : g.state = .groupError <;> simp [hs', hs]

theorem workTurn (h : g.Held) (hb : g.Books) (hp : g.phase = .work) : g.workTurn.Held := by
  have hidle := hb.not_idle (by rw [hp]; decide)
  have hsame := g.same_active
  unfold Group.workTurn
  split
  · exact h.keep hsame (fun _ hi => hi) hidle
  next hbusy =>
    split
    next m rest hl =>
      obtain ⟨x, hx, -, ha⟩ := hb.pending_head hl
      simp only [hx]
      split
      next hin =>
        -- the states of the new member are in the record already
        have hsub : ∀ i, x.mcRec.joinState.testBit i = true →
            g.mcRec.joinState.testBit i = true := fun i hi => by
          rw [hin, Nat.testBit_and, Bool.and_eq_true] at hi
          exact hi.1
        split
        · rw [joinGroup_eq]
          refine of_states (fun k hk i hbit => ?_) hidle
          simp only [Nat.testBit_or, Bool.or_eq_true]
          left
          rcases mem_cons.mp hk with rfl | hk
          · exact hsub i (by simpa [hasState] using hbit)
          · have hk' := mem_of_mem_erase hk
            have hne : k ≠ m := fun he => ha (he ▸ hk')
            refine h.states k hk' i ?_
            simpa [hasState, update_of_ne hne] using hbit
        · exact h.keep (fun k hk => hsame k (mem_of_mem_erase hk)) (fun _ hi => hi) hidle
      next => exact h.keep hsame (fun _ hi => hi) hidle
    next =>
      simp only
      split
      · -- only states that no active member has are left
        refine of_states (fun k hk i hbit => ?_) hidle
        simp only [testBit_andNot, Bool.and_eq_true, Bool.not_eq_true']
        refine ⟨h.states k hk i hbit, ?_⟩
        by_contra hno
        obtain ⟨⟨h4, h0⟩, -⟩ := (testBit_getLeaveState g i).mp (by simpa using hno)
        rw [hb.rolls.not_hasState h4 h0 hk] at hbit
        cases hbit
      next hleave =>
        refine ⟨h.states, fun _ i hi hbit h0 => ?_⟩
        have hz : g.getLeaveState = 0 := by simpa using hleave
        have hbit' := (testBit_getLeaveState g i).mpr ⟨⟨hi, h0⟩, hbit⟩
        rw [hz] at hbit'
        simp at hbit'

theorem errorTurn (h : g.Held) (hb : g.Books) (hp : g.phase ≠ .none) : g.errorTurn.Held := by
  have hidle := hb.not_idle hp
  unfold Group.errorTurn
  split
  next m rest hl =>
    obtain ⟨x, hx, -⟩ := (hb.rolls.active_iff m).mp (by rw [hl]; exact mem_cons_self)
    simp only [hx]
    refine h.keep (fun k hk => ?_) (fun _ hi => hi) hidle
    obtain ⟨hne, hk⟩ := hb.rolls.active_nodup.mem_erase_iff.mp hk
    exact ⟨hk, fun i => by simp [hasState, setMember, Group.listDelInit, adjustMembership,
      update_of_ne hne]⟩
  next hl => exact of_states (by simp [hl]) (by simp)

theorem callbackTurn (h : g.Held) (hb : g.Books) (hp : g.phase ≠ .none) (m : Nat)
    (inError ret : Bool) : (g.callbackTurn m inError ret).Held := by
  have hmove : Held { g with phase := if inError then .errorLoop else .work } :=
    h.keep (fun k hk => ⟨hk, fun _ => rfl⟩) (fun _ hi => hi) (hb.not_idle hp)
  have hbooks : Books { g with phase := if inError then .errorLoop else .work } :=
    hb.move hp (by cases inError <;> decide)
  unfold Group.callbackTurn
  cases ret with
  | false => exact hmove
  | true =>
    simp only [if_true]
    split
    next x hx => exact hmove.freeMulticast hbooks
    next => exact hmove

theorem turn (h : g.Held) (hb : g.Books) (a : Answers) : (g.turn a).Held := by
  have hsame := g.same_active
  unfold Group.turn
  split
  next hp => exact h.workTurn hb hp
  next hp =>
    unfold groupErrorTurn
    split
    · exact h.keep hsame (fun _ hi => hi) (by simp)
    · exact h.errorTurn hb (by rw [hp]; decide)
  next hp => exact h.errorTurn hb (by rw [hp]; decide)
  next m inError hp => exact h.callbackTurn hb (by rw [hp]; simp) m inError a.ret
  next m requested hp =>
    have hidle := hb.not_idle (by rw [hp]; simp)
    unfold sendJoinTurn
    split
    · exact h.keep hsame (fun _ hi => hi) hidle
    · exact h.keep (fun k hk => hsame k (mem_of_mem_erase hk)) (fun _ hi => hi) hidle
  next l hp => exact h.keep hsame (fun _ hi => hi) (hb.not_idle (by rw [hp]; simp))
  next => exact h

theorem joinHandler (h : g.Held) (hb : g.Books) (hp : g.phase ≠ .none) (status : Int)
    (rec : McmemberRec) (findPkey : Option Nat)
    (hr : status = 0 → ∀ i, g.mcRec.joinState.testBit i = true → rec.joinState.testBit i = true) :
    (g.joinHandler status rec findPkey).Held := by
  have hidle := hb.not_idle hp
  have hsame := g.same_active
  unfold Group.joinHandler
  split
  · unfold processJoinError
    split
    · split
      · exact h.keep (fun k hk => hsame k (mem_of_mem_erase hk)) (fun _ hi => hi) hidle
      · exact h.keep hsame (fun _ hi => hi) hidle
    · exact h.keep hsame (fun _ hi => hi) hidle
  next hst => exact h.keep hsame (hr (by simpa using hst)) hidle

theorem leaveHandler (h : g.Held) (hb : g.Books) (hp : g.phase ≠ .none) (status : Int)
    (sent : Bool) : (g.leaveHandler status sent).Held := by
  unfold Group.leaveHandler
  split <;> exact h.keep (fun k hk => ⟨hk, fun _ => rfl⟩) (fun _ hi => hi) (hb.not_idle hp)

/-- The step lemma, for replies that contain what was asked for and held. -/
theorem handle (h : g.Held) (hb : g.Books) {e : Event} (hr : g.ReplyContains e) :
    (g.handle e).Held := by
  cases e with
  | join m rec compMask =>
    simp only [Group.handle]
    split
    next hf => exact h.queueJoin hb hf.1 rec compMask
    next => exact h
  | free m =>
    simp only [Group.handle]
    split
    next x hx => exact h.freeMulticast hb
    next => exact h
  | portEvent pkey => exact h.groupsEvent (by cases pkey <;> simp)
  | turn a => exact h.turn hb a
  | joinReply status rec findPkey =>
    simp only [Group.handle]
    split
    next r hp =>
      exact h.joinHandler hb (by rw [hp]; simp) status rec findPkey fun hst i hi =>
        hr hst r hp i (.inr hi)
    next => exact h
  | leaveReply status sent =>
    simp only [Group.handle]
    split
    next hp => exact h.leaveHandler hb (by rw [hp]; decide) status sent
    next => exact h

end Held

/-- The membership bookkeeping of a group. -/
structure Sound (g : Group) : Prop where
  counts : ∀ i < 4, g.members i = g.activeList.countP (hasState g.mem i)
  lists : (g.pendingList ++ g.activeList).Nodup ∧
    ∀ m ∈ g.pendingList ++ g.activeList, (g.mem m).isSome
  active_iff : ∀ m x, g.mem m = some x → (m ∈ g.activeList ↔ x.state = .member)
  idle : g.state = .idle → ∀ i < 4, (g.mcRec.joinState.testBit i = true ↔ 0 < g.members i)
  leave : ∀ l, g.phase = .sendLeave l ∨ (g.phase = .leaving ∧ g.leaveState = l) →
    ∀ m ∈ g.activeList, ∀ i, l.testBit i = true → hasState g.mem i m = false

theorem Inv.sound (h : g.Inv) (hh : g.Held) : g.Sound where
  counts := h.rolls.counts
  lists := by
    refine ⟨h.rolls.nodup, fun m hm => ?_⟩
    rcases mem_append.mp hm with hm | hm
    · obtain ⟨x, hx, -⟩ := h.rolls.pending_state m hm
      simp [hx]
    · obtain ⟨x, hx, -⟩ := (h.rolls.active_iff m).mp hm
      simp [hx]
  active_iff := by
    intro m x hx
    rw [h.rolls.active_iff m, hx]
    simp
  idle := by
    intro hs i hi
    have hc := h.rolls.counts i hi
    constructor
    · intro hbit
      have h0 := hh.idle hs i hi hbit
      omega
    · intro hpos
      have hpos' : 0 < g.activeList.countP (hasState g.mem i) := by omega
      obtain ⟨m, hm, hbit⟩ := countP_pos_iff.mp hpos'
      exact hh.states m hm i hbit
  leave := by
    intro l hl m hm i hbit
    obtain ⟨h4, h0⟩ := h.leave l hl i hbit
    exact h.rolls.not_hasState h4 h0 hm

/-- The bookkeeping holds in every state of every run, if a successful reply of the SA
contains the join states asked for and those held. -/
theorem group_every_run (mgid m : Nat) (rec : McmemberRec) (compMask : Nat) (events : List Event)
    (hr : Run.Steps handle ReplyContains (start mgid m rec compMask) events) :
    ∀ g ∈ Run.states handle (start mgid m rec compMask) events, g.Sound := by
  have hstep (g : Group) (e : Event) (h : g.Inv ∧ g.Held) (hr : g.ReplyContains e) :
      (g.handle e).Inv ∧ (g.handle e).Held := ⟨h.1.handle e, h.2.handle h.1.toBooks hr⟩
  have hstart : (start mgid m rec compMask).Inv ∧ (start mgid m rec compMask).Held :=
    ⟨(Inv.new mgid).queueJoin rfl rec compMask,
      (Held.new mgid).queueJoin (.new mgid) rfl rec compMask⟩
  intro g hg
  obtain ⟨hi, hh⟩ := hr.invariant hstep hstart g hg
  exact hi.sound hh

/-- A record that asks for `joinState` in the group 9. -/
def asking (joinState : Nat) : McmemberRec := { McmemberRec.zero 9 with joinState }

/-- A full member joins and is freed while a send-only member waits; the SA answers the first
leave with an error. -/
def overlapping : List Event :=
  [.turn ⟨none, true, false⟩, .turn ⟨none, true, false⟩, .joinReply 0 (asking 1) (some 0),
    .turn ⟨none, true, false⟩, .join 2 (asking 4) 0, .turn ⟨none, true, false⟩,
    .turn ⟨none, true, false⟩, .turn ⟨none, true, false⟩, .joinReply 0 (asking 5) (some 0), .free 1,
    .turn ⟨none, true, false⟩, .turn ⟨none, true, false⟩, .turn ⟨none, true, false⟩,
    .turn ⟨none, true, false⟩, .leaveReply 1 true, .leaveReply 0 true, .turn ⟨none, true, false⟩]

theorem replyContains_of_and {r : Nat} {rec : McmemberRec} {findPkey : Option Nat}
    (hp : g.phase = .joining r)
    (hb : (r ||| g.mcRec.joinState) &&& rec.joinState = r ||| g.mcRec.joinState) (status : Int) :
    g.ReplyContains (.joinReply status rec findPkey) := by
  intro _ requested hp' i hi
  obtain rfl : r = requested := by simpa [hp] using hp'
  have hbit : (r ||| g.mcRec.joinState).testBit i = true := by simpa using hi
  rw [← hb, Nat.testBit_and, Bool.and_eq_true] at hbit
  exact hbit.2

theorem group_every_run_overlapping :
    (Run.final handle (start 9 1 (asking 1) 0) overlapping).Sound := by
  refine group_every_run 9 1 (asking 1) 0 overlapping ?_ _ (Run.final_mem_states _ _)
  refine ⟨trivial, trivial, replyContains_of_and (r := 1) rfl (by decide) 0, trivial, trivial,
    trivial, trivial, trivial, replyContains_of_and (r := 4) rfl (by decide) 0, trivial, trivial,
    trivial, trivial, trivial, trivial, trivial, trivial, trivial⟩

end Group

end IbCore
