-- SUMMARY: The multicast groups of a port (`multicast.c`).
import OfaKernel.IbCore.MulticastMembers
import OfaKernel.Lib.SortedTree

/-!
# The group table of a port

Joins look a group up by its MGID; a join without an MGID always makes a group, and the SA
names it later. Then the group is taken out of the tree and inserted again.
-/

open Function

namespace IbCore

/-- `struct mcast_port`: the tree of its groups, and the groups in memory. Other references to a
group than those of its members and its work are in the hands of a join, or of a `release_group`
to come. -/
structure McastPort where
  table : SearchTree Nat
  groups : Nat → Option Group
  acquired : Nat → Nat
  releases : Nat → Nat

namespace McastPort

variable (rb : SearchTree.Rebalance Nat) (P : McastPort)

/-- The MGID of the group at `a`; `memcmp` compares MGIDs as numbers. -/
def key (a : Nat) : Nat := (P.groups a).elim 0 (·.mcRec.mgid)

/-- The `refcount` of the group `g` at `a`. -/
def refcount (a : Nat) (g : Group) : Nat := g.refcount + P.acquired a + P.releases a

def mcastFind (mgid : Nat) : Option Nat := P.table.findBy P.key mgid

/-- `mcast_insert`: the tree with the group, or the group that is there. -/
def mcastInsert (a : Nat) (allowDuplicates : Bool) : Except Nat McastPort :=
  (P.table.insertAllow P.key allowDuplicates a).map fun table =>
    { P with table := rb.insertColor table }

def setGroup (a : Nat) (g : Group) : McastPort :=
  { P with groups := update P.groups a (some g) }

def acquire (a : Nat) : McastPort :=
  { P with acquired := update P.acquired a (P.acquired a + 1) }

/-- `acquire_group`, where `kzalloc` gives `alloc`. Of its two critical sections the first
one only looks the group up. -/
def acquireGroup (mgid : Nat) (alloc : Option Nat) : McastPort :=
  match if mgid = 0 then none else P.mcastFind mgid with
  | some a => P.acquire a
  | none =>
    match alloc.filter fun a => (P.groups a).isNone with
    | none => P
    | some a =>
      match (P.setGroup a (.new mgid)).mcastInsert rb a (mgid = 0) with
      | .error cur => P.acquire cur
      | .ok P' => P'.acquire a

/-- `queue_join`, of a new member at `m` for which `acquire_group` has found the group. -/
def queueJoin (a m : Nat) (rec : McmemberRec) (compMask : Nat) : McastPort :=
  match P.groups a with
  | none => P
  | some g =>
    if P.acquired a = 0 ∨ ¬g.Fresh m then P
    else
      { P.setGroup a (g.queueJoin m rec compMask) with
        acquired := update P.acquired a (P.acquired a - 1) }

def releaseGroup (a : Nat) : McastPort :=
  match P.groups a with
  | none => P
  | some g =>
    if P.releases a = 0 then P
    else
      let P' := { P with releases := update P.releases a (P.releases a - 1) }
      if P'.refcount a g = 0 then
        { P' with table := rb.erase P.table a, groups := update P.groups a none }
      else P'

def joinHandler (a : Nat) (g : Group) (status : Int) (rec : McmemberRec) (findPkey : Option Nat) :
    McastPort :=
  let P' := P.setGroup a (g.joinHandler status rec findPkey)
  if status = 0 ∧ rec.mgid ≠ g.mcRec.mgid then
    let P' := { P' with table := rb.erase P'.table a }
    match P'.mcastInsert rb a (rec.mgid = 0) with
    | .error _ => P'
    | .ok P' => P'
  else P'

/-- `mcast_groups_event`, for a P_Key change or an error. -/
def mcastGroupsEvent (pkey : Bool) : McastPort :=
  { P with groups := fun a =>
      if a ∈ P.table.toList then (P.groups a).map (·.handle (.portEvent pkey)) else P.groups a }

/-- One of the events of a group that leaves its MGID as it is. A reference that the group
gives up waits for its `release_group`. -/
def handleGroup (a : Nat) (e : Group.Event) : McastPort :=
  match P.groups a with
  | none => P
  | some g =>
    let g' := g.handle e
    { P.setGroup a g' with
      releases := update P.releases a (P.releases a + (g.refcount - g'.refcount)) }

/-- What happens to a port: the two halves of a join, what happens to one of its groups, and
port events. -/
inductive Event where
  | acquireGroup (mgid : Nat) (alloc : Option Nat)
  | queueJoin (a m : Nat) (rec : McmemberRec) (compMask : Nat)
  | free (a m : Nat)
  | releaseGroup (a : Nat)
  | turn (a : Nat) (answers : Group.Answers)
  | joinReply (a : Nat) (status : Int) (rec : McmemberRec) (findPkey : Option Nat)
  | leaveReply (a : Nat) (status : Int) (sent : Bool)
  | portEvent (pkey : Bool)

def step (P : McastPort) : Event → McastPort
  | .acquireGroup mgid alloc => P.acquireGroup rb mgid alloc
  | .queueJoin a m rec compMask => P.queueJoin a m rec compMask
  | .free a m => P.handleGroup a (.free m)
  | .releaseGroup a => P.releaseGroup rb a
  | .turn a answers => P.handleGroup a (.turn answers)
  | .joinReply a status rec findPkey =>
    match P.groups a with
    | none => P
    | some g =>
      match g.phase with
      | .joining _ => P.joinHandler rb a g status rec findPkey
      | _ => P
  | .leaveReply a status sent => P.handleGroup a (.leaveReply status sent)
  | .portEvent pkey => P.mcastGroupsEvent pkey

def empty : McastPort :=
  { table := .leaf, groups := fun _ => none, acquired := fun _ => 0, releases := fun _ => 0 }

/-- The condition on each event: an MGID that the SA gives a group is none of another group
in the tree. -/
def NewMgid (P : McastPort) : Event → Prop
  | .joinReply a status rec _ => ∀ g requested, P.groups a = some g → g.phase = .joining requested →
      status = 0 → rec.mgid ≠ g.mcRec.mgid → rec.mgid ≠ 0 →
      ∀ b ∈ P.table.toList, b ≠ a → P.key b ≠ rec.mgid
  | _ => True

/-- The integrity of the table. -/
structure Sound (P : McastPort) : Prop where
  tree : ∀ a, a ∈ P.table.toList ↔ ∃ g, P.groups a = some g ∧ 0 < P.refcount a g
  nodup : P.table.toList.Nodup
  sorted : P.table.SortedBy P.key
  unique : ∀ a ∈ P.table.toList, ∀ b ∈ P.table.toList, P.key a = P.key b → P.key a ≠ 0 → a = b
  refcount : ∀ a g, P.groups a = some g →
    P.refcount a g = g.live.length + (if g.state = .idle then 0 else 1) + P.acquired a +
      P.releases a ∧ g.live.Nodup ∧ ∀ m, m ∈ g.live ↔ (g.mem m).isSome
  find : ∀ a g, P.groups a = some g → g.mcRec.mgid ≠ 0 → P.mcastFind g.mcRec.mgid = some a

/-- What every event keeps, whatever the SA replies. -/
def GroupsInv (P : McastPort) : Prop := ∀ a g, P.groups a = some g → g.Inv ∧ 0 < P.refcount a g

end McastPort

/-! ## What an event does to the MGID -/

namespace Group

variable {g : Group}

theorem freeMulticast_mgid (g : Group) (m : Nat) (x : Member) :
    (g.freeMulticast m x).mcRec.mgid = g.mcRec.mgid := by
  rw [freeMulticast_eq]

theorem errorTurn_mgid (g : Group) : g.errorTurn.mcRec.mgid = g.mcRec.mgid := by
  unfold errorTurn
  split
  · split <;> rfl
  · rfl

theorem workTurn_mgid (g : Group) : g.workTurn.mcRec.mgid = g.mcRec.mgid := by
  unfold workTurn
  split
  · rfl
  · split
    · split
      · rfl
      · simp only
        split
        · split <;> rfl
        · rfl
    · simp only
      split <;> rfl

theorem turn_mgid (g : Group) (a : Answers) : (g.turn a).mcRec.mgid = g.mcRec.mgid := by
  unfold turn
  split
  · exact g.workTurn_mgid
  · unfold groupErrorTurn
    split
    · rfl
    · exact g.errorTurn_mgid
  · exact g.errorTurn_mgid
  next m inError hp =>
    unfold callbackTurn
    simp only
    split
    · split
      · rw [freeMulticast_mgid]
      · rfl
    · rfl
  · unfold sendJoinTurn
    split <;> rfl
  · rfl
  · rfl

/-- Only a reply to a join changes the MGID of a group. -/
theorem handle_mgid (g : Group) {e : Event}
    (he : ∀ status rec findPkey, e ≠ .joinReply status rec findPkey) :
    (g.handle e).mcRec.mgid = g.mcRec.mgid := by
  cases e with
  | join m rec compMask =>
    simp only [handle]
    split
    · rw [queueJoin_eq]
    · rfl
  | free m =>
    simp only [handle]
    split
    · exact g.freeMulticast_mgid m _
    · rfl
  | portEvent pkey => simp only [handle, groupsEvent_eq]
  | turn a => exact g.turn_mgid a
  | joinReply status rec findPkey => exact absurd rfl (he status rec findPkey)
  | leaveReply status sent =>
    simp only [handle, leaveHandler]
    split
    · split <;> rfl
    · rfl

theorem joinHandler_mgid (g : Group) (status : Int) (rec : McmemberRec) (findPkey : Option Nat) :
    (g.joinHandler status rec findPkey).mcRec.mgid =
      if status = 0 then rec.mgid else g.mcRec.mgid := by
  unfold joinHandler processJoinError
  by_cases hs : status = 0
  · simp [hs]
  · rw [if_neg hs, if_pos hs]
    split
    · split <;> rfl
    · rfl

theorem joinHandler_refcount (g : Group) (status : Int) (rec : McmemberRec)
    (findPkey : Option Nat) : (g.joinHandler status rec findPkey).refcount = g.refcount := by
  unfold joinHandler processJoinError
  split
  · split
    · split <;> rfl
    · rfl
  · rfl

end Group

namespace McastPort

variable {rb : SearchTree.Rebalance Nat} {P P' : McastPort} {a : Nat} {g g' : Group}

/-! ## The tree -/

/-- The tree has the groups in memory, in the order of their MGIDs, and of each MGID one. -/
structure Tree (P : McastPort) : Prop where
  mem_iff : ∀ a, a ∈ P.table.toList ↔ (P.groups a).isSome
  nodup : P.table.toList.Nodup
  sorted : P.table.SortedBy P.key
  unique : ∀ a ∈ P.table.toList, ∀ b ∈ P.table.toList, P.key a = P.key b → P.key a ≠ 0 → a = b

theorem key_of_groups (hg : P.groups a = some g) : P.key a = g.mcRec.mgid := by
  simp [key, hg]

namespace Tree

theorem empty : McastPort.empty.Tree where
  mem_iff := by simp [McastPort.empty, SearchTree.toList]
  nodup := by simp [McastPort.empty, SearchTree.toList]
  sorted := SearchTree.sortedBy_leaf
  unique := by simp [McastPort.empty, SearchTree.toList]

/-- The groups change, but not which there are, nor their MGIDs. -/
theorem congr (h : P.Tree) (ht : P'.table = P.table) (hk : ∀ a, P'.key a = P.key a)
    (hs : ∀ a, (P'.groups a).isSome = (P.groups a).isSome) : P'.Tree := by
  refine ⟨fun a => ?_, ht ▸ h.nodup, ?_, fun a ha b hb => ?_⟩
  · rw [ht, hs]
    exact h.mem_iff a
  · rw [ht]
    exact h.sorted.congr fun a _ => hk a
  · rw [ht] at ha hb
    rw [hk, hk]
    exact h.unique a ha b hb

theorem find (h : P.Tree) (hg : P.groups a = some g) (h0 : g.mcRec.mgid ≠ 0) :
    P.mcastFind g.mcRec.mgid = some a := by
  have hkey := key_of_groups hg
  have ha : a ∈ P.table.toList := (h.mem_iff a).mpr (by simp [hg])
  obtain ⟨b, hb⟩ := SearchTree.findBy_isSome h.sorted ha
  obtain ⟨hmem, hkb⟩ := SearchTree.mem_of_findBy hb
  have hab : a = b := h.unique a ha b hmem hkb.symm (by rw [hkey]; exact h0)
  rw [mcastFind, ← hkey, hb, hab]

theorem mem_erase (h : P.Tree) {b : Nat} :
    b ∈ (rb.erase P.table a).toList ↔ b ≠ a ∧ b ∈ P.table.toList := by
  rw [rb.erase_toList]
  exact h.nodup.mem_erase_iff

/-- A group changes, but not its MGID. -/
theorem setGroup (h : P.Tree) (hg : P.groups a = some g) (hm : g'.mcRec.mgid = g.mcRec.mgid)
    (ht : P'.table = P.table) (hgs : P'.groups = update P.groups a (some g')) : P'.Tree := by
  refine h.congr ht (fun b => ?_) fun b => ?_
  · by_cases hba : b = a
    · subst hba
      simp [key, hgs, hg, hm]
    · simp [key, hgs, hba]
  · by_cases hba : b = a
    · subst hba
      simp [hgs, hg]
    · simp [hgs, hba]

/-- A group without references goes; the others stay in order. -/
theorem releaseGroup (h : P.Tree) (a : Nat) : (P.releaseGroup rb a).Tree := by
  unfold McastPort.releaseGroup
  split
  · exact h
  · split
    · exact h
    · simp only
      split
      · generalize hT : ({ table := rb.erase P.table a
                           groups := update P.groups a none
                           acquired := P.acquired
                           releases := update P.releases a (P.releases a - 1) } :
          McastPort) = T
        have htable : T.table = rb.erase P.table a := by rw [← hT]
        have hgs : T.groups = update P.groups a none := by rw [← hT]
        have hkey : ∀ b ∈ (rb.erase P.table a).toList, T.key b = P.key b := fun b hb => by
          simp [key, hgs, (h.mem_erase.mp hb).1]
        refine ⟨fun b => ?_, ?_, ?_, fun b hb c hc => ?_⟩
        · rw [htable, h.mem_erase, h.mem_iff b, hgs, update_apply]
          by_cases hba : b = a <;> simp [hba]
        · rw [htable, rb.erase_toList]
          exact h.nodup.erase a
        · rw [htable]
          exact (rb.erase_sortedBy h.sorted a).congr hkey
        · rw [htable] at hb hc
          rw [hkey b hb, hkey c hc]
          exact h.unique b (h.mem_erase.mp hb).2 c (h.mem_erase.mp hc).2
      · exact h.congr rfl (fun _ => rfl) fun _ => rfl

/-- A reference is linked that no other one of the tree forbids. -/
theorem insert {T : McastPort} (hmem : ∀ b, b ∈ T.table.toList ↔ b ≠ a ∧ (T.groups b).isSome)
    (ha : (T.groups a).isSome) (hnd : T.table.toList.Nodup) (hs : T.table.SortedBy T.key)
    (hu : ∀ b ∈ T.table.toList, ∀ c ∈ T.table.toList, T.key b = T.key c → T.key b ≠ 0 → b = c)
    (hins : T.mcastInsert rb a (T.key a = 0) = .ok P') : P'.Tree ∧ P'.groups = T.groups := by
  unfold mcastInsert at hins
  cases ht : T.table.insertAllow T.key (T.key a = 0) a with
  | error y => simp [ht, Except.map] at hins
  | ok t =>
    obtain rfl : { T with table := rb.insertColor t } = P' := by simpa [ht, Except.map] using hins
    have hperm := SearchTree.perm_insertAllow ht
    have hanot : a ∉ T.table.toList := fun hin => ((hmem a).mp hin).1 rfl
    -- without duplicates no other reference has the key
    have hne : T.key a ≠ 0 → ∀ b ∈ T.table.toList, T.key b ≠ T.key a := fun h0 b hb => by
      rw [decide_eq_false h0] at ht
      exact SearchTree.insertAllow_key_ne hs ht hb
    refine ⟨⟨fun b => ?_, ?_, ?_, fun b hb c hc => ?_⟩, rfl⟩
    · simp only [rb.insertColor_toList, hperm.mem_iff, List.mem_cons, hmem b]
      by_cases hba : b = a
      · subst hba
        simp [ha]
      · simp [hba]
    · simp only [rb.insertColor_toList, hperm.nodup_iff]
      exact List.nodup_cons.mpr ⟨hanot, hnd⟩
    · exact rb.insertColor_sortedBy (SearchTree.insertAllow_sortedBy hs ht)
    · simp only [rb.insertColor_toList, hperm.mem_iff, List.mem_cons] at hb hc
      intro hbc h0
      rcases hb with rfl | hb <;> rcases hc with rfl | hc
      · rfl
      · exact absurd hbc.symm (hne h0 c hc)
      · exact absurd hbc (hne (hbc ▸ h0) b hb)
      · exact hu b hb c hc hbc h0

end Tree

theorem mcastInsert_groups {T : McastPort} {dup : Bool} (h : T.mcastInsert rb a dup = .ok P') :
    P'.groups = T.groups ∧ P'.acquired = T.acquired ∧ P'.releases = T.releases := by
  unfold mcastInsert at h
  cases ht : T.table.insertAllow T.key dup a with
  | error y => simp [ht, Except.map] at h
  | ok t =>
    obtain rfl : { T with table := rb.insertColor t } = P' := by simpa [ht, Except.map] using h
    exact ⟨rfl, rfl, rfl⟩

/-- Nothing is found, a group is, or a new one is there. -/
theorem acquireGroup_cases (rb : SearchTree.Rebalance Nat) (P : McastPort) (mgid : Nat)
    (alloc : Option Nat) : P.acquireGroup rb mgid alloc = P ∨
      (∃ a, P.acquireGroup rb mgid alloc = P.acquire a) ∨
      ∃ a P', P.groups a = none ∧
        (P.setGroup a (.new mgid)).mcastInsert rb a (mgid = 0) = .ok P' ∧
          P.acquireGroup rb mgid alloc = P'.acquire a := by
  unfold acquireGroup
  split
  next a _ => exact .inr (.inl ⟨a, rfl⟩)
  · split
    · exact .inl rfl
    next a ha =>
      have hfresh : P.groups a = none := by simpa using (Option.filter_eq_some_iff.mp ha).2
      split
      next cur _ => exact .inr (.inl ⟨cur, rfl⟩)
      next P' hins => exact .inr (.inr ⟨a, P', hfresh, hins, rfl⟩)

namespace Tree

theorem acquire (h : P.Tree) (a : Nat) : (P.acquire a).Tree :=
  h.congr rfl (fun _ => rfl) fun _ => rfl

theorem acquireGroup (h : P.Tree) (mgid : Nat) (alloc : Option Nat) :
    (P.acquireGroup rb mgid alloc).Tree := by
  rcases acquireGroup_cases rb P mgid alloc with heq | ⟨a, heq⟩ | ⟨a, P', hfresh, hins, heq⟩
  · rw [heq]
    exact h
  · rw [heq]
    exact h.acquire a
  · rw [heq]
    have hnot : a ∉ P.table.toList := fun ha => by
      have := (h.mem_iff a).mp ha
      rw [hfresh] at this
      cases this
    generalize hT : P.setGroup a (.new mgid) = T at hins
    have htable : T.table = P.table := by rw [← hT, McastPort.setGroup]
    have hself : T.groups a = some (.new mgid) := by simp [← hT, McastPort.setGroup]
    have hother : ∀ b, b ≠ a → T.groups b = P.groups b := fun b hb => by
      simp [← hT, McastPort.setGroup, hb]
    have hkey : ∀ b ∈ P.table.toList, T.key b = P.key b := fun b hb => by
      have hne : b ≠ a := fun he => hnot (he ▸ hb)
      simp [key, hother b hne]
    have hkeya : T.key a = mgid := key_of_groups hself
    rw [← hkeya] at hins
    refine (Tree.insert (fun b => ?_) (by simp [hself]) (htable ▸ h.nodup) ?_ ?_ hins).1.acquire a
    · rw [htable, h.mem_iff b]
      by_cases hb : b = a
      · subst hb
        simp [hfresh]
      · simp [hb, hother b hb]
    · rw [htable]
      exact h.sorted.congr hkey
    · rw [htable]
      intro b hb c hc
      rw [hkey b hb, hkey c hc]
      exact h.unique b hb c hc

theorem queueJoin (h : P.Tree) (a m : Nat) (rec : McmemberRec) (compMask : Nat) :
    (P.queueJoin a m rec compMask).Tree := by
  unfold McastPort.queueJoin
  split
  · exact h
  next g hg =>
    split
    · exact h
    · exact h.setGroup hg (by rw [Group.queueJoin_eq]) rfl rfl

theorem handleGroup (h : P.Tree) {e : Group.Event}
    (he : ∀ status rec findPkey, e ≠ .joinReply status rec findPkey) (a : Nat) :
    (P.handleGroup a e).Tree := by
  unfold McastPort.handleGroup
  split
  · exact h
  next g hg => exact h.setGroup hg (g.handle_mgid he) rfl rfl

theorem mcastGroupsEvent (h : P.Tree) (pkey : Bool) : (P.mcastGroupsEvent pkey).Tree := by
  refine h.congr rfl (fun a => ?_) fun a => ?_
  · unfold McastPort.mcastGroupsEvent key
    simp only
    split
    · cases P.groups a with
      | none => rfl
      | some g => exact g.handle_mgid (by simp)
    · rfl
  · unfold McastPort.mcastGroupsEvent
    simp only
    split
    · simp
    · rfl

/-- A reply keeps the tree exactly if its MGID is none of another group. -/
theorem joinHandler_iff (h : P.Tree) (hg : P.groups a = some g) (status : Int) (rec : McmemberRec)
    (findPkey : Option Nat) : (P.joinHandler rb a g status rec findPkey).Tree ↔
      (status = 0 → rec.mgid ≠ g.mcRec.mgid → rec.mgid ≠ 0 →
        ∀ b ∈ P.table.toList, b ≠ a → P.key b ≠ rec.mgid) := by
  have hmgid := g.joinHandler_mgid status rec findPkey
  unfold McastPort.joinHandler
  simp only
  generalize g.joinHandler status rec findPkey = g' at hmgid
  by_cases hc : status = 0 ∧ rec.mgid ≠ g.mcRec.mgid
  · rw [if_pos hc]
    rw [if_pos hc.1] at hmgid
    generalize hT : { P.setGroup a g' with table := rb.erase (P.setGroup a g').table a } = T
    have htable : T.table = rb.erase P.table a := by rw [← hT, McastPort.setGroup]
    have hself : T.groups a = some g' := by simp [← hT, McastPort.setGroup]
    have hother : ∀ b, b ≠ a → T.groups b = P.groups b := fun b hb => by
      simp [← hT, McastPort.setGroup, hb]
    have hmem : ∀ b, b ∈ T.table.toList ↔ b ≠ a ∧ b ∈ P.table.toList := fun b => by
      rw [htable]
      exact h.mem_erase
    have hkeya : T.key a = rec.mgid := (key_of_groups hself).trans hmgid
    have hkey : ∀ b, b ≠ a → T.key b = P.key b := fun b hb => by simp [key, hother b hb]
    have hsorted : T.table.SortedBy T.key := by
      rw [htable]
      refine (rb.erase_sortedBy h.sorted a).congr fun b hb => ?_
      exact hkey b (h.mem_erase.mp hb).1
    cases hins : T.mcastInsert rb a (rec.mgid = 0) with
    | ok P' =>
      have hins' := hins
      rw [← hkeya] at hins'
      have htree : P'.Tree := by
        refine (Tree.insert (fun b => ?_) (by simp [hself]) ?_ hsorted ?_ hins').1
        · rw [hmem b, h.mem_iff b]
          by_cases hb : b = a
          · simp [hb]
          · simp [hb, hother b hb]
        · rw [htable, rb.erase_toList]
          exact h.nodup.erase a
        · intro b hb c hc
          obtain ⟨hba, hb⟩ := (hmem b).mp hb
          obtain ⟨hca, hc⟩ := (hmem c).mp hc
          rw [hkey b hba, hkey c hca]
          exact h.unique b hb c hc
      refine iff_of_true htree fun _ _ h0 b hb hba => ?_
      unfold mcastInsert at hins
      rw [decide_eq_false h0] at hins
      cases ht : T.table.insertAllow T.key false a with
      | error y => simp [ht, Except.map] at hins
      | ok t =>
        have := SearchTree.insertAllow_key_ne hsorted ht ((hmem b).mpr ⟨hba, hb⟩)
        rwa [hkey b hba, hkeya] at this
    | error cur =>
      -- the group stays outside the tree
      unfold mcastInsert at hins
      cases ht : T.table.insertAllow T.key (rec.mgid = 0) a with
      | ok t => simp [ht, Except.map] at hins
      | error y =>
        obtain ⟨hy, hkeyy, hdup⟩ := SearchTree.mem_of_insertAllow_error ht
        obtain ⟨hya, hy⟩ := (hmem y).mp hy
        rw [hkey y hya, hkeya] at hkeyy
        refine iff_of_false (fun hT' => ?_) fun hall => ?_
        · have hin := (hT'.mem_iff a).mpr (by simp [hself])
          exact ((hmem a).mp hin).1 rfl
        · exact hall hc.1 hc.2 (by simpa using hdup) y hy hya hkeyy
  · rw [if_neg hc]
    have hsame : g'.mcRec.mgid = g.mcRec.mgid := by
      rw [hmgid]
      split
      next hs => exact not_not.mp fun hne => hc ⟨hs, hne⟩
      next => rfl
    exact iff_of_true (h.setGroup hg hsame rfl rfl) fun hs hne => absurd ⟨hs, hne⟩ hc

/-- The step lemma: an event keeps the tree exactly under its condition. -/
theorem step_iff (h : P.Tree) (e : Event) : (P.step rb e).Tree ↔ P.NewMgid e := by
  cases e with
  | acquireGroup mgid alloc => exact iff_of_true (h.acquireGroup mgid alloc) trivial
  | queueJoin a m rec compMask => exact iff_of_true (h.queueJoin a m rec compMask) trivial
  | free a m => exact iff_of_true (h.handleGroup (by simp) a) trivial
  | releaseGroup a => exact iff_of_true (h.releaseGroup a) trivial
  | turn a answers => exact iff_of_true (h.handleGroup (by simp) a) trivial
  | leaveReply a status sent => exact iff_of_true (h.handleGroup (by simp) a) trivial
  | portEvent pkey => exact iff_of_true (h.mcastGroupsEvent pkey) trivial
  | joinReply a status rec findPkey =>
    simp only [McastPort.step, NewMgid]
    cases hg : P.groups a with
    | none => exact iff_of_true h (by simp)
    | some g =>
      simp only
      split
      next r hp =>
        rw [h.joinHandler_iff hg]
        constructor
        · intro hall g' r' hg' _
          cases hg'
          exact hall
        · exact fun hall => hall g r rfl hp
      next hp =>
        refine iff_of_true h fun g' r' hg' hp' => ?_
        cases hg'
        exact absurd hp' (hp r')

end Tree

/-! ## References -/

namespace GroupsInv

/-- One group changes, and the references in the hands of others that count for it. -/
theorem setGroup (h : P.GroupsInv) (hi : g.Inv) (hpos : 0 < P'.refcount a g)
    (hgs : P'.groups = update P.groups a (some g))
    (hacq : ∀ b, b ≠ a → P'.acquired b = P.acquired b)
    (hrel : ∀ b, b ≠ a → P'.releases b = P.releases b) : P'.GroupsInv := by
  intro b f hf
  by_cases hb : b = a
  · subst hb
    obtain rfl : g = f := by simpa [hgs] using hf
    exact ⟨hi, hpos⟩
  · have hf' : P.groups b = some f := by simpa [hgs, hb] using hf
    rw [McastPort.refcount, hacq b hb, hrel b hb]
    exact h b f hf'

theorem acquire (h : P.GroupsInv) (a : Nat) : (P.acquire a).GroupsInv := by
  intro b f hf
  obtain ⟨hi, hpos⟩ := h b f hf
  refine ⟨hi, lt_of_lt_of_le hpos ?_⟩
  simp only [McastPort.refcount, McastPort.acquire, update_apply]
  split
  next hb =>
    subst hb
    omega
  next => exact le_refl _

theorem acquireGroup (h : P.GroupsInv) (mgid : Nat) (alloc : Option Nat) :
    (P.acquireGroup rb mgid alloc).GroupsInv := by
  rcases acquireGroup_cases rb P mgid alloc with heq | ⟨a, heq⟩ | ⟨a, P', hfresh, hins, heq⟩
  · rw [heq]
    exact h
  · rw [heq]
    exact h.acquire a
  · rw [heq]
    obtain ⟨hgs, hacq, hrel⟩ := mcastInsert_groups hins
    refine h.setGroup (.new mgid) ?_ hgs (fun b hb => ?_) fun b _ => ?_
    · simp only [McastPort.refcount, McastPort.acquire, update_self]
      omega
    · simp [McastPort.acquire, hacq, McastPort.setGroup, hb]
    · simp [McastPort.acquire, hrel, McastPort.setGroup]

theorem queueJoin (h : P.GroupsInv) (a m : Nat) (rec : McmemberRec) (compMask : Nat) :
    (P.queueJoin a m rec compMask).GroupsInv := by
  unfold McastPort.queueJoin
  split
  · exact h
  next g hg =>
    split
    · exact h
    next hc =>
      have hf : g.Fresh m := not_not.mp fun hf => hc (.inr hf)
      have hi := (h a g hg).1.queueJoin hf.1 rec compMask
      refine h.setGroup hi ?_ rfl (fun b hb => ?_) fun b _ => rfl
      · rw [Group.queueJoin_eq]
        simp only [McastPort.refcount]
        omega
      · simp [hb]

theorem releaseGroup (h : P.GroupsInv) (a : Nat) : (P.releaseGroup rb a).GroupsInv := by
  unfold McastPort.releaseGroup
  split
  · exact h
  next g hg =>
    split
    · exact h
    next hr =>
      simp only
      have hrel : ∀ b, b ≠ a → update P.releases a (P.releases a - 1) b = P.releases b :=
        fun b hb => update_of_ne hb _ _
      split
      next =>
        intro b f hf
        by_cases hb : b = a
        · simp [hb] at hf
        · have hf' : P.groups b = some f := by simpa [hb] using hf
          simpa [McastPort.refcount, hb] using h b f hf'
      next h0 =>
        refine h.setGroup (h a g hg).1 (Nat.pos_of_ne_zero h0) ?_ (fun b _ => rfl) hrel
        exact (update_eq_self_iff.mpr hg.symm).symm

/-- What a group gives up waits for its release. -/
theorem handleGroup (h : P.GroupsInv) (a : Nat) (e : Group.Event) :
    (P.handleGroup a e).GroupsInv := by
  unfold McastPort.handleGroup
  split
  · exact h
  next g hg =>
    obtain ⟨hi, hpos⟩ := h a g hg
    refine h.setGroup (hi.handle e) ?_ rfl (fun b _ => rfl) fun b hb => ?_
    · simp only [McastPort.refcount, McastPort.setGroup, update_self] at hpos ⊢
      omega
    · simp [hb]

theorem mcastGroupsEvent (h : P.GroupsInv) (pkey : Bool) : (P.mcastGroupsEvent pkey).GroupsInv := by
  intro b f hf
  unfold McastPort.mcastGroupsEvent at hf
  simp only at hf
  split at hf
  · obtain ⟨g, hg, rfl⟩ := Option.map_eq_some_iff.mp hf
    obtain ⟨hi, hpos⟩ := h b g hg
    refine ⟨hi.handle _, ?_⟩
    simp only [McastPort.refcount, McastPort.mcastGroupsEvent, Group.handle,
      Group.groupsEvent_eq] at hpos ⊢
    omega
  · exact h b f hf

theorem joinHandler (h : P.GroupsInv) (hg : P.groups a = some g) (hp : g.phase ≠ .none)
    (status : Int) (rec : McmemberRec) (findPkey : Option Nat) :
    (P.joinHandler rb a g status rec findPkey).GroupsInv := by
  obtain ⟨hi, hpos⟩ := h a g hg
  have hset : ∀ {P'' : McastPort},
      P''.groups = update P.groups a (some (g.joinHandler status rec findPkey)) →
      P''.acquired = P.acquired → P''.releases = P.releases → P''.GroupsInv := by
    intro P'' hgs hacq hrel
    have hi' := hi.joinHandler hp status rec findPkey
    refine h.setGroup hi' ?_ hgs (by simp [hacq]) (by simp [hrel])
    rw [McastPort.refcount, g.joinHandler_refcount, hacq, hrel]
    exact hpos
  unfold McastPort.joinHandler
  simp only
  split
  · split
    · exact hset rfl rfl rfl
    next P' hins =>
      obtain ⟨hgs, hacq, hrel⟩ := mcastInsert_groups hins
      exact hset hgs hacq hrel
  · exact hset rfl rfl rfl

/-- The references to the groups are in order, whatever happens to the tree. -/
theorem step (h : P.GroupsInv) (e : Event) : (P.step rb e).GroupsInv := by
  cases e with
  | acquireGroup mgid alloc => exact h.acquireGroup mgid alloc
  | queueJoin a m rec compMask => exact h.queueJoin a m rec compMask
  | free a m => exact h.handleGroup a _
  | releaseGroup a => exact h.releaseGroup a
  | turn a answers => exact h.handleGroup a _
  | leaveReply a status sent => exact h.handleGroup a _
  | portEvent pkey => exact h.mcastGroupsEvent pkey
  | joinReply a status rec findPkey =>
    simp only [McastPort.step]
    split
    · exact h
    next g hg =>
      split
      next r hp => exact h.joinHandler hg (by rw [hp]; simp) status rec findPkey
      next => exact h

/-- The table is sound exactly if its tree is. -/
theorem sound_iff (h : P.GroupsInv) : P.Sound ↔ P.Tree := by
  constructor
  · intro hs
    refine ⟨fun a => ?_, hs.nodup, hs.sorted, hs.unique⟩
    rw [hs.tree a, Option.isSome_iff_exists]
    exact ⟨fun ⟨g, hg, _⟩ => ⟨g, hg⟩, fun ⟨g, hg⟩ => ⟨g, hg, (h a g hg).2⟩⟩
  · intro ht
    refine ⟨fun a => ?_, ht.nodup, ht.sorted, ht.unique, fun a g hg => ?_, fun a g hg h0 =>
      ht.find hg h0⟩
    · rw [ht.mem_iff a, Option.isSome_iff_exists]
      exact ⟨fun ⟨g, hg⟩ => ⟨g, hg, (h a g hg).2⟩, fun ⟨g, hg, _⟩ => ⟨g, hg⟩⟩
    · obtain ⟨hi, -⟩ := h a g hg
      refine ⟨?_, hi.live_nodup, hi.live_iff⟩
      rw [McastPort.refcount, hi.refcount]

end GroupsInv

/-- The table of a port is in order in every state of a run exactly if no reply of the SA
gives a group the MGID of another one in the tree. -/
theorem sound_every_run_iff (rb : SearchTree.Rebalance Nat) (events : List Event) :
    (∀ P ∈ Run.states (step rb) empty events, P.Sound) ↔
      Run.Steps (step rb) NewMgid empty events := by
  have hgroups : empty.GroupsInv := fun a g hg => by cases hg
  have hinv : ∀ (P : McastPort) e, P.GroupsInv → True → (P.step rb e).GroupsInv :=
    fun _ e h _ => h.step e
  refine Run.forall_states_iff hinv (fun P e h _ hs => ?_) hgroups (hgroups.sound_iff.mpr .empty)
    (Run.steps_true _ events)
  rw [(h.step e).sound_iff]
  exact (h.sound_iff.mp hs).step_iff e

/-- A group waits for its MGID; another client makes one of MGID 5, which the SA then assigns. -/
def assignedTaken : List Event :=
  [.acquireGroup 0 (some 10), .queueJoin 10 1 { McmemberRec.zero 0 with joinState := 1 } 0,
    .turn 10 ⟨none, true, false⟩, .turn 10 ⟨none, true, false⟩, .acquireGroup 5 (some 11),
    .queueJoin 11 2 { McmemberRec.zero 5 with joinState := 1 } 0,
    .joinReply 10 0 { McmemberRec.zero 5 with joinState := 1 } none]

/-- The first group is alive, but in no tree. -/
theorem assigned_mgid_taken :
    ¬∀ P ∈ Run.states (step (SearchTree.Rebalance.plain Nat)) empty assignedTaken, P.Sound := by
  intro h
  have hs := h _ (Run.final_mem_states _ _)
  have hlive : ∃ g,
      (Run.final (step (SearchTree.Rebalance.plain Nat)) empty assignedTaken).groups 10 = some g ∧
        0 < (Run.final (step (SearchTree.Rebalance.plain Nat)) empty assignedTaken).refcount 10 g :=
    ⟨_, rfl, by decide⟩
  have hout :
      10 ∉ (Run.final (step (SearchTree.Rebalance.plain Nat)) empty
        assignedTaken).table.toList := by
    decide
  exact hout ((hs.tree 10).mpr hlive)

end McastPort

end IbCore
