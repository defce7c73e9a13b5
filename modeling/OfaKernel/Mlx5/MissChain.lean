-- SUMMARY: The miss links of mlx5 flow tables.
import OfaKernel.Mlx5.FlowTables

/-!
# The miss chain

Every live table should miss to the first table of the next non-empty priority.
-/

open Function

namespace Mlx5

namespace FsNode

variable {root : FsNode} {tables : FtLists} {p q : Path} {a b : FsPrio}

/-- The nearest priority in front of `p` that holds a table. -/
def prevPrio (root : FsNode) (tables : FtLists) (p : Path) : Option Path :=
  Slots.prevSlot (root.leaves []) tables p

theorem prevPrio_eq_none (hn : root.NoChains) (ha : root.attrAt p = some a) :
    prevPrio root tables p = none ↔ findPrevChainedFt root tables p = none := by
  rw [prevPrio, Slots.prevSlot_eq_none, findPrevChainedFt_eq hn ha]

/-- The next table of a priority does not depend on its own tables. -/
theorem findNextChainedFt_update_self (hn : root.NoChains) (ha : root.attrAt p = some a)
    (l : List FtId) :
    findNextChainedFt root (update tables p l) p = findNextChainedFt root tables p := by
  rw [findNextChainedFt_eq hn ha, findNextChainedFt_eq hn ha]
  obtain ⟨-, r, -, -, hr, hafter, -⟩ :=
    Slots.exists_split (nodup_leaves [] root) (mem_leaves hn ha)
  refine Slots.first_congr fun j hj => ?_
  rw [hafter] at hj
  rw [update_of_ne fun h : j = p => hr (h ▸ hj)]

/-- A change of one priority's tables moves `find_next_chained_ft` of the
previous non-empty priority only. -/
theorem findNextChainedFt_update (hn : root.NoChains) (ha : root.attrAt p = some a)
    (hb : root.attrAt q = some b) (hpq : q ≠ p) (hq : tables q ≠ []) (l : List FtId) :
    findNextChainedFt root (update tables p l) q =
      if prevPrio root tables p = some q then l.head?.or (findNextChainedFt root tables p)
      else findNextChainedFt root tables q := by
  rw [findNextChainedFt_eq hn hb, findNextChainedFt_eq hn hb, findNextChainedFt_eq hn ha]
  exact Slots.first_after_update (nodup_leaves [] root) (mem_leaves hn ha) (mem_leaves hn hb)
    hpq hq l

end FsNode

open FsNode hiding ns prio

/-- What the next table of a priority is: a table of lowest level in the first
non-empty priority behind it. -/
def NextTable (root : FsNode) (s : FtState) (p : Path) : Option FtId → Prop
  | none => ∀ q ∈ Slots.after (root.leaves []) p, s.tables q = []
  | some x => ∃ l q r, Slots.after (root.leaves []) p = l ++ q :: r ∧ (∀ k ∈ l, s.tables k = []) ∧
      s.Live x ∧ x ∈ s.tables q ∧ ∀ y ∈ s.tables q, s.level x ≤ s.level y

namespace FtState

variable {root : FsNode} {s s' : FtState} {p : Path} {a : FsPrio}

/-- Every live table misses to `find_next_chained_ft` of its priority. -/
def Linked (root : FsNode) (s : FtState) : Prop :=
  ∀ x, s.Live x → s.miss x = findNextChainedFt root s.tables (s.parent x)

/-- Every live table misses to `find_next_chained_ft` of its priority, and that
is the lowest live table of the next non-empty priority. -/
def MissChain (root : FsNode) (s : FtState) : Prop :=
  ∀ x, s.Live x → s.miss x = findNextChainedFt root s.tables (s.parent x) ∧
    NextTable root s (s.parent x) (s.miss x)

theorem Inv.attrAt_parent (h : Inv root s) {x : FtId} (hx : s.Live x) :
    ∃ a, root.attrAt (s.parent x) = some a := by
  obtain ⟨a, ha, -⟩ := h.level _ _ hx
  exact ⟨a, ha⟩

theorem Inv.nextTable (h : Inv root s) (hn : root.NoChains) (ha : root.attrAt p = some a) :
    NextTable root s p (findNextChainedFt root s.tables p) := by
  rw [findNextChainedFt_eq hn ha]
  cases hf : Slots.first s.tables (Slots.after (root.leaves []) p) with
  | none => exact Slots.first_eq_none.mp hf
  | some x =>
    obtain ⟨l, q, r, heq, hl, hx⟩ := Slots.first_eq_some hf
    have hmem : x ∈ s.tables q := List.mem_of_head? hx
    exact ⟨l, q, r, heq, hl, h.live hmem, hmem, fun y hy => h.head_le hx hy⟩

theorem Inv.missChain_iff_linked (h : Inv root s) (hn : root.NoChains) :
    MissChain root s ↔ Linked root s := by
  refine ⟨fun hm x hx => (hm x hx).1, fun hl x hx => ⟨hl x hx, ?_⟩⟩
  obtain ⟨a, ha⟩ := h.attrAt_parent hx
  rw [hl x hx]
  exact h.nextTable hn ha

theorem connectPrevFts_apply (hn : root.NoChains) (ha : root.attrAt p = some a)
    (hpar : ∀ q x, x ∈ s.tables q → s.parent x = q) (ft : Option FtId) {x : FtId} (hx : s.Live x) :
    connectPrevFts root s ft p x =
      if prevPrio root s.tables p = some (s.parent x) then ft else s.miss x := by
  unfold connectPrevFts
  cases hprev : findPrevChainedFt root s.tables p with
  | none =>
    rw [(prevPrio_eq_none hn ha).mpr hprev, if_neg (by simp)]
  | some prev =>
    rw [findPrevChainedFt_eq hn ha] at hprev
    obtain ⟨q, hq, hmem⟩ := Slots.last_before_mem hprev
    obtain rfl := hpar q prev hmem
    have hiff : x ∈ s.tables (s.parent prev) ↔
        prevPrio root s.tables p = some (s.parent x) := by
      rw [prevPrio, hq, Option.some.injEq]
      exact ⟨fun h => (hpar _ x h).symm, fun h => by rw [h]; exact hx⟩
    exact if_congr hiff rfl rfl

/-- The chain after a change of the tables of one priority `p` that points the
tables of the previous priority to `to`. -/
theorem Inv.linked_update_iff (h : Inv root s) (hn : root.NoChains) (hl : Linked root s)
    (ha : root.attrAt p = some a) {l : List FtId} (target : Option FtId)
    (htab : s'.tables = update s.tables p l)
    (hpar : ∀ q x, x ∈ s'.tables q → s'.parent x = q)
    (hmiss : ∀ x, s.Live x → s.parent x ≠ p →
      s'.miss x = if prevPrio root s.tables p = some (s.parent x) then target else s.miss x)
    (hp : ∀ x ∈ l, s'.miss x = findNextChainedFt root s.tables p) :
    Linked root s' ↔
      prevPrio root s.tables p = none ∨
        target = l.head?.or (findNextChainedFt root s.tables p) := by
  have hself : findNextChainedFt root s'.tables p = findNextChainedFt root s.tables p := by
    rw [htab]
    exact findNextChainedFt_update_self hn ha l
  have hlive : ∀ x, s.Live x → s.parent x ≠ p → s'.Live x ∧ s'.parent x = s.parent x := by
    intro x hx hne
    have hx' : x ∈ s'.tables (s.parent x) := by
      rw [htab, update_of_ne hne]
      exact hx
    have he := hpar _ x hx'
    exact ⟨by rw [Live, he]; exact hx', he⟩
  have hnext : ∀ x, s.Live x → s.parent x ≠ p →
      findNextChainedFt root s'.tables (s.parent x) =
        if prevPrio root s.tables p = some (s.parent x) then
          l.head?.or (findNextChainedFt root s.tables p) else s.miss x := by
    intro x hx hne
    obtain ⟨b, hb⟩ := h.attrAt_parent hx
    rw [htab, findNextChainedFt_update hn ha hb hne (List.ne_nil_of_mem hx) l, hl x hx]
  constructor
  · intro hl'
    refine or_iff_not_imp_left.mpr fun hne => ?_
    obtain ⟨q, hq⟩ := Option.ne_none_iff_exists'.mp hne
    -- some table of the previous priority shows where the chain now leads
    obtain ⟨x, hx⟩ := List.exists_mem_of_ne_nil _ (Slots.prevSlot_ne_nil hq)
    obtain rfl := h.parent q x hx
    have hxp : s.parent x ≠ p := Slots.prevSlot_ne hq
    have := hl' x (hlive x hx hxp).1
    rw [(hlive x hx hxp).2, hmiss x hx hxp, hnext x hx hxp, if_pos hq, if_pos hq] at this
    exact this
  · intro hcond x hx
    by_cases hxp : s'.parent x = p
    · rw [Live, hxp, htab, update_self] at hx
      rw [hxp, hself, hp x hx]
    · have hx' : x ∈ s.tables (s'.parent x) := by
        rw [Live, htab, update_of_ne hxp] at hx
        exact hx
      have he := h.parent _ x hx'
      have hlx : s.Live x := by rw [Live, he]; exact hx'
      rw [← he] at hxp ⊢
      rw [hmiss x hlx hxp, hnext x hlx hxp]
      split
      · next hprev => exact hcond.resolve_left (by simp [hprev])
      · rfl

theorem connectPrevFts_of_notMem (ft : Option FtId) {x : FtId} (hx : ∀ q, x ∉ s.tables q) :
    connectPrevFts root s ft p x = s.miss x := by
  unfold connectPrevFts
  cases findPrevChainedFt root s.tables p with
  | none => rfl
  | some prev => exact if_neg (hx _)

/-- In a linked state the previous priority points to the first table of `p`. -/
theorem Inv.miss_prevPrio (h : Inv root s) (hn : root.NoChains) (hl : Linked root s)
    (ha : root.attrAt p = some a) {x : FtId} (hx : s.Live x)
    (hprev : prevPrio root s.tables p = some (s.parent x)) :
    s.miss x = (s.tables p).head?.or (findNextChainedFt root s.tables p) := by
  obtain ⟨b, hb⟩ := h.attrAt_parent hx
  have := findNextChainedFt_update hn ha hb (Slots.prevSlot_ne hprev) (List.ne_nil_of_mem hx)
    (s.tables p)
  rw [update_eq_self, if_pos hprev] at this
  rw [hl x hx, this]

/-! ## Creation -/

theorem Inv.linked_createInPrio_iff (h : Inv root s) (hn : root.NoChains) (hl : Linked root s)
    (modifyRoot : Bool) (ha : root.attrAt p = some a) {lvl : Nat} (hlo : a.startLevel ≤ lvl)
    (hhi : lvl < a.startLevel + a.numLevels) :
    Linked root (createInPrio root modifyRoot s p lvl) ↔
      s.tables p = [] ∨ (∃ x ∈ (s.tables p).head?, s.level x ≤ lvl) ∨
        findPrevChainedFt root s.tables p = none := by
  have hi' := h.create modifyRoot ha hlo hhi
  have hfresh : ∀ q x, x ∈ s.tables q → x ≠ s.nextFt := fun q x hx he =>
    h.nextFt_notMem q (he ▸ hx)
  cases hp : s.tables p with
  | nil =>
    -- the new table is alone: the previous priority is pointed to it
    have hm : (createInPrio root modifyRoot s p lvl).miss =
        connectPrevFts root (allocFlowTable root s p lvl) (some s.nextFt) p := by
      simp only [createInPrio, connectFlowTable]
      rw [show (allocFlowTable root s p lvl).tables p = [] from hp]
      rfl
    simp only [true_or, iff_true]
    refine (h.linked_update_iff hn hl ha (some s.nextFt) (createInPrio_tables ..) hi'.parent
      (fun x hx hne => ?_) fun x hx => ?_).mpr (.inr ?_)
    · have hpar : (allocFlowTable root s p lvl).parent x = s.parent x :=
        update_of_ne (hfresh _ _ hx) _ _
      have hmx : (allocFlowTable root s p lvl).miss x = s.miss x :=
        update_of_ne (hfresh _ _ hx) _ _
      rw [hm, connectPrevFts_apply hn ha (fun q y hy => ?_) _ (by rw [Live, hpar]; exact hx), hpar,
        hmx]
      · rfl
      · rw [← h.parent q y hy]
        exact update_of_ne (hfresh q y hy) _ _
    · rw [hp] at hx
      obtain rfl : x = s.nextFt := by simpa [listAddFlowTable] using hx
      rw [hm, connectPrevFts_of_notMem (s := allocFlowTable root s p lvl) _
        (fun q => h.nextFt_notMem q)]
      exact update_self ..
    · simp [hp, listAddFlowTable]
  | cons y ys =>
    have hm : (createInPrio root modifyRoot s p lvl).miss =
        update s.miss s.nextFt (findNextChainedFt root s.tables p) := by
      simp only [createInPrio, connectFlowTable]
      rw [if_neg]
      · rfl
      · rw [show (allocFlowTable root s p lvl).tables p = y :: ys from hp]
        simp
    have hy : y ≠ s.nextFt := hfresh p y (by simp [hp])
    have hiff := h.linked_update_iff hn hl ha (some y)
      (createInPrio_tables root modifyRoot s p lvl) hi'.parent (fun x hx hne => ?_) fun x hx => ?_
    · rw [hiff, prevPrio_eq_none hn ha, head?_listAddFlowTable, hp]
      simp only [List.head?_cons, Option.mem_def, Option.some.injEq, exists_eq_left',
        update_of_ne hy, update_self, reduceCtorEq, false_or]
      split
      · next hle => simp [hle]
      · next hle => simp [hle, hy]
    · rw [hm, update_of_ne (hfresh _ _ hx)]
      split
      · next hprev => rw [h.miss_prevPrio hn hl ha hx hprev, hp]; rfl
      · rfl
    · rw [hm]
      rcases mem_listAddFlowTable.mp hx with rfl | hx
      · exact update_self ..
      · rw [update_of_ne (hfresh p x hx), hl x (h.live hx), h.parent p x hx]

theorem Inv.linked_destroyFlowTable_iff (h : Inv root s) (hn : root.NoChains) (hl : Linked root s)
    {ft : FtId} (hft : s.Live ft) :
    Linked root (destroyFlowTable root s ft) ↔
      (s.tables (s.parent ft)).head? ≠ some ft ∨ s.tables (s.parent ft) = [ft] ∨
        findPrevChainedFt root s.tables (s.parent ft) = none := by
  obtain ⟨a, ha⟩ := h.attrAt_parent hft
  have hi' := h.destroy ft
  have hrest : ∀ x ∈ (s.tables (s.parent ft)).erase ft,
      s.miss x = findNextChainedFt root s.tables (s.parent ft) ∧ s.Live x := by
    intro x hx
    have hx' := List.mem_of_mem_erase hx
    rw [hl x (h.live hx'), h.parent _ x hx']
    exact ⟨rfl, h.live hx'⟩
  cases hp : s.tables (s.parent ft) with
  | nil => rw [Live, hp] at hft; simp at hft
  | cons y ys =>
    by_cases hy : y = ft
    · -- the front of the list leaves: the previous priority is pointed past the priority
      subst hy
      have hm : (destroyFlowTable root s y).miss =
          connectPrevFts root s (findNextChainedFt root s.tables (s.parent y)) (s.parent y) := by
        simp only [destroyFlowTable, removeFlowTable, disconnectFlowTable]
        rw [if_neg (by simp [hp])]
      have happly := fun x (hx : s.Live x) => connectPrevFts_apply hn ha h.parent
        (findNextChainedFt root s.tables (s.parent y)) hx
      have hiff := h.linked_update_iff hn hl ha
        (findNextChainedFt root s.tables (s.parent y))
        (destroyFlowTable_tables root s y) hi'.parent (fun x hx hne => ?_) fun x hx => ?_
      · rw [hiff, prevPrio_eq_none hn ha, hp, List.erase_cons_head]
        simp only [List.head?_cons, ne_eq, not_true_eq_false, false_or, List.cons.injEq, true_and]
        rw [or_comm]
        refine or_congr ?_ Iff.rfl
        cases ys with
        | nil => simp
        | cons z zs =>
          -- the next table of the list is not the next table behind the priority
          simp only [List.head?_cons, Option.some_or, reduceCtorEq, iff_false]
          intro he
          rw [findNextChainedFt_eq hn ha] at he
          obtain ⟨j, hj, hz⟩ := Slots.first_mem he
          have hzp : s.parent z = s.parent y := h.parent _ z (by simp [hp])
          obtain ⟨-, r, -, -, hr, hafter, -⟩ :=
            Slots.exists_split (nodup_leaves [] root) (mem_leaves hn ha)
          rw [hafter] at hj
          exact hr (by rw [← hzp, h.parent j z hz]; exact hj)
      · rw [hm]; exact happly x hx
      · rw [hm, happly x (hrest x hx).2]
        split
        · rfl
        · exact (hrest x hx).1
    · have hm : (destroyFlowTable root s ft).miss = s.miss := by
        simp only [destroyFlowTable, removeFlowTable, disconnectFlowTable]
        rw [if_pos (by simp [hp, hy])]
      simp only [List.head?_cons, ne_eq, Option.some.injEq, hy, not_false_eq_true,
        true_or, iff_true]
      refine (h.linked_update_iff hn hl ha (some y) (destroyFlowTable_tables root s ft)
        hi'.parent (fun x hx hne => ?_) fun x hx => ?_).mpr (.inr ?_)
      · rw [hm]
        split
        · next hprev => rw [h.miss_prevPrio hn hl ha hx hprev, hp]; rfl
        · rfl
      · rw [hm]; exact (hrest x hx).1
      · rw [hp, List.erase_cons_tail (by simpa using hy)]
        rfl

/-- A creation puts its table into an empty priority or not in front of all others, a destruction
takes a table that is not the first of its priority or its only one; otherwise no priority in
front may hold a table. -/
def KeepsChain (root : FsNode) (s : FtState) : FtOp → Prop
  | .create ns prio level => ∀ r ∈ findPrio root ns prio, level < r.2.numLevels →
      s.tables r.1 = [] ∨ (∃ x ∈ (s.tables r.1).head?, s.level x ≤ level + r.2.startLevel) ∨
        findPrevChainedFt root s.tables r.1 = none
  | .destroy ft =>
    (s.tables (s.parent ft)).head? ≠ some ft ∨ s.tables (s.parent ft) = [ft] ∨
      findPrevChainedFt root s.tables (s.parent ft) = none

theorem Inv.linked_step_iff (h : Inv root s) (hn : root.NoChains) (hl : Linked root s)
    (modifyRoot : Bool) {op : FtOp} (hv : Valid root s op) :
    Linked root (step root modifyRoot s op) ↔ KeepsChain root s op := by
  rcases step_cases modifyRoot hv with ⟨he, ns, prio, level, rfl, hlev⟩ |
    ⟨ns, prio, level, p, a, rfl, hf, ha, hlev, he⟩ | ⟨ft, rfl, hft, he⟩
  · rw [he]
    exact ⟨fun _ r hr hlt => absurd (hlev r hr) (Nat.not_le.mpr hlt), fun _ => hl⟩
  · rw [he, h.linked_createInPrio_iff hn hl modifyRoot ha (by omega) (by omega)]
    constructor
    · intro hc r hr _
      obtain rfl : (p, a) = r := Option.some.inj (hf.symm.trans hr)
      exact hc
    · exact fun hc => hc (p, a) hf hlev
  · exact h.linked_destroyFlowTable_iff hn hl hft

/-- In a tree without chains priorities, every state of a run has all miss links
in place exactly if every call of the run keeps the chain. -/
theorem missChain_iff (r : FsRoot) (hn : r.tree.NoChains) (modifyRoot : Bool) (ops : List FtOp)
    (hv : Run.Steps (step r.tree modifyRoot) (Valid r.tree) init ops) :
    (∀ s ∈ Run.states (step r.tree modifyRoot) init ops, MissChain r.tree s) ↔
      Run.Steps (step r.tree modifyRoot) (KeepsChain r.tree) init ops := by
  have hinv : ∀ s op, Inv r.tree s → Valid r.tree s op → Inv r.tree (step r.tree modifyRoot s op) :=
    fun s op h hop => h.call hop
  refine Run.forall_states_iff hinv (fun s op h hop hg => ?_) (inv_init r.tree) ?_ hv
  · rw [(h.call hop).missChain_iff_linked hn,
      h.linked_step_iff hn ((h.missChain_iff_linked hn).mp hg) modifyRoot hop]
  · intro x hx
    simp [Live, init] at hx

/-- A device with all capabilities. -/
def allCaps : FlowTableCaps where
  maxFtLevel := 64
  has := fun _ => true

/-- A table of the tc priority and two of the nic priority, the second created behind the first,
then the first one destroyed. -/
theorem missChain_iff_kernel :
    (∀ s ∈ Run.states (step (FsRoot.nicRx allCaps).tree true) init
        [.create [4, 0] 0 0, .create [4, 0] 1 0, .create [4, 0] 1 1, .destroy 1],
      MissChain (FsRoot.nicRx allCaps).tree s) ↔
      Run.Steps (step (FsRoot.nicRx allCaps).tree true)
        (KeepsChain (FsRoot.nicRx allCaps).tree) init
        [.create [4, 0] 0 0, .create [4, 0] 1 0, .create [4, 0] 1 1, .destroy 1] := by
  refine missChain_iff (FsRoot.nicRx allCaps) (FsRoot.nicRx_noChains allCaps) true _ ?_
  simp only [Run.steps_cons, Run.steps_nil, Valid, and_true]
  decide +kernel

/-- A table of level 1 and then one of level 0 in the nic priority: the tc
table keeps missing to the table of level 1. -/
theorem missChain_breaks_below :
    ¬∀ ops, Run.Steps (step (FsRoot.nicRx allCaps).tree true) (Valid (FsRoot.nicRx allCaps).tree)
        init ops →
      ∀ s ∈ Run.states (step (FsRoot.nicRx allCaps).tree true) init ops,
        MissChain (FsRoot.nicRx allCaps).tree s := by
  intro h
  have hv : Run.Steps (step (FsRoot.nicRx allCaps).tree true) (Valid (FsRoot.nicRx allCaps).tree)
      init [.create [4, 0] 0 0, .create [4, 0] 1 1, .create [4, 0] 1 0] := by
    simp only [Run.steps_cons, Run.steps_nil, Valid, and_true]
    decide +kernel
  have hmiss := (h _ hv (Run.final (step (FsRoot.nicRx allCaps).tree true) init
    [.create [4, 0] 0 0, .create [4, 0] 1 1, .create [4, 0] 1 0]) (by simp [Run.final]) 0
    (by decide +kernel)).1
  revert hmiss
  decide +kernel

end FtState

end Mlx5
