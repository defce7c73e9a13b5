-- SUMMARY: Creating and destroying mlx5 flow tables.
import OfaKernel.Mlx5.FsInit
import OfaKernel.Lib.Run

/-!
# Flow tables

One root namespace, with all firmware commands succeeding. The state holds the table lists of the
leaf priorities, and what the device was told: the miss target of each table and the root flow
table. Forwarding rules are modelled with the rules.
-/

open Function List

namespace Mlx5

inductive FsErr where
  | einval
  | enospc
  deriving DecidableEq, Repr

/-- The root flow table of the driver and the one of the last `update_root_ft` command. -/
structure RootFt where
  ft : Option FtId
  fw : Option FtId
  deriving DecidableEq, Repr

structure FtState where
  /-- The children lists of the leaf priorities. -/
  tables : FtLists
  level : FtId → Nat
  /-- The priority a table was created in (`node.parent`). -/
  parent : FtId → Path
  /-- The miss target of the last create or modify command for a table. -/
  miss : FtId → Option FtId
  rootFt : RootFt
  /-- The next table pointer. -/
  nextFt : FtId

namespace FtState

def init : FtState where
  tables := fun _ => []
  level := fun _ => 0
  parent := fun _ => []
  miss := fun _ => none
  rootFt := ⟨none, none⟩
  nextFt := 0

/-- A table that was created and not destroyed since. -/
def Live (s : FtState) (ft : FtId) : Prop :=
  ft ∈ s.tables (s.parent ft)

instance (s : FtState) (ft : FtId) : Decidable (s.Live ft) :=
  inferInstanceAs (Decidable (_ ∈ _))

end FtState

/-- The number and the attributes of a priority. -/
def FsNode.prio? : FsNode → Option FsPrio
  | .ns _ => none
  | .prio _ a _ => some a

def findPrio (root : FsNode) (ns : Path) (prio : Nat) : Option (Path × FsPrio) :=
  (root.nodeAt ns).bind fun n =>
    n.children.zipIdx.findSome? fun c =>
      c.1.prio?.bind fun a => if a.prio = prio then some (ns ++ [c.2], a) else none

/-- `connect_fts_in_prio`: one modify command for each table of the priority. The
result is the miss targets programmed after it. -/
def connectFtsInPrio (s : FtState) (prio : Path) (ft : Option FtId) : FtId → Option FtId :=
  fun x => if x ∈ s.tables prio then ft else s.miss x

/-- `connect_prev_fts`: the miss targets programmed after it. -/
def connectPrevFts (root : FsNode) (s : FtState) (ft : Option FtId) (prio : Path) :
    FtId → Option FtId :=
  match findPrevChainedFt root s.tables prio with
  | some prev => connectFtsInPrio s (s.parent prev) ft
  | none => s.miss

/-- `update_root_ft_create`: the root flow table after it. -/
def updateRootFtCreate (s : FtState) (ft : FtId) : RootFt :=
  let minLevel := match s.rootFt.ft with
    | some r => s.level r
    | none => intMax
  if s.level ft ≥ minLevel then s.rootFt else ⟨some ft, some ft⟩

/-- `connect_flow_table`; `modifyRoot` is the device's capability. -/
def connectFlowTable (root : FsNode) (modifyRoot : Bool) (s : FtState) (ft : FtId) (prio : Path) :
    FtState :=
  { s with
    miss := if (s.tables prio).isEmpty then connectPrevFts root s (some ft) prio else s.miss
    rootFt := if modifyRoot then updateRootFtCreate s ft else s.rootFt }

/-- `list_add_flow_table`: behind the last table of a run of levels up to its own. -/
def listAddFlowTable (level : FtId → Nat) (ft : FtId) : List FtId → List FtId
  | [] => [ft]
  | x :: xs => if level x > level ft then ft :: x :: xs else x :: listAddFlowTable level ft xs

/-- The table object before it is connected. -/
def allocFlowTable (root : FsNode) (s : FtState) (prio : Path) (level : Nat) : FtState :=
  { s with
    nextFt := s.nextFt + 1
    level := update s.level s.nextFt level
    parent := update s.parent s.nextFt prio
    miss := update s.miss s.nextFt (findNextChainedFt root s.tables prio) }

/-- `__mlx5_create_flow_table`, once its priority is found. -/
def createInPrio (root : FsNode) (modifyRoot : Bool) (s : FtState) (prio : Path) (level : Nat) :
    FtState :=
  let ft := s.nextFt
  let s := connectFlowTable root modifyRoot (allocFlowTable root s prio level) ft prio
  { s with tables := update s.tables prio (listAddFlowTable s.level ft (s.tables prio)) }

def createFlowTable (root : FsNode) (modifyRoot : Bool) (s : FtState) (ns : Path)
    (prio level : Nat) :
    Except FsErr (FtState × FtId) :=
  match findPrio root ns prio with
  | none => .error .einval
  | some (p, a) =>
    if level ≥ a.numLevels then .error .enospc
    else .ok (createInPrio root modifyRoot s p (level + a.startLevel), s.nextFt)

def listNextEntry (ft : FtId) (l : List FtId) : Option FtId :=
  (l.dropWhile (· ≠ ft)).tail.head?

def findNextFt (root : FsNode) (s : FtState) (ft : FtId) : Option FtId :=
  (listNextEntry ft (s.tables (s.parent ft))).or (findNextChainedFt root s.tables (s.parent ft))

/-- `update_root_ft_destroy`: the root flow table after it. -/
def updateRootFtDestroy (root : FsNode) (s : FtState) (ft : FtId) : RootFt :=
  if s.rootFt.ft ≠ some ft then s.rootFt
  else match findNextFt root s ft with
    | none => { s.rootFt with ft := none }
    | some new => ⟨some new, some new⟩

def disconnectFlowTable (root : FsNode) (s : FtState) (ft : FtId) : FtState :=
  let prio := s.parent ft
  { s with
    rootFt := updateRootFtDestroy root s ft
    miss := if (s.tables prio).head? ≠ some ft then s.miss
      else connectPrevFts root s (findNextChainedFt root s.tables prio) prio }

/-- The table leaves its list when its node is released. -/
def removeFlowTable (s : FtState) (ft : FtId) : FtState :=
  { s with tables := update s.tables (s.parent ft) ((s.tables (s.parent ft)).erase ft) }

/-- `mlx5_destroy_flow_table`, no other reference being held. -/
def destroyFlowTable (root : FsNode) (s : FtState) (ft : FtId) : FtState :=
  removeFlowTable (disconnectFlowTable root s ft) ft

/-! ## Runs -/

inductive FtOp where
  /-- A namespace, the number of a priority in it and a level inside the priority. -/
  | create (ns : Path) (prio level : Nat)
  | destroy (ft : FtId)
  deriving DecidableEq, Repr

namespace FtState

/-- One call; a refused creation changes nothing. -/
def step (root : FsNode) (modifyRoot : Bool) (s : FtState) : FtOp → FtState
  | .create ns prio level =>
    match createFlowTable root modifyRoot s ns prio level with
    | .ok r => r.1
    | .error _ => s
  | .destroy ft => destroyFlowTable root s ft

/-- What the callers owe: the namespaces handed out hold leaf priorities, and a
destroyed table is live. -/
def Valid (root : FsNode) (s : FtState) : FtOp → Prop
  | .create ns prio _ => ∀ r ∈ findPrio root ns prio, root.attrAt r.1 = some r.2
  | .destroy ft => s.Live ft

/-! ## The table lists -/

/-- The tables of a list are created in its priority, inside its level range,
and sorted by level. -/
structure Inv (root : FsNode) (s : FtState) : Prop where
  parent : ∀ p x, x ∈ s.tables p → s.parent x = p
  lt : ∀ p x, x ∈ s.tables p → x < s.nextFt
  level : ∀ p x, x ∈ s.tables p → ∃ a, root.attrAt p = some a ∧
    a.startLevel ≤ s.level x ∧ s.level x < a.startLevel + a.numLevels
  nodup : ∀ p, (s.tables p).Nodup
  sorted : ∀ p, (s.tables p).Pairwise fun x y => s.level x ≤ s.level y

theorem inv_init (root : FsNode) : Inv root init where
  parent := by simp [init]
  lt := by simp [init]
  level := by simp [init]
  nodup := by simp [init]
  sorted := by simp [init]

end FtState

variable {level : FtId → Nat} {l : List FtId}

theorem mem_listAddFlowTable {ft x : FtId} :
    x ∈ listAddFlowTable level ft l ↔ x = ft ∨ x ∈ l := by
  induction l with
  | nil => simp [listAddFlowTable]
  | cons y l ih =>
    unfold listAddFlowTable
    split
    · simp
    · simp only [mem_cons, ih]; tauto

variable {ft : FtId}

theorem nodup_listAddFlowTable (hl : l.Nodup) (hft : ft ∉ l) :
    (listAddFlowTable level ft l).Nodup := by
  induction l with
  | nil => simp [listAddFlowTable]
  | cons y l ih =>
    simp only [mem_cons, not_or] at hft
    rw [nodup_cons] at hl
    unfold listAddFlowTable
    split
    · simp [hft, hl]
    · rw [nodup_cons, mem_listAddFlowTable]
      exact ⟨fun h => h.elim (fun h => hft.1 h.symm) hl.1, ih hl.2 hft.2⟩

theorem sorted_listAddFlowTable (hl : l.Pairwise fun x y => level x ≤ level y) :
    (listAddFlowTable level ft l).Pairwise fun x y => level x ≤ level y := by
  induction l with
  | nil => simp [listAddFlowTable]
  | cons y l ih =>
    rw [pairwise_cons] at hl
    unfold listAddFlowTable
    split
    · next h =>
        refine pairwise_cons.mpr ⟨fun z hz => ?_, pairwise_cons.mpr hl⟩
        rcases mem_cons.mp hz with rfl | hz
        · exact h.le
        · exact h.le.trans (hl.1 z hz)
    · next h =>
        refine pairwise_cons.mpr ⟨fun z hz => ?_, ih hl.2⟩
        rcases mem_listAddFlowTable.mp hz with rfl | hz
        · exact Nat.le_of_not_lt h
        · exact hl.1 z hz

/-- The new table comes first in an empty list and in front of higher levels. -/
theorem head?_listAddFlowTable :
    (listAddFlowTable level ft l).head? =
      if ∃ x ∈ l.head?, level x ≤ level ft then l.head? else some ft := by
  cases l with
  | nil => simp [listAddFlowTable]
  | cons y l =>
    unfold listAddFlowTable
    split
    · next h => simp [Nat.not_le.mpr h]
    · next h => simp [Nat.le_of_not_lt h]

@[simp] theorem createInPrio_tables (root : FsNode) (modifyRoot : Bool) (s : FtState) (p : Path)
    (lvl : Nat) : (createInPrio root modifyRoot s p lvl).tables = update s.tables p
      (listAddFlowTable (update s.level s.nextFt lvl) s.nextFt (s.tables p)) := rfl

@[simp] theorem createInPrio_level (root : FsNode) (modifyRoot : Bool) (s : FtState) (p : Path)
    (lvl : Nat) : (createInPrio root modifyRoot s p lvl).level =
      update s.level s.nextFt lvl := rfl

@[simp] theorem createInPrio_parent (root : FsNode) (modifyRoot : Bool) (s : FtState) (p : Path)
    (lvl : Nat) : (createInPrio root modifyRoot s p lvl).parent =
      update s.parent s.nextFt p := rfl

@[simp] theorem removeFlowTable_tables (s : FtState) (ft : FtId) :
    (removeFlowTable s ft).tables =
      update s.tables (s.parent ft) ((s.tables (s.parent ft)).erase ft) := rfl

@[simp] theorem destroyFlowTable_tables (root : FsNode) (s : FtState) (ft : FtId) :
    (destroyFlowTable root s ft).tables =
      update s.tables (s.parent ft) ((s.tables (s.parent ft)).erase ft) := rfl

namespace FtState

variable {root : FsNode} {modifyRoot : Bool} {s : FtState}

theorem Inv.nextFt_notMem (h : Inv root s) (p : Path) : s.nextFt ∉ s.tables p :=
  fun hm => Nat.lt_irrefl _ (h.lt p _ hm)

theorem Inv.live (h : Inv root s) {p : Path} {x : FtId} (hx : x ∈ s.tables p) : s.Live x := by
  rw [Live, h.parent p x hx]
  exact hx

/-- The front of a list has the lowest level. -/
theorem Inv.head_le (h : Inv root s) {p : Path} {x y : FtId} (hx : (s.tables p).head? = some x)
    (hy : y ∈ s.tables p) : s.level x ≤ s.level y := by
  have hsort := h.sorted p
  cases hp : s.tables p with
  | nil => rw [hp] at hx; simp at hx
  | cons z zs =>
    rw [hp] at hx hy hsort
    obtain rfl : z = x := by simpa using hx
    rcases mem_cons.mp hy with rfl | hy
    · exact Nat.le_refl _
    · exact (pairwise_cons.mp hsort).1 y hy

theorem Inv.create (h : Inv root s) (modifyRoot : Bool) {p : Path} {a : FsPrio} {lvl : Nat}
    (ha : root.attrAt p = some a) (hlo : a.startLevel ≤ lvl)
    (hhi : lvl < a.startLevel + a.numLevels) :
    Inv root (createInPrio root modifyRoot s p lvl) := by
  -- the old entries of every list keep their parent and their level
  have hold : ∀ q x, x ∈ s.tables q →
      update s.parent s.nextFt p x = s.parent x ∧
        update s.level s.nextFt lvl x = s.level x := by
    intro q x hx
    have hne : x ≠ s.nextFt := fun he => h.nextFt_notMem q (he ▸ hx)
    exact ⟨update_of_ne hne _ _, update_of_ne hne _ _⟩
  have hmem : ∀ q x, x ∈ (createInPrio root modifyRoot s p lvl).tables q →
      (x = s.nextFt ∧ q = p) ∨ x ∈ s.tables q := by
    intro q x hx
    by_cases hq : q = p
    · subst hq
      rw [createInPrio_tables, update_self, mem_listAddFlowTable] at hx
      exact hx.imp (fun hx => ⟨hx, rfl⟩) id
    · rw [createInPrio_tables, update_of_ne hq] at hx
      exact .inr hx
  refine ⟨fun q x hx => ?_, fun q x hx => ?_, fun q x hx => ?_, fun q => ?_, fun q => ?_⟩
  · rcases hmem q x hx with ⟨rfl, rfl⟩ | hx
    · rw [createInPrio_parent, update_self]
    · rw [createInPrio_parent, (hold q x hx).1, h.parent q x hx]
  · rcases hmem q x hx with ⟨rfl, rfl⟩ | hx
    · exact Nat.lt_succ_self _
    · exact Nat.lt_succ_of_lt (h.lt q x hx)
  · rcases hmem q x hx with ⟨rfl, rfl⟩ | hx
    · refine ⟨a, ha, ?_⟩
      rw [createInPrio_level, update_self]
      exact ⟨hlo, hhi⟩
    · rw [createInPrio_level, (hold q x hx).2]
      exact h.level q x hx
  · by_cases hq : q = p
    · subst hq
      rw [createInPrio_tables, update_self]
      exact nodup_listAddFlowTable (h.nodup q) (h.nextFt_notMem q)
    · rw [createInPrio_tables, update_of_ne hq]
      exact h.nodup q
  · have hsort : (s.tables q).Pairwise fun x y =>
        update s.level s.nextFt lvl x ≤ update s.level s.nextFt lvl y :=
      (h.sorted q).imp_of_mem fun {x y} hx hy hle => by
        rw [(hold q x hx).2, (hold q y hy).2]; exact hle
    by_cases hq : q = p
    · subst hq
      rw [createInPrio_tables, update_self]
      exact sorted_listAddFlowTable hsort
    · rw [createInPrio_tables, update_of_ne hq]
      exact hsort

/-- Entries may leave the lists. -/
theorem Inv.remove (h : Inv root s) (ft : FtId) : Inv root (removeFlowTable s ft) := by
  have hsub : ∀ q, ((removeFlowTable s ft).tables q).Sublist (s.tables q) := by
    intro q
    by_cases hq : q = s.parent ft
    · subst hq
      rw [removeFlowTable_tables, update_self]
      exact erase_sublist
    · rw [removeFlowTable_tables, update_of_ne hq]
  exact
    { parent := fun q x hx => h.parent q x ((hsub q).subset hx)
      lt := fun q x hx => h.lt q x ((hsub q).subset hx)
      level := fun q x hx => h.level q x ((hsub q).subset hx)
      nodup := fun q => (h.nodup q).sublist (hsub q)
      sorted := fun q => (h.sorted q).sublist (hsub q) }

theorem Inv.disconnect (h : Inv root s) (ft : FtId) :
    Inv root (disconnectFlowTable root s ft) :=
  ⟨h.parent, h.lt, h.level, h.nodup, h.sorted⟩

theorem Inv.destroy (h : Inv root s) (ft : FtId) :
    Inv root (destroyFlowTable root s ft) :=
  (h.disconnect ft).remove ft

/-- Everything a call can do. -/
theorem step_cases (modifyRoot : Bool) {op : FtOp} (hv : Valid root s op) :
    (step root modifyRoot s op = s ∧
      ∃ ns prio level, op = .create ns prio level ∧
        ∀ r ∈ findPrio root ns prio, r.2.numLevels ≤ level) ∨
    (∃ ns prio level p a, op = .create ns prio level ∧ findPrio root ns prio = some (p, a) ∧
      root.attrAt p = some a ∧ level < a.numLevels ∧
      step root modifyRoot s op = createInPrio root modifyRoot s p (level + a.startLevel)) ∨
    (∃ ft, op = .destroy ft ∧ s.Live ft ∧
    step root modifyRoot s op = destroyFlowTable root s ft) := by
  cases op with
  | destroy ft => exact .inr (.inr ⟨ft, rfl, hv, rfl⟩)
  | create ns prio level =>
    cases hf : findPrio root ns prio with
    | none => exact .inl ⟨by simp [step, createFlowTable, hf], ns, prio, level, rfl, by simp [hf]⟩
    | some r =>
      obtain ⟨p, a⟩ := r
      by_cases hl : level ≥ a.numLevels
      · refine .inl ⟨by simp [step, createFlowTable, hf, hl], ns, prio, level, rfl, ?_⟩
        rw [hf]
        rintro r ⟨⟩
        exact hl
      · refine .inr (.inl ⟨ns, prio, level, p, a, rfl, hf, hv (p, a) hf, Nat.lt_of_not_le hl, ?_⟩)
        simp [step, createFlowTable, hf, hl]

theorem Inv.call (h : Inv root s) {op : FtOp} (hv : Valid root s op) :
    Inv root (step root modifyRoot s op) := by
  rcases step_cases modifyRoot hv with ⟨he, -⟩ | ⟨ns, prio, level, p, a, -, -, ha, hl, he⟩ |
    ⟨ft, -, -, he⟩
  · rw [he]; exact h
  · rw [he]; exact h.create modifyRoot ha (by omega) (by omega)
  · rw [he]; exact h.destroy ft

section Levels

variable {p q : Path} {a : FsPrio} {y : FtId} {hi : Nat}

/-- The levels of tables in two priorities, one behind the other. -/
theorem Inv.level_leavesAfter (h : Inv root s) (hlev : root.Levels 0 hi)
    (ha : root.attrAt p = some a) (hq : q ∈ root.leavesAfter [] p) (hy : y ∈ s.tables q) :
    a.startLevel + a.numLevels ≤ s.level y := by
  obtain ⟨q', b, rfl, hb, hle⟩ := hlev.after ha hq
  obtain ⟨b', hb', hlo, -⟩ := h.level _ y hy
  obtain rfl : b = b' := Option.some.inj (hb.symm.trans hb')
  exact Nat.le_trans hle hlo

theorem Inv.level_leavesBefore (h : Inv root s) (hlev : root.Levels 0 hi)
    (ha : root.attrAt p = some a) (hq : q ∈ root.leavesBefore [] p) (hy : y ∈ s.tables q) :
    s.level y < a.startLevel := by
  obtain ⟨q', b, rfl, hb, hle⟩ := hlev.before ha hq
  obtain ⟨b', hb', -, hhi⟩ := h.level _ y hy
  obtain rfl : b = b' := Option.some.inj (hb.symm.trans hb')
  exact Nat.lt_of_lt_of_le hhi hle

theorem Inv.level_lt (h : Inv root s) (hlev : root.Levels 0 hi) (hn : root.NoChains)
    (ha : root.attrAt p = some a) (hq : q ∈ Slots.after (root.leaves []) p) (hy : y ∈ s.tables q) :
    a.startLevel + a.numLevels ≤ s.level y := by
  rw [(FsNode.around_eq hn ha).1] at hq
  exact h.level_leavesAfter hlev ha hq hy

theorem Inv.level_lt_before (h : Inv root s) (hlev : root.Levels 0 hi) (hn : root.NoChains)
    (ha : root.attrAt p = some a) (hq : q ∈ Slots.before (root.leaves []) p)
    (hy : y ∈ s.tables q) : s.level y < a.startLevel := by
  rw [(FsNode.around_eq hn ha).2] at hq
  exact h.level_leavesBefore hlev ha hq hy

end Levels

end FtState

end Mlx5
