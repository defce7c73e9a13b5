-- SUMMARY: The init code of the mlx5 steering trees.
import OfaKernel.Mlx5.FsTree
import Mathlib.Tactic.Ring

/-!
# Initial steering trees

`init_root_tree` builds a tree from a static description and the device's capabilities, and
`set_prio_attrs` hands out the level ranges. Behind a leaf priority come only level ranges above
its own: `Levels`.
-/

namespace Mlx5

namespace FsNode

/-! ## Level assignment -/

mutual

/-- `set_prio_attrs_in_ns` on a namespace and `set_prio_attrs_in_prio` on a
priority, with the level at which the next sibling starts. -/
def setPrioAttrsIn : FsNode → Nat → FsNode × Nat
  | .ns cs, accLevel =>
    let r := setPrioAttrsInPrios cs accLevel
    (.ns r.1, r.2)
  | .prio type a cs, accLevel =>
    let r := setPrioAttrsInNss cs accLevel accLevel
    let numLevels := if a.numLevels = 0 then r.2 - accLevel else a.numLevels
    (.prio type { a with startLevel := accLevel, numLevels := numLevels } r.1,
      accLevel + numLevels)

def setPrioAttrsInPrios : List FsNode → Nat → List FsNode × Nat
  | [], accLevel => ([], accLevel)
  | c :: cs, accLevel =>
    let r := setPrioAttrsIn c accLevel
    let rs := setPrioAttrsInPrios cs r.2
    (r.1 :: rs.1, rs.2)

/-- Every namespace of a priority starts at the priority's own level. -/
def setPrioAttrsInNss : List FsNode → Nat → Nat → List FsNode × Nat
  | [], _, accLevelNs => ([], accLevelNs)
  | c :: cs, accLevel, _ =>
    let r := setPrioAttrsIn c accLevel
    let rs := setPrioAttrsInNss cs accLevel r.2
    (r.1 :: rs.1, rs.2)

end

def setPrioAttrs (root : FsNode) : FsNode :=
  (root.setPrioAttrsIn 0).1

/-- How many levels a node takes. -/
def numLevelsOf (n : FsNode) : Nat :=
  (n.setPrioAttrsIn 0).2

mutual

/-- All levels below the node lie in `[lo, hi)`, each child of a namespace above those in front.
The namespaces of a chains priority share one range. -/
def Levels : Nat → Nat → FsNode → Prop
  | lo, hi, .ns cs => LevelsSeq lo hi cs
  | lo, hi, .prio .prioChains _ cs => lo ≤ hi ∧ LevelsAll lo hi cs
  | lo, hi, .prio .prio a [] => lo ≤ a.startLevel ∧ a.startLevel + a.numLevels ≤ hi
  | lo, hi, .prio .prio _ (c :: cs) => LevelsSeq lo hi (c :: cs)

def LevelsSeq : Nat → Nat → List FsNode → Prop
  | lo, hi, [] => lo ≤ hi
  | lo, hi, c :: cs => ∃ mid, Levels lo mid c ∧ LevelsSeq mid hi cs

def LevelsAll : Nat → Nat → List FsNode → Prop
  | _, _, [] => True
  | lo, hi, c :: cs => Levels lo hi c ∧ LevelsAll lo hi cs

end

mutual

/-- A priority holds at most one namespace, a chains priority any number, and a level count that
is given covers its namespaces. -/
def Fits : FsNode → Prop
  | .ns cs => FitsAll cs
  | .prio .prioChains a cs => FitsAll cs ∧ SpanLe a.numLevels cs
  | .prio .prio _ [] => True
  | .prio .prio a (c :: cs) =>
    cs = [] ∧ Fits c ∧ (a.numLevels = 0 ∨ c.numLevelsOf ≤ a.numLevels)

def FitsAll : List FsNode → Prop
  | [] => True
  | c :: cs => Fits c ∧ FitsAll cs

def SpanLe (k : Nat) : List FsNode → Prop
  | [] => True
  | c :: cs => c.numLevelsOf ≤ k ∧ SpanLe k cs

end

end FsNode

/-! ## The static tree descriptions -/

/-- The capability bits the descriptions ask for. -/
inductive FlowTableCap where
  | rxFlowModifyEn
  | rxModifyRoot
  | rxIdentifiedMissTableMode
  | rxFlowTableModify
  | txFlowModifyEn
  | txModifyRoot
  | txIdentifiedMissTableMode
  | txFlowTableModify
  deriving DecidableEq, Repr

structure FlowTableCaps where
  maxFtLevel : Nat
  has : FlowTableCap → Bool

inductive InitTreeNode where
  | ns (children : List InitTreeNode)
  | prio (numLeafPrios minFtLevel numLevels : Nat) (caps : List FlowTableCap)
      (children : List InitTreeNode)

namespace InitTreeNode

def numLeafPrios : InitTreeNode → Nat
  | .ns _ => 0
  | .prio n _ _ _ _ => n

def createLeafPrios (prio numLeafPrios numLevels : Nat) : List FsNode :=
  (List.range' prio numLeafPrios).map fun i => .prio .prio ⟨i, numLevels, 0⟩ []

mutual

def initRootTreeRecursive (dev : FlowTableCaps) (prio : Nat) : InitTreeNode → List FsNode
  | .ns cs => [.ns (initChildren dev 0 cs)]
  | .prio numLeafPrios minFtLevel numLevels caps cs =>
    if minFtLevel > dev.maxFtLevel || !caps.all dev.has then []
    else if numLeafPrios ≠ 0 then createLeafPrios prio numLeafPrios numLevels
    else [.prio .prio ⟨prio, numLevels, 0⟩ (initChildren dev 0 cs)]

/-- The loop over the children; `prio` advances over a child's leaf priorities
also where the device lacks what the child asks for. -/
def initChildren (dev : FlowTableCaps) (prio : Nat) : List InitTreeNode → List FsNode
  | [] => []
  | c :: cs => initRootTreeRecursive dev prio c ++ initChildren dev (prio + c.numLeafPrios) cs

end

/-- `init_root_tree`: the priorities of the root are numbered by their place in the description. -/
def initRootTree (dev : FlowTableCaps) (children : List InitTreeNode) : FsNode :=
  .ns (children.zipIdx.flatMap fun c => initRootTreeRecursive dev c.2 c.1)

end InitTreeNode

def byPassNumPrios : Nat := 33
def leftoversNumPrios : Nat := 1
def ethtoolNumPrios : Nat := 11
def kernelNicPrioNumLevels : Nat := 6
def kernelMinLevel : Nat := kernelNicPrioNumLevels + 1
def ethtoolMinLevel : Nat := kernelMinLevel + ethtoolNumPrios
def byPassMinLevel : Nat := ethtoolMinLevel + byPassNumPrios + leftoversNumPrios
def anchorMinLevel : Nat := byPassMinLevel + 1
def offloadsMinLevel : Nat := anchorMinLevel + 1
def lagMinLevel : Nat := offloadsMinLevel + 1

def fsChainingCaps : List FlowTableCap :=
  [.rxFlowModifyEn, .rxModifyRoot, .rxIdentifiedMissTableMode, .rxFlowTableModify]

def fsChainingCapsEgress : List FlowTableCap :=
  [.txFlowModifyEn, .txModifyRoot, .txIdentifiedMissTableMode, .txFlowTableModify]

/-- The leaf priorities of a namespace (`ADD_MULTIPLE_PRIO`): their number and their level count. -/
def addMultiplePrios (leafPrios : List (Nat × Nat)) : List InitTreeNode :=
  leafPrios.map fun l => .prio l.1 0 l.2 [] []

/-- A top priority (`ADD_PRIO`) with one namespace of leaf priorities. -/
structure TopPrio where
  minFtLevel : Nat
  caps : List FlowTableCap
  leafPrios : List (Nat × Nat)

def TopPrio.node (t : TopPrio) : InitTreeNode :=
  .prio 0 t.minFtLevel 0 t.caps [.ns (addMultiplePrios t.leafPrios)]

/-- `root_fs`: by-pass, lag, offloads, ethtool, kernel (tc, then nic), leftovers, anchor. -/
def rootFs : List TopPrio :=
  [⟨byPassMinLevel, fsChainingCaps, [(byPassNumPrios, 1)]⟩,
    ⟨lagMinLevel, fsChainingCaps, [(1, 1)]⟩,
    ⟨offloadsMinLevel, [], [(1, 1)]⟩,
    ⟨ethtoolMinLevel, fsChainingCaps, [(ethtoolNumPrios, 1)]⟩,
    ⟨kernelMinLevel, [], [(1, 2), (1, kernelNicPrioNumLevels)]⟩,
    ⟨byPassMinLevel, fsChainingCaps, [(leftoversNumPrios, 1)]⟩,
    ⟨anchorMinLevel, [], [(1, 1)]⟩]

def egressRootFs : List TopPrio :=
  [⟨byPassNumPrios, fsChainingCapsEgress, [(byPassNumPrios, 1)]⟩]

/-- The root namespaces with a single priority (sniffer, RDMA RX, vport ACLs). -/
def singlePrioRoot : FsNode :=
  .ns [.prio .prio ⟨0, 1, 0⟩ []]

/-- `init_fdb_root_ns`: by-pass, fast path and slow path. -/
def fdbRoot (fdbMaxChain fdbMaxPrio : Nat) : FsNode :=
  .ns [.prio .prio ⟨0, 1, 0⟩ [],
    .prio .prioChains ⟨1, 2 * fdbMaxPrio * (fdbMaxChain + 1), 0⟩
      ((List.range (fdbMaxChain + 1)).map fun chain =>
        .ns (InitTreeNode.createLeafPrios 0 (fdbMaxPrio * (chain + 1)) 2)),
    .prio .prio ⟨2, 1, 0⟩ []]

namespace FsNode

/-! ## Level ranges -/

mutual

theorem setPrioAttrsIn_snd : ∀ (n : FsNode) (acc : Nat),
    (n.setPrioAttrsIn acc).2 = acc + n.numLevelsOf
  | .ns cs, acc => by
      simp only [numLevelsOf, setPrioAttrsIn, setPrioAttrsInPrios_snd cs acc]
  | .prio type a cs, acc => by
      have h := setPrioAttrsInNss_snd cs acc 0
      simp only [Nat.add_zero] at h
      simp only [numLevelsOf, setPrioAttrsIn, h, Nat.add_sub_cancel_left,
        Nat.zero_add, Nat.sub_zero]

theorem setPrioAttrsInPrios_snd : ∀ (cs : List FsNode) (acc : Nat),
    (setPrioAttrsInPrios cs acc).2 = acc + (setPrioAttrsInPrios cs 0).2
  | [], acc => by simp [setPrioAttrsInPrios]
  | c :: cs, acc => by
      simp only [setPrioAttrsInPrios]
      rw [setPrioAttrsInPrios_snd cs, setPrioAttrsInPrios_snd cs (c.setPrioAttrsIn 0).2,
        setPrioAttrsIn_snd c, setPrioAttrsIn_snd c]
      omega

theorem setPrioAttrsInNss_snd : ∀ (cs : List FsNode) (acc k : Nat),
    (setPrioAttrsInNss cs acc (acc + k)).2 = acc + (setPrioAttrsInNss cs 0 k).2
  | [], acc, k => by simp [setPrioAttrsInNss]
  | c :: cs, acc, k => by
      simp only [setPrioAttrsInNss]
      rw [setPrioAttrsIn_snd c, setPrioAttrsIn_snd c, Nat.zero_add,
        setPrioAttrsInNss_snd cs acc c.numLevelsOf]

end

mutual

theorem Levels.mono : ∀ {n : FsNode} {lo hi hi' : Nat}, Levels lo hi n → hi ≤ hi' → Levels lo hi' n
  | .ns cs, _, _, _, h, hle => LevelsSeq.mono (l := cs) h hle
  | .prio .prioChains _ cs, _, _, _, h, hle =>
    ⟨Nat.le_trans h.1 hle, LevelsAll.mono (l := cs) h.2 hle⟩
  | .prio .prio _ [], _, _, _, h, hle => ⟨h.1, Nat.le_trans h.2 hle⟩
  | .prio .prio _ (c :: cs), _, _, _, h, hle => LevelsSeq.mono (l := c :: cs) h hle

theorem LevelsSeq.mono : ∀ {l : List FsNode} {lo hi hi' : Nat},
    LevelsSeq lo hi l → hi ≤ hi' → LevelsSeq lo hi' l
  | [], _, _, _, h, hle => Nat.le_trans h hle
  | _ :: cs, _, _, _, ⟨mid, hc, hcs⟩, hle => ⟨mid, hc, LevelsSeq.mono (l := cs) hcs hle⟩

theorem LevelsAll.mono : ∀ {l : List FsNode} {lo hi hi' : Nat},
    LevelsAll lo hi l → hi ≤ hi' → LevelsAll lo hi' l
  | [], _, _, _, _, _ => trivial
  | c :: cs, _, _, _, h, hle =>
    ⟨Levels.mono (n := c) h.1 hle, LevelsAll.mono (l := cs) h.2 hle⟩

end

mutual

theorem levels_setPrioAttrsIn : ∀ {n : FsNode} (acc : Nat), n.Fits →
    Levels acc (acc + n.numLevelsOf) (n.setPrioAttrsIn acc).1
  | .ns cs, acc, h => by
      have := levelsSeq_setPrioAttrsInPrios (l := cs) acc h
      rw [← setPrioAttrsIn_snd]
      simpa only [setPrioAttrsIn, Levels] using this
  | .prio .prioChains a cs, acc, h => by
      rw [← setPrioAttrsIn_snd]
      simp only [setPrioAttrsIn, Levels]
      refine ⟨Nat.le_add_right _ _, ?_⟩
      have hall := levelsAll_setPrioAttrsInNss (l := cs) acc acc h.1 h.2
      split
      · next h0 => exact hall.mono (by omega)
      · exact hall
  | .prio .prio a [], acc, _ => by
      rw [← setPrioAttrsIn_snd]
      simp only [setPrioAttrsIn, setPrioAttrsInNss, Levels]
      exact ⟨Nat.le_refl _, Nat.le_refl _⟩
  | .prio .prio a (c :: cs), acc, h => by
      obtain ⟨rfl, hc, ha⟩ := h
      have hlev := levels_setPrioAttrsIn (n := c) acc hc
      rw [← setPrioAttrsIn_snd]
      simp only [setPrioAttrsIn, setPrioAttrsInNss, Levels, LevelsSeq]
      refine ⟨_, hlev, ?_⟩
      rw [setPrioAttrsIn_snd c, Nat.add_sub_cancel_left]
      split
      · exact Nat.le_refl _
      · next h0 => exact Nat.add_le_add_left (ha.resolve_left h0) acc

theorem levelsSeq_setPrioAttrsInPrios : ∀ {l : List FsNode} (acc : Nat), FitsAll l →
    LevelsSeq acc (setPrioAttrsInPrios l acc).2 (setPrioAttrsInPrios l acc).1
  | [], acc, _ => Nat.le_refl acc
  | c :: cs, acc, h => by
      simp only [setPrioAttrsInPrios, LevelsSeq]
      refine ⟨_, levels_setPrioAttrsIn (n := c) acc h.1, ?_⟩
      rw [setPrioAttrsIn_snd c]
      exact levelsSeq_setPrioAttrsInPrios (l := cs) _ h.2

theorem levelsAll_setPrioAttrsInNss : ∀ {l : List FsNode} {k : Nat} (acc accNs : Nat),
    FitsAll l → SpanLe k l → LevelsAll acc (acc + k) (setPrioAttrsInNss l acc accNs).1
  | [], _, _, _, _, _ => trivial
  | c :: cs, _, acc, _, h, hk => by
      simp only [setPrioAttrsInNss, LevelsAll]
      exact ⟨(levels_setPrioAttrsIn (n := c) acc h.1).mono (Nat.add_le_add_left hk.1 acc),
        levelsAll_setPrioAttrsInNss (l := cs) acc _ h.2 hk.2⟩

end

theorem levels_setPrioAttrs {root : FsNode} (h : root.Fits) :
    Levels 0 root.numLevelsOf root.setPrioAttrs := by
  have := levels_setPrioAttrsIn 0 h
  rwa [Nat.zero_add] at this

/-! ## The order of the level ranges -/

mutual

theorem Levels.le : ∀ {n : FsNode} {lo hi : Nat}, Levels lo hi n → lo ≤ hi
  | .ns cs, _, _, h => LevelsSeq.le (l := cs) h
  | .prio .prioChains _ _, _, _, h => h.1
  | .prio .prio _ [], _, _, h => Nat.le_trans h.1 (Nat.le_trans (Nat.le_add_right _ _) h.2)
  | .prio .prio _ (c :: cs), _, _, h => LevelsSeq.le (l := c :: cs) h

theorem LevelsSeq.le : ∀ {l : List FsNode} {lo hi : Nat}, LevelsSeq lo hi l → lo ≤ hi
  | [], _, _, h => h
  | c :: cs, _, _, ⟨_, hc, hcs⟩ =>
    Nat.le_trans (Levels.le (n := c) hc) (LevelsSeq.le (l := cs) hcs)

end

variable {cs : List FsNode} {c : FsNode}

theorem LevelsAll.of_getElem? {lo hi i : Nat} (h : LevelsAll lo hi cs) (hc : cs[i]? = some c) :
    Levels lo hi c := by
  induction cs generalizing i with
  | nil => simp at hc
  | cons d cs ih =>
    cases i with
    | zero =>
      simp only [List.getElem?_cons_zero, Option.some.injEq] at hc
      exact hc ▸ h.1
    | succ i => exact ih h.2 (by simpa using hc)

/-- A child of a sequence has its own range; those of the other children lie
below and above it. -/
theorem LevelsSeq.split {lo hi i : Nat} (h : LevelsSeq lo hi cs) (hc : cs[i]? = some c) :
    ∃ l r, LevelsSeq lo l (cs.take i) ∧ Levels l r c ∧ LevelsSeq r hi (cs.drop (i + 1)) := by
  induction cs generalizing i lo with
  | nil => simp at hc
  | cons d cs ih =>
    obtain ⟨mid, hd, hcs⟩ := h
    cases i with
    | zero =>
      simp only [List.getElem?_cons_zero, Option.some.injEq] at hc
      exact ⟨lo, mid, Nat.le_refl lo, hc ▸ hd, hcs⟩
    | succ i =>
      obtain ⟨l, r, hl, hm, hr⟩ := ih hcs (by simpa using hc)
      exact ⟨l, r, ⟨mid, hd, hl⟩, hm, hr⟩

variable {n : FsNode} {lo hi : Nat}

/-- A node with children is a sequence of ranges or a set of parallel ones. -/
theorem Levels.children (h : Levels lo hi n) (hn : n.children ≠ []) :
    LevelsSeq lo hi n.children ∨
      (LevelsAll lo hi n.children ∧ ∃ a cs, n = .prio .prioChains a cs) := by
  match n, h with
  | .ns cs, h => exact .inl h
  | .prio .prioChains a cs, h => exact .inr ⟨h.2, a, cs, rfl⟩
  | .prio .prio _ [], h => simp [FsNode.children] at hn
  | .prio .prio _ (c :: cs), h => exact .inl h

theorem Levels.child {lo hi i : Nat} (h : Levels lo hi n) (hc : n.children[i]? = some c) :
    ∃ l r, lo ≤ l ∧ r ≤ hi ∧ Levels l r c := by
  have hn : n.children ≠ [] := fun h0 => by simp [h0] at hc
  rcases h.children hn with h | ⟨h, -⟩
  · obtain ⟨l, r, hl, hm, hr⟩ := h.split hc
    exact ⟨l, r, hl.le, hr.le, hm⟩
  · exact ⟨lo, hi, Nat.le_refl _, Nat.le_refl _, h.of_getElem? hc⟩

variable {p : Path} {a : FsPrio}

theorem Levels.attrAt (h : Levels lo hi n) (ha : n.attrAt p = some a) :
    lo ≤ a.startLevel ∧ a.startLevel + a.numLevels ≤ hi := by
  induction p generalizing n lo hi with
  | nil =>
    obtain rfl := attrAt_nil.mp ha
    exact h
  | cons i p ih =>
    rw [attrAt_cons] at ha
    obtain ⟨c, hc, ha⟩ := Option.bind_eq_some_iff.mp ha
    obtain ⟨l, r, hl, hr, hlev⟩ := h.child hc
    have := ih hlev ha
    exact ⟨Nat.le_trans hl this.1, Nat.le_trans this.2 hr⟩

variable {pre q : Path}

/-- The leaf priorities below a sequence lie in its range. -/
theorem LevelsSeq.mem_leavesIn {k lo hi : Nat} (h : LevelsSeq lo hi cs)
    (hq : q ∈ leavesIn pre k cs) :
    ∃ j c p a, q = pre ++ j :: p ∧ k ≤ j ∧ cs[j - k]? = some c ∧ c.attrAt p = some a ∧
      lo ≤ a.startLevel ∧ a.startLevel + a.numLevels ≤ hi := by
  obtain ⟨j, c, p, a, rfl, hj, hc, ha⟩ := exists_of_mem_leavesIn hq
  obtain ⟨l, r, hl, hm, hr⟩ := h.split hc
  have hb := hm.attrAt ha
  exact ⟨j, c, p, a, rfl, hj, hc, ha, Nat.le_trans hl.le hb.1, Nat.le_trans hb.2 hr.le⟩

/-- Behind a leaf priority come only ranges above its own. -/
theorem Levels.after (h : Levels lo hi n) (ha : n.attrAt p = some a)
    (hq : q ∈ n.leavesAfter pre p) :
    ∃ q' b, q = pre ++ q' ∧ n.attrAt q' = some b ∧ a.startLevel + a.numLevels ≤ b.startLevel := by
  induction p generalizing n lo hi pre with
  | nil => simp [leavesAfter] at hq
  | cons i p ih =>
    rw [attrAt_cons] at ha
    obtain ⟨c, hc, ha⟩ := Option.bind_eq_some_iff.mp ha
    rw [leavesAfter, hc, List.mem_append] at hq
    rcases hq with hq | hq
    · obtain ⟨l, r, -, -, hlev⟩ := h.child hc
      obtain ⟨q', b, rfl, hb, hle⟩ := ih hlev ha hq
      exact ⟨i :: q', b, by simp, by rw [attrAt_cons, hc]; exact hb, hle⟩
    · have hn : n.children ≠ [] := fun h0 => by simp [h0] at hc
      rcases h.children hn with hs | ⟨-, b, cs, rfl⟩
      · obtain ⟨l, r, -, hm, hr⟩ := hs.split hc
        have hq' : q ∈ leavesIn pre (i + 1) (n.children.drop (i + 1)) := by
          unfold leavesAfterChild at hq
          split at hq
          · simp at hq
          · exact hq
        obtain ⟨j, d, p', b, rfl, hj, hd, hb, hlo, -⟩ := hr.mem_leavesIn hq'
        refine ⟨j :: p', b, rfl, ?_, Nat.le_trans (hm.attrAt ha).2 hlo⟩
        rw [List.getElem?_drop, show i + 1 + (j - (i + 1)) = j by omega] at hd
        rw [attrAt_cons, hd]
        exact hb
      · simp [leavesAfterChild] at hq

/-- In front of a leaf priority come only ranges below its own. -/
theorem Levels.before (h : Levels lo hi n) (ha : n.attrAt p = some a)
    (hq : q ∈ n.leavesBefore pre p) :
    ∃ q' b, q = pre ++ q' ∧ n.attrAt q' = some b ∧ b.startLevel + b.numLevels ≤ a.startLevel := by
  induction p generalizing n lo hi pre with
  | nil => simp [leavesBefore] at hq
  | cons i p ih =>
    rw [attrAt_cons] at ha
    obtain ⟨c, hc, ha⟩ := Option.bind_eq_some_iff.mp ha
    rw [leavesBefore, hc, List.mem_append, List.mem_reverse] at hq
    rcases hq with hq | hq
    · obtain ⟨l, r, -, -, hlev⟩ := h.child hc
      obtain ⟨q', b, rfl, hb, hle⟩ := ih hlev ha hq
      exact ⟨i :: q', b, by simp, by rw [attrAt_cons, hc]; exact hb, hle⟩
    · have hn : n.children ≠ [] := fun h0 => by simp [h0] at hc
      rcases h.children hn with hs | ⟨-, b, cs, rfl⟩
      · obtain ⟨l, r, hl, hm, -⟩ := hs.split hc
        have hq' : q ∈ leavesIn pre 0 (n.children.take i) := by
          unfold leavesBeforeChild at hq
          split at hq
          · simp at hq
          · exact hq
        obtain ⟨j, d, p', b, rfl, hj, hd, hb, -, hhi⟩ := hl.mem_leavesIn hq'
        refine ⟨j :: p', b, rfl, ?_, Nat.le_trans hhi (hm.attrAt ha).1⟩
        rw [Nat.sub_zero, List.getElem?_take] at hd
        split at hd
        · rw [attrAt_cons, hd]
          exact hb
        · simp at hd
      · simp [leavesBeforeChild] at hq

/-! ## The init code builds fitting trees -/

theorem fitsAll_append {cs ds : List FsNode} : FitsAll (cs ++ ds) ↔ FitsAll cs ∧ FitsAll ds := by
  induction cs with
  | nil => simp [FitsAll]
  | cons c cs ih => simp [FitsAll, ih, and_assoc]

theorem fitsAll_createLeafPrios (prio n numLevels : Nat) :
    FitsAll (InitTreeNode.createLeafPrios prio n numLevels) := by
  unfold InitTreeNode.createLeafPrios
  generalize List.range' prio n = is
  induction is with
  | nil => trivial
  | cons i is ih => exact ⟨by simp [Fits], ih⟩

theorem numLevelsOf_createLeafPrios (prio n numLevels : Nat) (h : numLevels ≠ 0) :
    (FsNode.ns (InitTreeNode.createLeafPrios prio n numLevels)).numLevelsOf = n * numLevels := by
  simp only [numLevelsOf, setPrioAttrsIn, InitTreeNode.createLeafPrios]
  induction n generalizing prio with
  | zero => simp [setPrioAttrsInPrios]
  | succ n ih =>
    simp only [List.range'_succ, List.map_cons, setPrioAttrsInPrios, setPrioAttrsIn, if_neg h]
    rw [setPrioAttrsInPrios_snd, ih]
    ring

theorem numLevelsOf_ns_append (cs ds : List FsNode) :
    (FsNode.ns (cs ++ ds)).numLevelsOf =
    (FsNode.ns cs).numLevelsOf + (FsNode.ns ds).numLevelsOf := by
  simp only [numLevelsOf, setPrioAttrsIn]
  induction cs with
  | nil => simp [setPrioAttrsInPrios]
  | cons c cs ih =>
    simp only [List.cons_append, setPrioAttrsInPrios]
    rw [setPrioAttrsInPrios_snd (cs ++ ds), setPrioAttrsInPrios_snd cs, ih]
    omega

mutual

theorem noChains_setPrioAttrsIn : ∀ {n : FsNode} (acc : Nat), n.NoChains →
    (n.setPrioAttrsIn acc).1.NoChains
  | .ns cs, acc, h => noChainsIn_setPrioAttrsInPrios (l := cs) acc h
  | .prio _ _ cs, acc, h => ⟨h.1, noChainsIn_setPrioAttrsInNss (l := cs) acc acc h.2⟩

theorem noChainsIn_setPrioAttrsInPrios : ∀ {l : List FsNode} (acc : Nat), NoChainsIn l →
    NoChainsIn (setPrioAttrsInPrios l acc).1
  | [], _, _ => trivial
  | c :: cs, acc, h =>
    ⟨noChains_setPrioAttrsIn (n := c) acc h.1, noChainsIn_setPrioAttrsInPrios (l := cs) _ h.2⟩

theorem noChainsIn_setPrioAttrsInNss : ∀ {l : List FsNode} (acc accNs : Nat), NoChainsIn l →
    NoChainsIn (setPrioAttrsInNss l acc accNs).1
  | [], _, _, _ => trivial
  | c :: cs, acc, _, h =>
    ⟨noChains_setPrioAttrsIn (n := c) acc h.1, noChainsIn_setPrioAttrsInNss (l := cs) acc _ h.2⟩

end

theorem noChainsIn_append {cs ds : List FsNode} :
    NoChainsIn (cs ++ ds) ↔ NoChainsIn cs ∧ NoChainsIn ds := by
  induction cs with
  | nil => simp [NoChainsIn]
  | cons c cs ih => simp [NoChainsIn, ih, and_assoc]

theorem noChainsIn_createLeafPrios (prio n numLevels : Nat) :
    NoChainsIn (InitTreeNode.createLeafPrios prio n numLevels) := by
  unfold InitTreeNode.createLeafPrios
  generalize List.range' prio n = is
  induction is with
  | nil => trivial
  | cons i is ih => exact ⟨⟨rfl, trivial⟩, ih⟩

end FsNode

open FsNode InitTreeNode

theorem initChildren_addMultiplePrios (dev : FlowTableCaps) (prio : Nat) (ls : List (Nat × Nat))
    (hpos : ∀ l ∈ ls, l.1 ≠ 0 ∧ l.2 ≠ 0) :
    FitsAll (initChildren dev prio (addMultiplePrios ls)) ∧
      NoChainsIn (initChildren dev prio (addMultiplePrios ls)) ∧
      (FsNode.ns (initChildren dev prio (addMultiplePrios ls))).numLevelsOf =
        (ls.map fun l => l.1 * l.2).sum := by
  induction ls generalizing prio with
  | nil => exact ⟨trivial, trivial, rfl⟩
  | cons l ls ih =>
    obtain ⟨hfit, hno, hnum⟩ := ih (prio + l.1) fun l hl => hpos l (by simp [hl])
    obtain ⟨h₁, h₂⟩ := hpos l (by simp)
    have hstep : initChildren dev prio (addMultiplePrios (l :: ls)) =
        createLeafPrios prio l.1 l.2 ++ initChildren dev (prio + l.1) (addMultiplePrios ls) := by
      simp [addMultiplePrios, initChildren, initRootTreeRecursive, h₁, InitTreeNode.numLeafPrios]
    rw [hstep, fitsAll_append, noChainsIn_append, numLevelsOf_ns_append, hnum,
      numLevelsOf_createLeafPrios _ _ _ h₂]
    exact ⟨⟨fitsAll_createLeafPrios _ _ _, hfit⟩, ⟨noChainsIn_createLeafPrios _ _ _, hno⟩, by simp⟩

/-- The levels of the leaf priorities of a description, all of them present. -/
def TopPrio.levels (t : TopPrio) : Nat :=
  (t.leafPrios.map fun l => l.1 * l.2).sum

/-- What a top priority adds to the root, whatever the device can do. -/
theorem TopPrio.init_spec (dev : FlowTableCaps) (prio : Nat) (t : TopPrio)
    (hpos : ∀ l ∈ t.leafPrios, l.1 ≠ 0 ∧ l.2 ≠ 0) :
    FitsAll (initRootTreeRecursive dev prio t.node) ∧
      NoChainsIn (initRootTreeRecursive dev prio t.node) ∧
      (FsNode.ns (initRootTreeRecursive dev prio t.node)).numLevelsOf ≤ t.levels := by
  obtain ⟨hfit, hno, hnum⟩ := initChildren_addMultiplePrios dev 0 t.leafPrios hpos
  have hns : initChildren dev 0 [.ns (addMultiplePrios t.leafPrios)] =
      [.ns (initChildren dev 0 (addMultiplePrios t.leafPrios))] := by
    simp [initChildren, initRootTreeRecursive]
  simp only [TopPrio.node, initRootTreeRecursive, hns]
  split
  · exact ⟨trivial, trivial, Nat.zero_le _⟩
  · refine ⟨⟨⟨rfl, hfit, .inl rfl⟩, trivial⟩, ⟨⟨rfl, hno, trivial⟩, trivial⟩, ?_⟩
    rw [TopPrio.levels, ← hnum]
    simp [numLevelsOf, setPrioAttrsIn, setPrioAttrsInPrios, setPrioAttrsInNss]

theorem initRootTree_spec (dev : FlowTableCaps) (ts : List TopPrio)
    (hpos : ∀ t ∈ ts, ∀ l ∈ t.leafPrios, l.1 ≠ 0 ∧ l.2 ≠ 0) :
    (initRootTree dev (ts.map TopPrio.node)).Fits ∧
      (initRootTree dev (ts.map TopPrio.node)).NoChains ∧
      (initRootTree dev (ts.map TopPrio.node)).numLevelsOf ≤ (ts.map TopPrio.levels).sum := by
  unfold initRootTree
  generalize 0 = k
  induction ts generalizing k with
  | nil => exact ⟨trivial, trivial, Nat.le_refl 0⟩
  | cons t ts ih =>
    obtain ⟨hfit, hno, hnum⟩ := ih (fun u hu => hpos u (by simp [hu])) (k + 1)
    obtain ⟨tfit, tno, tnum⟩ := t.init_spec dev k (hpos t (by simp))
    simp only [List.map_cons, List.zipIdx_cons, List.flatMap_cons, List.sum_cons]
    refine ⟨fitsAll_append.mpr ⟨tfit, hfit⟩, noChainsIn_append.mpr ⟨tno, hno⟩, ?_⟩
    rw [numLevelsOf_ns_append]
    exact Nat.add_le_add tnum hnum

def intMax : Nat := 2 ^ 31 - 1

/-- A steering tree after its init code: `set_prio_attrs` has laid out the
levels, and they are `int`s. -/
structure FsRoot where
  tree : FsNode
  levels : tree.Levels 0 intMax

theorem chainNss_spec (fdbMaxPrio k : Nat) (chains : List Nat) (hk : ∀ c ∈ chains, c < k) :
    FitsAll (chains.map fun chain => .ns (createLeafPrios 0 (fdbMaxPrio * (chain + 1)) 2)) ∧
      SpanLe (2 * fdbMaxPrio * k)
        (chains.map fun chain => .ns (createLeafPrios 0 (fdbMaxPrio * (chain + 1)) 2)) := by
  induction chains with
  | nil => exact ⟨trivial, trivial⟩
  | cons c cs ih =>
    obtain ⟨hfit, hspan⟩ := ih fun d hd => hk d (by simp [hd])
    refine ⟨⟨fitsAll_createLeafPrios _ _ _, hfit⟩, ?_, hspan⟩
    rw [numLevelsOf_createLeafPrios _ _ _ (by decide)]
    calc fdbMaxPrio * (c + 1) * 2 = 2 * fdbMaxPrio * (c + 1) := by ring
      _ ≤ 2 * fdbMaxPrio * k := Nat.mul_le_mul_left _ (hk c (by simp))

theorem fdbRoot_fits (fdbMaxChain fdbMaxPrio : Nat) : (fdbRoot fdbMaxChain fdbMaxPrio).Fits := by
  have := chainNss_spec fdbMaxPrio (fdbMaxChain + 1) (List.range (fdbMaxChain + 1)) (by simp)
  exact ⟨trivial, this, trivial, trivial⟩

theorem fdbRoot_numLevelsOf (fdbMaxChain fdbMaxPrio : Nat) (h : fdbMaxPrio ≠ 0) :
    (fdbRoot fdbMaxChain fdbMaxPrio).numLevelsOf = 2 * fdbMaxPrio * (fdbMaxChain + 1) + 2 := by
  have h0 : 2 * fdbMaxPrio * (fdbMaxChain + 1) ≠ 0 := by simp [h]
  simp only [fdbRoot, numLevelsOf, setPrioAttrsIn, setPrioAttrsInPrios, if_neg h0]
  simp only [one_ne_zero, if_false]
  omega

namespace FsRoot

def ofFits (root : FsNode) (hfit : root.Fits) (hnum : root.numLevelsOf ≤ intMax) : FsRoot where
  tree := root.setPrioAttrs
  levels := (levels_setPrioAttrs hfit).mono hnum

/-- `init_root_ns`, the NIC RX tree (without its anchor table). -/
def nicRx (dev : FlowTableCaps) : FsRoot :=
  ofFits (initRootTree dev (rootFs.map TopPrio.node))
    (initRootTree_spec dev rootFs (by decide)).1
    (Nat.le_trans (initRootTree_spec dev rootFs (by decide)).2.2 (by decide))

/-- `init_egress_root_ns`, the NIC TX tree. -/
def egress (dev : FlowTableCaps) : FsRoot :=
  ofFits (initRootTree dev (egressRootFs.map TopPrio.node))
    (initRootTree_spec dev egressRootFs (by decide)).1
    (Nat.le_trans (initRootTree_spec dev egressRootFs (by decide)).2.2 (by decide))

/-- The tree of a root namespace with a single priority. -/
def singlePrio : FsRoot :=
  ofFits singlePrioRoot (by simp [singlePrioRoot, Fits, FitsAll]) (by decide)

/-- `init_fdb_root_ns`, the one tree with a chains priority. -/
def fdb (fdbMaxChain fdbMaxPrio : Nat) (hpos : fdbMaxPrio ≠ 0)
    (hnum : 2 * fdbMaxPrio * (fdbMaxChain + 1) + 2 ≤ intMax) : FsRoot :=
  ofFits (fdbRoot fdbMaxChain fdbMaxPrio) (fdbRoot_fits _ _)
    (by rw [fdbRoot_numLevelsOf _ _ hpos]; exact hnum)

theorem nicRx_noChains (dev : FlowTableCaps) : (nicRx dev).tree.NoChains :=
  noChains_setPrioAttrsIn 0 (initRootTree_spec dev rootFs (by decide)).2.1

end FsRoot

end Mlx5
