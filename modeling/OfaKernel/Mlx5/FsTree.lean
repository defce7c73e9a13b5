-- SUMMARY: The mlx5 steering tree: namespaces and priorities.
import OfaKernel.Lib.Slots

/-!
# The steering tree

Namespaces hold priorities and priorities hold namespaces or flow tables (`fs_core.c`). The tree
is fixed after the init code. A priority is named by its path from the root; the tables of each
leaf priority are kept apart from the tree.
-/

open List

namespace Mlx5

/-- Which kind of priority a node is. -/
inductive FsPrioType where
  | prio
  | prioChains
  deriving DecidableEq, Repr

/-- The fields of `struct fs_prio`. -/
structure FsPrio where
  prio : Nat
  numLevels : Nat
  startLevel : Nat
  deriving DecidableEq, Repr

/-- A namespace holds priorities, a priority namespaces. A priority without
namespaces is a leaf: its children are flow tables. -/
inductive FsNode where
  | ns (children : List FsNode)
  | prio (type : FsPrioType) (attr : FsPrio) (children : List FsNode)

abbrev Path := List Nat

/-- A flow table pointer. -/
abbrev FtId := Nat

/-- The children lists of the leaf priorities. -/
abbrev FtLists := Path → List FtId

namespace FsNode

def children : FsNode → List FsNode
  | .ns cs => cs
  | .prio _ _ cs => cs

/-- The node under a path. -/
def nodeAt : FsNode → Path → Option FsNode
  | n, [] => some n
  | n, i :: p => n.children[i]?.bind (nodeAt · p)

/-- The attributes of a leaf priority. -/
def leafAttr? : FsNode → Option FsPrio
  | .prio .prio a [] => some a
  | _ => none

/-! ## Searching the closest flow table -/

mutual

/-- `find_closest_ft_recursive` from the head of the node's own children. -/
def findClosestFtRecursive (tables : FtLists) (reverse : Bool) (pre : Path) : FsNode → Option FtId
  | .ns cs => findClosestFtIn tables reverse pre 0 cs
  | .prio .prioChains _ _ => none
  | .prio .prio _ [] => if reverse then (tables pre).getLast? else (tables pre).head?
  | .prio .prio _ (c :: cs) => findClosestFtIn tables reverse pre 0 (c :: cs)

/-- The loop over the children, the first of which has index `i`. -/
def findClosestFtIn (tables : FtLists) (reverse : Bool) (pre : Path) (i : Nat) :
    List FsNode → Option FtId
  | [] => none
  | c :: cs =>
    let here := findClosestFtRecursive tables reverse (pre ++ [i]) c
    let rest := findClosestFtIn tables reverse pre (i + 1) cs
    if reverse then rest.or here else here.or rest

end

def findClosestFtFrom (tables : FtLists) (reverse : Bool) (pre : Path) (i : Nat) :
    FsNode → Option FtId
  | .prio .prioChains _ _ => none
  | n =>
    if reverse then findClosestFtIn tables true pre 0 (n.children.take i)
    else findClosestFtIn tables false pre (i + 1) (n.children.drop (i + 1))

/-- `find_closest_ft`: the parents of the priority are searched from the
innermost one outwards. -/
def findClosestFt (tables : FtLists) (reverse : Bool) : Path → FsNode → Path → Option FtId
  | _, _, [] => none
  | pre, n, i :: p =>
    (n.children[i]?.bind fun c => findClosestFt tables reverse (pre ++ [i]) c p).or
      (n.findClosestFtFrom tables reverse pre i)

end FsNode

/-- The first flow table of the next priority. -/
def findNextChainedFt (root : FsNode) (tables : FtLists) (prio : Path) : Option FtId :=
  root.findClosestFt tables false [] prio

/-- The last flow table of the previous priority. -/
def findPrevChainedFt (root : FsNode) (tables : FtLists) (prio : Path) : Option FtId :=
  root.findClosestFt tables true [] prio

namespace FsNode

/-! ## Depth-first order -/

mutual

/-- The leaf priorities a search below the node passes, in depth-first order. -/
def leaves (pre : Path) : FsNode → List Path
  | .ns cs => leavesIn pre 0 cs
  | .prio .prioChains _ _ => []
  | .prio .prio _ [] => [pre]
  | .prio .prio _ (c :: cs) => leavesIn pre 0 (c :: cs)

def leavesIn (pre : Path) (i : Nat) : List FsNode → List Path
  | [] => []
  | c :: cs => leaves (pre ++ [i]) c ++ leavesIn pre (i + 1) cs

end

/-- The leaf priorities below the children behind child `i`. -/
def leavesAfterChild (pre : Path) (i : Nat) : FsNode → List Path
  | .prio .prioChains _ _ => []
  | n => leavesIn pre (i + 1) (n.children.drop (i + 1))

/-- The leaf priorities below the children in front of child `i`. -/
def leavesBeforeChild (pre : Path) (i : Nat) : FsNode → List Path
  | .prio .prioChains _ _ => []
  | n => leavesIn pre 0 (n.children.take i)

/-- The leaf priorities behind a priority, nearest first. -/
def leavesAfter : Path → FsNode → Path → List Path
  | _, _, [] => []
  | pre, n, i :: p =>
    (n.children[i]?.map fun c => leavesAfter (pre ++ [i]) c p).getD [] ++ n.leavesAfterChild pre i

/-- The leaf priorities in front of a priority, nearest first. -/
def leavesBefore : Path → FsNode → Path → List Path
  | _, _, [] => []
  | pre, n, i :: p =>
    (n.children[i]?.map fun c => leavesBefore (pre ++ [i]) c p).getD [] ++
      (n.leavesBeforeChild pre i).reverse

mutual

/-- No priority below the node is of type `FS_TYPE_PRIO_CHAINS`. -/
def NoChains : FsNode → Prop
  | .ns cs => NoChainsIn cs
  | .prio type _ cs => type = .prio ∧ NoChainsIn cs

def NoChainsIn : List FsNode → Prop
  | [] => True
  | c :: cs => NoChains c ∧ NoChainsIn cs

end

/-! ## The search follows the depth-first order -/

/-- The closest flow table of the leaf priorities `ps`, which stand in depth-first order. -/
def closest (tables : FtLists) (reverse : Bool) (ps : List Path) : Option FtId :=
  if reverse then Slots.last tables ps.reverse else Slots.first tables ps

theorem closest_append (tables : FtLists) (reverse : Bool) (ps qs : List Path) :
    closest tables reverse (ps ++ qs) =
      if reverse then (closest tables reverse qs).or (closest tables reverse ps)
      else (closest tables reverse ps).or (closest tables reverse qs) := by
  cases reverse <;> simp [closest, Slots.last, Slots.first_append]

mutual

theorem findClosestFtRecursive_eq (tables : FtLists) (reverse : Bool) (pre : Path) :
    ∀ n, findClosestFtRecursive tables reverse pre n = closest tables reverse (leaves pre n)
  | .ns cs => by
      simp only [findClosestFtRecursive, leaves, findClosestFtIn_eq tables reverse pre 0 cs]
  | .prio .prioChains _ _ => by
      cases reverse <;> simp [findClosestFtRecursive, leaves, closest, Slots.last]
  | .prio .prio _ [] => by
      cases reverse <;> simp [findClosestFtRecursive, leaves, closest, Slots.last]
  | .prio .prio _ (c :: cs) => by
      simp only [findClosestFtRecursive, leaves, findClosestFtIn_eq tables reverse pre 0 (c :: cs)]

theorem findClosestFtIn_eq (tables : FtLists) (reverse : Bool) (pre : Path) (i : Nat) :
    ∀ cs, findClosestFtIn tables reverse pre i cs = closest tables reverse (leavesIn pre i cs)
  | [] => by cases reverse <;> simp [findClosestFtIn, leavesIn, closest, Slots.last]
  | c :: cs => by
      simp only [findClosestFtIn, leavesIn, closest_append,
        findClosestFtRecursive_eq tables reverse (pre ++ [i]) c,
        findClosestFtIn_eq tables reverse pre (i + 1) cs]

end

theorem findClosestFtFrom_forward (tables : FtLists) (pre : Path) (i : Nat) (n : FsNode) :
    n.findClosestFtFrom tables false pre i = Slots.first tables (n.leavesAfterChild pre i) := by
  unfold findClosestFtFrom leavesAfterChild
  split
  · rfl
  · simp [findClosestFtIn_eq, closest]

theorem findClosestFtFrom_reverse (tables : FtLists) (pre : Path) (i : Nat) (n : FsNode) :
    n.findClosestFtFrom tables true pre i =
      Slots.last tables (n.leavesBeforeChild pre i).reverse := by
  unfold findClosestFtFrom leavesBeforeChild
  split
  · rfl
  · simp [findClosestFtIn_eq, closest]

theorem findClosestFt_forward (tables : FtLists) (pre : Path) (n : FsNode) (p : Path) :
    n.findClosestFt tables false pre p = Slots.first tables (n.leavesAfter pre p) := by
  induction p generalizing pre n with
  | nil => rfl
  | cons i p ih =>
    rw [findClosestFt, leavesAfter, Slots.first_append, findClosestFtFrom_forward]
    cases n.children[i]? with
    | none => rfl
    | some c => simp [ih]

theorem findClosestFt_reverse (tables : FtLists) (pre : Path) (n : FsNode) (p : Path) :
    n.findClosestFt tables true pre p = Slots.last tables (n.leavesBefore pre p) := by
  induction p generalizing pre n with
  | nil => rfl
  | cons i p ih =>
    rw [findClosestFt, leavesBefore, findClosestFtFrom_reverse]
    cases n.children[i]? with
    | none => rfl
    | some c => simp [Slots.last, ih]

/-! ## Leaf priorities and their paths -/

/-- The attributes of the leaf priority under a path. -/
def attrAt (n : FsNode) (p : Path) : Option FsPrio :=
  (n.nodeAt p).bind leafAttr?

@[simp] theorem attrAt_cons (n : FsNode) (i : Nat) (p : Path) :
    n.attrAt (i :: p) = n.children[i]?.bind (attrAt · p) := by
  simp only [attrAt, nodeAt, Option.bind_assoc]

theorem leafAttr?_eq_some {n : FsNode} {a : FsPrio} :
    n.leafAttr? = some a ↔ n = .prio .prio a [] := by
  unfold leafAttr?
  split <;> simp_all

theorem attrAt_nil {n : FsNode} {a : FsPrio} : n.attrAt [] = some a ↔ n = .prio .prio a [] := by
  simp [attrAt, nodeAt, leafAttr?_eq_some]

theorem leavesIn_append (pre : Path) (i : Nat) (cs ds : List FsNode) :
    leavesIn pre i (cs ++ ds) = leavesIn pre i cs ++ leavesIn pre (i + cs.length) ds := by
  induction cs generalizing i with
  | nil => simp [leavesIn]
  | cons c cs ih =>
    simp only [cons_append, leavesIn, ih, append_assoc, length_cons]
    rw [Nat.add_assoc, Nat.add_comm 1]

/-- The leaf priorities of a child list, split around one child. -/
theorem leavesIn_split {pre : Path} {i : Nat} {cs : List FsNode} {c : FsNode}
    (h : cs[i]? = some c) :
    leavesIn pre 0 cs = leavesIn pre 0 (cs.take i) ++
      (leaves (pre ++ [i]) c ++ leavesIn pre (i + 1) (cs.drop (i + 1))) := by
  obtain ⟨hi, rfl⟩ := List.getElem?_eq_some_iff.mp h
  conv_lhs => rw [← take_append_drop i cs, drop_eq_getElem_cons hi]
  rw [leavesIn_append, leavesIn, length_take, Nat.zero_add, Nat.min_eq_left hi.le]

mutual

theorem exists_of_mem_leaves {pre : Path} : ∀ {n : FsNode} {q : Path}, q ∈ leaves pre n →
    ∃ p a, q = pre ++ p ∧ n.attrAt p = some a
  | .ns cs, q, h => by
      obtain ⟨j, c, p, a, rfl, -, hc, ha⟩ := exists_of_mem_leavesIn (n := cs) h
      exact ⟨j :: p, a, rfl, by rw [attrAt_cons, children, show cs[j]? = some c from hc]; exact ha⟩
  | .prio .prioChains _ _, q, h => by simp [leaves] at h
  | .prio .prio a [], q, h => by
      simp only [leaves, mem_singleton] at h
      exact ⟨[], a, by simp [h], attrAt_nil.mpr rfl⟩
  | .prio .prio _ (c :: cs), q, h => by
      obtain ⟨j, c', p, a, rfl, -, hc, ha⟩ := exists_of_mem_leavesIn (n := c :: cs) h
      refine ⟨j :: p, a, rfl, ?_⟩
      rw [attrAt_cons, children, show (c :: cs)[j]? = some c' from hc]
      exact ha

theorem exists_of_mem_leavesIn {pre : Path} : ∀ {n : List FsNode} {i : Nat} {q : Path},
    q ∈ leavesIn pre i n →
    ∃ j c p a, q = pre ++ j :: p ∧ i ≤ j ∧ n[j - i]? = some c ∧ c.attrAt p = some a
  | [], i, q, h => by simp [leavesIn] at h
  | c :: cs, i, q, h => by
      simp only [leavesIn, mem_append] at h
      rcases h with h | h
      · obtain ⟨p, a, rfl, ha⟩ := exists_of_mem_leaves (n := c) h
        exact ⟨i, c, p, a, by simp, Nat.le_refl i, by simp, ha⟩
      · obtain ⟨j, c', p, a, rfl, hj, hc, ha⟩ := exists_of_mem_leavesIn (n := cs) h
        refine ⟨j, c', p, a, rfl, by omega, ?_, ha⟩
        rw [show j - i = (j - (i + 1)) + 1 by omega, List.getElem?_cons_succ]
        exact hc

end

mutual

theorem nodup_leaves (pre : Path) : ∀ n : FsNode, (leaves pre n).Nodup
  | .ns cs => nodup_leavesIn pre 0 cs
  | .prio .prioChains _ _ => by simp [leaves]
  | .prio .prio _ [] => by simp [leaves]
  | .prio .prio _ (c :: cs) => nodup_leavesIn pre 0 (c :: cs)

theorem nodup_leavesIn (pre : Path) (i : Nat) : ∀ cs : List FsNode, (leavesIn pre i cs).Nodup
  | [] => by simp [leavesIn]
  | c :: cs => by
      refine nodup_append.mpr
        ⟨nodup_leaves (pre ++ [i]) c, nodup_leavesIn pre (i + 1) cs, ?_⟩
      -- below different children the paths differ in the child's index
      rintro q hq r hr rfl
      obtain ⟨p, -, rfl, -⟩ := exists_of_mem_leaves hq
      obtain ⟨j, -, p', -, he, hj, -, -⟩ := exists_of_mem_leavesIn hr
      simp only [append_assoc, cons_append, nil_append, append_cancel_left_eq,
        List.cons.injEq] at he
      omega

end

theorem NoChainsIn.of_getElem? {cs : List FsNode} (h : NoChainsIn cs) {i : Nat} {c : FsNode}
    (hc : cs[i]? = some c) : c.NoChains := by
  induction cs generalizing i with
  | nil => simp at hc
  | cons d cs ih =>
    cases i with
    | zero =>
      simp only [List.getElem?_cons_zero, Option.some.injEq] at hc
      exact hc ▸ h.1
    | succ i => exact ih h.2 (by simpa using hc)

theorem NoChains.children {n : FsNode} (h : n.NoChains) : NoChainsIn n.children := by
  cases n with
  | ns cs => exact h
  | prio type a cs => exact h.2

/-- In a tree without chains priorities the two search directions from a leaf
priority pass all the others. -/
theorem leaves_eq_around (pre : Path) {n : FsNode} {p : Path} {a : FsPrio} (hn : n.NoChains)
    (h : n.attrAt p = some a) :
    n.leaves pre = (n.leavesBefore pre p).reverse ++ (pre ++ p) :: n.leavesAfter pre p := by
  induction p generalizing pre n with
  | nil =>
    obtain rfl := attrAt_nil.mp h
    simp [leaves, leavesBefore, leavesAfter]
  | cons i p ih =>
    rw [attrAt_cons] at h
    obtain ⟨c, hc, ha⟩ := Option.bind_eq_some_iff.mp h
    have hcs : n.leaves pre = leavesIn pre 0 n.children ∧
        n.leavesAfterChild pre i = leavesIn pre (i + 1) (n.children.drop (i + 1)) ∧
        n.leavesBeforeChild pre i = leavesIn pre 0 (n.children.take i) := by
      cases n with
      | ns cs => exact ⟨rfl, rfl, rfl⟩
      | prio type b cs =>
        obtain rfl := hn.1
        cases cs with
        | nil => simp [FsNode.children] at hc
        | cons d cs => exact ⟨rfl, rfl, rfl⟩
    have hsub := ih (pre ++ [i]) (hn.children.of_getElem? hc) ha
    rw [hcs.1, leavesIn_split hc, hsub, leavesBefore, leavesAfter, hc, hcs.2.1, hcs.2.2]
    simp

section Order

variable {root : FsNode} {tables : FtLists} {p : Path} {a : FsPrio}

theorem mem_leaves (hn : root.NoChains) (ha : root.attrAt p = some a) : p ∈ root.leaves [] := by
  rw [leaves_eq_around [] hn ha]
  simp

/-- The two searches, in the depth-first order of the leaf priorities. -/
theorem around_eq (hn : root.NoChains) (ha : root.attrAt p = some a) :
    Slots.after (root.leaves []) p = root.leavesAfter [] p ∧
      Slots.before (root.leaves []) p = root.leavesBefore [] p := by
  have heq := leaves_eq_around [] hn ha
  rw [nil_append] at heq
  have hnd := nodup_leaves [] root
  rw [heq] at hnd
  have hp := (Slots.notMem_of_nodup hnd).1
  rw [heq, Slots.after_append hp, Slots.before_append hp, reverse_reverse]
  exact ⟨rfl, rfl⟩

theorem findNextChainedFt_eq (hn : root.NoChains) (ha : root.attrAt p = some a) :
    findNextChainedFt root tables p = Slots.first tables (Slots.after (root.leaves []) p) := by
  rw [findNextChainedFt, findClosestFt_forward, (around_eq hn ha).1]

theorem findPrevChainedFt_eq (hn : root.NoChains) (ha : root.attrAt p = some a) :
    findPrevChainedFt root tables p = Slots.last tables (Slots.before (root.leaves []) p) := by
  rw [findPrevChainedFt, findClosestFt_reverse, (around_eq hn ha).2]

end Order

end FsNode

end Mlx5
