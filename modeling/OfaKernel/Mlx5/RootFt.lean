-- SUMMARY: The mlx5 root flow table is the first table of the tree in every run.
import OfaKernel.Mlx5.FlowTables

/-!
# The root flow table

Both updates of the root flow table agree on the first entry of the first non-empty leaf
priority.
-/

namespace Mlx5

open FsNode hiding ns prio

namespace FtState

variable {root : FsNode} {s : FtState} {p q : Path} {a : FsPrio}

/-- The root flow table is the first table of the tree, and the device was told so. -/
structure RootFirst (root : FsNode) (s : FtState) : Prop where
  first : s.rootFt.ft = Slots.first s.tables (root.leaves [])
  told : ∀ x, s.rootFt.ft = some x → s.rootFt.fw = some x

/-- The root flow table is missing only if no table is live, and else a live
table of minimal level: the one of the last `update_root_ft` command. -/
def RootTracked (s : FtState) : Prop :=
  (s.rootFt.ft = none ↔ ∀ x, ¬s.Live x) ∧
    ∀ x, s.rootFt.ft = some x →
      s.Live x ∧ (∀ y, s.Live y → s.level x ≤ s.level y) ∧ s.rootFt.fw = some x

/-- The first table of the tree has the lowest level. -/
theorem Inv.first_le (h : Inv root s) {hi : Nat} (hlev : root.Levels 0 hi) (hn : root.NoChains)
    {x y : FtId} (hx : Slots.first s.tables (root.leaves []) = some x) (hy : s.Live y) :
    s.Live x ∧ s.level x ≤ s.level y := by
  obtain ⟨l, q, r, heq, hl, hhead⟩ := Slots.first_eq_some hx
  have hxq : x ∈ s.tables q := List.mem_of_head? hhead
  refine ⟨h.live hxq, ?_⟩
  obtain ⟨a, ha, -, hxlt⟩ := h.level q x hxq
  obtain ⟨b, hb, -⟩ := h.level _ y hy
  have hyo : s.parent y ∈ root.leaves [] := mem_leaves hn hb
  have hafter : Slots.after (root.leaves []) q = r := by
    have hnd := nodup_leaves [] root
    rw [heq] at hnd ⊢
    exact Slots.after_append (Slots.notMem_of_nodup hnd).1
  rw [heq, List.mem_append, List.mem_cons] at hyo
  rcases hyo with hyl | hyq | hyr
  · rw [Live, hl _ hyl] at hy
    simp at hy
  · rw [Live, hyq] at hy
    exact h.head_le hhead hy
  · have := h.level_lt hlev hn ha (hafter ▸ hyr) hy
    omega

theorem Inv.rootTracked (h : Inv root s) {hi : Nat} (hlev : root.Levels 0 hi) (hn : root.NoChains)
    (hf : RootFirst root s) : RootTracked s := by
  refine ⟨⟨fun hnone x hx => ?_, fun hnone => ?_⟩, fun x hx => ?_⟩
  · obtain ⟨a, ha, -⟩ := h.level _ x hx
    rw [hf.first, Slots.first_eq_none] at hnone
    rw [Live, hnone _ (mem_leaves hn ha)] at hx
    simp at hx
  · rw [hf.first, Slots.first_eq_none]
    refine fun q hq => List.eq_nil_iff_forall_not_mem.mpr fun x hx => hnone x (h.live hx)
  · have hx' := hx
    rw [hf.first] at hx'
    obtain ⟨q, hq, hxq⟩ := Slots.first_mem hx'
    exact ⟨h.live hxq, fun y hy => (h.first_le hlev hn hx' hy).2, hf.told x hx⟩

/-! ## Creation and destruction -/

theorem first_update {l r : List Path} (hp : p ∉ l ∧ p ∉ r) (tables : FtLists) (ts : List FtId) :
    Slots.first (Function.update tables p ts) (l ++ p :: r) =
      (Slots.first tables l).or (ts.head?.or (Slots.first tables r)) := by
  have hupd : ∀ js : List Path, p ∉ js →
      Slots.first (Function.update tables p ts) js = Slots.first tables js :=
    fun js hjs => Slots.first_congr fun k hk => by
      rw [Function.update_of_ne fun h : k = p => hjs (h ▸ hk)]
  rw [Slots.first_append, Slots.first_cons, Function.update_self, hupd l hp.1, hupd r hp.2]

theorem RootFirst.create (hf : RootFirst root s) (h : Inv root s) (hlev : root.Levels 0 intMax)
    (hn : root.NoChains) (ha : root.attrAt p = some a) {lvl : Nat} (hlo : a.startLevel ≤ lvl)
    (hhi : lvl < a.startLevel + a.numLevels) :
    RootFirst root (createInPrio root true s p lvl) := by
  obtain ⟨l, r, heq, hpl, hpr, hafter, hbefore⟩ :=
    Slots.exists_split (nodup_leaves [] root) (mem_leaves hn ha)
  have hroot : (createInPrio root true s p lvl).rootFt = if lvl ≥
      s.rootFt.ft.elim intMax (Function.update s.level s.nextFt lvl) then s.rootFt else
        ⟨some s.nextFt, some s.nextFt⟩ := by
    have hself : Function.update s.level s.nextFt lvl s.nextFt = lvl := Function.update_self ..
    refine congrArg₂ (fun n m => if n ≥ m then s.rootFt else
      ⟨some s.nextFt, some s.nextFt⟩) hself ?_
    change _ = (allocFlowTable root s p lvl).rootFt.ft.elim intMax
      (allocFlowTable root s p lvl).level
    cases (allocFlowTable root s p lvl).rootFt.ft <;> rfl
  have hlevel : ∀ q x, x ∈ s.tables q → Function.update s.level s.nextFt lvl x = s.level x :=
    fun q x hx => Function.update_of_ne (fun he : x = s.nextFt => h.nextFt_notMem q (he ▸ hx)) _ _
  have hold := hf.first
  rw [heq, Slots.first_append, Slots.first_cons] at hold
  have hnew : Slots.first (createInPrio root true s p lvl).tables (root.leaves []) =
      (Slots.first s.tables l).or
        ((listAddFlowTable (Function.update s.level s.nextFt lvl) s.nextFt (s.tables p)).head?.or
          (Slots.first s.tables r)) := by
    rw [heq, createInPrio_tables, first_update ⟨hpl, hpr⟩]
  -- the root flow table stays or is the new table, and the search agrees
  suffices hcase : ((createInPrio root true s p lvl).rootFt = s.rootFt ∧
      Slots.first (createInPrio root true s p lvl).tables (root.leaves []) = s.rootFt.ft) ∨
      ((createInPrio root true s p lvl).rootFt = ⟨some s.nextFt, some s.nextFt⟩ ∧
        Slots.first (createInPrio root true s p lvl).tables (root.leaves []) = some s.nextFt) by
    rcases hcase with ⟨he, hs⟩ | ⟨he, hs⟩
    · exact ⟨by rw [he, hs], by rw [he]; exact hf.told⟩
    · exact ⟨by rw [he, hs], by rw [he]; exact fun x hx => hx⟩
  rw [hroot, hnew]
  cases hfl : Slots.first s.tables l with
  | some x =>
    -- a table in front of the priority
    obtain ⟨q, hq, hx⟩ := Slots.first_mem hfl
    have hlt := h.level_lt_before hlev hn ha (by rw [hbefore]; simpa using hq) hx
    rw [hfl, Option.some_or] at hold
    rw [hold]
    simp only [Option.elim_some, hlevel q x hx]
    rw [if_pos (by omega)]
    exact .inl ⟨rfl, rfl⟩
  | none =>
    rw [hfl, Option.none_or] at hold
    rw [Option.none_or, head?_listAddFlowTable, Function.update_self]
    cases hp : s.tables p with
    | cons y ys =>
      rw [hp] at hold
      rw [hold]
      simp only [List.head?_cons, Option.some_or, Option.elim_some, Option.mem_def,
        Option.some.injEq,
        exists_eq_left', hlevel p y (by simp [hp])]
      by_cases hle : s.level y ≤ lvl
      · rw [if_pos hle, if_pos hle]
        exact .inl ⟨rfl, rfl⟩
      · rw [if_neg hle, if_neg hle]
        exact .inr ⟨rfl, rfl⟩
    | nil =>
      rw [hp, List.head?_nil, Option.none_or] at hold
      rw [hold]
      simp only [List.head?_nil, Option.mem_def, reduceCtorEq, false_and, exists_false, if_false,
        Option.some_or]
      have hbound := (hlev.attrAt ha).2
      cases hfr : Slots.first s.tables r with
      | none => exact .inr ⟨if_neg (by simp only [Option.elim_none]; omega), trivial⟩
      | some x =>
        obtain ⟨q, hq, hx⟩ := Slots.first_mem hfr
        have := h.level_lt hlev hn ha (by rw [hafter]; exact hq) hx
        exact .inr ⟨if_neg (by simp only [Option.elim_some, hlevel q x hx]; omega), trivial⟩

theorem RootFirst.destroy (hf : RootFirst root s) (h : Inv root s) (hn : root.NoChains) {ft : FtId}
    (hft : s.Live ft) : RootFirst root (destroyFlowTable root s ft) := by
  obtain ⟨a, ha, -⟩ := h.level _ ft hft
  obtain ⟨l, r, heq, hpl, hpr, hafter, -⟩ :=
    Slots.exists_split (nodup_leaves [] root) (mem_leaves hn ha)
  have hold := hf.first
  rw [heq, Slots.first_append, Slots.first_cons] at hold
  have hnew : Slots.first (destroyFlowTable root s ft).tables (root.leaves []) =
      (Slots.first s.tables l).or
        (((s.tables (s.parent ft)).erase ft).head?.or (Slots.first s.tables r)) := by
    rw [heq, destroyFlowTable_tables, first_update ⟨hpl, hpr⟩]
  have hroot : (destroyFlowTable root s ft).rootFt = updateRootFtDestroy root s ft := rfl
  cases hp : s.tables (s.parent ft) with
  | nil => rw [Live, hp] at hft; simp at hft
  | cons y ys =>
    rw [hp, List.head?_cons, Option.some_or] at hold
    rw [hp] at hnew
    by_cases hr : s.rootFt.ft = some ft
    · -- the root flow table leaves: it is the front of its list, and nothing is in front of it
      have hfl : Slots.first s.tables l = none := by
        cases hfl : Slots.first s.tables l with
        | none => rfl
        | some x =>
          rw [hfl, Option.some_or, hr] at hold
          obtain rfl := Option.some.inj hold
          obtain ⟨q, hq, hx⟩ := Slots.first_mem hfl
          rw [← h.parent q ft hx] at hq
          exact absurd hq hpl
      rw [hfl, Option.none_or, hr] at hold
      obtain rfl := Option.some.inj hold
      rw [hfl, Option.none_or, List.erase_cons_head] at hnew
      have hnext : findNextFt root s ft = ys.head?.or (Slots.first s.tables r) := by
        rw [findNextFt, findNextChainedFt_eq hn ha, hafter, hp]
        simp [listNextEntry]
      cases hys : ys.head?.or (Slots.first s.tables r) with
      | none =>
        have hupd : updateRootFtDestroy root s ft = { s.rootFt with ft := none } := by
          rw [updateRootFtDestroy, if_neg (fun hne => hne hr), hnext, hys]
        rw [hys] at hnew
        exact ⟨by rw [hroot, hupd, hnew], by rw [hroot, hupd]; simp⟩
      | some x =>
        have hupd : updateRootFtDestroy root s ft = ⟨some x, some x⟩ := by
          rw [updateRootFtDestroy, if_neg (fun hne => hne hr), hnext, hys]
        rw [hys] at hnew
        exact ⟨by rw [hroot, hupd, hnew], by rw [hroot, hupd]; exact fun x hx => hx⟩
    · have hupd : updateRootFtDestroy root s ft = s.rootFt := if_pos hr
      refine ⟨?_, by rw [hroot, hupd]; exact hf.told⟩
      rw [hroot, hupd, hnew, hold]
      by_cases hy : y = ft
      · -- a table in front of the priority is the root
        subst hy
        cases hfl : Slots.first s.tables l with
        | none => rw [hfl, Option.none_or] at hold; exact absurd hold hr
        | some x => rfl
      · rw [List.erase_cons_tail (by simpa using hy)]
        rfl

/-- With the modify-root capability, in every state of every run the root flow
table is a live table of minimal level, or missing because no table is live. -/
theorem rootFt_every_run (r : FsRoot) (hn : r.tree.NoChains) (ops : List FtOp)
    (hv : Run.Steps (step r.tree true) (Valid r.tree) init ops) :
    ∀ s ∈ Run.states (step r.tree true) init ops, RootTracked s := by
  have hstep : ∀ s op, Inv r.tree s ∧ RootFirst r.tree s → Valid r.tree s op →
      Inv r.tree (step r.tree true s op) ∧ RootFirst r.tree (step r.tree true s op) := by
    rintro s op ⟨h, hf⟩ hop
    refine ⟨h.call hop, ?_⟩
    rcases step_cases true hop with ⟨he, -⟩ | ⟨-, -, level, p, a, -, -, ha, hl, he⟩
      | ⟨ft, -, hft, he⟩
    · rw [he]; exact hf
    · rw [he]; exact hf.create h r.levels hn ha (by omega) (by omega)
    · rw [he]; exact hf.destroy h hn hft
  have hinit : RootFirst r.tree init := by
    refine ⟨?_, by simp [init]⟩
    exact (Slots.first_eq_none.mpr fun j _ => rfl).symm
  intro s hs
  obtain ⟨h, hf⟩ := hv.invariant hstep ⟨inv_init r.tree, hinit⟩ s hs
  exact h.rootTracked r.levels hn hf

/-- Two tables of the nic priority and one of the tc priority, and the tc table
destroyed again. -/
def kernelOps : List FtOp :=
  [.create [0, 0] 1 1, .create [0, 0] 1 0, .create [0, 0] 0 1, .destroy 2]

/-- The run on a device with few levels and no chaining. -/
theorem rootFt_every_run_kernel :
    Run.Steps (step (FsRoot.nicRx ⟨8, fun _ => false⟩).tree true)
        (Valid (FsRoot.nicRx ⟨8, fun _ => false⟩).tree) init kernelOps ∧
      ∀ s ∈ Run.states (step (FsRoot.nicRx ⟨8, fun _ => false⟩).tree true) init kernelOps,
        RootTracked s := by
  have hv : Run.Steps (step (FsRoot.nicRx ⟨8, fun _ => false⟩).tree true)
      (Valid (FsRoot.nicRx ⟨8, fun _ => false⟩).tree) init kernelOps := by
    simp only [kernelOps, Run.steps_cons, Run.steps_nil, Valid, and_true]
    decide +kernel
  exact ⟨hv, rootFt_every_run (FsRoot.nicRx ⟨8, fun _ => false⟩) (FsRoot.nicRx_noChains _) _ hv⟩

end FtState

end Mlx5
