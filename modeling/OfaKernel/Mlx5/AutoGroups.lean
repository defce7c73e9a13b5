-- SUMMARY: Where `alloc_auto_flow_group` places a group.
import OfaKernel.Lib.CInt
import OfaKernel.Lib.FirstFit
import OfaKernel.Lib.Run
import Mathlib.Data.Nat.Log

/-!
# Automatic flow groups

A group is placed by first fit in the list of groups, kept in the order of their start indices.
-/

open List

namespace Mlx5

/-- `struct mlx5_flow_group`: its place in the table. -/
structure FlowGroup where
  startIndex : Nat
  maxFtes : Nat
  deriving DecidableEq, Repr

/-- `struct mlx5_flow_table` with its `autogroup` and its list of groups. -/
structure AutoTable where
  maxFte : Nat
  active : Bool
  requiredGroups : Nat
  numGroups : Nat
  groups : List FlowGroup
  deriving DecidableEq, Repr

/-- What `alloc_flow_group` and `rhltable_insert` fail with. -/
inductive GroupErr where
  | enomem
  | einval
  | e2big
  | ebusy
  deriving DecidableEq, Repr

inductive AutoErr where
  | enoent
  | enospc
  | group (e : GroupErr)
  deriving DecidableEq, Repr

/-! ## The table -/

/-- `max_fte ? roundup_pow_of_two(max_fte) : 0`. -/
def tableMaxFte (maxFte : Nat) : Nat :=
  if maxFte = 0 then 0 else 2 ^ Nat.clog 2 maxFte

/-- `mlx5_create_auto_grouped_flow_table`; `none` is `-EINVAL`. -/
def createAutoGroupedFlowTable (numFlowTableEntries maxNumGroups : Nat) : Option AutoTable :=
  if numFlowTableEntries < maxNumGroups then none
  else some
    { maxFte := tableMaxFte numFlowTableEntries
      active := true
      requiredGroups := maxNumGroups
      numGroups := 0
      groups := [] }

def AutoTable.groupSize (ft : AutoTable) : Nat :=
  let groupSize :=
    if ft.numGroups < ft.requiredGroups then ft.maxFte / U32.inc ft.requiredGroups else 0
  if groupSize = 0 then 1 else groupSize

/-- The loop over the groups: the candidate index and how many groups `prev` is behind. -/
def scanGroups (groupSize : Nat) : Nat → List FlowGroup → Nat × Nat
  | candidateIndex, [] => (candidateIndex, 0)
  | candidateIndex, fg :: fgs =>
    if fg.startIndex < U32.wrap (candidateIndex + groupSize) then
      let r := scanGroups groupSize (U32.wrap (fg.startIndex + fg.maxFtes)) fgs
      (r.1, r.2 + 1)
    else (candidateIndex, 0)

/-- `alloc_flow_group` with its indices, as `alloc_insert_flow_group` calls it. -/
def mkFlowGroup (startIndex endIndex : Nat) : FlowGroup where
  startIndex := startIndex
  maxFtes := U32.wrap (U32.sub endIndex startIndex + 1)

/-- `alloc_auto_flow_group`; `insert` is what the allocation and the hash table answer. -/
def allocAutoFlowGroup (ft : AutoTable) (insert : Option GroupErr) :
    AutoTable × Except AutoErr FlowGroup :=
  if !ft.active then (ft, .error .enoent)
  else
    let (candidateIndex, prev) := scanGroups ft.groupSize 0 ft.groups
    if ft.maxFte < U32.wrap (candidateIndex + ft.groupSize) then (ft, .error .enospc)
    else
      match insert with
      | some e => (ft, .error (.group e))
      | none =>
        let fg := mkFlowGroup candidateIndex
          (U32.sub (U32.wrap (candidateIndex + ft.groupSize)) 1)
        ({ ft with
            groups := ft.groups.take prev ++ fg :: ft.groups.drop prev
            numGroups := U32.inc ft.numGroups },
          .ok fg)

/-- The removal of the group in place `i`: `list_del_init`, then `del_sw_flow_group`. -/
def delSwFlowGroup (ft : AutoTable) (i : Nat) : AutoTable :=
  if i < ft.groups.length then
    { ft with
      groups := ft.groups.eraseIdx i
      numGroups := if ft.active then U32.dec ft.numGroups else ft.numGroups }
  else ft

inductive AutoCall where
  | alloc (insert : Option GroupErr)
  | del (i : Nat)
  deriving DecidableEq, Repr

def AutoTable.step (ft : AutoTable) : AutoCall → AutoTable
  | .alloc insert => (allocAutoFlowGroup ft insert).1
  | .del i => delSwFlowGroup ft i

namespace AutoTable

/-- The `size` consecutive indices from `i` are inside the table and in no group. -/
def FreeRun (ft : AutoTable) (i size : Nat) : Prop :=
  i + size ≤ ft.maxFte ∧
    ∀ fg ∈ ft.groups, i + size ≤ fg.startIndex ∨ fg.startIndex + fg.maxFtes ≤ i

/-- The list is sorted by start index, the index ranges are disjoint and inside the table, and
`num_groups` counts the groups. -/
structure Placed (ft : AutoTable) : Prop where
  sorted : ft.groups.Pairwise fun a b => a.startIndex < b.startIndex
  disjoint : ft.groups.Pairwise fun a b =>
    ∀ i, ¬((a.startIndex ≤ i ∧ i < a.startIndex + a.maxFtes) ∧
      (b.startIndex ≤ i ∧ i < b.startIndex + b.maxFtes))
  inside : ∀ fg ∈ ft.groups, fg.startIndex + fg.maxFtes ≤ ft.maxFte
  counted : ft.numGroups = ft.groups.length

/-- `alloc_auto_flow_group` fails with `-ENOSPC` exactly when there is no run of indices for the
next group. -/
def EnospcExact (ft : AutoTable) : Prop :=
  ∀ insert, (∃ ft', allocAutoFlowGroup ft insert = (ft', .error .enospc)) ↔
    ¬∃ i, ft.FreeRun i ft.groupSize

end AutoTable

/-! ## The table in every history -/

namespace AutoTable

/-- What every call keeps. A table is made with at most `2 ^ 31` entries. -/
structure Wf (ft : AutoTable) : Prop where
  placed : FirstFit.Placed FlowGroup.startIndex FlowGroup.maxFtes ft.groups
  inside : ∀ fg ∈ ft.groups, fg.startIndex + fg.maxFtes ≤ ft.maxFte
  counted : ft.numGroups = ft.groups.length
  maxFte_le : ft.maxFte ≤ 2 ^ 31
  required_lt : ft.requiredGroups < 2 ^ 31
  active : ft.active = true

variable {ft : AutoTable}

/-- `max_fte / (required_groups + 1)`, or zero once the required groups are there. -/
def savedSize (ft : AutoTable) : Nat :=
  if ft.numGroups < ft.requiredGroups then ft.maxFte / U32.inc ft.requiredGroups else 0

theorem groupSize_eq (ft : AutoTable) :
    ft.groupSize = if ft.savedSize = 0 then 1 else ft.savedSize := rfl

theorem groupSize_pos (ft : AutoTable) : 0 < ft.groupSize := by
  rw [groupSize_eq]
  split <;> omega

/-- The place saved for one of several groups is at most half of the table. -/
theorem savedSize_le (hreq : ft.requiredGroups < 2 ^ 31) : ft.savedSize ≤ ft.maxFte / 2 := by
  unfold savedSize
  split
  case isTrue hlt =>
    rw [U32.inc_of_lt (by omega)]
    exact Nat.div_le_div_left (by omega) (by decide)
  case isFalse => exact Nat.zero_le _

theorem groupSize_le (hreq : ft.requiredGroups < 2 ^ 31) :
    ft.groupSize ≤ ft.maxFte / 2 + 1 := by
  have hsaved := savedSize_le hreq
  rw [groupSize_eq]
  split <;> omega

theorem Wf.length_le (h : ft.Wf) : ft.groups.length ≤ ft.maxFte := by
  have := h.placed.length_le (fun _ _ => Nat.zero_le _) (Nat.zero_le _) h.inside
  omega

theorem scanGroups_eq {fgs : List FlowGroup} {size c n : Nat} (hc : c ≤ n)
    (hin : ∀ fg ∈ fgs, fg.startIndex + fg.maxFtes ≤ n) (hlt : n + size < 2 ^ 32) :
    scanGroups size c fgs =
      FirstFit.scan FlowGroup.startIndex FlowGroup.maxFtes size c fgs := by
  induction fgs generalizing c with
  | nil => rfl
  | cons fg fgs ih =>
    have hfg := hin fg mem_cons_self
    have hend : U32.wrap (c + size) = c + size := U32.wrap_of_lt (by omega)
    have hnext : U32.wrap (fg.startIndex + fg.maxFtes) = fg.startIndex + fg.maxFtes :=
      U32.wrap_of_lt (by omega)
    unfold scanGroups FirstFit.scan
    rw [hend, hnext, ih hfg fun b hb => hin b (mem_cons_of_mem _ hb)]

theorem scan_fst_le {fgs : List FlowGroup} {size c n : Nat} (hc : c ≤ n)
    (hin : ∀ fg ∈ fgs, fg.startIndex + fg.maxFtes ≤ n) :
    (FirstFit.scan FlowGroup.startIndex FlowGroup.maxFtes size c fgs).1 ≤ n :=
  FirstFit.scan_least hc fun fg hfg => .inr (hin fg hfg)

theorem mkFlowGroup_maxFtes {c size : Nat} (hpos : 0 < size) (hlt : c + size < 2 ^ 32) :
    mkFlowGroup c (U32.sub (U32.wrap (c + size)) 1) = ⟨c, size⟩ := by
  have hend : U32.sub (c + size) 1 = c + size - 1 := U32.sub_of_le (by omega) hlt
  have hdiff : U32.sub (c + size - 1) c = size - 1 := by
    rw [U32.sub_of_le (by omega) (by omega)]
    omega
  unfold mkFlowGroup
  rw [U32.wrap_of_lt hlt, hend, hdiff, U32.wrap_of_lt (by omega)]
  congr 1
  omega

/-- The gap the library's scan finds in the groups of the table. -/
def gap (ft : AutoTable) : Nat × Nat :=
  FirstFit.scan FlowGroup.startIndex FlowGroup.maxFtes ft.groupSize 0 ft.groups

/-- What a call does in a table that is well-formed. -/
theorem Wf.alloc_eq (h : ft.Wf) (insert : Option GroupErr) :
    allocAutoFlowGroup ft insert =
      if ft.maxFte < ft.gap.1 + ft.groupSize then (ft, .error .enospc)
      else
        match insert with
        | some e => (ft, .error (.group e))
        | none =>
          ({ ft with
              groups := ft.groups.take ft.gap.2 ++
                ⟨ft.gap.1, ft.groupSize⟩ :: ft.groups.drop ft.gap.2
              numGroups := ft.numGroups + 1 }, .ok ⟨ft.gap.1, ft.groupSize⟩) := by
  have hsize := groupSize_le h.required_lt
  have hmax := h.maxFte_le
  have hlen := h.length_le
  have hcount := h.counted
  have hscan : scanGroups ft.groupSize 0 ft.groups = ft.gap :=
    scanGroups_eq (Nat.zero_le _) h.inside (by omega)
  have hfst : ft.gap.1 ≤ ft.maxFte := scan_fst_le (Nat.zero_le _) h.inside
  have hlt : ft.gap.1 + ft.groupSize < 2 ^ 32 := by omega
  unfold allocAutoFlowGroup
  rw [h.active, hscan]
  dsimp only [Bool.not_true, Bool.false_eq_true, if_false]
  rw [mkFlowGroup_maxFtes (groupSize_pos ft) hlt, U32.wrap_of_lt hlt,
    U32.inc_of_lt (by omega)]
  rfl

theorem Wf.alloc (h : ft.Wf) (insert : Option GroupErr) :
    (allocAutoFlowGroup ft insert).1.Wf := by
  rw [h.alloc_eq]
  split
  case isTrue => exact h
  case isFalse hroom =>
    cases insert with
    | some e => exact h
    | none =>
      have hplaced := h.placed.insert (groupSize_pos ft)
        (x := ⟨ft.gap.1, ft.groupSize⟩) rfl rfl
      refine ⟨hplaced, fun fg hfg => ?_, ?_, h.maxFte_le, h.required_lt, h.active⟩
      · rcases mem_append.mp hfg with hfg | hfg
        · exact h.inside fg (mem_of_mem_take hfg)
        rcases mem_cons.mp hfg with rfl | hfg
        · exact Nat.le_of_not_lt hroom
        · exact h.inside fg (mem_of_mem_drop hfg)
      · dsimp only
        rw [length_append, length_cons, length_take, length_drop,
          h.counted]
        omega

theorem Wf.del (h : ft.Wf) (i : Nat) : (delSwFlowGroup ft i).Wf := by
  unfold delSwFlowGroup
  split
  case isFalse => exact h
  case isTrue hi =>
    have hsub : (ft.groups.eraseIdx i).Sublist ft.groups := eraseIdx_sublist _ _
    have hlen := h.length_le
    have hmax := h.maxFte_le
    refine ⟨h.placed.sublist hsub, fun fg hfg => h.inside fg (hsub.subset hfg), ?_,
      h.maxFte_le, h.required_lt, h.active⟩
    rw [h.active, if_pos rfl, h.counted, length_eraseIdx_of_lt hi,
      U32.dec_of_pos (by omega) (by omega)]

theorem Wf.step (h : ft.Wf) (call : AutoCall) : (ft.step call).Wf := by
  cases call with
  | alloc insert => exact h.alloc insert
  | del i => exact h.del i

theorem create_wf {n maxNumGroups : Nat} (hn : n < 2 ^ 31)
    (h : createAutoGroupedFlowTable n maxNumGroups = some ft) : ft.Wf := by
  unfold createAutoGroupedFlowTable at h
  split at h
  case isTrue => cases h
  case isFalse hle =>
    cases h
    have hmax : tableMaxFte n ≤ 2 ^ 31 := by
      unfold tableMaxFte
      split
      · exact Nat.zero_le _
      · have hclog : Nat.clog 2 n ≤ 31 := Nat.clog_le_of_le_pow (by omega)
        exact Nat.pow_le_pow_right (by decide) hclog
    exact ⟨.nil, by simp, rfl, hmax, by dsimp only; omega, rfl⟩

theorem Wf.toPlaced (h : ft.Wf) : ft.Placed := by
  have hbefore : ∀ a ∈ ft.groups, ∀ b ∈ ft.groups,
      FirstFit.Before FlowGroup.startIndex FlowGroup.maxFtes a b →
        0 < a.maxFtes ∧ a.startIndex + a.maxFtes ≤ b.startIndex :=
    fun a ha _ _ hab => ⟨h.placed.pos a ha, hab⟩
  constructor
  case sorted =>
    apply h.placed.sorted.imp_of_mem
    intro a b ha hb hab
    have := hbefore a ha b hb hab
    omega
  case disjoint =>
    apply h.placed.sorted.imp_of_mem
    intro a b ha hb hab i hi
    have := hbefore a ha b hb hab
    omega
  case inside => exact h.inside
  case counted => exact h.counted

theorem Wf.enospcExact (h : ft.Wf) : ft.EnospcExact := by
  intro insert
  rw [h.alloc_eq]
  constructor
  · rintro ⟨ft', hft⟩ ⟨i, hi, hfree⟩
    have hleast : ft.gap.1 ≤ i := FirstFit.scan_least (Nat.zero_le _) hfree
    rw [if_neg (by omega)] at hft
    cases insert <;> cases hft
  · intro hnone
    have hfree := FirstFit.scan_free ft.groupSize h.placed (fun b _ => Nat.zero_le b.startIndex)
    have hfull : ft.maxFte < ft.gap.1 + ft.groupSize := by
      by_contra hroom
      exact hnone ⟨ft.gap.1, Nat.le_of_not_lt hroom, hfree⟩
    exact ⟨ft, if_pos hfull⟩

/-- In every state the groups are placed as they are to be, and `-ENOSPC` says that there is no
place. -/
theorem auto_groups_placed {numFlowTableEntries maxNumGroups : Nat}
    (hint : numFlowTableEntries < 2 ^ 31)
    (h : createAutoGroupedFlowTable numFlowTableEntries maxNumGroups = some ft)
    (calls : List AutoCall) :
    ∀ t ∈ Run.states AutoTable.step ft calls, t.Placed ∧ t.EnospcExact := by
  intro t ht
  have hwf : t.Wf :=
    (Run.steps_true ft calls).invariant (fun _ call hs _ => hs.step call) (create_wf hint h) t ht
  exact ⟨hwf.toPlaced, hwf.enospcExact⟩

/-- A table of eight entries for at most one group of half the table, and a removal. -/
theorem auto_groups_placed_eight :
    createAutoGroupedFlowTable 5 1 = some ⟨8, true, 1, 0, []⟩ ∧
      ∀ t ∈ Run.states AutoTable.step ⟨8, true, 1, 0, []⟩
        [.alloc none, .alloc none, .del 0, .alloc none], t.Placed ∧ t.EnospcExact :=
  ⟨by decide, auto_groups_placed (by decide) (by decide : createAutoGroupedFlowTable 5 1 = _) _⟩

end AutoTable

end Mlx5
