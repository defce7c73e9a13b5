-- SUMMARY: One mlx5 flow table entry.
import OfaKernel.Lib.CInt
import OfaKernel.Lib.Run
import Mathlib.Data.List.Count

/-!
# Flow table entries

An FTE holds one rule for each destination. Handles share rules. A new rule becomes a child of
the FTE at the end of `add_rule_fg`. `mlx5_cmd_set_fte` sizes its buffer from `dests_size` and
fills it by walking the child list.
-/

namespace Mlx5

abbrev RuleId := Nat

/-- `struct mlx5_flow_destination`. -/
inductive Dest where
  | vport (num vhcaId : Nat) (vhcaIdValid : Bool)
  | flowTable (ft : Nat)
  | tir (num : Nat)
  | port (num : Nat)
  | counter (id : Nat)
  | flowTableNum (num : Nat)
  deriving DecidableEq, Repr

namespace Dest

/-- A zeroed `dest_attr` reads as vport 0. -/
def zero : Dest := .vport 0 0 false

def isCounter : Dest → Bool
  | .counter _ => true
  | _ => false

def isFlowTable : Dest → Bool
  | .flowTable _ => true
  | _ => false

def counterId? : Dest → Option Nat
  | .counter id => some id
  | _ => none

end Dest

/-- `mlx5_flow_dests_cmp`: counters and ports are never equal, vports are
compared by number only. -/
def flowDestsCmp : Dest → Dest → Bool
  | .vport n _ _, .vport m _ _ => n == m
  | .flowTable f, .flowTable g => f == g
  | .tir n, .tir m => n == m
  | .flowTableNum n, .flowTableNum m => n == m
  | _, _ => false

/-! ## Actions -/

/-- The action bits of `MLX5_FLOW_CONTEXT_ACTION_*`. -/
abbrev Action := BitVec 32

namespace Action

def drop : Action := 0x2
def fwdDest : Action := 0x4
def count : Action := 0x8
def packetReformat : Action := 0x10
def decap : Action := 0x20
def modHdr : Action := 0x40
def vlanPop : Action := 0x80
def vlanPush : Action := 0x100
def vlanPop2 : Action := 0x400
def vlanPush2 : Action := 0x800

/-- Bit 2, `fwdDest`. -/
def hasFwdDest (a : Action) : Bool := a.getLsbD 2

/-- Bit 3, `count`. -/
def hasCount (a : Action) : Bool := a.getLsbD 3

@[simp] theorem hasFwdDest_or (a b : Action) :
    hasFwdDest (a ||| b) = (hasFwdDest a || hasFwdDest b) := by
  simp [hasFwdDest]

@[simp] theorem hasCount_or (a b : Action) : hasCount (a ||| b) = (hasCount a || hasCount b) := by
  simp [hasCount]

@[simp] theorem hasFwdDest_clear_count (a : Action) :
    hasFwdDest (a &&& ~~~count) = hasFwdDest a := by
  simp [hasFwdDest, count]

@[simp] theorem hasCount_clear_count (a : Action) : hasCount (a &&& ~~~count) = false := by
  simp [hasCount, count]

end Action

def checkConflictingActions (action₁ action₂ : Action) : Bool :=
  if action₁ = .count || action₂ = .count then false
  else (action₁ ^^^ action₂) &&& (.drop ||| .packetReformat ||| .decap ||| .modHdr ||| .vlanPop |||
    .vlanPush ||| .vlanPop2 ||| .vlanPush2) != 0

/-- The fields of `struct mlx5_flow_act` that decide how a rule joins an FTE. -/
structure FlowAct where
  action : Action
  hasTag : Bool
  flowTag : Nat
  deriving DecidableEq, Repr

/-! ## Rules and entries -/

/-- `struct mlx5_flow_rule`; `linked` says that its node has a parent. -/
structure Rule where
  /-- The destination it was allocated for; without one `dest_attr` is zero. -/
  dest : Option Dest
  refcount : Nat
  linked : Bool
  deriving DecidableEq, Repr

def Rule.destAttr (r : Rule) : Dest :=
  r.dest.getD .zero

structure ModifyMask where
  action : Bool
  destinationList : Bool
  flowCounters : Bool
  deriving DecidableEq, Repr

/-- What one `mlx5_cmd_set_fte` sends. -/
structure SetFte where
  /-- The fields to modify; `none` for the creation of the entry. -/
  modifyMask : Option ModifyMask
  /-- The number of entries the buffer is sized for. -/
  destsSize : Nat
  action : Action
  dests : List Dest
  counters : List Nat
  deriving DecidableEq, Repr

/-- `struct fs_fte` with its rule objects. -/
structure Fte where
  rule : RuleId → Rule
  nextRule : RuleId
  children : List RuleId
  destsSize : Nat
  action : Action
  flowTag : Nat
  /-- The entry exists in the device (`FS_FTE_STATUS_EXISTING`). -/
  existing : Bool
  refcount : Nat
  /-- The `mlx5_cmd_set_fte` calls so far, the last one first. -/
  cmds : List SetFte

namespace Fte

def destAttrs (f : Fte) : List Dest :=
  f.children.map fun r => (f.rule r).destAttr

/-- The command `mlx5_cmd_set_fte` builds from the entry. -/
def content (f : Fte) (modifyMask : Option ModifyMask) : SetFte where
  modifyMask := modifyMask
  destsSize := f.destsSize
  action := f.action
  dests := if f.action.hasFwdDest then f.destAttrs.filter fun d => !d.isCounter else []
  counters := if f.action.hasCount then f.destAttrs.filterMap Dest.counterId? else []

def setFte (f : Fte) (modifyMask : Option ModifyMask) : Fte :=
  { f with cmds := f.content modifyMask :: f.cmds }

def setRefcount (f : Fte) (r : RuleId) (refcount : Nat) : Fte :=
  { f with rule := Function.update f.rule r { f.rule r with refcount := refcount } }

end Fte

def findFlowRule (f : Fte) (dest : Dest) : Option RuleId :=
  f.children.find? fun r => flowDestsCmp (f.rule r).destAttr dest

/-! ## Adding rules -/

/-- A new rule for a destination, or for none: flow tables and rules without a
destination go to the end of the child list. -/
def allocRule (f : Fte) (dest : Option Dest) : Fte :=
  { f with
    rule := Function.update f.rule f.nextRule ⟨dest, 1, false⟩
    nextRule := f.nextRule + 1
    children := if dest.any fun d => !d.isFlowTable then f.nextRule :: f.children
      else f.children ++ [f.nextRule]
    destsSize := if dest.isSome then U32.inc f.destsSize else f.destsSize }

def ModifyMask.addDest (m : ModifyMask) : Option Dest → ModifyMask
  | none => m
  | some d =>
    if d.isCounter then { m with flowCounters := true } else { m with destinationList := true }

/-- What `create_flow_handle` has done so far. -/
structure HandleBuild where
  fte : Fte
  rules : List RuleId
  modifyMask : ModifyMask
  newRule : Bool

/-- The loop of `create_flow_handle` from destination `i` on; `allocOk i` says
whether the allocation of a rule for it succeeds. The result is `false` when an
allocation failed. -/
def createFlowHandleLoop (allocOk : Nat → Bool) :
    Nat → List (Option Dest) → HandleBuild → HandleBuild × Bool
  | _, [], b => (b, true)
  | i, d :: ds, b =>
    match d.bind (findFlowRule b.fte) with
    | some r =>
      createFlowHandleLoop allocOk (i + 1) ds
        { b with
          fte := b.fte.setRefcount r ((b.fte.rule r).refcount + 1)
          rules := b.rules ++ [r] }
    | none =>
      if allocOk i then
        createFlowHandleLoop allocOk (i + 1) ds
          { fte := allocRule b.fte d
            rules := b.rules ++ [b.fte.nextRule]
            modifyMask := b.modifyMask.addDest d
            newRule := true }
      else ({ b with newRule := true }, false)

def destroyHandleRule (f : Fte) (r : RuleId) : Fte :=
  let f' := f.setRefcount r ((f.rule r).refcount - 1)
  if (f.rule r).refcount = 1 then
    { f' with destsSize := U32.dec f.destsSize, children := f.children.erase r }
  else f'

/-- `destroy_flow_handle`: from the last rule to the first. -/
def destroyFlowHandle (f : Fte) (rules : List RuleId) : Fte :=
  rules.reverse.foldl destroyHandleRule f

/-- The arguments of an addition, with the outcome of its allocations and of its command. -/
structure AddArgs where
  act : FlowAct
  /-- `none` is a NULL `dest`. -/
  dest : Option (List Dest)
  handleOk : Bool
  allocOk : Nat → Bool
  cmdOk : Bool

/-- The destinations the loop of `create_flow_handle` runs over. -/
def AddArgs.requests (a : AddArgs) : List (Option Dest) :=
  match a.dest with
  | none => [none]
  | some ds => ds.map some

/-- The `modify_mask` of the command of an addition; a new entry is created as a whole. -/
def commandMask (f : Fte) (m : ModifyMask) (updateAction : Bool) : Option ModifyMask :=
  if f.existing then some { m with action := updateAction } else none

def addRuleFte (f : Fte) (a : AddArgs) (updateAction : Bool) : Fte × Option (List RuleId) :=
  if !a.handleOk then (f, none)
  else
    let r := createFlowHandleLoop a.allocOk 0 a.requests ⟨f, [], ⟨false, false, false⟩, false⟩
    if !r.2 then (destroyFlowHandle r.1.fte r.1.rules, none)
    else if !r.1.newRule then (r.1.fte, some r.1.rules)
    else
      let f' := r.1.fte.setFte (commandMask f r.1.modifyMask updateAction)
      if a.cmdOk then ({ f' with existing := true }, some r.1.rules)
      else (destroyFlowHandle f' r.1.rules, none)

/-- `tree_add_node` for a rule that no other handle had. -/
def linkRule (f : Fte) (r : RuleId) : Fte :=
  if (f.rule r).refcount = 1 then
    { f with
      rule := Function.update f.rule r { f.rule r with linked := true }
      refcount := f.refcount + 1 }
  else f

def checkConflictingFtes (f : Fte) (act : FlowAct) : Bool :=
  checkConflictingActions act.action f.action || (act.hasTag && f.flowTag != act.flowTag)

/-- `add_rule_fg`; the result is the handle's rules. -/
def addRuleFg (f : Fte) (a : AddArgs) : Fte × Option (List RuleId) :=
  if checkConflictingFtes f a.act then (f, none)
  else
    let r := addRuleFte { f with action := f.action ||| a.act.action } a
      (f.action != a.act.action)
    match r.2 with
    | none => ({ r.1 with action := f.action }, none)
    | some rules => (rules.foldl linkRule r.1, some rules)

/-- `del_sw_hw_rule`, its second test: one forward destination less. -/
def delFwdDest (f : Fte) : Fte :=
  if f.action.hasFwdDest then
    let destsSize := U32.dec f.destsSize
    let f' := { f with destsSize := destsSize }
    if destsSize ≠ 0 then f'.setFte (some ⟨false, true, false⟩) else f'
  else f

/-- `del_sw_hw_rule`, after the rule has left the child list. A counter whose
decrement yields 0 goes on to the second test. -/
def delSwHwRule (f : Fte) (r : RuleId) : Fte :=
  if (f.rule r).destAttr.isCounter then
    let destsSize := U32.dec f.destsSize
    let f' := { f with destsSize := destsSize }
    if destsSize ≠ 0 then
      ({ f' with action := f.action &&& ~~~.count } : Fte).setFte (some ⟨true, false, true⟩)
    else delFwdDest f'
  else delFwdDest f

/-- `tree_remove_node` of a rule. Without a parent the rule is freed and stays in
the child list. -/
def treeRemoveRule (f : Fte) (r : RuleId) : Fte :=
  if (f.rule r).refcount > 1 then f.setRefcount r ((f.rule r).refcount - 1)
  else if (f.rule r).linked then
    let f' := delSwHwRule { f.setRefcount r 0 with children := f.children.erase r } r
    { f' with refcount := f'.refcount - 1 }
  else f.setRefcount r 0

/-! ## Runs of one entry -/

structure Handle where
  rules : List RuleId
  /-- What the handle was asked for. -/
  dests : List (Option Dest)
  deriving DecidableEq, Repr

/-- The entry of one match value, as additions and deletions come and go. -/
structure FteState where
  fte : Fte
  /-- The entry is in its flow group; a released one is made anew by the next addition. -/
  present : Bool
  handles : List Handle

inductive FteOp where
  | add (args : AddArgs)
  /-- `mlx5_del_flow_rules`. -/
  | del (handle : Handle)

namespace FteState

def init : FteState where
  fte :=
    { rule := fun _ => ⟨none, 0, false⟩
      nextRule := 0
      children := []
      destsSize := 0
      action := 0
      flowTag := 0
      existing := false
      refcount := 0
      cmds := [] }
  present := false
  handles := []

/-- The entry an addition finds: the present one with a reference taken, or a new
one (`alloc_fte`). -/
def getFte (s : FteState) (act : FlowAct) : Fte :=
  if s.present then { s.fte with refcount := s.fte.refcount + 1 }
  else
    { s.fte with
      children := []
      destsSize := 0
      action := act.action
      flowTag := act.flowTag
      existing := false
      refcount := 1 }

/-- The addition before `tree_put_node` of the entry. -/
def addResult (s : FteState) (a : AddArgs) : Fte × Option (List RuleId) :=
  addRuleFg (s.getFte a.act) a

/-- `mlx5_add_flow_rules` on the entry. -/
def add (s : FteState) (a : AddArgs) : FteState :=
  let r := s.addResult a
  { fte := { r.1 with refcount := r.1.refcount - 1 }
    present := r.1.refcount != 1
    handles := match r.2 with
      | some rules => ⟨rules, a.requests⟩ :: s.handles
      | none => s.handles }

/-- One rule of a deleted handle; the entry is released with its last reference. -/
def delRule (s : FteState) (r : RuleId) : FteState :=
  let f := treeRemoveRule s.fte r
  { s with fte := f, present := s.present && f.refcount != 0 }

/-- `mlx5_del_flow_rules`: from the last rule to the first. -/
def del (s : FteState) (h : Handle) : FteState :=
  h.rules.reverse.foldl delRule { s with handles := s.handles.erase h }

def step (s : FteState) : FteOp → FteState
  | .add a => s.add a
  | .del h => s.del h

/-- A destination array is not empty, and a deleted handle is live. -/
def Valid (s : FteState) : FteOp → Prop
  | .add a => a.dest ≠ some []
  | .del h => h ∈ s.handles

end FteState

end Mlx5
