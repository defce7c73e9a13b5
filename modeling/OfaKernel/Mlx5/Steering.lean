-- SUMMARY: One mlx5 steering tree with its flow tables.
import OfaKernel.Mlx5.FlowTables
import OfaKernel.Mlx5.FteSharing

/-!
# Steering

Flow tables and entries together. A rule that forwards to the next priority is kept on a list of
the table it points to, so that `connect_fwd_rules` can move it. Entries are named by their table
and a number; which entry an addition selects is left open.
-/

namespace Mlx5

/-! ## Root namespaces -/

/-- The trees the init code builds, with the capability that decides about
forwarding to the next priority. -/
inductive SteeringRoot where
  | nicRx (dev : FlowTableCaps) (nicRxMultiPathTirs : Bool)
  | nicTx (dev : FlowTableCaps)
  | singlePrio
  | fdb (fdbMaxChain fdbMaxPrio : Nat) (hpos : fdbMaxPrio ≠ 0)
      (hnum : 2 * fdbMaxPrio * (fdbMaxChain + 1) + 2 ≤ intMax)

namespace SteeringRoot

def root : SteeringRoot → FsRoot
  | .nicRx dev _ => .nicRx dev
  | .nicTx dev => .egress dev
  | .singlePrio => .singlePrio
  | .fdb fdbMaxChain fdbMaxPrio hpos hnum => .fdb fdbMaxChain fdbMaxPrio hpos hnum

def fwdNextPrioSupported : SteeringRoot → Bool
  | .nicRx _ nicRxMultiPathTirs => nicRxMultiPathTirs
  | _ => false

theorem noChains_of_supported {r : SteeringRoot} (h : r.fwdNextPrioSupported = true) :
    r.root.tree.NoChains := by
  cases r with
  | nicRx dev c => exact FsRoot.nicRx_noChains dev
  | _ => simp [fwdNextPrioSupported] at h

end SteeringRoot

/-- The table of an entry, and a number for its match value. -/
abbrev FteKey := FtId × Nat

structure Steering where
  fts : FtState
  fte : FteKey → FteState
  /-- The table on whose `fwd_rules` list a rule stands (`rule->next_ft`). -/
  nextFt : FteKey → RuleId → Option FtId
  /-- The reference of `mlx5_create_flow_table` was dropped. -/
  destroyed : FtId → Bool

namespace Steering

def init : Steering where
  fts := .init
  fte := fun _ => .init
  nextFt := fun _ _ => none
  destroyed := fun _ => false

end Steering

def modifyRuleDestination (f : Fte) (r : RuleId) (dest : Dest) : Fte :=
  if f.action.hasFwdDest then
    Fte.setFte { f with rule := Function.update f.rule r { f.rule r with dest := some dest } }
      (some ⟨false, true, false⟩)
  else f

/-- The rules of one entry that stand on the list of `ft`, all pointed to it. -/
def pointRulesTo (ft : FtId) (nextFt : RuleId → Option FtId) (f : Fte) : Fte :=
  f.children.foldl
    (fun f r => if nextFt r = some ft then modifyRuleDestination f r (.flowTable ft) else f) f

/-- `connect_fwd_rules`: the list of the old table is spliced into that of the new
one, and every rule on it is pointed to the new table. -/
def connectFwdRules (s : Steering) (newNextFt oldNextFt : Option FtId) : Steering :=
  match newNextFt, oldNextFt with
  | some new, some old =>
    let nextFt := fun k r => if s.nextFt k r = some old then some new else s.nextFt k r
    { s with
      nextFt := nextFt
      fte := fun k =>
        if (s.fte k).present then
          { s.fte k with fte := pointRulesTo new (nextFt k) (s.fte k).fte }
        else s.fte k }
  | _, _ => s

namespace Steering

/-- `mlx5_create_flow_table`, with the forwarding rules `connect_flow_table` moves. -/
def create (root : FsNode) (modifyRoot : Bool) (s : Steering) (ns : Path) (prio level : Nat) :
    Steering :=
  match findPrio root ns prio with
  | none => s
  | some (p, a) =>
    if level ≥ a.numLevels then s
    else
      let s' := { s with fts := createInPrio root modifyRoot s.fts p (level + a.startLevel) }
      if (s.fts.tables p).isEmpty then
        connectFwdRules s' (some s.fts.nextFt) (findNextChainedFt root s.fts.tables p)
      else s'

/-- `mlx5_destroy_flow_table`: the table is disconnected, and its reference dropped. -/
def destroy (root : FsNode) (s : Steering) (ft : FtId) : Steering :=
  let prio := s.fts.parent ft
  let s' :=
    if (s.fts.tables prio).head? = some ft then
      connectFwdRules s (findNextChainedFt root s.fts.tables prio) (some ft)
    else s
  { s' with
    fts := disconnectFlowTable root s.fts ft
    destroyed := Function.update s.destroyed ft true }

/-- `del_sw_flow_table`, when the last reference on the table goes. -/
def release (s : Steering) (ft : FtId) : Steering :=
  { s with fts := removeFlowTable s.fts ft }

end Steering

/-! ## Rules -/

namespace Action

def fwdNextPrio : Action := 0x10000

end Action

def counterIsValid (action : Action) : Bool :=
  action &&& (.drop ||| .fwdDest) != 0

def destIsValid (level : FtId → Nat) (ft : FtId) (action : Action) (dest : Dest) : Bool :=
  if dest.isCounter then counterIsValid action
  else if !action.hasFwdDest then true
  else match dest with
    | .flowTable x => !(level x ≤ level ft)
    | _ => true

/-- The arguments of `mlx5_add_flow_rules`. -/
structure RuleArgs where
  act : FlowAct
  /-- NULL, or the array: `num_dest` entries, or one that is used although `num_dest` is 0. -/
  dest : Option (List Dest)
  numDest : Nat
  handleOk : Bool
  allocOk : Nat → Bool
  cmdOk : Bool

def RuleArgs.addArgs (a : RuleArgs) : AddArgs where
  act := a.act
  dest := a.dest
  handleOk := a.handleOk
  allocOk := a.allocOk
  cmdOk := a.cmdOk

def RuleArgs.validated (a : RuleArgs) : List Dest :=
  (a.dest.getD []).take a.numDest

/-- The arguments `mlx5_add_flow_rules` makes of an addition that forwards to the next priority. -/
def RuleArgs.toNextFt (a : RuleArgs) (ft : FtId) : RuleArgs :=
  { a with act := { a.act with action := .fwdDest }, dest := some [.flowTable ft], numDest := 1 }

namespace Steering

/-- `_mlx5_add_flow_rules` on the entry `k`; a rule that is allocated stands on no list. -/
def addRules (s : Steering) (k : FteKey) (a : RuleArgs) : Steering :=
  if a.validated.all (destIsValid s.fts.level k.1 a.act.action) then
    { s with
      fte := Function.update s.fte k ((s.fte k).add a.addArgs)
      nextFt := Function.update s.nextFt k fun r =>
        if (s.fte k).present && decide (r ∈ (s.fte k).fte.children) then s.nextFt k r else none }
  else s

def handleRules (s : Steering) (k : FteKey) (a : RuleArgs) : Option (List RuleId) :=
  if a.validated.all (destIsValid s.fts.level k.1 a.act.action) then
    ((s.fte k).addResult a.addArgs).2
  else none

/-- The first rule of a handle joins the list of `ft`, unless it stands on one. -/
def joinFwdRules (s : Steering) (k : FteKey) (ft : FtId) : Option (List RuleId) → Steering
  | some (r :: _) =>
    if s.nextFt k r = none then
      { s with nextFt := Function.update s.nextFt k (Function.update (s.nextFt k) r (some ft)) }
    else s
  | _ => s

/-- `mlx5_add_flow_rules` on the entry `k`. -/
def add (r : SteeringRoot) (s : Steering) (k : FteKey) (a : RuleArgs) : Steering :=
  if a.act.action = .fwdNextPrio then
    if !r.fwdNextPrioSupported || a.numDest != 0 then s
    else match findNextChainedFt r.root.tree s.fts.tables (s.fts.parent k.1) with
      | none => s
      | some ft => (s.addRules k (a.toNextFt ft)).joinFwdRules k ft
          (s.handleRules k (a.toNextFt ft))
  else s.addRules k a

/-- `mlx5_del_flow_rules`; a rule that goes leaves its list. -/
def del (s : Steering) (k : FteKey) (h : Handle) : Steering :=
  { s with
    fte := Function.update s.fte k ((s.fte k).del h)
    nextFt := Function.update s.nextFt k fun r =>
      if r ∈ ((s.fte k).del h).fte.children then s.nextFt k r else none }

end Steering

inductive SteeringOp where
  | create (ns : Path) (prio level : Nat)
  | destroy (ft : FtId)
  /-- The last reference on a destroyed table goes. -/
  | release (ft : FtId)
  | add (key : FteKey) (args : RuleArgs)
  | del (key : FteKey) (handle : Handle)

namespace Steering

def step (r : SteeringRoot) (modifyRoot : Bool) (s : Steering) : SteeringOp → Steering
  | .create ns prio level => s.create r.root.tree modifyRoot ns prio level
  | .destroy ft => s.destroy r.root.tree ft
  | .release ft => s.release ft
  | .add k a => s.add r k a
  | .del k h => s.del k h

/-- Tables that are named are live, an array has its `num_dest` entries (or one, used with
`num_dest` 0), a deleted handle is live, and a released table was destroyed and has no entry. -/
def Valid (r : SteeringRoot) (s : Steering) : SteeringOp → Prop
  | .create ns prio _ => ∀ p ∈ findPrio r.root.tree ns prio, r.root.tree.attrAt p.1 = some p.2
  | .destroy ft => s.fts.Live ft ∧ s.destroyed ft = false
  | .release ft => s.fts.Live ft ∧ s.destroyed ft = true ∧ ∀ i, (s.fte (ft, i)).present = false
  | .add k a => s.fts.Live k.1 ∧
      match a.dest with
      | none => a.numDest = 0
      | some ds => (a.numDest = ds.length ∨ a.numDest = 0 ∧ ds.length = 1) ∧ ds ≠ [] ∧
          ∀ ft, .flowTable ft ∈ ds → s.fts.Live ft
  | .del k h => h ∈ (s.fte k).handles

end Steering

end Mlx5
