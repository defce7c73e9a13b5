-- SUMMARY: A multicast group of the SA client (`multicast.c`).
import Mathlib.Data.Nat.Bitwise

/-!
# Multicast groups

Clients join and free; the work of a group serves the joins one after the other and leaves what
nobody uses. The work is at one place at a time, `Phase`, and a turn of it goes from one lock to
the next.
-/

namespace IbCore

/-! ## Records -/

structure McmemberRec where
  mgid : Nat
  portGid : Nat
  qkey : Nat
  mlid : Nat
  mtuSelector : Nat
  mtu : Nat
  trafficClass : Nat
  pkey : Nat
  rateSelector : Nat
  rate : Nat
  packetLifeTimeSelector : Nat
  packetLifeTime : Nat
  sl : Nat
  flowLabel : Nat
  hopLimit : Nat
  scope : Nat
  joinState : Nat
  proxyJoin : Nat
  deriving DecidableEq

/-- The record of a group that `kzalloc` gives. -/
def McmemberRec.zero (mgid : Nat) : McmemberRec :=
  { mgid, portGid := 0, qkey := 0, mlid := 0, mtuSelector := 0, mtu := 0, trafficClass := 0
    pkey := 0, rateSelector := 0, rate := 0, packetLifeTimeSelector := 0, packetLifeTime := 0
    sl := 0, flowLabel := 0, hopLimit := 0, scope := 0, joinState := 0, proxyJoin := 0 }

/-- `check_selector`, with the two bits of the component mask. -/
def checkSelector (compMask : Nat) (selectorBit valueBit selector srcValue dstValue : Nat) : Bool :=
  if ¬compMask.testBit selectorBit ∨ ¬compMask.testBit valueBit then false
  else
    match selector with
    | 0 => srcValue ≤ dstValue
    | 1 => srcValue ≥ dstValue
    | 2 => srcValue ≠ dstValue
    | _ => false

def cmpRec (src dst : McmemberRec) (compMask : Nat) : Int :=
  if compMask.testBit 1 ∧ src.portGid ≠ dst.portGid then -22
  else if compMask.testBit 2 ∧ src.qkey ≠ dst.qkey then -22
  else if compMask.testBit 3 ∧ src.mlid ≠ dst.mlid then -22
  else if checkSelector compMask 4 5 dst.mtuSelector src.mtu dst.mtu then -22
  else if compMask.testBit 6 ∧ src.trafficClass ≠ dst.trafficClass then -22
  else if compMask.testBit 7 ∧ src.pkey ≠ dst.pkey then -22
  else if checkSelector compMask 8 9 dst.rateSelector src.rate dst.rate then -22
  else if checkSelector compMask 10 11 dst.packetLifeTimeSelector src.packetLifeTime
    dst.packetLifeTime then -22
  else if compMask.testBit 12 ∧ src.sl ≠ dst.sl then -22
  else if compMask.testBit 13 ∧ src.flowLabel ≠ dst.flowLabel then -22
  else if compMask.testBit 14 ∧ src.hopLimit ≠ dst.hopLimit then -22
  else if compMask.testBit 15 ∧ src.scope ≠ dst.scope then -22
  else 0

/-! ## Groups and members -/

inductive McastState where
  | joining
  | member
  | error
  deriving DecidableEq, Repr

/-- `enum mcast_group_state`. -/
inductive GroupState where
  | idle
  | busy
  | groupError
  | pkeyEvent
  deriving DecidableEq, Repr

/-- `struct mcast_member`, until its user frees it. -/
structure Member where
  mcRec : McmemberRec
  compMask : Nat
  state : McastState

/-- Where the work of a group is: nowhere; queued, or at the test of its loop; between two locks;
at a callback; or waiting for the SA. It holds the member `m` there; `requested` are the join
states asked for. -/
inductive Phase where
  | none
  | work
  | groupError
  | errorLoop
  | callback (m : Nat) (inError : Bool)
  | sendJoin (m requested : Nat)
  | joining (requested : Nat)
  | sendLeave (leaveState : Nat)
  | leaving
  deriving DecidableEq, Repr

/-- The work holds a reference to the member. -/
def Phase.holds : Phase → Nat → Bool
  | .callback m' _, m => m' = m
  | .sendJoin m' _, m => m' = m
  | _, _ => false

/-- `struct mcast_group`, with its members by their address; `live` lists those that no user
has freed. -/
structure Group where
  mcRec : McmemberRec
  pendingList : List Nat
  activeList : List Nat
  lastJoin : Option Nat
  members : Nat → Int
  refcount : Nat
  state : GroupState
  pkeyIndex : Nat
  leaveState : Nat
  retries : Nat
  mem : Nat → Option Member
  live : List Nat
  phase : Phase

def invalidPkeyIndex : Nat := 0xffff

def Group.new (mgid : Nat) : Group :=
  { mcRec := .zero mgid, pendingList := [], activeList := [], lastJoin := none
    members := fun _ => 0, refcount := 0, state := .idle, pkeyIndex := invalidPkeyIndex
    leaveState := 0, retries := 3, mem := fun _ => none, live := [], phase := .none }

/-- `a & ~b`. -/
def andNot (a b : Nat) : Nat := a ^^^ (a &&& b)

/-- The loop of `adjust_membership`, over the `NUM_JOIN_MEMBERSHIP_TYPES` counts. -/
def adjust (members : Nat → Int) (joinState : Nat) (inc : Int) (i : Nat) : Int :=
  if i < 4 ∧ joinState.testBit i then members i + inc else members i

namespace Group

variable (g : Group)

/-! ## Lists and counts -/

def listDelInit (m : Nat) : Group :=
  { g with pendingList := g.pendingList.erase m, activeList := g.activeList.erase m }

def adjustMembership (joinState : Nat) (inc : Int) : Group :=
  { g with members := adjust g.members joinState inc }

/-- The join states without members. -/
def unusedStates : Nat :=
  (List.range 4).foldl (fun leave i => if g.members i = 0 then leave ||| 1 <<< i else leave) 0

def getLeaveState : Nat := g.unusedStates &&& g.mcRec.joinState

def setMember (m : Nat) (x : Member) : Group :=
  { g with mem := Function.update g.mem m (some x) }

/-- `join_group`, for the member `x` at `m`. -/
def joinGroup (m : Nat) (x : Member) (joinState : Nat) : Group :=
  let g := g.adjustMembership joinState 1
  let g := { g with mcRec := { g.mcRec with joinState := g.mcRec.joinState ||| joinState } }
  let g := g.setMember m
    { x with state := .member, mcRec := { g.mcRec with joinState := joinState } }
  let g := g.listDelInit m
  { g with activeList := m :: g.activeList }

/-- `queue_join` of a new member, whose reference `acquire_group` has taken. -/
def queueJoin (m : Nat) (rec : McmemberRec) (compMask : Nat) : Group :=
  let g := g.setMember m { mcRec := rec, compMask, state := .joining }
  let g :=
    { g with live := m :: g.live, refcount := g.refcount + 1, pendingList := g.pendingList ++ [m] }
  if g.state = .idle then
    { g with state := .busy, refcount := g.refcount + 1, phase := .work }
  else g

/-- `ib_sa_free_multicast` of the member `x` at `m`. It waits for the work to let go of the
member. -/
def freeMulticast (m : Nat) (x : Member) : Group :=
  let g := if x.state = .member then g.adjustMembership x.mcRec.joinState (-1) else g
  let g := g.listDelInit m
  let g := { g with mem := Function.update g.mem m none, live := g.live.erase m }
  -- an idle group gives the member's reference to its work
  if g.state = .idle then { g with state := .busy, phase := .work }
  else { g with refcount := g.refcount - 1 }

/-- `mcast_groups_event`, for one group. -/
def groupsEvent (state : GroupState) : Group :=
  let g := if g.state = .idle then { g with refcount := g.refcount + 1, phase := .work } else g
  if g.state = .groupError then g else { g with state := state }

/-! ## Turns of the work -/

def workTurn : Group :=
  if g.state ≠ .busy then { g with phase := .groupError }
  else
    match g.pendingList with
    | m :: _ =>
      match g.mem m with
      | none => g
      | some x =>
        let joinState := x.mcRec.joinState
        if joinState = g.mcRec.joinState &&& joinState then
          let g :=
            if cmpRec g.mcRec x.mcRec x.compMask = 0 then g.joinGroup m x joinState
            else g.listDelInit m
          { g with phase := .callback m false }
        else { g with phase := .sendJoin m joinState }
    | [] =>
      let leave := g.getLeaveState
      if leave ≠ 0 then
        { g with
          mcRec := { g.mcRec with joinState := andNot g.mcRec.joinState leave }
          phase := .sendLeave leave }
      else { g with state := .idle, phase := .none, refcount := g.refcount - 1 }

def errorTurn : Group :=
  match g.activeList with
  | m :: _ =>
    match g.mem m with
    | none => g
    | some x =>
      let g := g.listDelInit m
      let g := g.adjustMembership x.mcRec.joinState (-1)
      let g := g.setMember m { x with state := .error }
      { g with phase := .callback m true }
  | [] => { g with mcRec := { g.mcRec with joinState := 0 }, state := .busy, phase := .work }

/-- `process_group_error`, up to its loop; `findPkey` is what `ib_find_pkey` finds. -/
def groupErrorTurn (findPkey : Option Nat) : Group :=
  if g.state = .pkeyEvent ∧ findPkey = some g.pkeyIndex then
    { g with state := .busy, phase := .work }
  else g.errorTurn

/-- The callback of `m` returns, with a value other than 0 if `ret`. A user that has freed
the member itself returns 0. -/
def callbackTurn (m : Nat) (inError ret : Bool) : Group :=
  let g := { g with phase := if inError then .errorLoop else .work }
  if ret then
    match g.mem m with
    | some x => g.freeMulticast m x
    | none => g
  else g

/-- `send_join`, and `fail_join` when it fails. -/
def sendJoinTurn (m requested : Nat) (sent : Bool) : Group :=
  let g := { g with lastJoin := some m }
  if sent then { g with phase := .joining requested }
  else { g.listDelInit m with phase := .callback m false }

/-- `send_leave`, from `mcast_work_handler`. -/
def sendLeaveTurn (leaveState : Nat) (sent : Bool) : Group :=
  { g with leaveState := leaveState, phase := if sent then .leaving else .work }

/-- What the code asks of its surroundings in a turn. -/
structure Answers where
  findPkey : Option Nat
  sent : Bool
  ret : Bool

def turn (a : Answers) : Group :=
  match g.phase with
  | .work => g.workTurn
  | .groupError => g.groupErrorTurn a.findPkey
  | .errorLoop => g.errorTurn
  | .callback m inError => g.callbackTurn m inError a.ret
  | .sendJoin m requested => g.sendJoinTurn m requested a.sent
  | .sendLeave leaveState => g.sendLeaveTurn leaveState a.sent
  | _ => g

def processJoinError : Group :=
  match g.pendingList with
  | m :: _ =>
    if g.lastJoin = some m then { g.listDelInit m with phase := .callback m false }
    else { g with phase := .work }
  | [] => { g with phase := .work }

/-- `join_handler`, as far as the group itself is concerned. -/
def joinHandler (status : Int) (rec : McmemberRec) (findPkey : Option Nat) : Group :=
  if status ≠ 0 then g.processJoinError
  else
    { g with
      pkeyIndex :=
        if g.state = .busy ∧ g.pkeyIndex = invalidPkeyIndex then findPkey.getD invalidPkeyIndex
        else g.pkeyIndex
      mcRec := rec
      phase := .work }

def leaveHandler (status : Int) (sent : Bool) : Group :=
  if status ≠ 0 ∧ 0 < g.retries ∧ sent then { g with retries := g.retries - 1 }
  else { g with phase := .work }

/-- What happens to a group. A port event is a P_Key change or an error of the group. -/
inductive Event where
  | join (m : Nat) (rec : McmemberRec) (compMask : Nat)
  | free (m : Nat)
  | portEvent (pkey : Bool)
  | turn (a : Answers)
  | joinReply (status : Int) (rec : McmemberRec) (findPkey : Option Nat)
  | leaveReply (status : Int) (sent : Bool)

/-- A new member's memory is neither that of another member nor held by the work. -/
def Fresh (m : Nat) : Prop := g.mem m = none ∧ g.phase.holds m = false

instance (m : Nat) : Decidable (g.Fresh m) := by
  unfold Fresh
  infer_instance

/-- `refcount` does not matter here: a group whose work has gone idle may still be joined before
its `release_group`. -/
def handle : Event → Group
  | .join m rec compMask => if g.Fresh m then g.queueJoin m rec compMask else g
  | .free m =>
    match g.mem m with
    | some x => g.freeMulticast m x
    | none => g
  | .portEvent pkey => g.groupsEvent (if pkey then .pkeyEvent else .groupError)
  | .turn a => g.turn a
  | .joinReply status rec findPkey =>
    match g.phase with
    | .joining _ => g.joinHandler status rec findPkey
    | _ => g
  | .leaveReply status sent => if g.phase = .leaving then g.leaveHandler status sent else g

/-- A group with the member that it was allocated for. -/
def start (mgid m : Nat) (rec : McmemberRec) (compMask : Nat) : Group :=
  (new mgid).queueJoin m rec compMask

/-- What a successful reply of the SA contains: the join states asked for, and those held. -/
def ReplyContains : Event → Prop
  | .joinReply status rec _ => status = 0 → ∀ requested, g.phase = .joining requested →
      ∀ i, (requested.testBit i = true ∨ g.mcRec.joinState.testBit i = true) →
        rec.joinState.testBit i = true
  | _ => True

end Group

end IbCore
