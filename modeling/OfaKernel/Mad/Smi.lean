-- SUMMARY: Directed-route SMPs (`smi.c`, `handle_ib_smi`).
import Mathlib.Logic.Function.Basic

/-!
# Directed-route SMPs

A directed-route SMP carries the ports of its way and a pointer to the hop it is at. Switches move
it on by the functions of `smi.c`. A read or write outside one of the two paths makes the result
`none` here.
-/

namespace Smi

/-! ## The packet -/

/-- `u8 path[IB_SMP_MAX_PATH_HOPS]`: the entries from 64 on do not exist. -/
abbrev Path := Nat → Nat

def readPath (p : Path) (i : Nat) : Option Nat := if i < 64 then some (p i) else none

def writePath (p : Path) (i port : Nat) : Option Path :=
  if i < 64 then some (Function.update p i port) else none

/-- What directed routing reads of `struct ib_smp`; of the two LIDs, whether they are the
permissive one. -/
structure Smp where
  direction : Bool
  hopPtr : Nat
  hopCnt : Nat
  drSlidPermissive : Bool
  drDlidPermissive : Bool
  initialPath : Path
  returnPath : Path

inductive SmiAction where
  | discard
  | handle
  deriving DecidableEq, Repr

inductive SmiForwardAction where
  | local
  | send
  | forward
  deriving DecidableEq, Repr

def handleIf (b : Bool) : SmiAction := if b then .handle else .discard

namespace Smp

variable (smp : Smp)

/-- `(*hop_ptr)++`, of a `u8`. -/
def incHopPtr : Smp := { smp with hopPtr := (smp.hopPtr + 1) % 256 }

/-- `(*hop_ptr)--`, where it is not 0. -/
def decHopPtr : Smp := { smp with hopPtr := smp.hopPtr - 1 }

/-- Handle the packet if its hop on this path is the port. -/
def handleAt (path : Path) (portNum : Nat) : Option (SmiAction × Smp) :=
  (readPath path smp.hopPtr).map fun port => (handleIf (port = portNum), smp)

def handleDrSmpSend (isSwitch : Bool) (portNum : Nat) : Option (SmiAction × Smp) :=
  if 64 ≤ smp.hopCnt then some (.discard, smp)
  else if !smp.direction then
    if smp.hopCnt ≠ 0 ∧ smp.hopPtr = 0 then smp.incHopPtr.handleAt smp.initialPath portNum
    else if smp.hopPtr ≠ 0 ∧ smp.hopPtr < smp.hopCnt then
      if !isSwitch then some (.discard, smp)
      else smp.incHopPtr.handleAt smp.initialPath portNum
    else if smp.hopPtr = smp.hopCnt then
      some (handleIf (isSwitch || smp.drDlidPermissive), smp.incHopPtr)
    else some (handleIf (smp.hopPtr = smp.hopCnt + 1), smp)
  else
    if smp.hopCnt ≠ 0 ∧ smp.hopPtr = smp.hopCnt + 1 then
      smp.decHopPtr.handleAt smp.returnPath portNum
    else if 2 ≤ smp.hopPtr ∧ smp.hopPtr ≤ smp.hopCnt then
      if !isSwitch then some (.discard, smp)
      else smp.decHopPtr.handleAt smp.returnPath portNum
    else if smp.hopPtr = 1 then
      some (handleIf (isSwitch || smp.drSlidPermissive), smp.decHopPtr)
    else some (handleIf (smp.hopPtr = 0), smp)

/-! ## Receiving -/

/-- The port of arrival enters the return path. -/
def setReturn (portNum : Nat) : Option Smp :=
  (writePath smp.returnPath smp.hopPtr portNum).map fun p => { smp with returnPath := p }

def handleDrSmpRecv (isSwitch : Bool) (portNum physPortCnt : Nat) : Option (SmiAction × Smp) :=
  if 64 ≤ smp.hopCnt then some (.discard, smp)
  else if !smp.direction then
    if smp.hopCnt ≠ 0 ∧ smp.hopPtr = 0 then some (.discard, smp)
    else if smp.hopPtr ≠ 0 ∧ smp.hopPtr < smp.hopCnt then
      if !isSwitch then some (.discard, smp)
      else do
        let smp ← smp.setReturn portNum
        let next ← readPath smp.initialPath (smp.hopPtr + 1)
        some (handleIf (next ≤ physPortCnt), smp)
    else if smp.hopPtr = smp.hopCnt then do
      let smp ← if smp.hopCnt ≠ 0 then smp.setReturn portNum else some smp
      some (handleIf (isSwitch || smp.drDlidPermissive), smp)
    else some (handleIf (smp.hopPtr = smp.hopCnt + 1), smp)
  else
    if smp.hopCnt ≠ 0 ∧ smp.hopPtr = smp.hopCnt + 1 then
      smp.decHopPtr.handleAt smp.returnPath portNum
    else if 2 ≤ smp.hopPtr ∧ smp.hopPtr ≤ smp.hopCnt then
      if !isSwitch then some (.discard, smp)
      else do
        let next ← readPath smp.returnPath (smp.hopPtr - 1)
        some (handleIf (next ≤ physPortCnt), smp)
    else if smp.hopPtr = 1 then
      if smp.drSlidPermissive then some (.handle, smp.decHopPtr)
      else some (handleIf isSwitch, smp)
    else some (handleIf (smp.hopPtr = 0), smp)

def checkForwardDrSmp : SmiForwardAction :=
  if !smp.direction then
    if smp.hopPtr ≠ 0 ∧ smp.hopPtr < smp.hopCnt then .forward
    else if smp.hopPtr = smp.hopCnt then if smp.drDlidPermissive then .send else .local
    else if smp.hopPtr = smp.hopCnt + 1 then .send
    else .local
  else
    if 2 ≤ smp.hopPtr ∧ smp.hopPtr ≤ smp.hopCnt then .forward
    else if smp.hopPtr = 1 then if !smp.drSlidPermissive then .send else .local
    else .local

def getFwdPort : Option Nat :=
  if !smp.direction then readPath smp.initialPath (smp.hopPtr + 1)
  else if smp.hopPtr = 0 then none
  else readPath smp.returnPath (smp.hopPtr - 1)

/-- `smi_check_local_smp`, for a device with or without `process_mad`. -/
def checkLocalSmp (processMad : Bool) : SmiAction :=
  handleIf (processMad && !smp.direction && smp.hopPtr = smp.hopCnt + 1)

def checkLocalReturningSmp (processMad : Bool) : SmiAction :=
  handleIf (processMad && smp.direction && smp.hopPtr = 0)

end Smp

/-- What the functions read of a device. -/
structure Node where
  isSwitch : Bool
  physPortCnt : Nat
  processMad : Bool

/-- What comes of a received SMP: it is dropped, handed to the node, or forwarded by a port. -/
inductive SmiResult where
  | discard
  | handle (smp : Smp)
  | forward (portNum : Nat) (smp : Smp)

namespace Node

variable (node : Node)

/-- `handle_ib_smi`. The response that it sends is a copy of the packet. -/
def handleIbSmi (portNum : Nat) (smp : Smp) : Option SmiResult := do
  let (action, smp) ← smp.handleDrSmpRecv node.isSwitch portNum node.physPortCnt
  match action, smp.checkForwardDrSmp with
  | .discard, _ => some .discard
  | .handle, .local => some (.handle smp)
  | .handle, .send => do
      let (action, smp) ← smp.handleDrSmpSend node.isSwitch portNum
      match action, smp.checkLocalSmp node.processMad with
      | .handle, .handle => some (.handle smp)
      | _, _ => some .discard
  | .handle, .forward =>
    if node.isSwitch then smp.getFwdPort.map fun port => .forward port smp
    else some (.handle smp)

/-- What comes of an SMP that is sent: it is refused, posted to the QP, or processed here. -/
inductive Outgoing where
  | invalid
  | post (smp : Smp)
  | process (smp : Smp)

/-- `handle_outgoing_dr_smp`, up to the choice between the QP and `process_mad`. The port is that
of the work request on a switch and that of the agent else. -/
def handleOutgoingDrSmp (portNum : Nat) (smp : Smp) : Option Outgoing := do
  let permissive := if smp.direction then smp.drDlidPermissive else smp.drSlidPermissive
  let (action, smp) ←
    if permissive then smp.handleDrSmpSend node.isSwitch portNum else some (.handle, smp)
  match action with
  | .discard => some .invalid
  | .handle =>
    if smp.checkLocalSmp node.processMad = .discard ∧
        smp.checkLocalReturningSmp node.processMad = .discard then some (.post smp)
    else some (.process smp)

end Node

end Smi
