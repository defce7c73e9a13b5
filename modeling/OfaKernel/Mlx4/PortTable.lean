-- SUMMARY: The MAC and VLAN tables of the mlx4 ports (`port.c`).
import Mathlib.Data.Fintype.Card
import OfaKernel.Lib.CInt
import OfaKernel.Lib.Run

/-!
# The MAC and VLAN tables of a port

The register and unregister functions of `port.c`. Each port has a table of 128 slots for either
kind of address. With multi-function bonding a new address is also written to the same slot of
the other port, as a duplicate.
-/

open Function

namespace Mlx4

inductive Port where
  | one
  | two
  deriving DecidableEq, Repr

namespace Port

def num : Port → Nat
  | one => 1
  | two => 2

/-- `dup_port = (port == 1) ? 2 : 1`. -/
def dup : Port → Port
  | one => two
  | two => one

@[simp] theorem dup_ne (p : Port) : p.dup ≠ p := by cases p <;> decide
@[simp] theorem ne_dup (p : Port) : p ≠ p.dup := p.dup_ne.symm

theorem eq_or_eq_dup (p q : Port) : q = p ∨ q = p.dup := by
  cases p <;> cases q <;> simp [dup]

end Port

/-- The slots of a table, `MLX4_MAX_MAC_NUM` and `MLX4_MAX_VLAN_NUM`. -/
abbrev Slot := Fin 128

/-- `struct mlx4_mac_table` and `struct mlx4_vlan_table`. -/
structure AddrTable where
  entries : Slot → Nat
  refs : Slot → Int
  isDup : Slot → Bool
  total : Int
  max : Int

/-- What the functions read of the device. Both capabilities are at most 7, the
bound of the module parameter `log_num_mac` and of `MLX4_LOG_NUM_VLANS`. -/
structure PortDev where
  isMfunc : Bool
  isBonded : Bool
  numEthPorts : Nat
  numPorts : Nat
  logNumMacs : Nat
  logNumVlans : Nat
  logNumMacs_le : logNumMacs ≤ 7
  logNumVlans_le : logNumVlans ≤ 7

namespace PortDev

def isMfBonded (dev : PortDev) : Bool := dev.isBonded && dev.isMfunc

def needMfBond (dev : PortDev) : Bool := dev.isMfunc && dev.numEthPorts == 2

end PortDev

def initTable (max : Int) : AddrTable :=
  { entries := fun _ => 0, refs := fun _ => 0, isDup := fun _ => false, total := 0, max := max }

def initMacTable (dev : PortDev) : AddrTable := initTable (1 <<< dev.logNumMacs)

/-- `mlx4_init_vlan_table`. The first `MLX4_VLAN_REGULAR` slots are not counted. -/
def initVlanTable (dev : PortDev) : AddrTable := initTable ((1 <<< dev.logNumVlans) - 2)

abbrev Tables := Port → AddrTable

def macMask (mac : Nat) : Nat := mac &&& 0xffffffffffff

def macEntry (mac : Nat) : Nat := mac ||| 1 <<< 63

def vlanMask (entry : Nat) : Nat := entry &&& 0xfff

def vlanEntry (vlan : Nat) : Nat := vlan ||| 1 <<< 31

/-- Whether slot `i` holds the MAC, whatever its reference count. -/
def holdsMac (t : AddrTable) (mac : Nat) (i : Slot) : Bool := macMask mac = macMask (t.entries i)

/-- Whether slot `i` holds the VLAN. The special slots below `MLX4_VLAN_REGULAR` are left out. -/
def holdsVlan (t : AddrTable) (vlan : Nat) (i : Slot) : Bool :=
  2 ≤ i.val && vlan = vlanMask (t.entries i)

/-! ## The slot search -/

/-- The checks under `need_mf_bond` before the search. `atPort` and `atDup` say where the two
tables hold the address; `keeps` is the comparison that lets a slot be used that has references on
this port. -/
def bondCheck (atPort atDup keeps : Slot → Bool) (table dupTable : AddrTable) :
    Bool × Option Slot :=
  let indexAtPort := Fin.findRev? atPort
  let indexAtDupPort := Fin.findRev? atDup
  -- the address must not be in the tables at different indices
  let split := indexAtPort ≠ indexAtDupPort ∧ indexAtPort.isSome ∧ indexAtDupPort.isSome
  let occupied := indexAtDupPort.isNone ∧ ∃ i ∈ indexAtPort, dupTable.refs i ≠ 0
  let canMfBond := decide (¬split ∧ ¬occupied)
  match indexAtDupPort with
  | some i => if table.refs i = 0 ∨ keeps i then (canMfBond, some i) else (false, none)
  | none => (canMfBond, none)

/-- `free` and `dup` behind the search loop: the slot for a new address and
whether it is duplicated. `regular` marks the slots of the loop. -/
def newSlot (dev : PortDev) (regular : Slot → Bool) (bond : Bool × Option Slot)
    (table dupTable : AddrTable) : Option Slot × Bool :=
  let free := Fin.find? fun i => regular i && table.refs i = 0
  let common := Fin.find? fun i => regular i && table.refs i = 0 && dupTable.refs i = 0
  let canMfBond := !dev.needMfBond || bond.1
  let freeForDup :=
    if dev.needMfBond then bond.2.or (if canMfBond then common else none) else none
  if dev.needMfBond && freeForDup.isNone then
    -- no slot for the duplicate: the address goes to this port alone
    (free, false)
  else if dev.needMfBond && canMfBond then (freeForDup, dev.isMfBonded)
  else (free, dev.isMfBonded)

/-- The slot `__mlx4_register_mac` takes for a MAC that is not registered. -/
def macSlot (dev : PortDev) (table dupTable : AddrTable) (mac : Nat) : Option Slot × Bool :=
  newSlot dev (fun _ => true)
    (bondCheck (holdsMac table mac) (holdsMac dupTable mac) (holdsMac table mac) table dupTable)
    table dupTable

/-- The slot `__mlx4_register_vlan` takes. Its last comparison reads the other
port's table where the one for MACs reads this port's. -/
def vlanSlot (dev : PortDev) (table dupTable : AddrTable) (vlan : Nat) : Option Slot × Bool :=
  newSlot dev (fun i => 2 ≤ i.val)
    (bondCheck (holdsVlan table vlan) (holdsVlan dupTable vlan) (holdsVlan dupTable vlan)
      table dupTable)
    table dupTable

/-! ## Register and unregister -/

namespace AddrTable

def setEntry (t : AddrTable) (i : Slot) (e : Nat) : AddrTable :=
  { t with entries := update t.entries i e }

def setRefs (t : AddrTable) (i : Slot) (n : Int) : AddrTable :=
  { t with refs := update t.refs i n }

def setDup (t : AddrTable) (i : Slot) (b : Bool) : AddrTable :=
  { t with isDup := update t.isDup i b }

def incTotal (t : AddrTable) : AddrTable := { t with total := I32.wrap (t.total + 1) }

def decTotal (t : AddrTable) : AddrTable := { t with total := I32.wrap (t.total - 1) }

end AddrTable

/-- The common end of the two register functions. `err` and `errDup` are the results of the two
firmware commands; `failed` is the table left behind when the first one fails. -/
def writeSlot (err errDup : Int) (port : Port) (entry : Nat) (free : Slot) (dup : Bool)
    (failed : AddrTable) (s : Tables) : Except Int Slot × Tables :=
  if err ≠ 0 then (.error err, update s port failed)
  else
    let table := (((s port).setEntry free entry).setRefs free 1).setDup free false
    let s := update s port table.incTotal
    if dup then
      let dupTable := (s port.dup).setRefs free 0
      if errDup ≠ 0 then
        (.error errDup, update s port.dup ((dupTable.setDup free false).setEntry free 0))
      else
        (.ok free,
          update s port.dup ((dupTable.setDup free true).setEntry free entry).incTotal)
    else (.ok free, s)

def findIndex (t : AddrTable) (mac : Nat) : Option Slot :=
  Fin.find? fun i => t.refs i ≠ 0 && holdsMac t mac i

/-- `__mlx4_register_mac`. When no slot is left the source writes in front of the arrays;
`macSlot_isSome` says that an accounted table has one. -/
@[irreducible] def registerMac (dev : PortDev) (err errDup : Int) (port : Port) (mac : Nat)
    (s : Tables) :
    Except Int Slot × Tables :=
  match findIndex (s port) mac with
  | some i =>
    (.ok i, update s port ((s port).setRefs i (I32.wrap ((s port).refs i + 1))))
  | none =>
    if (s port).total = (s port).max then (.error (-28), s)
    else
      match macSlot dev (s port) (s port.dup) mac with
      | (none, _) => (.error (-1), s)
      | (some free, dup) =>
        writeSlot err errDup port (macEntry mac) free dup ((s port).setEntry free 0) s

/-- `__mlx4_unregister_mac`. Its firmware errors are only logged. -/
@[irreducible] def unregisterMac (dev : PortDev) (port : Port) (mac : Nat) (s : Tables) : Tables :=
  if dev.numPorts < port.num then s
  else
    match findIndex (s port) mac with
    | none => s
    | some i =>
      -- `validate_index`
      if (s port).max ≤ i.val ∨ (s port).entries i = 0 then s
      else
        let table := (s port).setRefs i (I32.wrap ((s port).refs i - 1))
        if table.refs i ≠ 0 ∨ table.isDup i then
          let s := update s port table
          if table.refs i = 0 then update s port.dup ((s port.dup).setDup i false) else s
        else
          let table := (table.setEntry i 0).decTotal
          if dev.isMfBonded then
            let dupTable := (s port.dup).setDup i false
            if dupTable.refs i ≠ 0 then
              update (update s port table) port.dup dupTable
            else
              -- the source decrements `table->total` here, not `dup_table->total`
              update (update s port table.decTotal) port.dup
                (dupTable.setEntry i 0)
          else update s port table

/-- The slot where `__mlx4_register_vlan` finds the VLAN registered. -/
def findVlan (t : AddrTable) (vlan : Nat) : Option Slot :=
  Fin.find? fun i => (t.refs i ≠ 0 || t.isDup i) && holdsVlan t vlan i

/-- `__mlx4_register_vlan`; the slot is the value of `*index`. -/
@[irreducible] def registerVlan (dev : PortDev) (err errDup : Int) (port : Port) (vlan : Nat)
    (s : Tables) :
    Except Int Slot × Tables :=
  if (s port).total = (s port).max then (.error (-28), s)
  else
    match findVlan (s port) vlan with
    | some i =>
      (.ok i, update s port ((s port).setRefs i (I32.wrap ((s port).refs i + 1))))
    | none =>
      match vlanSlot dev (s port) (s port.dup) vlan with
      | (none, _) => (.error (-12), s)
      | (some free, dup) =>
        writeSlot err errDup port (vlanEntry vlan) free dup
          ((((s port).setRefs free 0).setDup free false).setEntry free 0) s

def findCachedVlan (t : AddrTable) (vid : Nat) : Option Slot :=
  Fin.find? fun i => t.refs i ≠ 0 && vid = vlanMask (t.entries i)

@[irreducible] def unregisterVlan (dev : PortDev) (port : Port) (vlan : Nat)
    (s : Tables) : Tables :=
  match findCachedVlan (s port) vlan with
  | none => s
  | some i =>
    if i.val < 2 then s
    else
      let table := (s port).setRefs i (I32.wrap ((s port).refs i - 1))
      if table.refs i ≠ 0 ∨ table.isDup i then
        let s := update s port table
        if table.refs i = 0 then update s port.dup ((s port.dup).setDup i false) else s
      else
        let table := (table.setEntry i 0).decTotal
        let s := update s port table
        if dev.isMfBonded then
          let dupTable := (s port.dup).setDup i false
          if dupTable.refs i ≠ 0 then update s port.dup dupTable
          else update s port.dup (dupTable.setEntry i 0).decTotal
        else s

end Mlx4
