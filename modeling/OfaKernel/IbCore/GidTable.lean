-- SUMMARY: The GID table of a RoCE port (`cache.c`).
import Mathlib.Algebra.Group.Nat.Defs
import Mathlib.Logic.Function.Basic

/-!
# The GID table of a port

A slot of the table points to an entry. A deleted entry stays in its slot until the last
reference is dropped and the work that frees it has run. Valid entries are written to the
driver's own table.
-/

namespace IbCore

/-! ## Entries and the table -/

/-- `struct ib_gid_attr`, without the device and the port. -/
structure GidAttr where
  gid : Nat
  gidType : Nat
  ndev : Option Nat
  index : Nat
  deriving DecidableEq

/-- `enum gid_table_entry_state`. -/
inductive GidState where
  | invalid
  | valid
  | pendingDel
  deriving DecidableEq, Repr

/-- `struct ib_gid_table_entry`. `fromDefault` records which kind of GID it was added as. -/
structure GidEntry where
  kref : Nat
  attr : GidAttr
  ndevStorage : Option Nat
  state : GidState
  fromDefault : Bool

/-- What a port has from its driver. An index is a `u16`, and no driver has a longer table. -/
structure GidPort where
  sz : Nat
  sz_le : sz ≤ 2 ^ 16
  defaultGidIndices : Nat
  capRoceGidTable : Bool

/-- A call of the driver's `add_gid`, with what it returned, or `del_gid`. -/
inductive DriverCall where
  | addGid (attr : GidAttr) (ret : Int)
  | delGid (attr : GidAttr)

/-- `struct ib_gid_table`: the entries in memory, the frees queued on `ib_wq`, the references that
users hold, and the driver calls, newest first. -/
structure GidTable where
  dataVec : Nat → Option Nat
  entries : Nat → Option GidEntry
  workQueue : List Nat
  refs : List Nat
  calls : List DriverCall

def GidTable.init : GidTable :=
  { dataVec := fun _ => none, entries := fun _ => none, workQueue := [], refs := [], calls := [] }

def GidPort.isGidIndexDefault (port : GidPort) (index : Nat) : Bool :=
  index < 32 && port.defaultGidIndices.testBit index

/-- What `del_gid` makes of an entry: it waits for its deletion, without its net device. -/
def GidEntry.pending (e : GidEntry) : GidEntry :=
  if e.ndevStorage.isSome then
    { e with state := .pendingDel, ndevStorage := none, attr := { e.attr with ndev := none } }
  else { e with state := .pendingDel }

@[simp] theorem GidEntry.pending_state (e : GidEntry) : e.pending.state = .pendingDel := by
  unfold pending
  split <;> rfl

@[simp] theorem GidEntry.pending_index (e : GidEntry) : e.pending.attr.index = e.attr.index := by
  unfold pending
  split <;> rfl

@[simp] theorem GidEntry.pending_kref (e : GidEntry) : e.pending.kref = e.kref := by
  unfold pending
  split <;> rfl

@[simp] theorem GidEntry.pending_fromDefault (e : GidEntry) :
    e.pending.fromDefault = e.fromDefault := by
  unfold pending
  split <;> rfl

namespace GidTable

variable (port : GidPort) (T : GidTable)

/-- `table->data_vec[i]`, followed. -/
def entryAt (i : Nat) : Option GidEntry := (T.dataVec i).bind T.entries

/-- The entry of slot `i`, if it `is_gid_entry_valid`. -/
def validAt (i : Nat) : Option GidEntry := (T.entryAt i).filter fun e => e.state = .valid

def freeGidEntryLocked (p : Nat) : GidTable :=
  match T.entries p with
  | none => T
  | some e =>
    { T with
      dataVec :=
        if T.dataVec e.attr.index = some p then Function.update T.dataVec e.attr.index none
        else T.dataVec
      entries := Function.update T.entries p none }

def freeGidWork (p : Nat) : GidTable :=
  { T with workQueue := T.workQueue.erase p }.freeGidEntryLocked p

/-- `get_gid_entry`, for a user. -/
def getGidEntry (p : Nat) : GidTable :=
  match T.entries p with
  | none => T
  | some e =>
    { T with
      entries := Function.update T.entries p (some { e with kref := e.kref + 1 })
      refs := p :: T.refs }

def putGidEntry (p : Nat) : GidTable :=
  match T.entries p with
  | none => T
  | some e =>
    { T with
      entries := Function.update T.entries p (some { e with kref := e.kref - 1 })
      workQueue := if e.kref = 1 then p :: T.workQueue else T.workQueue }

def putGidEntryLocked (p : Nat) : GidTable :=
  match T.entries p with
  | none => T
  | some e =>
    let T' :=
      { T with entries := Function.update T.entries p (some { e with kref := e.kref - 1 }) }
    if e.kref = 1 then T'.freeGidEntryLocked p else T'

/-! ## Adding and deleting -/

def delGid (ix : Nat) : GidTable :=
  match T.dataVec ix with
  | none => T
  | some p =>
    match T.entries p with
    | none => T
    | some e =>
      let e := e.pending
      let T := { T with entries := Function.update T.entries p (some e) }
      let T := if port.capRoceGidTable then { T with calls := .delGid e.attr :: T.calls } else T
      T.putGidEntryLocked p

/-- What the world answers to an addition: the memory of `kzalloc`, if there is any,
and what the driver returns. -/
structure AddOutcome where
  alloc : Option Nat
  driverRet : Int

def allocGidEntry (attr : GidAttr) (fromDefault : Bool) : GidEntry :=
  { kref := 1, attr := attr, ndevStorage := attr.ndev, state := .invalid,
    fromDefault := fromDefault }

/-- `add_roce_gid`: what it returns, and the call it makes. -/
def addRoceGid (attr : GidAttr) (driverRet : Int) : Int × List DriverCall :=
  if attr.ndev = none then (-22, [])
  else if port.capRoceGidTable then (driverRet, [.addGid attr driverRet])
  else (0, [])

def storeGidEntry (p : Nat) (e : GidEntry) : GidTable :=
  { T with
    entries := Function.update T.entries p (some { e with state := .valid })
    dataVec := Function.update T.dataVec e.attr.index (some p) }

def addModifyGid (attr : GidAttr) (fromDefault : Bool) (o : AddOutcome) : GidTable × Int :=
  let T := if (T.validAt attr.index).isSome then T.delGid port attr.index else T
  if attr.gid = 0 then (T, 0)
  else
    match o.alloc.filter fun p => (T.entries p).isNone with
    | none => (T, -12)
    | some p =>
      let e := allocGidEntry attr fromDefault
      let (ret, calls) := addRoceGid port attr o.driverRet
      let T := { T with entries := Function.update T.entries p (some e), calls := calls ++ T.calls }
      if ret ≠ 0 then (T.putGidEntry p, ret) else (T.storeGidEntry p e, 0)

/-- `enum gid_attr_find_mask`, as a set. -/
structure FindMask where
  gid : Bool
  netdev : Bool
  default : Bool
  gidType : Bool

/-- The tests of `find_gid` on a slot. -/
def matchesAt (gid gidType : Nat) (ndev : Option Nat) (defaultGid : Bool) (mask : FindMask)
    (i : Nat) : Bool :=
  (T.validAt i).any fun e =>
    (!mask.gidType || e.attr.gidType = gidType) && (!mask.gid || gid = e.attr.gid) &&
      (!mask.netdev || e.attr.ndev = ndev) &&
      (!mask.default || port.isGidIndexDefault i = defaultGid)

/-- The loop of `find_gid`: `n` slots are left, from `i` on. -/
def findGidFrom (gid gidType : Nat) (ndev : Option Nat) (defaultGid : Bool) (mask : FindMask)
    (pempty : Bool) : Nat → Nat → Option Nat → Option Nat → Option Nat × Option Nat
  | 0, _, found, empty => (found, empty)
  | n + 1, i, found, empty =>
    if found.isSome ∧ (¬pempty ∨ empty.isSome) then (found, empty)
    else
      let empty :=
        if pempty ∧ empty = none ∧ T.dataVec i = none ∧ defaultGid = port.isGidIndexDefault i then
          some i
        else empty
      let found :=
        if found = none ∧ T.matchesAt port gid gidType ndev defaultGid mask i then some i else found
      findGidFrom gid gidType ndev defaultGid mask pempty n (i + 1) found empty

/-- `find_gid`: the slot found, and the free one for `pempty`. -/
def findGid (gid gidType : Nat) (ndev : Option Nat) (defaultGid : Bool) (mask : FindMask)
    (pempty : Bool) : Option Nat × Option Nat :=
  T.findGidFrom port gid gidType ndev defaultGid mask pempty port.sz 0 none none

def ibCacheGidAddMasked (gid gidType : Nat) (ndev : Option Nat) (mask : FindMask)
    (defaultGid : Bool)
    (o : AddOutcome) : GidTable × Int :=
  if gid = 0 then (T, -22)
  else
    match T.findGid port gid gidType ndev defaultGid mask true with
    | (some _, _) => (T, 0)
    | (none, none) => (T, -28)
    | (none, some empty) =>
      T.addModifyGid port { gid, gidType, ndev, index := empty % 2 ^ 16 } defaultGid o

/-- `ib_cache_gid_add`: `idev` is what `get_netdev` gives, with its default GID. -/
def ibCacheGidAdd (gid gidType : Nat) (ndev : Option Nat) (idev : Option (Nat × Nat))
    (o : AddOutcome) : GidTable × Int :=
  if idev.any fun d => ndev ≠ some d.1 && gid = d.2 then (T, -1)
  else
    T.ibCacheGidAddMasked port gid gidType ndev
      { gid := true, gidType := true, netdev := true, default := false } false o

def ibCacheGidDelMasked (gid gidType : Nat) (ndev : Option Nat) (mask : FindMask)
    (defaultGid : Bool) : GidTable × Int :=
  match (T.findGid port gid gidType ndev defaultGid mask false).1 with
  | none => (T, -22)
  | some ix => (T.delGid port ix, 0)

def ibCacheGidDel (gid gidType : Nat) (ndev : Option Nat) : GidTable × Int :=
  T.ibCacheGidDelMasked port gid gidType ndev
    { gid := true, gidType := true, default := true, netdev := true } false

def ibCacheGidDelAllNetdevGids (ndev : Option Nat) : GidTable :=
  (List.range port.sz).foldl (fun T ix =>
    if (T.validAt ix).any fun e => e.attr.ndev = ndev then T.delGid port ix else T) T

/-- The two GID types, `IB_GID_TYPE_ROCE` and `IB_GID_TYPE_ROCE_UDP_ENCAP`. -/
def gidTypes : List Nat := [0, 1]

/-- `ib_cache_gid_set_default_gid` with `IB_CACHE_GID_DEFAULT_MODE_SET`; `gid` is what
`make_default_gid` gives. -/
def ibCacheGidSetDefaultGid (gid ndev gidTypeMask : Nat) (o : Nat → AddOutcome) : GidTable :=
  gidTypes.foldl (fun T gidType =>
    if gidTypeMask.testBit gidType then
      (T.ibCacheGidAddMasked port gid gidType (some ndev)
        { gidType := true, default := true, netdev := true, gid := false } true (o gidType)).1
    else T) T

/-- `ib_cache_gid_set_default_gid` with `IB_CACHE_GID_DEFAULT_MODE_DELETE`. -/
def ibCacheGidDeleteDefaultGid (ndev gidTypeMask : Nat) : GidTable :=
  gidTypes.foldl (fun T gidType =>
    if gidTypeMask.testBit gidType then
      (T.ibCacheGidDelMasked port 0 gidType (some ndev)
        { gidType := true, default := true, netdev := true, gid := false } true).1
    else T) T

/-! ## Lookups -/

/-- `rdma_find_gid_by_port`, and `rdma_find_gid` on one of the ports. -/
def rdmaFindGidByPort (gid gidType : Nat) (ndev : Option Nat) : GidTable :=
  match (T.findGid port gid gidType ndev false
      { gid := true, gidType := true, netdev := ndev.isSome, default := false } false).1 with
  | none => T
  | some ix => (T.dataVec ix).elim T T.getGidEntry

def rdmaFindGidByFilter (gid : Nat) (filter : GidAttr → Bool) : GidTable :=
  match (List.range port.sz).find? fun i =>
      (T.validAt i).any fun e => gid = e.attr.gid && filter e.attr with
  | none => T
  | some ix => (T.dataVec ix).elim T T.getGidEntry

def rdmaGetGidAttr (index : Nat) : GidTable :=
  if index < port.sz ∧ (T.validAt index).isSome then (T.dataVec index).elim T T.getGidEntry else T

/-- `rdma_hold_gid_attr`, by a user that holds a reference. -/
def rdmaHoldGidAttr (p : Nat) : GidTable := if p ∈ T.refs then T.getGidEntry p else T

def rdmaPutGidAttr (p : Nat) : GidTable :=
  if p ∈ T.refs then { T with refs := T.refs.erase p }.putGidEntry p else T

/-- What happens to the table. -/
inductive Event where
  | add (gid gidType : Nat) (ndev : Option Nat) (idev : Option (Nat × Nat)) (o : AddOutcome)
  | del (gid gidType : Nat) (ndev : Option Nat)
  | delAllNetdev (ndev : Option Nat)
  | setDefault (gid ndev gidTypeMask : Nat) (o : Nat → AddOutcome)
  | deleteDefault (ndev gidTypeMask : Nat)
  | findByPort (gid gidType : Nat) (ndev : Option Nat)
  | findByFilter (gid : Nat) (filter : GidAttr → Bool)
  | getAttr (index : Nat)
  | hold (p : Nat)
  | put (p : Nat)
  | freeWork (p : Nat)

def step : Event → GidTable
  | .add gid gidType ndev idev o => (T.ibCacheGidAdd port gid gidType ndev idev o).1
  | .del gid gidType ndev => (T.ibCacheGidDel port gid gidType ndev).1
  | .delAllNetdev ndev => T.ibCacheGidDelAllNetdevGids port ndev
  | .setDefault gid ndev gidTypeMask o => T.ibCacheGidSetDefaultGid port gid ndev gidTypeMask o
  | .deleteDefault ndev gidTypeMask => T.ibCacheGidDeleteDefaultGid port ndev gidTypeMask
  | .findByPort gid gidType ndev => T.rdmaFindGidByPort port gid gidType ndev
  | .findByFilter gid filter => T.rdmaFindGidByFilter port gid filter
  | .getAttr index => T.rdmaGetGidAttr port index
  | .hold p => T.rdmaHoldGidAttr p
  | .put p => T.rdmaPutGidAttr p
  | .freeWork p => if p ∈ T.workQueue then T.freeGidWork p else T

/-- The driver's table after its calls. -/
def hwEntry : List DriverCall → Nat → Option GidAttr
  | [], _ => none
  | .addGid attr ret :: rest, i => if attr.index = i ∧ ret = 0 then some attr else hwEntry rest i
  | .delGid attr :: rest, i => if attr.index = i then none else hwEntry rest i

/-- The driver adds to an empty index and deletes from one that is not. -/
def Alternate : List DriverCall → Prop
  | [] => True
  | .addGid attr _ :: rest => hwEntry rest attr.index = none ∧ Alternate rest
  | .delGid attr :: rest => (hwEntry rest attr.index).isSome ∧ Alternate rest

end GidTable

end IbCore
