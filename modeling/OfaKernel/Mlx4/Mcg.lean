-- SUMMARY: The mlx4 multicast group table (`mcg.c`).
import OfaKernel.Mlx4.BitmapAlloc

/-!
# The multicast group table

The table is a memory of entries that `READ_MCG` and `WRITE_MCG` copy: MGM entries below
`num_mgms` and AMGM entries above it. Firmware commands and the allocations of the steering
structures succeed; a call that gets no mailbox changes nothing. The device is not in the
internal error state.
-/

namespace Mlx4

/-! ## Entries -/

inductive Protocol where
  | ibIpv6
  | eth
  | ibIpv4
  | fcoe
  deriving Repr, DecidableEq

def Protocol.val : Protocol → Nat
  | .ibIpv6 => 0
  | .eth => 1
  | .ibIpv4 => 2
  | .fcoe => 3

inductive SteerType where
  | mc
  | uc
  deriving Repr, DecidableEq

abbrev Gid := Vector UInt8 16

abbrev Gid.port (gid : Gid) : Nat := gid[5].toNat

theorem neZero_qpns : NeZero (2 ^ 24) := ⟨by decide⟩

def mgmQpnMask : Nat := 0x00FFFFFF

def mgmBlckLbBit : Nat := 30

/-- `struct mlx4_mgm`, its words in host order. -/
structure Mgm where
  nextGidIndex : Nat
  membersCount : Nat
  gid : Gid
  qp : Nat → Nat

namespace Mgm

def zero : Mgm :=
  { nextGidIndex := 0, membersCount := 0, gid := Vector.replicate 16 0, qp := fun _ => 0 }

def count (m : Mgm) : Nat := m.membersCount &&& 0xffffff

def prot (m : Mgm) : Nat := m.membersCount >>> 30

def next (m : Mgm) : Nat := m.nextGidIndex >>> 6

def qpn (m : Mgm) (i : Nat) : Nat := m.qp i &&& mgmQpnMask

/-- The numbers of the QPs in the entry. -/
def members (m : Mgm) : List Nat := (List.range m.count).map m.qpn

def packCount (count prot : Nat) : Nat := count ||| prot <<< 30

/-- `cpu_to_be32(index << 6)`. -/
def withNext (m : Mgm) (index : Nat) : Mgm := { m with nextGidIndex := U32.wrap (index <<< 6) }

def withGid (m : Mgm) (gid : Gid) : Mgm := { m with gid := gid }

/-- A QP is put after the others. -/
def push (m : Mgm) (word prot : Nat) : Mgm :=
  { m with qp := Function.update m.qp m.count word, membersCount := packCount (m.count + 1) prot }

/-- The last QP is copied over the one at `loc`. -/
def pop (m : Mgm) (loc prot : Nat) : Mgm :=
  { m with
    qp := Function.update (Function.update m.qp loc (m.qp (m.count - 1))) (m.count - 1) 0
    membersCount := packCount (m.count - 1) prot }

def withNoMembers (m : Mgm) (prot : Nat) : Mgm := { m with membersCount := packCount 0 prot }

/-- The search for a QP in an entry. -/
def findQp (m : Mgm) (qpn : Nat) : Option Nat := (List.range m.count).find? fun i => m.qpn i = qpn

end Mgm

/-! ## The device -/

/-- The capabilities used. The index of an entry fits the 26 bits of `next_gid_index`, and
`num_amgms` is a power of two. -/
structure McgCaps where
  numMgms : Nat
  amgmLog : Nat
  numQpPerMgm : Nat
  numPorts : Nat
  mfunc : Bool
  vepMcSteer : Bool
  blckLb : Bool
  /-- The firmware's hash of a GID, for each operation modifier. -/
  gidHash : Bool → Gid → Nat
  gidHash_lt : ∀ opMod gid, gidHash opMod gid < numMgms
  index_lt : numMgms + 2 ^ amgmLog ≤ 2 ^ 26
  qp_pos : 0 < numQpPerMgm
  /-- `MLX4_MAX_QP_PER_MGM`. -/
  qp_le : numQpPerMgm ≤ 4 * (2 ^ 12 / 16 - 2)

namespace McgCaps

def numAmgms (caps : McgCaps) : Nat := 2 ^ caps.amgmLog

/-- `mlx4_GID_HASH`, whose result is stored in a `u16`. -/
def hash (caps : McgCaps) (key : Gid × Nat) : Nat :=
  caps.gidHash (if key.2 = Protocol.eth.val then caps.vepMcSteer else false) key.1 % 2 ^ 16

end McgCaps

structure SteerIndex where
  index : Nat
  duplicates : List Nat
  deriving Repr, DecidableEq

/-- `struct mlx4_steer` of a port, for one steering type, and the default entry that
`mlx4_WRITE_PROMISC` sets. -/
structure Steer where
  promiscQps : List Nat
  steerEntries : List SteerIndex
  defaultEntry : Mgm

def Steer.withEntries (t : Steer) (es : List SteerIndex) : Steer := { t with steerEntries := es }

structure McgState where
  mem : Nat → Mgm
  bitmap : BitmapAllocator
  steer : Nat → SteerType → Steer

namespace McgState

def writeEntry (s : McgState) (index : Nat) (m : Mgm) : McgState :=
  { s with mem := Function.update s.mem index m }

def setSteer (s : McgState) (port : Nat) (steer : SteerType) (t : Steer) : McgState :=
  { s with steer := Function.update s.steer port (Function.update (s.steer port) steer t) }

/-- `mlx4_bitmap_free(&priv->mcg_table.bitmap, index - num_mgms, MLX4_USE_RR)`, and a warning
instead for an MGM index. -/
def freeAmgm (caps : McgCaps) (s : McgState) (index : Nat) : McgState :=
  if index < caps.numMgms then s
  else { s with bitmap := bitmapFree s.bitmap (index - caps.numMgms) true }

end McgState

open McgState

inductive McgErr where
  | einval
  | enomem
  /-- The walk along a chain has not ended. -/
  | running
  deriving Repr, DecidableEq

/-- `mlx4_init_mcg_table`, with the outcome of its allocation. -/
def initMcgTable (caps : McgCaps) (kcalloc : Bool) : Option BitmapAllocator :=
  bitmapInit kcalloc caps.numAmgms (caps.numAmgms - 1) 0 0

/-- The entry in the mailbox with `*prev` and `*index`, where `none` is `-1`; an AMGM entry
without members; or a walk that goes on. -/
inductive Found where
  | entry (mgm : Mgm) (prev index : Option Nat)
  | zeroMgid (index : Nat)
  | running

/-- The loop of `find_entry`, for at most `fuel` rounds. -/
def findEntryLoop (mem : Nat → Mgm) (hash : Nat) (gid : Gid) (prot : Protocol) :
    Nat → Nat → Option Nat → Found
  | 0, _, _ => .running
  | fuel + 1, index, prev =>
    let mgm := mem index
    if mgm.count = 0 then
      if index ≠ hash then .zeroMgid index else .entry mgm prev (some index)
    else if mgm.gid = gid ∧ mgm.prot = prot.val then .entry mgm prev (some index)
    else if mgm.next = 0 then .entry mgm (some index) none
    else findEntryLoop mem hash gid prot fuel mgm.next (some index)

def findEntry (caps : McgCaps) (s : McgState) (gid : Gid) (prot : Protocol) : Found :=
  let hash := caps.hash (gid, prot.val)
  findEntryLoop s.mem hash gid prot (caps.numAmgms + 1) hash none

/-! ## Steering entries -/

def badPort (caps : McgCaps) (port : Nat) : Prop := port < 1 ∨ caps.numPorts < port

instance (caps : McgCaps) (port : Nat) : Decidable (badPort caps port) :=
  inferInstanceAs (Decidable (_ ∨ _))

/-- `get_promisc_qp`, for a good port. -/
def isPromisc (s : McgState) (port : Nat) (steer : SteerType) (qpn : Nat) : Bool :=
  (s.steer port steer).promiscQps.contains qpn

/-- The loop of `new_steering_entry` over the promiscuous QPs; `none` if the entry is full. -/
def addPromiscQps (caps : McgCaps) (qpn : Nat) : Mgm → List Nat → Option Mgm
  | mgm, [] => some mgm
  | mgm, pqp :: pqps =>
    if pqp = qpn then addPromiscQps caps qpn mgm pqps
    else if mgm.count = caps.numQpPerMgm then none
    else addPromiscQps caps qpn (mgm.push (pqp &&& mgmQpnMask) mgm.prot) pqps

def newSteeringEntry (caps : McgCaps) (s : McgState) (port : Nat) (steer : SteerType)
    (index qpn : Nat) :
    McgState × Option McgErr :=
  if badPort caps port then (s, some .einval)
  else
    let t := s.steer port steer
    let entry := { index := index, duplicates := if isPromisc s port steer qpn then [qpn] else [] }
    let added := s.setSteer port steer (t.withEntries (t.steerEntries ++ [entry]))
    if t.promiscQps = [] then (added, none)
    else
      match addPromiscQps caps qpn (s.mem index) t.promiscQps with
      | none => (s, some .enomem)
      | some mgm => (added.writeEntry index mgm, none)

/-- A change of the first entry with `index`; `none` if there is none. -/
def updateEntry (f : List Nat → List Nat) (index : Nat) : List SteerIndex → Option (List SteerIndex)
  | [] => none
  | e :: es =>
    if e.index = index then some ({ e with duplicates := f e.duplicates } :: es)
    else (updateEntry f index es).map (e :: ·)

def existingSteeringEntry (caps : McgCaps) (s : McgState) (port : Nat) (steer : SteerType)
    (index qpn : Nat) : McgState × Option McgErr :=
  if badPort caps port then (s, some .einval)
  else if !isPromisc s port steer qpn then (s, none)
  else
    let t := s.steer port steer
    match updateEntry (fun d => if d.contains qpn then d else d ++ [qpn]) index t.steerEntries with
    | none => (s, some .einval)
    | some es => (s.setSteer port steer (t.withEntries es), none)

/-- `check_duplicate_entry`, which takes the QP off the duplicates. -/
def checkDuplicateEntry (caps : McgCaps) (s : McgState) (port : Nat) (steer : SteerType)
    (index qpn : Nat) : McgState × Bool :=
  if badPort caps port then (s, false)
  else if !isPromisc s port steer qpn then (s, false)
  else
    let t := s.steer port steer
    match updateEntry (fun d => d.filter (· ≠ qpn)) index t.steerEntries with
    | none => (s, false)
    | some es => (s.setSteer port steer (t.withEntries es), true)

def promiscSteeringEntry (caps : McgCaps) (s : McgState) (port : Nat) (steer : SteerType)
    (index tqpn : Nat) : Bool :=
  if badPort caps port then false
  else (s.mem index).members.all fun qpn => isPromisc s port steer qpn || qpn = tqpn

def removeSteerEntries (index membersCount : Nat) : List SteerIndex → List SteerIndex × Bool
  | [] => ([], true)
  | e :: es =>
    if e.index = index then
      if e.duplicates = [] ∨ membersCount = 1 then removeSteerEntries index membersCount es
      else (e :: es, false)
    else
      let r := removeSteerEntries index membersCount es
      (e :: r.1, r.2)

def canRemoveSteeringEntry (caps : McgCaps) (s : McgState) (port : Nat) (steer : SteerType)
    (index tqpn : Nat) : McgState × Bool :=
  if badPort caps port then (s, false)
  else if !promiscSteeringEntry caps s port steer index tqpn then (s, false)
  else
    let t := s.steer port steer
    let r := removeSteerEntries index (s.mem index).count t.steerEntries
    (s.setSteer port steer (t.withEntries r.1), r.2)

/-! ## Attach -/

/-- Where `mlx4_qp_attach_common` stands at its label `out`. -/
structure Attached where
  state : McgState
  newEntry : Bool
  link : Bool
  index : Option Nat
  err : Option McgErr

def qpWord (caps : McgCaps) (qpn : Nat) (blockMcastLoopback : Bool) : Nat :=
  (qpn &&& mgmQpnMask) ||| (if caps.blckLb || blockMcastLoopback then 1 else 0) <<< mgmBlckLbBit

/-- `mlx4_qp_attach_common` from the test for a full entry on. -/
def attachMember (caps : McgCaps) (s : McgState) (qpn : Nat) (blockMcastLoopback : Bool)
    (prot : Protocol) (mgm : Mgm) (newEntry : Bool) (index : Nat) (link : Option Nat) : Attached :=
  let out := fun (s : McgState) (err : Option McgErr) =>
    { state := s, newEntry := newEntry, link := link.isSome, index := some index
      err := err : Attached }
  if mgm.count = caps.numQpPerMgm then out s (some .enomem)
  else if (mgm.findQp qpn).isSome then out s none
  else
    let s := s.writeEntry index (mgm.push (qpWord caps qpn blockMcastLoopback) prot.val)
    match link with
    | none => out s none
    | some prev => out (s.writeEntry prev ((s.mem prev).withNext index)) none

/-- `mlx4_qp_attach_common` up to its label `out`. -/
def attachEntry (caps : McgCaps) (s : McgState) (qpn : Nat) (gid : Gid) (blockMcastLoopback : Bool)
    (prot : Protocol) : Attached :=
  match findEntry caps s gid prot with
  | .running =>
    { state := s, newEntry := false, link := false, index := none, err := some .running }
  | .zeroMgid index =>
    { state := s, newEntry := false, link := false, index := some index, err := some .einval }
  | .entry mgm _ (some index) =>
    if mgm.count = 0 then
      attachMember caps s qpn blockMcastLoopback prot (mgm.withGid gid) true index none
    else attachMember caps s qpn blockMcastLoopback prot mgm false index none
  | .entry _ prev none =>
    let r := bitmapAlloc s.bitmap
    let s := { s with bitmap := r.1 }
    if r.2 = U32.allOnes then
      { state := s, newEntry := false, link := true, index := none, err := some .enomem }
    else
      attachMember caps s qpn blockMcastLoopback prot (Mgm.zero.withGid gid) true
        (r.2 + caps.numMgms) prev

/-- `mlx4_qp_attach_common` from its label `out` on. -/
def attachOut (caps : McgCaps) (qpn : Nat) (port : Nat) (prot : Protocol) (steer : SteerType)
    (a : Attached) : McgState × Option McgErr :=
  match a.index with
  | none => (a.state, a.err)
  | some index =>
    let r :=
      if prot = .eth then
        if a.newEntry then newSteeringEntry caps a.state port steer index qpn
        else existingSteeringEntry caps a.state port steer index qpn
      else (a.state, a.err)
    if r.2.isSome ∧ a.link then (freeAmgm caps r.1 index, r.2) else r

/-- `mlx4_qp_attach_common`; `mailboxes` tells whether it gets its mailboxes. -/
def qpAttachCommon (caps : McgCaps) (s : McgState) (mailboxes : Bool) (qpn : Nat) (gid : Gid)
    (blockMcastLoopback : Bool) (prot : Protocol) (steer : SteerType) : McgState × Option McgErr :=
  if mailboxes then
    attachOut caps qpn gid.port prot steer (attachEntry caps s qpn gid blockMcastLoopback prot)
  else (s, some .enomem)

/-- The end of `mlx4_qp_detach_common`: the entry at `index`, in the mailbox as `mgm`, goes. -/
def deleteEntry (caps : McgCaps) (s : McgState) (mgm : Mgm) (prev : Option Nat) (index : Nat) :
    McgState :=
  match prev with
  | none =>
    if mgm.next ≠ 0 then freeAmgm caps (s.writeEntry index (s.mem mgm.next)) mgm.next
    else s.writeEntry index (mgm.withGid (Vector.replicate 16 0))
  | some prev => freeAmgm caps (s.writeEntry prev ((s.mem prev).withNext mgm.next)) index

def qpDetachCommon (caps : McgCaps) (s : McgState) (mailboxes : Bool) (qpn : Nat) (gid : Gid)
    (prot : Protocol) (steer : SteerType) : McgState × Option McgErr :=
  let port := gid.port
  if !mailboxes then (s, some .enomem)
  else
    match findEntry caps s gid prot with
    | .running => (s, some .running)
    | .zeroMgid _ => (s, some .einval)
    | .entry _ _ none => (s, some .einval)
    | .entry mgm prev (some index) =>
      let r := if prot = .eth then checkDuplicateEntry caps s port steer index qpn else (s, false)
      let s := r.1
      if r.2 ∧ !promiscSteeringEntry caps s port steer index qpn then (s, none)
      else
        match mgm.findQp qpn with
        | none => (s, some .einval)
        | some loc =>
          let mgm := mgm.pop loc prot.val
          let r :=
            if prot = .eth then canRemoveSteeringEntry caps s port steer index qpn else (s, false)
          let s := r.1
          if mgm.count ≠ 0 ∧ (prot ≠ .eth ∨ !r.2) then (s.writeEntry index mgm, none)
          else (deleteEntry caps s (mgm.withNoMembers prot.val) prev index, none)

/-- The default entry with all promiscuous QPs. -/
def promiscEntry (qpns : List Nat) : Mgm :=
  qpns.foldl (fun mgm qpn => mgm.push (qpn &&& mgmQpnMask) Protocol.eth.val)
    (Mgm.zero.withNoMembers Protocol.eth.val)

/-- The loop of `add_promisc_qp` over the steering entries. -/
def addToEntries (caps : McgCaps) (qpn : Nat) :
    (Nat → Mgm) → List SteerIndex → (Nat → Mgm) × List SteerIndex × Option McgErr
  | mem, [] => (mem, [], none)
  | mem, e :: es =>
    let mgm := mem e.index
    let hits := mgm.members.filter (· = qpn)
    let e := { e with duplicates := e.duplicates ++ hits }
    if hits ≠ [] then
      let r := addToEntries caps qpn mem es
      (r.1, e :: r.2.1, r.2.2)
    else if mgm.count = caps.numQpPerMgm then (mem, e :: es, some .enomem)
    else
      let mem := Function.update mem e.index (mgm.push (qpn &&& mgmQpnMask) mgm.prot)
      let r := addToEntries caps qpn mem es
      (r.1, e :: r.2.1, r.2.2)

def addPromiscQp (caps : McgCaps) (s : McgState) (port : Nat) (steer : SteerType) (qpn : Nat) :
    McgState × Option McgErr :=
  if badPort caps port then (s, some .einval)
  else if isPromisc s port steer qpn then (s, none)
  else
    let t := s.steer port steer
    let r :=
      if caps.mfunc ∧ steer = .uc then (s.mem, t.steerEntries, none)
      else addToEntries caps qpn s.mem t.steerEntries
    let s := { s with mem := r.1 }
    let t := t.withEntries r.2.1
    match r.2.2 with
    | some err => (s.setSteer port steer t, some err)
    | none =>
      let qpns := t.promiscQps ++ [qpn]
      if caps.numQpPerMgm < qpns.length then (s.setSteer port steer t, some .enomem)
      else
        (s.setSteer port steer { t with promiscQps := qpns, defaultEntry := promiscEntry qpns },
          none)

/-- The loop of `remove_promisc_qp` over the steering entries. -/
def removeFromEntries (qpn : Nat) :
    (Nat → Mgm) → List SteerIndex → (Nat → Mgm) × List SteerIndex × Option McgErr
  | mem, [] => (mem, [], none)
  | mem, e :: es =>
    if e.duplicates.contains qpn then
      let r := removeFromEntries qpn mem es
      (r.1, { e with duplicates := e.duplicates.erase qpn } :: r.2.1, r.2.2)
    else
      let mgm := mem e.index
      if mgm.count = 0 then removeFromEntries qpn mem es
      else
        match mgm.findQp qpn with
        | none => (mem, e :: es, some .einval)
        | some loc =>
          let mem := Function.update mem e.index (mgm.pop loc Protocol.eth.val)
          let r := removeFromEntries qpn mem es
          (r.1, e :: r.2.1, r.2.2)

def removePromiscQp (caps : McgCaps) (s : McgState) (port : Nat) (steer : SteerType) (qpn : Nat) :
    McgState × Option McgErr :=
  if badPort caps port then (s, some .einval)
  else if !isPromisc s port steer qpn then (s, none)
  else
    let t := s.steer port steer
    let qpns := t.promiscQps.erase qpn
    let r :=
      if caps.mfunc ∧ steer = .uc then (s.mem, t.steerEntries, none)
      else removeFromEntries qpn s.mem t.steerEntries
    ({ s with mem := r.1 }.setSteer port steer
      { promiscQps := qpns, steerEntries := r.2.1, defaultEntry := promiscEntry qpns }, r.2.2)

end Mlx4
