-- SUMMARY: The mlx4 multicast attach with every outcome of its commands.
import OfaKernel.Mlx4.PromiscSteering

/-!
# Outcomes of an attach

`mlx4_qp_attach_common` with the outcome of each firmware command and allocation. A command that
fails leaves the table as it was. All failures go to the label `out`, which for Ethernet goes on
with the steering entries.
-/

namespace Mlx4

open HashChain McgState

/-! ## Outcomes -/

inductive AttachErr where
  | einval
  | enomem
  /-- The error of a firmware command. -/
  | cmd (status : Nat)
  /-- The walk along a chain has not ended. -/
  | running
  deriving Repr, DecidableEq

/-- The outcomes of one call: whether an allocation succeeds, and the error of a command. -/
structure AttachEnv where
  /-- The mailbox of `mlx4_qp_attach_common`. -/
  mailbox : Bool
  /-- The mailbox of `find_entry`. -/
  hashMailbox : Bool
  gidHash : Option Nat
  /-- The reads of `find_entry`, in order. -/
  findRead : Nat → Option Nat
  writeMember : Option Nat
  readPrev : Option Nat
  writePrev : Option Nat
  /-- `kzalloc` of the steering entry. -/
  newEntry : Bool
  duplicate : Bool
  steerMailbox : Bool
  steerRead : Option Nat
  steerWrite : Option Nat

/-- The result of `find_entry`: the entry in the mailbox with `*prev` and `*index`, or an error
with `*index`. -/
inductive Lookup where
  | entry (mgm : Mgm) (prev index : Option Nat)
  | failed (index : Option Nat) (err : AttachErr)

/-- The loop of `find_entry`, where the read number `n` is the next one. -/
def lookupLoop (read : Nat → Option Nat) (mem : Nat → Mgm) (hash : Nat) (gid : Gid)
    (prot : Protocol) :
    Nat → Nat → Nat → Option Nat → Lookup
  | 0, _, _, _ => .failed none .running
  | fuel + 1, n, index, prev =>
    match read n with
    | some e => .failed (some index) (.cmd e)
    | none =>
      let mgm := mem index
      if mgm.count = 0 then
        if index ≠ hash then .failed (some index) .einval else .entry mgm prev (some index)
      else if mgm.gid = gid ∧ mgm.prot = prot.val then .entry mgm prev (some index)
      else if mgm.next = 0 then .entry mgm (some index) none
      else lookupLoop read mem hash gid prot fuel (n + 1) mgm.next (some index)

/-- `find_entry`; before the loop `*index` is `-1`. -/
def lookup (caps : McgCaps) (env : AttachEnv) (s : McgState) (gid : Gid)
    (prot : Protocol) : Lookup :=
  if !env.hashMailbox then .failed none .enomem
  else
    match env.gidHash with
    | some e => .failed none (.cmd e)
    | none =>
      let hash := caps.hash (gid, prot.val)
      lookupLoop env.findRead s.mem hash gid prot (caps.numAmgms + 1) 0 hash none

/-- `new_steering_entry`; on an error the entry is taken off the list again. -/
def newSteering (caps : McgCaps) (env : AttachEnv) (s : McgState) (port : Nat) (steer : SteerType)
    (index qpn : Nat) : McgState × Option AttachErr :=
  if badPort caps port then (s, some .einval)
  else if !env.newEntry then (s, some .enomem)
  else
    let t := s.steer port steer
    let dqp := isPromisc s port steer qpn
    if dqp && !env.duplicate then (s, some .enomem)
    else
      let entry := { index := index, duplicates := if dqp then [qpn] else [] }
      let added := s.setSteer port steer (t.withEntries (t.steerEntries ++ [entry]))
      if t.promiscQps = [] then (added, none)
      else if !env.steerMailbox then (s, some .enomem)
      else
        match env.steerRead with
        | some e => (s, some (.cmd e))
        | none =>
          match addPromiscQps caps qpn (s.mem index) t.promiscQps with
          | none => (s, some .enomem)
          | some mgm =>
            match env.steerWrite with
            | some e => (s, some (.cmd e))
            | none => (added.writeEntry index mgm, none)

def existingSteering (caps : McgCaps) (env : AttachEnv) (s : McgState) (port : Nat)
    (steer : SteerType)
    (index qpn : Nat) : McgState × Option AttachErr :=
  if badPort caps port then (s, some .einval)
  else if !isPromisc s port steer qpn then (s, none)
  else
    let t := s.steer port steer
    match t.steerEntries.find? (·.index = index) with
    | none => (s, some .einval)
    | some entry =>
      if entry.duplicates.contains qpn then (s, none)
      else if !env.duplicate then (s, some .enomem)
      else
        match updateEntry (· ++ [qpn]) index t.steerEntries with
        | none => (s, some .einval)
        | some es => (s.setSteer port steer (t.withEntries es), none)

/-! ## Attach -/

/-- Where `mlx4_qp_attach_common` stands at its label `out`. -/
structure AttachPoint where
  state : McgState
  newEntry : Bool
  link : Bool
  index : Option Nat
  err : Option AttachErr

/-- `mlx4_qp_attach_common` from the test for a full entry on. -/
def attachMemberTo (caps : McgCaps) (env : AttachEnv) (s : McgState) (qpn : Nat)
    (blockMcastLoopback : Bool) (prot : Protocol) (mgm : Mgm) (newEntry : Bool) (index : Nat)
    (link : Option Nat) : AttachPoint :=
  let out := fun (s : McgState) (err : Option AttachErr) =>
    { state := s, newEntry := newEntry, link := link.isSome, index := some index
      err := err : AttachPoint }
  if mgm.count = caps.numQpPerMgm then out s (some .enomem)
  else if (mgm.findQp qpn).isSome then out s none
  else
    match env.writeMember with
    | some e => out s (some (.cmd e))
    | none =>
      let s := s.writeEntry index (mgm.push (qpWord caps qpn blockMcastLoopback) prot.val)
      match link with
      | none => out s none
      | some prev =>
        match env.readPrev with
        | some e => out s (some (.cmd e))
        | none =>
          match env.writePrev with
          | some e => out s (some (.cmd e))
          | none => out (s.writeEntry prev ((s.mem prev).withNext index)) none

/-- `mlx4_qp_attach_common` up to its label `out`. -/
def attachPoint (caps : McgCaps) (env : AttachEnv) (s : McgState) (qpn : Nat) (gid : Gid)
    (blockMcastLoopback : Bool) (prot : Protocol) : AttachPoint :=
  match lookup caps env s gid prot with
  | .failed index err =>
    { state := s, newEntry := false, link := false, index := index, err := some err }
  | .entry mgm _ (some index) =>
    if mgm.count = 0 then
      attachMemberTo caps env s qpn blockMcastLoopback prot (mgm.withGid gid) true index none
    else attachMemberTo caps env s qpn blockMcastLoopback prot mgm false index none
  | .entry _ prev none =>
    let r := bitmapAlloc s.bitmap
    let s := { s with bitmap := r.1 }
    if r.2 = U32.allOnes then
      { state := s, newEntry := false, link := true, index := none, err := some .enomem }
    else
      attachMemberTo caps env s qpn blockMcastLoopback prot (Mgm.zero.withGid gid) true
        (r.2 + caps.numMgms) prev

/-- `mlx4_qp_attach_common` from its label `out` on. -/
def attachReturn (caps : McgCaps) (env : AttachEnv) (qpn : Nat) (port : Nat) (prot : Protocol)
    (steer : SteerType) (a : AttachPoint) : McgState × Option AttachErr :=
  match a.index with
  | none => (a.state, a.err)
  | some index =>
    let r :=
      if prot = .eth then
        if a.newEntry then newSteering caps env a.state port steer index qpn
        else existingSteering caps env a.state port steer index qpn
      else (a.state, a.err)
    if r.2.isSome ∧ a.link then (freeAmgm caps r.1 index, r.2) else r

/-- `mlx4_qp_attach_common`. -/
def attachWith (caps : McgCaps) (env : AttachEnv) (s : McgState) (qpn : Nat) (gid : Gid)
    (blockMcastLoopback : Bool) (prot : Protocol) (steer : SteerType) : McgState ×
    Option AttachErr :=
  if !env.mailbox then (s, some .enomem)
  else
    attachReturn caps env qpn gid.port prot steer
      (attachPoint caps env s qpn gid blockMcastLoopback prot)

def foundMembers (caps : McgCaps) (s : McgState) (gid : Gid) (prot : Protocol) : List Nat :=
  match findEntry caps s gid prot with
  | .entry mgm _ (some _) => mgm.members
  | _ => []

/-- Members, chains and bitmap are what they were. -/
structure Unchanged (caps : McgCaps) (s s' : McgState) : Prop where
  members : ∀ gid prot q, q ∈ foundMembers caps s' gid prot ↔ q ∈ foundMembers caps s gid prot
  links : ∀ b < caps.numMgms, ∀ i, Reach (fun i => (s.mem i).next) b i →
    (s'.mem i).next = (s.mem i).next
  bitmap : ∀ a, s'.bitmap.table a = s.bitmap.table a

/-- A call that succeeds has made the QP a member, and one that fails has changed nothing. -/
def Truthful (caps : McgCaps) (s : McgState) (qpn : Nat) (gid : Gid) (prot : Protocol)
    (r : McgState × Option AttachErr) : Prop :=
  match r.2 with
  | none => qpn ∈ foundMembers caps r.1 gid prot
  | some _ => Unchanged caps s r.1

end Mlx4
