-- SUMMARY: The resource allocators of the mlx4 SR-IOV tracker.
import OfaKernel.Lib.CInt
import OfaKernel.Lib.GuaranteePool
import OfaKernel.Lib.Run

/-!
# Resource allocators

The quotas of `resource_tracker.c`. A function of the device is a slave; the counters of a
resource are kept once, or per port for MACs and VLANs. Signed values wrap as `int` does, and the
`unsigned` reserves modulo `2 ^ 32`.
-/

open Function

namespace Mlx4

/-- `enum mlx4_resource`. -/
inductive ResType where
  | qp
  | cq
  | srq
  | xrcd
  | mpt
  | mtt
  | mac
  | vlan
  | nportId
  | counter
  | fsRule
  | eq
  deriving DecidableEq, Repr

/-- The error codes of the tracker. -/
inductive Errno where
  | einval
  | enomem
  | edquot
  | enoent
  | eperm
  | ebusy
  | eexist
  | enospc
  | eopnotsupp
  deriving DecidableEq, Repr

/-- The device and its functions: the PF and `num_vfs` VFs. `minPort` and `nPorts` are
`dev_vfs`, by slave. -/
structure SriovDev where
  numVfs : Nat
  numVfs_le : numVfs ≤ 126
  function : Nat
  function_le : function ≤ numVfs
  numPorts : Nat
  numPorts_le : numPorts ≤ 2
  minPort : Nat → Nat
  nPorts : Nat → Nat
  numQps : Nat
  reservedQps : Nat
  baseSqpn : Nat
  numCqs : Nat
  reservedCqs : Nat
  numSrqs : Nat
  reservedSrqs : Nat
  numMpts : Nat
  reservedMrws : Nat
  numMtts : Nat
  reservedMtts : Nat
  reservedMtts_lt : reservedMtts < 2 ^ 31
  maxCounters : Nat
  maxCounters_lt : maxCounters < 2 ^ 32

/-- `test_bit(j, mlx4_get_active_ports(dev, slave).ports)`. -/
def SriovDev.activePort (dev : SriovDev) (slave j : Nat) : Bool :=
  if slave = 0 then j < dev.numPorts
  else slave ≤ dev.numVfs && dev.minPort slave ≤ j + 1 &&
    j + 1 < dev.minPort slave + min (dev.nPorts slave) dev.numPorts

/-- `struct resource_allocator`. MACs and VLANs use the members of the unions that are kept
per port, the other resources the plain ones. -/
structure ResAllocator where
  resReserved : Int := 0
  resPortRsvd : Nat → Int := fun _ => 0
  resFree : Int := 0
  resPortFree : Nat → Int := fun _ => 0
  quota : Nat → Int
  allocated : Nat → Int := fun _ => 0
  guaranteed : Nat → Int

/-- Arithmetic of an `unsigned int`. -/
def uintWrap (n : Int) : Int := n % 2 ^ 32

/-! ## Granting and releasing -/

section

variable (dev : SriovDev)

/-- Where the count of a slave is kept. -/
def allocatedIndex (slave port : Nat) : Nat :=
  if 0 < port then (port - 1) * (dev.numVfs + 1) + slave else slave

namespace ResAllocator

def free (a : ResAllocator) (port : Nat) : Int :=
  if 0 < port then a.resPortFree (port - 1) else a.resFree

def reserved (a : ResAllocator) (port : Nat) : Int :=
  if 0 < port then a.resPortRsvd (port - 1) else a.resReserved

/-- `count` units go to a slave, `fromRsvd` of them out of the reserve. -/
def move (a : ResAllocator) (slave port : Nat) (count fromRsvd : Int) : ResAllocator :=
  let i := allocatedIndex dev slave port
  let a := { a with allocated := update a.allocated i (I32.wrap (a.allocated i + count)) }
  if 0 < port then
    { a with
      resPortFree := update a.resPortFree (port - 1)
        (I32.wrap (a.resPortFree (port - 1) - count))
      resPortRsvd := update a.resPortRsvd (port - 1)
        (uintWrap (a.resPortRsvd (port - 1) - fromRsvd)) }
  else
    { a with
      resFree := I32.wrap (a.resFree - count)
      resReserved := uintWrap (a.resReserved - fromRsvd) }

end ResAllocator

def grantResource (a : ResAllocator) (slave : Nat) (count : Int) (port : Nat) :
    Except Errno ResAllocator :=
  if dev.numVfs < slave then .error .einval
  else
    let allocated := a.allocated (allocatedIndex dev slave port)
    let free := a.free port
    let reserved := I32.wrap (a.reserved port)
    let guaranteed := a.guaranteed slave
    if a.quota slave < I32.wrap (allocated + count) then .error .edquot
    else if I32.wrap (allocated + count) ≤ guaranteed then .ok (a.move dev slave port count count)
    else
      let fromFree :=
        if 0 < I32.wrap (guaranteed - allocated) then
          I32.wrap (count - I32.wrap (guaranteed - allocated))
        else count
      let fromRsvd := I32.wrap (count - fromFree)
      if reserved ≤ I32.wrap (free - fromFree) then .ok (a.move dev slave port count fromRsvd)
      else .error .edquot

def releaseResource (a : ResAllocator) (slave : Nat) (count : Int) (port : Nat) : ResAllocator :=
  if dev.numVfs < slave then a
  else
    let allocated := a.allocated (allocatedIndex dev slave port)
    let guaranteed := a.guaranteed slave
    let fromRsvd :=
      if guaranteed ≤ I32.wrap (allocated - count) then 0
      else if 0 < I32.wrap (allocated - guaranteed) then
        I32.wrap (count - I32.wrap (allocated - guaranteed))
      else count
    a.move dev slave port (-count) (-fromRsvd)

/-! ## What the allocators start with -/

def initializeResQuotas (type : ResType) (vf : Nat) (numInstances : Int) (a : ResAllocator) :
    ResAllocator :=
  let guaranteed := numInstances.tdiv (2 * (dev.numVfs + 1))
  let quota := I32.wrap (numInstances.tdiv 2 + guaranteed)
  let a := { a with
    guaranteed := update a.guaranteed vf guaranteed
    quota := update a.quota vf quota }
  if vf = dev.function then
    if type = .mtt then
      { a with
        resFree := I32.wrap (numInstances + dev.reservedMtts)
        guaranteed := update a.guaranteed vf (I32.wrap (guaranteed + dev.reservedMtts))
        quota := update a.quota vf (I32.wrap (quota + dev.reservedMtts)) }
    else { a with resFree := numInstances }
  else a

/-- `mlx4_num_reserved_sqps`, on the master. -/
def numReservedSqps : Nat := dev.baseSqpn + 8 + 16 * 128

/-- What is left of a resource after what the firmware keeps. -/
def numInstances : ResType → Int
  | .qp => I32.wrap (dev.numQps - dev.reservedQps - numReservedSqps dev)
  | .cq => I32.wrap (dev.numCqs - dev.reservedCqs)
  | .srq => I32.wrap (dev.numSrqs - dev.reservedSrqs)
  | .mpt => I32.wrap (dev.numMpts - dev.reservedMrws)
  | .mtt => I32.wrap (dev.numMtts - dev.reservedMtts)
  | _ => 0

/-- `get_max_gauranteed_vfs_counter`; the operands are unsigned. -/
def getMaxGauranteedVfsCounter : Int := uintWrap (dev.maxCounters - 1 - 2 * 2) / 2

def initCounterResourceTracker (vf : Nat) (a : ResAllocator) : ResAllocator :=
  let guaranteed : Int :=
    if vf = dev.function then 2 * 2
    else if (vf : Int) ≤ getMaxGauranteedVfsCounter dev then 1 * 2
    else 0
  { a with
    quota := update a.quota vf (I32.wrap dev.maxCounters)
    guaranteed := update a.guaranteed vf guaranteed
    resReserved := uintWrap (a.resReserved + guaranteed) }

/-- `bitmap_weight(mlx4_phys_to_slaves_pport(dev, j + 1).slaves, num_ports) - 1`. -/
def currentSlaves (j : Nat) : Int :=
  uintWrap (((List.range dev.numPorts).countP fun i =>
    i ≤ dev.numVfs && dev.activePort i j : Nat) - 1)

/-- The largest number of slaves on a port; the comparison is unsigned. -/
def maxVfsPport : Int :=
  (List.range dev.numPorts).foldl (fun n j =>
    if uintWrap n < currentSlaves dev j then I32.wrap (currentSlaves dev j) else n) 0

/-- The case `RES_MAC` for the slave `t`. -/
def initMacQuotas (t : Nat) (a : ResAllocator) : ResAllocator :=
  let a := { a with guaranteed := update a.guaranteed t 2 }
  if t = dev.function then
    { a with
      quota := update a.quota t (I32.wrap (128 - I32.wrap (2 * maxVfsPport dev)))
      resPortFree := fun j => if j < 2 then 128 else a.resPortFree j }
  else { a with quota := update a.quota t 128 }

/-- The case `RES_VLAN` for the slave `t`. -/
def initVlanQuotas (t : Nat) (a : ResAllocator) : ResAllocator :=
  if t = dev.function then
    { a with
      quota := update a.quota t 128
      guaranteed := update a.guaranteed t (128 / 2)
      resPortFree := fun j => if j < 2 then 128 else a.resPortFree j }
  else
    { a with
      quota := update a.quota t (128 / 2)
      guaranteed := update a.guaranteed t 0 }

/-- The `switch` for the slave `t`. -/
def initQuotas (type : ResType) (t : Nat) (a : ResAllocator) : ResAllocator :=
  match type with
  | .qp | .cq | .srq | .mpt | .mtt => initializeResQuotas dev type t (numInstances dev type) a
  | .mac => initMacQuotas dev t a
  | .vlan => initVlanQuotas dev t a
  | .counter => initCounterResourceTracker dev t a
  | _ => a

def reserveGuaranteed (type : ResType) (t : Nat) (a : ResAllocator) : ResAllocator :=
  match type with
  | .mac | .vlan =>
    { a with
      resPortRsvd := fun j =>
        if j < dev.numPorts && dev.activePort t j then uintWrap (a.resPortRsvd j + a.guaranteed t)
        else a.resPortRsvd j }
  | .counter => a
  | _ => { a with resReserved := uintWrap (a.resReserved + a.guaranteed t) }

/-- One allocator of a device that was zeroed; `kmalloc_array` leaves quotas and guarantees
with what was in memory. -/
def initResAllocator (type : ResType) (quota guaranteed : Nat → Int) : ResAllocator :=
  (List.range (dev.numVfs + 1)).foldl
    (fun a t => reserveGuaranteed dev type t (initQuotas dev type t a))
    { quota, guaranteed,
      resFree := if type = .counter then I32.wrap (dev.maxCounters - 1) else 0 }

/-- `mlx4_init_resource_tracker`; `kalloc` says which allocators got their arrays. -/
def initResourceTracker (slaveList : Bool) (kalloc : ResType → Bool)
    (quota guaranteed : ResType → Nat → Int) : Except Errno (ResType → ResAllocator) :=
  let types : List ResType :=
    [.qp, .cq, .srq, .xrcd, .mpt, .mtt, .mac, .vlan, .nportId, .counter, .fsRule, .eq]
  if slaveList && types.all kalloc then
    .ok fun type => initResAllocator dev type (quota type) (guaranteed type)
  else .error .enomem

end

end Mlx4
