-- SUMMARY: The mlx4 QP numbers (`qp.c`).
import OfaKernel.Mlx4.ZoneAlloc

/-!
# The mlx4 QP number table

The range functions of `qp.c`, over the capabilities as `mlx4_QUERY_DEV_CAP` and `mlx4_dev_cap`
fill them. The `int` sums of `mlx4_init_qp_table` do not overflow (`reserved_lt`).
-/

namespace Mlx4

/-! ## Capabilities -/

inductive QpRegion where
  | fw
  | rssRawEth
  | ethAddr
  | fcAddr
  | fcExch

/-- A device that is not a slave, as far as its QP table depends on it: fields of
`QUERY_DEV_CAP`, module parameters and port limits. -/
structure QpDev where
  rsvdQp : Nat
  highRateQpnBase : Nat
  highRateQpnRange : Nat
  /-- `MLX4_DEV_CAP_FLAG2_FS_EN`. -/
  fsEn : Bool
  /-- The steering mode chosen at start is `MLX4_STEERING_DMFS_A0_DISABLE`. -/
  a0Disable : Bool
  logNumMacs : Nat
  logNumVlans : Nat
  numPorts : Nat
  logNumQps : Nat
  isMaster : Bool
  logNumMacs_le : logNumMacs ≤ 7
  logNumVlans_le : logNumVlans ≤ 7
  numPorts_le : numPorts ≤ 2
  logNumQps_le : logNumQps ≤ 30

namespace QpDev

def mgmQpnMask : Nat := 0xffffff

def a0SteeringTableSize : Nat := 256

def numQps (dev : QpDev) : Nat := 2 ^ dev.logNumQps

def reservedQps (dev : QpDev) : Nat := 1 <<< (dev.rsvdQp &&& 0xf)

/-- The device has an A0 steering table: `mlx4_dev_cap` takes its range. -/
def hasA0 (dev : QpDev) : Bool :=
  decide (0 < dev.highRateQpnRange &&& mgmQpnMask) && dev.fsEn

def dmfsHighRateQpnBase (dev : QpDev) : Nat :=
  if dev.hasA0 && !dev.a0Disable && decide (0 < dev.highRateQpnBase &&& mgmQpnMask) then
    dev.highRateQpnBase &&& mgmQpnMask
  else dev.reservedQps

def dmfsHighRateQpnRange (dev : QpDev) : Nat :=
  if dev.hasA0 && !dev.a0Disable then dev.highRateQpnRange &&& mgmQpnMask else a0SteeringTableSize

/-- `dev->caps.reserved_qps_cnt`. The RSS and RAW_ETH count keeps the range of
the device when the A0 table is disabled later. -/
def reservedQpsCnt (dev : QpDev) : QpRegion → Nat
  | .fw => dev.reservedQps
  | .rssRawEth =>
    if dev.hasA0 then dev.highRateQpnRange &&& mgmQpnMask else a0SteeringTableSize
  | .ethAddr | .fcAddr => 2 ^ dev.logNumMacs * 2 ^ dev.logNumVlans * dev.numPorts
  | .fcExch => 64 * 1024

def maxTableOffset (dev : QpDev) : Nat :=
  U32.wrap (dev.dmfsHighRateQpnBase + dev.dmfsHighRateQpnRange)

def fixedReservedFromBot (dev : QpDev) : Nat :=
  let fixed := dev.reservedQpsCnt .fw + dev.reservedQpsCnt .rssRawEth
  if fixed < dev.maxTableOffset then dev.maxTableOffset else fixed

def bottomReservedForRss (dev : QpDev) : Nat := roundupPowOfTwo (dev.fixedReservedFromBot + 1)

def baseSqpn (dev : QpDev) : Nat := alignUp dev.bottomReservedForRss 8

def numReservedSqps (dev : QpDev) : Nat := dev.baseSqpn + 8 + 16 * 128 * dev.isMaster.toNat

/-- `reserved_from_top`; the order in which the regions are sorted does not matter to it. -/
def reservedFromTop (dev : QpDev) : Nat :=
  dev.reservedQpsCnt .ethAddr + dev.reservedQpsCnt .fcAddr + dev.reservedQpsCnt .fcExch

def isQpReserved (dev : QpDev) (qpn : Nat) : Bool :=
  (decide (qpn < dev.baseSqpn + 8 + 16 * 128 * dev.isMaster.toNat) &&
      decide (dev.baseSqpn ≤ qpn)) ||
    decide (qpn < dev.reservedQpsCnt .fw)

end QpDev

/-! ## The zones -/

def bfQpSkipMask : Nat := 0xc0

/-- The `size` of `mlx4_create_zones` for the RAW_ETH zone. The loop over the
zones after RSS has one round, so `last_offset` is not kept. -/
def rawEthSize (maxTableOffset lastOffset : Nat) : Int :=
  let bfMask := 0x3f
  let requestedSize := min 256 (bfMask + 1)
  -- the `int` on the left of `>=` is converted to `unsigned long`, so a negative one is large
  if (lastOffset &&& bfQpSkipMask ≠ 0 ∧ 256 ≤ U32.sub maxTableOffset lastOffset) ∨
      (lastOffset &&& bfQpSkipMask = 0 ∧
        U32.sub (U32.wrap (lastOffset + requestedSize)) 1 &&& bfQpSkipMask = 0) then
    requestedSize
  else
    let candidateOffset := U32.wrap ((lastOffset ||| bfQpSkipMask ||| bfMask) + 1)
    let lastOffset := if lastOffset &&& bfQpSkipMask ≠ 0 then candidateOffset else lastOffset
    if maxTableOffset < lastOffset then -1
    else
      let room := bfMask - (lastOffset &&& bfMask)
      let size := min (min (U32.sub maxTableOffset lastOffset) room) requestedSize
      if size < requestedSize then
        let candidateSize := min (min (U32.sub maxTableOffset candidateOffset) room) requestedSize
        if size < candidateSize then candidateSize else size
      else size

/-- The bitmap of the RAW_ETH zone and its offset, with the RSS bitmap the zone
was carved from: `size` numbers, or an empty zone behind the RSS zone. -/
def carveRawEth (fuel : Nat) (mem : Bool) (rss : BitmapAllocator) (size : Int)
    (startOffsetRss : Nat) : Option (BitmapAllocator × BitmapAllocator × Nat) :=
  if 0 < size then
    match bitmapAllocRange fuel rss size.toNat 1 bfQpSkipMask with
    | none => none
    | some (rss, offset) =>
      if offset = U32.allOnes then none
      else
        (bitmapInit mem (roundupPowOfTwo size.toNat) (roundupPowOfTwo size.toNat - 1) 0
          (roundupPowOfTwo size.toNat - size.toNat)).map fun raw => (rss, raw, offset)
  else
    match bitmapInit mem 1 255 0 0 with
    | none => none
    | some raw =>
      (bitmapAllocRange fuel raw 1 1 0).map fun r => (rss, r.1, startOffsetRss)

/-- How `mlx4_init_qp_table` ends. -/
inductive QpInit where
  /-- A `bitmap_set` of `mlx4_bitmap_init` ran past the words of its table. -/
  | overrun
  | failed
  | ready (zones : ZoneAllocator)

def QpInit.toOption : QpInit → Option ZoneAllocator
  | .ready zones => some zones
  | _ => none

theorem QpInit.toOption_eq_some {r : QpInit} {zones : ZoneAllocator} :
    r.toOption = some zones ↔ r = .ready zones := by
  cases r <;> simp [toOption]

/-- The calls of `mlx4_zone_add_one` for GENERAL, RSS and RAW_ETH, which get the uids 0, 1
and 2 (`enum mlx4_qp_table_zones`). -/
def addZones (mem : Bool) (general rss raw : BitmapAllocator) (offset : Nat) :
    Option ZoneAllocator :=
  (zoneAddOne mem (zoneAllocatorCreate true) general
      { allowAllocFromLowerPrio := false, allowAllocFromEqPrio := false
        fallbackToHigherPrio := true, useRr := true } 0 0).bind fun z =>
  (zoneAddOne mem z.1 rss
      { allowAllocFromLowerPrio := true, allowAllocFromEqPrio := true
        fallbackToHigherPrio := false, useRr := true } 2 0).bind fun z =>
  (zoneAddOne mem z.1 raw
      { allowAllocFromLowerPrio := true, allowAllocFromEqPrio := true
        fallbackToHigherPrio := false, useRr := true } 1 offset).map fun z => z.1

/-- `mlx4_create_zones`; `mem` says that its allocations succeed. A zone points to its bitmap, so
the RSS zone is what the carve-out leaves of it. -/
def createZones (fuel : Nat) (mem : Bool) (dev : QpDev)
    (reservedBottomGeneral reservedTopGeneral reservedBottomRss startOffsetRss
      maxTableOffset : Nat) : QpInit :=
  match bitmapInit mem dev.numQps (2 ^ 23 - 1) reservedBottomGeneral reservedTopGeneral with
  | none => .failed
  | some general =>
    if general.ReservedFit reservedBottomGeneral then
      match bitmapInit mem reservedBottomRss (U32.sub reservedBottomRss 1)
          (dev.reservedQpsCnt .fw) (U32.sub reservedBottomRss startOffsetRss) with
      | none => .failed
      | some rss =>
        if rss.ReservedFit (dev.reservedQpsCnt .fw) then
          -- the RAW_ETH table reserves no bits at the bottom
          match carveRawEth fuel mem rss (rawEthSize maxTableOffset (dev.reservedQpsCnt .fw))
              startOffsetRss with
          | none => .failed
          | some (rss, raw, offset) =>
            match addZones mem general rss raw offset with
            | none => .failed
            | some zones => .ready zones
        else .overrun
    else .overrun

/-- `mlx4_init_qp_table` of a function that is not a slave; `confSpecialQp` is the
outcome of what follows the zones. -/
def initQpTable (fuel : Nat) (mem confSpecialQp : Bool) (dev : QpDev) : QpInit :=
  if dev.numQps < dev.numReservedSqps + dev.reservedFromTop then .failed
  else
    match createZones fuel mem dev dev.numReservedSqps dev.numReservedSqps
        dev.bottomReservedForRss dev.fixedReservedFromBot dev.maxTableOffset with
    | .ready zones => if confSpecialQp then .ready zones else .failed
    | fault => fault

/-- `__mlx4_qp_reserve_range`: the zones, `base` (`(u32)-1` for `-ENOMEM`) and the
uid of the zone that served the call. -/
def qpReserveRange (fuel : Nat) (zones : ZoneAllocator) (cnt align flags : Nat) :
    Option (ZoneAllocator × Nat × Nat) :=
  let bfQp := flags &&& 0x80 != 0
  if 0x40 < cnt ∧ bfQp = true then some (zones, U32.allOnes, 0)
  else
    let uid := if flags &&& 0x40 ≠ 0 then (if bfQp then 2 else 1) else 0
    zoneAllocEntries fuel zones uid cnt align (if bfQp then bfQpSkipMask else 0)

def qpReleaseRange (dev : QpDev) (zones : ZoneAllocator) (baseQpn cnt : Nat) : ZoneAllocator :=
  if dev.isQpReserved baseQpn then zones
  else (zoneFreeEntriesUnique zones baseQpn cnt).1

/-! ## Runs -/

/-- A reserved range, and the zone whose bitmap it came from. -/
structure QpRange where
  base : Nat
  cnt : Nat
  uid : Nat

structure QpState where
  zones : ZoneAllocator
  live : List QpRange

inductive QpCall where
  | reserve (fuel cnt align flags : Nat)
  | release (i : Nat)

namespace QpState

def init (zones : ZoneAllocator) : QpState := { zones := zones, live := [] }

/-- A reservation that has not returned is no step. -/
def step (dev : QpDev) (st : QpState) : QpCall → QpState
  | .reserve fuel cnt align flags =>
    match qpReserveRange fuel st.zones cnt align flags with
    | none => st
    | some (zones, base, uid) =>
      { zones := zones
        live := if base = U32.allOnes then st.live
          else { base := base, cnt := cnt, uid := uid } :: st.live }
  | .release i =>
    match st.live[i]? with
    | none => st
    | some e =>
      { zones := qpReleaseRange dev st.zones e.base e.cnt, live := st.live.eraseIdx i }

/-- A count is a non-negative `int`, and a release names a range that is reserved. -/
def Valid (st : QpState) : QpCall → Prop
  | .reserve _ cnt _ _ => cnt < 2 ^ 31
  | .release i => i < st.live.length

instance (st : QpState) : (c : QpCall) → Decidable (st.Valid c)
  | .reserve _ cnt _ _ => inferInstanceAs (Decidable (cnt < 2 ^ 31))
  | .release i => inferInstanceAs (Decidable (i < st.live.length))

/-- The numbers of a range as the driver looks them up: masked by `num_qps - 1`. -/
def maskedQpns (dev : QpDev) (e : QpRange) : List Nat :=
  (List.range e.cnt).map fun i => U32.wrap (e.base + i) &&& (dev.numQps - 1)

/-- A release finds the zone each range came from, and no masked number is reserved twice. -/
structure Owned (dev : QpDev) (st : QpState) : Prop where
  owner : ∀ e ∈ st.live, dev.isQpReserved e.base = false ∧
    (findZoneByUidUnique st.zones e.base).map (fun zone => zone.uid) = some e.uid
  once : (st.live.flatMap (maskedQpns dev)).Nodup

end QpState

/-- Setting up the QP table stays in its bitmaps, and in every run of reservations and releases
from there each range is owned. -/
def QpDev.RangesOwned (dev : QpDev) : Prop :=
  ∀ fuel mem confSpecialQp, initQpTable fuel mem confSpecialQp dev ≠ .overrun ∧
    ∀ zones, initQpTable fuel mem confSpecialQp dev = .ready zones →
      ∀ calls, Run.Steps (QpState.step dev) QpState.Valid (QpState.init zones) calls →
        ∀ st ∈ Run.states (QpState.step dev) (QpState.init zones) calls, st.Owned dev

end Mlx4
