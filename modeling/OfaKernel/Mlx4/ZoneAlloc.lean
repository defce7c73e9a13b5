-- SUMMARY: The mlx4 zone allocator (`alloc.c`).
import OfaKernel.Mlx4.BitmapAccounting

/-!
# The mlx4 zone allocator

A zone is a bitmap at an offset. An allocator made with `MLX4_ZONE_ALLOC_FLAGS_NO_OVERLAP` does
not record which zone a number came from: it looks for the smallest zone whose window holds it.
-/

open List

namespace Mlx4

structure ZoneFlags where
  allowAllocFromLowerPrio : Bool
  allowAllocFromEqPrio : Bool
  fallbackToHigherPrio : Bool
  useRr : Bool

/-- `struct mlx4_zone_entry`; `offset` is the `u32` image of the `int`. -/
structure ZoneEntry where
  uid : Nat
  bitmap : BitmapAllocator
  useRr : Bool
  priority : Int
  offset : Nat
  flags : ZoneFlags

/-- `struct mlx4_zone_allocator`. A zone is on `entries`, and one zone of each
priority is on `prios` as well, where its uid stands for it. -/
structure ZoneAllocator where
  entries : List ZoneEntry
  prios : List Nat
  lastUid : Nat
  mask : Nat
  noOverlap : Bool

def zoneAllocatorCreate (noOverlap : Bool) : ZoneAllocator :=
  { entries := [], prios := [], lastUid := 0, mask := 0, noOverlap := noOverlap }

def findZoneByUid (zones : ZoneAllocator) (uid : Nat) : Option ZoneEntry :=
  zones.entries.find? fun zone => zone.uid == uid

def ZoneAllocator.priorityOf (zones : ZoneAllocator) (uid : Nat) : Int :=
  ((findZoneByUid zones uid).map fun zone => zone.priority).getD 0

/-- `list_add_tail(x, y)` with `y` the first element that satisfies `p`, or the
list head when there is none. -/
def addTail {α : Type} (p : α → Bool) (x : α) (l : List α) : List α :=
  l.takeWhile (fun y => !p y) ++ x :: l.dropWhile (fun y => !p y)

/-- `mlx4_zone_add_one`, with the outcome of its allocation: the allocator and
the uid of the new zone. -/
def zoneAddOne (kmalloc : Bool) (zoneAlloc : ZoneAllocator) (bitmap : BitmapAllocator)
    (flags : ZoneFlags) (priority : Int) (offset : Nat) : Option (ZoneAllocator × Nat) :=
  if kmalloc then
    let mask := bitmapMaskedValue bitmap U32.allOnes
    let uid := zoneAlloc.lastUid
    let zone : ZoneEntry :=
      { uid := uid
        bitmap := bitmap
        useRr := flags.useRr
        priority := priority
        offset := offset
        flags := flags }
    let it := zoneAlloc.prios.find? fun u => decide (priority ≤ zoneAlloc.priorityOf u)
    let isNew := it.all fun u => decide (priority < zoneAlloc.priorityOf u)
    some
      ({ zoneAlloc with
          entries := addTail (fun e => it == some e.uid) zone zoneAlloc.entries
          prios := if isNew then addTail (fun u => it == some u) uid zoneAlloc.prios
            else zoneAlloc.prios
          lastUid := U32.inc zoneAlloc.lastUid
          mask := if zoneAlloc.mask < mask then mask else zoneAlloc.mask }, uid)
  else none

/-- The `mask` of `__mlx4_zone_remove_one_entry`: the largest of the zones on `prios`. -/
def ZoneAllocator.maskOfPrios (zones : ZoneAllocator) : Nat :=
  (zones.prios.filterMap (findZoneByUid zones)).foldl
    (fun mask it =>
      let curMask := bitmapMaskedValue it.bitmap U32.allOnes
      if mask < curMask then curMask else mask) 0

/-- The alternative node for `prios`: the entry behind, if it has the same priority. -/
def ZoneAllocator.alternativeNode (zones : ZoneAllocator) (entry : ZoneEntry) : List Nat :=
  match (zones.entries.dropWhile fun e => e.uid != entry.uid)[1]? with
  | some next => if next.priority = entry.priority then [next.uid] else []
  | none => []

/-- `__mlx4_zone_remove_one_entry`. A zone that was never put on `prios` has a
`prio_list` the source never writes; it is taken for empty here. -/
def zoneRemoveOneEntry (zoneAlloc : ZoneAllocator) (entry : ZoneEntry) : ZoneAllocator :=
  let rest : ZoneAllocator :=
    { zoneAlloc with
      prios := zoneAlloc.prios.flatMap fun u =>
        if u = entry.uid then zoneAlloc.alternativeNode entry else [u]
      entries := zoneAlloc.entries.eraseP fun e => e.uid == entry.uid }
  if zoneAlloc.noOverlap then { rest with mask := rest.maskOfPrios } else rest

def zoneRemoveOne (zones : ZoneAllocator) (uid : Nat) : ZoneAllocator × Int :=
  match findZoneByUid zones uid with
  | none => (zones, -1)
  | some zone => (zoneRemoveOneEntry zones zone, 0)

/-! ## Allocation -/

def ZoneAllocator.uidsBefore (zones : ZoneAllocator) (uid : Nat) : List Nat :=
  (zones.entries.map fun zone => zone.uid).takeWhile fun u => u != uid

def ZoneAllocator.uidsFrom (zones : ZoneAllocator) (uid : Nat) : List Nat :=
  (zones.entries.map fun zone => zone.uid).dropWhile fun u => u != uid

/-- The zones `__mlx4_alloc_from_zone` tries, in its order: the zone itself, then
those of lower, of equal and of higher priority that its flags allow. -/
def ZoneAllocator.allocOrder (zones : ZoneAllocator) (zone : ZoneEntry) : List Nat :=
  match zones.prios.find? fun u => zones.priorityOf u == zone.priority with
  | none => [zone.uid]
  | some currNode =>
    let lower := (zones.uidsBefore currNode).reverse
    let equal := (zones.uidsFrom currNode).takeWhile fun u =>
      zones.priorityOf u == zones.priorityOf currNode
    -- the entry after `curr_node` on `prios` starts the higher priorities
    let higher := ((zones.prios.dropWhile fun u => u != currNode)[1]?).elim [] zones.uidsFrom
    zone.uid ::
      ((if zone.flags.allowAllocFromLowerPrio then lower else []) ++
        (if zone.flags.allowAllocFromEqPrio then equal.filter (fun u => u != zone.uid) else []) ++
        (if zone.flags.fallbackToHigherPrio then higher else []))

def ZoneAllocator.setBitmap (zones : ZoneAllocator) (uid : Nat) (b : BitmapAllocator) :
    ZoneAllocator :=
  { zones with
    entries := zones.entries.map fun zone =>
      if zone.uid = uid then { zone with bitmap := b } else zone }

/-- The attempts of `__mlx4_alloc_from_zone` on the given zones: the allocator,
`res` and `uid`. `none` while a search in a bitmap has not returned. -/
def allocFromZones (fuel count align skipMask : Nat) :
    List Nat → ZoneAllocator → Option (ZoneAllocator × Nat × Nat)
  | [], zones => some (zones, U32.allOnes, 0)
  | uid :: uids, zones =>
    match findZoneByUid zones uid with
    | none => allocFromZones fuel count align skipMask uids zones
    | some zone =>
      match bitmapAllocRange fuel zone.bitmap count align skipMask with
      | none => none
      | some (b, res) =>
        if res ≠ U32.allOnes then
          some (zones.setBitmap uid b, U32.wrap (res + zone.offset), uid)
        else allocFromZones fuel count align skipMask uids (zones.setBitmap uid b)

def allocFromZone (fuel : Nat) (zones : ZoneAllocator) (zone : ZoneEntry)
    (count align skipMask : Nat) : Option (ZoneAllocator × Nat × Nat) :=
  allocFromZones fuel count align skipMask (zones.allocOrder zone) zones

def zoneAllocEntries (fuel : Nat) (zones : ZoneAllocator) (uid count align skipMask : Nat) :
    Option (ZoneAllocator × Nat × Nat) :=
  match findZoneByUid zones uid with
  | none => some (zones, U32.allOnes, 0)
  | some zone => allocFromZone fuel zones zone count align skipMask

/-! ## Free -/

def freeFromZone (zones : ZoneAllocator) (zone : ZoneEntry) (obj count : Nat) : ZoneAllocator :=
  zones.setBitmap zone.uid
    (bitmapFreeRange zone.bitmap (U32.sub obj zone.offset) count zone.useRr)

/-- `mlx4_zone_free_entries`, with its result as an `int`. -/
def zoneFreeEntries (zones : ZoneAllocator) (uid obj count : Nat) : ZoneAllocator × Int :=
  match findZoneByUid zones uid with
  | none => (zones, -1)
  | some zone => (freeFromZone zones zone obj count, 0)

/-- The window of a zone: `obj >= zone->offset` and `mobj < zone->bitmap->max`. -/
def ZoneEntry.InWindow (mask : Nat) (zone : ZoneEntry) (obj : Nat) : Prop :=
  zone.offset ≤ obj ∧ U32.sub obj zone.offset &&& mask < zone.bitmap.max

instance (mask : Nat) (zone : ZoneEntry) (obj : Nat) : Decidable (zone.InWindow mask obj) :=
  inferInstanceAs (Decidable (_ ∧ _))

/-- One round of the search: `dist` and `zone_candidate`. -/
def closerZone (mask obj : Nat) (c : Nat × Option ZoneEntry) (zone : ZoneEntry) :
    Nat × Option ZoneEntry :=
  if zone.InWindow mask obj ∧ zone.bitmap.effectiveLen < c.1 then
    (zone.bitmap.effectiveLen, some zone)
  else c

def findZoneByUidUnique (zones : ZoneAllocator) (obj : Nat) : Option ZoneEntry :=
  (zones.entries.foldl (closerZone zones.mask obj) (U32.allOnes, none)).2

/-- `mlx4_zone_free_entries_unique`, with its result as an `int`. -/
def zoneFreeEntriesUnique (zones : ZoneAllocator) (obj count : Nat) : ZoneAllocator × Int :=
  if zones.noOverlap = false then (zones, -14)
  else
    match findZoneByUidUnique zones obj with
    | none => (zones, -1)
    | some zone => (freeFromZone zones zone obj count, 0)

section Search

variable {mask obj : Nat}

theorem foldl_closerZone_keep {l : List ZoneEntry} {c : Nat × Option ZoneEntry}
    (h : ∀ y ∈ l, y.InWindow mask obj → c.1 ≤ y.bitmap.effectiveLen) :
    l.foldl (closerZone mask obj) c = c := by
  induction l with
  | nil => rfl
  | cons y l ih =>
    have hkeep : closerZone mask obj c y = c := by
      apply if_neg
      rintro ⟨hw, hlt⟩
      exact absurd (h y mem_cons_self hw) (Nat.not_le.mpr hlt)
    rw [foldl_cons, hkeep]
    exact ih fun z hz => h z (mem_cons_of_mem _ hz)

/-- A candidate that is larger than `d` stays larger as long as every zone of the window is. -/
theorem foldl_closerZone_lt {l : List ZoneEntry} {c : Nat × Option ZoneEntry} {d : Nat}
    (hc : d < c.1) (h : ∀ y ∈ l, y.InWindow mask obj → d < y.bitmap.effectiveLen) :
    d < (l.foldl (closerZone mask obj) c).1 := by
  induction l generalizing c with
  | nil => exact hc
  | cons y l ih =>
    apply ih _ fun z hz => h z (mem_cons_of_mem _ hz)
    unfold closerZone
    split
    · next hy => exact h y mem_cons_self hy.1
    · exact hc

/-- The search picks the first of the smallest zones whose window holds the number. -/
theorem findZoneByUidUnique_eq {zones : ZoneAllocator} {pre post : List ZoneEntry}
    {zone : ZoneEntry} (he : zones.entries = pre ++ zone :: post)
    (hw : zone.InWindow zones.mask obj) (hlen : zone.bitmap.effectiveLen < U32.allOnes)
    (hpre : ∀ y ∈ pre, y.InWindow zones.mask obj →
      zone.bitmap.effectiveLen < y.bitmap.effectiveLen)
    (hpost : ∀ y ∈ post, y.InWindow zones.mask obj →
      zone.bitmap.effectiveLen ≤ y.bitmap.effectiveLen) :
    findZoneByUidUnique zones obj = some zone := by
  have hlt := foldl_closerZone_lt (c := (U32.allOnes, none)) hlen hpre
  unfold findZoneByUidUnique
  rw [he, foldl_append, foldl_cons]
  have htake : closerZone zones.mask obj
      (pre.foldl (closerZone zones.mask obj) (U32.allOnes, none)) zone =
        (zone.bitmap.effectiveLen, some zone) := if_pos ⟨hw, hlt⟩
  rw [htake, foldl_closerZone_keep hpost]

end Search

variable {zones : ZoneAllocator} {uid : Nat}

theorem findZoneByUid_mem {zone : ZoneEntry} (h : findZoneByUid zones uid = some zone) :
    zone ∈ zones.entries ∧ zone.uid = uid :=
  ⟨mem_of_find?_eq_some h, by simpa using List.find?_some h⟩

@[simp] theorem setBitmap_uids (zones : ZoneAllocator) (uid : Nat) (b : BitmapAllocator) :
    (zones.setBitmap uid b).entries.map (fun zone => zone.uid) =
      zones.entries.map fun zone => zone.uid := by
  unfold ZoneAllocator.setBitmap
  rw [map_map]
  apply map_congr_left
  intro zone _
  simp only [Function.comp_apply]
  split <;> rfl

theorem mem_setBitmap {b : BitmapAllocator} {zone : ZoneEntry}
    (h : zone ∈ (zones.setBitmap uid b).entries) :
    ∃ old ∈ zones.entries,
      (old.uid = uid ∧ zone = { old with bitmap := b }) ∨ (old.uid ≠ uid ∧ zone = old) := by
  obtain ⟨old, hold, rfl⟩ := mem_map.mp h
  refine ⟨old, hold, ?_⟩
  split
  · next hu => exact .inl ⟨hu, rfl⟩
  · next hu => exact .inr ⟨hu, rfl⟩

theorem findZoneByUid_of_mem {z : ZoneEntry} (h : (zones.entries.map fun zone => zone.uid).Nodup)
    (hz : z ∈ zones.entries) :
    findZoneByUid zones z.uid = some z := by
  unfold findZoneByUid
  rw [List.find?_eq_some_iff_append]
  obtain ⟨pre, post, he⟩ := append_of_mem hz
  refine ⟨by simp, pre, post, he, fun y hy => ?_⟩
  rw [he, map_append, map_cons] at h
  have hne := (nodup_append.mp h).2.2 y.uid (mem_map_of_mem hy) z.uid mem_cons_self
  simpa using hne

theorem findZoneByUid_setBitmap (zones : ZoneAllocator) (uid uid' : Nat) (b : BitmapAllocator) :
    findZoneByUid (zones.setBitmap uid b) uid' =
      (findZoneByUid zones uid').map fun zone =>
        if zone.uid = uid then { zone with bitmap := b } else zone := by
  have hkeep : ∀ zone : ZoneEntry,
      (if zone.uid = uid then { zone with bitmap := b } else zone).uid = zone.uid := by
    intro zone
    split <;> rfl
  unfold findZoneByUid ZoneAllocator.setBitmap
  rw [List.find?_map]
  simp only [Function.comp_def, hkeep]

theorem findZoneByUid_setBitmap_ne {uid uid' : Nat} (b : BitmapAllocator) (h : uid' ≠ uid) :
    findZoneByUid (zones.setBitmap uid b) uid' = findZoneByUid zones uid' := by
  rw [findZoneByUid_setBitmap]
  cases hf : findZoneByUid zones uid' with
  | none => rfl
  | some zone =>
    have hu := (findZoneByUid_mem hf).2
    rw [Option.map_some, if_neg (by rw [hu]; exact h)]

theorem findZoneByUid_setBitmap_self {y : ZoneEntry} (b : BitmapAllocator)
    (h : findZoneByUid zones uid = some y) :
    findZoneByUid (zones.setBitmap uid b) uid = some { y with bitmap := b } := by
  rw [findZoneByUid_setBitmap, h, Option.map_some, if_pos (findZoneByUid_mem h).2]

end Mlx4
