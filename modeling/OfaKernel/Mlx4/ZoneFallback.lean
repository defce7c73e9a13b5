-- SUMMARY: Which zones serve a request (`alloc.c`).
import OfaKernel.Mlx4.ZoneAlloc

/-!
# The fallbacks of the mlx4 zone allocator

`__mlx4_alloc_from_zone` finds zones of lower, equal or higher priority by their place on
`entries` before or behind the zone that stands for the priority on `prios`.
-/

open List

namespace Mlx4

/-! ## Runs -/

inductive ZoneCall where
  | add (kmalloc : Bool) (bitmap : BitmapAllocator) (flags : ZoneFlags) (priority : Int)
      (offset : Nat)
  | remove (uid : Nat)
  | alloc (fuel uid count align skipMask : Nat)
  | free (uid obj count : Nat)

def ZoneEntry.MayServe (z y : ZoneEntry) : Prop :=
  y.uid = z.uid ∨
    (y.priority < z.priority ∧ z.flags.allowAllocFromLowerPrio = true) ∨
    (y.priority = z.priority ∧ z.flags.allowAllocFromEqPrio = true) ∨
    (z.priority < y.priority ∧ z.flags.fallbackToHigherPrio = true)

/-- `top` is inside the mask, and no number of the zone is `(u32)-1`. -/
structure ZoneEntry.Fits (zone : ZoneEntry) : Prop where
  top : zone.bitmap.top &&& zone.bitmap.mask = zone.bitmap.top
  ne : ∀ obj < zone.bitmap.max, ∀ top, top &&& zone.bitmap.mask = top →
    U32.wrap ((obj ||| top) + zone.offset) ≠ U32.allOnes

namespace ZoneAllocator

/-- An allocation that has not returned is no step. -/
def step (zones : ZoneAllocator) : ZoneCall → ZoneAllocator
  | .add kmalloc bitmap flags priority offset =>
    ((zoneAddOne kmalloc zones bitmap flags priority offset).map fun r => r.1).getD zones
  | .remove uid => (zoneRemoveOne zones uid).1
  | .alloc fuel uid count align skipMask =>
    ((zoneAllocEntries fuel zones uid count align skipMask).map fun r => r.1).getD zones
  | .free uid obj count => (zoneFreeEntries zones uid obj count).1

/-- A new zone has a priority and a uid that no zone on the lists has, and its numbers fit. -/
def FreshPriority (zones : ZoneAllocator) : ZoneCall → Prop
  | .add kmalloc bitmap flags priority offset =>
    kmalloc = true →
      (∀ y ∈ zones.entries, y.priority ≠ priority ∧ y.uid ≠ zones.lastUid) ∧
        ZoneEntry.Fits
          { uid := zones.lastUid, bitmap := bitmap, useRr := flags.useRr, priority := priority
            offset := offset, flags := flags }
  | .remove _ | .alloc .. | .free .. => True

/-- What a request on `z` that returns may bring: a number of a zone that may serve
it, or `(u32)-1` when none of these can. -/
def ServedByFlags (zones : ZoneAllocator) (z : ZoneEntry) (fuel count align skipMask : Nat) :
    Prop :=
  ∀ zones' res puid,
    zoneAllocEntries fuel zones z.uid count align skipMask = some (zones', res, puid) →
      (res ≠ U32.allOnes → ∃ y ∈ zones.entries, z.MayServe y ∧ y.uid = puid ∧
        ∃ b r, bitmapAllocRange fuel y.bitmap count align skipMask = some (b, r) ∧
          r ≠ U32.allOnes ∧ res = U32.wrap (r + y.offset) ∧
          findZoneByUid zones' puid = some { y with bitmap := b }) ∧
      (res = U32.allOnes → ∀ y ∈ zones.entries, z.MayServe y →
        ∃ b, bitmapAllocRange fuel y.bitmap count align skipMask = some (b, U32.allOnes))

end ZoneAllocator

/-! ## Handles -/

namespace BitmapAllocator

/-- The numbers a bitmap with its `top` inside the mask can give. -/
def CanGive (b : BitmapAllocator) (r : Nat) : Prop :=
  ∃ obj < b.max, ∃ top, top &&& b.mask = top ∧ r = obj ||| top

/-- `b'` has the numbers of `b`, and its `top` is inside the mask. -/
structure SameNumbers (b b' : BitmapAllocator) : Prop where
  max : b'.max = b.max
  mask : b'.mask = b.mask
  top : b'.top &&& b'.mask = b'.top

theorem nextTop_and_mask (b : BitmapAllocator) : b.nextTop &&& b.mask = b.nextTop := by
  unfold nextTop
  rw [Nat.and_assoc, Nat.and_self]

end BitmapAllocator

open BitmapAllocator

variable {b : BitmapAllocator}

theorem bitmapTakeBit_numbers {top : Nat} (obj : Nat) (ht : top &&& b.mask = top) :
    b.SameNumbers (bitmapTakeBit b top obj).1 ∧
      ((bitmapTakeBit b top obj).2 = U32.allOnes ∨ b.CanGive (bitmapTakeBit b top obj).2) := by
  unfold bitmapTakeBit
  split
  case isTrue hlt => exact ⟨⟨rfl, rfl, ht⟩, .inr ⟨obj, hlt, top, ht, rfl⟩⟩
  case isFalse => exact ⟨⟨rfl, rfl, ht⟩, .inl rfl⟩

theorem bitmapTakeRange_numbers {top : Nat} (obj cnt : Nat) (ht : top &&& b.mask = top) :
    b.SameNumbers (bitmapTakeRange b top obj cnt).1 ∧
      ((bitmapTakeRange b top obj cnt).2 = U32.allOnes ∨
        b.CanGive (bitmapTakeRange b top obj cnt).2) := by
  unfold bitmapTakeRange
  split
  case isTrue hlt => exact ⟨⟨rfl, rfl, ht⟩, .inr ⟨obj, hlt, top, ht, rfl⟩⟩
  case isFalse => exact ⟨⟨rfl, rfl, ht⟩, .inl rfl⟩

/-- An allocation fails or gives a number of the bitmap, and the numbers stay the same. -/
theorem bitmapAllocRange_numbers {fuel : Nat} {cnt align skipMask : Nat} {r : BitmapAllocator × Nat}
    (ht : b.top &&& b.mask = b.top) (h : bitmapAllocRange fuel b cnt align skipMask = some r) :
    b.SameNumbers r.1 ∧ (r.2 = U32.allOnes ∨ b.CanGive r.2) := by
  have hnext := b.nextTop_and_mask
  unfold bitmapAllocRange at h
  split at h
  case isTrue =>
    obtain rfl := Option.some.inj h
    unfold bitmapAlloc
    dsimp only
    split
    · exact bitmapTakeBit_numbers _ hnext
    · exact bitmapTakeBit_numbers _ ht
  case isFalse =>
    split at h
    case h_1 => cases h
    case h_2 =>
      split at h
      · obtain ⟨obj, _, rfl⟩ := Option.map_eq_some_iff.mp h
        exact bitmapTakeRange_numbers _ _ hnext
      · obtain rfl := Option.some.inj h
        exact bitmapTakeRange_numbers _ _ ht

theorem bitmapFreeRange_numbers (obj cnt : Nat) (useRr : Bool) (ht : b.top &&& b.mask = b.top) :
    b.SameNumbers (bitmapFreeRange b obj cnt useRr) := by
  have hnext := b.nextTop_and_mask
  refine ⟨rfl, rfl, ?_⟩
  unfold bitmapFreeRange
  split
  · exact ht
  · exact hnext

theorem ZoneEntry.Fits.sameNumbers {zone : ZoneEntry} (h : zone.Fits)
    (hb : zone.bitmap.SameNumbers b) : ZoneEntry.Fits { zone with bitmap := b } := by
  constructor
  · exact hb.top
  · intro obj hobj top htop
    rw [hb.max] at hobj
    rw [hb.mask] at htop
    exact h.ne obj hobj top htop

theorem ZoneEntry.Fits.wrap_ne {zone : ZoneEntry} {r : Nat} (h : zone.Fits)
    (hr : zone.bitmap.CanGive r) : U32.wrap (r + zone.offset) ≠ U32.allOnes := by
  obtain ⟨obj, hobj, top, htop, rfl⟩ := hr
  exact h.ne obj hobj top htop

/-! ## Zones by uid -/

namespace ZoneAllocator

/-- The entries are sorted by priority, and each is on `prios`. -/
structure OnePerPriority (zones : ZoneAllocator) : Prop where
  sorted : zones.entries.Pairwise fun y z => y.priority < z.priority
  prios_eq : zones.prios = zones.entries.map fun zone => zone.uid
  uids : (zones.entries.map fun zone => zone.uid).Nodup
  fits : ∀ zone ∈ zones.entries, zone.Fits

variable {zones : ZoneAllocator} {z : ZoneEntry}

theorem OnePerPriority.find (h : zones.OnePerPriority) (hz : z ∈ zones.entries) :
    findZoneByUid zones z.uid = some z :=
  findZoneByUid_of_mem h.uids hz

theorem OnePerPriority.priorityOf (h : zones.OnePerPriority) (hz : z ∈ zones.entries) :
    zones.priorityOf z.uid = z.priority := by
  unfold ZoneAllocator.priorityOf
  rw [h.find hz]
  rfl

theorem OnePerPriority.setBitmap (h : zones.OnePerPriority) {uid : Nat} {b : BitmapAllocator}
    (hfits : ∀ y ∈ zones.entries, y.uid = uid → y.bitmap.SameNumbers b) :
    (zones.setBitmap uid b).OnePerPriority := by
  have hprio : ∀ y : ZoneEntry,
      (if y.uid = uid then { y with bitmap := b } else y).priority = y.priority := by
    intro y
    split <;> rfl
  constructor
  · apply pairwise_map.mpr
    simpa only [hprio] using h.sorted
  · rw [setBitmap_uids]
    exact h.prios_eq
  · rw [setBitmap_uids]
    exact h.uids
  · intro zone hzone
    obtain ⟨old, hold, ⟨hu, rfl⟩ | ⟨-, rfl⟩⟩ := mem_setBitmap hzone
    · exact (h.fits old hold).sameNumbers (hfits old hold hu)
    · exact h.fits zone hold

/-- With one zone to a priority the attempts go to the zone, the ones before it on
`entries` and the ones behind it. -/
theorem OnePerPriority.allocOrder_eq (h : zones.OnePerPriority) {pre post : List ZoneEntry}
    (he : zones.entries = pre ++ z :: post) :
    zones.allocOrder z = z.uid ::
      ((if z.flags.allowAllocFromLowerPrio then (pre.map fun y => y.uid).reverse else []) ++
        (if z.flags.fallbackToHigherPrio then post.map fun y => y.uid else [])) := by
  have hz : z ∈ zones.entries := by rw [he]; simp
  have hpost_mem : ∀ y ∈ post, y ∈ zones.entries := fun y hy => by rw [he]; simp [hy]
  have huids : (zones.entries.map fun zone => zone.uid) =
      pre.map (fun y => y.uid) ++ z.uid :: post.map fun y => y.uid := by
    rw [he, map_append, map_cons]
  have hsorted := h.sorted
  rw [he, pairwise_append] at hsorted
  obtain ⟨-, hzpost, hcross⟩ := hsorted
  have hnodup := h.uids
  rw [huids, nodup_append] at hnodup
  obtain ⟨-, hzn, hdisj⟩ := hnodup
  have hpre : ∀ u ∈ pre.map (fun y => y.uid), (u != z.uid) = true := by
    intro u hu
    simpa using hdisj u hu z.uid mem_cons_self
  -- the zone stands for its priority
  have hcurr : (zones.prios.find? fun u => zones.priorityOf u == z.priority) = some z.uid := by
    rw [h.prios_eq, huids]
    rw [List.find?_append, List.find?_cons_of_pos (by simp [h.priorityOf hz])]
    have hnone : (pre.map fun y => y.uid).find? (fun u => zones.priorityOf u == z.priority) =
        none := by
      apply List.find?_eq_none.mpr
      intro u hu
      obtain ⟨y, hy, rfl⟩ := mem_map.mp hu
      have hlt := hcross y hy z mem_cons_self
      rw [h.priorityOf (by rw [he]; simp [hy])]
      simpa using hlt.ne
    rw [hnone]
    rfl
  have hbefore : zones.uidsBefore z.uid = pre.map fun y => y.uid := by
    unfold uidsBefore
    rw [huids, takeWhile_append_of_pos hpre, takeWhile_cons_of_neg (by simp),
      append_nil]
  have hfrom : zones.uidsFrom z.uid = z.uid :: post.map fun y => y.uid := by
    unfold uidsFrom
    rw [huids, dropWhile_append_of_pos hpre, dropWhile_cons_of_neg (by simp)]
  -- behind it the priorities are higher
  have hequal : ((zones.uidsFrom z.uid).takeWhile fun u =>
      zones.priorityOf u == zones.priorityOf z.uid) = [z.uid] := by
    rw [hfrom, takeWhile_cons_of_pos (by simp)]
    cases post with
    | nil => rfl
    | cons y l =>
      have hlt := (pairwise_cons.mp hzpost).1 y mem_cons_self
      rw [map_cons, takeWhile_cons_of_neg]
      rw [h.priorityOf (hpost_mem y mem_cons_self), h.priorityOf hz]
      simpa using hlt.ne'
  have hhigher : ((zones.prios.dropWhile fun u => u != z.uid)[1]?).elim [] zones.uidsFrom =
      post.map fun y => y.uid := by
    rw [h.prios_eq, show ((zones.entries.map fun zone => zone.uid).dropWhile fun u => u != z.uid) =
      zones.uidsFrom z.uid from rfl, hfrom]
    cases post with
    | nil => rfl
    | cons y l =>
      show zones.uidsFrom y.uid = (y :: l).map fun y => y.uid
      have hskip : ∀ u ∈ pre.map (fun y => y.uid) ++ [z.uid], (u != y.uid) = true := by
        intro u hu
        rcases mem_append.mp hu with hu | hu
        · simpa using hdisj u hu y.uid (by simp)
        · have hzy := (nodup_cons.mp hzn).1
          rw [mem_singleton.mp hu]
          simp only [map_cons, mem_cons, not_or] at hzy
          simpa using hzy.1
      unfold uidsFrom
      rw [huids, append_cons, dropWhile_append_of_pos hskip, map_cons,
        dropWhile_cons_of_neg (by simp)]
  unfold ZoneAllocator.allocOrder
  rw [hcurr]
  dsimp only
  rw [hbefore, hequal, hhigher]
  simp

theorem OnePerPriority.mem_allocOrder (h : zones.OnePerPriority) (hz : z ∈ zones.entries)
    {u : Nat} : u ∈ zones.allocOrder z ↔ ∃ y ∈ zones.entries, z.MayServe y ∧ y.uid = u := by
  obtain ⟨pre, post, he⟩ := append_of_mem hz
  have hsorted := h.sorted
  rw [he, pairwise_append, pairwise_cons] at hsorted
  obtain ⟨-, ⟨hpost, -⟩, hcross⟩ := hsorted
  have hpre : ∀ y ∈ pre, y.priority < z.priority :=
    fun y hy => hcross y hy z mem_cons_self
  rw [h.allocOrder_eq he, mem_cons, mem_append]
  constructor
  · rintro (rfl | hu | hu)
    · exact ⟨z, hz, .inl rfl, rfl⟩
    · split at hu
      case isTrue hflag =>
        obtain ⟨y, hy, rfl⟩ := mem_map.mp (mem_reverse.mp hu)
        exact ⟨y, by rw [he]; simp [hy], .inr (.inl ⟨hpre y hy, hflag⟩), rfl⟩
      case isFalse => cases hu
    · split at hu
      case isTrue hflag =>
        obtain ⟨y, hy, rfl⟩ := mem_map.mp hu
        exact ⟨y, by rw [he]; simp [hy], .inr (.inr (.inr ⟨hpost y hy, hflag⟩)), rfl⟩
      case isFalse => cases hu
  · rintro ⟨y, hy, hserve, rfl⟩
    rw [he, mem_append, mem_cons] at hy
    rcases hy with hy | rfl | hy
    · have hlt := hpre y hy
      rcases hserve with hu | ⟨-, hflag⟩ | ⟨heq, -⟩ | ⟨hgt, -⟩
      · exact .inl hu
      · rw [if_pos hflag]
        exact .inr (.inl (mem_reverse.mpr (mem_map_of_mem hy)))
      · omega
      · omega
    · exact .inl rfl
    · have hlt := hpost y hy
      rcases hserve with hu | ⟨hgt, -⟩ | ⟨heq, -⟩ | ⟨-, hflag⟩
      · exact .inl hu
      · omega
      · omega
      · rw [if_pos hflag]
        exact .inr (.inr (mem_map_of_mem hy))

/-- No zone is tried twice. -/
theorem OnePerPriority.allocOrder_nodup (h : zones.OnePerPriority) (hz : z ∈ zones.entries) :
    (zones.allocOrder z).Nodup := by
  obtain ⟨pre, post, he⟩ := append_of_mem hz
  rw [h.allocOrder_eq he]
  have hnodup := h.uids
  rw [he, map_append, map_cons, nodup_middle] at hnodup
  obtain ⟨hz', hrest⟩ := nodup_cons.mp hnodup
  have hlower : ∀ flag : Bool,
      (if flag then (pre.map fun y => y.uid).reverse else []).Sublist
        (pre.map fun y => y.uid).reverse := by
    intro flag
    cases flag <;> simp
  have hhigher : ∀ flag : Bool,
      (if flag then post.map fun y => y.uid else []).Sublist (post.map fun y => y.uid) := by
    intro flag
    cases flag <;> simp
  have hsub := (hlower z.flags.allowAllocFromLowerPrio).append
    (hhigher z.flags.fallbackToHigherPrio)
  have hperm : ((pre.map fun y => y.uid).reverse ++ post.map fun y => y.uid).Perm
      (pre.map (fun y => y.uid) ++ post.map fun y => y.uid) :=
    (reverse_perm _).append_right _
  apply nodup_cons.mpr
  exact ⟨fun hmem => hz' (hperm.subset (hsub.subset hmem)),
    (hperm.nodup_iff.mpr hrest).sublist hsub⟩

section Attempts

variable {fuel count align skipMask : Nat}

/-- The attempts end at the first zone that gives a number, or they have all failed. -/
theorem allocFromZones_spec {uids : List Nat} (hnodup : uids.Nodup) {zones' : ZoneAllocator}
    {res puid : Nat}
    (h : allocFromZones fuel count align skipMask uids zones = some (zones', res, puid)) :
    (puid ∈ uids ∧ ∃ y b r, findZoneByUid zones puid = some y ∧
      bitmapAllocRange fuel y.bitmap count align skipMask = some (b, r) ∧ r ≠ U32.allOnes ∧
      res = U32.wrap (r + y.offset) ∧ findZoneByUid zones' puid = some { y with bitmap := b }) ∨
    (res = U32.allOnes ∧ ∀ u ∈ uids, ∀ y, findZoneByUid zones u = some y →
      ∃ b, bitmapAllocRange fuel y.bitmap count align skipMask = some (b, U32.allOnes)) := by
  induction uids generalizing zones with
  | nil =>
    simp only [allocFromZones, Option.some.injEq, Prod.mk.injEq] at h
    exact .inr ⟨h.2.1.symm, by simp⟩
  | cons u uids ih =>
    obtain ⟨hu, hnodup⟩ := nodup_cons.mp hnodup
    unfold allocFromZones at h
    split at h
    case h_1 hfind =>
      -- no zone has the uid
      rcases ih hnodup h with ⟨hmem, hserved⟩ | ⟨hres, hfail⟩
      · exact .inl ⟨mem_cons_of_mem _ hmem, hserved⟩
      · refine .inr ⟨hres, fun v hv y hy => ?_⟩
        rcases mem_cons.mp hv with rfl | hv
        · rw [hfind] at hy
          cases hy
        · exact hfail v hv y hy
    case h_2 x hfind =>
      split at h
      case h_1 => cases h
      case h_2 b r halloc =>
        split at h
        case isTrue hr =>
          obtain ⟨rfl, rfl, rfl⟩ := Option.some.inj h
          exact .inl ⟨mem_cons_self, x, b, r, hfind, halloc, hr, rfl,
            findZoneByUid_setBitmap_self b hfind⟩
        case isFalse hr =>
          obtain rfl : r = U32.allOnes := not_not.mp hr
          -- the other zones are as they were
          have hsame : ∀ v ∈ uids,
              findZoneByUid (zones.setBitmap u b) v = findZoneByUid zones v :=
            fun v hv => findZoneByUid_setBitmap_ne b (ne_of_mem_of_not_mem hv hu)
          rcases ih hnodup h with ⟨hmem, y, b', r', hy, hserved⟩ | ⟨hres, hfail⟩
          · rw [hsame puid hmem] at hy
            exact .inl ⟨mem_cons_of_mem _ hmem, y, b', r', hy, hserved⟩
          · refine .inr ⟨hres, fun v hv y hy => ?_⟩
            rcases mem_cons.mp hv with rfl | hv
            · rw [hfind] at hy
              obtain rfl := Option.some.inj hy
              exact ⟨b, halloc⟩
            · rw [← hsame v hv] at hy
              exact hfail v hv y hy

theorem OnePerPriority.allocFromZones (h : zones.OnePerPriority) {uids : List Nat}
    {r : ZoneAllocator × Nat × Nat}
    (hr : allocFromZones fuel count align skipMask uids zones = some r) : r.1.OnePerPriority := by
  induction uids generalizing zones with
  | nil =>
    obtain rfl := Option.some.inj hr
    exact h
  | cons u uids ih =>
    unfold Mlx4.allocFromZones at hr
    split at hr
    case h_1 => exact ih h hr
    case h_2 x hfind =>
      split at hr
      case h_1 => cases hr
      case h_2 b res halloc =>
        have hset : (zones.setBitmap u b).OnePerPriority := by
          apply h.setBitmap
          intro y hy hyu
          rw [← hyu, h.find hy] at hfind
          obtain rfl := Option.some.inj hfind
          exact (bitmapAllocRange_numbers (h.fits y hy).top halloc).1
        split at hr
        · obtain rfl := Option.some.inj hr
          exact hset
        · exact ih hset hr

theorem OnePerPriority.servedByFlags (h : zones.OnePerPriority) (hz : z ∈ zones.entries) :
    zones.ServedByFlags z fuel count align skipMask := by
  intro zones' res puid hres
  unfold zoneAllocEntries at hres
  rw [h.find hz] at hres
  rcases allocFromZones_spec (h.allocOrder_nodup hz) hres with
    ⟨hmem, y, b, r, hy, halloc, hr, rfl, hy'⟩ | ⟨rfl, hfail⟩
  · obtain ⟨y', hy'mem, hserve, rfl⟩ := (h.mem_allocOrder hz).mp hmem
    rw [h.find hy'mem] at hy
    obtain rfl := Option.some.inj hy
    have hfits := h.fits y' hy'mem
    have hgive := (bitmapAllocRange_numbers hfits.top halloc).2.resolve_left hr
    exact ⟨fun _ => ⟨y', hy'mem, hserve, rfl, b, r, halloc, hr, rfl, hy'⟩,
      fun hones => absurd hones (hfits.wrap_ne hgive)⟩
  · refine ⟨fun hne => absurd rfl hne, fun _ y hy hserve => ?_⟩
    exact hfail y.uid ((h.mem_allocOrder hz).mpr ⟨y, hy, hserve, rfl⟩) y (h.find hy)

end Attempts

theorem addTail_append {α : Type} {p : α → Bool} (x : α) {l r : List α}
    (hl : ∀ y ∈ l, p y = false) (hr : ∀ y ∈ r.head?, p y = true) :
    addTail p x (l ++ r) = l ++ x :: r := by
  have hskip : ∀ y ∈ l, (!p y) = true := fun y hy => by rw [hl y hy]; rfl
  unfold addTail
  rw [takeWhile_append_of_pos hskip, dropWhile_append_of_pos hskip]
  cases r with
  | nil => simp
  | cons y r =>
    have hy : ¬(!p y) = true := by rw [hr y rfl]; decide
    rw [takeWhile_cons_of_neg (p := fun y => !p y) hy,
      dropWhile_cons_of_neg (p := fun y => !p y) hy, append_nil]

variable {priority : Int}

/-- A priority that no entry has cuts the sorted entries in two. -/
theorem exists_cut {l : List ZoneEntry} (h : l.Pairwise fun y z => y.priority < z.priority)
    (hne : ∀ y ∈ l, y.priority ≠ priority) :
    ∃ lower upper, l = lower ++ upper ∧ (∀ y ∈ lower, y.priority < priority) ∧
      ∀ y ∈ upper, priority < y.priority := by
  induction l with
  | nil => exact ⟨[], [], rfl, by simp, by simp⟩
  | cons x l ih =>
    obtain ⟨hx, htail⟩ := pairwise_cons.mp h
    by_cases hlt : x.priority < priority
    · obtain ⟨lower, upper, rfl, hlower, hupper⟩ :=
        ih htail fun y hy => hne y (mem_cons_of_mem _ hy)
      refine ⟨x :: lower, upper, rfl, fun y hy => ?_, hupper⟩
      rcases mem_cons.mp hy with rfl | hy
      · exact hlt
      · exact hlower y hy
    · have hgt : priority < x.priority := by
        have := hne x mem_cons_self
        omega
      refine ⟨[], x :: l, rfl, by simp, fun y hy => ?_⟩
      rcases mem_cons.mp hy with rfl | hy
      · exact hgt
      · exact hgt.trans (hx y hy)

/-- A new priority goes between the lower and the higher ones, on both lists. -/
theorem OnePerPriority.zoneAddOne_eq (h : zones.OnePerPriority) {bitmap : BitmapAllocator}
    {flags : ZoneFlags} {offset : Nat} {r : ZoneAllocator × Nat} {lower upper : List ZoneEntry}
    (he : zones.entries = lower ++ upper) (hlower : ∀ y ∈ lower, y.priority < priority)
    (hupper : ∀ y ∈ upper, priority < y.priority)
    (hr : zoneAddOne true zones bitmap flags priority offset = some r) :
    r.1.entries = lower ++
        { uid := zones.lastUid, bitmap := bitmap, useRr := flags.useRr, priority := priority
          offset := offset, flags := flags } :: upper ∧
      r.1.prios = lower.map (fun y => y.uid) ++ zones.lastUid :: upper.map fun y => y.uid := by
  have huids : zones.prios = lower.map (fun y => y.uid) ++ upper.map fun y => y.uid := by
    rw [h.prios_eq, he, map_append]
  have hnodup := h.uids
  rw [he, map_append, nodup_append] at hnodup
  obtain ⟨-, -, hdisj⟩ := hnodup
  -- the search on `prios` stops at the first of the higher priorities
  have hit : (zones.prios.find? fun u => decide (priority ≤ zones.priorityOf u)) =
      upper.head?.map fun y => y.uid := by
    have hnone : (lower.map fun y => y.uid).find?
        (fun u => decide (priority ≤ zones.priorityOf u)) = none := by
      apply List.find?_eq_none.mpr
      intro u hu
      obtain ⟨y, hy, rfl⟩ := mem_map.mp hu
      rw [h.priorityOf (by rw [he]; simp [hy])]
      simpa using hlower y hy
    rw [huids, List.find?_append, hnone]
    cases upper with
    | nil => rfl
    | cons y l =>
      rw [map_cons, List.find?_cons_of_pos]
      · rfl
      · rw [h.priorityOf (by rw [he]; simp)]
        exact decide_eq_true (hupper y mem_cons_self).le
  have hnew : (upper.head?.map fun y => y.uid).all
      (fun u => decide (priority < zones.priorityOf u)) = true := by
    cases upper with
    | nil => rfl
    | cons y l =>
      show decide (priority < zones.priorityOf y.uid) = true
      rw [h.priorityOf (by rw [he]; simp)]
      exact decide_eq_true (hupper y mem_cons_self)
  have hlow : ∀ u ∈ lower.map (fun y => y.uid),
      ((upper.head?.map fun y => y.uid) == some u) = false := by
    intro u hu
    cases upper with
    | nil => rfl
    | cons y l => simpa using (hdisj u hu y.uid (by simp)).symm
  unfold zoneAddOne at hr
  rw [if_pos rfl, hit] at hr
  obtain rfl := Option.some.inj hr
  rw [if_pos hnew, he, huids]
  constructor
  · apply addTail_append
    · exact fun y hy => hlow y.uid (mem_map_of_mem hy)
    · intro y hy
      rw [Option.mem_def.mp hy]
      simp
  · apply addTail_append
    · exact hlow
    · intro u hu
      rw [List.head?_map] at hu
      rw [Option.mem_def.mp hu]
      simp

theorem OnePerPriority.add (h : zones.OnePerPriority) {bitmap : BitmapAllocator} {flags : ZoneFlags}
    {offset : Nat} {r : ZoneAllocator × Nat}
    (hfresh : zones.FreshPriority (.add true bitmap flags priority offset))
    (hr : zoneAddOne true zones bitmap flags priority offset = some r) : r.1.OnePerPriority := by
  obtain ⟨hne, hfits⟩ := hfresh rfl
  obtain ⟨lower, upper, he, hlower, hupper⟩ := exists_cut h.sorted fun y hy => (hne y hy).1
  obtain ⟨hentries, hprios⟩ := h.zoneAddOne_eq he hlower hupper hr
  have hsorted := h.sorted
  rw [he, pairwise_append] at hsorted
  obtain ⟨hl, hu, hcross⟩ := hsorted
  constructor
  · rw [hentries, pairwise_append, pairwise_cons]
    refine ⟨hl, ⟨hupper, hu⟩, fun y hy z hz => ?_⟩
    rcases mem_cons.mp hz with rfl | hz
    · exact hlower y hy
    · exact hcross y hy z hz
  · rw [hentries, hprios, map_append, map_cons]
  · rw [hentries, map_append, map_cons, nodup_middle, ← map_append, ← he,
      nodup_cons]
    refine ⟨fun hmem => ?_, h.uids⟩
    obtain ⟨y, hy, hyu⟩ := mem_map.mp hmem
    exact (hne y hy).2 hyu
  · intro zone hzone
    rw [hentries, mem_append, mem_cons] at hzone
    rcases hzone with hzone | rfl | hzone
    · exact h.fits zone (by rw [he]; simp [hzone])
    · exact hfits
    · exact h.fits zone (by rw [he]; simp [hzone])

/-- The removal takes the zone from both lists and nothing else. -/
theorem OnePerPriority.zoneRemoveOneEntry_eq (h : zones.OnePerPriority)
    {pre post : List ZoneEntry} (he : zones.entries = pre ++ z :: post) :
    (zoneRemoveOneEntry zones z).entries = pre ++ post ∧
      (zoneRemoveOneEntry zones z).prios =
        pre.map (fun y => y.uid) ++ post.map fun y => y.uid := by
  have hsorted := h.sorted
  rw [he, pairwise_append, pairwise_cons] at hsorted
  obtain ⟨-, ⟨hpost, -⟩, -⟩ := hsorted
  have hnodup := h.uids
  rw [he, map_append, map_cons, nodup_middle, nodup_cons, mem_append,
    not_or] at hnodup
  obtain ⟨⟨hnpre, hnpost⟩, -⟩ := hnodup
  have hpre : ∀ y ∈ pre, (y.uid != z.uid) = true := by
    intro y hy
    simpa using ne_of_mem_of_not_mem (mem_map_of_mem hy) hnpre
  have hdrop : (zones.entries.dropWhile fun e => e.uid != z.uid) = z :: post := by
    rw [he, dropWhile_append_of_pos hpre, dropWhile_cons_of_neg (by simp)]
  have herase : (zones.entries.eraseP fun e => e.uid == z.uid) = pre ++ post := by
    rw [he, eraseP_append_right, eraseP_cons_of_pos (by simp)]
    intro y hy
    simpa using hpre y hy
  -- no entry behind it has its priority
  have hnoAlt : zones.alternativeNode z = [] := by
    unfold alternativeNode
    rw [hdrop]
    cases post with
    | nil => rfl
    | cons y l => exact if_neg (hpost y mem_cons_self).ne'
  have hkeep : ∀ l : List Nat, z.uid ∉ l →
      (l.flatMap fun u => if u = z.uid then [] else [u]) = l := by
    intro l hl
    induction l with
    | nil => rfl
    | cons u l ih =>
      rw [mem_cons, not_or] at hl
      rw [flatMap_cons, if_neg (Ne.symm hl.1), ih hl.2]
      rfl
  have hprios : (zones.prios.flatMap fun u => if u = z.uid then [] else [u]) =
      pre.map (fun y => y.uid) ++ post.map fun y => y.uid := by
    rw [h.prios_eq, he, map_append, map_cons, flatMap_append, flatMap_cons,
      hkeep _ hnpre, hkeep _ hnpost, if_pos rfl, nil_append]
  unfold zoneRemoveOneEntry
  rw [herase, hnoAlt, hprios]
  split <;> exact ⟨rfl, rfl⟩

theorem OnePerPriority.remove (h : zones.OnePerPriority) (uid : Nat) :
    (zoneRemoveOne zones uid).1.OnePerPriority := by
  unfold zoneRemoveOne
  split
  case h_1 => exact h
  case h_2 z hfind =>
    obtain ⟨hz, -⟩ := findZoneByUid_mem hfind
    obtain ⟨pre, post, he⟩ := append_of_mem hz
    obtain ⟨hentries, hprios⟩ := h.zoneRemoveOneEntry_eq he
    have hsub : (pre ++ post).Sublist zones.entries := by
      rw [he]
      exact (sublist_cons_self z post).append_left pre
    constructor
    · rw [hentries]
      exact h.sorted.sublist hsub
    · rw [hentries, hprios, map_append]
    · rw [hentries]
      exact h.uids.sublist (hsub.map _)
    · rw [hentries]
      exact fun zone hzone => h.fits zone (hsub.subset hzone)

/-! ## Every run -/

theorem OnePerPriority.step (h : zones.OnePerPriority) (c : ZoneCall)
    (hc : zones.FreshPriority c) : (zones.step c).OnePerPriority := by
  cases c with
  | add kmalloc bitmap flags priority offset =>
    unfold ZoneAllocator.step
    cases kmalloc with
    | false => exact h
    | true =>
      obtain ⟨r, hr⟩ : ∃ r, zoneAddOne true zones bitmap flags priority offset = some r :=
        ⟨_, rfl⟩
      dsimp only
      rw [hr]
      exact h.add hc hr
  | remove uid => exact h.remove uid
  | alloc fuel uid count align skipMask =>
    unfold ZoneAllocator.step
    dsimp only
    cases hr : zoneAllocEntries fuel zones uid count align skipMask with
    | none => exact h
    | some r =>
      unfold zoneAllocEntries at hr
      split at hr
      · obtain rfl := Option.some.inj hr
        exact h
      · exact h.allocFromZones hr
  | free uid obj count =>
    unfold ZoneAllocator.step zoneFreeEntries
    dsimp only
    split
    case h_1 => exact h
    case h_2 z hfind =>
      apply h.setBitmap
      intro y hy hyu
      obtain ⟨-, rfl⟩ := findZoneByUid_mem hfind
      rw [← hyu, h.find hy] at hfind
      obtain rfl := Option.some.inj hfind
      exact bitmapFreeRange_numbers _ _ _ (h.fits y hy).top

theorem onePerPriority_create (noOverlap : Bool) :
    (zoneAllocatorCreate noOverlap).OnePerPriority :=
  ⟨List.Pairwise.nil, rfl, nodup_nil, by simp [zoneAllocatorCreate]⟩

/-- When no two zones have one priority, each request is served by a zone that the flags allow,
and fails only if none can serve it. -/
theorem served_by_flags (noOverlap : Bool) (calls : List ZoneCall)
    (hcalls : Run.Steps step FreshPriority (zoneAllocatorCreate noOverlap) calls) :
    ∀ zones ∈ Run.states step (zoneAllocatorCreate noOverlap) calls, ∀ z ∈ zones.entries,
      ∀ fuel count align skipMask, zones.ServedByFlags z fuel count align skipMask := by
  intro zones hzones z hz fuel count align skipMask
  have hstep : ∀ s c, OnePerPriority s → s.FreshPriority c → (s.step c).OnePerPriority :=
    fun s c hs hc => hs.step c hc
  have hinv := hcalls.invariant hstep (onePerPriority_create noOverlap) zones hzones
  exact hinv.servedByFlags hz

theorem fits_of_lt {zone : ZoneEntry} {k : Nat} (htop : zone.bitmap.top = 0)
    (hmax : zone.bitmap.max ≤ 2 ^ k) (hmask : zone.bitmap.mask < 2 ^ k)
    (hoffset : zone.offset + 2 ^ k < 2 ^ 32) : zone.Fits := by
  refine ⟨by rw [htop, Nat.zero_and], fun obj hobj top ht => ?_⟩
  have htop' : top < 2 ^ k := by
    rw [← ht]
    exact Nat.and_le_right.trans_lt hmask
  have hor : obj ||| top < 2 ^ k := Nat.or_lt_two_pow (hobj.trans_le hmax) htop'
  rw [U32.wrap_of_lt (by omega), U32.allOnes]
  omega

/-- The table `mlx4_bitmap_init` makes for 8 numbers, the first `reservedBot` of them reserved. -/
def eightNumbers (reservedBot : Nat) : BitmapAllocator :=
  { last := 0, top := 0, max := 8, reservedTop := 0, mask := 7, avail := 8 - reservedBot
    effectiveLen := 8 - reservedBot, table := Bitmap.zero.setRange 0 reservedBot }

/-- The flags of the RSS zone. -/
def lowerAndEqual : ZoneFlags :=
  { allowAllocFromLowerPrio := true, allowAllocFromEqPrio := true
    fallbackToHigherPrio := false, useRr := true }

/-- `ALLOW_ALLOC_FROM_EQ_PRIO` alone. -/
def equalOnly : ZoneFlags :=
  { allowAllocFromLowerPrio := false, allowAllocFromEqPrio := true
    fallbackToHigherPrio := false, useRr := true }

/-- Two zones, and a third one of a priority between theirs once the second is gone. -/
def threeZones : List ZoneCall :=
  [.add true (eightNumbers 0) lowerAndEqual 2 0, .add true (eightNumbers 8) equalOnly 0 8,
    .remove 1, .add true (eightNumbers 2) lowerAndEqual 1 16]

def thirdZone : ZoneEntry :=
  { uid := U32.inc (U32.inc 0), bitmap := eightNumbers 2, useRr := true, priority := 1
    offset := 16, flags := lowerAndEqual }

theorem served_by_flags_three_zones :
    (Run.final step (zoneAllocatorCreate true) threeZones).ServedByFlags thirdZone 8 4 1 0 := by
  have hsteps : Run.Steps step FreshPriority (zoneAllocatorCreate true) threeZones := by
    unfold threeZones
    simp only [Run.steps_cons, Run.steps_nil, FreshPriority, and_true, true_and]
    refine ⟨fun _ => ⟨?_, fits_of_lt (k := 3) rfl ?_ ?_ ?_⟩,
      fun _ => ⟨?_, fits_of_lt (k := 3) rfl ?_ ?_ ?_⟩,
      fun _ => ⟨?_, fits_of_lt (k := 3) rfl ?_ ?_ ?_⟩⟩
    all_goals decide +kernel
  have hentries : (Run.final step (zoneAllocatorCreate true) threeZones).entries[0]? =
      some thirdZone := by with_unfolding_all rfl
  exact served_by_flags true threeZones hsteps _ (Run.final_mem_states _ _) thirdZone
    (mem_of_getElem? hentries) 8 4 1 0

/-- A full zone that may take from its priority, and a second zone of the priority. -/
def fullThenFree : List ZoneCall :=
  [.add true (eightNumbers 8) equalOnly 1 0, .add true (eightNumbers 0) equalOnly 1 8]

/-- The request on the full zone fails although the other one has eight free numbers. -/
theorem equal_priority_not_tried :
    ¬∀ noOverlap calls,
      ∀ zones ∈ Run.states step (zoneAllocatorCreate noOverlap) calls, ∀ z ∈ zones.entries,
        ∀ fuel count align skipMask, zones.ServedByFlags z fuel count align skipMask := by
  intro hall
  have hserved := hall true fullThenFree _ (Run.final_mem_states _ _)
  let full : ZoneEntry :=
    { uid := 0, bitmap := eightNumbers 8, useRr := true, priority := 1, offset := 0
      flags := equalOnly }
  let free : ZoneEntry :=
    { uid := U32.inc 0, bitmap := eightNumbers 0, useRr := true, priority := 1, offset := 8
      flags := equalOnly }
  have hentries : (Run.final step (zoneAllocatorCreate true) fullThenFree).entries =
      [free, full] := rfl
  have hfails : (zoneAllocEntries 0 (Run.final step (zoneAllocatorCreate true) fullThenFree)
      0 1 1 0).map (fun r => r.2.1) = some U32.allOnes := by decide +kernel
  obtain ⟨⟨zones', res, puid⟩, hr, hres⟩ := Option.map_eq_some_iff.mp hfails
  have hserve : full.MayServe free := .inr (.inr (.inl ⟨rfl, rfl⟩))
  obtain ⟨b, hb⟩ := (hserved full (by rw [hentries]; simp) 0 1 1 0 zones' res puid hr).2 hres free
    (by rw [hentries]; simp) hserve
  have hgives : (bitmapAllocRange 0 (eightNumbers 0) 1 1 0).map (fun r => r.2) = some 0 := by
    decide +kernel
  rw [show bitmapAllocRange 0 (eightNumbers 0) 1 1 0 = some (b, U32.allOnes) from hb] at hgives
  have hzero : U32.allOnes = 0 := Option.some.inj hgives
  exact absurd hzero (by decide)

end ZoneAllocator

end Mlx4
