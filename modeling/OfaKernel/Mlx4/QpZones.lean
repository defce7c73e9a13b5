-- SUMMARY: Zones and the ranges given from them.
import OfaKernel.Mlx4.QpTable

/-!
# Zones and their live ranges

A zone's bitmap, some bits of which are never given, and the ranges that came from it. A range is
known by its first number, which holds the bit, the rotating `top` and the offset of the zone.
-/

open List

namespace Mlx4

/-! ## Search results -/

theorem findAlignedRange_clear {table : Bitmap} {nbits len align skipMask n start s : Nat}
    (h : findAlignedRange table nbits len align skipMask n start = some s) (hs : s < nbits)
    (hn : nbits ≤ 2 ^ 31) : table s = false := by
  induction n generalizing start with
  | zero => cases h
  | succ n ih =>
    simp only [findAlignedRange] at h
    split at h
    case h_1 => cases h
    case h_2 s' hskip =>
      split at h
      case isTrue =>
        have hmax : s = ulongMax := (Option.some.inj h).symm
        rw [hmax, ulongMax] at hs
        omega
      case isFalse =>
        split at h
        · exact ih h
        · obtain rfl := Option.some.inj h
          exact skipTaken_spec hskip hs

theorem wrap_clear {table : Bitmap} {nbits len align skipMask n start s : Nat}
    (h : findAlignedRange table nbits len align skipMask n start = some s)
    (hl : len < 2 ^ 31) (hn : nbits ≤ 2 ^ 31) (hs : U32.wrap s < nbits) :
    table (U32.wrap s) = false := by
  rcases findAlignedRange_sound hn hl h with rfl | ⟨hlt, -⟩
  · have hones : U32.wrap ulongMax = 2 ^ 32 - 1 := by decide +kernel
    omega
  · rw [U32.wrap_of_lt (by omega)]
    exact findAlignedRange_clear h hlt hn

/-- A result is a failure or the number of a clear bit. -/
def BitmapAllocator.FromClear (b : BitmapAllocator) (r : Nat) : Prop :=
  r = U32.allOnes ∨
    ∃ obj < b.max, b.table obj = false ∧
      ∃ top, (top = b.top ∨ top = b.nextTop) ∧ r = obj ||| top

theorem bitmapTakeBit_fromClear {b : BitmapAllocator} {top obj : Nat}
    (ht : top = b.top ∨ top = b.nextTop) (h : obj < b.max → b.table obj = false) :
    b.FromClear (bitmapTakeBit b top obj).2 := by
  unfold bitmapTakeBit
  split
  case isTrue hlt => exact .inr ⟨obj, hlt, h hlt, top, ht, rfl⟩
  case isFalse => exact .inl rfl

theorem bitmapTakeRange_fromClear {b : BitmapAllocator} {top obj cnt : Nat}
    (ht : top = b.top ∨ top = b.nextTop) (h : obj < b.max → b.table obj = false) :
    b.FromClear (bitmapTakeRange b top obj cnt).2 := by
  unfold bitmapTakeRange
  split
  case isTrue hlt => exact .inr ⟨obj, hlt, h hlt, top, ht, rfl⟩
  case isFalse => exact .inl rfl

/-- A number that is given comes from a clear bit, also when the count is 0. -/
theorem bitmapAllocRange_fromClear {fuel : Nat} {b : BitmapAllocator} {cnt align skipMask : Nat}
    {r : BitmapAllocator × Nat} (hmax : b.max ≤ 2 ^ 31) (hcnt : cnt < 2 ^ 31)
    (h : bitmapAllocRange fuel b cnt align skipMask = some r) : b.FromClear r.2 := by
  unfold bitmapAllocRange at h
  split at h
  case isTrue =>
    obtain rfl := Option.some.inj h
    unfold bitmapAlloc
    dsimp only
    split
    · exact bitmapTakeBit_fromClear (.inr rfl) fun hlt => (Bitmap.findNextZeroBit_spec hlt).2
    · exact bitmapTakeBit_fromClear (.inl rfl) fun hlt => (Bitmap.findNextZeroBit_spec hlt).2
  case isFalse =>
    split at h
    case h_1 => cases h
    case h_2 s hf =>
      split at h
      · obtain ⟨s', hf', rfl⟩ := Option.map_eq_some_iff.mp h
        exact bitmapTakeRange_fromClear (.inr rfl) (wrap_clear hf' hcnt hmax)
      · obtain rfl := Option.some.inj h
        exact bitmapTakeRange_fromClear (.inl rfl) (wrap_clear hf hcnt hmax)

/-! ## A zone -/

/-- A zone: its place, its table, and the bits that are never given. `bits` bounds its numbers. -/
structure ZoneSpec where
  uid : Nat
  offset : Nat
  table : TableParams
  len : Nat
  reserved : Nat → Prop
  bits : Nat
  k_le : table.k ≤ bits
  mask_lt : table.mask < 2 ^ bits
  small : offset + 2 ^ bits < 2 ^ 32

namespace ZoneSpec

variable (s : ZoneSpec)

/-- The numbers of the table that can be given. -/
def max : Nat := 2 ^ s.table.k - s.table.reservedTop

/-- The bit of the table a range starts at. -/
def bit (e : QpRange) : Nat := (e.base - s.offset) % 2 ^ s.table.k

/-- The range lies in the table, on bits that are set and may be given. -/
structure Placed (t : Bitmap) (e : QpRange) : Prop where
  top : ∃ top, s.table.IsTop top ∧ e.base = s.offset + (top + s.bit e)
  lt : s.bit e < s.max
  fits : s.bit e + e.cnt ≤ s.max
  free : ¬s.reserved (s.bit e)
  set : ∀ j, s.bit e ≤ j → j < s.bit e + e.cnt → t j = true ∧ ¬s.reserved j

/-- The ranges share no bit. -/
def Apart (d e : QpRange) : Prop :=
  ∀ j, ¬((s.bit d ≤ j ∧ j < s.bit d + d.cnt) ∧ s.bit e ≤ j ∧ j < s.bit e + e.cnt)

/-- The zone is as specified, and the live ranges with its uid lie apart in its table. -/
structure Holds (zone : ZoneEntry) (live : List QpRange) : Prop where
  offset_eq : zone.offset = s.offset
  max_eq : zone.bitmap.max = s.max
  reservedTop_eq : zone.bitmap.reservedTop = s.table.reservedTop
  mask_eq : zone.bitmap.mask = s.table.mask
  len_eq : zone.bitmap.effectiveLen = s.len
  top : s.table.IsTop zone.bitmap.top
  reserved : ∀ j, s.reserved j → zone.bitmap.table j = true
  placed : ∀ e ∈ live, e.uid = s.uid → s.Placed zone.bitmap.table e
  apart : live.Pairwise fun d e => d.uid = s.uid → e.uid = s.uid → s.Apart d e

variable {s} {zone : ZoneEntry} {live : List QpRange}

theorem Apart.symm {d e : QpRange} (h : s.Apart d e) : s.Apart e d :=
  fun j hj => h j ⟨hj.2, hj.1⟩

theorem max_le : s.max ≤ 2 ^ s.table.k := Nat.sub_le _ _

theorem max_le_int : s.max ≤ 2 ^ 31 := max_le.trans s.table.num_le

/-- The handle of a bit is small enough to be no failure at the zone's offset. -/
theorem handle_lt {top obj : Nat} (ht : s.table.IsTop top) (ho : obj < s.max) :
    obj ||| top < 2 ^ s.bits := by
  have hobj : obj < 2 ^ s.bits :=
    (ho.trans_le max_le).trans_le (Nat.pow_le_pow_right (by decide) s.k_le)
  have htop : top < 2 ^ s.bits := by
    have hle := Nat.and_le_right (n := top) (m := s.table.mask)
    rw [ht.sub_mask] at hle
    exact hle.trans_lt s.mask_lt
  exact Nat.or_lt_two_pow hobj htop

theorem Placed.base_lt {t : Bitmap} {e : QpRange} (h : s.Placed t e) : e.base < 2 ^ 32 := by
  obtain ⟨top, ht, hbase⟩ := h.top
  have hlt := handle_lt ht h.lt
  rw [s.table.handle_eq ht (h.lt.trans_le max_le)] at hlt
  have hsmall := s.small
  omega

theorem Holds.nextTop (h : s.Holds zone live) : s.table.IsTop zone.bitmap.nextTop := by
  have hres := s.table.reserved_le
  have hsum : zone.bitmap.top + zone.bitmap.max + zone.bitmap.reservedTop =
      zone.bitmap.top + 2 ^ s.table.k := by
    rw [h.max_eq, h.reservedTop_eq, max]
    omega
  unfold BitmapAllocator.nextTop
  rw [hsum, h.mask_eq]
  exact s.table.isTop_next h.top

theorem Holds.sublist (h : s.Holds zone live) {live' : List QpRange} (hl : live'.Sublist live) :
    s.Holds zone live' :=
  { h with
    placed := fun e he => h.placed e (hl.subset he)
    apart := h.apart.sublist hl }

/-- A range of another zone says nothing about this one. -/
theorem Holds.cons_other (h : s.Holds zone live) {e : QpRange} (he : e.uid ≠ s.uid) :
    s.Holds zone (e :: live) :=
  { h with
    placed := by
      intro d hd hu
      rcases mem_cons.mp hd with rfl | hd
      · exact absurd hu he
      · exact h.placed d hd hu
    apart := pairwise_cons.mpr ⟨fun _ _ hu => absurd hu he, h.apart⟩ }

theorem Holds.rotate (h : s.Holds zone live) {top : Nat}
    (ht : top = zone.bitmap.top ∨ top = zone.bitmap.nextTop) :
    s.Holds { zone with bitmap := { zone.bitmap with top := top } } live := by
  refine { h with top := ?_ }
  rcases ht with rfl | rfl
  · exact h.top
  · exact h.nextTop

/-- A range that an allocation takes joins the live ones. -/
theorem Holds.takeAt (h : s.Holds zone live) {last top obj cnt : Nat}
    (ht : s.table.IsTop top) (hlt : obj < s.max) (hfit : obj + cnt ≤ s.max)
    (hobj : zone.bitmap.table obj = false)
    (hclear : ∀ j, obj ≤ j → j < obj + cnt → zone.bitmap.table j = false) :
    s.Holds { zone with bitmap := (zone.bitmap.takeAt last top obj cnt).1 }
      ({ base := s.offset + (top + obj), cnt := cnt, uid := s.uid } :: live) := by
  have hk : obj < 2 ^ s.table.k := hlt.trans_le max_le
  have hbit : s.bit { base := s.offset + (top + obj), cnt := cnt, uid := s.uid } = obj := by
    unfold bit
    rw [Nat.add_sub_cancel_left, ← s.table.handle_eq ht hk]
    exact s.table.handle_mod ht hk
  have hfree : ∀ j, zone.bitmap.table j = false → ¬s.reserved j := by
    intro j hj hres
    rw [h.reserved j hres] at hj
    cases hj
  have hset : ∀ j, zone.bitmap.table j = true →
      (zone.bitmap.takeAt last top obj cnt).1.table j = true := by
    intro j hj
    simp [BitmapAllocator.takeAt, hj]
  refine
    { offset_eq := h.offset_eq, max_eq := h.max_eq, reservedTop_eq := h.reservedTop_eq
      mask_eq := h.mask_eq, len_eq := h.len_eq, top := ht
      reserved := fun j hj => hset j (h.reserved j hj), placed := ?_, apart := ?_ }
  · intro e he hu
    rcases mem_cons.mp he with rfl | he
    · refine ⟨⟨top, ht, by rw [hbit]⟩, ?_, ?_, ?_, ?_⟩
      · rw [hbit]; exact hlt
      · rw [hbit]; exact hfit
      · rw [hbit]; exact hfree obj hobj
      · rw [hbit]
        intro j h₁ h₂
        exact ⟨by simp [BitmapAllocator.takeAt, h₁, h₂], hfree j (hclear j h₁ h₂)⟩
    · have hp := h.placed e he hu
      exact { hp with set := fun j h₁ h₂ => ⟨hset j (hp.set j h₁ h₂).1, (hp.set j h₁ h₂).2⟩ }
  · refine pairwise_cons.mpr ⟨fun e he _ hu j hj => ?_, h.apart⟩
    -- the bits of older ranges are set, those of the new one were clear
    obtain ⟨⟨h₁, h₂⟩, h₃, h₄⟩ := hj
    rw [hbit] at h₁ h₂
    have hold := ((h.placed e he hu).set j h₃ h₄).1
    rw [hclear j h₁ h₂] at hold
    cases hold

theorem Holds.alloc (h : s.Holds zone live) {fuel cnt align skipMask : Nat}
    {b : BitmapAllocator} {r : Nat} (hcnt : cnt < 2 ^ 31)
    (hr : bitmapAllocRange fuel zone.bitmap cnt align skipMask = some (b, r)) :
    (r = U32.allOnes ∧ s.Holds { zone with bitmap := b } live) ∨
      (r ≠ U32.allOnes ∧ U32.wrap (r + zone.offset) ≠ U32.allOnes ∧
        s.Holds { zone with bitmap := b }
          ({ base := U32.wrap (r + zone.offset), cnt := cnt, uid := s.uid } :: live)) := by
  have hmax : zone.bitmap.max ≤ 2 ^ 31 := by rw [h.max_eq]; exact max_le_int
  obtain ⟨top, ht, hout | ⟨last, obj, hlt, hfit, hclear, hout⟩⟩ :=
    bitmapAllocRange_outcome hmax hcnt hr
  · obtain ⟨rfl, rfl⟩ := Prod.mk.inj hout
    exact .inl ⟨rfl, h.rotate ht⟩
  · obtain ⟨rfl, rfl⟩ := Prod.mk.inj hout
    have hisTop : ∀ t, t = zone.bitmap.top ∨ t = zone.bitmap.nextTop → s.table.IsTop t := by
      rintro t (rfl | rfl)
      · exact h.top
      · exact h.nextTop
    have htop := hisTop top ht
    rw [h.max_eq] at hlt hfit
    have hlt' := handle_lt htop hlt
    have hsmall := s.small
    have hne : obj ||| top ≠ U32.allOnes := by rw [U32.allOnes]; omega
    -- the bit is clear whether or not anything is taken
    have hobj : zone.bitmap.table obj = false := by
      obtain ⟨obj', hlt₂, hclear', top', ht', heq⟩ :=
        (bitmapAllocRange_fromClear hmax hcnt hr).resolve_left hne
      rw [h.max_eq] at hlt₂
      have hmod := s.table.handle_mod htop (hlt.trans_le max_le)
      have hmod' := s.table.handle_mod (hisTop top' ht') (hlt₂.trans_le max_le)
      dsimp only at heq
      rw [heq, hmod'] at hmod
      rw [← hmod]
      exact hclear'
    have hbase : U32.wrap ((obj ||| top) + zone.offset) = s.offset + (top + obj) := by
      rw [h.offset_eq, U32.wrap_of_lt (by omega), s.table.handle_eq htop (hlt.trans_le max_le),
        Nat.add_comm]
    refine .inr ⟨hne, ?_, ?_⟩
    · rw [U32.wrap_of_lt (by rw [h.offset_eq]; omega), h.offset_eq, U32.allOnes]
      omega
    · rw [hbase]
      exact h.takeAt htop hlt hfit hobj hclear

/-- The free of a live range clears its bits and leaves those of the others. -/
theorem Holds.free (h : s.Holds zone live) {i : Nat} {e : QpRange} (he : live[i]? = some e)
    (hu : e.uid = s.uid) (useRr : Bool) :
    s.Holds
      { zone with bitmap := bitmapFreeRange zone.bitmap (U32.sub e.base zone.offset) e.cnt useRr }
      (live.eraseIdx i) := by
  have hp := h.placed e (mem_of_getElem? he) hu
  obtain ⟨top, ht, hbase⟩ := hp.top
  have hmasked : bitmapMaskedValue zone.bitmap (U32.sub e.base zone.offset) = s.bit e := by
    rw [h.offset_eq, U32.sub_of_le (by omega) hp.base_lt]
    exact BitmapState.masked_eq h.max_eq h.reservedTop_eq _
  have hkeep : ∀ j, zone.bitmap.table j = true → ¬(s.bit e ≤ j ∧ j < s.bit e + e.cnt) →
      (bitmapFreeRange zone.bitmap (U32.sub e.base zone.offset) e.cnt useRr).table j = true := by
    intro j hj hout
    simp only [bitmapFreeRange, hmasked]
    exact Bitmap.clearRange_eq_true.mpr ⟨hout, hj⟩
  have hrest : ∀ d ∈ live.eraseIdx i, d ∈ live ∧ (d.uid = s.uid → s.Apart d e) := by
    intro d hd
    have hperm := getElem_cons_eraseIdx_perm (List.getElem?_eq_some_iff.mp he).1
    rw [(List.getElem?_eq_some_iff.mp he).2] at hperm
    have hpw := (hperm.pairwise_iff
      (R := fun d e : QpRange => d.uid = s.uid → e.uid = s.uid → s.Apart d e)
      (fun hde h₁ h₂ => (hde h₂ h₁).symm)).mpr h.apart
    exact ⟨mem_of_mem_eraseIdx hd,
      fun hdu => ((pairwise_cons.mp hpw).1 d hd hu hdu).symm⟩
  refine
    { offset_eq := h.offset_eq, max_eq := h.max_eq, reservedTop_eq := h.reservedTop_eq
      mask_eq := h.mask_eq, len_eq := h.len_eq, top := ?_, reserved := ?_, placed := ?_
      apart := h.apart.sublist (eraseIdx_sublist ..) }
  · simp only [bitmapFreeRange]
    split
    · exact h.top
    · exact h.nextTop
  · intro j hj
    exact hkeep j (h.reserved j hj) fun hin => (hp.set j hin.1 hin.2).2 hj
  · intro d hd hdu
    obtain ⟨hmem, hapart⟩ := hrest d hd
    have hpd := h.placed d hmem hdu
    refine { hpd with set := fun j h₁ h₂ => ⟨?_, (hpd.set j h₁ h₂).2⟩ }
    exact hkeep j (hpd.set j h₁ h₂).1 fun hin => hapart hdu j ⟨⟨h₁, h₂⟩, hin⟩

end ZoneSpec

namespace QpState

/-- The zones are as specified, and each live range is of one of them. -/
structure Zoned (specs : List ZoneSpec) (mask : Nat) (st : QpState) : Prop where
  uids : (st.zones.entries.map fun zone => zone.uid) = specs.map fun s => s.uid
  nodup : (specs.map fun s => s.uid).Nodup
  holds : ∀ s ∈ specs, ∀ zone, findZoneByUid st.zones s.uid = some zone → s.Holds zone st.live
  mask_eq : st.zones.mask = mask
  noOverlap : st.zones.noOverlap = true
  live : ∀ e ∈ st.live, ∃ s ∈ specs, e.uid = s.uid

variable {specs : List ZoneSpec} {mask : Nat} {st : QpState}

theorem Zoned.spec_of_find (h : Zoned specs mask st) {uid : Nat} {zone : ZoneEntry}
    (hz : findZoneByUid st.zones uid = some zone) : ∃ s ∈ specs, s.uid = uid := by
  obtain ⟨hmem, rfl⟩ := findZoneByUid_mem hz
  have hu : zone.uid ∈ specs.map fun s => s.uid := by
    rw [← h.uids]
    exact mem_map_of_mem hmem
  exact mem_map.mp hu

/-- One zone gets a new bitmap, and the live ranges change in a way the other zones allow. -/
theorem Zoned.setBitmap (h : Zoned specs mask st) {s : ZoneSpec} (hs : s ∈ specs)
    {zone : ZoneEntry} (hz : findZoneByUid st.zones s.uid = some zone) {b : BitmapAllocator}
    {live' : List QpRange} (hown : s.Holds { zone with bitmap := b } live')
    (hother : ∀ t : ZoneSpec, t.uid ≠ s.uid → ∀ z, t.Holds z st.live → t.Holds z live')
    (hlive : ∀ e ∈ live', ∃ s ∈ specs, e.uid = s.uid) :
    Zoned specs mask { zones := st.zones.setBitmap s.uid b, live := live' } := by
  refine
    { uids := by rw [setBitmap_uids]; exact h.uids
      nodup := h.nodup, holds := ?_, mask_eq := h.mask_eq, noOverlap := h.noOverlap
      live := hlive }
  intro t ht z hfind
  by_cases htu : t.uid = s.uid
  · obtain rfl : t = s := inj_on_of_nodup_map h.nodup ht hs htu
    rw [findZoneByUid_setBitmap_self b hz] at hfind
    obtain rfl := Option.some.inj hfind
    exact hown
  · rw [findZoneByUid_setBitmap_ne b htu] at hfind
    exact hother t htu z (h.holds t ht z hfind)

theorem Zoned.allocFromZones (h : Zoned specs mask st) {fuel cnt align skipMask : Nat}
    (hcnt : cnt < 2 ^ 31) {uids : List Nat} {r : ZoneAllocator × Nat × Nat}
    (hr : allocFromZones fuel cnt align skipMask uids st.zones = some r) :
    Zoned specs mask
      { zones := r.1
        live := if r.2.1 = U32.allOnes then st.live
          else { base := r.2.1, cnt := cnt, uid := r.2.2 } :: st.live } := by
  induction uids generalizing st with
  | nil =>
    obtain rfl := Option.some.inj hr
    exact h
  | cons u uids ih =>
    unfold Mlx4.allocFromZones at hr
    split at hr
    case h_1 => exact ih h hr
    case h_2 zone hz =>
      obtain ⟨s, hs, rfl⟩ := h.spec_of_find hz
      split at hr
      case h_1 => cases hr
      case h_2 b res halloc =>
        rcases (h.holds s hs zone hz).alloc hcnt halloc with
          ⟨rfl, hown⟩ | ⟨hne, hbase, hown⟩
        · -- the attempt has failed: the bitmap may have rotated
          have hset := h.setBitmap hs hz hown (fun _ _ _ ht => ht) h.live
          have hrest := ih hset hr
          exact hrest
        · rw [if_pos hne] at hr
          obtain rfl := Option.some.inj hr
          rw [if_neg hbase]
          apply h.setBitmap hs hz hown
          · exact fun t htu z ht => ht.cons_other (Ne.symm htu)
          · intro e he
            rcases mem_cons.mp he with rfl | he
            · exact ⟨s, hs, rfl⟩
            · exact h.live e he

theorem Zoned.reserve {dev : QpDev} (h : Zoned specs mask st) {fuel cnt align flags : Nat}
    (hcnt : cnt < 2 ^ 31) : Zoned specs mask (st.step dev (.reserve fuel cnt align flags)) := by
  simp only [step]
  split
  case h_1 => exact h
  case h_2 zones base uid hr =>
    unfold qpReserveRange at hr
    dsimp only at hr
    split at hr
    case isTrue =>
      obtain ⟨rfl, rfl, rfl⟩ := Option.some.inj hr
      exact h
    case isFalse =>
      unfold zoneAllocEntries at hr
      split at hr
      case h_1 =>
        obtain ⟨rfl, rfl, rfl⟩ := Option.some.inj hr
        exact h
      case h_2 => exact h.allocFromZones hcnt hr

/-- The release finds the zone of the range. -/
def Finds (dev : QpDev) (st : QpState) (e : QpRange) : Prop :=
  dev.isQpReserved e.base = false ∧
    ∃ zone, findZoneByUid st.zones e.uid = some zone ∧
      findZoneByUidUnique st.zones e.base = some zone

theorem Zoned.release {dev : QpDev} (h : Zoned specs mask st)
    (hfinds : ∀ e ∈ st.live, st.Finds dev e) (i : Nat) :
    Zoned specs mask (st.step dev (.release i)) := by
  simp only [step]
  split
  case h_1 => exact h
  case h_2 e he =>
    have hmem := mem_of_getElem? he
    obtain ⟨hres, zone, hz, hunique⟩ := hfinds e hmem
    obtain ⟨s, hs, hu⟩ := h.live e hmem
    have hrelease : qpReleaseRange dev st.zones e.base e.cnt =
        st.zones.setBitmap s.uid
          (bitmapFreeRange zone.bitmap (U32.sub e.base zone.offset) e.cnt zone.useRr) := by
      have hzu := (findZoneByUid_mem hz).2
      unfold qpReleaseRange zoneFreeEntriesUnique freeFromZone
      rw [hres, h.noOverlap, hunique]
      dsimp only
      rw [if_neg (by decide), if_neg (by decide), hzu, hu]
    rw [hrelease]
    rw [hu] at hz
    apply h.setBitmap hs hz
    · exact (h.holds s hs zone hz).free he hu zone.useRr
    · exact fun t _ z ht => ht.sublist (eraseIdx_sublist ..)
    · exact fun d hd => h.live d (mem_of_mem_eraseIdx hd)

end QpState

end Mlx4
