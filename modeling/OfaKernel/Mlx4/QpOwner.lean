-- SUMMARY: QP numbers go back to the zone they came from.
import OfaKernel.Mlx4.QpZones

/-!
# The owner of a QP number

The search for the smallest zone around a number finds the one it came from: RAW_ETH is carved
out of RSS, and GENERAL is the longest.
-/

open List

namespace Mlx4

/-! ## The sizes of the regions -/

namespace QpDev

variable (dev : QpDev)

/-- `mlx4_init_qp_table` has room for the reserved regions. -/
def Accepted : Prop := dev.numReservedSqps + dev.reservedFromTop ≤ dev.numQps

instance : Decidable dev.Accepted :=
  inferInstanceAs (Decidable (dev.numReservedSqps + dev.reservedFromTop ≤ dev.numQps))

theorem fw_bounds : 0 < dev.reservedQpsCnt .fw ∧ dev.reservedQpsCnt .fw ≤ 2 ^ 15 := by
  have hle : dev.rsvdQp &&& 0xf ≤ 15 := Nat.and_le_right
  unfold reservedQpsCnt reservedQps
  rw [Nat.one_shiftLeft]
  exact ⟨Nat.two_pow_pos _, Nat.pow_le_pow_right (by decide) hle⟩

theorem rssRawEth_bounds :
    0 < dev.reservedQpsCnt .rssRawEth ∧ dev.reservedQpsCnt .rssRawEth < 2 ^ 24 := by
  unfold reservedQpsCnt
  dsimp only
  split
  case isTrue hA0 =>
    simp only [hasA0, Bool.and_eq_true, decide_eq_true_eq] at hA0
    have hle : dev.highRateQpnRange &&& mgmQpnMask ≤ mgmQpnMask := Nat.and_le_right
    exact ⟨hA0.1, hle.trans_lt (by decide)⟩
  case isFalse => exact ⟨by decide, by decide⟩

theorem maxTableOffset_lt : dev.maxTableOffset < 2 ^ 25 := by
  have hfw := dev.fw_bounds
  have hbase : dev.dmfsHighRateQpnBase < 2 ^ 24 := by
    unfold dmfsHighRateQpnBase
    split
    · have hle : dev.highRateQpnBase &&& mgmQpnMask ≤ mgmQpnMask := Nat.and_le_right
      exact hle.trans_lt (by decide)
    · have hfw' : dev.reservedQps ≤ 2 ^ 15 := hfw.2
      omega
  have hrange : dev.dmfsHighRateQpnRange < 2 ^ 24 := by
    unfold dmfsHighRateQpnRange
    split
    · have hle : dev.highRateQpnRange &&& mgmQpnMask ≤ mgmQpnMask := Nat.and_le_right
      exact hle.trans_lt (by decide)
    · decide
  unfold maxTableOffset
  rw [U32.wrap_of_lt (by omega)]
  omega

theorem fixedReserved_bounds :
    dev.reservedQpsCnt .fw + dev.reservedQpsCnt .rssRawEth ≤ dev.fixedReservedFromBot ∧
      dev.fixedReservedFromBot < 2 ^ 25 := by
  have hfw := dev.fw_bounds
  have hrss := dev.rssRawEth_bounds
  have hmax := dev.maxTableOffset_lt
  unfold fixedReservedFromBot
  dsimp only
  split
  all_goals omega

/-- The RSS table is the power of two behind the reserved numbers. -/
theorem bottomReserved_bounds :
    dev.fixedReservedFromBot < dev.bottomReservedForRss ∧ dev.bottomReservedForRss ≤ 2 ^ 25 := by
  have hfixed := dev.fixedReserved_bounds.2
  constructor
  · exact Nat.le_pow_clog (by decide) _
  · exact Nat.pow_le_pow_right (by decide) (Nat.clog_le_of_le_pow (by omega))

/-- `ALIGN(start, 8)`. -/
theorem alignUp_eight {start : Nat} (h : start + 7 < 2 ^ 32) :
    start ≤ alignUp start 8 ∧ alignUp start 8 ≤ start + 7 := by
  unfold alignUp
  rw [U32.sub_of_le (by decide) (by decide), show 8 - 1 = 7 from rfl, U32.wrap_of_lt h,
    show U32.allOnes - 7 = 2 ^ 32 - 2 ^ 3 by decide, U32.and_high h (by decide)]
  omega

theorem baseSqpn_bounds :
    dev.bottomReservedForRss ≤ dev.baseSqpn ∧ dev.baseSqpn ≤ dev.bottomReservedForRss + 7 := by
  have hbottom := dev.bottomReserved_bounds.2
  exact alignUp_eight (by omega)

theorem numReservedSqps_bounds :
    dev.baseSqpn + 8 ≤ dev.numReservedSqps ∧ dev.numReservedSqps ≤ dev.baseSqpn + 2056 := by
  have hmaster : dev.isMaster.toNat ≤ 1 := Bool.toNat_le _
  unfold numReservedSqps
  omega

theorem reservedFromTop_bounds :
    2 ^ 16 ≤ dev.reservedFromTop ∧ dev.reservedFromTop ≤ 2 ^ 17 := by
  have haddr : 2 ^ dev.logNumMacs * 2 ^ dev.logNumVlans * dev.numPorts ≤ 2 ^ 15 := by
    have hmacs : 2 ^ dev.logNumMacs ≤ 2 ^ 7 := Nat.pow_le_pow_right (by decide) dev.logNumMacs_le
    have hvlans : 2 ^ dev.logNumVlans ≤ 2 ^ 7 :=
      Nat.pow_le_pow_right (by decide) dev.logNumVlans_le
    calc 2 ^ dev.logNumMacs * 2 ^ dev.logNumVlans * dev.numPorts
        ≤ 2 ^ 7 * 2 ^ 7 * 2 := Nat.mul_le_mul (Nat.mul_le_mul hmacs hvlans) dev.numPorts_le
      _ = 2 ^ 15 := by decide
  unfold reservedFromTop reservedQpsCnt
  dsimp only
  omega

/-- `effective_len` of the GENERAL zone: `num_qps` with the special QPs taken off twice. -/
def generalLen : Nat := U32.sub (U32.sub dev.numQps dev.numReservedSqps) dev.numReservedSqps

theorem numQps_le : dev.numQps ≤ 2 ^ 30 := Nat.pow_le_pow_right (by decide) dev.logNumQps_le

variable {dev}

theorem Accepted.fixed_lt (h : dev.Accepted) :
    dev.fixedReservedFromBot < dev.numReservedSqps ∧ dev.fixedReservedFromBot < dev.numQps := by
  have hbottom := dev.bottomReserved_bounds.1
  have hbase := dev.baseSqpn_bounds.1
  have hsqps := dev.numReservedSqps_bounds.1
  unfold Accepted at h
  omega

/-- The GENERAL zone is longer than the RSS zone. When the special QPs take more
than half of the numbers, its length wraps around and is larger still. -/
theorem Accepted.generalLen_bounds (h : dev.Accepted) :
    dev.fixedReservedFromBot < dev.generalLen ∧ dev.generalLen < U32.allOnes := by
  have hfixed := dev.bottomReserved_bounds.1
  have hbase := dev.baseSqpn_bounds
  have hsqps := dev.numReservedSqps_bounds
  have htop := dev.reservedFromTop_bounds.1
  have hnum := dev.numQps_le
  unfold Accepted at h
  unfold generalLen
  have hrest : U32.sub dev.numQps dev.numReservedSqps = dev.numQps - dev.numReservedSqps :=
    U32.sub_of_le (by omega) (by omega)
  rw [hrest, U32.allOnes]
  -- both are powers of two, and the smaller one is at most half of the other
  obtain ⟨a, ha⟩ : ∃ a, dev.bottomReservedForRss = 2 ^ a := ⟨_, rfl⟩
  have hlt : a < dev.logNumQps := by
    have hpow : 2 ^ a < 2 ^ dev.logNumQps := by
      change _ < dev.numQps
      omega
    exact (Nat.pow_lt_pow_iff_right (by decide)).mp hpow
  rcases Nat.lt_or_ge (a + 1) dev.logNumQps with hquarter | hhalf
  · have hfour : 4 * dev.bottomReservedForRss ≤ dev.numQps := by
      have hpow : 2 ^ (a + 2) ≤ 2 ^ dev.logNumQps := Nat.pow_le_pow_right (by decide) hquarter
      rw [pow_add] at hpow
      change _ ≤ 2 ^ dev.logNumQps
      omega
    rw [U32.sub_of_le (by omega) (by omega)]
    omega
  · have htwo : dev.numQps = 2 * dev.bottomReservedForRss := by
      rw [ha, numQps, show dev.logNumQps = a + 1 by omega, pow_succ, Nat.mul_comm]
    unfold U32.sub
    omega

end QpDev

/-! ## The layout -/

/-- Where the RAW_ETH zone lies: carved out of RSS, or empty behind it. -/
structure RawPlace (dev : QpDev) where
  offset : Nat
  k : Nat
  mask : Nat
  size : Nat
  empty : Prop
  k_le : k ≤ 8
  mask_lt : mask < 2 ^ 8
  size_le : size ≤ 2 ^ k
  le_offset : dev.reservedQpsCnt .fw ≤ offset
  end_le : offset + size ≤ dev.fixedReservedFromBot + 1
  carved : ¬empty → offset + size ≤ dev.fixedReservedFromBot ∧ mask < 2 ^ k

namespace QpDev

variable {dev : QpDev}

/-- The GENERAL zone gives none of the reserved and special QPs. -/
def Accepted.general (h : dev.Accepted) : ZoneSpec :=
  { uid := 0
    offset := 0
    table :=
      { k := dev.logNumQps, mask := 2 ^ 23 - 1, reservedBot := 0, reservedTop := dev.numReservedSqps
        k_le := dev.logNumQps_le.trans (by decide)
        mask_lt := by decide
        reserved_le := by
          rw [Nat.zero_add]
          exact (Nat.le_add_right _ _).trans h }
    len := dev.generalLen
    reserved := fun j => j < dev.numReservedSqps
    bits := 30
    k_le := dev.logNumQps_le
    mask_lt := show 2 ^ 23 - 1 < 2 ^ 30 by decide
    small := by decide }

end QpDev

namespace RawPlace

variable {dev : QpDev} (raw : RawPlace dev)

/-- The number lies in the RAW_ETH zone. -/
def Has (n : Nat) : Prop := raw.offset ≤ n ∧ n < raw.offset + raw.size

/-- The RSS zone gives what the firmware and the carve-out leave. -/
def rss : ZoneSpec :=
  { uid := 1
    offset := 0
    table :=
      { k := Nat.clog 2 (dev.fixedReservedFromBot + 1), mask := dev.bottomReservedForRss - 1
        reservedBot := 0, reservedTop := dev.bottomReservedForRss - dev.fixedReservedFromBot
        k_le := (Nat.clog_le_of_le_pow (by have := dev.fixedReserved_bounds; omega)).trans
          (show 25 ≤ 31 by decide)
        mask_lt := by have := dev.bottomReserved_bounds; omega
        reserved_le := by
          rw [Nat.zero_add]
          exact Nat.sub_le _ _ }
    len := dev.fixedReservedFromBot - dev.reservedQpsCnt .fw
    reserved := fun j =>
      j < dev.reservedQpsCnt .fw ∨ (j < dev.fixedReservedFromBot ∧ raw.Has j)
    bits := 25
    k_le := Nat.clog_le_of_le_pow (by have := dev.fixedReserved_bounds; omega)
    mask_lt := show dev.bottomReservedForRss - 1 < 2 ^ 25 by
      have := dev.bottomReserved_bounds
      omega
    small := by decide }

def zone : ZoneSpec :=
  { uid := 2
    offset := raw.offset
    table :=
      { k := raw.k, mask := raw.mask, reservedBot := 0, reservedTop := 2 ^ raw.k - raw.size
        k_le := raw.k_le.trans (by decide)
        mask_lt := raw.mask_lt.trans (by decide)
        reserved_le := by
          rw [Nat.zero_add]
          exact Nat.sub_le _ _ }
    len := raw.size
    reserved := fun j => raw.empty ∧ j < raw.size
    bits := 8
    k_le := raw.k_le
    mask_lt := raw.mask_lt
    small := by
      have := raw.end_le
      have := dev.fixedReserved_bounds
      omega }

/-- The zones in the order of `entries`. -/
def specs (h : dev.Accepted) : List ZoneSpec := [h.general, raw.zone, raw.rss]

variable {raw}

theorem rss_max : raw.rss.max = dev.fixedReservedFromBot := by
  have hlt := dev.bottomReserved_bounds.1
  change dev.bottomReservedForRss - (dev.bottomReservedForRss - dev.fixedReservedFromBot) = _
  omega

theorem zone_max : raw.zone.max = raw.size := by
  have hle := raw.size_le
  change 2 ^ raw.k - (2 ^ raw.k - raw.size) = raw.size
  omega

end RawPlace

/-! ## Where the numbers of a zone lie -/

theorem TableParams.IsTop.eq_zero {p : TableParams} {top : Nat} (h : p.IsTop top)
    (hmask : p.mask < 2 ^ p.k) : top = 0 := by
  have hle := Nat.and_le_right (n := top) (m := p.mask)
  rw [h.sub_mask] at hle
  exact Nat.eq_zero_of_dvd_of_lt h.dvd (hle.trans_lt hmask)

/-- The first number of a range, as it is looked up. -/
def QpDev.first (dev : QpDev) (e : QpRange) : Nat := e.base % dev.numQps

variable {dev : QpDev} {raw : RawPlace dev} {t : Bitmap} {e : QpRange}

theorem general_placed (h : dev.Accepted) (he : h.general.Placed t e) :
    h.general.bit e = dev.first e ∧ dev.numReservedSqps ≤ dev.first e ∧
      dev.first e < dev.numQps - dev.numReservedSqps ∧
      dev.first e + e.cnt ≤ dev.numQps - dev.numReservedSqps := by
  have hbit : h.general.bit e = dev.first e := rfl
  have hlt := he.lt
  have hfits := he.fits
  have hfree := he.free
  exact ⟨hbit, Nat.le_of_not_lt hfree, hlt, hfits⟩

theorem rss_placed (h : dev.Accepted) (he : raw.rss.Placed t e) :
    raw.rss.bit e = dev.first e ∧ e.base = dev.first e ∧
      dev.reservedQpsCnt .fw ≤ dev.first e ∧ dev.first e < dev.fixedReservedFromBot ∧
      dev.first e + e.cnt ≤ dev.fixedReservedFromBot ∧ ¬raw.Has (dev.first e) ∧
      ∀ j, dev.first e ≤ j → j < dev.first e + e.cnt → ¬raw.Has j := by
  obtain ⟨top, htop, hbase⟩ := he.top
  have hbottom := dev.bottomReserved_bounds
  have hmask : raw.rss.table.mask < 2 ^ raw.rss.table.k := by
    change dev.bottomReservedForRss - 1 < dev.bottomReservedForRss
    omega
  rw [htop.eq_zero hmask, Nat.zero_add] at hbase
  have hoff : raw.rss.offset = 0 := rfl
  rw [hoff, Nat.zero_add] at hbase
  have hlt := he.lt
  have hfits := he.fits
  rw [raw.rss_max] at hlt hfits
  have hnum : dev.fixedReservedFromBot < dev.numQps := h.fixed_lt.2
  have hbit : raw.rss.bit e = dev.first e := by
    unfold QpDev.first
    rw [hbase, Nat.mod_eq_of_lt (hlt.trans hnum)]
  have hfree := he.free
  have hset := he.set
  rw [hbit] at hbase hlt hfits hfree hset
  have hnot : ∀ j, j < dev.fixedReservedFromBot → ¬raw.rss.reserved j →
      dev.reservedQpsCnt .fw ≤ j ∧ ¬raw.Has j := by
    intro j hj hres
    exact ⟨Nat.le_of_not_lt fun hlow => hres (.inl hlow), fun hhas => hres (.inr ⟨hj, hhas⟩)⟩
  obtain ⟨hlow, hhas⟩ := hnot _ hlt hfree
  exact ⟨hbit, hbase, hlow, hlt, hfits, hhas,
    fun j h₁ h₂ => (hnot j (h₂.trans_le hfits) (hset j h₁ h₂).2).2⟩

theorem raw_placed (h : dev.Accepted) (he : raw.zone.Placed t e) :
    raw.offset + raw.zone.bit e = dev.first e ∧ e.base = dev.first e ∧
      raw.Has (dev.first e) ∧ dev.first e + e.cnt ≤ raw.offset + raw.size ∧
      raw.offset + raw.size ≤ dev.fixedReservedFromBot := by
  have hlt := he.lt
  have hfits := he.fits
  rw [raw.zone_max] at hlt hfits
  obtain ⟨hend, hmask⟩ := raw.carved fun hempty => he.free ⟨hempty, hlt⟩
  obtain ⟨top, htop, hbase⟩ := he.top
  rw [htop.eq_zero hmask, Nat.zero_add] at hbase
  have hoff : raw.zone.offset = raw.offset := rfl
  rw [hoff] at hbase
  have hnum : dev.fixedReservedFromBot < dev.numQps := h.fixed_lt.2
  have hfirst : raw.offset + raw.zone.bit e = dev.first e := by
    unfold QpDev.first
    rw [hbase, Nat.mod_eq_of_lt (by omega)]
  rw [← hfirst]
  exact ⟨rfl, hbase, ⟨by omega, by omega⟩, by omega, hend⟩

namespace QpState

variable {st : QpState} {h : dev.Accepted}

/-- The entries of the table, one for each zone. -/
theorem Zoned.entries (hz : Zoned (raw.specs h) (dev.numQps - 1) st) :
    ∃ g w r, st.zones.entries = [g, w, r] ∧ (g.uid = 0 ∧ w.uid = 2 ∧ r.uid = 1) ∧
      h.general.Holds g st.live ∧ raw.zone.Holds w st.live ∧ raw.rss.Holds r st.live := by
  have huids := hz.uids
  change _ = [0, 2, 1] at huids
  obtain ⟨g, l, hg, hgu, hl⟩ := map_eq_cons_iff.mp huids
  obtain ⟨w, l', rfl, hwu, hl'⟩ := map_eq_cons_iff.mp hl
  obtain ⟨r, l'', rfl, hru, hl''⟩ := map_eq_cons_iff.mp hl'
  obtain rfl := map_eq_nil_iff.mp hl''
  have hnodup : (st.zones.entries.map fun zone => zone.uid).Nodup := by
    rw [huids]
    decide
  have hfind : ∀ s ∈ raw.specs h, ∀ zone ∈ st.zones.entries, zone.uid = s.uid →
      s.Holds zone st.live := by
    intro s hs zone hmem hu
    apply hz.holds s hs zone
    rw [← hu]
    exact findZoneByUid_of_mem hnodup hmem
  refine ⟨g, w, r, hg, ⟨hgu, hwu, hru⟩, ?_, ?_, ?_⟩
  · exact hfind _ (by simp [RawPlace.specs]) g (by rw [hg]; simp) hgu
  · exact hfind _ (by simp [RawPlace.specs]) w (by rw [hg]; simp) hwu
  · exact hfind _ (by simp [RawPlace.specs]) r (by rw [hg]; simp) hru

theorem Zoned.uid_of_live (hz : Zoned (raw.specs h) (dev.numQps - 1) st) (he : e ∈ st.live) :
    e.uid = 0 ∨ e.uid = 2 ∨ e.uid = 1 := by
  obtain ⟨s, hs, hu⟩ := hz.live e he
  simp only [RawPlace.specs, mem_cons, not_mem_nil, or_false] at hs
  rcases hs with rfl | rfl | rfl
  · exact .inl hu
  · exact .inr (.inl hu)
  · exact .inr (.inr hu)

/-- What `zones->mask` leaves of a number at an offset. -/
theorem window_value {base offset T q : Nat} (hT : dev.numQps ∣ T) (hbase : base = T + q)
    (hlt : base < 2 ^ 32) (hq : q < dev.numQps) (hoff : offset ≤ q) :
    U32.sub base offset &&& (dev.numQps - 1) = q - offset := by
  obtain ⟨c, rfl⟩ := hT
  rw [U32.sub_of_le (by omega) hlt, QpDev.numQps, Nat.and_two_pow_sub_one_eq_mod, hbase,
    Nat.add_sub_assoc hoff]
  change (dev.numQps * c + (q - offset)) % dev.numQps = q - offset
  rw [Nat.mul_add_mod, Nat.mod_eq_of_lt (by omega)]

theorem Zoned.finds_general (hz : Zoned (raw.specs h) (dev.numQps - 1) st) (he : e ∈ st.live)
    (hu : e.uid = 0) : st.Finds dev e := by
  obtain ⟨g, w, r, hentries, ⟨hgu, hwu, hru⟩, hg, hw, hr⟩ := hz.entries
  have hp := hg.placed e he hu
  obtain ⟨-, hlow, hhigh, -⟩ := general_placed h hp
  have hfixed := h.fixed_lt
  have hraw := raw.end_le
  have hlen := h.generalLen_bounds
  have hbase : e.base = dev.numQps * (e.base / dev.numQps) + dev.first e :=
    (Nat.div_add_mod _ _).symm
  have hT : dev.numQps ∣ dev.numQps * (e.base / dev.numQps) := Nat.dvd_mul_right _ _
  have hfirst : dev.first e < dev.numQps := hhigh.trans_le (Nat.sub_le _ _)
  refine ⟨?_, g, ?_, ?_⟩
  · have hfw := dev.fixedReserved_bounds.1
    have hsum : dev.numReservedSqps = dev.baseSqpn + 8 + 16 * 128 * dev.isMaster.toNat := rfl
    unfold QpDev.isQpReserved
    simp only [Bool.or_eq_false_iff, Bool.and_eq_false_iff, decide_eq_false_iff_not]
    constructor <;> omega
  · rw [hu, ← hgu]
    exact findZoneByUid_of_mem (by rw [hz.uids]; exact hz.nodup) (by rw [hentries]; simp)
  · have hsplit : st.zones.entries = [] ++ g :: [w, r] := hentries
    apply findZoneByUidUnique_eq hsplit
    · rw [hz.mask_eq]
      unfold ZoneEntry.InWindow
      rw [hg.offset_eq, hg.max_eq]
      change 0 ≤ e.base ∧ U32.sub e.base 0 &&& (dev.numQps - 1) < dev.numQps - dev.numReservedSqps
      rw [window_value hT hbase hp.base_lt hfirst (Nat.zero_le _)]
      exact ⟨Nat.zero_le _, hhigh⟩
    · rw [hg.len_eq]
      exact hlen.2
    · exact fun y hy => absurd hy (by simp)
    · -- the other zones end in front of the number
      intro y hy hwin
      rw [hz.mask_eq] at hwin
      rcases mem_cons.mp hy with rfl | hy
      · obtain ⟨-, hwin⟩ := hwin
        rw [hw.offset_eq, hw.max_eq, raw.zone_max] at hwin
        change U32.sub e.base raw.offset &&& _ < _ at hwin
        rw [window_value hT hbase hp.base_lt hfirst (by omega)] at hwin
        omega
      · obtain rfl := mem_singleton.mp hy
        obtain ⟨-, hwin⟩ := hwin
        rw [hr.offset_eq, hr.max_eq, raw.rss_max] at hwin
        change U32.sub e.base 0 &&& _ < _ at hwin
        rw [window_value hT hbase hp.base_lt hfirst (Nat.zero_le _)] at hwin
        omega

/-- A number of the RSS table is not reserved when the firmware has not taken it. -/
theorem not_reserved_of_bottom {n : Nat} (hlow : dev.reservedQpsCnt .fw ≤ n)
    (hhigh : n < dev.fixedReservedFromBot) : dev.isQpReserved n = false := by
  have hbottom := dev.bottomReserved_bounds.1
  have hbase := dev.baseSqpn_bounds.1
  unfold QpDev.isQpReserved
  simp only [Bool.or_eq_false_iff, Bool.and_eq_false_iff, decide_eq_false_iff_not]
  constructor <;> omega

theorem Zoned.finds_raw (hz : Zoned (raw.specs h) (dev.numQps - 1) st) (he : e ∈ st.live)
    (hu : e.uid = 2) : st.Finds dev e := by
  obtain ⟨g, w, r, hentries, ⟨hgu, hwu, hru⟩, hg, hw, hr⟩ := hz.entries
  have hp := hw.placed e he hu
  obtain ⟨-, hbase, hhas, -, hend⟩ := raw_placed h hp
  have hlow := raw.le_offset
  have hfixed := h.fixed_lt
  have hlen := h.generalLen_bounds
  obtain ⟨hhas₁, hhas₂⟩ := hhas
  refine ⟨?_, w, ?_, ?_⟩
  · exact not_reserved_of_bottom (by omega) (by omega)
  · rw [hu, ← hwu]
    exact findZoneByUid_of_mem (by rw [hz.uids]; exact hz.nodup) (by rw [hentries]; simp)
  · have hlenw : w.bitmap.effectiveLen = raw.size := hw.len_eq
    have hsplit : st.zones.entries = [g] ++ w :: [r] := hentries
    apply findZoneByUidUnique_eq hsplit
    · rw [hz.mask_eq]
      unfold ZoneEntry.InWindow
      rw [hw.offset_eq, hw.max_eq, raw.zone_max]
      change raw.offset ≤ e.base ∧ U32.sub e.base raw.offset &&& (dev.numQps - 1) < raw.size
      have hbase' : e.base = 0 + dev.first e := by rw [Nat.zero_add]; exact hbase
      rw [window_value (Nat.dvd_zero _) hbase' hp.base_lt (by omega) hhas₁]
      omega
    · omega
    · -- GENERAL is longer
      intro y hy _
      obtain rfl := mem_singleton.mp hy
      rw [hlenw, hg.len_eq]
      change raw.size < dev.generalLen
      omega
    · intro y hy _
      obtain rfl := mem_singleton.mp hy
      rw [hlenw, hr.len_eq]
      change raw.size ≤ dev.fixedReservedFromBot - dev.reservedQpsCnt .fw
      omega

theorem Zoned.finds_rss (hz : Zoned (raw.specs h) (dev.numQps - 1) st) (he : e ∈ st.live)
    (hu : e.uid = 1) : st.Finds dev e := by
  obtain ⟨g, w, r, hentries, ⟨hgu, hwu, hru⟩, hg, hw, hr⟩ := hz.entries
  have hp := hr.placed e he hu
  obtain ⟨-, hbase, hlow, hhigh, -, hnot, -⟩ := rss_placed h hp
  have hfixed := h.fixed_lt
  have hlen := h.generalLen_bounds
  refine ⟨?_, r, ?_, ?_⟩
  · rw [hbase]
    exact not_reserved_of_bottom hlow hhigh
  · rw [hu, ← hru]
    exact findZoneByUid_of_mem (by rw [hz.uids]; exact hz.nodup) (by rw [hentries]; simp)
  · have hlenr : r.bitmap.effectiveLen =
        dev.fixedReservedFromBot - dev.reservedQpsCnt .fw := hr.len_eq
    have hsplit : st.zones.entries = [g, w] ++ r :: [] := hentries
    apply findZoneByUidUnique_eq hsplit
    · rw [hz.mask_eq]
      unfold ZoneEntry.InWindow
      rw [hr.offset_eq, hr.max_eq, raw.rss_max]
      change 0 ≤ e.base ∧ U32.sub e.base 0 &&& (dev.numQps - 1) < dev.fixedReservedFromBot
      have hbase' : e.base = 0 + dev.first e := by rw [Nat.zero_add]; exact hbase
      rw [window_value (Nat.dvd_zero _) hbase' hp.base_lt (by omega) (Nat.zero_le _)]
      exact ⟨Nat.zero_le _, hhigh⟩
    · omega
    · intro y hy hwin
      rw [hz.mask_eq] at hwin
      rcases mem_cons.mp hy with rfl | hy
      · rw [hlenr, hg.len_eq]
        change dev.fixedReservedFromBot - dev.reservedQpsCnt .fw < dev.generalLen
        omega
      · -- the number is not in the part carved out
        obtain rfl := mem_singleton.mp hy
        obtain ⟨hle, hwin⟩ := hwin
        rw [hw.offset_eq] at hle hwin
        change raw.offset ≤ e.base at hle
        rw [hw.max_eq, raw.zone_max] at hwin
        change U32.sub e.base raw.offset &&& _ < _ at hwin
        have hbase' : e.base = 0 + dev.first e := by rw [Nat.zero_add]; exact hbase
        have hle' : raw.offset ≤ dev.first e := by omega
        rw [window_value (Nat.dvd_zero _) hbase' hp.base_lt (by omega) hle'] at hwin
        have hhas : raw.Has (dev.first e) := ⟨by omega, by omega⟩
        exact absurd hhas hnot
    · exact fun y hy => absurd hy (by simp)

theorem Zoned.finds (hz : Zoned (raw.specs h) (dev.numQps - 1) st) (he : e ∈ st.live) :
    st.Finds dev e := by
  rcases hz.uid_of_live he with hu | hu | hu
  · exact hz.finds_general he hu
  · exact hz.finds_raw he hu
  · exact hz.finds_rss he hu

/-- The numbers of a range as the driver looks them up, from the first one on. -/
theorem maskedQpns_eq (hfits : dev.first e + e.cnt ≤ dev.numQps) :
    maskedQpns dev e = List.range' (dev.first e) e.cnt := by
  have hdvd : dev.numQps ∣ 2 ^ 32 := Nat.pow_dvd_pow 2 (dev.logNumQps_le.trans (by decide))
  rw [List.range'_eq_map_range]
  apply map_congr_left
  intro i hi
  have hi := mem_range.mp hi
  unfold U32.wrap
  rw [QpDev.numQps, Nat.and_two_pow_sub_one_eq_mod]
  change (e.base + i) % 2 ^ 32 % dev.numQps = dev.first e + i
  have hlt : dev.first e + i < dev.numQps := by omega
  rw [Nat.mod_mod_of_dvd _ hdvd, ← Nat.mod_eq_of_lt hlt]
  unfold QpDev.first
  rw [Nat.mod_add_mod]

/-- The numbers a zone gives. -/
def Region (raw : RawPlace dev) (uid n : Nat) : Prop :=
  (uid = 0 ∧ dev.numReservedSqps ≤ n) ∨
    (uid = 2 ∧ n < dev.fixedReservedFromBot ∧ raw.Has n) ∨
    (uid = 1 ∧ n < dev.fixedReservedFromBot ∧ ¬raw.Has n)

theorem region_unique {uid uid' n : Nat} (h : dev.Accepted) (hr : Region raw uid n)
    (hr' : Region raw uid' n) : uid = uid' := by
  have hfixed := h.fixed_lt.1
  rcases hr with ⟨rfl, hn⟩ | ⟨rfl, hn, hhas⟩ | ⟨rfl, hn, hhas⟩ <;>
    rcases hr' with ⟨rfl, hn'⟩ | ⟨rfl, hn', hhas'⟩ | ⟨rfl, hn', hhas'⟩ <;>
    first | rfl | omega | exact absurd ‹raw.Has n› ‹¬raw.Has n›

theorem Zoned.numbers (hz : Zoned (raw.specs h) (dev.numQps - 1) st) (he : e ∈ st.live) :
    dev.first e + e.cnt ≤ dev.numQps ∧
      ∀ n, dev.first e ≤ n → n < dev.first e + e.cnt → Region raw e.uid n := by
  obtain ⟨g, w, r, -, -, hg, hw, hr⟩ := hz.entries
  have hfixed := h.fixed_lt.2
  rcases hz.uid_of_live he with hu | hu | hu
  · obtain ⟨-, hlow, -, hfits⟩ := general_placed h (hg.placed e he hu)
    exact ⟨by omega, fun n h₁ _ => .inl ⟨hu, hlow.trans h₁⟩⟩
  · obtain ⟨-, -, ⟨hhas, -⟩, hfits, hend⟩ := raw_placed h (hw.placed e he hu)
    exact ⟨by omega, fun n h₁ h₂ => .inr (.inl ⟨hu, by omega, by omega, by omega⟩)⟩
  · obtain ⟨-, -, -, -, hfits, -, hnot⟩ := rss_placed h (hr.placed e he hu)
    exact ⟨by omega, fun n h₁ h₂ => .inr (.inr ⟨hu, by omega, hnot n h₁ h₂⟩)⟩

/-- Two ranges of one zone share no number. -/
theorem Zoned.apart (hz : Zoned (raw.specs h) (dev.numQps - 1) st) :
    st.live.Pairwise fun d e => d.uid = e.uid →
      ∀ n, ¬((dev.first d ≤ n ∧ n < dev.first d + d.cnt) ∧
        dev.first e ≤ n ∧ n < dev.first e + e.cnt) := by
  obtain ⟨g, w, r, -, -, hg, hw, hr⟩ := hz.entries
  have hall := hg.apart.and (hw.apart.and hr.apart)
  refine hall.imp_of_mem fun {d e} hd he hde hu n hn => ?_
  obtain ⟨hdg, hdw, hdr⟩ := hde
  rcases hz.uid_of_live he with heu | heu | heu
  · apply hdg (hu.trans heu) heu n
    exact hn
  · have hd' := raw_placed h (hw.placed d hd (hu.trans heu))
    have he' := raw_placed h (hw.placed e he heu)
    apply hdw (hu.trans heu) heu (n - raw.offset)
    omega
  · have hd' := rss_placed h (hr.placed d hd (hu.trans heu))
    have he' := rss_placed h (hr.placed e he heu)
    apply hdr (hu.trans heu) heu n
    rw [hd'.1, he'.1]
    exact hn

theorem Zoned.owned (hz : Zoned (raw.specs h) (dev.numQps - 1) st) : st.Owned dev := by
  constructor
  · intro e he
    obtain ⟨hres, zone, hfind, hunique⟩ := hz.finds he
    refine ⟨hres, ?_⟩
    rw [hunique, Option.map_some, (findZoneByUid_mem hfind).2]
  · apply nodup_flatMap.mpr
    constructor
    · intro e he
      rw [maskedQpns_eq (hz.numbers he).1]
      exact nodup_range'
    · refine hz.apart.imp_of_mem fun {d e} hd he hde => ?_
      obtain ⟨hdfits, hdregion⟩ := hz.numbers hd
      obtain ⟨hefits, heregion⟩ := hz.numbers he
      intro n hnd hne
      rw [maskedQpns_eq hdfits, mem_range'_1] at hnd
      rw [maskedQpns_eq hefits, mem_range'_1] at hne
      have hu := region_unique h (hdregion n hnd.1 hnd.2) (heregion n hne.1 hne.2)
      exact hde hu n ⟨hnd, hne⟩

end QpState

/-! ## The zones at the start -/

theorem bitmapInit_eq {mem : Bool} {num mask reservedBot reservedTop : Nat} {b : BitmapAllocator}
    (h : bitmapInit mem num mask reservedBot reservedTop = some b) :
    mem = true ∧ b =
      { last := 0, top := 0, max := U32.sub num reservedTop, reservedTop := reservedTop
        mask := mask, avail := U32.sub (U32.sub num reservedTop) reservedBot
        effectiveLen := U32.sub (U32.sub num reservedTop) reservedBot
        table := Bitmap.zero.setRange 0 reservedBot } := by
  unfold bitmapInit at h
  split at h
  case isTrue => cases h
  case isFalse =>
    split at h
    case isTrue hmem => exact ⟨hmem, (Option.some.inj h).symm⟩
    case isFalse => cases h

/-- The bitmaps of GENERAL and RSS, as the table is initialised. -/
def QpDev.generalInit (dev : QpDev) (mem : Bool) : Option BitmapAllocator :=
  bitmapInit mem dev.numQps (2 ^ 23 - 1) dev.numReservedSqps dev.numReservedSqps

def QpDev.rssInit (dev : QpDev) (mem : Bool) : Option BitmapAllocator :=
  bitmapInit mem dev.bottomReservedForRss (U32.sub dev.bottomReservedForRss 1)
    (dev.reservedQpsCnt .fw) (U32.sub dev.bottomReservedForRss dev.fixedReservedFromBot)

/-- The lists after the zones GENERAL, RSS and RAW_ETH have been added with the
priorities 0, 2 and 1. -/
theorem zones_added {general rss raw : BitmapAllocator} {offset : Nat} {zones : ZoneAllocator}
    (h : addZones true general rss raw offset = some zones)
    (hrss : bitmapMaskedValue rss U32.allOnes ≤ bitmapMaskedValue general U32.allOnes)
    (hraw : bitmapMaskedValue raw U32.allOnes ≤ bitmapMaskedValue general U32.allOnes) :
    zones.entries =
        [⟨0, general, true, 0, 0, ⟨false, false, true, true⟩⟩,
          ⟨2, raw, true, 1, offset, ⟨true, true, false, true⟩⟩,
          ⟨1, rss, true, 2, 0, ⟨true, true, false, true⟩⟩] ∧
      zones.mask = bitmapMaskedValue general U32.allOnes ∧ zones.noOverlap = true := by
  have h₁ : U32.inc 0 = 1 := by decide +kernel
  have h₂ : U32.inc 1 = 2 := by decide +kernel
  simp only [addZones, zoneAddOne, zoneAllocatorCreate, if_true, Option.bind_some,
    Option.map_some, h₁, h₂, Option.some.injEq] at h
  subst h
  refine ⟨by simp [addTail, ZoneAllocator.priorityOf, findZoneByUid], ?_, rfl⟩
  -- the mask grows with each zone that has a larger one
  have hgrow : ∀ m a b c : Nat, m = (if 0 < a then a else 0) → b ≤ a → c ≤ a →
      (if (if m < b then b else m) < c then c else if m < b then b else m) = a := by
    intro m a b c hm hb hc
    have hma : m = a := by
      rw [hm]
      split <;> omega
    rw [hma, if_neg (Nat.not_lt.mpr hb), if_neg (Nat.not_lt.mpr hc)]
  exact hgrow _ _ _ _ rfl hrss hraw

theorem rawEthSize_le (maxTableOffset lastOffset : Nat) :
    rawEthSize maxTableOffset lastOffset ≤ 64 := by
  unfold rawEthSize
  dsimp only
  split_ifs <;> omega

/-- The masked value of all bits, for a table of `2 ^ k` numbers. -/
theorem maskedValue_allOnes {b : BitmapAllocator} {k : Nat} (hk : k ≤ 31)
    (hsum : b.max + b.reservedTop = 2 ^ k) : bitmapMaskedValue b U32.allOnes = 2 ^ k - 1 := by
  have hle : 2 ^ k ≤ 2 ^ 31 := Nat.pow_le_pow_right (by decide) hk
  have hpos : 0 < 2 ^ k := Nat.two_pow_pos _
  have hall : U32.allOnes &&& 2 ^ k - 1 = 2 ^ k - 1 := by
    rw [Nat.and_comm, U32.allOnes, Nat.and_two_pow_sub_one_eq_mod]
    exact Nat.mod_eq_of_lt (by omega)
  unfold bitmapMaskedValue
  rw [hsum, U32.wrap_of_lt (by omega), U32.sub_of_le hpos (by omega), hall]

/-- The numbers that RSS does not get, and the size of its zone. -/
theorem rss_reserved (dev : QpDev) :
    U32.sub dev.bottomReservedForRss dev.fixedReservedFromBot =
      dev.bottomReservedForRss - dev.fixedReservedFromBot := by
  have hbottom := dev.bottomReserved_bounds
  have hfixed := dev.fixedReserved_bounds
  exact U32.sub_of_le (by omega) (by omega)

theorem rss_init_max {b : BitmapAllocator} {mem : Bool} (hb : dev.rssInit mem = some b) :
    b.max = dev.fixedReservedFromBot := by
  have hbottom := dev.bottomReserved_bounds
  have hfixed := dev.fixedReserved_bounds
  rw [(bitmapInit_eq hb).2]
  dsimp only
  rw [rss_reserved, U32.sub_of_le (by omega) (by omega)]
  omega

section Start

variable {raw : RawPlace dev} {zone : ZoneEntry}

/-- The GENERAL zone as `mlx4_bitmap_init` makes it. -/
theorem general_holds (h : dev.Accepted) {mem : Bool}
    (hb : dev.generalInit mem = some zone.bitmap) (hoff : zone.offset = 0) :
    h.general.Holds zone [] := by
  obtain ⟨-, hb⟩ := bitmapInit_eq hb
  have hle : dev.numReservedSqps ≤ dev.numQps := (Nat.le_add_right _ _).trans h
  have hnum := dev.numQps_le
  refine
    { offset_eq := hoff, max_eq := ?_, reservedTop_eq := by rw [hb]; rfl, mask_eq := by rw [hb]; rfl
      len_eq := by rw [hb]; rfl, top := by rw [hb]; exact TableParams.isTop_zero _, reserved := ?_
      placed := fun e he => absurd he (by simp), apart := List.Pairwise.nil }
  · rw [hb]
    exact U32.sub_of_le hle (by omega)
  · intro j hj
    change j < dev.numReservedSqps at hj
    rw [hb]
    exact Bitmap.setRange_eq_true.mpr (.inl ⟨Nat.zero_le _, by omega⟩)

/-- The RSS zone from which the `size` numbers at `obj` have been taken, or none. -/
theorem rss_holds {b : BitmapAllocator} {mem : Bool} (hb : dev.rssInit mem = some b)
    (hoff : zone.offset = 0) (hmax : zone.bitmap.max = b.max)
    (htop : zone.bitmap.reservedTop = b.reservedTop) (hmask : zone.bitmap.mask = b.mask)
    (hlen : zone.bitmap.effectiveLen = b.effectiveLen) (hzero : zone.bitmap.top = 0)
    (htable : ∀ j, b.table j = true ∨ (j < dev.fixedReservedFromBot ∧ raw.Has j) →
      zone.bitmap.table j = true) : raw.rss.Holds zone [] := by
  have hmaxb := rss_init_max hb
  obtain ⟨-, hb⟩ := bitmapInit_eq hb
  have hbottom := dev.bottomReserved_bounds
  have hfixed := dev.fixedReserved_bounds
  refine
    { offset_eq := hoff, max_eq := by rw [hmax, hmaxb, raw.rss_max], reservedTop_eq := ?_
      mask_eq := ?_, len_eq := ?_, top := by rw [hzero]; exact TableParams.isTop_zero _
      reserved := ?_, placed := fun e he => absurd he (by simp), apart := List.Pairwise.nil }
  · rw [htop, hb]
    exact rss_reserved dev
  · rw [hmask, hb]
    exact U32.sub_of_le (by omega) (by omega)
  · have hlenb : b.effectiveLen = U32.sub b.max (dev.reservedQpsCnt .fw) := by rw [hb]
    rw [hlen, hlenb, hmaxb]
    exact U32.sub_of_le (by omega) (by omega)
  · intro j hj
    apply htable
    rcases hj with hlow | hhas
    · left
      rw [hb]
      exact Bitmap.setRange_eq_true.mpr (.inl ⟨Nat.zero_le _, by omega⟩)
    · exact .inr hhas

/-- The bitmap of the numbers carved out of RSS. -/
theorem raw_holds_carved {mem : Bool} (hempty : ¬raw.empty) (hk : raw.k = Nat.clog 2 raw.size)
    (hmask : raw.mask = 2 ^ raw.k - 1)
    (hb : bitmapInit mem (roundupPowOfTwo raw.size) (roundupPowOfTwo raw.size - 1) 0
      (roundupPowOfTwo raw.size - raw.size) = some zone.bitmap) (hoff : zone.offset = raw.offset) :
    raw.zone.Holds zone [] := by
  have hround : roundupPowOfTwo raw.size = 2 ^ raw.k := by rw [roundupPowOfTwo, hk]
  rw [hround] at hb
  obtain ⟨-, hb⟩ := bitmapInit_eq hb
  have hle : 2 ^ raw.k ≤ 2 ^ 8 := Nat.pow_le_pow_right (by decide) raw.k_le
  have hsize := raw.size_le
  have hmax : U32.sub (2 ^ raw.k) (2 ^ raw.k - raw.size) = raw.size := by
    rw [U32.sub_of_le (by omega) (by omega)]
    omega
  rw [hmax] at hb
  refine
    { offset_eq := hoff, max_eq := by rw [hb, raw.zone_max], reservedTop_eq := by rw [hb]; rfl
      mask_eq := by rw [hb, ← hmask]; rfl, len_eq := ?_
      top := by rw [hb]; exact TableParams.isTop_zero _
      reserved := fun j hj => absurd hj.1 hempty, placed := fun e he => absurd he (by simp)
      apart := List.Pairwise.nil }
  rw [hb]
  exact U32.sub_of_le (Nat.zero_le _) (by omega)

/-- The bitmap of the empty zone: its one number is taken at once. -/
theorem raw_holds_empty {mem : Bool} {fuel : Nat} {b : BitmapAllocator}
    {r : BitmapAllocator × Nat} (hsize : raw.size = 1) (hk : raw.k = 0) (hmask : raw.mask = 255)
    (hb : bitmapInit mem 1 255 0 0 = some b) (hr : bitmapAllocRange fuel b 1 1 0 = some r)
    (hzone : zone.bitmap = r.1) (hoff : zone.offset = raw.offset) : raw.zone.Holds zone [] := by
  obtain ⟨-, rfl⟩ := bitmapInit_eq hb
  have hone : U32.sub 1 0 = 1 := by decide +kernel
  rw [hone, hone] at hr
  have hfind : (Bitmap.zero.setRange 0 0).findNextZeroBit 1 0 = 0 := by
    apply Bitmap.findNextZeroBit_eq (Nat.le_refl 0) (by decide)
    · rfl
    · exact fun j _ hj => absurd hj (Nat.not_lt_zero j)
  obtain rfl := Option.some.inj hr
  unfold bitmapAlloc at hzone
  rw [hfind, if_neg (show ¬1 ≤ 0 by decide), bitmapTakeBit, if_pos Nat.zero_lt_one] at hzone
  have hmax : raw.zone.max = 1 := by rw [raw.zone_max, hsize]
  refine
    { offset_eq := hoff, max_eq := by rw [hzone, hmax], reservedTop_eq := ?_
      mask_eq := by rw [hzone]; exact hmask.symm, len_eq := by rw [hzone]; exact hsize.symm
      top := by rw [hzone]; exact TableParams.isTop_zero _, reserved := ?_
      placed := fun e he => absurd he (by simp), apart := List.Pairwise.nil }
  · rw [hzone]
    change 0 = 2 ^ raw.k - raw.size
    rw [hk, hsize, pow_zero, Nat.sub_self]
  · intro j hj
    have hj0 : j = 0 := by
      have := hj.2
      omega
    rw [hzone, hj0]
    change (Bitmap.zero.setRange 0 0).setBit 0 0 = true
    exact Bitmap.setBit_eq_true.mpr (.inl rfl)

end Start

theorem carveRawEth_holds {mem : Bool} {fuel : Nat} {rss rss' rawb : BitmapAllocator}
    {offset : Nat} (hb : dev.rssInit mem = some rss)
    (hcarve : carveRawEth fuel mem rss (rawEthSize dev.maxTableOffset (dev.reservedQpsCnt .fw))
      dev.fixedReservedFromBot = some (rss', rawb, offset)) :
    ∃ raw : RawPlace dev,
      (∀ zone : ZoneEntry, zone.bitmap = rss' → zone.offset = 0 → raw.rss.Holds zone []) ∧
      ∀ zone : ZoneEntry, zone.bitmap = rawb → zone.offset = offset → raw.zone.Holds zone [] := by
  have hfixed := dev.fixedReserved_bounds
  have hbottom := dev.bottomReserved_bounds
  have hsize := rawEthSize_le dev.maxTableOffset (dev.reservedQpsCnt .fw)
  obtain ⟨-, hrss⟩ := bitmapInit_eq hb
  have hmax := rss_init_max hb
  generalize rawEthSize dev.maxTableOffset (dev.reservedQpsCnt .fw) = size at hcarve hsize
  unfold carveRawEth at hcarve
  split at hcarve
  case isTrue hpos =>
    split at hcarve
    case h_1 => cases hcarve
    case h_2 rss₁ offset₁ halloc =>
      split at hcarve
      case isTrue => cases hcarve
      case isFalse hne =>
        obtain ⟨rawb₁, hraw, heq⟩ := Option.map_eq_some_iff.mp hcarve
        obtain ⟨rfl, rfl, rfl⟩ := heq
        obtain ⟨n, rfl⟩ : ∃ n : Nat, size = n := ⟨size.toNat, by omega⟩
        -- the RSS table does not rotate
        have hnext : rss.nextTop = 0 := by
          unfold BitmapAllocator.nextTop
          rw [hmax, hrss]
          dsimp only
          rw [rss_reserved, U32.sub_of_le (by omega) (by omega)]
          have hsum : 0 + dev.fixedReservedFromBot +
              (dev.bottomReservedForRss - dev.fixedReservedFromBot) = dev.bottomReservedForRss := by
            omega
          rw [hsum, U32.wrap_of_lt (by omega), QpDev.bottomReservedForRss, roundupPowOfTwo,
            Nat.and_two_pow_sub_one_eq_mod, Nat.mod_self]
        obtain ⟨top, htop, hout | ⟨last, obj, hlt, hfit, hclear, hout⟩⟩ :=
          bitmapAllocRange_outcome (by omega) (by omega) halloc
        · exact absurd (Prod.mk.inj hout).2 hne
        · have htop0 : top = 0 := by
            rcases htop with rfl | rfl
            · rw [hrss]
            · exact hnext
          subst htop0
          obtain ⟨rfl, hoffset⟩ := Prod.mk.inj hout
          rw [Nat.or_zero] at hoffset
          subst hoffset
          rw [hmax] at hlt hfit
          have hlow : dev.reservedQpsCnt .fw ≤ offset := by
            by_contra hlow
            have hset := hclear offset (Nat.le_refl _) (by omega)
            rw [hrss, Bool.eq_false_iff, Ne, Bitmap.setRange_eq_true] at hset
            exact hset (.inl ⟨Nat.zero_le _, by omega⟩)
          have hclog : Nat.clog 2 n ≤ 8 := Nat.clog_le_of_le_pow (by omega)
          have hpow : 2 ^ Nat.clog 2 n ≤ 2 ^ 8 := Nat.pow_le_pow_right (by decide) hclog
          have hpowpos : 0 < 2 ^ Nat.clog 2 n := Nat.two_pow_pos _
          let raw : RawPlace dev :=
            { offset := offset, k := Nat.clog 2 n, mask := 2 ^ Nat.clog 2 n - 1, size := n
              empty := False, k_le := hclog, mask_lt := by omega
              size_le := Nat.le_pow_clog (by decide) n, le_offset := hlow, end_le := by omega
              carved := fun _ => ⟨hfit, by omega⟩ }
          refine ⟨raw, fun zone hz hoff => ?_, fun zone hz hoff => ?_⟩
          · apply rss_holds hb hoff (by rw [hz]) (by rw [hz]) (by rw [hz]) (by rw [hz]) (by rw [hz])
            rw [hz]
            rintro j (hj | ⟨-, hj⟩)
            · exact Bitmap.setRange_eq_true.mpr (.inr hj)
            · exact Bitmap.setRange_eq_true.mpr (.inl hj)
          · exact raw_holds_carved (fun hf => hf) rfl rfl (by rw [hz]; exact hraw) hoff
  case isFalse =>
    split at hcarve
    case h_1 => cases hcarve
    case h_2 b hb₀ =>
      obtain ⟨r, hr, heq⟩ := Option.map_eq_some_iff.mp hcarve
      obtain ⟨rfl, rfl, rfl⟩ := heq
      let raw : RawPlace dev :=
        { offset := dev.fixedReservedFromBot, k := 0, mask := 255, size := 1, empty := True
          k_le := Nat.zero_le _, mask_lt := by decide, size_le := Nat.le_refl _
          le_offset := by omega, end_le := Nat.le_refl _, carved := fun hf => absurd trivial hf }
      refine ⟨raw, fun zone hz hoff => ?_, fun zone hz hoff => ?_⟩
      · have hzero : rss.top = 0 := by rw [hrss]
        apply rss_holds hb hoff (by rw [hz]) (by rw [hz]) (by rw [hz]) (by rw [hz])
          (by rw [hz]; exact hzero)
        rw [hz]
        rintro j (hj | ⟨hlt, hge, -⟩)
        · exact hj
        · exact absurd hlt (Nat.not_lt.mpr hge)
      · exact raw_holds_empty rfl rfl rfl hb₀ hr hz hoff

theorem ZoneSpec.Holds.maskedValue {s : ZoneSpec} {zone : ZoneEntry} {live : List QpRange}
    (h : s.Holds zone live) :
    bitmapMaskedValue zone.bitmap U32.allOnes = 2 ^ s.table.k - 1 := by
  have hres := s.table.reserved_le
  apply maskedValue_allOnes s.table.k_le
  rw [h.max_eq, h.reservedTop_eq, ZoneSpec.max]
  omega

theorem createZones_ready {fuel : Nat} {mem : Bool} {zones : ZoneAllocator}
    {bottomGeneral topGeneral bottomRss startRss maxOffset : Nat}
    (h : createZones fuel mem dev bottomGeneral topGeneral bottomRss startRss maxOffset =
      .ready zones) :
    ∃ general rss rss' raw offset,
      bitmapInit mem dev.numQps (2 ^ 23 - 1) bottomGeneral topGeneral = some general ∧
      bitmapInit mem bottomRss (U32.sub bottomRss 1) (dev.reservedQpsCnt .fw)
        (U32.sub bottomRss startRss) = some rss ∧
      carveRawEth fuel mem rss (rawEthSize maxOffset (dev.reservedQpsCnt .fw)) startRss =
        some (rss', raw, offset) ∧
      addZones mem general rss' raw offset = some zones := by
  unfold createZones at h
  split at h
  case h_1 => cases h
  case h_2 general hgeneral =>
    split at h
    case isFalse => cases h
    case isTrue =>
      split at h
      case h_1 => cases h
      case h_2 rss hrss =>
        split at h
        case isFalse => cases h
        case isTrue =>
          split at h
          case h_1 => cases h
          case h_2 rss' raw offset hcarve =>
            split at h
            case h_1 => cases h
            case h_2 zones' hadd =>
              cases h
              exact ⟨general, rss, rss', raw, offset, hgeneral, hrss, hcarve, hadd⟩

/-- The special QPs fit the words of the GENERAL table if they are at most half of the QPs. -/
theorem general_reservedFit (h : dev.Accepted) {mem : Bool} {b : BitmapAllocator}
    (hb : dev.generalInit mem = some b) :
    b.ReservedFit dev.numReservedSqps ↔ 2 * dev.numReservedSqps ≤ dev.numQps := by
  have htop := dev.reservedFromTop_bounds.1
  have hnum := dev.numQps_le
  have hmax : b.max = dev.numQps - dev.numReservedSqps := by
    rw [(bitmapInit_eq hb).2]
    unfold QpDev.Accepted at h
    exact U32.sub_of_le (by omega) (by omega)
  -- half of the numbers is a whole number of words
  obtain ⟨m, hm⟩ : 2 ^ 7 ∣ dev.numQps := by
    apply Nat.pow_dvd_pow
    have hpow : 2 ^ 16 ≤ 2 ^ dev.logNumQps := by
      change _ ≤ dev.numQps
      unfold QpDev.Accepted at h
      omega
    have hlog := (Nat.pow_le_pow_iff_right (by decide)).mp hpow
    omega
  unfold BitmapAllocator.ReservedFit
  unfold QpDev.Accepted at h
  omega

theorem rss_reservedFit {mem : Bool} {b : BitmapAllocator} (hb : dev.rssInit mem = some b) :
    b.ReservedFit (dev.reservedQpsCnt .fw) := by
  have hmax := rss_init_max hb
  have hfixed := dev.fixedReserved_bounds.1
  unfold BitmapAllocator.ReservedFit
  omega

theorem createZones_overrun (h : dev.Accepted) (fuel : Nat) {mem : Bool} :
    createZones fuel mem dev dev.numReservedSqps dev.numReservedSqps dev.bottomReservedForRss
        dev.fixedReservedFromBot dev.maxTableOffset = .overrun ↔
      mem = true ∧ dev.numQps < 2 * dev.numReservedSqps := by
  unfold createZones
  split
  next hnone =>
    have hmem : mem = false := by
      cases mem with
      | false => rfl
      | true =>
        have hround : dev.numQps = roundupPowOfTwo dev.numQps := by
          rw [QpDev.numQps, roundupPowOfTwo, Nat.clog_pow 2 _ (by decide)]
        rw [bitmapInit, if_neg (not_not.mpr hround), if_pos rfl] at hnone
        cases hnone
    simp [hmem]
  next general hgeneral =>
    have hmem := (bitmapInit_eq hgeneral).1
    have hfit := general_reservedFit h hgeneral
    split
    case isFalse hno =>
      rw [hfit, Nat.not_le] at hno
      simp [hmem, hno]
    case isTrue hyes =>
      have hle := hfit.mp hyes
      constructor
      · intro hover
        split at hover
        case h_1 => cases hover
        case h_2 rss hrss =>
          rw [if_pos (rss_reservedFit hrss)] at hover
          repeat' split at hover
          all_goals cases hover
      · rintro ⟨-, hlt⟩
        omega

theorem initQpTable_overrun (h : dev.Accepted) {fuel : Nat} {mem confSpecialQp : Bool} :
    initQpTable fuel mem confSpecialQp dev = .overrun ↔
      mem = true ∧ dev.numQps < 2 * dev.numReservedSqps := by
  rw [← createZones_overrun h fuel, initQpTable, if_neg (Nat.not_lt.mpr h)]
  split
  next zones hzones =>
    rw [hzones]
    split <;> simp
  · rfl

theorem initQpTable_zoned {fuel : Nat} {mem confSpecialQp : Bool} {zones : ZoneAllocator}
    (hinit : initQpTable fuel mem confSpecialQp dev = .ready zones) :
    ∃ (h : dev.Accepted) (raw : RawPlace dev),
      QpState.Zoned (raw.specs h) (dev.numQps - 1) (QpState.init zones) := by
  unfold initQpTable at hinit
  split at hinit
  case isTrue => cases hinit
  case isFalse hroom =>
    have h : dev.Accepted := Nat.not_lt.mp hroom
    have hcreate : createZones fuel mem dev dev.numReservedSqps dev.numReservedSqps
        dev.bottomReservedForRss dev.fixedReservedFromBot dev.maxTableOffset = .ready zones := by
      split at hinit
      next zones' hzones =>
        split at hinit
        · rw [hzones, hinit]
        · cases hinit
      · exact hinit
    obtain ⟨general, rss, rss', rawb, offset, hgeneral, hrss, hcarve, hadd⟩ :=
      createZones_ready hcreate
    obtain ⟨rfl, -⟩ := bitmapInit_eq hgeneral
    obtain ⟨raw, hrssHolds, hrawHolds⟩ := carveRawEth_holds hrss hcarve
    have hg : ∀ zone : ZoneEntry, zone.bitmap = general → zone.offset = 0 →
        h.general.Holds zone [] := by
      intro zone hz hoff
      exact general_holds h (by rw [hz]; exact hgeneral) hoff
    -- the mask is that of GENERAL, which has the most numbers
    have hpow : ∀ k, k ≤ dev.logNumQps → 2 ^ k - 1 ≤ 2 ^ dev.logNumQps - 1 :=
      fun k hk => Nat.sub_le_sub_right (Nat.pow_le_pow_right (by decide) hk) 1
    have hmaskG : bitmapMaskedValue general U32.allOnes = 2 ^ dev.logNumQps - 1 :=
      (hg ⟨0, general, true, 0, 0, ⟨false, false, true, true⟩⟩ rfl rfl).maskedValue
    have hmaskR : bitmapMaskedValue rss' U32.allOnes ≤ 2 ^ dev.logNumQps - 1 := by
      rw [(hrssHolds ⟨1, rss', true, 2, 0, ⟨true, true, false, true⟩⟩ rfl rfl).maskedValue]
      apply hpow
      apply Nat.clog_le_of_le_pow
      have hfixed := h.fixed_lt.2
      unfold QpDev.numQps at hfixed
      omega
    have hmaskW : bitmapMaskedValue rawb U32.allOnes ≤ 2 ^ dev.logNumQps - 1 := by
      rw [(hrawHolds ⟨2, rawb, true, 1, offset, ⟨true, true, false, true⟩⟩ rfl
        rfl).maskedValue]
      apply hpow
      have hbig : 2 ^ 16 < 2 ^ dev.logNumQps := by
        have htop := dev.reservedFromTop_bounds.1
        have hsqps := dev.numReservedSqps_bounds.1
        unfold QpDev.Accepted QpDev.numQps at h
        omega
      have hlog := (Nat.pow_lt_pow_iff_right (by decide)).mp hbig
      have hk := raw.k_le
      change raw.k ≤ dev.logNumQps
      omega
    obtain ⟨hentries, hmask, hno⟩ :=
      zones_added hadd (by rw [hmaskG]; exact hmaskR) (by rw [hmaskG]; exact hmaskW)
    refine ⟨h, raw,
      { uids := by rw [QpState.init, hentries]; rfl, nodup := show [0, 2, 1].Nodup by decide
        holds := ?_, mask_eq := hmask.trans hmaskG, noOverlap := hno
        live := fun e he => absurd he (by simp [QpState.init]) }⟩
    intro s hs zone hfind
    obtain ⟨hmem, hu⟩ := findZoneByUid_mem hfind
    simp only [QpState.init, hentries, mem_cons, not_mem_nil, or_false] at hmem
    simp only [RawPlace.specs, mem_cons, not_mem_nil, or_false] at hs
    rcases hs with rfl | rfl | rfl <;> rcases hmem with rfl | rfl | rfl
    all_goals first
      | exact hg _ rfl rfl
      | exact hrawHolds _ rfl rfl
      | exact hrssHolds _ rfl rfl
      | exact absurd hu (by simp [QpDev.Accepted.general, RawPlace.zone, RawPlace.rss])

namespace QpState

/-- In every run of reservations and releases each release finds the zone its range
came from, and no number is reserved twice. -/
theorem run_owned {fuel : Nat} {mem confSpecialQp : Bool} {zones : ZoneAllocator}
    (hinit : initQpTable fuel mem confSpecialQp dev = .ready zones) {calls : List QpCall}
    (hcalls : Run.Steps (step dev) Valid (init zones) calls) :
    ∀ st ∈ Run.states (step dev) (init zones) calls, st.Owned dev := by
  obtain ⟨h, raw, hzoned⟩ := initQpTable_zoned hinit
  have hstep : ∀ st c, Zoned (raw.specs h) (dev.numQps - 1) st → st.Valid c →
      Zoned (raw.specs h) (dev.numQps - 1) (st.step dev c) := by
    intro st c hz hc
    cases c with
    | reserve fuel cnt align flags => exact hz.reserve hc
    | release i => exact hz.release (fun e he => hz.finds he) i
  intro st hst
  exact (hcalls.invariant hstep hzoned st hst).owned

/-- On a device that passes the check of `mlx4_init_qp_table`, setting up the table and every
run from there are right exactly if the special QPs are at most half of all. -/
theorem qp_ranges_owned (dev : QpDev) (h : dev.Accepted) :
    dev.RangesOwned ↔ 2 * dev.numReservedSqps ≤ dev.numQps := by
  constructor
  · intro howned
    by_contra hlt
    exact (howned 0 true true).1 ((initQpTable_overrun h).mpr ⟨rfl, Nat.not_le.mp hlt⟩)
  · intro hle fuel mem confSpecialQp
    refine ⟨fun hover => ?_, fun zones hinit calls hcalls => run_owned hinit hcalls⟩
    exact absurd ((initQpTable_overrun h).mp hover).2 (Nat.not_lt.mpr hle)

theorem logNumQps_18 : 18 ≤ 30 := by decide

/-- A master function with 2 ^ 18 QPs and an A0 steering table of 3000. -/
def masterDev : QpDev :=
  { rsvdQp := 6, highRateQpnBase := 128, highRateQpnRange := 3000, fsEn := true, a0Disable := false
    logNumMacs := 7, logNumVlans := 7, numPorts := 2, logNumQps := 18, isMaster := true
    logNumMacs_le := Nat.le_refl _, logNumVlans_le := Nat.le_refl _, numPorts_le := Nat.le_refl _
    logNumQps_le := logNumQps_18 }

theorem qp_ranges_owned_master :
    ∃ zones, initQpTable 400 true true masterDev = .ready zones ∧
      ∀ st ∈ Run.states (step masterDev) (init zones)
        [.reserve 0 1 1 0, .reserve 400 2 2 0x40, .release 1, .reserve 400 1 1 0xc0, .release 0],
        st.Owned masterDev := by
  have howned := (qp_ranges_owned masterDev (by decide +kernel)).mpr (by decide +kernel)
  refine ⟨(initQpTable 400 true true masterDev).toOption.get (by decide +kernel),
    QpInit.toOption_eq_some.mp (Option.some_get _).symm, ?_⟩
  apply (howned 400 true true).2 _ (QpInit.toOption_eq_some.mp (Option.some_get _).symm)
  decide +kernel

theorem wideDev_logNumVlans : 0 ≤ 7 := by decide

/-- The same function with an A0 steering table behind the number 2 ^ 16: 2 ^ 17 + 2056 of the
2 ^ 18 QPs are below the general ones. -/
def wideDev : QpDev :=
  { masterDev with
    highRateQpnBase := 0x10000
    highRateQpnRange := 0x100
    logNumVlans := 0
    logNumVlans_le := wideDev_logNumVlans }

/-- `mlx4_init_qp_table` accepts the device and sets 133128 bits in words that hold 129024. -/
theorem wideDev_not_owned : wideDev.Accepted ∧ ¬wideDev.RangesOwned := by
  have h : wideDev.Accepted := by decide +kernel
  refine ⟨h, fun howned => (howned 0 true true).1 ?_⟩
  exact (initQpTable_overrun h).mpr ⟨rfl, by decide +kernel⟩

end QpState

end Mlx4
