-- SUMMARY: The totals of the MAC and VLAN tables over every run of register and unregister calls.
import Mathlib.Algebra.Order.Group.Int
import Mathlib.Algebra.Order.Group.Nat
import OfaKernel.Mlx4.PortTable

/-!
# Table totals

A table is accounted when `total` is the number of its non-zero entries and at most `max`.
-/

open Function

namespace Mlx4

/-! ## Counting the entries of a table -/

namespace AddrTable

variable {t : AddrTable} {i : Slot} {e : Nat}

/-- The slots in use. -/
def used (t : AddrTable) : Finset Slot := Finset.univ.filter fun i => t.entries i ≠ 0

/-- The total counts the slots in use and keeps to the bounds. -/
structure Accounted (t : AddrTable) : Prop where
  total_eq : t.total = t.used.card
  nonneg : 0 ≤ t.total
  le_max : t.total ≤ t.max

variable {b : Bool}

variable {n : Int}

@[simp] theorem setRefs_refs : (t.setRefs i n).refs i = n := by simp [setRefs]
@[simp] theorem setEntry_refs : (t.setEntry i e).refs = t.refs := rfl
@[simp] theorem setDup_refs : (t.setDup i b).refs = t.refs := rfl
@[simp] theorem setRefs_entries : (t.setRefs i n).entries = t.entries := rfl
@[simp] theorem setDup_entries : (t.setDup i b).entries = t.entries := rfl
@[simp] theorem setRefs_isDup : (t.setRefs i n).isDup = t.isDup := rfl

theorem mem_used {j : Slot} : j ∈ t.used ↔ t.entries j ≠ 0 := by simp [used]

theorem used_card_le (t : AddrTable) : t.used.card ≤ 128 := by
  simpa using Finset.card_le_univ t.used

theorem used_setEntry (he : e ≠ 0) : (t.setEntry i e).used = insert i t.used := by
  ext j
  by_cases h : j = i <;> simp [mem_used, setEntry, h, he]

theorem used_clearEntry : (t.setEntry i 0).used = t.used.erase i := by
  ext j
  by_cases h : j = i <;> simp [mem_used, setEntry, h]

theorem accounted_congr {t' : AddrTable} (he : t'.entries = t.entries) (ht : t'.total = t.total)
    (hm : t'.max = t.max) : t'.Accounted ↔ t.Accounted := by
  have hu : t'.used = t.used := by simp [used, he]
  constructor
  · rintro ⟨h1, h2, h3⟩
    exact ⟨by rw [← ht, h1, hu], ht ▸ h2, ht ▸ hm ▸ h3⟩
  · rintro ⟨h1, h2, h3⟩
    exact ⟨by rw [ht, h1, hu], by rw [ht]; exact h2, by rw [ht, hm]; exact h3⟩

@[simp] theorem accounted_setRefs : (t.setRefs i n).Accounted ↔ t.Accounted :=
  accounted_congr rfl rfl rfl

@[simp] theorem accounted_setDup : (t.setDup i b).Accounted ↔ t.Accounted :=
  accounted_congr rfl rfl rfl

theorem Accounted.wrap_succ (h : t.Accounted) : I32.wrap (t.total + 1) = t.total + 1 := by
  have hle := t.used_card_le
  have heq := h.total_eq
  exact I32.wrap_of_range (by omega) (by omega)

theorem Accounted.wrap_pred (h : t.Accounted) : I32.wrap (t.total - 1) = t.total - 1 := by
  have hle := t.used_card_le
  have heq := h.total_eq
  exact I32.wrap_of_range (by omega) (by omega)

/-- A new entry is counted right if its slot was empty and the table not full. -/
theorem Accounted.incTotal_iff (h : t.Accounted) (he : e ≠ 0) :
    (t.setEntry i e).incTotal.Accounted ↔ t.entries i = 0 ∧ t.total ≠ t.max := by
  have hcard : (t.setEntry i e).incTotal.used = insert i t.used := used_setEntry he
  have htotal : (t.setEntry i e).incTotal.total = t.total + 1 := h.wrap_succ
  have hmax : (t.setEntry i e).incTotal.max = t.max := rfl
  by_cases hi : t.entries i = 0
  · have hnot : i ∉ t.used := by simp [mem_used, hi]
    have hc := Finset.card_insert_of_notMem hnot
    constructor
    · intro h'
      have := h'.le_max
      exact ⟨hi, by omega⟩
    · rintro ⟨-, hne⟩
      have hle := h.le_max
      have heq := h.total_eq
      refine ⟨?_, ?_, ?_⟩ <;> rw [htotal]
      · rw [hcard, hc]; omega
      · omega
      · rw [hmax]; omega
  · have hmem : i ∈ t.used := mem_used.mpr hi
    refine ⟨fun h' => ?_, fun h' => absurd h'.1 hi⟩
    have := h'.total_eq
    rw [htotal, hcard, Finset.insert_eq_of_mem hmem] at this
    have heq := h.total_eq
    omega

/-- An entry that goes is counted right if there was one. -/
theorem Accounted.decTotal_iff (h : t.Accounted) :
    (t.setEntry i 0).decTotal.Accounted ↔ t.entries i ≠ 0 := by
  have hcard : (t.setEntry i 0).decTotal.used = t.used.erase i := used_clearEntry
  have htotal : (t.setEntry i 0).decTotal.total = t.total - 1 := h.wrap_pred
  have heq := h.total_eq
  constructor
  · intro h' hi
    have hnot : i ∉ t.used := by simp [mem_used, hi]
    have := h'.total_eq
    rw [htotal, hcard, Finset.erase_eq_of_notMem hnot] at this
    omega
  · intro hi
    have hmem : i ∈ t.used := mem_used.mpr hi
    have hc := Finset.card_erase_of_mem hmem
    have hpos := Finset.card_pos.mpr ⟨i, hmem⟩
    have hle := h.le_max
    have hmax : (t.setEntry i 0).decTotal.max = t.max := rfl
    refine ⟨?_, ?_, ?_⟩ <;> rw [htotal]
    · rw [hcard, hc]; omega
    · omega
    · rw [hmax]; omega

/-- Two decrements for one entry lose count. -/
theorem Accounted.not_decTotal_twice (h : t.Accounted) (hi : t.entries i ≠ 0) :
    ¬(t.setEntry i 0).decTotal.decTotal.Accounted := by
  intro h'
  have h1 := (h.decTotal_iff (i := i)).mpr hi
  have htotal : (t.setEntry i 0).decTotal.decTotal.total = (t.setEntry i 0).decTotal.total - 1 :=
    h1.wrap_pred
  have hu : (t.setEntry i 0).decTotal.decTotal.used = (t.setEntry i 0).decTotal.used := rfl
  have := h'.total_eq
  rw [htotal, hu, h1.total_eq] at this
  omega

/-- What every call keeps, right totals or not: a slot with references or with
the mark of a duplicate holds an address. -/
structure Sound (max : Int) (t : AddrTable) : Prop where
  max_eq : t.max = max
  holds : ∀ i, t.refs i ≠ 0 ∨ t.isDup i = true → t.entries i ≠ 0
  range : ∀ i, -2 ^ 31 ≤ t.refs i ∧ t.refs i < 2 ^ 31

theorem Sound.setRefs {max n : Int} (h : t.Sound max) (hi : n ≠ 0 → t.entries i ≠ 0)
    (hn : -2 ^ 31 ≤ n ∧ n < 2 ^ 31) : (t.setRefs i n).Sound max := by
  refine ⟨h.max_eq, fun j hj => ?_, fun j => ?_⟩
  · by_cases hji : j = i
    · subst hji
      rcases hj with hj | hj
      · exact hi (by simpa using hj)
      · exact h.holds j (.inr hj)
    · exact h.holds j (by simpa [AddrTable.setRefs, hji] using hj)
  · by_cases hji : j = i
    · subst hji; simpa using hn
    · simpa [AddrTable.setRefs, hji] using h.range j

theorem Sound.setDup {max : Int} (h : t.Sound max) (hi : b = true → t.entries i ≠ 0) :
    (t.setDup i b).Sound max := by
  refine ⟨h.max_eq, fun j hj => ?_, h.range⟩
  by_cases hji : j = i
  · subst hji
    rcases hj with hj | hj
    · exact h.holds j (.inl hj)
    · exact hi (by simpa [AddrTable.setDup] using hj)
  · exact h.holds j (by simpa [AddrTable.setDup, hji] using hj)

theorem Sound.setEntry {max : Int} (h : t.Sound max)
    (hi : t.refs i ≠ 0 ∨ t.isDup i = true → e ≠ 0) : (t.setEntry i e).Sound max := by
  refine ⟨h.max_eq, fun j hj => ?_, h.range⟩
  by_cases hji : j = i
  · subst hji; simpa [AddrTable.setEntry] using hi hj
  · simpa [AddrTable.setEntry, hji] using h.holds j hj

theorem Sound.incTotal {max : Int} (h : t.Sound max) : t.incTotal.Sound max :=
  ⟨h.max_eq, h.holds, h.range⟩

theorem Sound.decTotal {max : Int} (h : t.Sound max) : t.decTotal.Sound max :=
  ⟨h.max_eq, h.holds, h.range⟩

/-- A slot as registering leaves it on the port of the call. -/
def fill (t : AddrTable) (i : Slot) (e : Nat) : AddrTable :=
  (((t.setEntry i e).setRefs i 1).setDup i false).incTotal

/-- A slot as registering leaves it on the other port. -/
def copy (t : AddrTable) (i : Slot) (e : Nat) : AddrTable :=
  (((t.setRefs i 0).setDup i true).setEntry i e).incTotal

theorem Accounted.fill_iff (h : t.Accounted) (he : e ≠ 0) :
    (t.fill i e).Accounted ↔ t.entries i = 0 ∧ t.total ≠ t.max := by
  have hc : (t.fill i e).Accounted ↔ (t.setEntry i e).incTotal.Accounted :=
    accounted_congr rfl rfl rfl
  exact hc.trans (h.incTotal_iff he)

theorem Accounted.copy_iff (h : t.Accounted) (he : e ≠ 0) :
    (t.copy i e).Accounted ↔ t.entries i = 0 ∧ t.total ≠ t.max := by
  have hc : (t.copy i e).Accounted ↔ (t.setEntry i e).incTotal.Accounted :=
    accounted_congr rfl rfl rfl
  exact hc.trans (h.incTotal_iff he)

theorem Sound.fill {max : Int} (h : t.Sound max) (he : e ≠ 0) : (t.fill i e).Sound max := by
  have h1 := h.setEntry (i := i) (e := e) fun _ => he
  have h2 := h1.setRefs (i := i) (n := 1) (by simp [AddrTable.setEntry, he]) (by decide)
  exact (h2.setDup (i := i) (b := false) (by simp)).incTotal

theorem Sound.copy {max : Int} (h : t.Sound max) (he : e ≠ 0) : (t.copy i e).Sound max := by
  have h1 := h.setRefs (i := i) (n := 0) (by simp) (by decide)
  refine ⟨h1.max_eq, fun j hj => ?_, h1.range⟩
  by_cases hji : j = i
  · subst hji; simpa [AddrTable.copy, AddrTable.setEntry, AddrTable.incTotal] using he
  · have hj' : (t.setRefs i 0).refs j ≠ 0 ∨ (t.setRefs i 0).isDup j = true := by
      simpa [AddrTable.copy, AddrTable.setDup, AddrTable.setEntry, AddrTable.incTotal, hji] using hj
    simpa [AddrTable.copy, AddrTable.setEntry, AddrTable.incTotal, hji] using h1.holds j hj'

theorem initTable_sound (max : Int) : (initTable max).Sound max :=
  ⟨rfl, by simp [initTable], by simp [initTable]⟩

theorem initTable_accounted {max : Int} : (initTable max).Accounted ↔ 0 ≤ max := by
  constructor
  · intro h; exact h.nonneg.trans h.le_max
  · intro h
    exact ⟨by simp [initTable, used], by simp [initTable], by simpa [initTable] using h⟩

end AddrTable

/-! ## One call -/

namespace Tables

/-- Both tables are accounted. -/
def Accounted (f : Tables) : Prop := ∀ p, (f p).Accounted

def Sound (max : Int) (f : Tables) : Prop := ∀ p, (f p).Sound max

variable {f : Tables} {p : Port} {max : Int}

theorem accounted_iff (p : Port) : f.Accounted ↔ (f p).Accounted ∧ (f p.dup).Accounted := by
  constructor
  · intro h; exact ⟨h p, h p.dup⟩
  · rintro ⟨h1, h2⟩ q
    rcases p.eq_or_eq_dup q with rfl | rfl
    · exact h1
    · exact h2

theorem Accounted.update_iff (h : f.Accounted) {t : AddrTable} :
    Accounted (update f p t) ↔ t.Accounted := by
  rw [accounted_iff p]
  simp [h p.dup]

theorem Sound.update (h : f.Sound max) {t : AddrTable} (ht : t.Sound max) :
    Sound max (update f p t) := by
  intro q
  by_cases hq : q = p
  · subst hq; simpa using ht
  · simpa [hq] using h q

theorem accounted_update_both {t t' : AddrTable} :
    Accounted (update (update f p t) p.dup t') ↔ t.Accounted ∧ t'.Accounted := by
  rw [accounted_iff p]
  simp

end Tables

variable {dev : PortDev} {f : Tables} {port : Port}

/-- The slot a new address takes is empty, and with `dup` so is the same slot of
the other port, whose table is not full. -/
def SlotReady (f : Tables) (port : Port) (slot : Option Slot × Bool) : Prop :=
  ∀ i ∈ slot.1, (f port).entries i = 0 ∧
    (slot.2 = true → (f port.dup).entries i = 0 ∧ (f port.dup).total ≠ (f port.dup).max)

/-- The tables after a new address went to slot `i`, every command succeeding. -/
def written (port : Port) (entry : Nat) (i : Slot) (dup : Bool) (f : Tables) : Tables :=
  let s := update f port ((f port).fill i entry)
  if dup then update s port.dup ((f port.dup).copy i entry) else s

variable {entry : Nat} {dup : Bool}

theorem writeSlot_ok {i : Slot} {failed : AddrTable} :
    writeSlot 0 0 port entry i dup failed f = (.ok i, written port entry i dup f) := by
  cases dup <;> simp [writeSlot, written, AddrTable.fill, AddrTable.copy]

theorem written_accounted {i : Slot} (h : f.Accounted) (hfull : (f port).total ≠ (f port).max)
    (he : entry ≠ 0) :
    (written port entry i dup f).Accounted ↔ SlotReady f port (some i, dup) := by
  have ht := (h port).fill_iff (i := i) he
  have ht' := (h port.dup).copy_iff (i := i) he
  cases dup with
  | false =>
    have hw : written port entry i false f = update f port ((f port).fill i entry) := rfl
    rw [hw, h.update_iff, ht]
    simp [SlotReady, hfull]
  | true =>
    have hw : written port entry i true f = update
      (update f port ((f port).fill i entry)) port.dup ((f port.dup).copy i entry) := rfl
    rw [hw, Tables.accounted_update_both, ht, ht']
    simp [SlotReady, hfull]

theorem written_sound {max : Int} {i : Slot} (h : f.Sound max) (he : entry ≠ 0) :
    (written port entry i dup f).Sound max := by
  have ht := (h port).fill (i := i) he
  have ht' := (h port.dup).copy (i := i) he
  cases dup with
  | false => exact h.update ht
  | true => exact (h.update ht).update ht'

/-! ### Register -/

theorem macEntry_ne_zero (mac : Nat) : macEntry mac ≠ 0 := by
  intro h
  have := Nat.or_eq_zero_iff.mp h
  exact absurd this.2 (by decide)

theorem vlanEntry_ne_zero (vlan : Nat) : vlanEntry vlan ≠ 0 := by
  intro h
  have := Nat.or_eq_zero_iff.mp h
  exact absurd this.2 (by decide)

variable {mac : Nat}

theorem findIndex_some {t : AddrTable} {i : Slot} (h : findIndex t mac = some i) :
    t.refs i ≠ 0 ∧ holdsMac t mac i = true := by
  have := Fin.eq_true_of_find?_eq_some h
  simpa using this

/-- The condition on `__mlx4_register_mac`: a MAC that is new to the port and
finds the table not full goes to an empty slot. -/
def MacRegisterOk (dev : PortDev) (f : Tables) (port : Port) (mac : Nat) : Prop :=
  findIndex (f port) mac = none → (f port).total ≠ (f port).max →
    SlotReady f port (macSlot dev (f port) (f port.dup) mac)

theorem registerMac_accounted (h : f.Accounted) (dev : PortDev) (port : Port) (mac : Nat) :
    (registerMac dev 0 0 port mac f).2.Accounted ↔ MacRegisterOk dev f port mac := by
  unfold registerMac MacRegisterOk
  cases hfind : findIndex (f port) mac with
  | some i => simp [h.update_iff, h port]
  | none =>
    by_cases hfull : (f port).total = (f port).max
    · simp [hfull, h]
    · obtain ⟨free, dup⟩ := macSlot dev (f port) (f port.dup) mac
      cases free with
      | none => simp [hfull, h, SlotReady]
      | some i =>
        simp only [hfull, if_false, writeSlot_ok, ne_eq, not_false_eq_true, forall_const]
        exact written_accounted h hfull (macEntry_ne_zero mac)

theorem registerMac_sound {max : Int} (h : f.Sound max) (dev : PortDev) (port : Port)
    (mac : Nat) : (registerMac dev 0 0 port mac f).2.Sound max := by
  unfold registerMac
  cases hfind : findIndex (f port) mac with
  | some i =>
    have hi := (h port).holds i (.inl (findIndex_some hfind).1)
    exact h.update ((h port).setRefs (fun _ => hi) (I32.wrap_range _))
  | none =>
    by_cases hfull : (f port).total = (f port).max
    · simpa [hfull] using h
    · obtain ⟨free, dup⟩ := macSlot dev (f port) (f port.dup) mac
      cases free with
      | none => simpa [hfull] using h
      | some i =>
        simp only [hfull, if_false, writeSlot_ok]
        exact written_sound h (macEntry_ne_zero mac)

def VlanRegisterOk (dev : PortDev) (f : Tables) (port : Port) (vlan : Nat) : Prop :=
  findVlan (f port) vlan = none → (f port).total ≠ (f port).max →
    SlotReady f port (vlanSlot dev (f port) (f port.dup) vlan)

theorem registerVlan_accounted (h : f.Accounted) (dev : PortDev) (port : Port) (vlan : Nat) :
    (registerVlan dev 0 0 port vlan f).2.Accounted ↔ VlanRegisterOk dev f port vlan := by
  unfold registerVlan VlanRegisterOk
  by_cases hfull : (f port).total = (f port).max
  · simp [hfull, h]
  · simp only [hfull, if_false]
    cases hfind : findVlan (f port) vlan with
    | some i => simp [h.update_iff, h port]
    | none =>
      obtain ⟨free, dup⟩ := vlanSlot dev (f port) (f port.dup) vlan
      cases free with
      | none => simp [h, SlotReady]
      | some i =>
        simp only [writeSlot_ok, ne_eq, hfull, not_false_eq_true, forall_const]
        exact written_accounted h hfull (vlanEntry_ne_zero vlan)

theorem registerVlan_sound {max : Int} (h : f.Sound max) (dev : PortDev) (port : Port)
    (vlan : Nat) : (registerVlan dev 0 0 port vlan f).2.Sound max := by
  unfold registerVlan
  by_cases hfull : (f port).total = (f port).max
  · simpa [hfull] using h
  · simp only [hfull, if_false]
    cases hfind : findVlan (f port) vlan with
    | some i =>
      have hi : (f port).refs i ≠ 0 ∨ (f port).isDup i = true := by
        have := Fin.eq_true_of_find?_eq_some hfind
        simp only [Bool.and_eq_true, Bool.or_eq_true, decide_eq_true_eq] at this
        exact this.1
      exact h.update ((h port).setRefs (fun _ => (h port).holds i hi) (I32.wrap_range _))
    | none =>
      obtain ⟨free, dup⟩ := vlanSlot dev (f port) (f port.dup) vlan
      cases free with
      | none => exact h
      | some i =>
        simp only [writeSlot_ok]
        exact written_sound h (vlanEntry_ne_zero vlan)

/-! ### Unregister -/

/-- The reference that goes is the last one to a slot that is not a duplicate. -/
def LastRef (t : AddrTable) (i : Slot) : Prop := t.refs i = 1 ∧ t.isDup i = false

instance (t : AddrTable) (i : Slot) : Decidable (LastRef t i) :=
  inferInstanceAs (Decidable (_ ∧ _))

theorem wrap_pred_eq_zero {n : Int} (hn : -2 ^ 31 ≤ n ∧ n < 2 ^ 31) :
    I32.wrap (n - 1) = 0 ↔ n = 1 := by
  unfold I32.wrap; omega

theorem keeps_of_not_lastRef {t : AddrTable} {i : Slot}
    (hr : -2 ^ 31 ≤ t.refs i ∧ t.refs i < 2 ^ 31)
    (h : ¬LastRef t i) : I32.wrap (t.refs i - 1) ≠ 0 ∨ t.isDup i = true := by
  by_cases h1 : t.refs i = 1
  · right
    by_contra h2
    exact h ⟨h1, by simpa using h2⟩
  · left
    exact fun h0 => h1 ((wrap_pred_eq_zero hr).mp h0)

/-- The tables when the slot keeps its address: fewer references, and the other
port's slot no duplicate any more when they are none. -/
def released (port : Port) (i : Slot) (f : Tables) : Tables :=
  let s := update f port ((f port).setRefs i (I32.wrap ((f port).refs i - 1)))
  if I32.wrap ((f port).refs i - 1) = 0 then
    update s port.dup ((s port.dup).setDup i false)
  else s

theorem released_accounted {i : Slot} (h : f.Accounted) : (released port i f).Accounted := by
  unfold released
  split
  · simp [Tables.accounted_update_both, h port, h port.dup]
  · simp [h.update_iff, h port]

theorem released_sound {max : Int} {i : Slot} (h : f.Sound max) (hi : (f port).refs i ≠ 0) :
    (released port i f).Sound max := by
  have ht := (h port).setRefs (i := i) (n := I32.wrap ((f port).refs i - 1))
    (fun _ => (h port).holds i (.inl hi)) (I32.wrap_range _)
  unfold released
  split
  · exact (h.update ht).update (by simpa using (h port.dup).setDup (by simp))
  · exact h.update ht

/-- A slot without its last reference and its entry. -/
def AddrTable.clear (t : AddrTable) (i : Slot) : AddrTable :=
  ((t.setRefs i 0).setEntry i 0).decTotal

theorem AddrTable.Sound.clear {t : AddrTable} {max : Int} {i : Slot} (h : t.Sound max)
    (hi : t.isDup i = false) : (t.clear i).Sound max := by
  have h1 := h.setRefs (i := i) (n := 0) (by simp) (by decide)
  exact (h1.setEntry (by simp [hi])).decTotal

theorem AddrTable.Accounted.clear {t : AddrTable} {i : Slot} (h : t.Accounted)
    (hi : t.entries i ≠ 0) : (t.clear i).Accounted := by
  have hc : (t.clear i).Accounted ↔ (t.setEntry i 0).decTotal.Accounted :=
    AddrTable.accounted_congr rfl rfl rfl
  exact hc.mpr (h.decTotal_iff.mpr hi)

/-- The condition on `__mlx4_unregister_mac` under bonding: when the last reference
of a slot goes, the other port refers to the slot as well. -/
def MacUnregisterOk (dev : PortDev) (f : Tables) (port : Port) (mac : Nat) : Prop :=
  ∀ i, findIndex (f port) mac = some i → port.num ≤ dev.numPorts → (i.val : Int) < (f port).max →
    LastRef (f port) i → dev.isMfBonded = true → (f port.dup).refs i ≠ 0

/-- What `__mlx4_unregister_mac` does with the last reference. -/
def unregistered (dev : PortDev) (port : Port) (i : Slot) (f : Tables) : Tables :=
  let table := (f port).clear i
  if dev.isMfBonded then
    let dupTable := (f port.dup).setDup i false
    if (f port.dup).refs i ≠ 0 then update (update f port table) port.dup dupTable
    else
      update (update f port table.decTotal) port.dup (dupTable.setEntry i 0)
  else update f port table

theorem unregisterMac_found {max : Int} {i : Slot} (h : f.Sound max)
    (hfind : findIndex (f port) mac = some i) :
    unregisterMac dev port mac f =
      if dev.numPorts < port.num ∨ (f port).max ≤ i.val then f
      else if LastRef (f port) i then unregistered dev port i f
      else released port i f := by
  have href : (f port).refs i ≠ 0 := (findIndex_some hfind).1
  have hentry : (f port).entries i ≠ 0 := (h port).holds i (.inl href)
  have hwrap := wrap_pred_eq_zero ((h port).range i)
  unfold unregisterMac
  by_cases hport : dev.numPorts < port.num
  · simp [hport]
  · by_cases hmax : (f port).max ≤ i.val
    · simp [hfind, hmax]
    · simp only [hport, hfind, hmax, hentry, or_self, if_false]
      by_cases hlast : LastRef (f port) i
      · obtain ⟨h1, h2⟩ := hlast
        have hlast : LastRef (f port) i := ⟨h1, h2⟩
        have h0 : I32.wrap ((f port).refs i - 1) = 0 := hwrap.mpr h1
        simp [h0, h2, hlast, unregistered, AddrTable.clear]
      · have hkeep := keeps_of_not_lastRef ((h port).range i) hlast
        simp [hlast, hkeep, released]

theorem unregistered_accounted {i : Slot} (h : f.Accounted) (hi : (f port).entries i ≠ 0) :
    (unregistered dev port i f).Accounted ↔
      (dev.isMfBonded = true → (f port.dup).refs i ≠ 0) := by
  have hc := (h port).clear hi
  have htwice : ¬((f port).clear i).decTotal.Accounted := by
    have hcongr : ((f port).clear i).decTotal.Accounted ↔
        ((f port).setEntry i 0).decTotal.decTotal.Accounted :=
      AddrTable.accounted_congr rfl rfl rfl
    exact fun h' => (h port).not_decTotal_twice hi (hcongr.mp h')
  unfold unregistered
  cases hb : dev.isMfBonded with
  | false => simp [h.update_iff, hc]
  | true =>
    by_cases hr : (f port.dup).refs i = 0
    · simp [hr, Tables.accounted_update_both, htwice]
    · simp [hr, Tables.accounted_update_both, hc, h port.dup]

theorem unregistered_sound {max : Int} {i : Slot} (h : f.Sound max)
    (hi : (f port).isDup i = false) : (unregistered dev port i f).Sound max := by
  have hc := (h port).clear (i := i) hi
  have hd := (h port.dup).setDup (i := i) (b := false) (by simp)
  unfold unregistered
  cases hb : dev.isMfBonded with
  | false => simpa using h.update hc
  | true =>
    by_cases hr : (f port.dup).refs i = 0
    · have he := hd.setEntry (i := i) (e := 0) (by simp [hr, AddrTable.setDup])
      simpa [hr] using (h.update hc.decTotal).update he
    · simpa [hr] using (h.update hc).update hd

theorem unregisterMac_none (h : findIndex (f port) mac = none) :
    unregisterMac dev port mac f = f := by
  simp [unregisterMac, h]

theorem unregisterMac_accounted {max : Int} (h : f.Accounted) (hs : f.Sound max) (mac : Nat) :
    (unregisterMac dev port mac f).Accounted ↔ MacUnregisterOk dev f port mac := by
  cases hfind : findIndex (f port) mac with
  | none => simp [unregisterMac_none hfind, MacUnregisterOk, hfind, h]
  | some i =>
    have hi := (hs port).holds i (.inl (findIndex_some hfind).1)
    rw [unregisterMac_found hs hfind]
    simp only [MacUnregisterOk, hfind, Option.some.injEq, forall_eq']
    by_cases hskip : dev.numPorts < port.num ∨ (f port).max ≤ i.val
    · simp only [hskip, if_true, h, true_iff]
      omega
    · by_cases hlast : LastRef (f port) i
      · simp only [hskip, hlast, if_false, if_true, unregistered_accounted h hi]
        constructor
        · intro h' _ _ _; exact h'
        · intro h'; exact h' (by omega) (by omega) trivial
      · simp [hskip, hlast, released_accounted h]

theorem unregisterMac_sound {max : Int} (h : f.Sound max) (mac : Nat) :
    (unregisterMac dev port mac f).Sound max := by
  cases hfind : findIndex (f port) mac with
  | none => rwa [unregisterMac_none hfind]
  | some i =>
    rw [unregisterMac_found h hfind]
    split
    · exact h
    · split
      next hlast => exact unregistered_sound h hlast.2
      next => exact released_sound h (findIndex_some hfind).1

/-- The condition on `__mlx4_unregister_vlan` under bonding: when the last reference
of a slot goes and the other port does not refer to it, that port has an entry there. -/
def VlanUnregisterOk (dev : PortDev) (f : Tables) (port : Port) (vlan : Nat) : Prop :=
  ∀ i, findCachedVlan (f port) vlan = some i → 2 ≤ i.val → LastRef (f port) i →
    dev.isMfBonded = true → (f port.dup).refs i = 0 → (f port.dup).entries i ≠ 0

def vlanUnregistered (dev : PortDev) (port : Port) (i : Slot) (f : Tables) : Tables :=
  let s := update f port ((f port).clear i)
  if dev.isMfBonded then
    let dupTable := (f port.dup).setDup i false
    if (f port.dup).refs i ≠ 0 then update s port.dup dupTable
    else update s port.dup (dupTable.setEntry i 0).decTotal
  else s

variable {vlan : Nat}

theorem findCachedVlan_some {t : AddrTable} {i : Slot} (h : findCachedVlan t vlan = some i) :
    t.refs i ≠ 0 := by
  have := Fin.eq_true_of_find?_eq_some h
  simp only [Bool.and_eq_true, decide_eq_true_eq] at this
  exact this.1

theorem unregisterVlan_found {max : Int} {i : Slot} (h : f.Sound max)
    (hfind : findCachedVlan (f port) vlan = some i) :
    unregisterVlan dev port vlan f =
      if i.val < 2 then f
      else if LastRef (f port) i then vlanUnregistered dev port i f
      else released port i f := by
  have hwrap := wrap_pred_eq_zero ((h port).range i)
  unfold unregisterVlan
  by_cases hreg : i.val < 2
  · simp [hreg, hfind]
  · simp only [hfind, hreg, if_false]
    by_cases hlast : LastRef (f port) i
    · obtain ⟨h1, h2⟩ := hlast
      have hlast : LastRef (f port) i := ⟨h1, h2⟩
      have h0 : I32.wrap ((f port).refs i - 1) = 0 := hwrap.mpr h1
      simp [h0, h2, hlast, vlanUnregistered, AddrTable.clear]
    · have hkeep := keeps_of_not_lastRef ((h port).range i) hlast
      simp [hlast, hkeep, released]

theorem vlanUnregistered_accounted {i : Slot} (h : f.Accounted) (hi : (f port).entries i ≠ 0) :
    (vlanUnregistered dev port i f).Accounted ↔
      (dev.isMfBonded = true → (f port.dup).refs i = 0 → (f port.dup).entries i ≠ 0) := by
  have hc := (h port).clear hi
  have hd : (((f port.dup).setDup i false).setEntry i 0).decTotal.Accounted ↔
      (f port.dup).entries i ≠ 0 := by
    have hcongr : (((f port.dup).setDup i false).setEntry i 0).decTotal.Accounted ↔
        ((f port.dup).setEntry i 0).decTotal.Accounted :=
      AddrTable.accounted_congr rfl rfl rfl
    exact hcongr.trans (h port.dup).decTotal_iff
  unfold vlanUnregistered
  cases hb : dev.isMfBonded with
  | false => simp [h.update_iff, hc]
  | true =>
    by_cases hr : (f port.dup).refs i = 0
    · simp [hr, Tables.accounted_update_both, hc, hd]
    · simp [hr, Tables.accounted_update_both, hc, h port.dup]

theorem vlanUnregistered_sound {max : Int} {i : Slot} (h : f.Sound max)
    (hi : (f port).isDup i = false) : (vlanUnregistered dev port i f).Sound max := by
  have hc := (h port).clear (i := i) hi
  have hd := (h port.dup).setDup (i := i) (b := false) (by simp)
  unfold vlanUnregistered
  cases hb : dev.isMfBonded with
  | false => simpa using h.update hc
  | true =>
    by_cases hr : (f port.dup).refs i = 0
    · have he := hd.setEntry (i := i) (e := 0) (by simp [hr, AddrTable.setDup])
      simpa [hr] using (h.update hc).update he.decTotal
    · simpa [hr] using (h.update hc).update hd

theorem unregisterVlan_none (h : findCachedVlan (f port) vlan = none) :
    unregisterVlan dev port vlan f = f := by
  unfold unregisterVlan
  rw [h]

theorem unregisterVlan_accounted {max : Int} (h : f.Accounted) (hs : f.Sound max) (vlan : Nat) :
    (unregisterVlan dev port vlan f).Accounted ↔ VlanUnregisterOk dev f port vlan := by
  cases hfind : findCachedVlan (f port) vlan with
  | none => simp [unregisterVlan_none hfind, VlanUnregisterOk, hfind, h]
  | some i =>
    have hi := (hs port).holds i (.inl (findCachedVlan_some hfind))
    rw [unregisterVlan_found hs hfind]
    simp only [VlanUnregisterOk, hfind, Option.some.injEq, forall_eq']
    by_cases hreg : i.val < 2
    · simp only [hreg, if_true, h, true_iff]
      omega
    · by_cases hlast : LastRef (f port) i
      · simp only [hreg, hlast, if_false, if_true, vlanUnregistered_accounted h hi]
        constructor
        · intro h' _ _; exact h'
        · intro h'; exact h' (by omega) trivial
      · simp [hreg, hlast, released_accounted h]

theorem unregisterVlan_sound {max : Int} (h : f.Sound max) (vlan : Nat) :
    (unregisterVlan dev port vlan f).Sound max := by
  cases hfind : findCachedVlan (f port) vlan with
  | none => rwa [unregisterVlan_none hfind]
  | some i =>
    rw [unregisterVlan_found h hfind]
    split
    · exact h
    · split
      next hlast => exact vlanUnregistered_sound h hlast.2
      next => exact released_sound h (findCachedVlan_some hfind)

/-! ## Runs -/

/-- The tables of both kinds on both ports. -/
structure PortTables where
  macs : Tables
  vlans : Tables

inductive PortCall where
  | registerMac (port : Port) (mac : Nat)
  | unregisterMac (port : Port) (mac : Nat)
  | registerVlan (port : Port) (vlan : Nat)
  | unregisterVlan (port : Port) (vlan : Nat)

namespace PortTables

def init (dev : PortDev) : PortTables :=
  { macs := fun _ => initMacTable dev, vlans := fun _ => initVlanTable dev }

/-- One call whose firmware commands succeed. -/
def step (dev : PortDev) (s : PortTables) : PortCall → PortTables
  | .registerMac port mac => { s with macs := (registerMac dev 0 0 port mac s.macs).2 }
  | .unregisterMac port mac => { s with macs := unregisterMac dev port mac s.macs }
  | .registerVlan port vlan => { s with vlans := (registerVlan dev 0 0 port vlan s.vlans).2 }
  | .unregisterVlan port vlan => { s with vlans := unregisterVlan dev port vlan s.vlans }

/-- The tables of both ports are accounted. -/
def Accounted (s : PortTables) : Prop := s.macs.Accounted ∧ s.vlans.Accounted

/-- The condition on each call. -/
def CallOk (dev : PortDev) (s : PortTables) : PortCall → Prop
  | .registerMac port mac => MacRegisterOk dev s.macs port mac
  | .unregisterMac port mac => MacUnregisterOk dev s.macs port mac
  | .registerVlan port vlan => VlanRegisterOk dev s.vlans port vlan
  | .unregisterVlan port vlan => VlanUnregisterOk dev s.vlans port vlan

/-- What every call keeps. -/
structure Sound (dev : PortDev) (s : PortTables) : Prop where
  macs : s.macs.Sound (1 <<< dev.logNumMacs)
  vlans : s.vlans.Sound ((1 <<< dev.logNumVlans) - 2)

theorem init_sound (dev : PortDev) : (init dev).Sound dev :=
  ⟨fun _ => AddrTable.initTable_sound _, fun _ => AddrTable.initTable_sound _⟩

/-- The start is accounted unless `max` is negative: one VLAN slot, less the two special ones. -/
theorem init_accounted (dev : PortDev) : (init dev).Accounted ↔ 1 ≤ dev.logNumVlans := by
  have hvlan : (0 : Int) ≤ (1 <<< dev.logNumVlans : Nat) - 2 ↔ 1 ≤ dev.logNumVlans := by
    constructor
    · intro h
      by_contra h0
      simp [show dev.logNumVlans = 0 by omega] at h
    · intro h
      have := Nat.pow_le_pow_right (n := 2) (by decide) h
      omega
  have hm : (init dev).macs.Accounted := fun p =>
    AddrTable.initTable_accounted.mpr (Int.natCast_nonneg _)
  constructor
  · intro h
    exact hvlan.mp (AddrTable.initTable_accounted.mp (h.2 .one))
  · intro h
    exact ⟨hm, fun p => AddrTable.initTable_accounted.mpr (hvlan.mpr h)⟩

theorem step_sound {dev : PortDev} {s : PortTables} (h : s.Sound dev) (c : PortCall) :
    (step dev s c).Sound dev := by
  obtain ⟨hm, hv⟩ := h
  cases c with
  | registerMac port mac =>
    exact ⟨registerMac_sound hm dev port mac, hv⟩
  | unregisterMac port mac =>
    exact ⟨unregisterMac_sound hm mac, hv⟩
  | registerVlan port vlan =>
    exact ⟨hm, registerVlan_sound hv dev port vlan⟩
  | unregisterVlan port vlan =>
    exact ⟨hm, unregisterVlan_sound hv vlan⟩

/-- The step lemma: a call keeps the totals right exactly under its condition. -/
theorem step_accounted {dev : PortDev} {s : PortTables} (h : s.Accounted) (hs : s.Sound dev)
    (c : PortCall) : (step dev s c).Accounted ↔ CallOk dev s c := by
  cases c with
  | registerMac port mac =>
    simp [step, Accounted, CallOk, registerMac_accounted h.1, h.2]
  | unregisterMac port mac =>
    simp [step, Accounted, CallOk, unregisterMac_accounted h.1 hs.macs, h.2]
  | registerVlan port vlan =>
    simp [step, Accounted, CallOk, registerVlan_accounted h.2, h.1]
  | unregisterVlan port vlan =>
    simp [step, Accounted, CallOk, unregisterVlan_accounted h.2 hs.vlans, h.1]

/-- The totals are right in every state of a run exactly if `log_num_vlans` is
at least 1 and every call meets its condition. -/
theorem accounted_every_run_iff (dev : PortDev) (calls : List PortCall) :
    (∀ s ∈ Run.states (step dev) (init dev) calls, s.Accounted) ↔
      1 ≤ dev.logNumVlans ∧ Run.Steps (step dev) (CallOk dev) (init dev) calls := by
  have hstep : ∀ s c, s.Sound dev → True → s.Accounted →
      ((step dev s c).Accounted ↔ CallOk dev s c) := fun s c hs _ h => step_accounted h hs c
  constructor
  · intro h
    have h0 := h _ (Run.start_mem_states _ _)
    refine ⟨(init_accounted dev).mp h0, ?_⟩
    exact (Run.forall_states_iff (fun s c hs _ => step_sound hs c) hstep (init_sound dev) h0
      (Run.steps_true _ _)).mp h
  · rintro ⟨hlog, hok⟩
    have h0 := (init_accounted dev).mpr hlog
    exact (Run.forall_states_iff (fun s c hs _ => step_sound hs c) hstep (init_sound dev) h0
      (Run.steps_true _ _)).mpr hok

theorem bondedDev_log : 7 ≤ 7 := Nat.le_refl 7

/-- A bonded device with two Ethernet ports. -/
def bondedDev : PortDev :=
  { isMfunc := true, isBonded := true, numEthPorts := 2, numPorts := 2
    logNumMacs := 7, logNumVlans := 7
    logNumMacs_le := bondedDev_log, logNumVlans_le := bondedDev_log }

/-- Registering and unregistering one MAC on a bonded device leaves `total` of port 1 at -1. -/
theorem bonded_unregister_loses_count :
    ¬∀ s ∈ Run.states (step bondedDev) (init bondedDev)
        [.registerMac .one 0x112233445566, .unregisterMac .one 0x112233445566], s.Accounted := by
  intro h
  have hlast := (h _ (Run.final_mem_states _ _)).1 .one
  have htotal : ((Run.final (step bondedDev) (init bondedDev)
      [.registerMac .one 0x112233445566, .unregisterMac .one 0x112233445566]).macs .one).total
        = -1 := by decide +kernel
  have := hlast.nonneg
  rw [htotal] at this
  exact absurd this (by decide)

end PortTables

end Mlx4
