-- SUMMARY: Reference counts of registered MACs over every run.
import OfaKernel.Mlx4.PortTotals

/-!
# MAC reference counts

`outstanding port m` counts the registrations of the MAC `m` that were not unregistered, `index
port m` is the slot the first of them returned.
-/

open Function

namespace Mlx4

/-! ## One table -/

theorem macMask_macEntry (mac : Nat) : macMask (macEntry mac) = macMask mac := by
  simp [macMask, macEntry, Nat.and_or_distrib_right]

namespace AddrTable

variable {t : AddrTable} {i : Slot} {mac : Nat} {out : Nat → Nat} {index : Nat → Option Slot}

/-- The MAC in a slot. -/
def key (t : AddrTable) (i : Slot) : Nat := macMask (t.entries i)

theorem holdsMac_iff : holdsMac t mac i = true ↔ t.key i = macMask mac := by
  simp [holdsMac, key, eq_comm]

/-- No MAC has references in two slots. -/
def Unique (t : AddrTable) : Prop :=
  ∀ i j, t.refs i ≠ 0 → t.refs j ≠ 0 → t.key i = t.key j → i = j

theorem findIndex_eq_none : findIndex t mac = none ↔
    ∀ i, t.refs i ≠ 0 → t.key i ≠ macMask mac := by
  simp only [findIndex, Fin.find?_eq_none_iff, Bool.and_eq_false_iff, decide_eq_false_iff_not,
    not_not]
  constructor
  · intro h i hi hk
    rcases h i with h0 | h0
    · exact hi h0
    · simp [holdsMac_iff.mpr hk] at h0
  · intro h i
    by_cases hi : t.refs i = 0
    · exact .inl hi
    · exact .inr (Bool.eq_false_iff.mpr fun hm => h i hi (holdsMac_iff.mp hm))

theorem findIndex_key (h : findIndex t mac = some i) : t.refs i ≠ 0 ∧ t.key i = macMask mac :=
  ⟨(findIndex_some h).1, holdsMac_iff.mp (findIndex_some h).2⟩

theorem Unique.findIndex_iff (h : t.Unique) :
    findIndex t mac = some i ↔ t.refs i ≠ 0 ∧ t.key i = macMask mac := by
  constructor
  · exact findIndex_key
  · rintro ⟨hi, hk⟩
    cases hfind : findIndex t mac with
    | none => exact absurd hk (findIndex_eq_none.mp hfind i hi)
    | some j =>
      obtain ⟨hj, hkj⟩ := findIndex_key hfind
      rw [h j i hj hi (hkj.trans hk.symm)]

/-- A slot with references has as many as its MAC, and a MAC with outstanding ones is found at the
index its registration returned. -/
structure Counted (t : AddrTable) (out : Nat → Nat) (index : Nat → Option Slot) : Prop where
  refs_eq : ∀ i, t.refs i ≠ 0 → t.refs i = out (t.key i)
  found : ∀ mac, out (macMask mac) ≠ 0 →
    ∃ i, index (macMask mac) = some i ∧ findIndex t mac = some i ∧ t.refs i = out (macMask mac)

/-- The same slot by slot. -/
structure Matched (t : AddrTable) (out : Nat → Nat) (index : Nat → Option Slot) : Prop where
  slot : ∀ i, t.refs i ≠ 0 → t.refs i = out (t.key i) ∧ index (t.key i) = some i
  held : ∀ mac, out (macMask mac) ≠ 0 →
    ∃ i, index (macMask mac) = some i ∧ t.refs i = out (macMask mac) ∧ t.key i = macMask mac

theorem Unique.counted_iff (h : t.Unique) : t.Counted out index ↔ t.Matched out index := by
  constructor
  · intro hc
    refine ⟨fun i hi => ⟨hc.refs_eq i hi, ?_⟩, fun mac hm => ?_⟩
    · have hout : out (macMask (t.entries i)) ≠ 0 := by
        intro h0
        have := hc.refs_eq i hi
        rw [key, h0] at this
        exact hi this
      obtain ⟨j, hj, hfind, -⟩ := hc.found _ hout
      obtain ⟨hrj, hkj⟩ := findIndex_key hfind
      have hij : i = j := h i j hi hrj hkj.symm
      rw [hij]
      exact hkj ▸ hj
    · obtain ⟨i, hi, hfind, hr⟩ := hc.found mac hm
      exact ⟨i, hi, hr, (findIndex_key hfind).2⟩
  · intro hm
    refine ⟨fun i hi => (hm.slot i hi).1, fun mac hout => ?_⟩
    obtain ⟨i, hi, hr, hk⟩ := hm.held mac hout
    have hri : t.refs i ≠ 0 := by
      rw [hr]
      exact_mod_cast hout
    exact ⟨i, hi, h.findIndex_iff.mpr ⟨hri, hk⟩, hr⟩

theorem Unique.mono {t' : AddrTable} (h : t.Unique)
    (hsub : ∀ j, t'.refs j ≠ 0 → t.refs j ≠ 0 ∧ t'.key j = t.key j) : t'.Unique := by
  intro i j hi hj hk
  obtain ⟨hi', hki⟩ := hsub i hi
  obtain ⟨hj', hkj⟩ := hsub j hj
  exact h i j hi' hj' (hki.symm.trans (hk.trans hkj))

/-- What changes only slots without references keeps the agreement. -/
theorem Matched.congr {t' : AddrTable} (h : t.Matched out index) (hrefs : t'.refs = t.refs)
    (hkey : ∀ j, t.refs j ≠ 0 → t'.key j = t.key j) : t'.Matched out index := by
  refine ⟨fun i hi => ?_, fun mac hm => ?_⟩
  · rw [hrefs] at hi ⊢
    rw [hkey i hi]
    exact h.slot i hi
  · obtain ⟨i, hi, hr, hk⟩ := h.held mac hm
    have hri : t.refs i ≠ 0 := by
      rw [hr]
      exact_mod_cast hm
    exact ⟨i, hi, by rw [hrefs, hr], by rw [hkey i hri, hk]⟩

/-- One slot with references gets a new count, and so does its MAC. -/
theorem Matched.setRefs (h : t.Matched out index) (hi : t.refs i ≠ 0) (n : Nat) :
    (t.setRefs i n).Matched (update out (t.key i) n) index := by
  have hkey : ∀ j, (t.setRefs i n).key j = t.key j := fun _ => rfl
  have hne : ∀ j, j ≠ i → (t.setRefs i n).refs j = t.refs j := fun j hj => by
    simp [AddrTable.setRefs, hj]
  have hidx := (h.slot i hi).2
  refine ⟨fun j hj => ?_, fun mac hm => ?_⟩
  · rw [hkey]
    by_cases hji : j = i
    · subst hji
      exact ⟨by simp, hidx⟩
    · rw [hne j hji] at hj ⊢
      have hk : t.key j ≠ t.key i := by
        intro hk
        have := (h.slot j hj).2
        rw [hk, hidx] at this
        exact hji (Option.some.inj this).symm
      rw [update_of_ne hk]
      exact h.slot j hj
  · by_cases hk : macMask mac = t.key i
    · exact ⟨i, hk ▸ hidx, by simp [hk], hk.symm⟩
    · rw [update_of_ne hk] at hm ⊢
      obtain ⟨j, hj, hr, hkj⟩ := h.held mac hm
      have hji : j ≠ i := by
        rintro rfl
        exact hk hkj.symm
      exact ⟨j, hj, by rw [hne j hji, hr], hkj⟩

@[simp] theorem fill_refs : (t.fill i (macEntry mac)).refs i = 1 := by
  simp [fill, incTotal]

theorem fill_refs_of_ne {e : Nat} {j : Slot} (h : j ≠ i) : (t.fill i e).refs j = t.refs j := by
  simp [fill, incTotal, AddrTable.setRefs, h]

@[simp] theorem fill_key : (t.fill i (macEntry mac)).key i = macMask mac := by
  simp [key, fill, incTotal, setEntry, macMask_macEntry]

theorem fill_key_of_ne {e : Nat} {j : Slot} (h : j ≠ i) : (t.fill i e).key j = t.key j := by
  simp [key, fill, incTotal, setEntry, h]

/-- A MAC without references on the port goes to a slot without any. -/
theorem Unique.fill (h : t.Unique) (hnew : findIndex t mac = none) :
    (t.fill i (macEntry mac)).Unique := by
  have hfresh := findIndex_eq_none.mp hnew
  intro a b ha hb hk
  by_cases hai : a = i
  · by_cases hbi : b = i
    · rw [hai, hbi]
    · rw [fill_refs_of_ne hbi] at hb
      rw [hai, fill_key, fill_key_of_ne hbi] at hk
      exact absurd hk.symm (hfresh b hb)
  · rw [fill_refs_of_ne hai] at ha
    by_cases hbi : b = i
    · rw [hbi, fill_key, fill_key_of_ne hai] at hk
      exact absurd hk (hfresh a ha)
    · rw [fill_refs_of_ne hbi] at hb
      rw [fill_key_of_ne hai, fill_key_of_ne hbi] at hk
      exact h a b ha hb hk

theorem Matched.fill (h : t.Matched out index) (hi : t.refs i = 0)
    (hnew : findIndex t mac = none) :
    (t.fill i (macEntry mac)).Matched (update out (macMask mac) 1)
      (update index (macMask mac) (some i)) := by
  have hfresh := findIndex_eq_none.mp hnew
  refine ⟨fun j hj => ?_, fun m hm => ?_⟩
  · by_cases hji : j = i
    · subst hji
      simp
    · rw [fill_refs_of_ne hji] at hj
      rw [fill_refs_of_ne hji, fill_key_of_ne hji, update_of_ne (hfresh j hj),
        update_of_ne (hfresh j hj)]
      exact h.slot j hj
  · by_cases hk : macMask m = macMask mac
    · rw [hk]
      exact ⟨i, by simp⟩
    · rw [update_of_ne hk] at hm ⊢
      rw [update_of_ne hk]
      obtain ⟨j, hj, hr, hkj⟩ := h.held m hm
      have hji : j ≠ i := by
        rintro rfl
        rw [hi] at hr
        exact hm (by exact_mod_cast hr.symm)
      exact ⟨j, hj, by rw [fill_refs_of_ne hji, hr], by rw [fill_key_of_ne hji, hkj]⟩

end AddrTable

theorem bondCheck_slot {atPort atDup keeps : Slot → Bool} {t t' : AddrTable} {i : Slot}
    (h : (bondCheck atPort atDup keeps t t').2 = some i) : t.refs i = 0 ∨ keeps i = true := by
  unfold bondCheck at h
  generalize Fin.findRev? atDup = found at h
  cases found with
  | none => simp at h
  | some j =>
    by_cases hj : t.refs j = 0 ∨ keeps j = true
    · simp only [hj, if_true, Option.some.injEq] at h
      exact h ▸ hj
    · simp [hj] at h

theorem newSlot_slot {dev : PortDev} {regular : Slot → Bool} {bond : Bool × Option Slot}
    {t t' : AddrTable} {i : Slot} (h : (newSlot dev regular bond t t').1 = some i) :
    t.refs i = 0 ∨ bond.2 = some i := by
  have hfree : ∀ j, Fin.find? (fun i => regular i && decide (t.refs i = 0)) = some j →
      t.refs j = 0 := fun j hj => by
    have := Fin.eq_true_of_find?_eq_some hj
    simp only [Bool.and_eq_true, decide_eq_true_eq] at this
    exact this.2
  have hcommon : ∀ j, Fin.find? (fun i => regular i && decide (t.refs i = 0) &&
      decide (t'.refs i = 0)) = some j → t.refs j = 0 := fun j hj => by
    have := Fin.eq_true_of_find?_eq_some hj
    simp only [Bool.and_eq_true, decide_eq_true_eq] at this
    exact this.1.2
  unfold newSlot at h
  generalize Fin.find? (fun i => regular i && decide (t.refs i = 0) && decide (t'.refs i = 0)) =
    common at h hcommon
  cases hneed : dev.needMfBond with
  | false => exact .inl (hfree i (by simpa [hneed] using h))
  | true =>
    cases hb : bond.2 with
    | some j =>
      cases hcan : bond.1 with
      | true => exact .inr (by simpa [hneed, hb, hcan] using h)
      | false => exact .inl (hfree i (by simpa [hb, hcan] using h))
    | none =>
      cases hcan : bond.1 with
      | false => exact .inl (hfree i (by simpa [hneed, hb, hcan] using h))
      | true =>
        cases hc : common with
        | none => exact .inl (hfree i (by simpa [hneed, hb, hc] using h))
        | some j => exact .inl (hcommon i (by simpa [hneed, hb, hcan, hc] using h))

/-- A MAC without references on the port goes to a slot without any. -/
theorem macSlot_slot {dev : PortDev} {t t' : AddrTable} {mac : Nat} {i : Slot}
    (hnew : findIndex t mac = none) (h : (macSlot dev t t' mac).1 = some i) : t.refs i = 0 := by
  rcases newSlot_slot h with h0 | hbond
  · exact h0
  · rcases bondCheck_slot hbond with h0 | hkeeps
    · exact h0
    · by_contra hne
      exact AddrTable.findIndex_eq_none.mp hnew i hne (AddrTable.holdsMac_iff.mp hkeeps)

/-! ## Runs -/

/-- For each port and MAC the registrations not yet unregistered and the index the first of them
returned. -/
structure MacState where
  macs : Tables
  outstanding : Port → Nat → Nat
  index : Port → Nat → Option Slot

inductive MacCall where
  | register (port : Port) (mac : Nat)
  | unregister (port : Port) (mac : Nat)

namespace MacState

def init (dev : PortDev) : MacState :=
  { macs := fun _ => initMacTable dev, outstanding := fun _ _ => 0, index := fun _ _ => none }

/-- A registration of `mac` returned `i`. -/
def registered (s : MacState) (port : Port) (mac : Nat) (i : Slot) (macs : Tables) : MacState :=
  let m := macMask mac
  { macs := macs
    outstanding := update s.outstanding port
      (update (s.outstanding port) m (s.outstanding port m + 1))
    index :=
      if s.outstanding port m = 0 then
        update s.index port (update (s.index port) m (some i))
      else s.index }

/-- One call whose firmware commands succeed. -/
def step (dev : PortDev) (s : MacState) : MacCall → MacState
  | .register port mac =>
    match registerMac dev 0 0 port mac s.macs with
    | (.ok i, macs) => s.registered port mac i macs
    | (.error _, macs) => { s with macs := macs }
  | .unregister port mac =>
    { s with
      macs := unregisterMac dev port mac s.macs
      outstanding := update s.outstanding port
        (update (s.outstanding port) (macMask mac)
          (s.outstanding port (macMask mac) - 1)) }

/-- A registration succeeds, and an unregistration matches one on the same port. -/
def Valid (dev : PortDev) (s : MacState) : MacCall → Prop
  | .register port mac => ∃ i, (registerMac dev 0 0 port mac s.macs).1 = .ok i
  | .unregister port mac => s.outstanding port (macMask mac) ≠ 0

/-- The tables of both ports agree with the outstanding registrations. -/
def Counted (s : MacState) : Prop := ∀ p, (s.macs p).Counted (s.outstanding p) (s.index p)

/-- The count stays an `int`, a duplicate is not written over references, and `validate_index`
accepts the slot of a MAC that is unregistered. -/
def CallOk (dev : PortDev) (s : MacState) : MacCall → Prop
  | .register port mac =>
    (∀ i, findIndex (s.macs port) mac = some i → (s.macs port).refs i + 1 < 2 ^ 31) ∧
    (findIndex (s.macs port) mac = none → ∀ i,
      macSlot dev (s.macs port) (s.macs port.dup) mac = (some i, true) →
        (s.macs port.dup).refs i = 0)
  | .unregister port mac =>
    port.num ≤ dev.numPorts ∧
      ∀ i, findIndex (s.macs port) mac = some i → (i.val : Int) < (s.macs port).max

instance (dev : PortDev) (s : MacState) : ∀ c, Decidable (Valid dev s c)
  | .register port mac =>
    inferInstanceAs (Decidable (∃ i, (registerMac dev 0 0 port mac s.macs).1 = .ok i))
  | .unregister port mac => inferInstanceAs (Decidable (s.outstanding port (macMask mac) ≠ 0))

instance (dev : PortDev) (s : MacState) : ∀ c, Decidable (CallOk dev s c)
  | .register _ _ => inferInstanceAs (Decidable ((∀ _, _ → _) ∧ (_ → ∀ _, _ → _)))
  | .unregister _ _ => inferInstanceAs (Decidable (_ ∧ ∀ _, _ → _))

/-- What every call keeps, whether or not it meets its condition. -/
structure Inv (dev : PortDev) (s : MacState) : Prop where
  sound : s.macs.Sound (1 <<< dev.logNumMacs)
  unique : ∀ p, (s.macs p).Unique

/-- The two ways a registration succeeds. -/
theorem registerMac_cases {dev : PortDev} {port : Port} {mac : Nat} {f : Tables} {i : Slot}
    (h : (registerMac dev 0 0 port mac f).1 = .ok i) :
    (findIndex (f port) mac = some i ∧ (registerMac dev 0 0 port mac f).2 =
      update f port ((f port).setRefs i (I32.wrap ((f port).refs i + 1)))) ∨
    ∃ dup, findIndex (f port) mac = none ∧
      macSlot dev (f port) (f port.dup) mac = (some i, dup) ∧
      (registerMac dev 0 0 port mac f).2 = written port (macEntry mac) i dup f := by
  unfold registerMac at h ⊢
  cases hfind : findIndex (f port) mac with
  | some j =>
    rw [hfind] at h
    simp only [Except.ok.injEq] at h
    subst h
    simp
  | none =>
    rw [hfind] at h
    by_cases hfull : (f port).total = (f port).max
    · simp [hfull] at h
    · simp only [hfull, if_false] at h ⊢
      cases hslot : macSlot dev (f port) (f port.dup) mac with
      | mk slot dup =>
        rw [hslot] at h
        cases slot with
        | none => simp at h
        | some j =>
          simp only [writeSlot_ok, Except.ok.injEq] at h ⊢
          subst h
          exact .inr ⟨dup, by simp⟩

/-- A registration that fails changes nothing. -/
theorem registerMac_error {dev : PortDev} {port : Port} {mac : Nat} {f : Tables} {err : Int}
    (h : (registerMac dev 0 0 port mac f).1 = .error err) :
    (registerMac dev 0 0 port mac f).2 = f := by
  unfold registerMac at h ⊢
  cases hfind : findIndex (f port) mac with
  | some j => simp [hfind] at h
  | none =>
    rw [hfind] at h
    by_cases hfull : (f port).total = (f port).max
    · simp [hfull]
    · simp only [hfull, if_false] at h ⊢
      cases hslot : macSlot dev (f port) (f port.dup) mac with
      | mk slot dup =>
        rw [hslot] at h
        cases slot with
        | none => rfl
        | some j => simp [writeSlot_ok] at h

theorem step_register_ok {dev : PortDev} {s : MacState} {port : Port} {mac : Nat} {i : Slot}
    (h : (registerMac dev 0 0 port mac s.macs).1 = .ok i) :
    step dev s (.register port mac) =
      s.registered port mac i (registerMac dev 0 0 port mac s.macs).2 := by
  rw [step]
  generalize registerMac dev 0 0 port mac s.macs = r at h ⊢
  obtain ⟨r1, r2⟩ := r
  subst h
  rfl

end MacState

/-! ## Uniqueness -/

namespace AddrTable

variable {t : AddrTable} {i : Slot}

theorem setRefs_refs_of_ne {n : Int} {j : Slot} (h : j ≠ i) :
    (t.setRefs i n).refs j = t.refs j := by
  simp [setRefs, h]

theorem Unique.setRefs {n : Int} (h : t.Unique) (hi : t.refs i ≠ 0) : (t.setRefs i n).Unique := by
  refine h.mono fun j hj => ⟨?_, rfl⟩
  by_cases hji : j = i
  · subst hji; exact hi
  · rwa [setRefs_refs_of_ne hji] at hj

/-- A slot whose references go may get another entry. -/
theorem refs_key_of_zeroed {t' : AddrTable} (hr : t'.refs = update t.refs i 0)
    (he : ∀ j ≠ i, t'.entries j = t.entries j) :
    ∀ j, t'.refs j ≠ 0 → t.refs j ≠ 0 ∧ t'.key j = t.key j := by
  intro j hj
  have hji : j ≠ i := by
    rintro rfl
    simp [hr] at hj
  rw [hr, update_of_ne hji] at hj
  exact ⟨hj, by rw [key, key, he j hji]⟩

theorem copy_refs {e : Nat} : (t.copy i e).refs = update t.refs i 0 := rfl

theorem copy_entries_of_ne {e : Nat} {j : Slot} (h : j ≠ i) :
    (t.copy i e).entries j = t.entries j := by
  simp [copy, incTotal, setEntry, h]

theorem clear_refs : (t.clear i).refs = update t.refs i 0 := rfl

theorem clear_entries_of_ne {j : Slot} (h : j ≠ i) : (t.clear i).entries j = t.entries j := by
  simp [clear, decTotal, setEntry, h]

theorem Unique.copy {e : Nat} (h : t.Unique) : (t.copy i e).Unique :=
  h.mono (refs_key_of_zeroed copy_refs fun _ => copy_entries_of_ne)

theorem Unique.clear (h : t.Unique) : (t.clear i).Unique :=
  h.mono (refs_key_of_zeroed clear_refs fun _ => clear_entries_of_ne)

theorem Unique.setDup {b : Bool} (h : t.Unique) : (t.setDup i b).Unique :=
  h.mono fun _ hj => ⟨hj, rfl⟩

theorem Unique.decTotal (h : t.Unique) : t.decTotal.Unique := h

theorem Unique.clearEntry (h : t.Unique) (hi : t.refs i = 0) : (t.setEntry i 0).Unique := by
  refine h.mono fun j hj => ⟨hj, ?_⟩
  have hji : j ≠ i := by
    rintro rfl
    exact hj hi
  simp [key, setEntry, hji]

end AddrTable

variable {dev : PortDev} {f : Tables} {port : Port}

theorem unique_update (port : Port) {t : AddrTable} (h : ∀ p, (f p).Unique) (ht : t.Unique) :
    ∀ p, (update f port t p).Unique := by
  intro p
  by_cases hp : p = port
  · subst hp; simpa using ht
  · simpa [hp] using h p

theorem registerMac_unique (h : ∀ p, (f p).Unique) (dev : PortDev) (port : Port) (mac : Nat) :
    ∀ p, ((registerMac dev 0 0 port mac f).2 p).Unique := by
  cases hres : (registerMac dev 0 0 port mac f).1 with
  | error err => rwa [MacState.registerMac_error hres]
  | ok i =>
    rcases MacState.registerMac_cases hres with ⟨hfind, heq⟩ | ⟨dup, hnew, -, heq⟩
    · rw [heq]
      exact unique_update port h ((h port).setRefs (AddrTable.findIndex_key hfind).1)
    · rw [heq]
      have hfill := unique_update port h ((h port).fill (i := i) hnew)
      cases dup with
      | false => exact hfill
      | true => exact unique_update port.dup hfill (h port.dup).copy

theorem released_unique {i : Slot} (h : ∀ p, (f p).Unique) (hi : (f port).refs i ≠ 0) :
    ∀ p, (released port i f p).Unique := by
  have ht := unique_update port h
    ((h port).setRefs (n := I32.wrap ((f port).refs i - 1)) hi)
  unfold released
  split
  · exact unique_update _ ht (by simpa using (h port.dup).setDup)
  · exact ht

theorem unregistered_unique {i : Slot} (h : ∀ p, (f p).Unique) :
    ∀ p, (unregistered dev port i f p).Unique := by
  have hc := (h port).clear (i := i)
  have hd := (h port.dup).setDup (i := i) (b := false)
  unfold unregistered
  cases dev.isMfBonded with
  | false => exact unique_update _ h hc
  | true =>
    by_cases hr : (f port.dup).refs i = 0
    · simpa [hr] using unique_update _ (unique_update _ h hc.decTotal) (hd.clearEntry hr)
    · simpa [hr] using unique_update _ (unique_update _ h hc) hd

theorem unregisterMac_unique {max : Int} (h : ∀ p, (f p).Unique) (hs : f.Sound max) (mac : Nat) :
    ∀ p, (unregisterMac dev port mac f p).Unique := by
  cases hfind : findIndex (f port) mac with
  | none => rwa [unregisterMac_none hfind]
  | some i =>
    rw [unregisterMac_found hs hfind]
    split
    · exact h
    · split
      · exact unregistered_unique h
      · exact released_unique h (AddrTable.findIndex_key hfind).1

/-! ## Counting -/

namespace AddrTable

variable {t : AddrTable} {i : Slot} {out : Nat → Nat} {index : Nat → Option Slot}

/-- A duplicate leaves the other port's counts right exactly if its slot had no references. -/
theorem Matched.copy_iff {e : Nat} (h : t.Matched out index) :
    (t.copy i e).Matched out index ↔ t.refs i = 0 := by
  constructor
  · intro h'
    by_contra hi
    obtain ⟨hout, hidx⟩ := h.slot i hi
    have hne : out (t.key i) ≠ 0 := by
      intro h0
      rw [h0] at hout
      exact hi hout
    obtain ⟨j, hj, hr, -⟩ := h'.held (t.entries i) hne
    have hji : j = i := Option.some.inj (hj.symm.trans hidx)
    have h0 : (t.copy i e).refs i = 0 := by simp [copy_refs]
    rw [hji, h0] at hr
    exact hne (by exact_mod_cast hr.symm)
  · intro hi
    refine h.congr ?_ fun j hj => ?_
    · rw [copy_refs, ← hi, update_eq_self]
    · have hji : j ≠ i := by
        rintro rfl
        exact hj hi
      rw [key, key, copy_entries_of_ne hji]

theorem Matched.setDup {b : Bool} (h : t.Matched out index) : (t.setDup i b).Matched out index :=
  h.congr rfl fun _ _ => rfl

theorem Matched.decTotal (h : t.Matched out index) : t.decTotal.Matched out index :=
  h.congr rfl fun _ _ => rfl

theorem Matched.clearEntry (h : t.Matched out index) (hi : t.refs i = 0) :
    (t.setEntry i 0).Matched out index := by
  refine h.congr rfl fun j hj => ?_
  have hji : j ≠ i := by
    rintro rfl
    exact hj hi
  simp [key, setEntry, hji]

theorem Matched.clear (h : t.Matched out index) (hi : t.refs i ≠ 0) :
    (t.clear i).Matched (update out (t.key i) 0) index := by
  refine (h.setRefs hi 0).congr rfl fun j hj => ?_
  have hji : j ≠ i := by
    rintro rfl
    simp at hj
  rw [key, key, clear_entries_of_ne hji]
  rfl

end AddrTable

namespace MacState

variable {dev : PortDev} {s : MacState} {port : Port} {mac : Nat}

theorem counted_iff (h : s.Inv dev) :
    s.Counted ↔ ∀ p, (s.macs p).Matched (s.outstanding p) (s.index p) :=
  forall_congr' fun p => (h.unique p).counted_iff

theorem forall_port {P : Port → Prop} (port : Port) : (∀ p, P p) ↔ P port ∧ P port.dup := by
  constructor
  · intro h; exact ⟨h port, h port.dup⟩
  · rintro ⟨h1, h2⟩ p
    rcases port.eq_or_eq_dup p with rfl | rfl
    · exact h1
    · exact h2

theorem step_inv (h : s.Inv dev) (c : MacCall) : (step dev s c).Inv dev := by
  cases c with
  | register port mac =>
    cases hres : (registerMac dev 0 0 port mac s.macs).1 with
    | ok i =>
      rw [step_register_ok hres]
      exact ⟨registerMac_sound h.sound dev port mac, registerMac_unique h.unique dev port mac⟩
    | error err =>
      have hs : step dev s (.register port mac) = s := by
        have heq := registerMac_error hres
        rw [step]
        generalize registerMac dev 0 0 port mac s.macs = r at hres heq ⊢
        obtain ⟨r1, r2⟩ := r
        subst hres
        subst heq
        rfl
      rw [hs]
      exact h
  | unregister port mac =>
    exact ⟨unregisterMac_sound h.sound mac, unregisterMac_unique h.unique h.sound mac⟩

theorem wrap_succ_iff {n : Nat} : I32.wrap ((n : Int) + 1) = ((n + 1 : Nat) : Int) ↔
    (n : Int) + 1 < 2 ^ 31 := by
  constructor
  · intro h
    have := (I32.wrap_range ((n : Int) + 1)).2
    rw [h] at this
    exact_mod_cast this
  · intro h
    rw [I32.wrap_of_range (by omega) h]
    rfl

/-- A registration that finds the MAC. -/
theorem register_again (h : s.Inv dev) (hg : s.Counted) {i : Slot}
    (hfind : findIndex (s.macs port) mac = some i) (f : Tables)
    (hf : f = update s.macs port
      ((s.macs port).setRefs i (I32.wrap ((s.macs port).refs i + 1))))
    (hinv : (s.registered port mac i f).Inv dev) :
    (s.registered port mac i f).Counted ↔ (s.macs port).refs i + 1 < 2 ^ 31 := by
  rw [counted_iff h] at hg
  obtain ⟨hi, hk⟩ := AddrTable.findIndex_key hfind
  obtain ⟨hout, hidx⟩ := (hg port).slot i hi
  rw [hk] at hout hidx
  have hne : s.outstanding port (macMask mac) ≠ 0 := by
    intro h0
    rw [h0] at hout
    exact hi hout
  rw [counted_iff hinv, forall_port port, hout, ← wrap_succ_iff]
  simp only [registered, hf, hne, if_false, update_self, ne_eq, Port.dup_ne,
    not_false_eq_true, update_of_ne, hg port.dup, and_true]
  constructor
  · intro h'
    obtain ⟨j, hj, hr, -⟩ := h'.held mac (by simp)
    have hji : j = i := Option.some.inj (hj.symm.trans hidx)
    rw [hji] at hr
    simpa [hout] using hr
  · intro hw
    rw [hout, hw, ← hk]
    exact (hg port).setRefs hi _

/-- A registration of a MAC that is new to the port. -/
theorem register_new (h : s.Inv dev) (hg : s.Counted) {i : Slot} {dup : Bool}
    (hnew : findIndex (s.macs port) mac = none) (hi : (s.macs port).refs i = 0) (f : Tables)
    (hf : f = written port (macEntry mac) i dup s.macs)
    (hinv : (s.registered port mac i f).Inv dev) :
    (s.registered port mac i f).Counted ↔ (dup = true → (s.macs port.dup).refs i = 0) := by
  rw [counted_iff h] at hg
  have hout : s.outstanding port (macMask mac) = 0 := by
    by_contra hne
    obtain ⟨j, -, hr, hk⟩ := (hg port).held mac hne
    refine AddrTable.findIndex_eq_none.mp hnew j ?_ hk
    rw [hr]
    exact_mod_cast hne
  have hfill := (hg port).fill hi hnew
  rw [counted_iff hinv, forall_port port]
  cases dup with
  | false =>
    simp [registered, hf, hout, written, hg port.dup, hfill]
  | true =>
    simp [registered, hf, hout, written, hfill, (hg port.dup).copy_iff]

theorem register_counted (h : s.Inv dev) (hg : s.Counted)
    (hv : Valid dev s (.register port mac)) :
    (step dev s (.register port mac)).Counted ↔ CallOk dev s (.register port mac) := by
  obtain ⟨i, hres⟩ := hv
  have hinv := step_inv h (.register port mac)
  rw [step_register_ok hres] at hinv ⊢
  rcases registerMac_cases hres with ⟨hfind, heq⟩ | ⟨dup, hnew, hslot, heq⟩
  · rw [register_again h hg hfind _ heq hinv]
    simp [CallOk, hfind]
  · have hi : (s.macs port).refs i = 0 := macSlot_slot hnew (by rw [hslot])
    rw [register_new h hg hnew hi _ heq hinv]
    cases dup <;> simp [CallOk, hnew, hslot]

/-- An unregistration that is refused leaves a count that nobody holds. -/
theorem unregister_refused (h : s.Inv dev) (hg : s.Counted)
    (hout : s.outstanding port (macMask mac) ≠ 0)
    (hinv : (step dev s (.unregister port mac)).Inv dev)
    (hsame : unregisterMac dev port mac s.macs = s.macs) :
    ¬(step dev s (.unregister port mac)).Counted := by
  rw [counted_iff h] at hg
  rw [counted_iff hinv]
  intro h'
  obtain ⟨i, hi, hr, hk⟩ := (hg port).held mac hout
  have hri : (s.macs port).refs i ≠ 0 := by
    rw [hr]
    exact_mod_cast hout
  have := ((h' port).slot i (by simpa [step, hsame] using hri)).1
  simp only [step, hsame, update_self, hk, hr] at this
  omega

/-- The port of an unregistration and the other one, once the MAC was found. -/
theorem unregister_matched {i : Slot} (hg : ∀ p, (s.macs p).Matched (s.outstanding p) (s.index p))
    (hi : (s.macs port).refs i ≠ 0) (hk : (s.macs port).key i = macMask mac)
    (hskip : ¬(dev.numPorts < port.num ∨ (s.macs port).max ≤ i.val))
    (hsound : s.macs.Sound (1 <<< dev.logNumMacs))
    (hfind : findIndex (s.macs port) mac = some i) :
    (unregisterMac dev port mac s.macs port).Matched
        (update (s.outstanding port) (macMask mac)
          (s.outstanding port (macMask mac) - 1)) (s.index port) ∧
      (unregisterMac dev port mac s.macs port.dup).Matched (s.outstanding port.dup)
        (s.index port.dup) := by
  have hout := ((hg port).slot i hi).1
  rw [hk] at hout
  rw [unregisterMac_found hsound hfind]
  simp only [hskip, if_false]
  by_cases hlast : LastRef (s.macs port) i
  · have hone : s.outstanding port (macMask mac) = 1 := by
      have := hlast.1
      omega
    have hc := (hg port).clear hi
    rw [hk] at hc
    simp only [hlast, if_true, hone, Nat.sub_self, unregistered]
    cases dev.isMfBonded with
    | false => simpa using ⟨hc, hg port.dup⟩
    | true =>
      by_cases hr : (s.macs port.dup).refs i = 0
      · simpa [hr] using ⟨hc.decTotal, ((hg port.dup).setDup (b := false)).clearEntry hr⟩
      · simpa [hr] using ⟨hc, (hg port.dup).setDup⟩
  · have hw : I32.wrap ((s.macs port).refs i - 1) =
        ((s.outstanding port (macMask mac) - 1 : Nat) : Int) := by
      have hr := (hsound port).range i
      rw [I32.wrap_of_range (by omega) (by omega), hout]
      omega
    have hm := (hg port).setRefs hi (s.outstanding port (macMask mac) - 1)
    rw [hk] at hm
    simp only [hlast, if_false, released, hw]
    split
    · simpa using ⟨hm, (hg port.dup).setDup⟩
    · simpa using ⟨hm, hg port.dup⟩

theorem unregister_counted (h : s.Inv dev) (hg : s.Counted)
    (hout : s.outstanding port (macMask mac) ≠ 0) :
    (step dev s (.unregister port mac)).Counted ↔ CallOk dev s (.unregister port mac) := by
  have hinv := step_inv h (.unregister port mac)
  obtain ⟨i, -, hfind, -⟩ := (hg port).found mac hout
  obtain ⟨hi, hk⟩ := AddrTable.findIndex_key hfind
  by_cases hskip : dev.numPorts < port.num ∨ (s.macs port).max ≤ i.val
  · have hsame : unregisterMac dev port mac s.macs = s.macs := by
      rw [unregisterMac_found h.sound hfind, if_pos hskip]
    refine iff_of_false (unregister_refused h hg hout hinv hsame) ?_
    rintro ⟨h1, h2⟩
    have := h2 i hfind
    omega
  · have hm := unregister_matched ((counted_iff h).mp hg) hi hk hskip h.sound hfind
    refine iff_of_true ?_ ?_
    · rw [counted_iff hinv, forall_port port]
      simpa [step] using hm
    · refine ⟨by omega, fun j hj => ?_⟩
      have : i = j := Option.some.inj (hfind.symm.trans hj)
      subst this
      omega

/-- The step lemma: a call keeps the counts right exactly under its condition. -/
theorem step_counted (h : s.Inv dev) (c : MacCall) (hv : Valid dev s c) (hg : s.Counted) :
    (step dev s c).Counted ↔ CallOk dev s c := by
  cases c with
  | register port mac => exact register_counted h hg hv
  | unregister port mac => exact unregister_counted h hg hv

theorem init_inv (dev : PortDev) : (init dev).Inv dev :=
  ⟨fun _ => AddrTable.initTable_sound _, fun _ _ _ hi => absurd rfl hi⟩

theorem init_counted (dev : PortDev) : (init dev).Counted :=
  fun _ => ⟨fun _ hi => absurd rfl hi, fun _ hm => absurd rfl hm⟩

/-- The counts are right in every state of a run exactly if every call meets its condition. -/
theorem counted_every_run_iff (dev : PortDev) (calls : List MacCall)
    (hv : Run.Steps (step dev) (Valid dev) (init dev) calls) :
    (∀ s ∈ Run.states (step dev) (init dev) calls, s.Counted) ↔
      Run.Steps (step dev) (CallOk dev) (init dev) calls :=
  Run.forall_states_iff (fun _ c h _ => step_inv h c) (fun _ c h hv hg => step_counted h c hv hg)
    (init_inv dev) (init_counted dev) hv

/-- Two registrations of one MAC on port 1 and one of another on port 2, then both
on port 1 are given back. -/
def bondedRun : List MacCall :=
  [.register .one 0xa, .register .one 0xa, .register .two 0xb, .unregister .one 0xa,
    .unregister .one 0xa]

theorem counted_every_run_iff_bonded :
    (Run.final (step PortTables.bondedDev) (init PortTables.bondedDev) bondedRun).Counted :=
  (counted_every_run_iff PortTables.bondedDev bondedRun (by decide +kernel)).mpr
    (by decide +kernel) _ (Run.final_mem_states _ _)

/-- A MAC registered on port 1 is no longer found there once port 2 registers it too. -/
theorem registered_on_both_ports_lost :
    Run.Steps (step PortTables.bondedDev) (Valid PortTables.bondedDev) (init PortTables.bondedDev)
        [.register .one 0xa, .register .two 0xa] ∧
      ¬∀ s ∈ Run.states (step PortTables.bondedDev) (init PortTables.bondedDev)
          [.register .one 0xa, .register .two 0xa], s.Counted := by
  refine ⟨by decide +kernel, fun h => ?_⟩
  have hlast := h _ (Run.final_mem_states _ _) .one
  obtain ⟨i, -, hfind, -⟩ := hlast.found 0xa (by decide +kernel)
  have hnone : findIndex ((Run.final (step PortTables.bondedDev) (init PortTables.bondedDev)
      [.register .one 0xa, .register .two 0xa]).macs .one) 0xa = none := by decide +kernel
  rw [hnone] at hfind
  cases hfind

end MacState

end Mlx4
