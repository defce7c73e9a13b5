-- SUMMARY: When a MAC or VLAN registration that fails leaves both port tables alone.
import OfaKernel.Mlx4.PortTotals

/-!
# Failed registrations

A register call that fails should leave the tables of both ports alone. The first firmware
command fails after the slot was written; the second, for the duplicate, after the slot of this
port has been committed.
-/

namespace Mlx4

/-- What a call that returns a negative error must leave behind. -/
def Atomic (r : Except Int Slot × Tables) (s : Tables) : Prop :=
  ∀ e, r.1 = .error e → e < 0 → r.2 = s

theorem atomic_ok {i : Slot} {s s' : Tables} : Atomic (.ok i, s') s := by
  intro e he
  cases he

theorem atomic_same {r : Except Int Slot} {s : Tables} : Atomic (r, s) s := fun _ _ _ => rfl

/-! ## Writing the slot -/

theorem AddrTable.incTotal_total_ne (t : AddrTable) : t.incTotal.total ≠ t.total := by
  have hwrap : (t.total + 1 - t.incTotal.total) % 2 ^ 32 = 0 := by
    simp only [AddrTable.incTotal, I32.wrap]
    omega
  omega

theorem update_self_iff {s : Tables} {port : Port} {t : AddrTable} :
    Function.update s port t = s ↔ t = s port := by
  rw [Function.update_eq_self_iff]

section

variable {err errDup : Int} {port : Port} {entry : Nat} {free : Slot} {dup : Bool}
  {failed : AddrTable} {s : Tables}

theorem writeSlot_dup_failed (hdup : errDup < 0) :
    ¬Atomic (writeSlot 0 errDup port entry free true failed s) s := by
  intro h
  have hne : errDup ≠ 0 := by omega
  have hs := h errDup (by simp [writeSlot, hne]) hdup
  have htotal := congrArg (fun s : Tables => (s port).total) hs
  simp only [writeSlot, ne_eq, not_true_eq_false, if_false, if_true, hne, not_false_eq_true,
    Function.update_of_ne (Port.ne_dup port), Function.update_self] at htotal
  exact AddrTable.incTotal_total_ne _ htotal

/-- Writing a slot is atomic exactly if the first failure restores the table and the second
does not occur. -/
theorem writeSlot_atomic :
    Atomic (writeSlot err errDup port entry free dup failed s) s ↔
      (err < 0 → failed = s port) ∧ ¬(err = 0 ∧ dup ∧ errDup < 0) := by
  rcases lt_trichotomy err 0 with herr | rfl | herr
  · -- the first command fails
    have hne : err ≠ 0 := by omega
    have hw : writeSlot err errDup port entry free dup failed s =
        (.error err, Function.update s port failed) := by simp [writeSlot, hne]
    rw [hw]
    constructor
    · intro h
      exact ⟨fun _ => update_self_iff.mp (h err rfl herr), fun h0 => hne h0.1⟩
    · rintro ⟨h, -⟩ e - -
      exact update_self_iff.mpr (h herr)
  · cases dup with
    | false =>
      have hw : Atomic (.ok free, Function.update s port
        ((((s port).setEntry free entry).setRefs free 1).setDup free false).incTotal) s :=
        atomic_ok
      simpa [writeSlot] using hw
    | true =>
      constructor
      · intro h
        exact ⟨fun h0 => absurd h0 (lt_irrefl 0), fun h0 => writeSlot_dup_failed h0.2.2 h⟩
      · rintro ⟨-, h⟩ e he hneg
        simp only [writeSlot, ne_eq, not_true_eq_false, if_false, if_true] at he
        split at he
        · exact absurd ⟨rfl, rfl, by cases he; exact hneg⟩ h
        · cases he
  · -- a positive result is no negative error
    have hne : err ≠ 0 := by omega
    constructor
    · intro _
      exact ⟨fun h0 => absurd h0 (by omega), fun h0 => hne h0.1⟩
    · rintro - e he hneg
      simp only [writeSlot, ne_eq, hne, not_false_eq_true, if_true, Except.error.injEq] at he
      omega

end

theorem AddrTable.setEntry_zero_eq_self {t : AddrTable} {i : Slot} :
    t.setEntry i 0 = t ↔ t.entries i = 0 := by
  constructor
  · intro h
    rw [← h]
    simp [AddrTable.setEntry]
  · intro h
    simp [AddrTable.setEntry, ← h]

/-- What `__mlx4_register_vlan` does to a slot whose firmware command failed. -/
theorem AddrTable.clearSlot_eq_self {t : AddrTable} {i : Slot} :
    ((t.setRefs i 0).setDup i false).setEntry i 0 = t ↔
      t.entries i = 0 ∧ t.refs i = 0 ∧ t.isDup i = false := by
  constructor
  · intro h
    rw [← h]
    simp [AddrTable.setEntry, AddrTable.setDup]
  · rintro ⟨he, hr, hd⟩
    simp [AddrTable.setEntry, AddrTable.setRefs, AddrTable.setDup, ← he, ← hr, ← hd]

section

variable (dev : PortDev) (err errDup : Int) (port : Port) (addr : Nat) (s : Tables)

/-- `__mlx4_register_mac` stays inside its arrays and is atomic. A slot that is not there, -1,
is written nevertheless. -/
def MacAtomic : Prop :=
  (findIndex (s port) addr = none → (s port).total ≠ (s port).max →
    (macSlot dev (s port) (s port.dup) addr).1.isSome) ∧
  Atomic (registerMac dev err errDup port addr s) s

/-- The MAC is registered already, the table is full, or its slot is there, was empty if the first
command fails, and is not duplicated by a second command that fails. -/
def MacKeeps : Prop :=
  (findIndex (s port) addr).isSome ∨ (s port).total = (s port).max ∨
    ∃ free dup, macSlot dev (s port) (s port.dup) addr = (some free, dup) ∧
      (err < 0 → (s port).entries free = 0) ∧ ¬(err = 0 ∧ dup ∧ errDup < 0)

/-- As `MacKeeps`; a table without a slot makes the call fail at once, and the slot is cleared
altogether when the first command fails. -/
def VlanKeeps : Prop :=
  (s port).total = (s port).max ∨ (findVlan (s port) addr).isSome ∨
    (vlanSlot dev (s port) (s port.dup) addr).1 = none ∨
    ∃ free dup, vlanSlot dev (s port) (s port.dup) addr = (some free, dup) ∧
      (err < 0 →
        (s port).entries free = 0 ∧ (s port).refs free = 0 ∧ (s port).isDup free = false) ∧
      ¬(err = 0 ∧ dup ∧ errDup < 0)

theorem registerMac_atomic_iff :
    MacAtomic dev err errDup port addr s ↔ MacKeeps dev err errDup port addr s := by
  unfold MacAtomic MacKeeps registerMac
  cases hfind : findIndex (s port) addr with
  | some i => simp [atomic_ok]
  | none =>
    by_cases hfull : (s port).total = (s port).max
    · simp [hfull, atomic_same]
    · rcases macSlot dev (s port) (s port.dup) addr with ⟨slot, dup⟩
      cases slot with
      | none => simp [hfull]
      | some free =>
        cases dup with
        | false => simp [hfull, writeSlot_atomic, AddrTable.setEntry_zero_eq_self]
        | true => simp [hfull, writeSlot_atomic, AddrTable.setEntry_zero_eq_self]

theorem registerVlan_atomic_iff :
    Atomic (registerVlan dev err errDup port addr s) s ↔
      VlanKeeps dev err errDup port addr s := by
  unfold VlanKeeps registerVlan
  by_cases hfull : (s port).total = (s port).max
  · simp [hfull, atomic_same]
  · cases hfind : findVlan (s port) addr with
    | some i => simp [hfull, atomic_ok]
    | none =>
      rcases vlanSlot dev (s port) (s port.dup) addr with ⟨slot, dup⟩
      cases slot with
      | none => simp [hfull, atomic_same]
      | some free =>
        cases dup with
        | false => simp [hfull, writeSlot_atomic, AddrTable.clearSlot_eq_self]
        | true => simp [hfull, writeSlot_atomic, AddrTable.clearSlot_eq_self]

/-- A failing registration leaves both tables as they were exactly if the slot it took was empty
and the write of the duplicate did not fail. -/
theorem register_atomic_iff :
    (MacAtomic dev err errDup port addr s ↔ MacKeeps dev err errDup port addr s) ∧
      (Atomic (registerVlan dev err errDup port addr s) s ↔
        VlanKeeps dev err errDup port addr s) := by
  constructor
  · exact registerMac_atomic_iff dev err errDup port addr s
  · exact registerVlan_atomic_iff dev err errDup port addr s

end

/-- The MAC stays registered on port 1 when the command for its duplicate fails with -5. -/
theorem failed_duplicate_stays_registered :
    ¬Atomic (registerMac PortTables.bondedDev 0 (-5) .one 0x112233445566
      (fun _ => initMacTable PortTables.bondedDev))
        (fun _ => initMacTable PortTables.bondedDev) := by
  intro h
  have herr : (registerMac PortTables.bondedDev 0 (-5) .one 0x112233445566
      (fun _ => initMacTable PortTables.bondedDev)).1 = .error (-5) := by
    decide +kernel
  have hs := congrFun (h (-5) herr (by decide)) .one
  have htotal : ((registerMac PortTables.bondedDev 0 (-5) .one 0x112233445566
      (fun _ => initMacTable PortTables.bondedDev)).2 .one).total = 1 := by
    decide +kernel
  rw [hs] at htotal
  exact absurd htotal (by decide)

end Mlx4
