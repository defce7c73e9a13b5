-- SUMMARY: Component lookup in an accepted MFA2 file.
import OfaKernel.Mlxfw.Mfa2Validate

/-!
# Lookup in MFA2 files

In an accepted file the walks of a lookup are known. `mlxfw_mfa2_file_component_tlv_get` lets the
number of components pass as an index.
-/

namespace Mlxfw

open Traced

variable {fw : Firmware} {fuel : Nat}

/-- `component_index` of a COMPONENT_PTR. -/
def storedIndex (fw : Firmware) (cptrTlv : Nat) : Nat := be16At fw (cptrTlv + 6)

/-- The TLV has a component descriptor as its first child. -/
def Descriptor (fw : Firmware) (compTlv desc : Nat) : Prop :=
  MultiTaken fw compTlv ∧
    ∃ child, tlvMultiChild fw (compTlv + 4) = some child ∧ CdescTaken fw child ∧ desc = child + 4

/-! ## Devices -/

theorem header_of_device {tlv : Nat} (h : tlv ∈ (fileOf fw).devices fw) : Header fw tlv :=
  header_of_mem_walk header_of_firstDev h

variable {psid : List UInt8}

theorem devGetBody_returns {psidSize devTlv m : Nat} {s : Unit} (h : Header fw devTlv)
    (hrun : (devGetBody fuel fw psid psidSize (some devTlv) s).Runs (.inl (some m))) :
    m = devTlv + 4 := by
  unfold devGetBody at hrun
  by_cases hmulti : MultiTaken fw devTlv
  · have hget : (tlvMultiGet fw devTlv).Runs (some (devTlv + 4)) := runs_of_taken h hmulti
    rw [runs_bind_of hget, runs_bind] at hrun
    obtain ⟨child, -, hrun⟩ := hrun
    cases child with
    | none => simp at hrun
    | some tlv =>
      obtain ⟨len, -, hrun⟩ := runs_bind.mp hrun
      by_cases hlen : len ≠ psidSize
      · rw [if_pos hlen] at hrun
        simp at hrun
      · rw [if_neg hlen] at hrun
        obtain ⟨tlvPsid, -, hrun⟩ := runs_bind.mp hrun
        cases tlvPsid with
        | none => simp at hrun
        | some tlvPsid =>
          simp only at hrun
          split at hrun
          · simp at hrun
          · split at hrun
            · simpa [eq_comm] using hrun
            · simp at hrun
  · have hget : (tlvMultiGet fw devTlv).Runs none := runs_of_not_taken h hmulti
    rw [runs_bind_of hget] at hrun
    simp at hrun

theorem devGetBody_none (psid : List UInt8) (psidSize : Nat) (s : Unit) :
    ∃ b, devGetBody fuel fw psid psidSize none s = pure (.inl b) := ⟨none, rfl⟩

/-- A device that is found is one of those that were checked. -/
theorem tlvDevGet_runs_some {m : Nat} (h : (tlvDevGet fuel fw (fileOf fw) psid).Runs (some m)) :
    ∃ devTlv ∈ (fileOf fw).devices fw, m = devTlv + 4 := by
  obtain ⟨r, hr, hrest⟩ := runs_bind.mp h
  rcases r with devMulti | ⟨stop, u⟩
  · obtain rfl : devMulti = some m := by simpa using hrest
    rcases tlvForeach_returns (devGetBody_none psid _) header_of_firstDev hr with
      ⟨devTlv, hmem, s, hbody⟩ | ⟨s, hbody⟩
    · exact ⟨devTlv, hmem, devGetBody_returns (header_of_device hmem) hbody⟩
    · simp [devGetBody] at hbody
  · simp at hrest

theorem index_lt (componentIndex : Int) : (componentIndex % 2 ^ 16).toNat < 2 ^ 16 := by
  omega

/-- A COMPONENT_PTR that is found is a child of a device that was checked. -/
theorem Accepts.cptr_mem (h : Accepts fw) {componentIndex : Int} {cptr : Nat}
    (hrun : (fileComponentPtrFind fuel fw (fileOf fw) psid componentIndex).Runs (some cptr)) :
    ∃ devTlv ∈ (fileOf fw).devices fw, cptr ∈ childrenOf fw (devTlv + 4) .componentPtr := by
  obtain ⟨devMulti, hdev, hrest⟩ := runs_bind.mp hrun
  cases devMulti with
  | none => simp at hrest
  | some m =>
    obtain ⟨devTlv, hmem, rfl⟩ := tlvDevGet_runs_some hdev
    have hfound : (tlvMultiChildFind fuel fw (devTlv + 4) .componentPtr
        (componentIndex % 2 ^ 16).toNat).Runs _ :=
      (h.devices devTlv hmem).1.children.childFind .componentPtr (index_lt componentIndex)
    exact ⟨devTlv, hmem, List.mem_of_getElem? (Traced.Runs.unique hfound hrest)⟩

variable {i : Nat}

theorem Accepts.componentSteps (h : Accepts fw) (hi : i ≤ (fileOf fw).componentCount) :
    ∀ tlv ∈ walk fw i (fileOf fw).firstComponent, StepOk fw tlv := fun tlv hmem =>
  (h.components tlv (mem_walk_of_le hi hmem)).2

theorem Accepts.advance (h : Accepts fw) (hi : i ≤ (fileOf fw).componentCount) :
    (tlvAdvance fw (fileOf fw).firstComponent i).Runs
      (walkEnd fw i (fileOf fw).firstComponent) :=
  (tlvAdvance_runs header_of_firstComponent).mpr ⟨h.componentSteps hi, rfl⟩

theorem Accepts.componentTlvGet_runs (h : Accepts fw) {i desc : Nat} :
    (fileComponentTlvGet fw (fileOf fw) i).Runs (some desc) ↔ i ≤ (fileOf fw).componentCount ∧
      ∃ compTlv, walkEnd fw i (fileOf fw).firstComponent = some compTlv ∧
        Descriptor fw compTlv desc := by
  unfold fileComponentTlvGet
  by_cases hi : (fileOf fw).componentCount < i
  · rw [if_pos hi]
    exact iff_of_false (by simp) fun hr => Nat.not_le_of_lt hi hr.1
  have hle := Nat.le_of_not_lt hi
  rw [if_neg hi, and_iff_right hle, runs_bind_of (h.advance hle)]
  cases hend : walkEnd fw i (fileOf fw).firstComponent with
  | none => simp
  | some compTlv =>
    have hheader := header_of_walkEnd header_of_firstComponent hend
    simp only [Option.some.injEq, exists_eq_left']
    unfold Descriptor
    by_cases hmulti : MultiTaken fw compTlv
    · have hget : (tlvMultiGet fw compTlv).Runs (some (compTlv + 4)) :=
        runs_of_taken hheader hmulti
      rw [runs_bind_of hget, and_iff_right hmulti]
      cases hchild : tlvMultiChild fw (compTlv + 4) with
      | none => simp [hchild]
      | some child =>
        have hheader := header_of_tlvMultiChild child hchild
        simp only [hchild, Option.some.injEq, exists_eq_left']
        by_cases htaken : CdescTaken fw child
        · have hget : (tlvComponentDescriptorGet fw child).Runs (some (child + 4)) :=
            runs_of_taken hheader htaken
          constructor
          · exact fun hr => ⟨htaken, Option.some.inj (hr.unique hget)⟩
          · rintro ⟨-, rfl⟩
            exact hget
        · have hget : (tlvComponentDescriptorGet fw child).Runs none :=
            runs_of_not_taken hheader htaken
          exact iff_of_false (fun hr => by cases hr.unique hget) fun hr => htaken hr.1
    · have hget : (tlvMultiGet fw compTlv).Runs none := runs_of_not_taken hheader hmulti
      rw [runs_bind_of hget]
      exact iff_of_false (by simp) fun hr => hmulti hr.1

theorem CptrTaken.load {cptr : Nat} (h : CptrTaken fw cptr) :
    load16 fw (cptr + 4 + 2) = pure (storedIndex fw cptr) := by
  have hlen : tlvLen fw cptr = 8 := by simpa using h.2.2
  have htop := (validPtr_eq_true.mp h.1).2
  exact load16_of_lt (by omega)

theorem Accepts.componentFind_runs (h : Accepts fw) {componentIndex : Int} {desc : Nat} :
    (fileComponentFind fuel fw (fileOf fw) psid componentIndex).Runs (some desc) ↔
      ∃ cptr, (fileComponentPtrFind fuel fw (fileOf fw) psid componentIndex).Runs (some cptr) ∧
        storedIndex fw cptr ≤ (fileOf fw).componentCount ∧
        ∃ compTlv, walkEnd fw (storedIndex fw cptr) (fileOf fw).firstComponent = some compTlv ∧
          Descriptor fw compTlv desc := by
  unfold fileComponentFind
  have hcptr : ∀ cptr, (fileComponentPtrFind fuel fw (fileOf fw) psid componentIndex).Runs
      (some cptr) → CptrTaken fw cptr ∧ (tlvComponentPtrGet fw cptr).Runs (some (cptr + 4)) := by
    intro cptr hfound
    obtain ⟨devTlv, hmem, hchild⟩ := h.cptr_mem hfound
    have htaken := (h.devices devTlv hmem).1.cptr cptr hchild
    exact ⟨htaken, runs_of_taken (header_of_mem_childrenOf hchild) htaken⟩
  rw [runs_bind]
  constructor
  · rintro ⟨cptr, hfound, hrest⟩
    cases cptr with
    | none => simp at hrest
    | some cptr =>
      obtain ⟨htaken, hget⟩ := hcptr cptr hfound
      rw [runs_bind_of hget] at hrest
      simp only [htaken.load, pure_bind] at hrest
      exact ⟨cptr, hfound, h.componentTlvGet_runs.mp hrest⟩
  · rintro ⟨cptr, hfound, hrest⟩
    obtain ⟨htaken, hget⟩ := hcptr cptr hfound
    refine ⟨some cptr, hfound, ?_⟩
    rw [runs_bind_of hget]
    simp only [htaken.load, pure_bind]
    exact h.componentTlvGet_runs.mpr hrest

/-! ## The components that can be reached -/

/-- A descriptor that is returned is the first child of one of the `component_count` components
that `mlxfw_mfa2_file_validate` has checked. -/
def Confined (fuel : Nat) (fw : Firmware) (file : Mfa2File) (psid : List UInt8)
    (componentIndex : Int) : Prop :=
  ∀ desc, (fileComponentFind fuel fw file psid componentIndex).Runs (some desc) →
    ∃ i < file.componentCount, ∃ compTlv child,
      walkEnd fw i file.firstComponent = some compTlv ∧
        tlvMultiChild fw (compTlv + 4) = some child ∧ desc = child + 4

/-- The TLV behind the last component has no component descriptor, or is itself one of the
components (the step from the last one can have length 0), if it is looked up. -/
def IndexConfined (fuel : Nat) (fw : Firmware) (file : Mfa2File) (psid : List UInt8)
    (componentIndex : Int) : Prop :=
  ∀ cptr, (fileComponentPtrFind fuel fw file psid componentIndex).Runs (some cptr) →
    storedIndex fw cptr = file.componentCount →
    ∀ compTlv, walkEnd fw file.componentCount file.firstComponent = some compTlv →
      (∃ desc, Descriptor fw compTlv desc) → compTlv ∈ file.components fw

theorem tlvMultiChild_eq {m child : Nat} (h : tlvMultiChild fw m = some child) : child = m + 4 :=
  (tlvGet_eq_some.mp h).1.symm

/-- For an accepted file, exactly the index that is one too large leaves the components that were
checked. -/
theorem walk_confined_iff {file : Mfa2File} {initFuel : Nat}
    (hinit : (fileInit initFuel fw true).Runs (.ok file)) (fuel : Nat) (psid : List UInt8)
    (componentIndex : Int) :
    Confined fuel fw file psid componentIndex ↔ IndexConfined fuel fw file psid componentIndex := by
  obtain ⟨haccepts, rfl⟩ := fileInit_runs.mp hinit
  constructor
  · intro h cptr hfound hstored compTlv hend hdesc
    obtain ⟨desc, hdesc⟩ := hdesc
    have hfind := haccepts.componentFind_runs.mpr
      ⟨cptr, hfound, Nat.le_of_eq hstored, compTlv, hstored.symm ▸ hend, hdesc⟩
    obtain ⟨i, hi, compTlv', child', hend', hchild', hdesc'⟩ := h desc hfind
    obtain ⟨-, child, hchild, -, rfl⟩ := hdesc
    have hsame : compTlv' = compTlv := by
      have := tlvMultiChild_eq hchild
      have := tlvMultiChild_eq hchild'
      omega
    exact mem_walk_iff.mpr ⟨i, hi, hsame ▸ hend'⟩
  · intro h desc hfind
    obtain ⟨cptr, hfound, hle, compTlv, hend, hdesc⟩ := haccepts.componentFind_runs.mp hfind
    obtain ⟨-, child, hchild, -, hchildDesc⟩ := id hdesc
    by_cases hlt : storedIndex fw cptr < (fileOf fw).componentCount
    · exact ⟨storedIndex fw cptr, hlt, compTlv, child, hend, hchild, hchildDesc⟩
    · have hstored : storedIndex fw cptr = (fileOf fw).componentCount :=
        Nat.le_antisymm hle (Nat.le_of_not_lt hlt)
      rw [hstored] at hend
      obtain ⟨i, hi, hend'⟩ := mem_walk_iff.mp (h cptr hfound hstored compTlv hend ⟨desc, hdesc⟩)
      exact ⟨i, hi, compTlv, child, hend', hchild, hchildDesc⟩

/-- A file of one device, with a COMPONENT_PTR to component `index`, and one component, which is
followed by another one. -/
def exampleFile (index : UInt8) : Firmware :=
  let component : Firmware :=
    [0, 1, 0, 4, 0, 0, 0, 20] ++ ([0, 4, 0, 16] ++ List.replicate 16 0)
  mfa2Fingerprint ++
    ([0, 1, 0, 4, 0, 0, 0, 32] ++ ([0, 2, 0, 28] ++
      ([0, 1, 0, 1, 0, 0, 0, 140, 0, 0, 0, 4] ++ List.replicate 16 0))) ++
    ([0, 1, 0, 4, 0, 1, 0, 20] ++ ([0, 0x2A, 0, 4, 65, 66, 67, 68] ++
      [0, 0x22, 0, 8, 0, 0, 0, index, 0, 0, 0, 0])) ++
    component ++ component ++ List.replicate 8 0

def examplePsid : List UInt8 := [65, 66, 67, 68]

/-- What `mlxfw_mfa2_file_init` makes of it. -/
def exampleOpened : Mfa2File := ⟨some 56, 1, some 84, 1, 140, 4⟩

theorem exampleFile_walk_confined_iff :
    mfa2Check (exampleFile 0) ∧
      (Confined 0 (exampleFile 0) exampleOpened examplePsid 0 ↔
        IndexConfined 0 (exampleFile 0) exampleOpened examplePsid 0) := by
  have hinit : (fileInit 0 (exampleFile 0) true).Runs (.ok exampleOpened) := by decide +kernel
  exact ⟨by decide +kernel, walk_confined_iff hinit 0 examplePsid 0⟩

/-- With index 1 the lookup returns the descriptor of the TLV behind the only component. -/
theorem exampleFile_not_confined :
    mfa2Check (exampleFile 1) ∧ (fileInit 0 (exampleFile 1) true).Runs (.ok exampleOpened) ∧
      ¬Confined 0 (exampleFile 1) exampleOpened examplePsid 0 := by
  refine ⟨by decide +kernel, by decide +kernel, fun h => ?_⟩
  have hfind : (fileComponentFind 0 (exampleFile 1) exampleOpened examplePsid 0).Runs
      (some 124) := by decide +kernel
  obtain ⟨i, hi, compTlv, child, hend, hchild, hdesc⟩ := h 124 hfind
  obtain rfl : i = 0 := Nat.lt_one_iff.mp hi
  obtain rfl : compTlv = 84 := (Option.some.inj hend).symm
  have hchild := tlvMultiChild_eq hchild
  omega

end Mlxfw
