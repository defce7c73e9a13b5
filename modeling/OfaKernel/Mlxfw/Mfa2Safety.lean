-- SUMMARY: When the parser of MFA2 files stays inside the file.
import OfaKernel.Mlxfw.Mfa2Lookup

/-!
# Safety of the MFA2 parser

The getters test the last byte of a payload as if it began with the TLV header, and
`mlxfw_mfa2_tlv_next` does not look at the payload of a multi-part TLV, so a file is parsed
safely exactly if the TLVs met are well formed.
-/

namespace Mlxfw

open Traced

variable {fw : Firmware} {fuel : Nat}

/-- `mlxfw_mfa2_file_init`, `mlxfw_mfa2_file_component_count` and `mlxfw_mfa2_file_component_find`
do not dereference `NULL` or load a byte outside the file, and every TLV header and payload that
is returned lies inside it. -/
def ParsesInside (fw : Firmware) (psid : List UInt8) (componentIndex : Int) : Prop :=
  (∀ ptr tlv, tlvGet fw ptr = some tlv → tlv + 4 ≤ fw.length) ∧
    ∀ fuel alloc, Safe fw (fileInit fuel fw alloc) ∧
      ∀ file, (fileInit fuel fw alloc).Runs (.ok file) →
        Safe fw (fileComponentCount fuel fw file psid) ∧
        Safe fw (fileComponentFind fuel fw file psid componentIndex)

/-- The component descriptor at a TLV, if there is one, lies inside the file. -/
def DescriptorSafe (fw : Firmware) (compTlv : Nat) : Prop :=
  MultiTaken fw compTlv → PayloadIn fw compTlv ∧
    ∀ child, tlvMultiChild fw (compTlv + 4) = some child → CdescTaken fw child →
      PayloadIn fw child

/-- If the COMPONENT_PTR that is looked up stores the number of components, the descriptor behind
the last component lies inside the file. -/
def IndexSafe (fuel : Nat) (fw : Firmware) (psid : List UInt8) (componentIndex : Int) : Prop :=
  ∀ cptr, (fileComponentPtrFind fuel fw (fileOf fw) psid componentIndex).Runs (some cptr) →
    storedIndex fw cptr = (fileOf fw).componentCount →
    ∀ compTlv, walkEnd fw (fileOf fw).componentCount (fileOf fw).firstComponent = some compTlv →
      DescriptorSafe fw compTlv

/-! ## Files that passed -/

/-- A device that passed has its payloads inside the file. -/
structure DevIn (fw : Firmware) (devTlv : Nat) : Prop where
  ok : DevOk fw devTlv
  multi : PayloadIn fw devTlv
  psid : ∀ tlv, (childrenOf fw (devTlv + 4) .psid)[0]? = some tlv → PayloadIn fw tlv
  cptr : ∀ tlv ∈ childrenOf fw (devTlv + 4) .componentPtr, PayloadIn fw tlv

theorem DevOk.inside {devTlv : Nat} (h : DevOk fw devTlv) (hsafe : DevSafe fuel fw devTlv) :
    DevIn fw devTlv := by
  obtain ⟨hmulti, -, hpayloads⟩ := hsafe h.multi
  obtain ⟨t, ht, htaken⟩ := h.psid
  obtain ⟨hpsid, hcptrs⟩ := hpayloads h.children t ht htaken
  refine ⟨h, hmulti, fun tlv htlv => ?_, fun tlv hmem => ?_⟩
  · rw [ht] at htlv
    exact Option.some.inj htlv ▸ hpsid
  · exact hcptrs.of_all h.cptr tlv hmem (h.cptr tlv hmem)

theorem CompOk.descriptorSafe {compTlv : Nat} (h : CompOk fw compTlv)
    (hsafe : CompSafe fuel fw compTlv) : DescriptorSafe fw compTlv := fun hmulti =>
  ⟨(hsafe hmulti).1, (hsafe hmulti).2.2 h.children⟩

theorem Accepts.fileSafe (h : Accepts fw) (hinit : InitSafe fuel fw) : FileSafe fuel fw :=
  (((hinit h.first.1 h.first.2).2 h.package.1 h.package.2).2 h.firstDev).2 h.cb

theorem Accepts.devIn (h : Accepts fw) (hinit : InitSafe fuel fw) :
    ∀ tlv ∈ (fileOf fw).devices fw, DevIn fw tlv := fun tlv hmem =>
  (h.devices tlv hmem).1.inside
    ((h.fileSafe hinit).1.of_all (fun tlv hmem => (h.devices tlv hmem).1) tlv hmem).1

theorem Accepts.compSafe (h : Accepts fw) (hinit : InitSafe fuel fw) :
    ∀ tlv ∈ (fileOf fw).components fw, DescriptorSafe fw tlv := fun tlv hmem =>
  (h.components tlv hmem).1.descriptorSafe
    (((h.fileSafe hinit).2 h.devCount h.devices).of_all
      (fun tlv hmem => (h.components tlv hmem).1) tlv hmem).1

/-! ## Lookups -/

/-- A device is compared with a PSID inside its payload. -/
theorem DevIn.devGetBody_safe {devTlv : Nat} (h : DevIn fw devTlv) (hheader : Header fw devTlv)
    (psid : List UInt8) (psidSize : Nat) (s : Unit) :
    Safe fw (devGetBody fuel fw psid psidSize (some devTlv) s) := by
  have hget : (tlvMultiGet fw devTlv).Runs (some (devTlv + 4)) :=
    runs_of_taken hheader h.ok.multi
  have hgetSafe : Safe fw (tlvMultiGet fw devTlv) :=
    (tlvPayloadGet_safe hheader).mpr fun _ => h.multi
  obtain ⟨t, ht, htaken⟩ := h.ok.psid
  have hfind : (tlvMultiChildFind fuel fw (devTlv + 4) .psid 0).Runs _ :=
    h.ok.children.childFind .psid (by decide)
  rw [ht] at hfind
  have htHeader := header_of_mem_childrenOf (List.mem_of_getElem? ht)
  have hpsidGet : (tlvPsidGet fw t).Runs (some (t + 4)) := runs_of_taken htHeader htaken
  have hpsidSafe : Safe fw (tlvPsidGet fw t) :=
    (tlvPayloadGet_safe htHeader).mpr fun _ => h.psid t ht
  have hlen : load16 fw (t + 2) = pure (tlvLen fw t) := load16_of_lt (by have := htHeader.2; omega)
  refine (safe_bind_of hget).mpr ⟨hgetSafe, (safe_bind_of hfind).mpr
    ⟨h.ok.children.childFind_safe _ _, ?_⟩⟩
  simp only [hlen, pure_bind]
  by_cases hsize : tlvLen fw t ≠ psidSize
  · rw [if_pos hsize]
    exact safe_pure
  · rw [if_neg hsize]
    refine (safe_bind_of hpsidGet).mpr ⟨hpsidSafe, ?_⟩
    have hin : ¬fw.length < t + 4 + psidSize := by
      have hin := h.psid t ht
      rw [PayloadIn, Decidable.not_not.mp hsize] at hin
      exact Nat.not_lt_of_le hin
    simp only [hin, if_false]
    split
    all_goals exact safe_pure

theorem Accepts.tlvDevGet_safe (h : Accepts fw) (hinit : InitSafe fuel fw) (psid : List UInt8) :
    Safe fw (tlvDevGet fuel fw (fileOf fw) psid) := by
  refine safe_bind.mpr ⟨(tlvForeach_safe (devGetBody_none psid _) header_of_firstDev ()).mpr ?_, ?_⟩
  · exact loopSafe_of_steps (fun tlv hmem => (h.devIn hinit tlv hmem).devGetBody_safe
      (header_of_device hmem) psid _) (fun tlv hmem => (h.devices tlv hmem).2) ()
  · rintro (_ | _) -
    all_goals exact safe_pure

theorem Accepts.componentCount_safe (h : Accepts fw) (hinit : InitSafe fuel fw)
    (psid : List UInt8) : Safe fw (fileComponentCount fuel fw (fileOf fw) psid) := by
  refine safe_bind.mpr ⟨h.tlvDevGet_safe hinit psid, ?_⟩
  rintro (_ | devMulti) hdev
  · exact safe_pure
  · obtain ⟨devTlv, hmem, rfl⟩ := tlvDevGet_runs_some hdev
    exact (h.devices devTlv hmem).1.children.childCount_safe _

theorem Accepts.componentPtrFind_safe (h : Accepts fw) (hinit : InitSafe fuel fw)
    (psid : List UInt8) (componentIndex : Int) :
    Safe fw (fileComponentPtrFind fuel fw (fileOf fw) psid componentIndex) := by
  refine safe_bind.mpr ⟨h.tlvDevGet_safe hinit psid, ?_⟩
  rintro (_ | devMulti) hdev
  · exact safe_pure
  · obtain ⟨devTlv, hmem, rfl⟩ := tlvDevGet_runs_some hdev
    exact (h.devices devTlv hmem).1.children.childFind_safe _ _

theorem Accepts.componentTlvGet_safe (h : Accepts fw) {i : Nat} :
    Safe fw (fileComponentTlvGet fw (fileOf fw) i) ↔ (i ≤ (fileOf fw).componentCount →
      ∀ compTlv, walkEnd fw i (fileOf fw).firstComponent = some compTlv →
        DescriptorSafe fw compTlv) := by
  unfold fileComponentTlvGet
  by_cases hi : (fileOf fw).componentCount < i
  · rw [if_pos hi]
    exact iff_of_true safe_pure fun hle => absurd hi (Nat.not_lt_of_le hle)
  have hle := Nat.le_of_not_lt hi
  rw [if_neg hi, imp_iff_right hle, Safe, safe_bind_of (h.advance hle)]
  refine (and_iff_right ((tlvAdvance_safe header_of_firstComponent).mpr
    (h.componentSteps hle))).trans ?_
  cases hend : walkEnd fw i (fileOf fw).firstComponent with
  | none => exact iff_of_true safe_pure fun _ ht => by cases ht
  | some compTlv =>
    have hheader := header_of_walkEnd header_of_firstComponent hend
    have hmultiSafe : Safe fw (tlvMultiGet fw compTlv) ↔
        (MultiTaken fw compTlv → PayloadIn fw compTlv) := tlvPayloadGet_safe hheader
    simp only [Option.some.injEq, forall_eq']
    unfold DescriptorSafe
    by_cases hmulti : MultiTaken fw compTlv
    · have hget : (tlvMultiGet fw compTlv).Runs (some (compTlv + 4)) :=
        runs_of_taken hheader hmulti
      rw [safe_bind_of hget, ← Safe, hmultiSafe, imp_iff_right hmulti, imp_iff_right hmulti]
      refine and_congr_right fun _ => ?_
      cases hchild : tlvMultiChild fw (compTlv + 4) with
      | none =>
        simp only [hchild]
        exact iff_of_true safe_pure fun _ ht => by cases ht
      | some child =>
        simp only [hchild, Option.some.injEq, forall_eq']
        exact tlvPayloadGet_safe (header_of_tlvMultiChild child hchild)
    · have hget : (tlvMultiGet fw compTlv).Runs none := runs_of_not_taken hheader hmulti
      rw [safe_bind_of hget]
      exact iff_of_true ⟨hmultiSafe.mpr fun hm => absurd hm hmulti, safe_pure⟩
        fun hm => absurd hm hmulti

/-- `mlxfw_mfa2_file_component_find` with the component pointer found. -/
def componentFindAt (fw : Firmware) (cptrTlv : Nat) : Parse (Option Nat) := do
  match ← tlvComponentPtrGet fw cptrTlv with
  | none => pure none
  | some cptr => do
    let compIdx ← load16 fw (cptr + 2)
    fileComponentTlvGet fw (fileOf fw) compIdx

theorem Accepts.componentFind_safe (h : Accepts fw) (hinit : InitSafe fuel fw)
    (psid : List UInt8) (componentIndex : Int) :
    Safe fw (fileComponentFind fuel fw (fileOf fw) psid componentIndex) ↔
      IndexSafe fuel fw psid componentIndex := by
  have hindex : ∀ cptr, (fileComponentPtrFind fuel fw (fileOf fw) psid componentIndex).Runs
      (some cptr) → (Safe fw (componentFindAt fw cptr) ↔
        (storedIndex fw cptr = (fileOf fw).componentCount →
          ∀ compTlv, walkEnd fw (fileOf fw).componentCount (fileOf fw).firstComponent =
            some compTlv → DescriptorSafe fw compTlv)) := by
    intro cptr hfound
    obtain ⟨devTlv, hmem, hchild⟩ := h.cptr_mem hfound
    have hdev := h.devIn hinit devTlv hmem
    have htaken := hdev.ok.cptr cptr hchild
    have hheader := header_of_mem_childrenOf hchild
    have hget : (tlvComponentPtrGet fw cptr).Runs (some (cptr + 4)) := runs_of_taken hheader htaken
    have hgetSafe : Safe fw (tlvComponentPtrGet fw cptr) :=
      (tlvPayloadGet_safe hheader).mpr fun _ => hdev.cptr cptr hchild
    unfold componentFindAt
    rw [Safe, safe_bind_of hget]
    refine (and_iff_right hgetSafe).trans ?_
    simp only [htaken.load, pure_bind]
    refine h.componentTlvGet_safe.trans ?_
    constructor
    · rintro hall hstored
      rw [hstored] at hall
      exact hall (Nat.le_refl _)
    · intro hlast hle compTlv hend
      by_cases hstored : storedIndex fw cptr = (fileOf fw).componentCount
      · exact hlast hstored compTlv (hstored ▸ hend)
      · have hlt := Nat.lt_of_le_of_ne hle hstored
        exact h.compSafe hinit compTlv (mem_walk_iff.mpr ⟨_, hlt, hend⟩)
  unfold fileComponentFind IndexSafe
  rw [Safe, safe_bind]
  refine (and_iff_right (h.componentPtrFind_safe hinit psid componentIndex)).trans ?_
  constructor
  · exact fun hall cptr hfound => (hindex cptr hfound).mp (hall _ hfound)
  · rintro hall (_ | cptr) hfound
    · exact safe_pure
    · exact (hindex cptr hfound).mpr (hall cptr hfound)

/-- The TLVs that the parser meets are well formed: each that it takes a step from, and each
whose payload it takes. -/
def WellFormed (fw : Firmware) (psid : List UInt8) (componentIndex : Int) : Prop :=
  ∀ fuel, InitSafe fuel fw ∧ (Accepts fw → IndexSafe fuel fw psid componentIndex)

/-- A file is parsed inside its bounds exactly if the TLVs that the parser meets are well
formed. -/
theorem parsesInside_iff (fw : Firmware) (psid : List UInt8) (componentIndex : Int) :
    ParsesInside fw psid componentIndex ↔ WellFormed fw psid componentIndex := by
  constructor
  · rintro ⟨-, h⟩ fuel
    obtain ⟨hinit, hlookup⟩ := h fuel true
    have hsafe := fileInit_safe.mp hinit
    refine ⟨hsafe, fun haccepts => ?_⟩
    have hfind := (hlookup _ (fileInit_runs.mpr ⟨haccepts, rfl⟩)).2
    exact (haccepts.componentFind_safe hsafe psid componentIndex).mp hfind
  · intro h
    refine ⟨fun ptr tlv hget => Nat.le_of_lt (header_of_tlvGet hget).2, fun fuel alloc => ?_⟩
    obtain ⟨hsafe, hindex⟩ := h fuel
    cases alloc with
    | false =>
      exact ⟨safe_pure, fun file hfile => by cases hfile⟩
    | true =>
      refine ⟨fileInit_safe.mpr hsafe, fun file hfile => ?_⟩
      obtain ⟨haccepts, rfl⟩ := fileInit_runs.mp hfile
      exact ⟨haccepts.componentCount_safe hsafe psid,
        (haccepts.componentFind_safe hsafe psid componentIndex).mpr (hindex haccepts)⟩

/-- A file whose first device is a multi-part TLV without a payload. -/
def emptyMultiFile : Firmware :=
  mfa2Fingerprint ++
    ([0, 1, 0, 4, 0, 0, 0, 32] ++ ([0, 2, 0, 28] ++
      ([0, 0, 0, 1, 0, 0, 0, 60, 0, 0, 0, 1] ++ List.replicate 16 0))) ++
    [0, 1, 0, 0] ++ List.replicate 4 0

/-- The step from it dereferences `NULL`. -/
theorem emptyMultiFile_null : mfa2Check emptyMultiFile ∧ ¬ParsesInside emptyMultiFile [] 0 := by
  refine ⟨by decide +kernel, fun h => ?_⟩
  have hnull : (fileInit 0 emptyMultiFile true).out = .error .null := by decide +kernel
  exact absurd ((h.2 0 true).1.2 .null hnull) (by decide)

end Mlxfw
