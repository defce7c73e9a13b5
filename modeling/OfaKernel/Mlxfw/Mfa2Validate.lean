-- SUMMARY: Which MFA2 files are accepted, and when that is safe.
import OfaKernel.Mlxfw.Mfa2Layout

/-!
# Validation of MFA2 files

For each function: what a file is like that it accepts (`DevOk`, `CompOk`, `Accepts`), and when
it is safe (`DevSafe`, `CompSafe`, `InitSafe`).
-/

open List

namespace Mlxfw

open Traced

variable {fw : Firmware} {fuel : Nat}

/-- The elements up to the first that is not `ok` are `safe`. -/
def Until (ok safe : Nat → Prop) : List Nat → Prop
  | [] => True
  | tlv :: tlvs => safe tlv ∧ (ok tlv → Until ok safe tlvs)

theorem Until.of_all {ok safe : Nat → Prop} {tlvs : List Nat} (h : Until ok safe tlvs)
    (hok : ∀ tlv ∈ tlvs, ok tlv) : ∀ tlv ∈ tlvs, safe tlv := by
  induction tlvs with
  | nil => intro _ hmem; cases hmem
  | cons tlv tlvs ih =>
    intro t hmem
    rcases mem_cons.mp hmem with rfl | hmem
    · exact h.1
    · exact ih (h.2 (hok tlv mem_cons_self))
        (fun t ht => hok t (mem_cons_of_mem _ ht)) t hmem

theorem until_congr {ok ok' safe safe' : Nat → Prop} {tlvs : List Nat}
    (hok : ∀ tlv ∈ tlvs, (ok tlv ↔ ok' tlv)) (hsafe : ∀ tlv ∈ tlvs, (safe tlv ↔ safe' tlv)) :
    Until ok safe tlvs ↔ Until ok' safe' tlvs := by
  induction tlvs with
  | nil => rfl
  | cons tlv tlvs ih =>
    have htail := ih (fun t ht => hok t (mem_cons_of_mem _ ht))
      fun t ht => hsafe t (mem_cons_of_mem _ ht)
    simp only [Until, hok tlv mem_cons_self, hsafe tlv mem_cons_self, htail]

/-! ## COMPONENT_PTRs -/

section

variable {multi : Nat}

theorem header_of_mem_childrenOf {type : TlvType} {tlv : Nat}
    (h : tlv ∈ childrenOf fw multi type) : Header fw tlv :=
  header_of_mem_children (mem_filter.mp h).1

theorem ChildrenOk.childrenOf_length (h : ChildrenOk fw multi) (type : TlvType) :
    (childrenOf fw multi type).length < 2 ^ 16 := by
  refine Nat.lt_of_le_of_lt (length_filter_le _ _) ?_
  rw [h.all]
  exact h.ends

/-- The next COMPONENT_PTR that the loop finds. -/
theorem ChildrenOk.cptr_step (h : ChildrenOk fw multi) {left i : Nat}
    (hleft : i + (left + 1) = (childrenOf fw multi .componentPtr).length) :
    ∃ t, (childrenOf fw multi .componentPtr).drop i =
        t :: (childrenOf fw multi .componentPtr).drop (i + 1) ∧
      (tlvMultiChildFind fuel fw multi .componentPtr i).Runs (some t) ∧ Header fw t := by
  have hi : i < (childrenOf fw multi .componentPtr).length := by omega
  have hlt := h.childrenOf_length .componentPtr
  refine ⟨_, drop_eq_getElem_cons hi, ?_, header_of_mem_childrenOf (List.getElem_mem hi)⟩
  rw [← List.getElem?_eq_getElem hi]
  exact h.childFind .componentPtr (by omega)

theorem cptrsValidate_runs (h : ChildrenOk fw multi) {left i : Nat}
    (hleft : i + left = (childrenOf fw multi .componentPtr).length) :
    (cptrsValidate fuel fw multi left i).Runs true ↔
      ∀ tlv ∈ (childrenOf fw multi .componentPtr).drop i, CptrTaken fw tlv := by
  induction left generalizing i with
  | zero =>
    rw [drop_eq_nil_of_le (by omega)]
    exact iff_of_true (runs_pure.mpr rfl) fun _ hmem => by cases hmem
  | succ left ih =>
    obtain ⟨t, hdrop, hfind, hheader⟩ := h.cptr_step hleft
    rw [cptrsValidate, runs_bind_of hfind, hdrop]
    by_cases htaken : CptrTaken fw t
    · have hget : (tlvComponentPtrGet fw t).Runs (some (t + 4)) := runs_of_taken hheader htaken
      rw [runs_bind_of hget, forall_mem_cons]
      exact (ih (by omega)).trans (and_iff_right htaken).symm
    · have hget : (tlvComponentPtrGet fw t).Runs none := runs_of_not_taken hheader htaken
      rw [runs_bind_of hget, forall_mem_cons]
      exact iff_of_false (by simp) fun hall => htaken hall.1

/-- The payload of the COMPONENT_PTR, if it is taken, ends inside the file. -/
def CptrSafe (fw : Firmware) (tlv : Nat) : Prop := CptrTaken fw tlv → PayloadIn fw tlv

theorem cptrsValidate_safe (h : ChildrenOk fw multi) {left i : Nat}
    (hleft : i + left = (childrenOf fw multi .componentPtr).length) :
    Safe fw (cptrsValidate fuel fw multi left i) ↔
      Until (CptrTaken fw) (CptrSafe fw) ((childrenOf fw multi .componentPtr).drop i) := by
  induction left generalizing i with
  | zero =>
    rw [drop_eq_nil_of_le (by omega)]
    exact iff_of_true safe_pure trivial
  | succ left ih =>
    obtain ⟨t, hdrop, hfind, hheader⟩ := h.cptr_step hleft
    have hsafe : Safe fw (tlvComponentPtrGet fw t) ↔ CptrSafe fw t := tlvPayloadGet_safe hheader
    rw [cptrsValidate, Safe, safe_bind_of hfind, hdrop]
    refine (and_iff_right (h.childFind_safe _ _)).trans ?_
    by_cases htaken : CptrTaken fw t
    · have hget : (tlvComponentPtrGet fw t).Runs (some (t + 4)) := runs_of_taken hheader htaken
      rw [safe_bind_of hget]
      exact and_congr hsafe ((ih (by omega)).trans (imp_iff_right htaken).symm)
    · have hget : (tlvComponentPtrGet fw t).Runs none := runs_of_not_taken hheader htaken
      rw [safe_bind_of hget]
      exact and_congr hsafe (iff_of_true safe_pure fun htaken' => absurd htaken' htaken)

end

/-! ## Devices -/

/-- What a device that passes `mlxfw_mfa2_file_dev_validate` is like. -/
structure DevOk (fw : Firmware) (devTlv : Nat) : Prop where
  multi : MultiTaken fw devTlv
  children : ChildrenOk fw (devTlv + 4)
  psid : ∃ tlv, (childrenOf fw (devTlv + 4) .psid)[0]? = some tlv ∧ PsidTaken fw tlv
  cptrs : childrenOf fw (devTlv + 4) .componentPtr ≠ []
  cptr : ∀ tlv ∈ childrenOf fw (devTlv + 4) .componentPtr, CptrTaken fw tlv

/-- The checks of a device stay inside the file. -/
def DevSafe (fuel : Nat) (fw : Firmware) (devTlv : Nat) : Prop :=
  MultiTaken fw devTlv → PayloadIn fw devTlv ∧ ChildrenSafe fw (devTlv + 4) fuel ∧
    (ChildrenOk fw (devTlv + 4) → ∀ tlv, (childrenOf fw (devTlv + 4) .psid)[0]? = some tlv →
      PsidTaken fw tlv → PayloadIn fw tlv ∧
        Until (CptrTaken fw) (CptrSafe fw) (childrenOf fw (devTlv + 4) .componentPtr))

section

variable {tlv : Nat}

/-- Both validations get a multi TLV and check its children before anything else. -/
theorem multi_runs {rest : Nat → Parse Bool} (h : Header fw tlv) :
    (do
      match ← tlvMultiGet fw tlv with
      | none => pure false
      | some multi =>
        match ← tlvMultiValidate fuel fw multi with
        | false => pure false
        | true => rest multi : Parse Bool).Runs true ↔
      MultiTaken fw tlv ∧ ChildrenOk fw (tlv + 4) ∧ (rest (tlv + 4)).Runs true := by
  by_cases hmulti : MultiTaken fw tlv
  · have hget : (tlvMultiGet fw tlv).Runs (some (tlv + 4)) := runs_of_taken h hmulti
    rw [runs_bind_of hget, and_iff_right hmulti]
    by_cases hchildren : ChildrenOk fw (tlv + 4)
    · rw [runs_bind_of (tlvMultiValidate_runs.mpr hchildren), and_iff_right hchildren]
    · refine iff_of_false (fun hrun => ?_) fun hok => hchildren hok.1
      obtain ⟨valid, hvalid, hrest⟩ := runs_bind.mp hrun
      cases valid with
      | false => simp at hrest
      | true => exact hchildren (tlvMultiValidate_runs.mp hvalid)
  · have hget : (tlvMultiGet fw tlv).Runs none := runs_of_not_taken h hmulti
    rw [runs_bind_of hget]
    exact iff_of_false (by simp) fun hok => hmulti hok.1

theorem multi_safe {rest : Nat → Parse Bool} (h : Header fw tlv) :
    Safe fw (do
      match ← tlvMultiGet fw tlv with
      | none => pure false
      | some multi =>
        match ← tlvMultiValidate fuel fw multi with
        | false => pure false
        | true => rest multi) ↔
      (MultiTaken fw tlv → PayloadIn fw tlv ∧ ChildrenSafe fw (tlv + 4) fuel ∧
        (ChildrenOk fw (tlv + 4) → Safe fw (rest (tlv + 4)))) := by
  have hmultiSafe : Safe fw (tlvMultiGet fw tlv) ↔ (MultiTaken fw tlv → PayloadIn fw tlv) :=
    tlvPayloadGet_safe h
  by_cases hmulti : MultiTaken fw tlv
  · have hget : (tlvMultiGet fw tlv).Runs (some (tlv + 4)) := runs_of_taken h hmulti
    rw [Safe, safe_bind_of hget, ← Safe, hmultiSafe, imp_iff_right hmulti, imp_iff_right hmulti]
    refine and_congr_right fun _ => ?_
    by_cases hchildren : ChildrenOk fw (tlv + 4)
    · rw [safe_bind_of (tlvMultiValidate_runs.mpr hchildren), ← Safe, tlvMultiValidate_safe,
        imp_iff_right hchildren]
      rfl
    · rw [safe_bind, ← Safe, tlvMultiValidate_safe]
      refine and_congr_right fun _ => iff_of_true ?_ fun hok => absurd hok hchildren
      rintro (_ | _) hvalid
      · exact safe_pure
      · exact absurd (tlvMultiValidate_runs.mp hvalid) hchildren
  · have hget : (tlvMultiGet fw tlv).Runs none := runs_of_not_taken h hmulti
    rw [Safe, safe_bind_of hget]
    exact iff_of_true ⟨hmultiSafe.mpr fun hm => absurd hm hmulti, safe_pure⟩
      fun hm => absurd hm hmulti

theorem fileDevValidate_runs (h : Header fw tlv) :
    (fileDevValidate fuel fw tlv).Runs true ↔ DevOk fw tlv := by
  refine (multi_runs h).trans ?_
  by_cases hboth : MultiTaken fw tlv ∧ ChildrenOk fw (tlv + 4)
  · obtain ⟨hmulti, hchildren⟩ := hboth
    rw [and_iff_right hmulti, and_iff_right hchildren,
      runs_bind_of (hchildren.childFind .psid (by decide))]
    cases hpsid : (childrenOf fw (tlv + 4) .psid)[0]? with
    | none =>
      refine iff_of_false (by simp) fun hdev => ?_
      obtain ⟨t, ht, -⟩ := hdev.psid
      rw [hpsid] at ht
      cases ht
    | some t =>
      have hheader := header_of_mem_childrenOf (mem_of_getElem? hpsid)
      by_cases htaken : PsidTaken fw t
      · have hget : (tlvPsidGet fw t).Runs (some (t + 4)) := runs_of_taken hheader htaken
        simp only [runs_bind_of hget, runs_bind_of (hchildren.childCount .componentPtr)]
        by_cases hempty : (childrenOf fw (tlv + 4) .componentPtr).length = 0
        · rw [if_pos hempty]
          exact iff_of_false (by simp) fun hdev => hdev.cptrs (length_eq_zero_iff.mp hempty)
        · rw [if_neg hempty, cptrsValidate_runs hchildren (Nat.zero_add _), drop_zero]
          exact ⟨fun hall => ⟨hmulti, hchildren, ⟨t, hpsid, htaken⟩,
            mt length_eq_zero_iff.mpr hempty, hall⟩, fun hdev => hdev.cptr⟩
      · have hget : (tlvPsidGet fw t).Runs none := runs_of_not_taken hheader htaken
        simp only [runs_bind_of hget]
        refine iff_of_false (by simp) fun hdev => ?_
        obtain ⟨t', ht', htaken'⟩ := hdev.psid
        rw [hpsid] at ht'
        exact htaken (Option.some.inj ht' ▸ htaken')
  · exact iff_of_false (fun hall => hboth ⟨hall.1, hall.2.1⟩) fun hdev =>
      hboth ⟨hdev.multi, hdev.children⟩

theorem fileDevValidate_safe (h : Header fw tlv) :
    Safe fw (fileDevValidate fuel fw tlv) ↔ DevSafe fuel fw tlv := by
  refine (multi_safe h).trans (imp_congr_right fun _ => and_congr_right fun _ =>
    and_congr_right fun _ => imp_congr_right fun hchildren => ?_)
  rw [Safe, safe_bind_of (hchildren.childFind .psid (by decide))]
  refine (and_iff_right (hchildren.childFind_safe _ _)).trans ?_
  cases hpsid : (childrenOf fw (tlv + 4) .psid)[0]? with
  | none => exact iff_of_true safe_pure fun _ ht => by cases ht
  | some t =>
    have hheader := header_of_mem_childrenOf (mem_of_getElem? hpsid)
    have hpsidSafe : Safe fw (tlvPsidGet fw t) ↔ (PsidTaken fw t → PayloadIn fw t) :=
      tlvPayloadGet_safe hheader
    simp only [Option.some.injEq, forall_eq']
    by_cases htaken : PsidTaken fw t
    · have hget : (tlvPsidGet fw t).Runs (some (t + 4)) := runs_of_taken hheader htaken
      simp only [safe_bind_of hget, safe_bind_of (hchildren.childCount .componentPtr)]
      rw [imp_iff_right htaken, ← Safe, hpsidSafe, imp_iff_right htaken]
      refine and_congr_right fun _ =>
        (and_iff_right (hchildren.childCount_safe .componentPtr)).trans ?_
      by_cases hempty : (childrenOf fw (tlv + 4) .componentPtr).length = 0
      · rw [if_pos hempty, length_eq_zero_iff.mp hempty]
        exact iff_of_true safe_pure trivial
      · rw [if_neg hempty]
        exact cptrsValidate_safe hchildren (Nat.zero_add _)
    · have hget : (tlvPsidGet fw t).Runs none := runs_of_not_taken hheader htaken
      simp only [safe_bind_of hget]
      exact iff_of_true ⟨hpsidSafe.mpr fun ht => absurd ht htaken, safe_pure⟩
        fun ht => absurd ht htaken

/-- What a component that passes `mlxfw_mfa2_file_comp_validate` is like. -/
structure CompOk (fw : Firmware) (compTlv : Nat) : Prop where
  multi : MultiTaken fw compTlv
  children : ChildrenOk fw (compTlv + 4)
  cdesc : ∃ tlv, tlvMultiChild fw (compTlv + 4) = some tlv ∧ CdescTaken fw tlv

/-- The checks of a component stay inside the file. -/
def CompSafe (fuel : Nat) (fw : Firmware) (compTlv : Nat) : Prop :=
  MultiTaken fw compTlv → PayloadIn fw compTlv ∧ ChildrenSafe fw (compTlv + 4) fuel ∧
    (ChildrenOk fw (compTlv + 4) → ∀ tlv, tlvMultiChild fw (compTlv + 4) = some tlv →
      CdescTaken fw tlv → PayloadIn fw tlv)

theorem fileCompValidate_runs (h : Header fw tlv) :
    (fileCompValidate fuel fw tlv).Runs true ↔ CompOk fw tlv := by
  refine (multi_runs h).trans ?_
  by_cases hboth : MultiTaken fw tlv ∧ ChildrenOk fw (tlv + 4)
  · obtain ⟨hmulti, hchildren⟩ := hboth
    rw [and_iff_right hmulti, and_iff_right hchildren]
    cases hchild : tlvMultiChild fw (tlv + 4) with
    | none =>
      refine iff_of_false (by simp) fun hcomp => ?_
      obtain ⟨t, ht, -⟩ := hcomp.cdesc
      rw [hchild] at ht
      cases ht
    | some t =>
      have hheader := header_of_tlvMultiChild t hchild
      by_cases htaken : CdescTaken fw t
      · have hget : (tlvComponentDescriptorGet fw t).Runs (some (t + 4)) :=
          runs_of_taken hheader htaken
        simp only [runs_bind_of hget]
        exact iff_of_true (runs_pure.mpr rfl) ⟨hmulti, hchildren, t, hchild, htaken⟩
      · have hget : (tlvComponentDescriptorGet fw t).Runs none :=
          runs_of_not_taken hheader htaken
        simp only [runs_bind_of hget]
        refine iff_of_false (by simp) fun hcomp => ?_
        obtain ⟨t', ht', htaken'⟩ := hcomp.cdesc
        rw [hchild] at ht'
        exact htaken (Option.some.inj ht' ▸ htaken')
  · exact iff_of_false (fun hall => hboth ⟨hall.1, hall.2.1⟩) fun hcomp =>
      hboth ⟨hcomp.multi, hcomp.children⟩

theorem fileCompValidate_safe (h : Header fw tlv) :
    Safe fw (fileCompValidate fuel fw tlv) ↔ CompSafe fuel fw tlv := by
  refine (multi_safe h).trans (imp_congr_right fun _ => and_congr_right fun _ =>
    and_congr_right fun _ => imp_congr_right fun hchildren => ?_)
  cases hchild : tlvMultiChild fw (tlv + 4) with
  | none => exact iff_of_true safe_pure fun _ ht => by cases ht
  | some t =>
    have hheader := header_of_tlvMultiChild t hchild
    have hcdescSafe : Safe fw (tlvComponentDescriptorGet fw t) ↔
        (CdescTaken fw t → PayloadIn fw t) := tlvPayloadGet_safe hheader
    simp only [Option.some.injEq, forall_eq']
    rw [Safe, safe_bind, ← Safe, hcdescSafe, and_iff_left]
    rintro (_ | _) -
    all_goals exact safe_pure

end

/-! ## Files -/

section

variable {validate : Nat → Parse Bool} {count : Nat} {start : Option Nat}

theorem validateBody_none (s : Unit) : ∃ b, validateBody validate none s = pure (.inl b) :=
  ⟨(), rfl⟩

theorem validateBody_goes {tlv : Nat} {s t : Unit} :
    (validateBody validate (some tlv) s).Runs (.inr t) ↔ (validate tlv).Runs true := by
  unfold validateBody
  rw [runs_bind]
  constructor
  · rintro ⟨valid, hvalid, hrest⟩
    cases valid with
    | false => simp at hrest
    | true => exact hvalid
  · exact fun hvalid => ⟨true, hvalid, runs_pure.mpr rfl⟩

theorem loopGoes_validate {tlvs : List Nat} {s t : Unit} :
    LoopGoes fw (validateBody validate) tlvs s t ↔
      ∀ tlv ∈ tlvs, (validate tlv).Runs true ∧ StepOk fw tlv := by
  induction tlvs with
  | nil => exact iff_of_true rfl fun _ h => by cases h
  | cons tlv tlvs ih =>
    simp only [LoopGoes, validateBody_goes, forall_mem_cons, ih]
    constructor
    · rintro ⟨_, hvalid, hstep, hrest⟩
      exact ⟨⟨hvalid, hstep⟩, hrest⟩
    · rintro ⟨⟨hvalid, hstep⟩, hrest⟩
      exact ⟨(), hvalid, hstep, hrest⟩

theorem loopSafe_validate {tlvs : List Nat} {s : Unit} :
    LoopSafe fw (validateBody validate) tlvs s ↔ Until (fun tlv => (validate tlv).Runs true)
      (fun tlv => Safe fw (validate tlv) ∧ ((validate tlv).Runs true → StepOk fw tlv)) tlvs := by
  induction tlvs with
  | nil => rfl
  | cons tlv tlvs ih =>
    have hbody : Safe fw (validateBody validate (some tlv) s) ↔ Safe fw (validate tlv) := by
      unfold validateBody
      rw [Safe, safe_bind, ← Safe, and_iff_left]
      rintro (_ | _) -
      all_goals exact safe_pure
    simp only [LoopSafe, Until, hbody, validateBody_goes, ih, forall_const]
    exact ⟨fun h => ⟨⟨h.1, fun hv => (h.2 hv).1⟩, fun hv => (h.2 hv).2⟩,
      fun h => ⟨h.1.1, fun hv => ⟨h.1.2 hv, h.2 hv⟩⟩⟩

theorem tlvsValidate_runs (hstart : ∀ tlv, start = some tlv → Header fw tlv) :
    (tlvsValidate fw validate start count).Runs true ↔ (walk fw count start).length = count ∧
      ∀ tlv ∈ walk fw count start, (validate tlv).Runs true ∧ StepOk fw tlv := by
  unfold tlvsValidate
  rw [runs_bind]
  constructor
  · rintro ⟨r | ⟨stop, t⟩, hr, hrest⟩
    · simp at hrest
    · obtain ⟨hlen, -, hgoes⟩ := (tlvForeach_goes validateBody_none hstart).mp hr
      exact ⟨hlen, loopGoes_validate.mp hgoes⟩
  · rintro ⟨hlen, hall⟩
    exact ⟨_, (tlvForeach_goes validateBody_none hstart).mpr
      ⟨hlen, rfl, (loopGoes_validate (t := ())).mpr hall⟩, runs_pure.mpr rfl⟩

theorem tlvsValidate_safe (hstart : ∀ tlv, start = some tlv → Header fw tlv) :
    Safe fw (tlvsValidate fw validate start count) ↔ Until (fun tlv => (validate tlv).Runs true)
      (fun tlv => Safe fw (validate tlv) ∧ ((validate tlv).Runs true → StepOk fw tlv))
      (walk fw count start) := by
  unfold tlvsValidate
  rw [Safe, safe_bind, ← Safe, tlvForeach_safe validateBody_none hstart, loopSafe_validate,
    and_iff_left]
  rintro (_ | _) -
  all_goals exact safe_pure

end

/-- The header of the file, as `mlxfw_mfa2_file_init` reads it: the package descriptor is the
first child, at 24, of the first TLV, at 16. -/
def fileOf (fw : Firmware) : Mfa2File where
  firstDev := nextPos fw 16
  devCount := be16At fw 30
  firstComponent := walkEnd fw (be16At fw 30) (nextPos fw 16)
  componentCount := be16At fw 28
  cb := nlaAlign (be32At fw 32) % 2 ^ 32
  cbArchiveSize := be32At fw 36

namespace Mfa2File

variable (fw) (file : Mfa2File)

def devices : List Nat := walk fw file.devCount file.firstDev

def components : List Nat := walk fw file.componentCount file.firstComponent

/-- The component block is inside the file. -/
def CbIn : Prop := validPtr fw file.cb ∧ validPtr fw (file.cb + file.cbArchiveSize - 1)

end Mfa2File

/-- A file that passes `mlxfw_mfa2_file_init`. -/
structure Accepts (fw : Firmware) : Prop where
  first : Header fw 16 ∧ MultiTaken fw 16
  package : Header fw 24 ∧ PackageTaken fw 24
  firstStep : StepOk fw 16
  firstDev : (fileOf fw).firstDev ≠ none
  cb : (fileOf fw).CbIn fw
  devCount : ((fileOf fw).devices fw).length = (fileOf fw).devCount
  devices : ∀ tlv ∈ (fileOf fw).devices fw, DevOk fw tlv ∧ StepOk fw tlv
  componentCount : ((fileOf fw).components fw).length = (fileOf fw).componentCount
  components : ∀ tlv ∈ (fileOf fw).components fw, CompOk fw tlv ∧ StepOk fw tlv

theorem header_of_firstDev (tlv : Nat) (h : (fileOf fw).firstDev = some tlv) : Header fw tlv :=
  header_of_nextPos h

theorem header_of_firstComponent (tlv : Nat) (h : (fileOf fw).firstComponent = some tlv) :
    Header fw tlv := header_of_walkEnd header_of_firstDev h

/-- The checks of `mlxfw_mfa2_file_validate` stay inside the file. -/
def FileSafe (fuel : Nat) (fw : Firmware) : Prop :=
  let file := fileOf fw
  Until (DevOk fw) (fun tlv => DevSafe fuel fw tlv ∧ (DevOk fw tlv → StepOk fw tlv))
      (file.devices fw) ∧
    ((file.devices fw).length = file.devCount →
      (∀ tlv ∈ file.devices fw, DevOk fw tlv ∧ StepOk fw tlv) →
      Until (CompOk fw) (fun tlv => CompSafe fuel fw tlv ∧ (CompOk fw tlv → StepOk fw tlv))
        (file.components fw))

theorem devsValidate_runs (fuel : Nat) :
    (tlvsValidate fw (fileDevValidate fuel fw) (fileOf fw).firstDev (fileOf fw).devCount).Runs
        true ↔
      ((fileOf fw).devices fw).length = (fileOf fw).devCount ∧
        ∀ tlv ∈ (fileOf fw).devices fw, DevOk fw tlv ∧ StepOk fw tlv := by
  rw [tlvsValidate_runs header_of_firstDev]
  refine and_congr_right fun _ => forall₂_congr fun tlv hmem => and_congr_left' ?_
  exact fileDevValidate_runs (header_of_mem_walk header_of_firstDev hmem)

theorem compsValidate_runs (fuel : Nat) :
    (tlvsValidate fw (fileCompValidate fuel fw) (fileOf fw).firstComponent
        (fileOf fw).componentCount).Runs true ↔
      ((fileOf fw).components fw).length = (fileOf fw).componentCount ∧
        ∀ tlv ∈ (fileOf fw).components fw, CompOk fw tlv ∧ StepOk fw tlv := by
  rw [tlvsValidate_runs header_of_firstComponent]
  refine and_congr_right fun _ => forall₂_congr fun tlv hmem => and_congr_left' ?_
  exact fileCompValidate_runs (header_of_mem_walk header_of_firstComponent hmem)

theorem fileValidate_runs : (fileValidate fuel fw (fileOf fw)).Runs true ↔
    (((fileOf fw).devices fw).length = (fileOf fw).devCount ∧
      ∀ tlv ∈ (fileOf fw).devices fw, DevOk fw tlv ∧ StepOk fw tlv) ∧
    ((fileOf fw).components fw).length = (fileOf fw).componentCount ∧
      ∀ tlv ∈ (fileOf fw).components fw, CompOk fw tlv ∧ StepOk fw tlv := by
  unfold fileValidate
  rw [runs_bind, ← devsValidate_runs fuel, ← compsValidate_runs fuel]
  constructor
  · rintro ⟨valid, hvalid, hrest⟩
    cases valid with
    | false => simp at hrest
    | true => exact ⟨hvalid, hrest⟩
  · exact fun h => ⟨true, h⟩

theorem fileValidate_safe : Safe fw (fileValidate fuel fw (fileOf fw)) ↔ FileSafe fuel fw := by
  unfold fileValidate FileSafe
  rw [Safe, safe_bind, ← Safe, tlvsValidate_safe header_of_firstDev]
  refine and_congr ?_ ?_
  · refine until_congr (fun tlv hmem => ?_) fun tlv hmem => ?_
    · exact fileDevValidate_runs (header_of_mem_walk header_of_firstDev hmem)
    · have hheader := header_of_mem_walk header_of_firstDev hmem
      rw [fileDevValidate_safe hheader, fileDevValidate_runs hheader]
  · have hcomps : Safe fw (tlvsValidate fw (fileCompValidate fuel fw) (fileOf fw).firstComponent
        (fileOf fw).componentCount) ↔ Until (CompOk fw) (fun tlv => CompSafe fuel fw tlv ∧
          (CompOk fw tlv → StepOk fw tlv)) ((fileOf fw).components fw) := by
      rw [tlvsValidate_safe header_of_firstComponent]
      refine until_congr (fun tlv hmem => ?_) fun tlv hmem => ?_
      · exact fileCompValidate_runs (header_of_mem_walk header_of_firstComponent hmem)
      · have hheader := header_of_mem_walk header_of_firstComponent hmem
        rw [fileCompValidate_safe hheader, fileCompValidate_runs hheader]
    constructor
    · intro h hlen hdevs
      exact hcomps.mp (h true ((devsValidate_runs fuel).mpr ⟨hlen, hdevs⟩))
    · rintro h (_ | _) hvalid
      · exact safe_pure
      · obtain ⟨hlen, hdevs⟩ := (devsValidate_runs fuel).mp hvalid
        exact hcomps.mpr (h hlen hdevs)

/-- `mlxfw_mfa2_file_init` stays inside the file. -/
def InitSafe (fuel : Nat) (fw : Firmware) : Prop :=
  Header fw 16 → MultiTaken fw 16 → PayloadIn fw 16 ∧
    (Header fw 24 → PackageTaken fw 24 → PayloadIn fw 24 ∧
      ((fileOf fw).firstDev ≠ none → (∀ tlv ∈ (fileOf fw).devices fw, StepOk fw tlv) ∧
        ((fileOf fw).CbIn fw → FileSafe fuel fw)))

theorem tlvGet_of_header {tlv : Nat} (h : Header fw tlv) : tlvGet fw tlv = some tlv :=
  tlvGet_eq_some.mpr ⟨rfl, h⟩

theorem tlvGet_of_not_header {tlv : Nat} (h : ¬Header fw tlv) : tlvGet fw tlv = none := by
  cases hget : tlvGet fw tlv with
  | none => rfl
  | some t => exact absurd ((tlvGet_eq_some.mp hget).1 ▸ header_of_tlvGet hget) h

theorem PackageTaken.fields (h : PackageTaken fw 24) :
    load16 fw 28 = pure (fileOf fw).componentCount ∧ load16 fw 30 = pure (fileOf fw).devCount ∧
      load32 fw 32 = pure (be32At fw 32) ∧ load32 fw 36 = pure (fileOf fw).cbArchiveSize := by
  have hlen : tlvLen fw 24 = 28 := by simpa using h.2.2
  have htop := (validPtr_eq_true.mp h.1).2
  exact ⟨load16_of_lt (by omega), load16_of_lt (by omega), load32_of_lt (by omega),
    load32_of_lt (by omega)⟩

section

variable {file file' : Mfa2File}

/-- The end of `mlxfw_mfa2_file_init`: the component block is checked, and then the file. -/
def fileInitEnd (fuel : Nat) (fw : Firmware) (file : Mfa2File) : Parse (Except Errno Mfa2File) :=
  if !validPtr fw file.cb then pure (.error .einval)
  else if !validPtr fw (file.cb + file.cbArchiveSize - 1) then pure (.error .einval)
  else do
    match ← fileValidate fuel fw file with
    | false => pure (.error .einval)
    | true => pure (.ok file)

theorem fileInitEnd_of_cbIn (h : file.CbIn fw) : fileInitEnd fuel fw file = (do
    match ← fileValidate fuel fw file with
    | false => pure (.error .einval)
    | true => pure (.ok file)) := by
  simp [fileInitEnd, h.1, h.2]

theorem fileInitEnd_of_not_cbIn (h : ¬file.CbIn fw) :
    fileInitEnd fuel fw file = pure (.error .einval) := by
  unfold fileInitEnd
  by_cases hcb : validPtr fw file.cb = true
  · have htop : ¬validPtr fw (file.cb + file.cbArchiveSize - 1) = true := fun htop => h ⟨hcb, htop⟩
    simp [htop]
  · simp [hcb]

theorem fileInitEnd_runs : (fileInitEnd fuel fw file).Runs (.ok file') ↔
    file.CbIn fw ∧ (fileValidate fuel fw file).Runs true ∧ file' = file := by
  by_cases hcb : file.CbIn fw
  · rw [fileInitEnd_of_cbIn hcb, runs_bind]
    constructor
    · rintro ⟨valid, hvalid, hrest⟩
      cases valid with
      | false => simp at hrest
      | true => exact ⟨hcb, hvalid, (Except.ok.inj (runs_pure.mp hrest)).symm⟩
    · rintro ⟨-, hvalid, rfl⟩
      exact ⟨true, hvalid, runs_pure.mpr rfl⟩
  · rw [fileInitEnd_of_not_cbIn hcb]
    simp [hcb]

theorem fileInitEnd_safe : Safe fw (fileInitEnd fuel fw file) ↔
    (file.CbIn fw → Safe fw (fileValidate fuel fw file)) := by
  by_cases hcb : file.CbIn fw
  · rw [fileInitEnd_of_cbIn hcb, imp_iff_right hcb, Safe, safe_bind, ← Safe, and_iff_left]
    rintro (_ | _) -
    all_goals exact safe_pure
  · rw [fileInitEnd_of_not_cbIn hcb]
    exact iff_of_true safe_pure fun h => absurd h hcb

/-- `mlxfw_mfa2_file_init` after the step to the first device. -/
theorem fileInitPackage_eq (hpd : PackageTaken fw 24) :
    fileInitPackage fuel fw 16 28 = (do
      match ← tlvNext fw 16 with
      | none => pure (.error .einval)
      | some firstDev => do
        let firstComponent ← tlvAdvance fw (some firstDev) (fileOf fw).devCount
        fileInitEnd fuel fw
          { fileOf fw with firstDev := some firstDev, firstComponent := firstComponent }) := by
  obtain ⟨hcomps, hdevs, hcb, harchive⟩ := hpd.fields
  unfold fileInitPackage
  simp only [Nat.reduceAdd, hcomps, hdevs, hcb, harchive, pure_bind]
  rfl

/-- The steps over the devices give the file its first component. -/
theorem advance_devices {firstDev : Nat} (hfirst : (fileOf fw).firstDev = some firstDev) :
    (∀ {r}, (tlvAdvance fw (some firstDev) (fileOf fw).devCount).Runs r ↔
      (∀ tlv ∈ (fileOf fw).devices fw, StepOk fw tlv) ∧ r = (fileOf fw).firstComponent) ∧
    (Safe fw (tlvAdvance fw (some firstDev) (fileOf fw).devCount) ↔
      ∀ tlv ∈ (fileOf fw).devices fw, StepOk fw tlv) ∧
    (⟨some firstDev, (fileOf fw).devCount, (fileOf fw).firstComponent, (fileOf fw).componentCount,
      (fileOf fw).cb, (fileOf fw).cbArchiveSize⟩ : Mfa2File) = fileOf fw := by
  rw [← hfirst]
  exact ⟨tlvAdvance_runs header_of_firstDev, tlvAdvance_safe header_of_firstDev, rfl⟩

theorem fileInitPackage_runs (h16 : Header fw 16) (hpd : PackageTaken fw 24) :
    (fileInitPackage fuel fw 16 28).Runs (.ok file) ↔
      StepOk fw 16 ∧ (fileOf fw).firstDev ≠ none ∧
        (∀ tlv ∈ (fileOf fw).devices fw, StepOk fw tlv) ∧ (fileOf fw).CbIn fw ∧
        (fileValidate fuel fw (fileOf fw)).Runs true ∧ file = fileOf fw := by
  rw [fileInitPackage_eq hpd, runs_bind]
  simp only [tlvNext_runs h16]
  show (∃ r, (_ ∧ r = (fileOf fw).firstDev) ∧ _) ↔ _
  cases hfirst : (fileOf fw).firstDev with
  | none => simp
  | some firstDev =>
    obtain ⟨hadvance, -, hfile⟩ := advance_devices hfirst
    constructor
    · rintro ⟨_, ⟨hstep, rfl⟩, hrest⟩
      obtain ⟨firstComponent, hcomp, hrest⟩ := runs_bind.mp hrest
      obtain ⟨hsteps, rfl⟩ := hadvance.mp hcomp
      rw [hfile] at hrest
      exact ⟨hstep, Option.some_ne_none _, hsteps, fileInitEnd_runs.mp hrest⟩
    · rintro ⟨hstep, -, hsteps, hend⟩
      refine ⟨_, ⟨hstep, rfl⟩, runs_bind.mpr ⟨_, hadvance.mpr ⟨hsteps, rfl⟩, ?_⟩⟩
      rw [hfile]
      exact fileInitEnd_runs.mpr hend

theorem fileInitPackage_safe (h16 : Header fw 16) (hpd : PackageTaken fw 24)
    (hstep : StepOk fw 16) : Safe fw (fileInitPackage fuel fw 16 28) ↔
      ((fileOf fw).firstDev ≠ none → (∀ tlv ∈ (fileOf fw).devices fw, StepOk fw tlv) ∧
        ((fileOf fw).CbIn fw → FileSafe fuel fw)) := by
  have hnext : (tlvNext fw 16).Runs (fileOf fw).firstDev := (tlvNext_runs h16).mpr ⟨hstep, rfl⟩
  rw [fileInitPackage_eq hpd, Safe, safe_bind_of hnext]
  refine (and_iff_right ((tlvNext_safe h16).mpr hstep)).trans ?_
  cases hfirst : (fileOf fw).firstDev with
  | none => exact iff_of_true safe_pure fun h => absurd rfl h
  | some firstDev =>
    obtain ⟨hadvance, hadvanceSafe, hfile⟩ := advance_devices hfirst
    rw [imp_iff_right (Option.some_ne_none _)]
    rw [safe_bind, ← Safe, hadvanceSafe]
    refine and_congr_right fun hsteps => ?_
    have hend : Safe fw (fileInitEnd fuel fw (fileOf fw)) ↔
        ((fileOf fw).CbIn fw → FileSafe fuel fw) := by
      rw [fileInitEnd_safe, fileValidate_safe]
    constructor
    · intro h
      have hrest := h _ (hadvance.mpr ⟨hsteps, rfl⟩)
      rw [hfile] at hrest
      exact hend.mp hrest
    · intro h r hr
      obtain ⟨-, rfl⟩ := hadvance.mp hr
      rw [hfile]
      exact hend.mpr h

theorem accepts_iff (fuel : Nat) (h16 : Header fw 16) (hmulti : MultiTaken fw 16)
    (h24 : Header fw 24) (hpd : PackageTaken fw 24) : Accepts fw ↔
      StepOk fw 16 ∧ (fileOf fw).firstDev ≠ none ∧
        (∀ tlv ∈ (fileOf fw).devices fw, StepOk fw tlv) ∧ (fileOf fw).CbIn fw ∧
        (fileValidate fuel fw (fileOf fw)).Runs true := by
  rw [fileValidate_runs]
  constructor
  · intro h
    exact ⟨h.firstStep, h.firstDev, fun tlv hmem => (h.devices tlv hmem).2, h.cb,
      ⟨h.devCount, h.devices⟩, h.componentCount, h.components⟩
  · rintro ⟨hstep, hfirst, -, hcb, ⟨hdevCount, hdevices⟩, hcompCount, hcomps⟩
    exact ⟨⟨h16, hmulti⟩, ⟨h24, hpd⟩, hstep, hfirst, hcb, hdevCount, hdevices, hcompCount, hcomps⟩

theorem fileInit_runs :
    (fileInit fuel fw true).Runs (.ok file) ↔ Accepts fw ∧ file = fileOf fw := by
  unfold fileInit
  by_cases h16 : Header fw 16
  · have hfirst : tlvGet fw (nlaAlign mfa2Fingerprint.length) = some 16 := tlvGet_of_header h16
    simp only [hfirst, Bool.not_true, Bool.false_eq_true, if_false]
    by_cases hmulti : MultiTaken fw 16
    · have hget : (tlvMultiGet fw 16).Runs (some 20) := runs_of_taken h16 hmulti
      rw [runs_bind_of hget]
      by_cases h24 : Header fw 24
      · have hchild : tlvMultiChild fw 20 = some 24 := tlvGet_of_header h24
        simp only [hchild]
        by_cases hpd : PackageTaken fw 24
        · have hget : (tlvPackageDescriptorGet fw 24).Runs (some 28) := runs_of_taken h24 hpd
          rw [runs_bind_of hget, accepts_iff fuel h16 hmulti h24 hpd]
          exact (fileInitPackage_runs h16 hpd).trans (by simp only [and_assoc])
        · have hget : (tlvPackageDescriptorGet fw 24).Runs none := runs_of_not_taken h24 hpd
          rw [runs_bind_of hget]
          exact iff_of_false (by simp) fun h => hpd h.1.package.2
      · have hchild : tlvMultiChild fw 20 = none := tlvGet_of_not_header h24
        simp only [hchild]
        exact iff_of_false (by simp) fun h => h24 h.1.package.1
    · have hget : (tlvMultiGet fw 16).Runs none := runs_of_not_taken h16 hmulti
      rw [runs_bind_of hget]
      exact iff_of_false (by simp) fun h => hmulti h.1.first.2
  · have hfirst : tlvGet fw (nlaAlign mfa2Fingerprint.length) = none := tlvGet_of_not_header h16
    simp only [hfirst, Bool.not_true, Bool.false_eq_true, if_false]
    exact iff_of_false (by simp) fun h => h16 h.1.first.1

/-- A package descriptor behind the first TLV leaves room for the payload of that TLV. -/
theorem firstStep_of_header (h24 : Header fw 24) (hmulti : MultiTaken fw 16) : StepOk fw 16 :=
  hmulti.stepOk_iff.mpr (hmulti.payloadIn_iff.mpr (by have := h24.2; omega))

theorem fileInit_safe : Safe fw (fileInit fuel fw true) ↔ InitSafe fuel fw := by
  unfold fileInit InitSafe
  by_cases h16 : Header fw 16
  · have hfirst : tlvGet fw (nlaAlign mfa2Fingerprint.length) = some 16 := tlvGet_of_header h16
    have hmultiSafe : Safe fw (tlvMultiGet fw 16) ↔ (MultiTaken fw 16 → PayloadIn fw 16) :=
      tlvPayloadGet_safe h16
    simp only [hfirst, Bool.not_true, Bool.false_eq_true, if_false, imp_iff_right h16]
    by_cases hmulti : MultiTaken fw 16
    · have hget : (tlvMultiGet fw 16).Runs (some 20) := runs_of_taken h16 hmulti
      rw [imp_iff_right hmulti, Safe, safe_bind_of hget, ← Safe, hmultiSafe, imp_iff_right hmulti]
      refine and_congr_right fun _ => ?_
      by_cases h24 : Header fw 24
      · have hchild : tlvMultiChild fw 20 = some 24 := tlvGet_of_header h24
        have hpdSafe : Safe fw (tlvPackageDescriptorGet fw 24) ↔
            (PackageTaken fw 24 → PayloadIn fw 24) := tlvPayloadGet_safe h24
        simp only [hchild, imp_iff_right h24]
        by_cases hpd : PackageTaken fw 24
        · have hget : (tlvPackageDescriptorGet fw 24).Runs (some 28) := runs_of_taken h24 hpd
          rw [imp_iff_right hpd, safe_bind_of hget, ← Safe, hpdSafe, imp_iff_right hpd]
          refine and_congr_right fun _ => ?_
          exact fileInitPackage_safe h16 hpd (firstStep_of_header h24 hmulti)
        · have hget : (tlvPackageDescriptorGet fw 24).Runs none := runs_of_not_taken h24 hpd
          rw [safe_bind_of hget]
          exact iff_of_true ⟨hpdSafe.mpr fun h => absurd h hpd, safe_pure⟩ fun h => absurd h hpd
      · have hchild : tlvMultiChild fw 20 = none := tlvGet_of_not_header h24
        simp only [hchild]
        exact iff_of_true safe_pure fun h => absurd h h24
    · have hget : (tlvMultiGet fw 16).Runs none := runs_of_not_taken h16 hmulti
      rw [Safe, safe_bind_of hget]
      exact iff_of_true ⟨hmultiSafe.mpr fun h => absurd h hmulti, safe_pure⟩
        fun h => absurd h hmulti
  · have hfirst : tlvGet fw (nlaAlign mfa2Fingerprint.length) = none := tlvGet_of_not_header h16
    simp only [hfirst, Bool.not_true, Bool.false_eq_true, if_false]
    exact iff_of_true safe_pure fun h => absurd h h16

end

end Mlxfw
