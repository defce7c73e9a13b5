-- SUMMARY: The layout of TLVs in an MFA2 file.
import Mathlib.Data.List.GetD
import OfaKernel.Mlxfw.Mfa2

/-!
# The layout of an MFA2 file

`StepOk` and `PayloadIn` say of one TLV that the step from it and its payload stay inside the
file.
-/

open List

namespace Mlxfw

open Traced

variable (fw : Firmware)

/-- Nothing outside the file is loaded or handed out, and `NULL` is not dereferenced. -/
def Safe {α : Type} (x : Parse α) : Prop :=
  Traced.Safe (· ≠ .fuel) (fun r => r.offset + r.size ≤ fw.length) x

/-- A pointer that `mlxfw_mfa2_tlv_get` lets pass. -/
def Header (tlv : Nat) : Prop := 0 < tlv ∧ tlv + 4 < fw.length

def tlvType (tlv : Nat) : Nat := byteAt fw (tlv + 1)

def tlvLen (tlv : Nat) : Nat := be16At fw (tlv + 2)

/-- The TLV passes the checks of `mlxfw_mfa2_tlv_payload_get`. -/
def Taken (tlv : Nat) (type : TlvType) (size : Nat) (varsize : Bool) : Prop :=
  validPtr fw (tlv + tlvLen fw tlv - 1) ∧ tlvType fw tlv = type.code ∧
    if varsize then size ≤ tlvLen fw tlv else tlvLen fw tlv = size

instance (tlv : Nat) (type : TlvType) (size : Nat) (varsize : Bool) :
    Decidable (Taken fw tlv type size varsize) :=
  inferInstanceAs (Decidable (_ ∧ _ ∧ _))

def MultiTaken (tlv : Nat) : Prop := Taken fw tlv .multiPart 4 false
def PackageTaken (tlv : Nat) : Prop := Taken fw tlv .packageDescriptor 28 false
def PsidTaken (tlv : Nat) : Prop := Taken fw tlv .psid 0 true
def CptrTaken (tlv : Nat) : Prop := Taken fw tlv .componentPtr 8 false
def CdescTaken (tlv : Nat) : Prop := Taken fw tlv .componentDescriptor 16 false

/-- The payload of the TLV ends inside the file. -/
def PayloadIn (tlv : Nat) : Prop := tlv + 4 + tlvLen fw tlv ≤ fw.length

/-- A step from the TLV to the next one is safe: a multi-part TLV has a payload of 4 bytes, inside
the file. -/
def StepOk (tlv : Nat) : Prop :=
  tlvType fw tlv = TlvType.multiPart.code → tlvLen fw tlv = 4 ∧ tlv + 8 ≤ fw.length

/-- The TLV after a TLV. -/
def nextPos (tlv : Nat) : Option Nat :=
  let len := nlaAlign (4 + tlvLen fw tlv) % 2 ^ 16
  if tlvType fw tlv = TlvType.multiPart.code then
    tlvGet fw (tlv + nlaAlign (len + be16At fw (tlv + 6)) % 2 ^ 16)
  else tlvGet fw (tlv + len)

/-- The TLVs met in a number of steps. -/
def walk : Nat → Option Nat → List Nat
  | 0, _ => []
  | _ + 1, none => []
  | count + 1, some tlv => tlv :: walk count (nextPos fw tlv)

/-- The pointer after a number of steps. -/
def walkEnd : Nat → Option Nat → Option Nat
  | 0, tlv => tlv
  | _ + 1, none => none
  | count + 1, some tlv => walkEnd count (nextPos fw tlv)

variable {fw}

/-! ## Accessors -/

theorem tlvGet_eq_some {ptr tlv : Nat} : tlvGet fw ptr = some tlv ↔ ptr = tlv ∧ Header fw tlv := by
  unfold tlvGet validPtr Header
  by_cases h : 0 < ptr ∧ ptr + 4 < fw.length
  · have hvalid : ptr < fw.length := by omega
    constructor
    · intro heq
      simp only [h.1, h.2, hvalid] at heq
      cases heq
      exact ⟨rfl, h⟩
    · rintro ⟨rfl, -⟩
      simp [h.1, h.2, hvalid]
  · constructor
    · intro heq
      exfalso
      by_cases hif : (decide (0 < ptr ∧ ptr < fw.length) &&
          decide (0 < ptr + 4 ∧ ptr + 4 < fw.length)) = true
      · simp only [Bool.and_eq_true, decide_eq_true_eq] at hif
        exact h ⟨hif.1.1, hif.2.2⟩
      · rw [if_neg hif] at heq
        cases heq
    · rintro ⟨rfl, hh⟩
      exact absurd hh h

theorem header_of_tlvGet {ptr tlv : Nat} (h : tlvGet fw ptr = some tlv) : Header fw tlv :=
  (tlvGet_eq_some.mp h).2

theorem header_of_nextPos {tlv next : Nat} (h : nextPos fw tlv = some next) : Header fw next := by
  unfold nextPos at h
  split at h
  all_goals exact header_of_tlvGet h

section

variable {tlv : Nat}

variable {offset : Nat}

theorem load8_of_lt (h : offset < fw.length) :
    load8 fw offset = pure (byteAt fw offset) := if_pos h

theorem load16_of_lt (h : offset + 1 < fw.length) :
    load16 fw offset = pure (be16At fw offset) := if_pos h

theorem load32_of_lt (h : offset + 3 < fw.length) :
    load32 fw offset = pure (be32At fw offset) := if_pos h

theorem load16_runs {offset n : Nat} :
    (load16 fw offset).Runs n ↔ offset + 1 < fw.length ∧ n = be16At fw offset := by
  unfold load16
  by_cases h : offset + 1 < fw.length
  · simp [h, eq_comm]
  · simp [h]

theorem load16_safe : Safe fw (load16 fw offset) ↔ offset + 1 < fw.length := by
  unfold load16 Safe
  by_cases h : offset + 1 < fw.length
  all_goals simp [h]

theorem validPtr_eq_true {ptr : Nat} : validPtr fw ptr = true ↔ 0 < ptr ∧ ptr < fw.length := by
  simp [validPtr]

/-- The getter on a TLV: what it returns, and what it hands out. -/
theorem tlvPayloadGet_eq (h : Header fw tlv) (type : TlvType) (size : Nat) (varsize : Bool) :
    tlvPayloadGet fw tlv type size varsize =
      if Taken fw tlv type size varsize then
        (do Traced.emit ⟨tlv + 4, tlvLen fw tlv⟩; pure (some (tlv + 4)))
      else pure none := by
  have hvalid : validPtr fw tlv = true := validPtr_eq_true.mpr ⟨h.1, by have := h.2; omega⟩
  unfold tlvPayloadGet
  rw [load16_of_lt (by have := h.2; omega), load8_of_lt (by have := h.2; omega)]
  simp only [pure_bind, hvalid, Bool.not_true, Bool.false_or]
  show (if (!validPtr fw (tlv + tlvLen fw tlv - 1)) = true then _
    else if tlvType fw tlv ≠ type.code then _
    else if (varsize && decide (tlvLen fw tlv < size)) = true then _
    else if (!varsize && decide (tlvLen fw tlv ≠ size)) = true then _ else _) = _
  by_cases htop : validPtr fw (tlv + tlvLen fw tlv - 1) = true
  · rw [if_neg (by simp [htop])]
    by_cases htype : tlvType fw tlv = type.code
    · rw [if_neg fun hne => hne htype]
      cases varsize with
      | false =>
        rw [if_neg (by simp)]
        by_cases hlen : tlvLen fw tlv = size
        · rw [if_neg (by simp [hlen]), if_pos ⟨htop, htype, hlen⟩]
          rfl
        · rw [if_pos (by simp [hlen]), if_neg fun htaken => hlen htaken.2.2]
      | true =>
        by_cases hlen : size ≤ tlvLen fw tlv
        · rw [if_neg (by simp [hlen]), if_neg (by simp), if_pos ⟨htop, htype, hlen⟩]
          rfl
        · rw [if_pos (by simpa using hlen), if_neg fun htaken => hlen htaken.2.2]
    · rw [if_pos htype, if_neg fun htaken => htype htaken.2.1]
  · rw [if_pos (by simpa using htop), if_neg fun htaken => htop htaken.1]

variable {size : Nat} {varsize : Bool}

theorem runs_of_taken (h : Header fw tlv) {type : TlvType}
    (htaken : Taken fw tlv type size varsize) :
    (tlvPayloadGet fw tlv type size varsize).Runs (some (tlv + 4)) := by
  rw [tlvPayloadGet_eq h, if_pos htaken, runs_bind_of runs_emit, runs_pure]

theorem runs_of_not_taken (h : Header fw tlv) {type : TlvType}
    (htaken : ¬Taken fw tlv type size varsize) :
    (tlvPayloadGet fw tlv type size varsize).Runs none := by
  rw [tlvPayloadGet_eq h, if_neg htaken, runs_pure]

theorem tlvPayloadGet_safe (h : Header fw tlv) {type : TlvType} :
    Safe fw (tlvPayloadGet fw tlv type size varsize) ↔
      (Taken fw tlv type size varsize → PayloadIn fw tlv) := by
  rw [tlvPayloadGet_eq h]
  by_cases htaken : Taken fw tlv type size varsize
  · rw [if_pos htaken, Safe, safe_bind_of runs_emit, safe_emit]
    simp [htaken, PayloadIn]
  · simp [Safe, htaken]

theorem MultiTaken.payloadIn_iff (h : MultiTaken fw tlv) :
    PayloadIn fw tlv ↔ tlv + 8 ≤ fw.length := by
  have hlen : tlvLen fw tlv = 4 := by simpa using h.2.2
  unfold PayloadIn
  rw [hlen]

theorem multiTaken_iff (h : Header fw tlv) (htype : tlvType fw tlv = TlvType.multiPart.code) :
    MultiTaken fw tlv ↔ tlvLen fw tlv = 4 := by
  constructor
  · exact fun h => by simpa using h.2.2
  · intro hlen
    refine ⟨validPtr_eq_true.mpr ?_, htype, by simpa using hlen⟩
    have := h.2
    omega

theorem MultiTaken.stepOk_iff (h : MultiTaken fw tlv) : StepOk fw tlv ↔ PayloadIn fw tlv := by
  rw [h.payloadIn_iff]
  constructor
  · exact fun hstep => (hstep h.2.1).2
  · exact fun hin _ => ⟨by simpa using h.2.2, hin⟩

/-- A step from a TLV goes on exactly if it is safe. -/
theorem tlvNext_runs (h : Header fw tlv) {r : Option Nat} :
    (tlvNext fw tlv).Runs r ↔ StepOk fw tlv ∧ r = nextPos fw tlv := by
  have hlen : load16 fw (tlv + 2) = pure (tlvLen fw tlv) := load16_of_lt (by have := h.2; omega)
  have htype : load8 fw (tlv + 1) = pure (tlvType fw tlv) := load8_of_lt (by have := h.2; omega)
  unfold tlvNext StepOk nextPos
  simp only [hlen, htype, pure_bind]
  by_cases hmulti : tlvType fw tlv = TlvType.multiPart.code
  · simp only [hmulti, if_true, true_implies]
    by_cases htaken : MultiTaken fw tlv
    · have hget : (tlvMultiGet fw tlv).Runs (some (tlv + 4)) := runs_of_taken h htaken
      have h4 := (multiTaken_iff h hmulti).mp htaken
      simp only [runs_bind_of hget, runs_bind, load16_runs, runs_pure, h4]
      constructor
      · rintro ⟨_, ⟨hin, rfl⟩, rfl⟩
        exact ⟨⟨trivial, hin⟩, rfl⟩
      · rintro ⟨⟨-, hin⟩, rfl⟩
        exact ⟨_, ⟨hin, rfl⟩, rfl⟩
    · have hget : (tlvMultiGet fw tlv).Runs none := runs_of_not_taken h htaken
      simp [runs_bind_of hget, mt (multiTaken_iff h hmulti).mpr htaken]
  · simp [hmulti, eq_comm]

theorem tlvNext_safe (h : Header fw tlv) : Safe fw (tlvNext fw tlv) ↔ StepOk fw tlv := by
  have hlen : load16 fw (tlv + 2) = pure (tlvLen fw tlv) := load16_of_lt (by have := h.2; omega)
  have htype : load8 fw (tlv + 1) = pure (tlvType fw tlv) := load8_of_lt (by have := h.2; omega)
  unfold tlvNext StepOk Safe
  simp only [hlen, htype, pure_bind]
  by_cases hmulti : tlvType fw tlv = TlvType.multiPart.code
  · simp only [hmulti, if_true, true_implies]
    by_cases htaken : MultiTaken fw tlv
    · have hget : (tlvMultiGet fw tlv).Runs (some (tlv + 4)) := runs_of_taken h htaken
      have hsafe : Safe fw (tlvMultiGet fw tlv) ↔ tlv + 8 ≤ fw.length := by
        rw [← htaken.payloadIn_iff]
        exact (tlvPayloadGet_safe h).trans (imp_iff_right htaken)
      rw [safe_bind_of hget, safe_bind]
      constructor
      · exact fun hs => ⟨(multiTaken_iff h hmulti).mp htaken, hsafe.mp hs.1⟩
      · exact fun hs => ⟨hsafe.mpr hs.2, load16_safe.mpr hs.2, fun _ _ => safe_pure⟩
    · have hget : (tlvMultiGet fw tlv).Runs none := runs_of_not_taken h htaken
      rw [safe_bind_of hget]
      simp [mt (multiTaken_iff h hmulti).mpr htaken]
  · simp [hmulti]

end

/-! ## Loops -/

variable {count : Nat} {start : Option Nat}

theorem header_of_mem_walk (hstart : ∀ tlv, start = some tlv → Header fw tlv) {tlv : Nat}
    (h : tlv ∈ walk fw count start) : Header fw tlv := by
  induction count generalizing start with
  | zero => cases h
  | succ count ih =>
    cases start with
    | none => cases h
    | some first =>
      rcases mem_cons.mp h with rfl | h
      · exact hstart _ rfl
      · exact ih (fun _ => header_of_nextPos) h

/-- The TLVs met are those reached in fewer steps. -/
theorem mem_walk_iff {tlv : Nat} :
    tlv ∈ walk fw count start ↔ ∃ i < count, walkEnd fw i start = some tlv := by
  induction count generalizing start with
  | zero => simp [walk]
  | succ count ih =>
    cases start with
    | none =>
      constructor
      · intro h
        cases h
      · rintro ⟨i, -, hend⟩
        cases i with
        | zero => cases hend
        | succ i => cases hend
    | some first =>
      constructor
      · intro h
        rcases mem_cons.mp h with rfl | h
        · exact ⟨0, Nat.succ_pos _, rfl⟩
        · obtain ⟨i, hi, hend⟩ := ih.mp h
          exact ⟨i + 1, Nat.succ_lt_succ hi, hend⟩
      · rintro ⟨i, hi, hend⟩
        cases i with
        | zero =>
          cases hend
          exact mem_cons_self
        | succ i => exact mem_cons_of_mem _ (ih.mpr ⟨i, Nat.lt_of_succ_lt_succ hi, hend⟩)

/-- Fewer steps meet no other TLVs. -/
theorem mem_walk_of_le {count more : Nat} (hle : count ≤ more) {tlv : Nat}
    (h : tlv ∈ walk fw count start) : tlv ∈ walk fw more start := by
  obtain ⟨i, hi, hend⟩ := mem_walk_iff.mp h
  exact mem_walk_iff.mpr ⟨i, Nat.lt_of_lt_of_le hi hle, hend⟩

theorem walkEnd_of_short (h : (walk fw count start).length ≠ count) :
    walkEnd fw count start = none := by
  induction count generalizing start with
  | zero => exact absurd rfl h
  | succ count ih =>
    cases start with
    | none => rfl
    | some tlv => exact ih fun heq => h (congrArg Nat.succ heq)

theorem header_of_walkEnd (hstart : ∀ tlv, start = some tlv → Header fw tlv) {tlv : Nat}
    (h : walkEnd fw count start = some tlv) : Header fw tlv :=
  header_of_mem_walk hstart (mem_walk_iff.mpr ⟨count, Nat.lt_succ_self count, h⟩)

section

variable (fw) {β σ : Type} (body : Option Nat → σ → Parse (β ⊕ σ))

/-- The body is safe on each TLV that the loop comes to, and so is each step. -/
def LoopSafe : List Nat → σ → Prop
  | [], _ => True
  | tlv :: tlvs, s => Safe fw (body (some tlv) s) ∧
      ∀ s', (body (some tlv) s).Runs (.inr s') → StepOk fw tlv ∧ LoopSafe tlvs s'

/-- The body goes on at each of the TLVs. -/
def LoopGoes : List Nat → σ → σ → Prop
  | [], s, t => s = t
  | tlv :: tlvs, s, t =>
    ∃ s', (body (some tlv) s).Runs (.inr s') ∧ StepOk fw tlv ∧ LoopGoes tlvs s' t

variable {fw body} (hnone : ∀ s, ∃ b, body none s = pure (.inl b))

include hnone

variable {count : Nat} {start : Option Nat}

theorem tlvForeach_safe (hstart : ∀ tlv, start = some tlv → Header fw tlv) (s : σ) :
    Safe fw (tlvForeach fw body count start s) ↔ LoopSafe fw body (walk fw count start) s := by
  induction count generalizing start s with
  | zero => exact iff_of_true safe_pure trivial
  | succ count ih =>
    cases start with
    | none =>
      obtain ⟨b, hb⟩ := hnone s
      simp only [tlvForeach, hb, pure_bind]
      exact iff_of_true safe_pure trivial
    | some tlv =>
      have htlv := hstart tlv rfl
      simp only [tlvForeach, Safe, walk, LoopSafe]
      rw [safe_bind]
      refine and_congr_right fun _ => ?_
      constructor
      · intro h s' hs'
        have hrest := h _ hs'
        rw [safe_bind] at hrest
        have hstep := (tlvNext_safe htlv).mp hrest.1
        have hgo := hrest.2 _ ((tlvNext_runs htlv).mpr ⟨hstep, rfl⟩)
        exact ⟨hstep, (ih (fun _ => header_of_nextPos) s').mp hgo⟩
      · intro h r hr
        cases r with
        | inl b => exact safe_pure
        | inr s' =>
          obtain ⟨hstep, hgo⟩ := h s' hr
          refine safe_bind.mpr ⟨(tlvNext_safe htlv).mpr hstep, fun next hnext => ?_⟩
          obtain ⟨-, rfl⟩ := (tlvNext_runs htlv).mp hnext
          exact (ih (fun _ => header_of_nextPos) s').mpr hgo

theorem tlvForeach_goes (hstart : ∀ tlv, start = some tlv → Header fw tlv) {s t : σ}
    {stop : Option Nat} :
    (tlvForeach fw body count start s).Runs (.inr (stop, t)) ↔
      (walk fw count start).length = count ∧ stop = walkEnd fw count start ∧
        LoopGoes fw body (walk fw count start) s t := by
  induction count generalizing start s with
  | zero =>
    simp only [tlvForeach, runs_pure, walk, walkEnd, LoopGoes, Sum.inr.injEq, Prod.mk.injEq]
    simp [eq_comm]
  | succ count ih =>
    cases start with
    | none =>
      obtain ⟨b, hb⟩ := hnone s
      simp [tlvForeach, hb, walk]
    | some tlv =>
      have htlv := hstart tlv rfl
      simp only [tlvForeach, walk, walkEnd, LoopGoes, runs_bind, length_cons,
        Nat.add_right_cancel_iff]
      constructor
      · rintro ⟨r, hr, hrest⟩
        cases r with
        | inl b => simp at hrest
        | inr s' =>
          obtain ⟨next, hnext, hgo⟩ := runs_bind.mp hrest
          obtain ⟨hstep, rfl⟩ := (tlvNext_runs htlv).mp hnext
          obtain ⟨hlen, hend, hgoes⟩ := (ih fun _ => header_of_nextPos).mp hgo
          exact ⟨hlen, hend, s', hr, hstep, hgoes⟩
      · rintro ⟨hlen, hend, s', hr, hstep, hgoes⟩
        exact ⟨_, hr, runs_bind.mpr ⟨_, (tlvNext_runs htlv).mpr ⟨hstep, rfl⟩,
          (ih fun _ => header_of_nextPos).mpr ⟨hlen, hend, hgoes⟩⟩⟩

/-- What a loop returns, its body returns at a TLV that the loop meets, or at its end. -/
theorem tlvForeach_returns (hstart : ∀ tlv, start = some tlv → Header fw tlv) {s : σ} {b : β}
    (h : (tlvForeach fw body count start s).Runs (.inl b)) :
    (∃ tlv ∈ walk fw count start, ∃ s', (body (some tlv) s').Runs (.inl b)) ∨
      ∃ s', (body none s').Runs (.inl b) := by
  induction count generalizing start s with
  | zero => simp [tlvForeach] at h
  | succ count ih =>
    cases start with
    | none =>
      obtain ⟨b', hb⟩ := hnone s
      simp only [tlvForeach, hb, pure_bind, runs_pure] at h
      right
      refine ⟨s, ?_⟩
      rw [hb, runs_pure]
      exact congrArg Sum.inl (Sum.inl.inj h)
    | some tlv =>
      obtain ⟨r, hr, hrest⟩ := runs_bind.mp h
      cases r with
      | inl b' =>
        left
        obtain rfl : b' = b := by simpa using hrest
        exact ⟨tlv, mem_cons_self, s, hr⟩
      | inr s' =>
        obtain ⟨next, hnext, hgo⟩ := runs_bind.mp hrest
        obtain ⟨-, rfl⟩ := (tlvNext_runs (hstart tlv rfl)).mp hnext
        rcases ih (fun _ => header_of_nextPos) hgo with ⟨tlv', hmem, hbody⟩ | hend
        · exact .inl ⟨tlv', mem_cons_of_mem _ hmem, hbody⟩
        · exact .inr hend

end

theorem loopSafe_of_steps {β σ : Type} {body : Option Nat → σ → Parse (β ⊕ σ)} {tlvs : List Nat}
    (hbody : ∀ tlv ∈ tlvs, ∀ s, Safe fw (body (some tlv) s))
    (hsteps : ∀ tlv ∈ tlvs, StepOk fw tlv) (s : σ) : LoopSafe fw body tlvs s := by
  induction tlvs generalizing s with
  | nil => trivial
  | cons tlv tlvs ih =>
    exact ⟨hbody tlv mem_cons_self s, fun s' _ => ⟨hsteps tlv mem_cons_self,
      ih (fun t ht => hbody t (mem_cons_of_mem _ ht))
        (fun t ht => hsteps t (mem_cons_of_mem _ ht)) s'⟩⟩

theorem tlvForeach_step_runs (hstart : ∀ tlv, start = some tlv → Header fw tlv)
    {r : Unit ⊕ Option Nat × Unit} :
    (tlvForeach fw stepBody count start ()).Runs r ↔
      (∀ tlv ∈ walk fw count start, StepOk fw tlv) ∧
        r = if (walk fw count start).length = count then .inr (walkEnd fw count start, ())
          else .inl () := by
  induction count generalizing start with
  | zero => simp [tlvForeach, walk, walkEnd, eq_comm]
  | succ count ih =>
    cases start with
    | none => simp [tlvForeach, stepBody, walk, eq_comm]
    | some tlv =>
      have htlv := hstart tlv rfl
      simp only [tlvForeach, stepBody, pure_bind, runs_bind, tlvNext_runs htlv, walk, walkEnd,
        mem_cons, forall_eq_or_imp, length_cons, Nat.add_right_cancel_iff]
      constructor
      · rintro ⟨_, ⟨hstep, rfl⟩, hrest⟩
        obtain ⟨hsteps, hr⟩ := (ih fun _ => header_of_nextPos).mp hrest
        exact ⟨⟨hstep, hsteps⟩, hr⟩
      · rintro ⟨⟨hstep, hsteps⟩, hr⟩
        exact ⟨_, ⟨hstep, rfl⟩, (ih fun _ => header_of_nextPos).mpr ⟨hsteps, hr⟩⟩

theorem loopSafe_step_iff {tlvs : List Nat} :
    LoopSafe fw stepBody tlvs () ↔ ∀ tlv ∈ tlvs, StepOk fw tlv := by
  induction tlvs with
  | nil => exact iff_of_true trivial fun _ h => by cases h
  | cons tlv tlvs ih => simp [LoopSafe, stepBody, Safe, ih]

theorem tlvForeach_step_safe (hstart : ∀ tlv, start = some tlv → Header fw tlv) :
    Safe fw (tlvForeach fw stepBody count start ()) ↔
      ∀ tlv ∈ walk fw count start, StepOk fw tlv :=
  (tlvForeach_safe (fun _ => ⟨(), rfl⟩) hstart ()).trans loopSafe_step_iff

theorem tlvAdvance_runs (hstart : ∀ tlv, start = some tlv → Header fw tlv) {r : Option Nat} :
    (tlvAdvance fw start count).Runs r ↔
      (∀ tlv ∈ walk fw count start, StepOk fw tlv) ∧ r = walkEnd fw count start := by
  unfold tlvAdvance
  simp only [runs_bind, tlvForeach_step_runs hstart]
  by_cases hlen : (walk fw count start).length = count
  · simp [hlen, eq_comm]
  · simp [hlen, walkEnd_of_short hlen, eq_comm]

theorem tlvAdvance_safe (hstart : ∀ tlv, start = some tlv → Header fw tlv) :
    Safe fw (tlvAdvance fw start count) ↔ ∀ tlv ∈ walk fw count start, StepOk fw tlv := by
  unfold tlvAdvance
  rw [Safe, safe_bind, ← Safe, tlvForeach_step_safe hstart, and_iff_left]
  rintro (r | r) -
  all_goals exact safe_pure

/-! ## Children -/

section

variable (fw) (multi : Nat)

/-- The children of a multi-part TLV. -/
def children : List Nat := walk fw (be16At fw multi + 1) (tlvMultiChild fw multi)

def childrenOf (type : TlvType) : List Nat :=
  (children fw multi).filter fun tlv => tlvType fw tlv = type.code

/-- The loop over the children ends after the last one, and every step in it is safe. -/
structure ChildrenOk : Prop where
  inside : multi + 1 < fw.length
  ends : be16At fw multi + 1 < 2 ^ 16
  all : (children fw multi).length = be16At fw multi + 1
  steps : ∀ tlv ∈ children fw multi, StepOk fw tlv

/-- The iterations of a loop over the children. -/
abbrev iterations (fuel : Nat) : Nat :=
  if 2 ^ 16 ≤ be16At fw multi + 1 then fuel else be16At fw multi + 1

/-- The steps from the children that the loop meets are safe; `fuel` is how far it is followed if
it has no end. -/
def ChildrenSafe (fuel : Nat) : Prop :=
  multi + 1 < fw.length ∧
    ∀ tlv ∈ walk fw (iterations fw multi fuel) (tlvMultiChild fw multi), StepOk fw tlv

variable {fw multi} {fuel : Nat}

theorem header_of_tlvMultiChild (tlv : Nat) (h : tlvMultiChild fw multi = some tlv) :
    Header fw tlv := header_of_tlvGet h

theorem header_of_mem_children {tlv : Nat} (h : tlv ∈ children fw multi) : Header fw tlv :=
  header_of_mem_walk header_of_tlvMultiChild h

theorem tlvMultiForeach_runs {β σ : Type} {body : Option Nat → σ → Parse (β ⊕ σ)} {s : σ}
    {r : β ⊕ σ} : (tlvMultiForeach fuel fw body multi s).Runs r ↔
      multi + 1 < fw.length ∧ ∃ r', (tlvForeach fw body (iterations fw multi fuel)
        (tlvMultiChild fw multi) s).Runs r' ∧ r = r'.map id Prod.snd ∧
          (r'.isRight → be16At fw multi + 1 < 2 ^ 16) := by
  unfold tlvMultiForeach iterations
  by_cases hin : multi + 1 < fw.length
  · simp only [load16_of_lt hin, pure_bind, runs_bind, hin, true_and]
    refine exists_congr fun r' => and_congr_right fun _ => ?_
    rcases r' with b | ⟨stop, t⟩
    · simp [eq_comm]
    · show Runs (if 2 ^ 16 ≤ be16At fw multi + 1 then Traced.stop Stop.fuel
        else pure (Sum.inr t)) r ↔ r = Sum.inr t ∧ (true = true → be16At fw multi + 1 < 2 ^ 16)
      by_cases hends : 2 ^ 16 ≤ be16At fw multi + 1
      · rw [if_pos hends]
        exact iff_of_false runs_stop fun h => Nat.not_lt_of_le hends (h.2 rfl)
      · rw [if_neg hends, runs_pure, eq_comm]
        exact (and_iff_left fun _ => Nat.lt_of_not_le hends).symm
  · constructor
    · intro h
      obtain ⟨_, hload, -⟩ := runs_bind.mp h
      exact absurd (load16_runs.mp hload).1 hin
    · exact fun h => absurd h.1 hin

theorem tlvMultiForeach_safe {β σ : Type} {body : Option Nat → σ → Parse (β ⊕ σ)}
    (hnone : ∀ s, ∃ b, body none s = pure (.inl b)) {s : σ} :
    Safe fw (tlvMultiForeach fuel fw body multi s) ↔ multi + 1 < fw.length ∧
      LoopSafe fw body (walk fw (iterations fw multi fuel) (tlvMultiChild fw multi)) s := by
  unfold tlvMultiForeach iterations
  rw [Safe, safe_bind, ← Safe, load16_safe]
  refine and_congr_right fun hin => ?_
  constructor
  · intro h
    have hloop := h _ (load16_runs.mpr ⟨hin, rfl⟩)
    rw [safe_bind, ← Safe, tlvForeach_safe hnone header_of_tlvMultiChild] at hloop
    exact hloop.1
  · intro h n hn
    obtain ⟨-, rfl⟩ := load16_runs.mp hn
    refine safe_bind.mpr ⟨(tlvForeach_safe hnone header_of_tlvMultiChild s).mpr h, ?_⟩
    rintro (b | ⟨stop, t⟩) -
    · exact safe_pure
    · show Traced.Safe _ _ (if _ then _ else _)
      split
      · exact safe_stop.mpr fun hne => hne rfl
      · exact safe_pure

/-- A loop that ends is the loop over the children. -/
theorem ChildrenOk.foreach_runs (h : ChildrenOk fw multi) {β σ : Type}
    {body : Option Nat → σ → Parse (β ⊕ σ)} {s : σ} {r' : β ⊕ Option Nat × σ}
    (hr : (tlvForeach fw body (be16At fw multi + 1) (tlvMultiChild fw multi) s).Runs r') :
    (tlvMultiForeach fuel fw body multi s).Runs (r'.map id Prod.snd) := by
  refine tlvMultiForeach_runs.mpr ⟨h.inside, r', ?_, rfl, fun _ => h.ends⟩
  rw [iterations, if_neg (Nat.not_le_of_lt h.ends)]
  exact hr

theorem ChildrenOk.foreach_safe (h : ChildrenOk fw multi) {β σ : Type}
    {body : Option Nat → σ → Parse (β ⊕ σ)} (hnone : ∀ s, ∃ b, body none s = pure (.inl b))
    (hbody : ∀ tlv, Header fw tlv → ∀ s, Safe fw (body (some tlv) s)) (s : σ) :
    Safe fw (tlvMultiForeach fuel fw body multi s) := by
  refine (tlvMultiForeach_safe hnone).mpr ⟨h.inside, ?_⟩
  rw [iterations, if_neg (Nat.not_le_of_lt h.ends)]
  exact loopSafe_of_steps (fun tlv htlv => hbody tlv (header_of_mem_children htlv)) h.steps s

/-- `mlxfw_mfa2_tlv_multi_validate` passes a multi-part TLV exactly if its children are in
order. -/
theorem tlvMultiValidate_runs :
    (tlvMultiValidate fuel fw multi).Runs true ↔ ChildrenOk fw multi := by
  unfold tlvMultiValidate
  rw [runs_bind]
  constructor
  · rintro ⟨r, hr, hval⟩
    cases r with
    | inl u => simp at hval
    | inr u =>
      obtain ⟨hin, r', hloop, hr', hends⟩ := tlvMultiForeach_runs.mp hr
      obtain ⟨hsteps, rfl⟩ := (tlvForeach_step_runs header_of_tlvMultiChild).mp hloop
      by_cases hlen : (walk fw (iterations fw multi fuel) (tlvMultiChild fw multi)).length =
          iterations fw multi fuel
      · rw [if_pos hlen] at hends
        have hcount : iterations fw multi fuel = be16At fw multi + 1 :=
          if_neg (Nat.not_le_of_lt (hends rfl))
        rw [hcount] at hlen hsteps
        exact ⟨hin, hends rfl, hlen, hsteps⟩
      · rw [if_neg hlen] at hr'
        cases hr'
  · intro h
    have hloop := (tlvForeach_step_runs header_of_tlvMultiChild).mpr ⟨h.steps, rfl⟩
    have hall : (walk fw (be16At fw multi + 1) (tlvMultiChild fw multi)).length =
        be16At fw multi + 1 := h.all
    rw [if_pos hall] at hloop
    exact ⟨_, h.foreach_runs hloop, runs_pure.mpr rfl⟩

theorem tlvMultiValidate_safe :
    Safe fw (tlvMultiValidate fuel fw multi) ↔ ChildrenSafe fw multi fuel := by
  unfold tlvMultiValidate ChildrenSafe
  rw [Safe, safe_bind, ← Safe, tlvMultiForeach_safe fun _ => ⟨(), rfl⟩, loopSafe_step_iff,
    and_iff_left]
  rintro (u | u) -
  all_goals exact safe_pure

/-- The child that `mlxfw_mfa2_tlv_multi_child_find` finds, with `skip` of its type passed. -/
theorem childFind_runs (type : TlvType) {index : Nat} (hindex : index < 2 ^ 16) {count : Nat}
    {start : Option Nat} (hstart : ∀ tlv, start = some tlv → Header fw tlv)
    (hall : (walk fw count start).length = count)
    (hsteps : ∀ tlv ∈ walk fw count start, StepOk fw tlv) {skip : Nat} (hskip : skip ≤ index) :
    ∃ r, (tlvForeach fw (childFindBody fw type index) count start skip).Runs r ∧
      (r.elim id fun _ => none) =
        ((walk fw count start).filter fun tlv => tlvType fw tlv = type.code)[index - skip]? := by
  induction count generalizing start skip with
  | zero => exact ⟨.inr (start, skip), runs_pure.mpr rfl, rfl⟩
  | succ count ih =>
    cases start with
    | none => cases hall
    | some tlv =>
      have htlv := hstart tlv rfl
      have htype : load8 fw (tlv + 1) = pure (tlvType fw tlv) :=
        load8_of_lt (by have := htlv.2; omega)
      have hnext := (tlvNext_runs htlv).mpr ⟨hsteps tlv mem_cons_self, rfl⟩
      have hrest := fun (skip : Nat) (hskip : skip ≤ index) => ih (fun _ => header_of_nextPos)
        (Nat.succ.inj hall) (fun t ht => hsteps t (mem_cons_of_mem _ ht)) hskip
      simp only [tlvForeach, childFindBody, htype, pure_bind, walk]
      by_cases hmatch : tlvType fw tlv = type.code
      · rw [if_pos hmatch, filter_cons_of_pos (by simpa using hmatch)]
        by_cases hfound : skip = index
        · refine ⟨.inl (some tlv), ?_, ?_⟩
          all_goals simp [hfound]
        · have hlt : skip < index := Nat.lt_of_le_of_ne hskip hfound
          obtain ⟨r, hr, heq⟩ := hrest (skip + 1) hlt
          refine ⟨r, ?_, ?_⟩
          · rw [if_neg hfound, Nat.mod_eq_of_lt (Nat.lt_of_le_of_lt hlt hindex)]
            simpa [runs_bind_of hnext] using hr
          · rw [heq, show index - skip = index - (skip + 1) + 1 by omega, List.getElem?_cons_succ]
      · rw [if_neg hmatch, filter_cons_of_neg (by simpa using hmatch)]
        obtain ⟨r, hr, heq⟩ := hrest skip hskip
        refine ⟨r, ?_, heq⟩
        simpa [runs_bind_of hnext] using hr

theorem ChildrenOk.childFind (h : ChildrenOk fw multi) (type : TlvType) {index : Nat}
    (hindex : index < 2 ^ 16) : (tlvMultiChildFind fuel fw multi type index).Runs
      (childrenOf fw multi type)[index]? := by
  obtain ⟨r, hr, heq⟩ := childFind_runs type hindex header_of_tlvMultiChild h.all h.steps
    (Nat.zero_le index)
  unfold tlvMultiChildFind
  rw [runs_bind_of (h.foreach_runs hr)]
  rw [Nat.sub_zero] at heq
  rw [childrenOf, children, ← heq]
  rcases r with tlv | ⟨stop, skip⟩
  all_goals exact runs_pure.mpr rfl

theorem ChildrenOk.childFind_safe (h : ChildrenOk fw multi) (type : TlvType) (index : Nat) :
    Safe fw (tlvMultiChildFind fuel fw multi type index) := by
  refine safe_bind.mpr ⟨h.foreach_safe (fun _ => ⟨none, rfl⟩) (fun tlv htlv skip => ?_) 0, ?_⟩
  · simp only [childFindBody, load8_of_lt (show tlv + 1 < fw.length by have := htlv.2; omega),
      pure_bind]
    split
    · split
      all_goals exact safe_pure
    · exact safe_pure
  · rintro (tlv | skip) -
    all_goals exact safe_pure

theorem childCount_goes (type : TlvType) {tlvs : List Nat} (htlvs : ∀ tlv ∈ tlvs, Header fw tlv)
    (hsteps : ∀ tlv ∈ tlvs, StepOk fw tlv) {count : Nat} (hcount : count + tlvs.length < 2 ^ 16) :
    LoopGoes fw (childCountBody fw type) tlvs count
      (count + (tlvs.filter fun tlv => tlvType fw tlv = type.code).length) := by
  induction tlvs generalizing count with
  | nil => rfl
  | cons tlv tlvs ih =>
    have htype : load8 fw (tlv + 1) = pure (tlvType fw tlv) :=
      load8_of_lt (by have := (htlvs tlv mem_cons_self).2; omega)
    have hrest := fun (n : Nat) (hn : n + tlvs.length < 2 ^ 16) =>
      ih (fun t ht => htlvs t (mem_cons_of_mem _ ht))
        (fun t ht => hsteps t (mem_cons_of_mem _ ht)) hn
    rw [length_cons] at hcount
    simp only [LoopGoes, childCountBody, htype, pure_bind]
    by_cases hmatch : tlvType fw tlv = type.code
    · refine ⟨count + 1, ?_, hsteps tlv mem_cons_self, ?_⟩
      · rw [if_pos hmatch, Nat.mod_eq_of_lt (by omega), runs_pure]
      · have hgo := hrest (count + 1) (by omega)
        rw [filter_cons_of_pos (by simpa using hmatch), length_cons]
        rwa [Nat.add_assoc, Nat.add_comm 1] at hgo
    · refine ⟨count, ?_, hsteps tlv mem_cons_self, ?_⟩
      · rw [if_neg hmatch, runs_pure]
      · rw [filter_cons_of_neg (by simpa using hmatch)]
        exact hrest count (by omega)

theorem ChildrenOk.childCount (h : ChildrenOk fw multi) (type : TlvType) :
    (tlvMultiChildCount fuel fw multi type).Runs (some (childrenOf fw multi type).length) := by
  have hcount : 0 + (children fw multi).length < 2 ^ 16 := by
    rw [h.all, Nat.zero_add]
    exact h.ends
  have hgo := childCount_goes type (fun _ => header_of_mem_children) h.steps hcount
  rw [Nat.zero_add] at hgo
  have hloop := (tlvForeach_goes (fun _ => ⟨(), rfl⟩) header_of_tlvMultiChild).mpr
    ⟨h.all, rfl, hgo⟩
  unfold tlvMultiChildCount
  rw [runs_bind_of (h.foreach_runs hloop)]
  exact runs_pure.mpr rfl

theorem ChildrenOk.childCount_safe (h : ChildrenOk fw multi) (type : TlvType) :
    Safe fw (tlvMultiChildCount fuel fw multi type) := by
  refine safe_bind.mpr ⟨h.foreach_safe (fun _ => ⟨(), rfl⟩) (fun tlv htlv count => ?_) 0, ?_⟩
  · simp only [childCountBody, load8_of_lt (show tlv + 1 < fw.length by have := htlv.2; omega),
      pure_bind]
    split
    all_goals exact safe_pure
  · rintro (u | count) -
    all_goals exact safe_pure

end

end Mlxfw
