-- SUMMARY: When the mlx4 multicast attach reports what it did.
import OfaKernel.Mlx4.AttachOutcomes

/-!
# What an attach reports

The outcome of the steering entries takes the place of the error that led to `out`. So an attach
reports the truth when both parts succeed or both fail: `AttachOk`.
-/

open List

namespace Mlx4

open HashChain McgState

variable {caps : McgCaps} {s s' : McgState} {chain : Nat → List Nat} {env : AttachEnv}

/-! ## Lookup -/

/-- The result of `find_entry` when the reads succeed. -/
def Found.lookup : Found → Lookup
  | .entry mgm prev index => .entry mgm prev index
  | .zeroMgid index => .failed (some index) .einval
  | .running => .failed none .running

/-- The walk fails with a read, or it is the walk without failures. -/
theorem lookupLoop_eq (read : Nat → Option Nat) (mem : Nat → Mgm) (hash : Nat) (gid : Gid)
    (prot : Protocol) (fuel n index : Nat) (prev : Option Nat) :
    (∃ i e, lookupLoop read mem hash gid prot fuel n index prev = .failed (some i) (.cmd e)) ∨
      lookupLoop read mem hash gid prot fuel n index prev =
        (findEntryLoop mem hash gid prot fuel index prev).lookup := by
  induction fuel generalizing n index prev with
  | zero => exact .inr rfl
  | succ fuel ih =>
    unfold lookupLoop findEntryLoop
    cases hread : read n with
    | some e => exact .inl ⟨index, e, rfl⟩
    | none =>
      dsimp only
      split
      next =>
        right
        split <;> rfl
      next =>
        split
        next => exact .inr rfl
        next =>
          split
          next => exact .inr rfl
          next => exact ih (n + 1) (mem index).next (some index)

/-- What a lookup in an intact table gives. -/
theorem lookup_cases (h : Table caps s chain) (env : AttachEnv) (gid : Gid) (prot : Protocol) :
    (∃ e, lookup caps env s gid prot = .failed none e) ∨
      (∃ i e, lookup caps env s gid prot = .failed (some i) e) ∨
      ∃ mgm prev index, lookup caps env s gid prot = .entry mgm prev index ∧
        findEntry caps s gid prot = .entry mgm prev index ∧
        FindSpec caps s chain (gid, prot.val) (.entry mgm prev index) := by
  unfold lookup
  cases env.hashMailbox with
  | false => exact .inl ⟨_, rfl⟩
  | true =>
    cases env.gidHash with
    | some e => exact .inl ⟨_, rfl⟩
    | none =>
      right
      have hspec := findEntry_spec h gid prot
      rcases lookupLoop_eq env.findRead s.mem (caps.hash (gid, prot.val)) gid prot
        (caps.numAmgms + 1) 0 (caps.hash (gid, prot.val)) none with ⟨i, e, heq⟩ | heq
      · exact .inl ⟨i, _, heq⟩
      · right
        unfold findEntry at hspec ⊢
        rw [heq]
        generalize findEntryLoop s.mem (caps.hash (gid, prot.val)) gid prot (caps.numAmgms + 1)
          (caps.hash (gid, prot.val)) none = found at hspec
        cases found with
        | entry mgm prev index => exact ⟨mgm, prev, index, rfl, rfl, hspec⟩
        | zeroMgid | running => cases hspec

theorem foundMembers_congr (hmem : s'.mem = s.mem) (gid : Gid) (prot : Protocol) :
    foundMembers caps s' gid prot = foundMembers caps s gid prot := by
  unfold foundMembers findEntry
  rw [hmem]

theorem foundMembers_stored (h : Table caps s chain) {gid : Gid} {prot : Protocol} {i : Nat}
    {l : List Nat} (hi : StoredAt caps s chain i (gid, prot.val) l) :
    foundMembers caps s gid prot = l := by
  obtain ⟨l', rest, -, hfound⟩ := findEntry_stored h hi
  unfold foundMembers
  rw [hfound]
  exact hi.members_eq

theorem foundMembers_none (h : Table caps s chain) {gid : Gid} {prot : Protocol}
    (hnone : ∀ i l, ¬ StoredAt caps s chain i (gid, prot.val) l) :
    foundMembers caps s gid prot = [] := by
  have hspec := findEntry_spec h gid prot
  unfold foundMembers
  generalize findEntry caps s gid prot = found at hspec
  cases hspec with
  | hit hc hi => exact absurd hi (hnone _ _)
  | empty hz => exact Mgm.members_of_count (Mgm.content_eq_none.mp hz)
  | missing => rfl

theorem mem_foundMembers (h : Table caps s chain) {gid : Gid} {prot : Protocol} {q : Nat} :
    q ∈ foundMembers caps s gid prot ↔
      ∃ i l, StoredAt caps s chain i (gid, prot.val) l ∧ q ∈ l := by
  constructor
  · intro hq
    by_cases hnone : ∀ i l, ¬ StoredAt caps s chain i (gid, prot.val) l
    · rw [foundMembers_none h hnone] at hq
      cases hq
    · push Not at hnone
      obtain ⟨i, l, hi⟩ := hnone
      rw [foundMembers_stored h hi] at hq
      exact ⟨i, l, hi, hq⟩
  · rintro ⟨i, l, hi, hq⟩
    rw [foundMembers_stored h hi]
    exact hq

/-- A table stays one when nothing changes in its chains and its bitmap. -/
theorem Table.of_linked (h : Table caps s chain) (hamgms : Amgms caps s'.bitmap)
    (hmem : ∀ b < caps.numMgms, ∀ i ∈ chain b, s'.mem i = s.mem i)
    (hbitmap : ∀ a, s'.bitmap.table a = s.bitmap.table a) :
    Table caps s' chain ∧
      ∀ i k l, StoredAt caps s' chain i k l ↔ StoredAt caps s chain i k l := by
  have hat (i : Nat) (k : Gid × Nat) (l : List Nat) :
      StoredAt caps s' chain i k l ↔ StoredAt caps s chain i k l := by
    refine and_congr_right fun hi => ?_
    simp only [hmem _ (caps.hash_lt k) i hi]
  refine ⟨⟨h.chains.of_linked ?_ ?_ ?_, hamgms,
    fun i k l hi => h.members i k l ((hat i k l).mp hi)⟩,
    hat⟩
  · intro b hb i hi
    simp only [hmem b hb i hi]
  · intro b hb i hi
    simp only [hmem b hb i hi]
  · intro a
    simp only [hbitmap a]

theorem Unchanged.of_linked (h : Table caps s chain) (hamgms : Amgms caps s'.bitmap)
    (hmem : ∀ b < caps.numMgms, ∀ i ∈ chain b, s'.mem i = s.mem i)
    (hbitmap : ∀ a, s'.bitmap.table a = s.bitmap.table a) : Unchanged caps s s' := by
  obtain ⟨h', hat⟩ := h.of_linked hamgms hmem hbitmap
  refine ⟨fun gid prot q => ?_, fun b hb i hi => ?_, hbitmap⟩
  · rw [mem_foundMembers h', mem_foundMembers h]
    simp only [hat]
  · rw [hmem b hb i ((h.chains.reach_iff hb).mp hi)]

theorem Unchanged.refl (caps : McgCaps) (s : McgState) : Unchanged caps s s :=
  ⟨fun _ _ _ => Iff.rfl, fun _ _ _ _ => rfl, fun _ => rfl⟩

/-! ## Steering entries -/

def ExistingSteers (caps : McgCaps) (env : AttachEnv) (port : Nat) (t : Steer) (index qpn : Nat) :
    Prop :=
  ¬ badPort caps port ∧
    (qpn ∈ t.promiscQps → ∃ entry ∈ t.steerEntries.find? (·.index = index),
      qpn ∈ entry.duplicates ∨ env.duplicate = true)

instance (caps : McgCaps) (env : AttachEnv) (port : Nat) (t : Steer) (index qpn : Nat) :
    Decidable (ExistingSteers caps env port t index qpn) :=
  inferInstanceAs (Decidable (_ ∧ (_ → _)))

/-- What `new_steering_entry` needs to succeed when it reads the entry `mgm`. -/
def NewSteers (caps : McgCaps) (env : AttachEnv) (port : Nat) (t : Steer) (mgm : Mgm) (qpn : Nat) :
    Prop :=
  ¬ badPort caps port ∧ env.newEntry = true ∧ (qpn ∈ t.promiscQps → env.duplicate = true) ∧
    (t.promiscQps = [] ∨ env.steerMailbox = true ∧ env.steerRead = none ∧
      (addPromiscQps caps qpn mgm t.promiscQps).isSome ∧ env.steerWrite = none)

instance (caps : McgCaps) (env : AttachEnv) (port : Nat) (t : Steer) (mgm : Mgm) (qpn : Nat) :
    Decidable (NewSteers caps env port t mgm qpn) :=
  inferInstanceAs (Decidable (_ ∧ _ ∧ (_ → _) ∧ _))

section

variable {port index qpn : Nat} {st : SteerType}

/-- A change of the steering entries alone. -/
structure SteersOnly (s s' : McgState) : Prop where
  mem : s'.mem = s.mem
  bitmap : s'.bitmap = s.bitmap
  promisc : ∀ port st, (s'.steer port st).promiscQps = (s.steer port st).promiscQps

theorem SteersOnly.refl (s : McgState) : SteersOnly s s := ⟨rfl, rfl, fun _ _ => rfl⟩

theorem withEntries_promisc (s : McgState) (port : Nat) (st : SteerType) (es : List SteerIndex)
    (port' : Nat) (st' : SteerType) :
    ((s.setSteer port st ((s.steer port st).withEntries es)).steer port' st').promiscQps =
      (s.steer port' st').promiscQps := by
  unfold McgState.setSteer
  by_cases hport : port' = port
  · subst hport
    by_cases hst : st' = st
    · subst hst
      simp only [Function.update_self]
      rfl
    · simp [Function.update_of_ne hst]
  · simp only [Function.update_of_ne hport]

theorem steersOnly_withEntries (s : McgState) (port : Nat) (st : SteerType) (es : List SteerIndex) :
    SteersOnly s (s.setSteer port st ((s.steer port st).withEntries es)) :=
  ⟨rfl, rfl, withEntries_promisc s port st es⟩

theorem updateEntry_isSome {f : List Nat → List Nat} {i : Nat} {es : List SteerIndex}
    {entry : SteerIndex} (h : es.find? (·.index = i) = some entry) :
    ∃ es', updateEntry f i es = some es' := by
  induction es with
  | nil => cases h
  | cons e es ih =>
    unfold updateEntry
    split
    next => exact ⟨_, rfl⟩
    next he =>
      rw [List.find?_cons_of_neg (by simpa using he)] at h
      obtain ⟨es', hes⟩ := ih h
      exact ⟨e :: es', by rw [hes]; rfl⟩

/-- `existing_steering_entry` succeeds with a change of the entries, or fails with none. -/
theorem existingSteering_spec (caps : McgCaps) (env : AttachEnv) (s : McgState) (port : Nat)
    (st : SteerType) (index qpn : Nat) :
    (ExistingSteers caps env port (s.steer port st) index qpn ∧
        (existingSteering caps env s port st index qpn).2 = none ∧
        SteersOnly s (existingSteering caps env s port st index qpn).1) ∨
      (¬ ExistingSteers caps env port (s.steer port st) index qpn ∧
        ∃ e, existingSteering caps env s port st index qpn = (s, some e)) := by
  unfold existingSteering ExistingSteers
  by_cases hport : badPort caps port
  · exact .inr ⟨fun h => h.1 hport, _, by rw [if_pos hport]⟩
  rw [if_neg hport]
  by_cases hp : isPromisc s port st qpn = true
  · have hmem := isPromisc_iff.mp hp
    rw [hp]
    simp only [Bool.not_true, Bool.false_eq_true, if_false]
    cases hfind : (s.steer port st).steerEntries.find? (·.index = index) with
    | none =>
      refine .inr ⟨fun h => ?_, _, rfl⟩
      obtain ⟨entry, hentry, -⟩ := h.2 hmem
      cases hentry
    | some entry =>
      dsimp only
      by_cases hdup : entry.duplicates.contains qpn = true
      · rw [if_pos hdup]
        exact .inl ⟨⟨hport, fun _ => ⟨entry, rfl, .inl (by simpa using hdup)⟩⟩, rfl, .refl s⟩
      · rw [if_neg hdup]
        by_cases halloc : env.duplicate = true
        · obtain ⟨es', hes⟩ := @updateEntry_isSome (· ++ [qpn]) _ _ _ hfind
          rw [halloc, hes]
          exact .inl ⟨⟨hport, fun _ => ⟨entry, rfl, .inr rfl⟩⟩, rfl,
            steersOnly_withEntries s port st es'⟩
        · refine .inr ⟨fun h => ?_, _, by rw [if_pos (by simpa using halloc)]⟩
          obtain ⟨entry', hentry, hor⟩ := h.2 hmem
          obtain rfl := Option.some.inj hentry
          exact hor.elim (fun hd => hdup (by simpa using hd)) halloc
  · have hmem : qpn ∉ (s.steer port st).promiscQps := fun hm => hp (isPromisc_iff.mpr hm)
    rw [Bool.not_eq_true] at hp
    rw [hp]
    exact .inl ⟨⟨hport, fun hm => absurd hm hmem⟩, rfl, .refl s⟩

/-- `new_steering_entry` succeeds as it does without failures, or fails with no change. -/
theorem newSteering_spec (caps : McgCaps) (env : AttachEnv) (s : McgState) (port : Nat)
    (st : SteerType) (index qpn : Nat) :
    (NewSteers caps env port (s.steer port st) (s.mem index) qpn ∧
        (newSteering caps env s port st index qpn).2 = none ∧
        newSteeringEntry caps s port st index qpn =
          ((newSteering caps env s port st index qpn).1, none)) ∨
      (¬ NewSteers caps env port (s.steer port st) (s.mem index) qpn ∧
        ∃ e, newSteering caps env s port st index qpn = (s, some e)) := by
  unfold newSteering newSteeringEntry NewSteers
  by_cases hport : badPort caps port
  · exact .inr ⟨fun h => h.1 hport, _, by rw [if_pos hport]⟩
  simp only [if_neg hport]
  by_cases hnew : env.newEntry = true
  swap
  · exact .inr ⟨fun h => hnew h.2.1, _, by rw [if_pos (by simpa using hnew)]⟩
  simp only [hnew, Bool.not_true, Bool.false_eq_true, if_false]
  by_cases hdup : (isPromisc s port st qpn && !env.duplicate) = true
  · refine .inr ⟨fun h => ?_, _, by rw [if_pos hdup]⟩
    simp only [Bool.and_eq_true, Bool.not_eq_true'] at hdup
    have hyes := h.2.2.1 (isPromisc_iff.mp hdup.1)
    rw [hdup.2] at hyes
    cases hyes
  rw [if_neg hdup]
  have hdup' : qpn ∈ (s.steer port st).promiscQps → env.duplicate = true := by
    intro hm
    by_contra hno
    exact hdup (by simp [isPromisc_iff.mpr hm, hno])
  by_cases hnil : (s.steer port st).promiscQps = []
  · simp only [if_pos hnil]
    exact .inl ⟨⟨hport, trivial, hdup', .inl hnil⟩, trivial, trivial⟩
  simp only [if_neg hnil]
  by_cases hmailbox : env.steerMailbox = true
  swap
  · refine .inr ⟨fun h => ?_, _, by rw [if_pos (by simpa using hmailbox)]⟩
    exact hmailbox (h.2.2.2.resolve_left hnil).1
  simp only [hmailbox, Bool.not_true, Bool.false_eq_true, if_false]
  cases hread : env.steerRead with
  | some e => exact .inr ⟨fun h => absurd (h.2.2.2.resolve_left hnil).2.1 (by simp), _, rfl⟩
  | none =>
    cases hadd : addPromiscQps caps qpn (s.mem index) (s.steer port st).promiscQps with
    | none => exact .inr ⟨fun h => absurd (h.2.2.2.resolve_left hnil).2.2.1 (by simp), _, rfl⟩
    | some mgm =>
      cases hwrite : env.steerWrite with
      | some e => exact .inr ⟨fun h => absurd (h.2.2.2.resolve_left hnil).2.2.2 (by simp), _, rfl⟩
      | none => exact .inl ⟨⟨hport, trivial, hdup', .inr ⟨trivial, rfl, rfl, rfl⟩⟩, rfl, rfl⟩

/-- What a new steering entry changes: the steering entries, and the members at its index. -/
theorem newSteeringEntry_some {s' : McgState}
    (h : newSteeringEntry caps s port st index qpn = (s', none)) :
    s'.bitmap = s.bitmap ∧
      (∀ port st, (s'.steer port st).promiscQps = (s.steer port st).promiscQps) ∧
      (∀ i, i ≠ index → s'.mem i = s.mem i) ∧
      (s'.mem index = s.mem index ∨
        addPromiscQps caps qpn (s.mem index) (s.steer port st).promiscQps =
          some (s'.mem index)) := by
  unfold newSteeringEntry at h
  split at h
  next => cases h
  next =>
    dsimp only at h
    split at h
    next =>
      obtain rfl := congrArg Prod.fst h
      exact ⟨rfl, withEntries_promisc _ _ _ _, fun _ _ => rfl, .inl rfl⟩
    next =>
      split at h
      next => cases h
      next mgm hadd =>
        obtain rfl := congrArg Prod.fst h
        refine ⟨rfl, withEntries_promisc _ _ _ _, fun i hi => ?_, .inr ?_⟩
        · rw [writeEntry_mem, if_neg hi]
          rfl
        · rw [writeEntry_mem, if_pos rfl]
          exact hadd

end

/-- Promiscuous QPs that were put into an entry had room in it. -/
theorem addPromiscQps_fit {q : Nat} {pqps : List Nat} {m m' : Mgm}
    (hlt : ∀ p ∈ pqps, p < 2 ^ 24) (hc : m.count ≤ caps.numQpPerMgm)
    (h : addPromiscQps caps q m pqps = some m') :
    m.count + (pqps.filter (· ≠ q)).length ≤ caps.numQpPerMgm := by
  have hle := caps.qp_le
  induction pqps generalizing m with
  | nil => exact hc
  | cons p pqps ih =>
    have hlt' : ∀ x ∈ pqps, x < 2 ^ 24 := fun x hx => hlt x (mem_cons_of_mem _ hx)
    rw [addPromiscQps] at h
    split at h
    next hp =>
      rw [filter_cons_of_neg (by simpa using hp)]
      exact ih hlt' hc h
    next hp =>
      split at h
      next => cases h
      next hfull =>
        have hcount : (m.push (p &&& mgmQpnMask) m.prot).count = m.count + 1 :=
          Mgm.packCount_and (by omega)
        have hrest := ih hlt' (by omega) h
        rw [filter_cons_of_pos (by simpa using hp), length_cons]
        omega

/-! ## What the label `out` makes of a point -/

/-- A call reports the truth exactly if `ok`, and then the table stays intact. -/
structure Reported (caps : McgCaps) (s : McgState) (qpn : Nat) (gid : Gid) (prot : Protocol)
    (ok : Prop) (r : McgState × Option AttachErr) : Prop where
  truthful : Truthful caps s qpn gid prot r ↔ ok
  table : ok → ∃ chain, Table caps r.1 chain
  promisc : ∀ port st, (r.1.steer port st).promiscQps = (s.steer port st).promiscQps

/-- A call that failed and left everything as it was. -/
theorem Reported.unchanged {qpn : Nat} {gid : Gid} {prot : Protocol} {ok : Prop} {e : AttachErr}
    (hu : Unchanged caps s s') (ht : ∃ chain, Table caps s' chain)
    (hp : ∀ port st, (s'.steer port st).promiscQps = (s.steer port st).promiscQps) (hok : ok) :
    Reported caps s qpn gid prot ok (s', some e) :=
  ⟨iff_of_true hu hok, fun _ => ht, hp⟩

/-- A call that succeeded and made the QP a member. -/
theorem Reported.attached {qpn : Nat} {gid : Gid} {prot : Protocol} {ok : Prop}
    (hm : qpn ∈ foundMembers caps s' gid prot) (ht : ∃ chain, Table caps s' chain)
    (hp : ∀ port st, (s'.steer port st).promiscQps = (s.steer port st).promiscQps) (hok : ok) :
    Reported caps s qpn gid prot ok (s', none) :=
  ⟨iff_of_true hm hok, fun _ => ht, hp⟩

/-- A call that did not report the truth. -/
theorem Reported.untrue {qpn : Nat} {gid : Gid} {prot : Protocol} {ok : Prop}
    {r : McgState × Option AttachErr} (hr : ¬ Truthful caps s qpn gid prot r)
    (hp : ∀ port st, (r.1.steer port st).promiscQps = (s.steer port st).promiscQps) (hok : ¬ ok) :
    Reported caps s qpn gid prot ok r :=
  ⟨iff_of_false hr hok, fun h => absurd h hok, hp⟩

/-- An error after the QP has become a member. -/
theorem not_truthful_err {qpn : Nat} {gid : Gid} {prot : Protocol} {e : AttachErr}
    (hnew : qpn ∈ foundMembers caps s' gid prot) (hold : qpn ∉ foundMembers caps s gid prot) :
    ¬ Truthful caps s qpn gid prot (s', some e) :=
  fun hu => hold ((Unchanged.members hu gid prot qpn).mp hnew)

section

variable {qpn port i : Nat} {gid : Gid} {prot : Protocol} {st : SteerType}

theorem attachReturn_unlinked (caps : McgCaps) (env : AttachEnv) (qpn port : Nat) (prot : Protocol)
    (st : SteerType) (s : McgState) (newEntry : Bool) (i : Nat) (err : Option AttachErr) :
    attachReturn caps env qpn port prot st ⟨s, newEntry, false, some i, err⟩ =
      if prot = .eth then
        if newEntry then newSteering caps env s port st i qpn
        else existingSteering caps env s port st i qpn
      else (s, err) := by
  unfold attachReturn
  simp

theorem attachReturn_linked (caps : McgCaps) (env : AttachEnv) (qpn port : Nat) (prot : Protocol)
    (st : SteerType) (s : McgState) (i : Nat) (err : Option AttachErr) :
    attachReturn caps env qpn port prot st ⟨s, true, true, some i, err⟩ =
      let r := if prot = .eth then newSteering caps env s port st i qpn else (s, err)
      if r.2.isSome then (freeAmgm caps r.1 i, r.2) else r := by
  unfold attachReturn
  simp

/-- The entry is there and the call has done nothing to it. -/
theorem reported_idle (h : Table caps s chain) (err : Option AttachErr)
    (hib : err = none → qpn ∈ foundMembers caps s gid prot) :
    Reported caps s qpn gid prot
      (prot = .eth → qpn ∈ foundMembers caps s gid prot ∨
        ¬ ExistingSteers caps env port (s.steer port st) i qpn)
      (attachReturn caps env qpn port prot st ⟨s, false, false, some i, err⟩) := by
  rw [attachReturn_unlinked]
  by_cases hprot : prot = .eth
  · rw [if_pos hprot]
    rcases existingSteering_spec caps env s port st i qpn with ⟨hex, hnone, hs⟩ | ⟨hex, e, heq⟩
    · generalize existingSteering caps env s port st i qpn = r at hnone hs
      obtain ⟨s', err'⟩ := r
      obtain rfl : err' = none := hnone
      have hfound := @foundMembers_congr caps _ _ hs.mem gid prot
      have htable : ∃ chain, Table caps s' chain :=
        ⟨chain, (h.of_linked (by rw [hs.bitmap]; exact h.amgms) (fun _ _ _ _ => by rw [hs.mem])
          (fun _ => by rw [hs.bitmap])).1⟩
      by_cases hq : qpn ∈ foundMembers caps s gid prot
      · exact .attached (by rw [hfound]; exact hq) htable hs.promisc fun _ => .inl hq
      · refine .untrue (fun hm => hq ?_) hs.promisc fun hok => ?_
        · rw [← hfound]
          exact hm
        · exact (hok hprot).elim hq (fun hno => hno hex)
    · rw [heq]
      exact .unchanged (.refl caps s) ⟨chain, h⟩ (fun _ _ => rfl) fun _ => .inr hex
  · rw [if_neg hprot]
    cases err with
    | none => exact .attached (hib rfl) ⟨chain, h⟩ (fun _ _ => rfl) fun he => absurd he hprot
    | some e =>
      exact .unchanged (.refl caps s) ⟨chain, h⟩ (fun _ _ => rfl) fun he => absurd he hprot

/-- The QP has been put into an entry that was there. -/
theorem reported_joined {k : Gid × Nat} {l : List Nat} (hk : k = (gid, prot.val))
    (hs : Stores caps s s' chain chain i k l) (hq : qpn ∈ l)
    (hold : qpn ∉ foundMembers caps s gid prot) :
    Reported caps s qpn gid prot
      (prot = .eth → ExistingSteers caps env port (s.steer port st) i qpn)
      (attachReturn caps env qpn port prot st ⟨s', false, false, some i, none⟩) := by
  subst hk
  rw [attachReturn_unlinked]
  have hm : qpn ∈ foundMembers caps s' gid prot := by
    rw [foundMembers_stored hs.table hs.stored]
    exact hq
  have hsteer (port : Nat) (st : SteerType) :
      (s'.steer port st).promiscQps = (s.steer port st).promiscQps := by rw [hs.steer]
  by_cases hprot : prot = .eth
  · rw [if_pos hprot]
    rcases existingSteering_spec caps env s' port st i qpn with ⟨hex, hnone, ho⟩ | ⟨hex, e, heq⟩
    · generalize existingSteering caps env s' port st i qpn = r at hnone ho
      obtain ⟨t, err'⟩ := r
      obtain rfl : err' = none := hnone
      rw [hs.steer] at hex
      refine .attached ?_ ⟨chain, (hs.table.of_linked (by rw [ho.bitmap]; exact hs.table.amgms)
        (fun _ _ _ _ => by rw [ho.mem]) (fun _ => by rw [ho.bitmap])).1⟩
        (fun port st => (ho.promisc port st).trans (hsteer port st)) fun _ => hex
      rw [foundMembers_congr ho.mem]
      exact hm
    · rw [heq]
      rw [hs.steer] at hex
      exact .untrue (not_truthful_err hm hold) hsteer fun hok => hex (hok hprot)
  · rw [if_neg hprot]
    exact .attached hm ⟨chain, hs.table⟩ hsteer fun he => absurd he hprot

/-- The promiscuous QPs of a port and steering type. -/
structure PromiscList (t : Steer) : Prop where
  nodup : t.promiscQps.Nodup
  lt : ∀ q ∈ t.promiscQps, q < 2 ^ 24

theorem freeAmgm_mem (caps : McgCaps) (s : McgState) (i : Nat) :
    (freeAmgm caps s i).mem = s.mem := by
  unfold freeAmgm
  split <;> rfl

theorem freeAmgm_steer (caps : McgCaps) (s : McgState) (i : Nat) :
    (freeAmgm caps s i).steer = s.steer := by
  unfold freeAmgm
  split <;> rfl

/-- A new entry has been made for the GID. -/
theorem reported_created {chain' : Nat → List Nat} {k : Gid × Nat} (hk : k = (gid, prot.val))
    (hs : Stores caps s s' chain chain' i k [qpn]) (hold : qpn ∉ foundMembers caps s gid prot)
    (hp : PromiscList (s.steer port st)) (link : Bool) :
    Reported caps s qpn gid prot
      (prot = .eth → NewSteers caps env port (s.steer port st) (s'.mem i) qpn)
      (attachReturn caps env qpn port prot st ⟨s', true, link, some i, none⟩) := by
  subst hk
  have hm : qpn ∈ foundMembers caps s' gid prot := by
    rw [foundMembers_stored hs.table hs.stored]
    exact mem_singleton_self qpn
  have hsteer (port : Nat) (st : SteerType) :
      (s'.steer port st).promiscQps = (s.steer port st).promiscQps := by rw [hs.steer]
  by_cases hprot : prot = .eth
  · rcases newSteering_spec caps env s' port st i qpn with ⟨hnew, hnone, heq⟩ | ⟨hnew, e, heq⟩
    · -- the promiscuous QPs had room
      rw [hs.steer] at hnew
      have hone : (s'.mem i).count = 1 := by
        rw [← Mgm.length_members, hs.stored.members_eq]
        rfl
      have hpos := caps.qp_pos
      have hfit : ((s'.steer port st).promiscQps.filter (· ≠ qpn)).length < caps.numQpPerMgm := by
        rw [hs.steer]
        rcases hnew.2.2.2 with hnil | ⟨-, -, hsome, -⟩
        · rw [hnil]
          exact hpos
        · obtain ⟨m', hadd⟩ := Option.isSome_iff_exists.mp hsome
          have hroom := addPromiscQps_fit hp.lt (by omega) hadd
          omega
      have hstored := hs.stored
      rw [hprot] at hstored
      obtain ⟨t, ht, htable, hat, -⟩ := newSteeringEntry_spec hnew.1 hs.table hstored
        (by rw [hs.steer]; exact hp.nodup) (by rw [hs.steer]; exact hp.lt) hfit
      have hresult : newSteering caps env s' port st i qpn = (t, none) := by
        rw [ht] at heq
        exact Prod.ext (congrArg Prod.fst heq).symm hnone
      have hreturn : attachReturn caps env qpn port prot st ⟨s', true, link, some i, none⟩ =
          (t, none) := by
        cases link with
        | false => rw [attachReturn_unlinked, if_pos hprot, if_pos rfl, hresult]
        | true =>
          rw [attachReturn_linked, if_pos hprot, hresult]
          rfl
      rw [hreturn]
      refine .attached ?_ ⟨chain', htable⟩ (fun port' st' => ?_) fun _ => hnew
      · rw [hprot, foundMembers_stored htable ((hat i _ _).mpr ⟨_, hstored, rfl⟩), if_pos rfl]
        exact mem_cons_self
      · exact ((newSteeringEntry_some ht).2.1 port' st').trans (hsteer port' st')
    · -- the error hides that the QP has become a member
      rw [hs.steer] at hnew
      cases link with
      | false =>
        rw [attachReturn_unlinked, if_pos hprot, if_pos rfl, heq]
        exact .untrue (not_truthful_err hm hold) hsteer fun hok => hnew (hok hprot)
      | true =>
        rw [attachReturn_linked, if_pos hprot, heq]
        refine .untrue (not_truthful_err ?_ hold) (fun port' st' => ?_) fun hok => hnew (hok hprot)
        · rw [foundMembers_congr (freeAmgm_mem caps s' i)]
          exact hm
        · simp only [Option.isSome_some, if_true, freeAmgm_steer]
          exact hsteer port' st'
  · have hreturn : attachReturn caps env qpn port prot st ⟨s', true, link, some i, none⟩ =
        (s', none) := by
      cases link with
      | false => rw [attachReturn_unlinked, if_neg hprot]
      | true =>
        rw [attachReturn_linked, if_neg hprot]
        rfl
    rw [hreturn]
    exact .attached hm ⟨chain', hs.table⟩ hsteer fun he => absurd he hprot

/-- The first entry of a chain of one does not have the QP. -/
theorem not_mem_foundMembers_of_first
    (hnext : (s.mem (caps.hash (gid, prot.val))).next = 0)
    (hq : qpn ∉ (s.mem (caps.hash (gid, prot.val))).members) :
    qpn ∉ foundMembers caps s gid prot := by
  unfold foundMembers findEntry findEntryLoop
  simp only [ne_eq, not_true, if_false, hnext, if_true]
  split
  next hzero =>
    split at hzero
    next =>
      cases hzero
      exact hq
    next =>
      split at hzero
      next =>
        cases hzero
        exact hq
      next => cases hzero
  next => exact not_mem_nil

/-- The bucket is free and has not been written. -/
theorem reported_bucket (h : Table caps s chain)
    (hz : (s.mem (caps.hash (gid, prot.val))).content = none)
    (hp : PromiscList (s.steer port st)) (e : AttachErr) :
    Reported caps s qpn gid prot
      (prot = .eth →
        ¬ NewSteers caps env port (s.steer port st) (s.mem (caps.hash (gid, prot.val))) qpn)
      (attachReturn caps env qpn port prot st
        ⟨s, true, false, some (caps.hash (gid, prot.val)), some e⟩) := by
  rw [attachReturn_unlinked]
  by_cases hprot : prot = .eth
  · rw [if_pos hprot, if_pos rfl]
    rcases newSteering_spec caps env s port st (caps.hash (gid, prot.val)) qpn with
      ⟨hnew, hnone, heq⟩ | ⟨hnew, e', heq⟩
    · generalize newSteering caps env s port st (caps.hash (gid, prot.val)) qpn = r at hnone heq
      obtain ⟨t, err⟩ := r
      obtain rfl : err = none := hnone
      obtain ⟨-, hpromisc, -, hmem⟩ := newSteeringEntry_some heq
      have hb := caps.hash_lt (gid, prot.val)
      have hzero := Mgm.content_eq_none.mp hz
      have hend : (s.mem (caps.hash (gid, prot.val))).next = 0 := by
        have hlinked := h.chains.linked _ hb
        rw [h.chains.empty _ hb hz] at hlinked
        exact hlinked.1
      refine .untrue (not_mem_foundMembers_of_first ?_ ?_) hpromisc fun hok => hok hprot hnew
      · rcases hmem with hmem | hadd
        · rw [hmem]
          exact hend
        · obtain ⟨m', hm', -, -, -, hn⟩ := addPromiscQps_spec (q := qpn) hp.lt
            (addPromiscQps_fit hp.lt (by omega) hadd)
          rw [hadd] at hm'
          rw [Option.some.inj hm', hn]
          exact hend
      · rcases hmem with hmem | hadd
        · rw [hmem, Mgm.members_of_count hzero]
          exact not_mem_nil
        · obtain ⟨m', hm', hmembers, -⟩ := addPromiscQps_spec (q := qpn) hp.lt
            (addPromiscQps_fit hp.lt (by omega) hadd)
          rw [hadd] at hm'
          rw [Option.some.inj hm', hmembers, Mgm.members_of_count hzero]
          simp
    · rw [heq]
      exact .unchanged (.refl caps s) ⟨chain, h⟩ (fun _ _ => rfl) fun _ => hnew
  · rw [if_neg hprot]
    exact .unchanged (.refl caps s) ⟨chain, h⟩ (fun _ _ => rfl) fun he => absurd he hprot

/-- An overflow entry has been taken and not been linked. -/
theorem reported_unlinked (h : Table caps s chain) {a : Nat} (hfree : s.bitmap.table a = false)
    (hmem : ∀ i, i ≠ caps.numMgms + a → s'.mem i = s.mem i) (hamgms : Amgms caps s'.bitmap)
    (htable : s'.bitmap.table = s.bitmap.table.setBit a) (hsteer : s'.steer = s.steer)
    (hnone : qpn ∉ foundMembers caps s gid prot) (e : AttachErr) :
    Reported caps s qpn gid prot
      (prot = .eth →
        ¬ NewSteers caps env port (s.steer port st) (s'.mem (caps.numMgms + a)) qpn)
      (attachReturn caps env qpn port prot st ⟨s', true, true, some (caps.numMgms + a),
        some e⟩) := by
  have hchain : ∀ b < caps.numMgms, ∀ i ∈ chain b, i ≠ caps.numMgms + a := by
    rintro b hb i hi rfl
    rw [(h.chains.used a).mpr ⟨b, hb, hi⟩] at hfree
    cases hfree
  -- the entry is free again
  have hfreed (e : AttachErr) (ok : Prop) (hok : ok) : Reported caps s qpn gid prot ok
      (freeAmgm caps s' (caps.numMgms + a), some e) := by
    have hused : s'.bitmap.table a = true := by
      rw [htable, Bitmap.setBit_eq_true]
      exact .inl rfl
    obtain ⟨hamgms', hfreed, hmem', hsteer'⟩ := freeAmgm_spec hamgms hused
    have hbitmap (j : Nat) :
        (freeAmgm caps s' (caps.numMgms + a)).bitmap.table j = s.bitmap.table j := by
      rw [Bool.eq_iff_iff, hfreed, htable, Bitmap.setBit_eq_true]
      constructor
      · rintro ⟨hj | hj, hne⟩
        · exact absurd (congrArg _ hj) hne
        · exact hj
      · intro hj
        refine ⟨.inr hj, fun he => ?_⟩
        obtain rfl : j = a := Nat.add_left_cancel he
        rw [hj] at hfree
        cases hfree
    have hlinked : ∀ b < caps.numMgms, ∀ i ∈ chain b,
        (freeAmgm caps s' (caps.numMgms + a)).mem i = s.mem i := by
      intro b hb i hi
      rw [hmem']
      exact hmem i (hchain b hb i hi)
    exact .unchanged (.of_linked h hamgms' hlinked hbitmap)
      ⟨chain, (h.of_linked hamgms' hlinked hbitmap).1⟩ (fun _ _ => by rw [hsteer', hsteer]) hok
  rw [attachReturn_linked]
  by_cases hprot : prot = .eth
  · rw [if_pos hprot]
    rcases newSteering_spec caps env s' port st (caps.numMgms + a) qpn with
      ⟨hnew, hok, heq⟩ | ⟨hnew, e', heq⟩
    · generalize newSteering caps env s' port st (caps.numMgms + a) qpn = r at hok heq
      obtain ⟨t, err⟩ := r
      obtain rfl : err = none := hok
      obtain ⟨-, hpromisc, hother, -⟩ := newSteeringEntry_some heq
      rw [hsteer] at hnew hpromisc
      refine .untrue (fun hm => hnone ?_) hpromisc fun hok => hok hprot hnew
      -- nothing in the chains has changed
      have hsame : Unchanged caps s { t with bitmap := s.bitmap } :=
        .of_linked h h.amgms (fun b hb i hi =>
          (hother i (hchain b hb i hi)).trans (hmem i (hchain b hb i hi))) fun _ => rfl
      rw [← hsame.members]
      exact hm
    · rw [heq]
      rw [hsteer] at hnew
      exact hfreed e' _ fun _ => hnew
  · rw [if_neg hprot]
    exact hfreed e _ fun he => absurd he hprot

theorem joined_stores (h : Table caps s chain) (hq : qpn < 2 ^ 24) (block : Bool)
    {prev : Option Nat}
    {ms : List Nat} (hfound : findEntry caps s gid prot = .entry (s.mem i) prev (some i))
    (hi : StoredAt caps s chain i (gid, prot.val) ms) (hroom : (s.mem i).count ≠ caps.numQpPerMgm)
    (hnot : qpn ∉ ms) :
    Stores caps s (s.writeEntry i ((s.mem i).push (qpWord caps qpn block) prot.val)) chain chain i
      (gid, prot.val) (ms ++ [qpn]) := by
  have hspec := attachEntry_spec h hq gid block prot
  have hne : (s.mem i).count ≠ 0 := by
    rw [← Mgm.length_members, hi.members_eq]
    exact fun hz => hi.ne_nil (eq_nil_of_length_eq_zero hz)
  have hfind : ¬ ((s.mem i).findQp qpn).isSome := by
    rw [Mgm.findQp_isSome, hi.members_eq]
    exact hnot
  have heq : attachEntry caps s qpn gid block prot =
      ⟨s.writeEntry i ((s.mem i).push (qpWord caps qpn block) prot.val), false, false,
        some i, none⟩ := by
    unfold attachEntry attachMember
    rw [hfound]
    simp only [if_neg hne, if_neg hroom, if_neg hfind]
    rfl
  rw [heq] at hspec
  generalize s.writeEntry i ((s.mem i).push (qpWord caps qpn block) prot.val) = s' at hspec ⊢
  cases hspec with
  | member hi' hq' =>
    obtain ⟨-, rfl⟩ := h.chains.at_unique caps.hash_lt hi' hi
    exact absurd hq' hnot
  | joined hi' hq' hs =>
    obtain ⟨-, rfl⟩ := h.chains.at_unique caps.hash_lt hi' hi
    exact hs

theorem bucket_stores (h : Table caps s chain) (hq : qpn < 2 ^ 24) (block : Bool)
    (hfound : findEntry caps s gid prot =
      .entry (s.mem (caps.hash (gid, prot.val))) none (some (caps.hash (gid, prot.val))))
    (hz : (s.mem (caps.hash (gid, prot.val))).content = none) :
    ∃ chain', Stores caps s (s.writeEntry (caps.hash (gid, prot.val))
      (((s.mem (caps.hash (gid, prot.val))).withGid gid).push (qpWord caps qpn block) prot.val))
      chain chain' (caps.hash (gid, prot.val)) (gid, prot.val) [qpn] := by
  have hspec := attachEntry_spec h hq gid block prot
  have hzero := Mgm.content_eq_none.mp hz
  have heq : attachEntry caps s qpn gid block prot =
      ⟨s.writeEntry (caps.hash (gid, prot.val))
        (((s.mem (caps.hash (gid, prot.val))).withGid gid).push (qpWord caps qpn block) prot.val),
        true, false, some (caps.hash (gid, prot.val)), none⟩ := by
    unfold attachEntry
    rw [hfound]
    simp only [if_pos hzero]
    exact attachMember_new hzero
  rw [heq] at hspec
  generalize s.writeEntry (caps.hash (gid, prot.val))
    (((s.mem (caps.hash (gid, prot.val))).withGid gid).push (qpWord caps qpn block) prot.val) = s'
    at hspec ⊢
  cases hspec with
  | created chain' hnone hs => exact ⟨chain', hs⟩

theorem linked_stores (h : Table caps s chain) (hq : qpn < 2 ^ 24) (block : Bool) {p : Nat}
    (hfound : findEntry caps s gid prot = .entry (s.mem p) (some p) none)
    (halloc : (bitmapAlloc s.bitmap).2 ≠ U32.allOnes) :
    let index := (bitmapAlloc s.bitmap).2 + caps.numMgms
    let s₁ := ({ s with bitmap := (bitmapAlloc s.bitmap).1 } : McgState).writeEntry index
      ((Mgm.zero.withGid gid).push (qpWord caps qpn block) prot.val)
    ∃ chain', Stores caps s (s₁.writeEntry p ((s₁.mem p).withNext index)) chain chain' index
      (gid, prot.val) [qpn] := by
  have hspec := attachEntry_spec h hq gid block prot
  have hzero : (Mgm.zero.withGid gid).count = 0 := Mgm.count_zero
  intro index s₁
  have heq : attachEntry caps s qpn gid block prot =
      ⟨s₁.writeEntry p ((s₁.mem p).withNext index), true, true, some index, none⟩ := by
    unfold attachEntry
    rw [hfound]
    simp only [if_neg halloc]
    exact attachMember_new hzero
  rw [heq] at hspec
  generalize s₁.writeEntry p ((s₁.mem p).withNext index) = s' at hspec ⊢
  cases hspec with
  | created chain' hnone hs => exact ⟨chain', hs⟩

end

/-! ## One attach -/

/-- The entry that `new_steering_entry` reads: the one just written, or what was there. -/
def entryRead (env : AttachEnv) (s : McgState) (index : Nat) (mgm : Mgm) : Mgm :=
  if env.writeMember = none then mgm else s.mem index

/-- Once the lookup has come to an entry, both parts must succeed or both fail; a QP that is a
member already is right in any case. -/
def PartsAgree (caps : McgCaps) (env : AttachEnv) (s : McgState) (qpn : Nat) (gid : Gid)
    (blockMcastLoopback : Bool) (prot : Protocol) (steer : SteerType) : Lookup → Prop
  | .failed none _ => True
  | .failed (some index) _ =>
    qpn ∈ foundMembers caps s gid prot ∨
      ¬ ExistingSteers caps env gid.port (s.steer gid.port steer) index qpn
  | .entry mgm _ (some index) =>
    if mgm.count = 0 then
      (env.writeMember = none ↔
        NewSteers caps env gid.port (s.steer gid.port steer)
          (entryRead env s index
            ((mgm.withGid gid).push (qpWord caps qpn blockMcastLoopback) prot.val)) qpn)
    else
      qpn ∈ mgm.members ∨
        (mgm.count ≠ caps.numQpPerMgm ∧ env.writeMember = none ↔
          ExistingSteers caps env gid.port (s.steer gid.port steer) index qpn)
  | .entry _ _ none =>
    (bitmapAlloc s.bitmap).2 = U32.allOnes ∨
      (env.writeMember = none ∧ env.readPrev = none ∧ env.writePrev = none ↔
        NewSteers caps env gid.port (s.steer gid.port steer)
          (entryRead env s ((bitmapAlloc s.bitmap).2 + caps.numMgms)
            ((Mgm.zero.withGid gid).push (qpWord caps qpn blockMcastLoopback) prot.val)) qpn)

/-- Where an attach gets its report right: for other protocols always, and for Ethernet where its
two parts agree. -/
def AttachOk (caps : McgCaps) (env : AttachEnv) (s : McgState) (qpn : Nat) (gid : Gid)
    (blockMcastLoopback : Bool) (prot : Protocol) (steer : SteerType) : Prop :=
  env.mailbox = true → prot = .eth →
    PartsAgree caps env s qpn gid blockMcastLoopback prot steer (lookup caps env s gid prot)

instance PartsAgree.decidable (caps : McgCaps) (env : AttachEnv) (s : McgState) (qpn : Nat)
    (gid : Gid) (block : Bool) (prot : Protocol) (st : SteerType) :
    ∀ l : Lookup, Decidable (PartsAgree caps env s qpn gid block prot st l)
  | .failed none _ => inferInstanceAs (Decidable True)
  | .failed (some _) _ => inferInstanceAs (Decidable (_ ∨ ¬ _))
  | .entry mgm _ (some _) =>
    if h : mgm.count = 0 then decidable_of_iff (_ ↔ _) (by simp only [PartsAgree, if_pos h]; rfl)
    else decidable_of_iff (_ ∨ (_ ∧ _ ↔ _)) (by simp only [PartsAgree, if_neg h]; rfl)
  | .entry _ _ none => inferInstanceAs (Decidable (_ ∨ _))

instance (caps : McgCaps) (env : AttachEnv) (s : McgState) (qpn : Nat) (gid : Gid) (block : Bool)
    (prot : Protocol) (st : SteerType) : Decidable (AttachOk caps env s qpn gid block prot st) :=
  inferInstanceAs (Decidable (_ → _ → _))

theorem Reported.congr {qpn : Nat} {gid : Gid} {prot : Protocol} {ok ok' : Prop}
    {r : McgState × Option AttachErr} (h : Reported caps s qpn gid prot ok r) (hok : ok' ↔ ok) :
    Reported caps s qpn gid prot ok' r :=
  ⟨h.truthful.trans hok.symm, fun h' => h.table (hok.mp h'), h.promisc⟩

section

variable {qpn port i : Nat} {gid : Gid} {prot : Protocol} {st : SteerType} {block : Bool}

/-- The lookup has found the entry of the GID. -/
theorem reported_hit (h : Table caps s chain) (hq : qpn < 2 ^ 24) {prev : Option Nat}
    {ms : List Nat}
    (hfound : findEntry caps s gid prot = .entry (s.mem i) prev (some i))
    (hi : StoredAt caps s chain i (gid, prot.val) ms) :
    Reported caps s qpn gid prot
      (prot = .eth → qpn ∈ (s.mem i).members ∨
        ((s.mem i).count ≠ caps.numQpPerMgm ∧ env.writeMember = none ↔
          ExistingSteers caps env port (s.steer port st) i qpn))
      (attachReturn caps env qpn port prot st
        (attachMemberTo caps env s qpn block prot (s.mem i) false i none)) := by
  have hmembers := hi.members_eq
  have hold := foundMembers_stored h hi
  unfold attachMemberTo
  by_cases hfull : (s.mem i).count = caps.numQpPerMgm
  · rw [if_pos hfull]
    refine (reported_idle h (some .enomem) nofun).congr (forall_congr' fun _ => ?_)
    rw [hold, hmembers]
    simp [hfull]
  rw [if_neg hfull]
  by_cases hin : qpn ∈ ms
  · have hfind : ((s.mem i).findQp qpn).isSome = true :=
      Mgm.findQp_isSome.mpr (by rw [hmembers]; exact hin)
    rw [if_pos hfind]
    refine (reported_idle h none fun _ => ?_).congr (forall_congr' fun _ => ?_)
    · rw [hold]
      exact hin
    · rw [hold, hmembers]
      simp [hin]
  have hfind : ¬ ((s.mem i).findQp qpn).isSome = true := by
    rw [Mgm.findQp_isSome, hmembers]
    exact hin
  rw [if_neg hfind]
  cases hwrite : env.writeMember with
  | some e =>
    refine (reported_idle h (some (.cmd e)) nofun).congr (forall_congr' fun _ => ?_)
    rw [hold, hmembers]
    simp
  | none =>
    refine (reported_joined rfl (joined_stores h hq block hfound hi hfull hin) (by simp)
      (by rw [hold]; exact hin)).congr (forall_congr' fun _ => ?_)
    rw [hmembers]
    simp [hin, hfull]

/-- The lookup has come to a free bucket. -/
theorem reported_empty (h : Table caps s chain) (hq : qpn < 2 ^ 24)
    (hfound : findEntry caps s gid prot =
      .entry (s.mem (caps.hash (gid, prot.val))) none (some (caps.hash (gid, prot.val))))
    (hz : (s.mem (caps.hash (gid, prot.val))).content = none) (hp : PromiscList (s.steer port st)) :
    Reported caps s qpn gid prot
      (prot = .eth → (env.writeMember = none ↔
        NewSteers caps env port (s.steer port st)
          (entryRead env s (caps.hash (gid, prot.val))
            (((s.mem (caps.hash (gid, prot.val))).withGid gid).push
              (qpWord caps qpn block) prot.val))
          qpn))
      (attachReturn caps env qpn port prot st
        (attachMemberTo caps env s qpn block prot
          ((s.mem (caps.hash (gid, prot.val))).withGid gid) true
          (caps.hash (gid, prot.val)) none)) := by
  have hzero : ((s.mem (caps.hash (gid, prot.val))).withGid gid).count = 0 :=
    (Mgm.count_withGid _ _).trans (Mgm.content_eq_none.mp hz)
  have hroom : ((s.mem (caps.hash (gid, prot.val))).withGid gid).count ≠ caps.numQpPerMgm := by
    have hpos := caps.qp_pos
    omega
  have hfind : ((s.mem (caps.hash (gid, prot.val))).withGid gid).findQp qpn = none := by
    rw [Mgm.findQp_eq_none, Mgm.members_of_count hzero]
    exact not_mem_nil
  have hold : qpn ∉ foundMembers caps s gid prot := by
    unfold foundMembers
    rw [hfound]
    dsimp only
    rw [Mgm.members_of_count (Mgm.content_eq_none.mp hz)]
    exact not_mem_nil
  unfold attachMemberTo entryRead
  rw [if_neg hroom, hfind]
  cases hwrite : env.writeMember with
  | some e =>
    refine (reported_bucket h hz hp (.cmd e)).congr (forall_congr' fun _ => ?_)
    simp
  | none =>
    obtain ⟨chain', hs⟩ := bucket_stores h hq block hfound hz
    refine (reported_created rfl hs hold hp false).congr (forall_congr' fun _ => ?_)
    rw [writeEntry_mem, if_pos rfl]
    simp

/-- The lookup has come to the end of the chain. -/
theorem reported_missing (h : Table caps s chain) (hq : qpn < 2 ^ 24) {p : Nat}
    (hfound : findEntry caps s gid prot = .entry (s.mem p) (some p) none)
    (hpchain : p ∈ chain (caps.hash (gid, prot.val)))
    (hp : PromiscList (s.steer port st)) :
    Reported caps s qpn gid prot
      (prot = .eth → (bitmapAlloc s.bitmap).2 = U32.allOnes ∨
        (env.writeMember = none ∧ env.readPrev = none ∧ env.writePrev = none ↔
          NewSteers caps env port (s.steer port st)
            (entryRead env s ((bitmapAlloc s.bitmap).2 + caps.numMgms)
              ((Mgm.zero.withGid gid).push (qpWord caps qpn block) prot.val)) qpn))
      (attachReturn caps env qpn port prot st
        (if (bitmapAlloc s.bitmap).2 = U32.allOnes then
          { state := { s with bitmap := (bitmapAlloc s.bitmap).1 }, newEntry := false, link := true
            index := none, err := some .enomem }
        else
          attachMemberTo caps env { s with bitmap := (bitmapAlloc s.bitmap).1 } qpn block prot
            (Mgm.zero.withGid gid) true ((bitmapAlloc s.bitmap).2 + caps.numMgms) (some p))) := by
  have hold : qpn ∉ foundMembers caps s gid prot := by
    unfold foundMembers
    rw [hfound]
    exact not_mem_nil
  obtain ⟨hamgms, hcase⟩ := h.amgms.alloc
  rcases hcase with ⟨hall, htable⟩ | ⟨a, hlt, hfree, ha, htable, hne⟩
  · -- no entry is left
    rw [if_pos hall]
    have hsame : ∀ a, (bitmapAlloc s.bitmap).1.table a = s.bitmap.table a := fun a => by rw [htable]
    have htab := (@Table.of_linked caps s { s with bitmap := (bitmapAlloc s.bitmap).1 }
      chain h hamgms
      (fun _ _ _ _ => rfl) hsame).1
    have hunchanged : Unchanged caps s { s with bitmap := (bitmapAlloc s.bitmap).1 } :=
      .of_linked h hamgms (fun _ _ _ _ => rfl) hsame
    exact .unchanged hunchanged ⟨chain, htab⟩ (fun _ _ => rfl) fun _ => .inl hall
  have halloc : (bitmapAlloc s.bitmap).2 ≠ U32.allOnes := by
    rw [ha]
    exact hne
  rw [if_neg halloc]
  have hstores := linked_stores h hq block hfound halloc
  have hindex : (bitmapAlloc s.bitmap).2 + caps.numMgms = caps.numMgms + a := by
    rw [ha, Nat.add_comm]
  rw [hindex] at hstores ⊢
  have hpa : caps.numMgms + a ≠ p := by
    rintro rfl
    rw [(h.chains.used a).mpr ⟨_, caps.hash_lt _, hpchain⟩] at hfree
    cases hfree
  have hzero : (Mgm.zero.withGid gid).count = 0 := Mgm.count_zero
  have hroom : (Mgm.zero.withGid gid).count ≠ caps.numQpPerMgm := by
    have hpos := caps.qp_pos
    omega
  have hfind : (Mgm.zero.withGid gid).findQp qpn = none := by
    rw [Mgm.findQp_eq_none, Mgm.members_of_count hzero]
    exact not_mem_nil
  -- a failure before the link
  have hfailed (t : McgState) (e : AttachErr)
      (hmem : ∀ i, i ≠ caps.numMgms + a → t.mem i = s.mem i)
      (hbitmap : t.bitmap = (bitmapAlloc s.bitmap).1) (hsteer : t.steer = s.steer) :
      Reported caps s qpn gid prot
        (prot = .eth →
          ¬ NewSteers caps env port (s.steer port st) (t.mem (caps.numMgms + a)) qpn)
        (attachReturn caps env qpn port prot st ⟨t, true, true, some (caps.numMgms + a), some e⟩) :=
    reported_unlinked h hfree hmem (by rw [hbitmap]; exact hamgms) (by rw [hbitmap]; exact htable)
      hsteer hold e
  unfold attachMemberTo entryRead
  rw [if_neg hroom, hfind]
  cases hwrite : env.writeMember with
  | some e =>
    refine (hfailed { s with bitmap := (bitmapAlloc s.bitmap).1 } (.cmd e) (fun _ _ => rfl) rfl
      rfl).congr (forall_congr' fun _ => ?_)
    simp [halloc]
  | none =>
    have hother (i : Nat) (hi : i ≠ caps.numMgms + a) :
        (({ s with bitmap := (bitmapAlloc s.bitmap).1 } : McgState).writeEntry (caps.numMgms + a)
          ((Mgm.zero.withGid gid).push (qpWord caps qpn block) prot.val)).mem i = s.mem i := by
      rw [writeEntry_mem, if_neg hi]
    cases hread : env.readPrev with
    | some e =>
      refine (hfailed _ (.cmd e) hother rfl rfl).congr (forall_congr' fun _ => ?_)
      rw [writeEntry_mem, if_pos rfl]
      simp [halloc]
    | none =>
      cases hlink : env.writePrev with
      | some e =>
        refine (hfailed _ (.cmd e) hother rfl rfl).congr (forall_congr' fun _ => ?_)
        rw [writeEntry_mem, if_pos rfl]
        simp [halloc]
      | none =>
        obtain ⟨chain', hs⟩ := hstores
        refine (reported_created rfl hs hold hp true).congr (forall_congr' fun _ => ?_)
        rw [writeEntry_mem, if_neg hpa, writeEntry_mem, if_pos rfl]
        simp [halloc]

end

/-- An attach to an intact table reports the truth exactly where `AttachOk` says so. -/
theorem attach_reported (h : Table caps s chain) (hp : ∀ port st, PromiscList (s.steer port st))
    (env : AttachEnv) {qpn : Nat} (hq : qpn < 2 ^ 24) (gid : Gid) (block : Bool) (prot : Protocol)
    (st : SteerType) :
    Reported caps s qpn gid prot (AttachOk caps env s qpn gid block prot st)
      (attachWith caps env s qpn gid block prot st) := by
  unfold attachWith
  cases hmailbox : env.mailbox with
  | false =>
    exact .unchanged (.refl caps s) ⟨chain, h⟩ (fun _ _ => rfl)
      fun hm => absurd (hm.symm.trans hmailbox) nofun
  | true =>
    unfold AttachOk attachPoint
    simp only [hmailbox, Bool.not_true, Bool.false_eq_true, if_false, true_imp_iff]
    rcases lookup_cases h env gid prot with ⟨e, heq⟩ | ⟨i, e, heq⟩
      | ⟨mgm, prev, index, heq, hfound, hspec⟩
    · rw [heq]
      exact .unchanged (.refl caps s) ⟨chain, h⟩ (fun _ _ => rfl) fun _ => trivial
    · rw [heq]
      exact reported_idle h (some e) nofun
    · rw [heq]
      cases hspec with
      | @hit l r ms i hc hi =>
        have hne : (s.mem i).count ≠ 0 := by
          rw [← Mgm.length_members, hi.members_eq]
          exact fun hz => hi.ne_nil (eq_nil_of_length_eq_zero hz)
        simp only [PartsAgree, if_neg hne]
        exact reported_hit h hq hfound hi
      | empty hz =>
        simp only [PartsAgree, if_pos (Mgm.content_eq_none.mp hz)]
        exact reported_empty h hq hfound hz (hp _ _)
      | missing hc hhead hnone =>
        exact reported_missing h hq hfound (by rw [hc]; simp) (hp _ _)

theorem Table.steersOnly (h : Table caps s chain) (hs : SteersOnly s s') : Table caps s' chain :=
  (h.of_linked (by rw [hs.bitmap]; exact h.amgms) (fun _ _ _ _ => by rw [hs.mem])
    (fun _ => by rw [hs.bitmap])).1

theorem SteersOnly.trans {t : McgState} (h : SteersOnly s s') (h' : SteersOnly s' t) :
    SteersOnly s t :=
  ⟨h'.mem.trans h.mem, h'.bitmap.trans h.bitmap,
    fun port st => (h'.promisc port st).trans (h.promisc port st)⟩

section

variable {qpn port i : Nat} {gid : Gid} {prot : Protocol} {st : SteerType}

theorem checkDuplicateEntry_steersOnly (caps : McgCaps) (s : McgState) (port : Nat) (st : SteerType)
    (i qpn : Nat) : SteersOnly s (checkDuplicateEntry caps s port st i qpn).1 := by
  unfold checkDuplicateEntry
  split
  next => exact .refl s
  next =>
    split
    next => exact .refl s
    next =>
      dsimp only
      split
      next => exact .refl s
      next es _ => exact steersOnly_withEntries s port st es

theorem canRemoveSteeringEntry_steersOnly (caps : McgCaps) (s : McgState) (port : Nat)
    (st : SteerType) (i qpn : Nat) : SteersOnly s
    (canRemoveSteeringEntry caps s port st i qpn).1 := by
  unfold canRemoveSteeringEntry
  split
  next => exact .refl s
  next =>
    split
    next => exact .refl s
    next => exact steersOnly_withEntries s port st _

/-- A detach keeps the table intact, and the promiscuous QPs as they are. -/
theorem detach_table (h : Table caps s chain) (mailboxes : Bool) (qpn : Nat) (gid : Gid)
    (prot : Protocol) (st : SteerType) :
    (∃ chain', Table caps (qpDetachCommon caps s mailboxes qpn gid prot st).1 chain') ∧
      ∀ port st', ((qpDetachCommon caps s mailboxes qpn gid prot st).1.steer port st').promiscQps =
        (s.steer port st').promiscQps := by
  have hkept {t : McgState} (ht : SteersOnly s t) : (∃ chain', Table caps t chain') ∧
      ∀ port st', (t.steer port st').promiscQps = (s.steer port st').promiscQps :=
    ⟨⟨chain, h.steersOnly ht⟩, ht.promisc⟩
  unfold qpDetachCommon
  cases mailboxes with
  | false => exact hkept (.refl s)
  | true =>
    have hspec := findEntry_spec h gid prot
    generalize findEntry caps s gid prot = found at hspec
    simp only [Bool.not_true, Bool.false_eq_true, if_false]
    cases hspec with
    | missing hc hhead hnone => exact hkept (.refl s)
    | empty hz =>
      -- the bucket has no member to take out
      have hfind : (s.mem (caps.hash (gid, prot.val))).findQp qpn = none := by
        rw [Mgm.findQp_eq_none, Mgm.members_of_count (Mgm.content_eq_none.mp hz)]
        exact not_mem_nil
      dsimp only
      rw [hfind]
      have hcheck := checkDuplicateEntry_steersOnly caps s gid.port st
        (caps.hash (gid, prot.val)) qpn
      split
      next => split <;> exact hkept hcheck
      next => split <;> exact hkept (.refl s)
    | @hit l r ms i hc hi =>
      dsimp only
      -- the state after the test for a duplicate
      have hfirst : SteersOnly s
          (if prot = .eth then checkDuplicateEntry caps s gid.port st i qpn else (s, false)).1 := by
        split
        next => exact checkDuplicateEntry_steersOnly caps s _ st i qpn
        next => exact .refl s
      generalize (if prot = .eth then checkDuplicateEntry caps s gid.port st i qpn
        else (s, false)) = r₁ at hfirst
      obtain ⟨s₁, dup⟩ := r₁
      split
      next => exact hkept hfirst
      next =>
        cases hloc : (s.mem i).findQp qpn with
        | none => exact hkept hfirst
        | some loc =>
          dsimp only
          have hsecond : SteersOnly s
              (if prot = .eth then canRemoveSteeringEntry caps s₁ gid.port st i qpn
                else (s₁, false)).1 := by
            split
            next => exact hfirst.trans (canRemoveSteeringEntry_steersOnly caps s₁ _ st i qpn)
            next => exact hfirst
          generalize (if prot = .eth then canRemoveSteeringEntry caps s₁ gid.port st i qpn
            else (s₁, false)) = r₂ at hsecond
          obtain ⟨s₂, removable⟩ := r₂
          have h₂ := h.steersOnly hsecond
          have hmem : s₂.mem i = s.mem i := by rw [hsecond.mem]
          have hi₂ : StoredAt caps s₂ chain i (gid, prot.val) ms := by
            refine ⟨hi.1, ?_⟩
            simp only [hmem]
            exact hi.2
          split
          next hleft =>
            rw [← hmem] at hloc hleft ⊢
            have hs := store_pop h₂ hi₂ hloc hleft.1
            exact ⟨⟨chain, hs.table⟩, fun port st' =>
              (congrArg (fun f => (f port st').promiscQps) hs.steer).trans
                (hsecond.promisc port st')⟩
          next =>
            obtain ⟨chain', hd⟩ := deleteEntry_spec h₂ hc hi₂
              (((s.mem i).pop loc prot.val).withNoMembers prot.val) (by rw [hmem]; rfl)
              (Mgm.packCount_and (by omega))
            exact ⟨⟨chain', hd.table⟩, fun port st' =>
              (congrArg (fun f => (f port st').promiscQps) hd.steer).trans
                (hsecond.promisc port st')⟩

end

end Mlx4
