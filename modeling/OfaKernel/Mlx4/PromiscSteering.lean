-- SUMMARY: Promiscuous QPs in the mlx4 multicast table.
import OfaKernel.Mlx4.McgChains

/-!
# Promiscuous steering

Ethernet entries of one port and steering type. An entry should have the QPs attached to it and
all promiscuous QPs, and list those that are both as duplicates.
-/

open Function List

namespace Mlx4

open HashChain McgState

variable {caps : McgCaps} {s : McgState} {chain : Nat → List Nat}

/-! ## Steering entries -/

theorem updateEntry_eq_none {f : List Nat → List Nat} {i : Nat} {es : List SteerIndex}
    (h : i ∉ es.map SteerIndex.index) : updateEntry f i es = none := by
  induction es with
  | nil => rfl
  | cons e es ih =>
    simp only [map_cons, mem_cons, not_or] at h
    rw [updateEntry, if_neg (Ne.symm h.1), ih h.2]
    rfl

/-- The entries with one of them changed. -/
def changeEntry (f : List Nat → List Nat) (i : Nat) (es : List SteerIndex) : List SteerIndex :=
  es.map fun e => if e.index = i then { e with duplicates := f e.duplicates } else e

theorem changeEntry_index (f : List Nat → List Nat) (i : Nat) (es : List SteerIndex) :
    (changeEntry f i es).map SteerIndex.index = es.map SteerIndex.index := by
  rw [changeEntry, map_map]
  refine map_congr_left fun e _ => ?_
  simp only [Function.comp]
  split <;> rfl

theorem updateEntry_eq_some {f : List Nat → List Nat} {i : Nat} {es : List SteerIndex}
    (hnodup : (es.map SteerIndex.index).Nodup) (h : i ∈ es.map SteerIndex.index) :
    updateEntry f i es = some (changeEntry f i es) := by
  induction es with
  | nil => simp at h
  | cons e es ih =>
    rw [map_cons, nodup_cons] at hnodup
    rw [updateEntry]
    split
    next he =>
      -- no later entry has this index
      have hrest : changeEntry f i es = es := by
        conv_rhs => rw [← map_id es]
        refine map_congr_left fun e' he' => if_neg fun hi => hnodup.1 ?_
        rw [he, ← hi]
        exact mem_map_of_mem he'
      rw [changeEntry, map_cons, if_pos he]
      exact congrArg (fun es' => some (_ :: es')) hrest.symm
    next he =>
      have hmem : i ∈ es.map SteerIndex.index := by
        rcases mem_cons.mp h with rfl | h
        · exact absurd rfl he
        · exact h
      rw [ih hnodup.2 hmem, changeEntry, changeEntry, map_cons, if_neg he]
      rfl

theorem mem_changeEntry {f : List Nat → List Nat} {i : Nat} {es : List SteerIndex}
    {e : SteerIndex} :
    e ∈ changeEntry f i es ↔
      ∃ e' ∈ es, e.index = e'.index ∧
        e.duplicates = if e'.index = i then f e'.duplicates else e'.duplicates := by
  rw [changeEntry, mem_map]
  refine exists_congr fun e' => and_congr_right fun _ => ?_
  constructor
  · rintro rfl
    split <;> exact ⟨rfl, rfl⟩
  · rintro ⟨hi, hd⟩
    cases e
    subst hi hd
    split <;> rfl

theorem removeSteerEntries_eq {i n : Nat} {es : List SteerIndex} {e : SteerIndex}
    (hnodup : (es.map SteerIndex.index).Nodup) (he : e ∈ es) (hi : e.index = i) :
    removeSteerEntries i n es =
      if e.duplicates = [] ∨ n = 1 then (es.filter (·.index ≠ i), true) else (es, false) := by
  have hnone : ∀ es : List SteerIndex, i ∉ es.map SteerIndex.index →
      removeSteerEntries i n es = (es, true) ∧ es.filter (·.index ≠ i) = es := by
    intro es
    induction es with
    | nil => exact fun _ => ⟨rfl, rfl⟩
    | cons x es ih =>
      intro h
      simp only [map_cons, mem_cons, not_or] at h
      obtain ⟨ih₁, ih₂⟩ := ih h.2
      rw [removeSteerEntries, if_neg (Ne.symm h.1), ih₁,
        filter_cons_of_pos (by simpa using Ne.symm h.1),
        ih₂]
      exact ⟨rfl, rfl⟩
  induction es with
  | nil => cases he
  | cons x es ih =>
    rw [map_cons, nodup_cons] at hnodup
    rw [removeSteerEntries]
    rcases mem_cons.mp he with rfl | he
    · obtain ⟨h₁, h₂⟩ := hnone es (hi ▸ hnodup.1)
      rw [if_pos hi, h₁, filter_cons_of_neg (by simpa using hi), h₂]
    · have hx : x.index ≠ i := fun hx => hnodup.1 (by rw [hx, ← hi]; exact mem_map_of_mem he)
      rw [if_neg hx, ih hnodup.2 he, filter_cons_of_pos (by simpa using hx)]
      split <;> rfl

/-! ## The loops over QPs and entries -/

theorem and_mgmQpnMask {q : Nat} (hq : q < 2 ^ 24) : q &&& mgmQpnMask &&& mgmQpnMask = q := by
  have hmask : mgmQpnMask = 2 ^ 24 - 1 := rfl
  rw [hmask, Nat.and_two_pow_sub_one_eq_mod, Nat.and_two_pow_sub_one_eq_mod, Nat.mod_mod,
    Nat.mod_eq_of_lt hq]

/-- The promiscuous QPs are put into a new entry. -/
theorem addPromiscQps_spec {q : Nat} {pqps : List Nat} (hlt : ∀ p ∈ pqps, p < 2 ^ 24) {m : Mgm}
    (hfit : m.count + (pqps.filter (· ≠ q)).length ≤ caps.numQpPerMgm) :
    ∃ m', addPromiscQps caps q m pqps = some m' ∧ m'.members = m.members ++ pqps.filter (· ≠ q) ∧
      m'.gid = m.gid ∧ m'.prot = m.prot ∧ m'.next = m.next := by
  have hle := caps.qp_le
  induction pqps generalizing m with
  | nil => exact ⟨m, rfl, by simp, rfl, rfl, rfl⟩
  | cons p pqps ih =>
    rw [addPromiscQps]
    by_cases hp : p = q
    · rw [if_pos hp]
      rw [filter_cons_of_neg (by simpa using hp)] at hfit ⊢
      exact ih (fun x hx => hlt x (mem_cons_of_mem _ hx)) hfit
    · rw [filter_cons_of_pos (by simpa using hp)] at hfit ⊢
      rw [length_cons] at hfit
      rw [if_neg hp, if_neg (by omega)]
      have hcount : m.count + 1 < 2 ^ 24 := by omega
      have hmembers : (m.push (p &&& mgmQpnMask) m.prot).members =
          m.members ++ [p &&& mgmQpnMask &&& mgmQpnMask] := Mgm.members_push hcount
      rw [and_mgmQpnMask (hlt p mem_cons_self)] at hmembers
      have hpush : (m.push (p &&& mgmQpnMask) m.prot).count = m.count + 1 := by
        rw [← Mgm.length_members, hmembers]
        simp
      obtain ⟨m', heq, hm, hg, hpr, hn⟩ := ih (fun x hx => hlt x (mem_cons_of_mem _ hx))
        (m := m.push (p &&& mgmQpnMask) m.prot) (by omega)
      refine ⟨m', heq, ?_, hg, hpr.trans (Mgm.prot_push hcount), hn⟩
      rw [hm, hmembers]
      simp

/-- What `add_promisc_qp` does to the entries: those without the QP get it, the others list
it as a duplicate. -/
theorem addToEntries_eq {q : Nat} {mem : Nat → Mgm} {es : List SteerIndex}
    (hnodup : (es.map SteerIndex.index).Nodup)
    (hfit : ∀ e ∈ es, q ∉ (mem e.index).members → (mem e.index).count ≠ caps.numQpPerMgm) :
    addToEntries caps q mem es =
      (fun i => if i ∈ es.map SteerIndex.index ∧ q ∉ (mem i).members then
          (mem i).push (q &&& mgmQpnMask) (mem i).prot else mem i,
        es.map fun e =>
          { e with duplicates := e.duplicates ++ (mem e.index).members.filter (· = q) },
        none) := by
  induction es generalizing mem with
  | nil => simp [addToEntries]
  | cons e es ih =>
    rw [map_cons, nodup_cons] at hnodup
    rw [addToEntries]
    by_cases hq : q ∈ (mem e.index).members
    · have hhits : (mem e.index).members.filter (· = q) ≠ [] := by
        rw [Ne, filter_eq_nil_iff]
        exact fun h => by simpa using h q hq
      simp only [if_pos hhits]
      rw [ih hnodup.2 fun e' he' => hfit e' (mem_cons_of_mem _ he')]
      refine Prod.ext (funext fun i => ?_) rfl
      by_cases hi : i = e.index
      · simp [hi, hq]
      · simp [hi]
    · have hhits : (mem e.index).members.filter (· = q) = [] := by
        rw [filter_eq_nil_iff]
        intro x hx he
        rw [decide_eq_true_eq] at he
        exact hq (he ▸ hx)
      simp only [hhits, ne_eq, not_true, if_false, if_neg (hfit e mem_cons_self hq), append_nil]
      -- the entry written is not one of the later ones
      have hother {i : Nat} (hi : i ∈ es.map SteerIndex.index) : i ≠ e.index :=
        fun he => hnodup.1 (he ▸ hi)
      have hmem {e' : SteerIndex} (he' : e' ∈ es) :
          update mem e.index ((mem e.index).push (q &&& mgmQpnMask) (mem e.index).prot) e'.index =
            mem e'.index :=
        update_of_ne (hother (mem_map_of_mem he')) _ _
      rw [ih hnodup.2 fun e' he' => by
        rw [hmem he']
        exact hfit e' (mem_cons_of_mem _ he')]
      refine Prod.ext (funext fun i => ?_) (Prod.ext ?_ rfl)
      · by_cases hi : i = e.index
        · simp [hi, hq, hnodup.1]
        · simp [hi]
      · simp only [map_cons, hhits, append_nil, List.cons.injEq, true_and]
        refine map_congr_left fun e' he' => ?_
        rw [hmem he']

/-- The entry without a QP. -/
def Mgm.remove (m : Mgm) (q prot : Nat) : Mgm :=
  match m.findQp q with
  | none => m
  | some loc => m.pop loc prot

/-- What `remove_promisc_qp` does to the entries: those that list the QP as a duplicate keep
it, the others lose it. -/
theorem removeFromEntries_eq {q : Nat} {mem : Nat → Mgm} {es : List SteerIndex}
    (hnodup : (es.map SteerIndex.index).Nodup)
    (hmem : ∀ e ∈ es, q ∉ e.duplicates → q ∈ (mem e.index).members) :
    removeFromEntries q mem es =
      (fun i => if ∃ e ∈ es, e.index = i ∧ q ∉ e.duplicates then
          (mem i).remove q Protocol.eth.val else mem i,
        es.map fun e => { e with duplicates := e.duplicates.erase q }, none) := by
  induction es generalizing mem with
  | nil => simp [removeFromEntries]
  | cons e es ih =>
    rw [map_cons, nodup_cons] at hnodup
    rw [removeFromEntries]
    by_cases hq : q ∈ e.duplicates
    · rw [ih hnodup.2 fun e' he' => hmem e' (mem_cons_of_mem _ he')]
      simp [hq]
    · have hm := hmem e mem_cons_self hq
      have hcount : (mem e.index).count ≠ 0 := fun hz => by
        rw [Mgm.members_of_count hz] at hm
        cases hm
      obtain ⟨loc, hloc⟩ := Option.isSome_iff_exists.mp (Mgm.findQp_isSome.mpr hm)
      have hremove : (mem e.index).remove q Protocol.eth.val =
        (mem e.index).pop loc Protocol.eth.val := by
        rw [Mgm.remove, hloc]
      rw [if_neg (by simpa using hq)]
      simp only [if_neg hcount, hloc]
      have hother {e' : SteerIndex} (he' : e' ∈ es) : e'.index ≠ e.index :=
        fun he => hnodup.1 (he ▸ mem_map_of_mem he')
      rw [ih hnodup.2 fun e' he' => by
        rw [update_of_ne (hother he')]
        exact hmem e' (mem_cons_of_mem _ he')]
      refine Prod.ext (funext fun i => ?_) (Prod.ext ?_ rfl)
      · by_cases hi : i = e.index
        · have hno : ¬ ∃ e' ∈ es, e'.index = i ∧ q ∉ e'.duplicates := by
            rintro ⟨e', he', hei, -⟩
            exact hother he' (hei.trans hi)
          have hyes : ∃ e' ∈ e :: es, e'.index = i ∧ q ∉ e'.duplicates :=
            ⟨e, mem_cons_self, hi.symm, hq⟩
          simp only [if_neg hno, if_pos hyes]
          rw [hi, update_self, hremove]
        · have hiff : (∃ e' ∈ e :: es, e'.index = i ∧ q ∉ e'.duplicates) ↔
              ∃ e' ∈ es, e'.index = i ∧ q ∉ e'.duplicates := by
            simp only [mem_cons, exists_eq_or_imp, or_iff_right_iff_imp]
            exact fun h => absurd h.1.symm hi
          simp only [hiff, update_of_ne hi]
      · rw [map_cons, erase_of_not_mem hq]

/-- New members for the entries, as `f` gives them. -/
theorem Table.of_members (h : Table caps s chain) {mem : Nat → Mgm} (f : Nat → List Nat → List Nat)
    (hnext : ∀ i, (mem i).next = (s.mem i).next)
    (hcontent : ∀ i, (mem i).content = (s.mem i).content.map fun e => (e.1, f i e.2))
    (hmembers : ∀ i k l, StoredAt caps s chain i k l →
      (f i l).length ≤ caps.numQpPerMgm ∧ (f i l).Nodup) :
    Table caps { s with mem := mem } chain ∧
      ∀ i k l', StoredAt caps { s with mem := mem } chain i k l' ↔
        ∃ l, StoredAt caps s chain i k l ∧ f i l = l' := by
  have hat (i : Nat) (k : Gid × Nat) (l' : List Nat) :
      StoredAt caps { s with mem := mem } chain i k l' ↔
        ∃ l, StoredAt caps s chain i k l ∧ f i l = l' := by
    unfold StoredAt At
    simp only [hcontent i, Option.map_eq_some_iff, Prod.mk.injEq]
    constructor
    · rintro ⟨hi, ⟨k', l⟩, hc, rfl, rfl⟩
      exact ⟨l, ⟨hi, hc⟩, rfl⟩
    · rintro ⟨l, ⟨hi, hc⟩, rfl⟩
      exact ⟨hi, (k, l), hc, rfl, rfl⟩
  refine ⟨⟨h.chains.of_keys hnext fun i => ?_, h.amgms, fun i k l' hi => ?_⟩, hat⟩
  · simp only [hcontent i, Option.map_map]
    rfl
  · obtain ⟨l, hl, rfl⟩ := (hat i k l').mp hi
    exact hmembers i k l hl

section

variable (caps : McgCaps) (port : Nat) (st : SteerType)

/-- The QPs attached to a GID and the promiscuous QPs share the entries; steering indices
are those of the entries in use. -/
structure PromiscInv (r : McgRun) (chain : Nat → List Nat) : Prop where
  table : Table caps r.table chain
  promisc_nodup : (r.table.steer port st).promiscQps.Nodup
  promisc_lt : ∀ q ∈ (r.table.steer port st).promiscQps, q < 2 ^ 24
  eth : ∀ i k l, StoredAt caps r.table chain i k l → k.2 = Protocol.eth.val
  stored : ∀ gid q, (gid, Protocol.eth, q) ∈ r.attached →
    ∃ i l, StoredAt caps r.table chain i (gid, Protocol.eth.val) l
  attached : ∀ i gid l, StoredAt caps r.table chain i (gid, Protocol.eth.val) l →
    ∃ q, (gid, Protocol.eth, q) ∈ r.attached
  members : ∀ i gid l, StoredAt caps r.table chain i (gid, Protocol.eth.val) l →
    ∀ q, q ∈ l ↔ (gid, Protocol.eth, q) ∈ r.attached ∨ q ∈ (r.table.steer port st).promiscQps
  indices : ((r.table.steer port st).steerEntries.map SteerIndex.index).Nodup
  registered : ∀ i, i ∈ (r.table.steer port st).steerEntries.map SteerIndex.index ↔
    ∃ k l, StoredAt caps r.table chain i k l
  duplicates : ∀ e ∈ (r.table.steer port st).steerEntries, ∀ gid l,
    StoredAt caps r.table chain e.index (gid, Protocol.eth.val) l →
    e.duplicates.Nodup ∧ ∀ q, q ∈ e.duplicates ↔
      (gid, Protocol.eth, q) ∈ r.attached ∧ q ∈ (r.table.steer port st).promiscQps

/-- What steering is for: an entry with an attached QP has the attached and the promiscuous
QPs, and its duplicates are those that are both. -/
def Covered (r : McgRun) : Prop :=
  ∀ gid, (∃ q, (gid, Protocol.eth, q) ∈ r.attached) →
    ∃ mgm prev i, findEntry caps r.table gid .eth = .entry mgm prev (some i) ∧
      (∀ q, q ∈ mgm.members ↔
        (gid, Protocol.eth, q) ∈ r.attached ∨ q ∈ (r.table.steer port st).promiscQps) ∧
      (∃ e ∈ (r.table.steer port st).steerEntries, e.index = i) ∧
      ∀ e ∈ (r.table.steer port st).steerEntries, e.index = i →
        e.duplicates.Nodup ∧ ∀ q, q ∈ e.duplicates ↔
          (gid, Protocol.eth, q) ∈ r.attached ∧ q ∈ (r.table.steer port st).promiscQps

end

variable {port : Nat} {st : SteerType} {r : McgRun}

/-- An entry in use has a steering index. -/
theorem PromiscInv.mem_index (h : PromiscInv caps port st r chain) {i : Nat} {k : Gid × Nat}
    {l : List Nat} (hi : StoredAt caps r.table chain i k l) :
    i ∈ (r.table.steer port st).steerEntries.map SteerIndex.index :=
  (h.registered i).mpr ⟨k, l, hi⟩

theorem PromiscInv.covered (h : PromiscInv caps port st r chain) : Covered caps port st r := by
  intro gid ⟨q, hq⟩
  obtain ⟨i, l, hi⟩ := h.stored gid q hq
  obtain ⟨l', rest, -, hfound⟩ := findEntry_stored h.table hi
  refine ⟨_, _, i, hfound, fun q => ?_, ?_, fun e he hei => ?_⟩
  · rw [hi.members_eq]
    exact h.members i gid l hi q
  · obtain ⟨e, he, hei⟩ := mem_map.mp (h.mem_index hi)
    exact ⟨e, he, hei⟩
  · exact h.duplicates e he gid l (hei ▸ hi)

/-! ## Changing one entry -/

theorem setSteer_same (s : McgState) (port : Nat) (st : SteerType) (t : Steer) :
    (s.setSteer port st t).steer port st = t := by
  simp [setSteer]

theorem setSteer_setSteer (s : McgState) (port : Nat) (st : SteerType) (t t' : Steer) :
    (s.setSteer port st t).setSteer port st t' = s.setSteer port st t' := by
  simp [setSteer]

theorem setSteer_self (s : McgState) (port : Nat) (st : SteerType) :
    s.setSteer port st (s.steer port st) = s := by
  simp [setSteer]

theorem setEntries_promiscQps (s : McgState) (port : Nat) (st : SteerType) (t : Steer)
    (es : List SteerIndex) :
    ((s.setSteer port st (t.withEntries es)).steer port st).promiscQps = t.promiscQps := by
  rw [setSteer_same]
  rfl

theorem setEntries_steerEntries (s : McgState) (port : Nat) (st : SteerType) (t : Steer)
    (es : List SteerIndex) :
    ((s.setSteer port st (t.withEntries es)).steer port st).steerEntries = es := by
  rw [setSteer_same]
  rfl

theorem Table.setSteer (h : Table caps s chain) (port : Nat) (st : SteerType) (t : Steer) :
    Table caps (s.setSteer port st t) chain :=
  ⟨h.chains, h.amgms, h.members⟩

section

variable {chain' : Nat → List Nat} {t : McgState}
    {attached : List (Gid × Protocol × Nat)} {gid : Gid}
  {i : Nat} {l : List Nat}

/-- The entry of `gid` is new or has changed, and so has its steering index. -/
theorem PromiscInv.of_stores (h : PromiscInv caps port st r chain) (htable : Table caps t chain')
    (hstored : StoredAt caps t chain' i (gid, Protocol.eth.val) l)
    (hothers : ∀ j k' l', k' ≠ (gid, Protocol.eth.val) →
      (StoredAt caps t chain' j k' l' ↔ StoredAt caps r.table chain j k' l'))
    (hpromisc : (t.steer port st).promiscQps = (r.table.steer port st).promiscQps)
    (hattached : ∀ gid' q, gid' ≠ gid →
      ((gid', Protocol.eth, q) ∈ attached ↔ (gid', Protocol.eth, q) ∈ r.attached))
    (hne : ∃ q, (gid, Protocol.eth, q) ∈ attached)
    (hmembers : ∀ q, q ∈ l ↔
      (gid, Protocol.eth, q) ∈ attached ∨ q ∈ (r.table.steer port st).promiscQps)
    (hindices : ((t.steer port st).steerEntries.map SteerIndex.index).Nodup)
    (hregistered : ∀ j, j ∈ (t.steer port st).steerEntries.map SteerIndex.index ↔
      j = i ∨ j ∈ (r.table.steer port st).steerEntries.map SteerIndex.index)
    (hold : ∀ j l', StoredAt caps r.table chain j (gid, Protocol.eth.val) l' → j = i)
    (hsame : ∀ e ∈ (t.steer port st).steerEntries, e.index ≠ i →
    e ∈ (r.table.steer port st).steerEntries)
    (hduplicates : ∀ e ∈ (t.steer port st).steerEntries, e.index = i →
      e.duplicates.Nodup ∧ ∀ q, q ∈ e.duplicates ↔
        (gid, Protocol.eth, q) ∈ attached ∧ q ∈ (r.table.steer port st).promiscQps) :
    PromiscInv caps port st ⟨t, attached⟩ chain' := by
  have hkey {gid' : Gid} (hg : gid' ≠ gid) : (gid', Protocol.eth.val) ≠ (gid, Protocol.eth.val) :=
    fun he => hg (Prod.mk.inj he).1
  have hunique {j : Nat} {l' : List Nat}
    (hj : StoredAt caps t chain' j (gid, Protocol.eth.val) l') :
      j = i ∧ l' = l := htable.chains.at_unique caps.hash_lt hj hstored
  constructor
  case table => exact htable
  case promisc_nodup => rw [hpromisc]; exact h.promisc_nodup
  case promisc_lt => rw [hpromisc]; exact h.promisc_lt
  case eth =>
    intro j k l' hj
    by_cases hk : k = (gid, Protocol.eth.val)
    · rw [hk]
    · exact h.eth j k l' ((hothers j k l' hk).mp hj)
  case stored =>
    intro gid' q hq
    by_cases hg : gid' = gid
    · exact ⟨i, l, hg ▸ hstored⟩
    · obtain ⟨j, l', hj⟩ := h.stored gid' q ((hattached gid' q hg).mp hq)
      exact ⟨j, l', (hothers j _ l' (hkey hg)).mpr hj⟩
  case attached =>
    intro j gid' l' hj
    by_cases hg : gid' = gid
    · exact hg ▸ hne
    · obtain ⟨q, hq⟩ := h.attached j gid' l' ((hothers j _ l' (hkey hg)).mp hj)
      exact ⟨q, (hattached gid' q hg).mpr hq⟩
  case members =>
    intro j gid' l' hj q
    rw [hpromisc]
    by_cases hg : gid' = gid
    · subst hg
      rw [(hunique hj).2]
      exact hmembers q
    · rw [h.members j gid' l' ((hothers j _ l' (hkey hg)).mp hj) q, ← hattached gid' q hg]
  case indices => exact hindices
  case registered =>
    intro j
    rw [hregistered, h.registered]
    constructor
    · rintro (rfl | ⟨k, l', hj⟩)
      · exact ⟨_, _, hstored⟩
      · by_cases hk : k = (gid, Protocol.eth.val)
        · subst hk
          exact ⟨_, _, (hold j l' hj) ▸ hstored⟩
        · exact ⟨k, l', (hothers j k l' hk).mpr hj⟩
    · rintro ⟨k, l', hj⟩
      by_cases hk : k = (gid, Protocol.eth.val)
      · subst hk
        exact .inl (hunique hj).1
      · exact .inr ⟨k, l', (hothers j k l' hk).mp hj⟩
  case duplicates =>
    intro e he gid' l' hj
    rw [hpromisc]
    by_cases hg : gid' = gid
    · subst hg
      exact hduplicates e he (hunique hj).1
    · -- an entry has one key
      have hei : e.index ≠ i := by
        intro hei
        have hc := hj.2.symm.trans (hei ▸ hstored.2)
        simp only [Option.some.injEq, Prod.mk.injEq] at hc
        exact hg hc.1.1
      obtain ⟨hnodup, hmem⟩ := h.duplicates e (hsame e he hei) gid' l'
        ((hothers _ _ l' (hkey hg)).mp hj)
      refine ⟨hnodup, fun q => ?_⟩
      rw [hmem q, ← hattached gid' q hg]

/-- The entry of `gid` is gone, and its steering index too. -/
theorem PromiscInv.of_deletes (h : PromiscInv caps port st r chain) (htable : Table caps t chain')
    (hi : StoredAt caps r.table chain i (gid, Protocol.eth.val) l)
    (hothers : ∀ j k' l', StoredAt caps t chain' j k' l' ↔
      k' ≠ (gid, Protocol.eth.val) ∧ StoredAt caps r.table chain j k' l')
    (hpromisc : (t.steer port st).promiscQps = (r.table.steer port st).promiscQps)
    (hattached : ∀ gid' q, gid' ≠ gid →
      ((gid', Protocol.eth, q) ∈ attached ↔ (gid', Protocol.eth, q) ∈ r.attached))
    (hne : ∀ q, (gid, Protocol.eth, q) ∉ attached)
    (hentries : (t.steer port st).steerEntries =
      (r.table.steer port st).steerEntries.filter (·.index ≠ i)) :
    PromiscInv caps port st ⟨t, attached⟩ chain' := by
  have hgid {j : Nat} {gid' : Gid} {l' : List Nat}
      (hj : StoredAt caps t chain' j (gid', Protocol.eth.val) l') : gid' ≠ gid := by
    rintro rfl
    exact ((hothers _ _ _).mp hj).1 rfl
  constructor
  case table => exact htable
  case promisc_nodup => rw [hpromisc]; exact h.promisc_nodup
  case promisc_lt => rw [hpromisc]; exact h.promisc_lt
  case eth => exact fun j k l' hj => h.eth j k l' ((hothers j k l').mp hj).2
  case stored =>
    intro gid' q hq
    have hg : gid' ≠ gid := fun hg => hne q (hg ▸ hq)
    obtain ⟨j, l', hj⟩ := h.stored gid' q ((hattached gid' q hg).mp hq)
    exact ⟨j, l', (hothers j _ l').mpr ⟨fun he => hg (Prod.mk.inj he).1, hj⟩⟩
  case attached =>
    intro j gid' l' hj
    obtain ⟨q, hq⟩ := h.attached j gid' l' ((hothers j _ l').mp hj).2
    exact ⟨q, (hattached gid' q (hgid hj)).mpr hq⟩
  case members =>
    intro j gid' l' hj q
    rw [hpromisc, h.members j gid' l' ((hothers j _ l').mp hj).2 q, ← hattached gid' q (hgid hj)]
  case indices =>
    rw [hentries]
    exact h.indices.sublist (filter_sublist.map _)
  case registered =>
    intro j
    have hfilter : j ∈ ((r.table.steer port st).steerEntries.filter (·.index ≠ i)).map
      SteerIndex.index ↔
        j ≠ i ∧ j ∈ (r.table.steer port st).steerEntries.map SteerIndex.index := by
      simp only [mem_map, mem_filter, decide_eq_true_eq]
      constructor
      · rintro ⟨e, ⟨he, hne'⟩, rfl⟩
        exact ⟨hne', e, he, rfl⟩
      · rintro ⟨hne', e, he, rfl⟩
        exact ⟨e, ⟨he, hne'⟩, rfl⟩
    rw [hentries, hfilter, h.registered]
    constructor
    · rintro ⟨hji, k, l', hj⟩
      refine ⟨k, l', (hothers j k l').mpr ⟨?_, hj⟩⟩
      rintro rfl
      exact hji (h.table.chains.at_unique caps.hash_lt hj hi).1
    · rintro ⟨k, l', hj⟩
      obtain ⟨hk, hj⟩ := (hothers j k l').mp hj
      refine ⟨?_, k, l', hj⟩
      rintro rfl
      have hc := hj.2.symm.trans hi.2
      simp only [Option.some.injEq, Prod.mk.injEq] at hc
      exact hk hc.1
  case duplicates =>
    intro e he gid' l' hj
    have he' : e ∈ (r.table.steer port st).steerEntries := by
      have hmem : e ∈ (t.steer port st).steerEntries := he
      rw [hentries] at hmem
      exact mem_of_mem_filter hmem
    obtain ⟨hnodup, hmem⟩ := h.duplicates e he' gid' l' ((hothers _ _ l').mp hj).2
    refine ⟨hnodup, fun q => ?_⟩
    rw [hpromisc, hmem q, ← hattached gid' q (hgid hj)]

end

theorem isPromisc_iff {q : Nat} :
    isPromisc s port st q = true ↔ q ∈ (s.steer port st).promiscQps := by
  simp [isPromisc]

section

variable {gid : Gid} {i q : Nat} {l : List Nat}

theorem cons_attached {gid' : Gid} {q' : Nat} (hg : gid' ≠ gid) :
    (gid', Protocol.eth, q') ∈ (gid, Protocol.eth, q) :: r.attached ↔
      (gid', Protocol.eth, q') ∈ r.attached := by
  rw [mem_cons, or_iff_right]
  intro he
  exact hg (Prod.mk.inj he).1

/-- An attach to an entry that has the QP: a promiscuous QP becomes a duplicate. -/
theorem PromiscInv.attach_member (h : PromiscInv caps port st r chain) (hport : ¬ badPort caps port)
    (hi : StoredAt caps r.table chain i (gid, Protocol.eth.val) l) (hq : q ∈ l)
    (err : Option McgErr) :
    (attachOut caps q port .eth st ⟨r.table, false, false, some i, err⟩).2 = none ∧
      PromiscInv caps port st ⟨(attachOut caps q port .eth st
        ⟨r.table, false, false, some i, err⟩).1,
        (gid, Protocol.eth, q) :: r.attached⟩ chain := by
  have hreg := h.mem_index hi
  have hmembers (q' : Nat) : q' ∈ l ↔
    (gid, Protocol.eth, q') ∈ (gid, Protocol.eth, q) :: r.attached ∨
      q' ∈ (r.table.steer port st).promiscQps := by
    rw [h.members i gid l hi q', mem_cons, or_assoc, iff_or_self]
    rintro he
    cases he
    exact (h.members i gid l hi q).mp hq
  have hold (j : Nat) (l' : List Nat)
    (hj : StoredAt caps r.table chain j (gid, Protocol.eth.val) l') :
      j = i := (h.table.chains.at_unique caps.hash_lt hj hi).1
  by_cases hp : q ∈ (r.table.steer port st).promiscQps
  · have heq : attachOut caps q port .eth st ⟨r.table, false, false, some i, err⟩ =
        (r.table.setSteer port st ((r.table.steer port st).withEntries
          (changeEntry (fun d => if d.contains q then d else d ++ [q]) i
            (r.table.steer port st).steerEntries)), none) := by
      simp [attachOut, existingSteeringEntry, if_neg hport, isPromisc_iff.mpr hp,
        updateEntry_eq_some h.indices hreg]
    rw [heq]
    refine ⟨rfl, h.of_stores (h.table.setSteer port st _) (i := i) hi (fun _ _ _ _ => Iff.rfl) ?_
      (fun gid' q' hg => cons_attached hg) ⟨q, mem_cons_self⟩ hmembers ?_ ?_ hold ?_ ?_⟩
    · rw [setEntries_promiscQps]
    · rw [setEntries_steerEntries, changeEntry_index]
      exact h.indices
    · intro j
      rw [setEntries_steerEntries, changeEntry_index]
      exact ⟨.inr, fun hj => hj.elim (fun he => he ▸ hreg) id⟩
    · intro e he hei
      rw [setEntries_steerEntries, mem_changeEntry] at he
      obtain ⟨e', he', hidx, hdup⟩ := he
      obtain rfl : e = e' := by cases e; cases e'; simp_all
      exact he'
    · intro e he hei
      rw [setEntries_steerEntries, mem_changeEntry] at he
      obtain ⟨e', he', hidx, hdup⟩ := he
      have hei' : e'.index = i := hidx ▸ hei
      rw [if_pos hei'] at hdup
      obtain ⟨hnodup, hmem⟩ := h.duplicates e' he' gid l (hei' ▸ hi)
      by_cases hd : q ∈ e'.duplicates
      · rw [hdup, if_pos (by simpa using hd)]
        refine ⟨hnodup, fun q' => ?_⟩
        rw [hmem q', mem_cons]
        refine and_congr_left fun _ => (or_iff_right_of_imp ?_).symm
        intro he
        cases he
        exact ((hmem q).mp hd).1
      · rw [hdup, if_neg (by simpa using hd)]
        refine ⟨nodup_append.mpr ⟨hnodup, by simp, fun a ha b hb he =>
          hd ((he.trans (mem_singleton.mp hb)) ▸ ha)⟩, fun q' => ?_⟩
        rw [mem_append, hmem q', mem_singleton, mem_cons]
        constructor
        · rintro (⟨ha, hp'⟩ | rfl)
          · exact ⟨.inr ha, hp'⟩
          · exact ⟨.inl rfl, hp⟩
        · rintro ⟨he | ha, hp'⟩
          · cases he
            exact .inr rfl
          · exact .inl ⟨ha, hp'⟩
  · -- a QP that is not promiscuous is a member because it is attached
    have hatt : (gid, Protocol.eth, q) ∈ r.attached :=
      ((h.members i gid l hi q).mp hq).resolve_right hp
    have heq : attachOut caps q port .eth st ⟨r.table, false, false, some i, err⟩ =
      (r.table, none) := by
      simp [attachOut, existingSteeringEntry, if_neg hport, isPromisc, hp]
    rw [heq]
    refine ⟨rfl, h.of_stores h.table hi (fun _ _ _ _ => Iff.rfl) rfl
      (fun gid' q' hg => cons_attached hg) ⟨q, mem_cons_self⟩ hmembers h.indices
      (fun j => ⟨.inr, fun hj => hj.elim (fun he => he ▸ hreg) id⟩) hold (fun e he _ => he) ?_⟩
    intro e he hei
    obtain ⟨hnodup, hmem⟩ := h.duplicates e he gid l (hei ▸ hi)
    refine ⟨hnodup, fun q' => ?_⟩
    rw [hmem q', mem_cons]
    refine and_congr_left fun _ => (or_iff_right_of_imp ?_).symm
    intro he
    cases he
    exact hatt

/-- An attach that adds the QP to an entry. -/
theorem PromiscInv.attach_joined (h : PromiscInv caps port st r chain) (hport : ¬ badPort caps port)
    (hi : StoredAt caps r.table chain i (gid, Protocol.eth.val) l) (hq : q ∉ l) {s' : McgState}
    (hs : Stores caps r.table s' chain chain i (gid, Protocol.eth.val) (l ++ [q])) :
    (attachOut caps q port .eth st ⟨s', false, false, some i, none⟩).2 = none ∧
      PromiscInv caps port st ⟨(attachOut caps q port .eth st ⟨s', false, false, some i, none⟩).1,
        (gid, Protocol.eth, q) :: r.attached⟩ chain := by
  have hp : q ∉ (r.table.steer port st).promiscQps :=
    fun hp => hq ((h.members i gid l hi q).mpr (.inr hp))
  have heq : attachOut caps q port .eth st ⟨s', false, false, some i, none⟩ = (s', none) := by
    simp [attachOut, existingSteeringEntry, if_neg hport, isPromisc, hs.steer, hp]
  have hreg := h.mem_index hi
  rw [heq]
  refine ⟨rfl, h.of_stores hs.table hs.stored hs.others (by rw [hs.steer])
    (fun gid' q' hg => cons_attached hg) ⟨q, mem_cons_self⟩ (fun q' => ?_) ?_ ?_
    (fun j l' hj => (h.table.chains.at_unique caps.hash_lt hj hi).1) ?_ ?_⟩
  · rw [mem_append, h.members i gid l hi q', mem_singleton, mem_cons]
    simp only [Prod.mk.injEq, true_and]
    tauto
  · rw [hs.steer]
    exact h.indices
  · intro j
    rw [hs.steer]
    exact ⟨.inr, fun hj => hj.elim (fun he => he ▸ hreg) id⟩
  · intro e he _
    rw [hs.steer] at he
    exact he
  · intro e he hei
    rw [hs.steer] at he
    obtain ⟨hnodup, hmem⟩ := h.duplicates e he gid l (hei ▸ hi)
    refine ⟨hnodup, fun q' => ?_⟩
    rw [hmem q', mem_cons]
    refine and_congr_left fun hp' => (or_iff_right_of_imp ?_).symm
    intro he
    cases he
    exact absurd hp' hp

theorem newSteeringEntry_spec (hport : ¬ badPort caps port) (h : Table caps s chain)
    (hi : StoredAt caps s chain i (gid, Protocol.eth.val) [q])
    (hnodup : (s.steer port st).promiscQps.Nodup)
    (hlt : ∀ p ∈ (s.steer port st).promiscQps, p < 2 ^ 24)
    (hfit : ((s.steer port st).promiscQps.filter (· ≠ q)).length < caps.numQpPerMgm) :
    ∃ s', newSteeringEntry caps s port st i q = (s', none) ∧ Table caps s' chain ∧
      (∀ j k l', StoredAt caps s' chain j k l' ↔
        ∃ l, StoredAt caps s chain j k l ∧
          (if j = i then l ++ (s.steer port st).promiscQps.filter (· ≠ q) else l) = l') ∧
      s'.steer port st = (s.steer port st).withEntries ((s.steer port st).steerEntries ++
        [⟨i, if isPromisc s port st q then [q] else []⟩]) := by
  obtain ⟨hne, hgid, hprot, hmem⟩ := Mgm.content_eq_some.mp hi.2
  have hcount : (s.mem i).count = 1 := by rw [← Mgm.length_members, hmem]; rfl
  rw [newSteeringEntry, if_neg hport]
  by_cases hnil : (s.steer port st).promiscQps = []
  · simp only [hnil, if_true]
    refine ⟨_, rfl, h.setSteer port st _, fun j k l' => ?_, ?_⟩
    · simp only [filter_nil, append_nil, ite_self, exists_eq_right]
      rfl
    · rw [setSteer_same]
  · obtain ⟨m', heq, hm, hg, hp, hn⟩ := @addPromiscQps_spec caps q _ hlt (s.mem i) (by omega)
    have hcontent : m'.content = some ((gid, Protocol.eth.val),
        [q] ++ (s.steer port st).promiscQps.filter (· ≠ q)) := by
      refine Mgm.content_eq_some.mpr ⟨by simp, hg.trans hgid, hp.trans hprot, ?_⟩
      rw [hm, hmem]
    obtain ⟨htable, hat⟩ := @Table.of_members caps s chain h (update s.mem i m')
      (fun j l => if j = i then l ++ (s.steer port st).promiscQps.filter (· ≠ q) else l)
      (fun j => by
        by_cases hj : j = i
        · rw [hj, update_self, hn]
        · rw [update_of_ne hj])
      (fun j => by
        by_cases hj : j = i
        · rw [hj, update_self, hcontent]
          have := hi.2
          simp only at this
          rw [this]
          simp
        · simp [hj])
      (fun j k l hj => by
        by_cases hji : j = i
        · subst hji
          have hc := hj.2.symm.trans hi.2
          simp only [Option.some.injEq, Prod.mk.injEq] at hc
          rw [if_pos rfl, hc.2]
          refine ⟨by rw [length_append, length_singleton]; omega,
            nodup_append.mpr ⟨by simp, hnodup.filter _, ?_⟩⟩
          intro a ha b hb he
          rw [mem_singleton] at ha
          simp [← he, ha] at hb
        · rw [if_neg hji]
          exact h.members j k l hj)
    simp only [if_neg hnil, heq]
    refine ⟨_, rfl, ⟨htable.chains, htable.amgms, htable.members⟩, hat, ?_⟩
    exact setSteer_same _ _ _ _

theorem PromiscInv.attach_created (h : PromiscInv caps port st r chain)
    (hport : ¬ badPort caps port)
    (hnone : ∀ j l, ¬ StoredAt caps r.table chain j (gid, Protocol.eth.val) l) {s' : McgState}
    {chain' : Nat → List Nat} (link : Bool)
    (hs : Stores caps r.table s' chain chain' i (gid, Protocol.eth.val) [q])
    (hfit : ((r.table.steer port st).promiscQps.filter (· ≠ q)).length < caps.numQpPerMgm) :
    (attachOut caps q port .eth st ⟨s', true, link, some i, none⟩).2 = none ∧
      PromiscInv caps port st ⟨(attachOut caps q port .eth st ⟨s', true, link, some i, none⟩).1,
        (gid, Protocol.eth, q) :: r.attached⟩ chain' := by
  obtain ⟨t, heq, htable, hat, hsteer⟩ := @newSteeringEntry_spec caps s' chain' port st gid i q
    hport hs.table hs.stored
    (by rw [hs.steer]; exact h.promisc_nodup) (by rw [hs.steer]; exact h.promisc_lt)
    (by rw [hs.steer]; exact hfit)
  have hout : attachOut caps q port .eth st ⟨s', true, link, some i, none⟩ = (t, none) := by
    simp [attachOut, heq]
  rw [hs.steer] at hat hsteer
  have hes : (t.steer port st).steerEntries = (r.table.steer port st).steerEntries ++
      [⟨i, if isPromisc s' port st q then [q] else []⟩] := by
    rw [hsteer]
    rfl
  have hunreg : i ∉ (r.table.steer port st).steerEntries.map SteerIndex.index := by
    intro hm
    obtain ⟨k, l', hj⟩ := (h.registered i).mp hm
    have hk : k ≠ (gid, Protocol.eth.val) := by rintro rfl; exact hnone i l' hj
    have hc := ((hs.others i k l' hk).mpr hj).2.symm.trans hs.stored.2
    simp only [Option.some.injEq, Prod.mk.injEq] at hc
    exact hk hc.1
  have hnot (q' : Nat) : (gid, Protocol.eth, q') ∉ r.attached := fun hm => by
    obtain ⟨j, l', hj⟩ := h.stored gid q' hm
    exact hnone j l' hj
  rw [hout]
  refine ⟨rfl, h.of_stores htable ((hat i _ _).mpr ⟨_, hs.stored, rfl⟩) (fun j k' l' hk' => ?_)
    (by rw [hsteer]; rfl) (fun gid' q' hg => cons_attached hg) ⟨q, mem_cons_self⟩
    (fun q' => ?_) ?_ ?_
    (fun j l' hj => absurd hj (hnone j l')) ?_ ?_⟩
  · rw [hat, ← hs.others j k' l' hk']
    -- the new entry has no other key
    have hji {l'' : List Nat} (hj : StoredAt caps s' chain' j k' l'') : j ≠ i := by
      rintro rfl
      have hc := hj.2.symm.trans hs.stored.2
      simp only [Option.some.injEq, Prod.mk.injEq] at hc
      exact hk' hc.1
    constructor
    · rintro ⟨l'', hj, rfl⟩
      rw [if_neg (hji hj)]
      exact hj
    · exact fun hj => ⟨l', hj, if_neg (hji hj)⟩
  · have hq' := hnot q'
    rw [if_pos rfl]
    simp only [mem_append, not_mem_nil, mem_filter, mem_cons, Prod.mk.injEq, true_and,
      hq', or_false, decide_eq_true_eq]
    tauto
  · rw [hes, map_append, map_singleton]
    refine nodup_append.mpr ⟨h.indices, by simp, fun a ha b hb he => ?_⟩
    have hai : a = i := he.trans (mem_singleton.mp hb)
    exact hunreg (hai ▸ ha)
  · intro j
    rw [hes, map_append, map_singleton, mem_append, mem_singleton, or_comm]
  · intro e he hei
    rw [hes, mem_append, mem_singleton] at he
    rcases he with he | rfl
    · exact he
    · exact absurd rfl hei
  · intro e he hei
    rw [hes, mem_append, mem_singleton] at he
    rcases he with he | rfl
    · exact absurd (hei ▸ mem_map_of_mem he) hunreg
    · have hpr : isPromisc s' port st q = true ↔ q ∈ (r.table.steer port st).promiscQps := by
        rw [isPromisc_iff, hs.steer]
      by_cases hp : q ∈ (r.table.steer port st).promiscQps
      · simp only [hpr.mpr hp, if_true]
        refine ⟨nodup_singleton _, fun q' => ?_⟩
        simp only [mem_cons, not_mem_nil, Prod.mk.injEq, true_and, hnot q', or_false]
        exact ⟨fun he => ⟨he, he ▸ hp⟩, fun he => he.1⟩
      · have hf : isPromisc s' port st q = false := by simpa using fun he => hp (hpr.mp he)
        simp only [hf, Bool.false_eq_true, if_false]
        refine ⟨nodup_nil, fun q' => ?_⟩
        simp only [not_mem_nil, mem_cons, Prod.mk.injEq, true_and, hnot q', or_false, false_iff,
          not_and]
        rintro rfl
        exact hp

end

/-! ## Detach -/

def otherQps (r : McgRun) (gid : Gid) (q : Nat) : List Nat :=
  (r.attached.filter fun x => x.1 = gid ∧ x.2.1 = .eth ∧ x.2.2 ≠ q).map (·.2.2)

theorem mem_otherQps {gid : Gid} {q q' : Nat} :
    q' ∈ otherQps r gid q ↔ (gid, Protocol.eth, q') ∈ r.attached ∧ q' ≠ q := by
  simp only [otherQps, mem_map, mem_filter, decide_eq_true_eq]
  constructor
  · rintro ⟨⟨g, p, x⟩, ⟨hm, rfl, rfl, hne⟩, rfl⟩
    exact ⟨hm, hne⟩
  · rintro ⟨hm, hne⟩
    exact ⟨_, ⟨hm, rfl, rfl, hne⟩, rfl⟩

section

variable {gid : Gid} {i q : Nat} {l : List Nat}

theorem filter_attached {gid' : Gid} {q' : Nat} (hg : gid' ≠ gid) :
    (gid', Protocol.eth, q') ∈ r.attached.filter (· ≠ (gid, Protocol.eth, q)) ↔
      (gid', Protocol.eth, q') ∈ r.attached := by
  rw [mem_filter, and_iff_left]
  simp only [ne_eq, Prod.mk.injEq, decide_eq_true_eq, not_and]
  exact fun hg' => absurd hg' hg

theorem filter_attached_self {q' : Nat} :
    (gid, Protocol.eth, q') ∈ r.attached.filter (· ≠ (gid, Protocol.eth, q)) ↔
      (gid, Protocol.eth, q') ∈ r.attached ∧ q' ≠ q := by
  simp

theorem promiscSteeringEntry_iff (hport : ¬ badPort caps port)
    (hi : StoredAt caps s chain i (gid, Protocol.eth.val) l) :
    promiscSteeringEntry caps s port st i q = true ↔
      ∀ q' ∈ l, q' ∈ (s.steer port st).promiscQps ∨ q' = q := by
  rw [promiscSteeringEntry, if_neg hport, hi.members_eq, all_eq_true]
  simp [isPromisc]

/-- The members of an entry after a QP is taken out. -/
theorem PromiscInv.pop_members (h : PromiscInv caps port st r chain)
    (hi : StoredAt caps r.table chain i (gid, Protocol.eth.val) l) {loc : Nat}
    (hloc : (r.table.mem i).findQp q = some loc) :
    ∀ q', q' ∈ ((r.table.mem i).pop loc Protocol.eth.val).members ↔ q' ∈ l ∧ q' ≠ q := by
  have hle := caps.qp_le
  have hcnt := h.table.count_lt hi
  obtain ⟨-, hnodup⟩ := h.table.members i _ l hi
  rw [← hi.members_eq] at hnodup
  intro q'
  rw [(Mgm.mem_members_pop (by omega) hnodup hloc).2 q', hi.members_eq]

/-- The last attached QP is detached: the entry goes, if no entry moves. -/
theorem PromiscInv.detach_last (h : PromiscInv caps port st r chain)
    {l' rest : List Nat} (hc : chain (caps.hash (gid, Protocol.eth.val)) = l' ++ i :: rest)
    (hi : StoredAt caps r.table chain i (gid, Protocol.eth.val) l)
    (hmoved : ¬ (l' = [] ∧ rest ≠ []))
    (hothers : otherQps r gid q = []) (t : Steer)
    (hpromisc : t.promiscQps = (r.table.steer port st).promiscQps)
    (hentries : t.steerEntries = (r.table.steer port st).steerEntries.filter (·.index ≠ i))
    (mgm : Mgm) (hnext : mgm.next = (r.table.mem i).next) (hzero : mgm.count = 0) :
    ∃ chain', PromiscInv caps port st
      ⟨deleteEntry caps (r.table.setSteer port st t) mgm l'.getLast? i,
        r.attached.filter (· ≠ (gid, Protocol.eth, q))⟩ chain' := by
  obtain ⟨chain', hd⟩ := deleteEntry_spec (s := r.table.setSteer port st t)
    (h.table.setSteer port st t) hc hi
    mgm hnext hzero
  refine ⟨chain', h.of_deletes hd.table hi (hd.same hmoved) ?_
    (fun gid' q' hg => filter_attached hg)
    (fun q' hq' => ?_) ?_⟩
  · rw [hd.steer, setSteer_same]
    exact hpromisc
  · rw [filter_attached_self, ← mem_otherQps, hothers] at hq'
    cases hq'
  · rw [hd.steer, setSteer_same]
    exact hentries

/-- A QP is detached and another one is left: the entry stays, with the new duplicates. -/
theorem PromiscInv.detach_one (h : PromiscInv caps port st r chain)
    (hi : StoredAt caps r.table chain i (gid, Protocol.eth.val) l) {t : McgState} {l' : List Nat}
    (htable : Table caps t chain) (hstored : StoredAt caps t chain i (gid, Protocol.eth.val) l')
    (hsame : ∀ j k' l', k' ≠ (gid, Protocol.eth.val) →
      (StoredAt caps t chain j k' l' ↔ StoredAt caps r.table chain j k' l'))
    (hothers : otherQps r gid q ≠ [])
    (hsteer : (t.steer port st).promiscQps = (r.table.steer port st).promiscQps ∧
      (t.steer port st).steerEntries =
        changeEntry (·.filter (· ≠ q)) i (r.table.steer port st).steerEntries)
    (hmembers : ∀ q', q' ∈ l' ↔ (gid, Protocol.eth, q') ∈ r.attached ∧ q' ≠ q ∨
      q' ∈ (r.table.steer port st).promiscQps) :
    PromiscInv caps port st ⟨t, r.attached.filter (· ≠ (gid, Protocol.eth, q))⟩ chain := by
  have hreg := h.mem_index hi
  obtain ⟨q', hq'⟩ := exists_mem_of_ne_nil _ hothers
  refine h.of_stores htable hstored hsame hsteer.1 (fun gid' q' hg => filter_attached hg)
    ⟨q', filter_attached_self.mpr (mem_otherQps.mp hq')⟩
    (fun q' => by rw [hmembers q', filter_attached_self]) ?_ ?_
    (fun j l' hj => (h.table.chains.at_unique caps.hash_lt hj hi).1) ?_ ?_
  · rw [hsteer.2, changeEntry_index]
    exact h.indices
  · intro j
    rw [hsteer.2, changeEntry_index]
    exact ⟨.inr, fun hj => hj.elim (fun he => he ▸ hreg) id⟩
  · intro e he hei
    rw [hsteer.2, mem_changeEntry] at he
    obtain ⟨e', he', hidx, hdup⟩ := he
    obtain rfl : e = e' := by cases e; cases e'; simp_all
    exact he'
  · intro e he hei
    rw [hsteer.2, mem_changeEntry] at he
    obtain ⟨e', he', hidx, hdup⟩ := he
    have hei' : e'.index = i := hidx ▸ hei
    rw [if_pos hei'] at hdup
    obtain ⟨hnodup, hmem⟩ := h.duplicates e' he' gid l (hei' ▸ hi)
    rw [hdup]
    refine ⟨hnodup.filter _, fun q' => ?_⟩
    rw [mem_filter, hmem q', filter_attached_self, decide_eq_true_eq, and_right_comm]

end

/-- A detach that the driver gets right. If the QP is promiscuous, either no other QP is
attached to the GID or one that is not promiscuous is. If it is the last attached QP and
the entry is the bucket of its chain, no entry follows. -/
def DetachOk (caps : McgCaps) (port : Nat) (st : SteerType) (r : McgRun) (gid : Gid)
    (q : Nat) : Prop :=
  (q ∈ (r.table.steer port st).promiscQps →
    otherQps r gid q = [] ∨ ∃ q' ∈ otherQps r gid q, q' ∉ (r.table.steer port st).promiscQps) ∧
  (otherQps r gid q = [] → (gid, Protocol.eth, q) ∈ r.attached →
    (r.table.mem (caps.hash (gid, Protocol.eth.val))).gid = gid →
    (r.table.mem (caps.hash (gid, Protocol.eth.val))).next = 0)

instance (caps : McgCaps) (port : Nat) (st : SteerType) (r : McgRun) (gid : Gid) (q : Nat) :
    Decidable (DetachOk caps port st r gid q) :=
  inferInstanceAs (Decidable (_ ∧ _))

section

variable {gid : Gid} {i q : Nat} {l : List Nat}

theorem changeEntry_filter (f : List Nat → List Nat) (i : Nat) (es : List SteerIndex) :
    (changeEntry f i es).filter (·.index ≠ i) = es.filter (·.index ≠ i) := by
  induction es with
  | nil => rfl
  | cons e es ih =>
    have hcons : changeEntry f i (e :: es) =
        (if e.index = i then { e with duplicates := f e.duplicates } else e) ::
          changeEntry f i es := rfl
    rw [hcons]
    by_cases he : e.index = i
    · rw [if_pos he, filter_cons_of_neg (by simpa using he), filter_cons_of_neg (by simpa using he),
        ih]
    · rw [if_neg he, filter_cons_of_pos (by simpa using he), filter_cons_of_pos (by simpa using he),
        ih]

theorem changeEntry_eq_self {f : List Nat → List Nat} {i : Nat} {es : List SteerIndex}
    (h : ∀ e ∈ es, e.index = i → f e.duplicates = e.duplicates) : changeEntry f i es = es := by
  conv_rhs => rw [← map_id es]
  refine map_congr_left fun e he => ?_
  split
  next hi => rw [h e he hi]; rfl
  · rfl

/-- The links of a bucket whose entry goes. -/
theorem PromiscInv.not_moved (h : PromiscInv caps port st r chain)
    (hok : DetachOk caps port st r gid q)
    {l' rest : List Nat} (hc : chain (caps.hash (gid, Protocol.eth.val)) = l' ++ i :: rest)
    (hi : StoredAt caps r.table chain i (gid, Protocol.eth.val) l) (hothers : otherQps r gid q = [])
    (hq : (gid, Protocol.eth, q) ∈ r.attached) : ¬ (l' = [] ∧ rest ≠ []) := by
  rintro ⟨rfl, hrest⟩
  have hb := caps.hash_lt (gid, Protocol.eth.val)
  obtain ⟨t, ht⟩ := h.table.chains.start _ hb
  have hib : i = caps.hash (gid, Protocol.eth.val) := by
    rw [hc] at ht
    exact (List.cons.inj ht).1
  have hlinked := h.table.chains.linked _ hb
  rw [hc] at hlinked
  have hnext := hok.2 hothers hq (hib ▸ (Mgm.content_eq_some.mp hi.2).2.1)
  cases rest with
  | nil => exact hrest rfl
  | cons x rest =>
    have hx : (r.table.mem i).next = x := hlinked.1
    rw [← hib, hx] at hnext
    have hmem : x ∈ chain (caps.hash (gid, Protocol.eth.val)) := by rw [hc]; simp
    have hnodup := h.table.chains.nodup _ hb
    rw [hc] at hnodup
    have hxi : x ≠ caps.hash (gid, Protocol.eth.val) := by
      rintro he
      exact (nodup_cons.mp hnodup).1 (by rw [hib, ← he]; simp)
    have := (h.table.chains.overflow _ hb x hmem).resolve_left hxi
    omega

theorem PromiscInv.detach_promisc (h : PromiscInv caps port st r chain)
    (hport : ¬ badPort caps port)
    (hgid : gid.port = port) (hok : DetachOk caps port st r gid q)
    {l' rest : List Nat} (hc : chain (caps.hash (gid, Protocol.eth.val)) = l' ++ i :: rest)
    (hi : StoredAt caps r.table chain i (gid, Protocol.eth.val) l)
    (hfound : findEntry caps r.table gid .eth = .entry (r.table.mem i) l'.getLast? (some i))
    (hp : q ∈ (r.table.steer port st).promiscQps) :
    (qpDetachCommon caps r.table true q gid .eth st).2 = none ∧
      ∃ chain', PromiscInv caps port st ⟨(qpDetachCommon caps r.table true q gid .eth st).1,
        r.attached.filter (· ≠ (gid, Protocol.eth, q))⟩ chain' := by
  have hreg := h.mem_index hi
  have hmem := h.members i gid l hi
  -- the steering entries without the duplicate
  generalize hes : changeEntry (·.filter (· ≠ q)) i (r.table.steer port st).steerEntries = es
  have hcheck : checkDuplicateEntry caps r.table port st i q =
      (r.table.setSteer port st ((r.table.steer port st).withEntries es), true) := by
    simp [checkDuplicateEntry, if_neg hport, isPromisc_iff.mpr hp,
      updateEntry_eq_some h.indices hreg, ← hes]
  have hiff : promiscSteeringEntry caps
      (r.table.setSteer port st ((r.table.steer port st).withEntries es)) port st i q = true ↔
      ∀ q' ∈ l, q' ∈ (r.table.steer port st).promiscQps ∨ q' = q := by
    rw [← setEntries_promiscQps r.table port st (r.table.steer port st) es]
    exact promiscSteeringEntry_iff hport hi
  by_cases hall : ∀ q' ∈ l, q' ∈ (r.table.steer port st).promiscQps ∨ q' = q
  · -- all members are promiscuous, so this is the last attached QP
    have hothers : otherQps r gid q = [] := by
      rcases hok.1 hp with hnil | ⟨q', hq', hnp⟩
      · exact hnil
      · obtain ⟨ha, hne⟩ := mem_otherQps.mp hq'
        exact absurd (hall q' ((hmem q').mpr (.inl ha))) (not_or.mpr ⟨hnp, hne⟩)
    have hq : (gid, Protocol.eth, q) ∈ r.attached := by
      obtain ⟨q', hq'⟩ := h.attached i gid l hi
      by_cases hne : q' = q
      · exact hne ▸ hq'
      · have := mem_otherQps.mpr ⟨hq', hne⟩
        rw [hothers] at this
        cases this
    have hql : q ∈ (r.table.mem i).members := by rw [hi.members_eq]; exact (hmem q).mpr (.inr hp)
    obtain ⟨loc, hloc⟩ := Option.isSome_iff_exists.mp (Mgm.findQp_isSome.mpr hql)
    obtain ⟨e, he, hei⟩ := mem_map.mp hreg
    have hremove : removeSteerEntries i (r.table.mem i).count es =
        ((r.table.steer port st).steerEntries.filter (·.index ≠ i), true) := by
      have hdup : e.duplicates.filter (· ≠ q) = [] := by
        rw [filter_eq_nil_iff]
        intro q' hq' hne
        rw [decide_eq_true_eq] at hne
        have := ((h.duplicates e he gid l (hei ▸ hi)).2 q').mp hq'
        have hmem' := mem_otherQps.mpr ⟨this.1, hne⟩
        rw [hothers] at hmem'
        cases hmem'
      have he' : (⟨i, e.duplicates.filter (· ≠ q)⟩ : SteerIndex) ∈ es := by
        rw [← hes, mem_changeEntry]
        exact ⟨e, he, hei.symm, by rw [if_pos hei]⟩
      rw [removeSteerEntries_eq (by rw [← hes, changeEntry_index]; exact h.indices) he' rfl,
        if_pos (.inl hdup), ← hes, changeEntry_filter]
    have hcan : canRemoveSteeringEntry caps
        (r.table.setSteer port st ((r.table.steer port st).withEntries es)) port st i q =
        (r.table.setSteer port st ((r.table.steer port st).withEntries
          ((r.table.steer port st).steerEntries.filter (·.index ≠ i))), true) := by
      rw [canRemoveSteeringEntry, if_neg hport, hiff.mpr hall]
      simp only [Bool.not_true, Bool.false_eq_true, if_false]
      rw [setSteer_same, setSteer_setSteer]
      show (r.table.setSteer port st ((r.table.steer port st).withEntries
        (removeSteerEntries i (r.table.mem i).count es).1),
          (removeSteerEntries i (r.table.mem i).count es).2) = _
      rw [hremove]
    have heq : qpDetachCommon caps r.table true q gid .eth st =
        (deleteEntry caps (r.table.setSteer port st ((r.table.steer port st).withEntries
          ((r.table.steer port st).steerEntries.filter (·.index ≠ i))))
          (((r.table.mem i).pop loc Protocol.eth.val).withNoMembers Protocol.eth.val) l'.getLast?
            i, none) := by
      simp [qpDetachCommon, hfound, hgid, hcheck, hiff.mpr hall, hloc, hcan]
    rw [heq]
    exact ⟨rfl, h.detach_last hc hi (h.not_moved hok hc hi hothers hq) hothers
      ((r.table.steer port st).withEntries
        ((r.table.steer port st).steerEntries.filter (·.index ≠ i))) rfl rfl
      (((r.table.mem i).pop loc Protocol.eth.val).withNoMembers Protocol.eth.val) rfl
      (Mgm.packCount_and (by omega))⟩
  · -- a member that is not promiscuous stays attached
    have hfalse : promiscSteeringEntry caps
        (r.table.setSteer port st ((r.table.steer port st).withEntries es)) port st i
          q = false := by
      rw [← Bool.not_eq_true, hiff]
      exact hall
    have heq : qpDetachCommon caps r.table true q gid .eth st =
        (r.table.setSteer port st ((r.table.steer port st).withEntries es), none) := by
      simp [qpDetachCommon, hfound, hgid, hcheck, hfalse]
    rw [heq]
    refine ⟨rfl, chain, h.detach_one hi (h.table.setSteer port st _) hi
      (fun _ _ _ _ => Iff.rfl) ?_ ?_
      fun q' => ?_⟩
    · intro hnil
      simp only [not_forall, not_or] at hall
      obtain ⟨q', hq', hnp, hne⟩ := hall
      have hatt := ((hmem q').mp hq').resolve_right hnp
      have := mem_otherQps.mpr ⟨hatt, hne⟩
      rw [hnil] at this
      cases this
    · exact ⟨setEntries_promiscQps _ _ _ _ _, (setEntries_steerEntries _ _ _ _ _).trans hes.symm⟩
    · rw [hmem q']
      by_cases hq' : q' = q
      · simp [hq', hp]
      · simp [hq']

theorem PromiscInv.detach_plain (h : PromiscInv caps port st r chain) (hport : ¬ badPort caps port)
    (hgid : gid.port = port) (hok : DetachOk caps port st r gid q)
    {l' rest : List Nat} (hc : chain (caps.hash (gid, Protocol.eth.val)) = l' ++ i :: rest)
    (hi : StoredAt caps r.table chain i (gid, Protocol.eth.val) l)
    (hfound : findEntry caps r.table gid .eth = .entry (r.table.mem i) l'.getLast? (some i))
    (hp : q ∉ (r.table.steer port st).promiscQps) (hql : q ∈ l) :
    (qpDetachCommon caps r.table true q gid .eth st).2 = none ∧
      ∃ chain', PromiscInv caps port st ⟨(qpDetachCommon caps r.table true q gid .eth st).1,
        r.attached.filter (· ≠ (gid, Protocol.eth, q))⟩ chain' := by
  have hmem := h.members i gid l hi
  have hq : (gid, Protocol.eth, q) ∈ r.attached := ((hmem q).mp hql).resolve_right hp
  obtain ⟨loc, hloc⟩ := Option.isSome_iff_exists.mp
    (Mgm.findQp_isSome.mpr (hi.members_eq.symm ▸ hql))
  have hpop := h.pop_members hi hloc
  have hcheck : checkDuplicateEntry caps r.table port st i q = (r.table, false) := by
    simp [checkDuplicateEntry, isPromisc, hp]
  obtain ⟨e, he, hei⟩ := mem_map.mp (h.mem_index hi)
  obtain ⟨-, hdup⟩ := h.duplicates e he gid l (hei ▸ hi)
  have hiff : promiscSteeringEntry caps r.table port st i q = true ↔
      ∀ q' ∈ l, q' ∈ (r.table.steer port st).promiscQps ∨ q' = q :=
        promiscSteeringEntry_iff hport hi
  -- an attached QP other than `q` is a member that stays
  have hleft {q' : Nat} (hq' : q' ∈ otherQps r gid q) :
      ((r.table.mem i).pop loc Protocol.eth.val).count ≠ 0 := by
    obtain ⟨ha, hne⟩ := mem_otherQps.mp hq'
    intro hz
    have hin := (hpop q').mpr ⟨(hmem q').mpr (.inl ha), hne⟩
    rw [Mgm.members_of_count hz] at hin
    cases hin
  by_cases hdel : otherQps r gid q = []
  · -- the duplicates are empty, and so the entry goes
    have hall : promiscSteeringEntry caps r.table port st i q = true := by
      refine hiff.mpr fun q' hq' => ?_
      rcases (hmem q').mp hq' with ha | hp'
      · refine .inr ?_
        by_contra hne
        have := mem_otherQps.mpr ⟨ha, hne⟩
        rw [hdel] at this
        cases this
      · exact .inl hp'
    have hnodup : e.duplicates = [] := by
      refine eq_nil_iff_forall_not_mem.mpr fun q' hq' => ?_
      obtain ⟨ha, hp'⟩ := (hdup q').mp hq'
      have hne : q' ≠ q := fun hne => hp (hne ▸ hp')
      have := mem_otherQps.mpr ⟨ha, hne⟩
      rw [hdel] at this
      cases this
    have hcan : canRemoveSteeringEntry caps r.table port st i q =
        (r.table.setSteer port st ((r.table.steer port st).withEntries
          ((r.table.steer port st).steerEntries.filter (·.index ≠ i))), true) := by
      rw [canRemoveSteeringEntry, if_neg hport, hall]
      simp only [Bool.not_true, Bool.false_eq_true, if_false]
      rw [removeSteerEntries_eq h.indices he hei, if_pos (.inl hnodup)]
    have heq : qpDetachCommon caps r.table true q gid .eth st =
        (deleteEntry caps (r.table.setSteer port st ((r.table.steer port st).withEntries
          ((r.table.steer port st).steerEntries.filter (·.index ≠ i))))
          (((r.table.mem i).pop loc Protocol.eth.val).withNoMembers Protocol.eth.val) l'.getLast?
            i, none) := by
      simp [qpDetachCommon, hfound, hgid, hcheck, hloc, hcan]
    rw [heq]
    exact ⟨rfl, h.detach_last hc hi (h.not_moved hok hc hi hdel hq) hdel
      ((r.table.steer port st).withEntries
        ((r.table.steer port st).steerEntries.filter (·.index ≠ i))) rfl rfl
      (((r.table.mem i).pop loc Protocol.eth.val).withNoMembers Protocol.eth.val) rfl
      (Mgm.packCount_and (by omega))⟩
  · -- the entry stays
    obtain ⟨q', hq'⟩ := exists_mem_of_ne_nil _ hdel
    have hcan : canRemoveSteeringEntry caps r.table port st i q = (r.table, false) := by
      rw [canRemoveSteeringEntry, if_neg hport]
      by_cases hall : promiscSteeringEntry caps r.table port st i q = true
      · simp only [hall, Bool.not_true, Bool.false_eq_true, if_false]
        obtain ⟨ha, hne⟩ := mem_otherQps.mp hq'
        have hp' := ((hiff.mp hall) q' ((hmem q').mpr (.inl ha))).resolve_right hne
        have hd : e.duplicates ≠ [] := ne_nil_of_mem ((hdup q').mpr ⟨ha, hp'⟩)
        have hone : (r.table.mem i).count ≠ 1 := by
          intro hone
          have hlen : l.length = 1 := by rw [← hi.members_eq, Mgm.length_members, hone]
          obtain ⟨x, rfl⟩ := length_eq_one_iff.mp hlen
          rw [mem_singleton] at hql
          have := (hmem q').mpr (.inl ha)
          rw [mem_singleton] at this
          exact hne (this.trans hql.symm)
        rw [removeSteerEntries_eq h.indices he hei, if_neg (not_or.mpr ⟨hd, hone⟩)]
        exact Prod.ext (setSteer_self _ _ _) rfl
      · simp [hall]
    have heq : qpDetachCommon caps r.table true q gid .eth st =
        (r.table.writeEntry i ((r.table.mem i).pop loc Protocol.eth.val), none) := by
      simp [qpDetachCommon, hfound, hgid, hcheck, hloc, hcan, hleft hq']
    have hs : Stores caps r.table _ chain chain i (gid, Protocol.eth.val) _ :=
      store_pop h.table hi hloc (hleft hq')
    rw [heq]
    refine ⟨rfl, chain, h.detach_one hi hs.table hs.stored hs.others hdel
      ⟨by rw [hs.steer], ?_⟩ fun x => ?_⟩
    · rw [hs.steer, changeEntry_eq_self]
      intro e' he' hei'
      rw [filter_eq_self]
      intro x hx
      have := ((h.duplicates e' he' gid l (hei' ▸ hi)).2 x).mp hx
      simpa using fun hxq : x = q => hp (hxq ▸ this.2)
    · rw [hpop x, hmem x]
      constructor
      · rintro ⟨ha | hpx, hne⟩
        · exact .inl ⟨ha, hne⟩
        · exact .inr hpx
      · rintro (⟨ha, hne⟩ | hpx)
        · exact ⟨.inl ha, hne⟩
        · exact ⟨.inr hpx, fun hne => hp (hne ▸ hpx)⟩

end

section

variable {q : Nat}

/-- A steering index names an entry with its key. -/
theorem PromiscInv.stored_index (h : PromiscInv caps port st r chain) {i : Nat}
    (hi : i ∈ (r.table.steer port st).steerEntries.map SteerIndex.index) :
    ∃ gid l, StoredAt caps r.table chain i (gid, Protocol.eth.val) l := by
  obtain ⟨⟨gid, p⟩, l, hl⟩ := (h.registered i).mp hi
  have hp := h.eth i _ l hl
  exact ⟨gid, l, hp ▸ hl⟩

/-- The same entries with other members, promiscuous QPs and duplicates. -/
theorem PromiscInv.rebuild (h : PromiscInv caps port st r chain) {mem : Nat → Mgm} {t : Steer}
    {f : Nat → List Nat → List Nat} (htable : Table caps { r.table with mem := mem } chain)
    (hat : ∀ i k l', StoredAt caps { r.table with mem := mem } chain i k l' ↔
      ∃ l, StoredAt caps r.table chain i k l ∧ f i l = l')
    (hindex : t.steerEntries.map SteerIndex.index =
      (r.table.steer port st).steerEntries.map SteerIndex.index)
    (hnodup : t.promiscQps.Nodup) (hlt : ∀ x ∈ t.promiscQps, x < 2 ^ 24)
    (hmembers : ∀ i gid l, StoredAt caps r.table chain i (gid, Protocol.eth.val) l →
      ∀ x, x ∈ f i l ↔ (gid, Protocol.eth, x) ∈ r.attached ∨ x ∈ t.promiscQps)
    (hduplicates : ∀ e ∈ t.steerEntries, ∀ gid l,
      StoredAt caps r.table chain e.index (gid, Protocol.eth.val) l →
      e.duplicates.Nodup ∧ ∀ x, x ∈ e.duplicates ↔
        (gid, Protocol.eth, x) ∈ r.attached ∧ x ∈ t.promiscQps) :
    PromiscInv caps port st
      { r with table := { r.table with mem := mem }.setSteer port st t } chain := by
  constructor
  case table => exact htable.setSteer port st _
  case promisc_nodup => rwa [setSteer_same]
  case promisc_lt => rwa [setSteer_same]
  case eth =>
    intro i k l' hi
    obtain ⟨l, hl, -⟩ := (hat i k l').mp hi
    exact h.eth i k l hl
  case stored =>
    intro gid x hx
    obtain ⟨i, l, hl⟩ := h.stored gid x hx
    exact ⟨i, _, (hat i _ _).mpr ⟨l, hl, rfl⟩⟩
  case attached =>
    intro i gid l' hi
    obtain ⟨l, hl, -⟩ := (hat i _ l').mp hi
    exact h.attached i gid l hl
  case members =>
    intro i gid l' hi
    obtain ⟨l, hl, rfl⟩ := (hat i _ l').mp hi
    rw [setSteer_same]
    exact hmembers i gid l hl
  case indices =>
    rw [setSteer_same, hindex]
    exact h.indices
  case registered =>
    intro i
    rw [setSteer_same, hindex, h.registered]
    constructor
    · rintro ⟨k, l, hl⟩
      exact ⟨k, _, (hat i k _).mpr ⟨l, hl, rfl⟩⟩
    · rintro ⟨k, l', hi⟩
      obtain ⟨l, hl, -⟩ := (hat i k l').mp hi
      exact ⟨k, l, hl⟩
  case duplicates =>
    intro e he gid l' hi
    obtain ⟨l, hl, -⟩ := (hat e.index _ l').mp hi
    rw [setSteer_same] at he ⊢
    exact hduplicates e he gid l hl

/-- A promiscuous QP is added to every entry. -/
theorem PromiscInv.add (h : PromiscInv caps port st r chain) (hport : ¬ badPort caps port)
    (hmfunc : caps.mfunc = false) (hq : q < 2 ^ 24)
    (hfit : ∀ e ∈ (r.table.steer port st).steerEntries,
      q ∉ (r.table.mem e.index).members → (r.table.mem e.index).count ≠ caps.numQpPerMgm)
    (hlen : (r.table.steer port st).promiscQps.length < caps.numQpPerMgm) :
    PromiscInv caps port st { r with table := (addPromiscQp caps r.table port st q).1 } chain := by
  by_cases hp : q ∈ (r.table.steer port st).promiscQps
  · have heq : addPromiscQp caps r.table port st q = (r.table, none) := by
      simp [addPromiscQp, if_neg hport, isPromisc_iff.mpr hp]
    rw [heq]
    exact h
  have hqle := caps.qp_le
  have hadd := @addToEntries_eq caps q _ _ h.indices hfit
  generalize hmem : (fun i => if i ∈ (r.table.steer port st).steerEntries.map SteerIndex.index ∧
    q ∉ (r.table.mem i).members then (r.table.mem i).push (q &&& mgmQpnMask) (r.table.mem i).prot
    else r.table.mem i) = mem at hadd
  generalize hes : ((r.table.steer port st).steerEntries.map fun e =>
    ({ e with duplicates := e.duplicates ++ (r.table.mem e.index).members.filter (· = q) } :
    SteerIndex)) = es
    at hadd
  have heq : addPromiscQp caps r.table port st q =
      ({ r.table with mem := mem }.setSteer port st
        { promiscQps := (r.table.steer port st).promiscQps ++ [q]
          steerEntries := es
          defaultEntry := promiscEntry ((r.table.steer port st).promiscQps ++ [q]) }, none) := by
    have hlen' : ¬ caps.numQpPerMgm < (r.table.steer port st).promiscQps.length + 1 := by omega
    simp [addPromiscQp, if_neg hport, isPromisc, hp, hmfunc, hadd, Steer.withEntries, hlen']
  -- the members of the entries in use
  have hpush {i : Nat} {k : Gid × Nat} {l : List Nat} (hi : StoredAt caps r.table chain i k l)
      (hnot : q ∉ l) : (r.table.mem i).count + 1 < 2 ^ 24 ∧ l.length < caps.numQpPerMgm := by
    obtain ⟨e, he, hei⟩ := mem_map.mp (h.mem_index hi)
    have hfull := hfit e he (by rw [hei, hi.members_eq]; exact hnot)
    have hcnt := h.table.count_lt hi
    rw [hei] at hfull
    rw [← hi.members_eq, Mgm.length_members]
    omega
  obtain ⟨htable, hat⟩ := @Table.of_members caps r.table chain h.table mem
    (fun i l => if i ∈ (r.table.steer port st).steerEntries.map SteerIndex.index ∧
    q ∉ l then l ++ [q] else l)
    (fun i => by
      simp only [← hmem]
      split <;> rfl)
    (fun i => by
      simp only [← hmem]
      split
      next hcond =>
        obtain ⟨gid, l, hi⟩ := h.stored_index hcond.1
        have hcontent : (r.table.mem i).content = some ((gid, Protocol.eth.val), l) := hi.2
        have hnot : q ∉ l := hi.members_eq ▸ hcond.2
        obtain ⟨-, hg, hpr, -⟩ := Mgm.content_eq_some.mp hcontent
        rw [hcontent, Option.map_some, if_pos ⟨hcond.1, hnot⟩]
        refine Mgm.content_eq_some.mpr ⟨by simp, hg, ?_, ?_⟩
        · exact (Mgm.prot_push (hpush hi hnot).1).trans hpr
        · rw [Mgm.members_push (hpush hi hnot).1, hi.members_eq, and_mgmQpnMask hq]
      next hcond =>
        cases hc : (r.table.mem i).content with
        | none => rfl
        | some e =>
          have hl := (Mgm.content_eq_some.mp hc).2.2.2
          rw [Option.map_some, if_neg (hl ▸ hcond)])
    (fun i k l hi => by
      split
      next hcond =>
        obtain ⟨-, hnodup⟩ := h.table.members i k l hi
        refine ⟨?_, nodup_append.mpr ⟨hnodup, by simp, fun a ha b hb he =>
          hcond.2 ((he.trans (mem_singleton.mp hb)) ▸ ha)⟩⟩
        rw [length_append, length_singleton]
        exact (hpush hi hcond.2).2
      · exact h.table.members i k l hi)
  have hmapidx : es.map SteerIndex.index = (r.table.steer port st).steerEntries.map
    SteerIndex.index := by
    rw [← hes, map_map]
    rfl
  rw [heq]
  refine h.rebuild htable hat hmapidx ?_ ?_ ?_ ?_
  · exact nodup_append.mpr ⟨h.promisc_nodup, by simp, fun a ha b hb he =>
      hp ((he.trans (mem_singleton.mp hb)) ▸ ha)⟩
  · simp only [mem_append, mem_singleton]
    rintro x (hx | rfl)
    · exact h.promisc_lt x hx
    · exact hq
  · intro i gid l hl x
    have hmx := h.members i gid l hl
    simp only [mem_append, mem_singleton, h.mem_index hl, true_and]
    by_cases hql : q ∈ l
    · rw [if_neg (not_not.mpr hql), hmx x]
      have := (hmx q).mp hql
      constructor
      · tauto
      · rintro (ha | hpx | rfl)
        · exact .inl ha
        · exact .inr hpx
        · exact this
    · rw [if_pos hql, mem_append, mem_singleton, hmx x]
      tauto
  · intro e he gid l hl
    simp only [← hes] at he
    obtain ⟨e', he', rfl⟩ := mem_map.mp he
    obtain ⟨hnodup, hdup⟩ := h.duplicates e' he' gid l hl
    obtain ⟨-, hlnodup⟩ := h.table.members _ _ l hl
    have hmx := h.members e'.index gid l hl
    have hqd : q ∉ e'.duplicates := fun hd => hp ((hdup q).mp hd).2
    simp only [hl.members_eq]
    refine ⟨nodup_append.mpr ⟨hnodup, hlnodup.filter _, fun a ha b hb he => ?_⟩, fun x => ?_⟩
    · have hbq : b = q := by simpa using (mem_filter.mp hb).2
      exact hqd ((he.trans hbq) ▸ ha)
    · rw [mem_append, hdup x, mem_filter, hmx x, mem_append, mem_singleton,
        decide_eq_true_eq]
      constructor
      · rintro (⟨ha, hpx⟩ | ⟨ha | hpx, rfl⟩)
        · exact ⟨ha, .inl hpx⟩
        · exact ⟨ha, .inr rfl⟩
        · exact absurd hpx hp
      · rintro ⟨ha, hpx | rfl⟩
        · exact .inl ⟨ha, hpx⟩
        · exact .inr ⟨.inl ha, rfl⟩

/-- A promiscuous QP is taken out of the entries it is not attached to. -/
theorem PromiscInv.remove (h : PromiscInv caps port st r chain) (hport : ¬ badPort caps port)
    (hmfunc : caps.mfunc = false) :
    PromiscInv caps port st { r with table :=
      (removePromiscQp caps r.table port st q).1 } chain := by
  by_cases hp : q ∉ (r.table.steer port st).promiscQps
  · have heq : removePromiscQp caps r.table port st q = (r.table, none) := by
      simp [removePromiscQp, if_neg hport, isPromisc, hp]
    rw [heq]
    exact h
  rw [not_not] at hp
  have hremove := @removeFromEntries_eq q r.table.mem _ h.indices fun e he _ => by
    obtain ⟨gid, l, hl⟩ := h.stored_index (mem_map_of_mem he)
    rw [hl.members_eq]
    exact (h.members _ gid l hl q).mpr (.inr hp)
  generalize hmem : (fun i => if ∃ e ∈ (r.table.steer port st).steerEntries,
    e.index = i ∧ q ∉ e.duplicates then (r.table.mem i).remove q Protocol.eth.val else
      r.table.mem i) = mem
    at hremove
  generalize hes : ((r.table.steer port st).steerEntries.map fun e =>
    ({ e with duplicates := e.duplicates.erase q } : SteerIndex)) = es at hremove
  have heq : removePromiscQp caps r.table port st q =
      ({ r.table with mem := mem }.setSteer port st
        { promiscQps := (r.table.steer port st).promiscQps.erase q
          steerEntries := es
          defaultEntry := promiscEntry ((r.table.steer port st).promiscQps.erase q) }, none) := by
    simp [removePromiscQp, if_neg hport, isPromisc_iff.mpr hp, hmfunc, hremove]
  have hkeep (x : Nat) : x ∈ (r.table.steer port st).promiscQps.erase q ↔
      x ∈ (r.table.steer port st).promiscQps ∧ x ≠ q := by
    rw [h.promisc_nodup.mem_erase_iff, and_comm]
  -- an entry that does not list the QP loses it, and keeps an attached one
  have hlose {i : Nat} {gid : Gid} {l : List Nat}
      (hi : StoredAt caps r.table chain i (gid, Protocol.eth.val) l)
      (hcond : ∃ e ∈ (r.table.steer port st).steerEntries, e.index = i ∧ q ∉ e.duplicates) :
      ((r.table.mem i).remove q Protocol.eth.val).content =
          some ((gid, Protocol.eth.val), ((r.table.mem i).remove q Protocol.eth.val).members) ∧
        ((r.table.mem i).remove q Protocol.eth.val).members.length ≤ caps.numQpPerMgm ∧
        ((r.table.mem i).remove q Protocol.eth.val).members.Nodup ∧
        (∀ x, x ∈ ((r.table.mem i).remove q Protocol.eth.val).members ↔ x ∈ l ∧ x ≠ q) ∧
        (gid, Protocol.eth, q) ∉ r.attached := by
    obtain ⟨e, he, rfl, hqd⟩ := hcond
    have hmx := h.members e.index gid l hi
    obtain ⟨-, hdup⟩ := h.duplicates e he gid l hi
    have hna : (gid, Protocol.eth, q) ∉ r.attached := fun ha => hqd ((hdup q).mpr ⟨ha, hp⟩)
    have hql : q ∈ (r.table.mem e.index).members := by
      rw [hi.members_eq]; exact (hmx q).mpr (.inr hp)
    obtain ⟨loc, hloc⟩ := Option.isSome_iff_exists.mp (Mgm.findQp_isSome.mpr hql)
    have hpop : (r.table.mem e.index).remove q Protocol.eth.val =
        (r.table.mem e.index).pop loc Protocol.eth.val := by rw [Mgm.remove, hloc]
    have hmem' := h.pop_members hi hloc
    obtain ⟨q', hq'⟩ := h.attached e.index gid l hi
    have hleft : ((r.table.mem e.index).pop loc Protocol.eth.val).count ≠ 0 := by
      intro hz
      have hin := (hmem' q').mpr ⟨(hmx q').mpr (.inl hq'), fun he => hna (he ▸ hq')⟩
      rw [Mgm.members_of_count hz] at hin
      cases hin
    have hs : Stores caps r.table _ chain chain e.index (gid, Protocol.eth.val) _ :=
      store_pop h.table hi hloc hleft
    obtain ⟨hlen, hnodup⟩ := hs.table.members _ _ _ hs.stored
    have hcontent := hs.stored.2
    simp only [writeEntry_mem, if_true] at hcontent
    rw [hpop]
    exact ⟨hcontent, hlen, hnodup, hmem', hna⟩
  obtain ⟨htable, hat⟩ := @Table.of_members caps r.table chain h.table mem
    (fun i l => if ∃ e ∈ (r.table.steer port st).steerEntries, e.index = i ∧ q ∉ e.duplicates then
      ((r.table.mem i).remove q Protocol.eth.val).members else l)
    (fun i => by
      simp only [← hmem]
      split
      · rw [Mgm.remove]
        split <;> rfl
      · rfl)
    (fun i => by
      simp only [← hmem]
      split
      next hcond =>
        obtain ⟨gid, l, hi⟩ : ∃ gid l, StoredAt caps r.table chain i (gid, Protocol.eth.val) l := by
          obtain ⟨e, he, rfl, -⟩ := hcond
          exact h.stored_index (mem_map_of_mem he)
        have hcontent : (r.table.mem i).content = some ((gid, Protocol.eth.val), l) := hi.2
        rw [(hlose hi hcond).1, hcontent, Option.map_some]
      · simp)
    (fun i k l hi => by
      split
      next hcond =>
        obtain ⟨gid, p⟩ := k
        have hpe := h.eth i _ l hi
        subst hpe
        exact ⟨(hlose hi hcond).2.1, (hlose hi hcond).2.2.1⟩
      · exact h.table.members i k l hi)
  have hmapidx : es.map SteerIndex.index = (r.table.steer port st).steerEntries.map
    SteerIndex.index := by
    rw [← hes, map_map]
    rfl
  rw [heq]
  refine h.rebuild htable hat hmapidx (h.promisc_nodup.erase q)
    (fun x hx => h.promisc_lt x ((hkeep x).mp hx).1) ?_ ?_
  · intro i gid l hl x
    have hmx := h.members i gid l hl
    simp only [hkeep]
    split
    next hcond =>
      obtain ⟨-, -, -, hx, hna⟩ := hlose hl hcond
      rw [hx x, hmx x]
      constructor
      · rintro ⟨ha | hpx, hne⟩
        · exact .inl ha
        · exact .inr ⟨hpx, hne⟩
      · rintro (ha | ⟨hpx, hne⟩)
        · exact ⟨.inl ha, fun he => hna (he ▸ ha)⟩
        · exact ⟨.inr hpx, hne⟩
    next hcond =>
      -- the QP is attached here
      obtain ⟨e, he, hei⟩ := mem_map.mp (h.mem_index hl)
      have hqd : q ∈ e.duplicates := by
        by_contra hqd
        exact hcond ⟨e, he, hei, hqd⟩
      have hqa := (((h.duplicates e he gid l (hei ▸ hl)).2 q).mp hqd).1
      rw [hmx x]
      constructor
      · rintro (ha | hpx)
        · exact .inl ha
        · by_cases hxq : x = q
          · exact .inl (hxq ▸ hqa)
          · exact .inr ⟨hpx, hxq⟩
      · rintro (ha | ⟨hpx, -⟩)
        · exact .inl ha
        · exact .inr hpx
  · intro e he gid l hl
    simp only [← hes] at he
    obtain ⟨e', he', rfl⟩ := mem_map.mp he
    obtain ⟨hnodup, hdup⟩ := h.duplicates e' he' gid l hl
    simp only [hkeep]
    refine ⟨hnodup.erase q, fun x => ?_⟩
    rw [hnodup.mem_erase_iff, hdup x]
    tauto

end

/-! ## Every run -/

/-- Calls for one port and steering type. -/
inductive PromiscCall where
  | attach (mailboxes : Bool) (qpn : Fin (2 ^ 24)) (gid : Gid) (blockMcastLoopback : Bool)
  | detach (mailboxes : Bool) (qpn : Fin (2 ^ 24)) (gid : Gid)
  | add (qpn : Fin (2 ^ 24))
  | remove (qpn : Fin (2 ^ 24))

def promiscStep (caps : McgCaps) (port : Nat) (st : SteerType) (r : McgRun) : PromiscCall → McgRun
  | .attach mailboxes qpn gid block => mcgStep caps r (.attach mailboxes qpn gid block .eth st)
  | .detach mailboxes qpn gid => mcgStep caps r (.detach mailboxes qpn gid .eth st)
  | .add qpn => { r with table := (addPromiscQp caps r.table port st qpn).1 }
  | .remove qpn => { r with table := (removePromiscQp caps r.table port st qpn).1 }

/-- The port of a GID is the one of the run. -/
def PromiscCall.OnPort (port : Nat) : PromiscCall → Prop
  | .attach _ _ gid _ => gid.port = port
  | .detach _ _ gid => gid.port = port
  | _ => True

def Found.HasRoom (caps : McgCaps) (q : Nat) : Found → Prop
  | .entry mgm _ (some _) => q ∈ mgm.members ∨ mgm.count ≠ caps.numQpPerMgm
  | _ => True

/-- No QP has to be put into a full entry. -/
def NoOverflow (caps : McgCaps) (port : Nat) (st : SteerType) (r : McgRun) : PromiscCall → Prop
  | .attach _ qpn gid _ =>
    (findEntry caps r.table gid .eth).HasRoom caps qpn ∧
    ((r.table.steer port st).promiscQps.filter (· ≠ qpn.val)).length < caps.numQpPerMgm
  | .detach _ _ _ => True
  | .add qpn =>
    (∀ e ∈ (r.table.steer port st).steerEntries,
      qpn.val ∉ (r.table.mem e.index).members → (r.table.mem e.index).count ≠ caps.numQpPerMgm) ∧
    (r.table.steer port st).promiscQps.length < caps.numQpPerMgm
  | .remove _ => True

/-- The condition on detaches. -/
def PromiscCall.Ok (caps : McgCaps) (port : Nat) (st : SteerType) (r : McgRun) : PromiscCall → Prop
  | .detach _ qpn gid => DetachOk caps port st r gid qpn
  | _ => True

instance (port : Nat) : DecidablePred (PromiscCall.OnPort port)
  | .attach _ _ gid _ => inferInstanceAs (Decidable (gid.port = port))
  | .detach _ _ gid => inferInstanceAs (Decidable (gid.port = port))
  | .add _ => .isTrue trivial
  | .remove _ => .isTrue trivial

instance (caps : McgCaps) (q : Nat) : DecidablePred (Found.HasRoom caps q)
  | .entry mgm _ (some _) =>
    inferInstanceAs (Decidable (q ∈ mgm.members ∨ mgm.count ≠ caps.numQpPerMgm))
  | .entry _ _ none => .isTrue trivial
  | .zeroMgid _ => .isTrue trivial
  | .running => .isTrue trivial

instance (caps : McgCaps) (port : Nat) (st : SteerType) (r : McgRun) :
    DecidablePred (NoOverflow caps port st r)
  | .attach _ _ _ _ => inferInstanceAs (Decidable (_ ∧ _))
  | .detach _ _ _ => .isTrue trivial
  | .add _ => inferInstanceAs (Decidable (_ ∧ _))
  | .remove _ => .isTrue trivial

instance (caps : McgCaps) (port : Nat) (st : SteerType) (r : McgRun) :
    DecidablePred (PromiscCall.Ok caps port st r)
  | .attach _ _ _ _ => .isTrue trivial
  | .detach _ qpn gid => inferInstanceAs (Decidable (DetachOk caps port st r gid qpn))
  | .add _ => .isTrue trivial
  | .remove _ => .isTrue trivial

theorem attach_promiscInv (h : PromiscInv caps port st r chain) (hport : ¬ badPort caps port)
    {mailboxes : Bool} {qpn : Fin (2 ^ 24)} {gid : Gid} {block : Bool} (hgid : gid.port = port)
    (hfit : NoOverflow caps port st r (.attach mailboxes qpn gid block)) :
    ∃ chain', PromiscInv caps port st
      (promiscStep caps port st r (.attach mailboxes qpn gid block)) chain' := by
  cases mailboxes with
  | false => exact ⟨chain, h⟩
  | true =>
    have hspec := attachEntry_spec h.table qpn.isLt gid block .eth
    simp only [promiscStep, mcgStep, qpAttachCommon, if_true, hgid]
    generalize ha : attachEntry caps r.table qpn gid block .eth = a at hspec
    cases hspec with
    | @noEntry b hb htable _ =>
      have hc := h.table.chains
      rw [← htable] at hc
      exact ⟨chain, { h with table := ⟨hc, hb, h.table.members⟩ }⟩
    | @full i l hi hfull =>
      -- a full entry has the QP already
      obtain ⟨l', rest, -, hfound⟩ := findEntry_stored h.table hi
      have hq : qpn.val ∈ l := by
        have hcase := hfit.1
        rw [hfound] at hcase
        have hcount : (r.table.mem i).count = caps.numQpPerMgm := by
          rw [← Mgm.length_members, hi.members_eq, hfull]
        exact hi.members_eq ▸ hcase.resolve_right (not_not.mpr hcount)
      obtain ⟨herr, hinv⟩ := h.attach_member hport hi hq (some .enomem)
      simp only [herr, if_true]
      exact ⟨chain, hinv⟩
    | @member i l hi hq =>
      obtain ⟨herr, hinv⟩ := h.attach_member hport hi hq none
      simp only [herr, if_true]
      exact ⟨chain, hinv⟩
    | @joined i l s' hi hq hs =>
      obtain ⟨herr, hinv⟩ := h.attach_joined hport hi hq hs
      simp only [herr, if_true]
      exact ⟨chain, hinv⟩
    | @created i s' chain' link hnone hs =>
      obtain ⟨herr, hinv⟩ := h.attach_created hport hnone link hs hfit.2
      simp only [herr, if_true]
      exact ⟨chain', hinv⟩

theorem detach_promiscInv (h : PromiscInv caps port st r chain) (hport : ¬ badPort caps port)
    {mailboxes : Bool} {qpn : Fin (2 ^ 24)} {gid : Gid} (hgid : gid.port = port)
    (hok : DetachOk caps port st r gid qpn) :
    ∃ chain', PromiscInv caps port st
      (promiscStep caps port st r (.detach mailboxes qpn gid)) chain' := by
  cases mailboxes with
  | false => exact ⟨chain, h⟩
  | true =>
    simp only [promiscStep, mcgStep]
    by_cases hstored : ∃ i l, StoredAt caps r.table chain i (gid, Protocol.eth.val) l
    · obtain ⟨i, l, hi⟩ := hstored
      obtain ⟨l', rest, hc, hfound⟩ := findEntry_stored h.table hi
      by_cases hp : qpn.val ∈ (r.table.steer port st).promiscQps
      · obtain ⟨herr, hinv⟩ := h.detach_promisc hport hgid hok hc hi hfound hp
        simp only [herr, if_true]
        exact hinv
      · by_cases hql : qpn.val ∈ l
        · obtain ⟨herr, hinv⟩ := h.detach_plain hport hgid hok hc hi hfound hp hql
          simp only [herr, if_true]
          exact hinv
        · -- neither attached nor promiscuous: the call fails
          have hnone : (r.table.mem i).findQp qpn = none := by
            rw [Mgm.findQp_eq_none, hi.members_eq]
            exact hql
          have hcheck : checkDuplicateEntry caps r.table port st i qpn = (r.table, false) := by
            simp [checkDuplicateEntry, isPromisc, hp]
          have heq : qpDetachCommon caps r.table true qpn gid .eth st =
            (r.table, some .einval) := by
            simp [qpDetachCommon, hfound, hgid, hcheck, hnone]
          simp only [heq]
          exact ⟨chain, h⟩
    · -- there is no entry for this GID
      have hfind := findEntry_spec h.table gid .eth
      have heq : qpDetachCommon caps r.table true qpn gid .eth st = (r.table, some .einval) := by
        cases hfound : findEntry caps r.table gid .eth with
        | running | zeroMgid =>
          rw [hfound] at hfind
          cases hfind
        | entry mgm prev index =>
          rw [hfound] at hfind
          cases hfind with
          | @hit _ _ _ j _ hj => exact absurd ⟨j, _, hj⟩ hstored
          | empty hz =>
            have hnone : (r.table.mem (caps.hash (gid, Protocol.eth.val))).findQp qpn = none := by
              rw [Mgm.findQp_eq_none, Mgm.members_of_count (Mgm.content_eq_none.mp hz)]
              exact not_mem_nil
            have hunreg : caps.hash (gid, Protocol.eth.val) ∉
                (r.table.steer port st).steerEntries.map SteerIndex.index := by
              intro hm
              obtain ⟨k, l, hl⟩ := (h.registered _).mp hm
              have hc := hl.2
              simp only [hz] at hc
              cases hc
            have hcheck : checkDuplicateEntry caps r.table port st
              (caps.hash (gid, Protocol.eth.val)) qpn =
                (r.table, false) := by
              unfold checkDuplicateEntry
              simp only [updateEntry_eq_none hunreg]
              split
              · rfl
              · split <;> rfl
            simp [qpDetachCommon, hfound, hgid, hcheck, hnone]
          | missing hc hhead hnone => simp [qpDetachCommon, hfound]
      simp only [heq]
      exact ⟨chain, h⟩

/-- In every run whose detaches meet the condition, every entry with an attached QP has exactly
the attached and the promiscuous QPs. -/
theorem promisc_steering_every_run (caps : McgCaps) (port : Nat) (st : SteerType)
    (bitmap : BitmapAllocator) (amgm : Nat → Mgm) (defaultEntry : Mgm) (calls : List PromiscCall)
    (hb : initMcgTable caps true = some bitmap) (hmfunc : caps.mfunc = false)
    (hport : ¬ badPort caps port)
    (hcalls : Run.Steps (promiscStep caps port st)
      (fun r c => (c.OnPort port ∧ NoOverflow caps port st r c) ∧ c.Ok caps port st r)
      (.start caps bitmap amgm fun _ _ => ⟨[], [], defaultEntry⟩) calls) :
    ∀ r ∈ Run.states (promiscStep caps port st)
      (.start caps bitmap amgm fun _ _ => ⟨[], [], defaultEntry⟩) calls,
        Covered caps port st r := by
  have hnone := @start_not_stored caps bitmap amgm fun _ _ => ⟨[], [], defaultEntry⟩
  have hstart : PromiscInv caps port st (.start caps bitmap amgm fun _ _ => ⟨[], [], defaultEntry⟩)
      fun b => [b] :=
    { table := (start_mcgInv hb amgm fun _ _ => ⟨[], [], defaultEntry⟩).table
      promisc_nodup := nodup_nil
      promisc_lt := nofun
      eth := fun i k l hi => absurd hi (hnone i k l)
      stored := nofun
      attached := fun i gid l hi => absurd hi (hnone i _ l)
      members := fun i gid l hi => absurd hi (hnone i _ l)
      indices := nodup_nil
      registered := fun i => ⟨nofun, fun ⟨k, l, hi⟩ => absurd hi (hnone i k l)⟩
      duplicates := nofun }
  have hinv : ∀ r ∈ Run.states (promiscStep caps port st)
      (.start caps bitmap amgm fun _ _ => ⟨[], [], defaultEntry⟩) calls,
      ∃ chain, PromiscInv caps port st r chain := by
    refine hcalls.invariant (fun r c hr hc => ?_) ⟨_, hstart⟩
    obtain ⟨chain, h⟩ := hr
    obtain ⟨⟨hon, hfit⟩, hok⟩ := hc
    cases c with
    | attach mailboxes qpn gid block => exact attach_promiscInv h hport hon hfit
    | detach mailboxes qpn gid => exact detach_promiscInv h hport hon hok
    | add qpn => exact ⟨chain, h.add hport hmfunc qpn.isLt hfit.1 hfit.2⟩
    | remove qpn => exact ⟨chain, h.remove hport hmfunc⟩
  intro r hr
  obtain ⟨chain, h⟩ := hinv r hr
  exact h.covered

def oneBucketBitmap : BitmapAllocator where
  last := 0
  top := 0
  max := 1
  reservedTop := 0
  mask := 0
  avail := 1
  effectiveLen := 1
  table := Bitmap.zero.setRange 0 0

def oneBucketStart : McgRun :=
  .start oneBucket oneBucketBitmap (fun _ => Mgm.zero) fun _ _ => ⟨[], [], Mgm.zero⟩

theorem oneBucket_init : initMcgTable oneBucket true = some oneBucketBitmap := by
  have hpow : oneBucket.numAmgms = roundupPowOfTwo oneBucket.numAmgms :=
    (BitmapState.roundupPowOfTwo_pow 0).symm
  have hsub : U32.sub 1 0 = 1 := U32.sub_of_le (by decide) (by decide)
  have hone : oneBucket.numAmgms = 1 := rfl
  rw [initMcgTable, bitmapInit, if_neg (fun hne => hne hpow), if_pos rfl, hone, hsub, hsub]
  rfl

def portGid : Gid := Vector.replicate 16 1

def otherGid : Gid := portGid.set 0 2

attribute [local instance] neZero_qpns

/-- A QP is attached, another becomes promiscuous and stops, and the first is detached. -/
def promiscCalls : List PromiscCall :=
  [.attach true 7 portGid false, .add 8, .remove 8, .detach true 7 portGid]

theorem promisc_steering_calls :
    Run.Steps (promiscStep oneBucket 1 .mc)
      (fun r c => (c.OnPort 1 ∧ NoOverflow oneBucket 1 .mc r c) ∧ c.Ok oneBucket 1 .mc r)
      oneBucketStart promiscCalls ∧
    ∀ r ∈ Run.states (promiscStep oneBucket 1 .mc) oneBucketStart promiscCalls,
      Covered oneBucket 1 .mc r := by
  have hcalls : Run.Steps (promiscStep oneBucket 1 .mc)
      (fun r c => (c.OnPort 1 ∧ NoOverflow oneBucket 1 .mc r c) ∧ c.Ok oneBucket 1 .mc r)
      oneBucketStart promiscCalls := by decide +kernel
  exact ⟨hcalls, promisc_steering_every_run oneBucket 1 .mc oneBucketBitmap _ _ promiscCalls
    oneBucket_init rfl
    (by decide) hcalls⟩

/-- Two promiscuous QPs are attached, and one is detached. -/
def detachPromiscCalls : List PromiscCall :=
  [.add 7, .add 8, .attach true 7 portGid false, .attach true 8 portGid false,
    .detach true 7 portGid]

/-- Two groups in one chain, and the first is left by its only QP. -/
def moveEntryCalls : List PromiscCall :=
  [.attach true 7 portGid false, .attach true 8 otherGid false, .detach true 7 portGid]

/-- After the first run the promiscuous QP is no longer in the entry; after the second the moved
entry has no steering index. -/
theorem detach_uncovers :
    (Run.Steps (promiscStep oneBucket 1 .mc)
    (fun r c => c.OnPort 1 ∧ NoOverflow oneBucket 1 .mc r c)
      oneBucketStart detachPromiscCalls ∧
    ¬ Covered oneBucket 1 .mc
      (Run.final (promiscStep oneBucket 1 .mc) oneBucketStart detachPromiscCalls)) ∧
    (Run.Steps (promiscStep oneBucket 1 .mc)
    (fun r c => c.OnPort 1 ∧ NoOverflow oneBucket 1 .mc r c)
      oneBucketStart moveEntryCalls ∧
    ¬ Covered oneBucket 1 .mc
      (Run.final (promiscStep oneBucket 1 .mc) oneBucketStart moveEntryCalls)) := by
  refine ⟨⟨by decide +kernel, fun hcov => ?_⟩, ⟨by decide +kernel, fun hcov => ?_⟩⟩
  · obtain ⟨mgm, prev, i, hfound, hmem, -⟩ := hcov portGid ⟨8, by decide +kernel⟩
    have hseven := (hmem 7).mpr (.inr (by decide +kernel))
    have hentry : (match findEntry oneBucket
        (Run.final (promiscStep oneBucket 1 .mc) oneBucketStart detachPromiscCalls).table
          portGid .eth with
      | .entry mgm _ _ => decide (7 ∉ mgm.members)
      | _ => true) = true := by decide +kernel
    rw [hfound] at hentry
    exact of_decide_eq_true hentry hseven
  · obtain ⟨mgm, prev, i, hfound, -, ⟨e, he, hei⟩, -⟩ := hcov otherGid ⟨8, by decide +kernel⟩
    have hentry : (match findEntry oneBucket
        (Run.final (promiscStep oneBucket 1 .mc) oneBucketStart moveEntryCalls).table
          otherGid .eth with
      | .entry _ _ index => index == some 0
      | _ => true) = true := by decide +kernel
    have hindex : ∀ e ∈ ((Run.final (promiscStep oneBucket 1 .mc) oneBucketStart
      moveEntryCalls).table.steer 1
        .mc).steerEntries, e.index = 1 := by decide +kernel
    rw [hfound] at hentry
    have hzero : i = 0 := by simpa using hentry
    have := hindex e he
    omega

end Mlx4
