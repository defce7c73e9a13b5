-- SUMMARY: The timewait_infos of a node and the two tables that link them.
import OfaKernel.IbCm.Handlers

/-!
# The store of timewait_infos

`Store` is what holds of the memory, the two tables and `timewait_list`, and `Touches` how far an
operation on one timewait_info reaches.
-/

open Function

namespace IbCm

/-! ## Projections -/

namespace TimewaitInfo

@[simp]
theorem key_setInserted (t : TimewaitInfo) (tb tb' : TwTable) (b : Bool) :
    (t.setInserted tb b).key tb' = t.key tb' := by
  cases tb <;> cases tb' <;> rfl

@[simp]
theorem inserted_setInserted_self (t : TimewaitInfo) (tb : TwTable) (b : Bool) :
    (t.setInserted tb b).inserted tb = b := by
  cases tb <;> rfl

@[simp]
theorem queued_setInserted (t : TimewaitInfo) (tb : TwTable) (b : Bool) :
    (t.setInserted tb b).queued = t.queued := by
  cases tb <;> rfl

theorem inserted_setInserted_of_ne (t : TimewaitInfo) {tb tb' : TwTable} (b : Bool)
    (h : tb' ≠ tb) : (t.setInserted tb b).inserted tb' = t.inserted tb' := by
  cases tb <;> cases tb' <;> first | rfl | exact absurd rfl h

theorem setInserted_of_eq {t : TimewaitInfo} {tb : TwTable} {b : Bool} (h : t.inserted tb = b) :
    t.setInserted tb b = t := by
  subst h
  cases tb <;> rfl

/-- It is linked in neither table. -/
def Loose (t : TimewaitInfo) : Prop := ∀ tb, t.inserted tb = false

end TimewaitInfo

namespace Cm

variable (s : Cm) (l r : Nat) (p : CmIdPrivate) (t : TimewaitInfo) (tb : TwTable)
  (tree : SearchTree Nat)

@[simp] theorem setId_ids : (s.setId l p).ids = update s.ids l (some p) := rfl
@[simp] theorem setId_mem : (s.setId l p).mem = s.mem := rfl
@[simp] theorem setId_brk : (s.setId l p).brk = s.brk := rfl
@[simp] theorem setId_tables : (s.setId l p).tables = s.tables := rfl
@[simp] theorem setId_timewaitList : (s.setId l p).timewaitList = s.timewaitList := rfl
@[simp] theorem setId_faults : (s.setId l p).faults = s.faults := rfl
@[simp] theorem setTw_ids : (s.setTw r t).ids = s.ids := rfl
@[simp] theorem setTw_mem : (s.setTw r t).mem = update s.mem r (some t) := rfl
@[simp] theorem setTw_brk : (s.setTw r t).brk = s.brk := rfl
@[simp] theorem setTw_tables : (s.setTw r t).tables = s.tables := rfl
@[simp] theorem setTw_timewaitList : (s.setTw r t).timewaitList = s.timewaitList := rfl
@[simp] theorem setTw_faults : (s.setTw r t).faults = s.faults := rfl
@[simp] theorem setTable_ids : (s.setTable tb tree).ids = s.ids := rfl
@[simp] theorem setTable_mem : (s.setTable tb tree).mem = s.mem := rfl
@[simp] theorem setTable_brk : (s.setTable tb tree).brk = s.brk := rfl
@[simp] theorem setTable_tables :
    (s.setTable tb tree).tables = update s.tables tb tree := rfl
@[simp] theorem setTable_timewaitList : (s.setTable tb tree).timewaitList = s.timewaitList := rfl
@[simp] theorem setTable_faults : (s.setTable tb tree).faults = s.faults := rfl

theorem key_of_mem {s : Cm} {r : Nat} {t : TimewaitInfo} (h : s.mem r = some t) (tb : TwTable) :
    s.key tb r = t.key tb := by
  simp [key, h]

theorem key_congr {s s' : Cm} {r : Nat} (h : s'.mem r = s.mem r) (tb : TwTable) :
    s'.key tb r = s.key tb r := by
  simp [key, h]

theorem kfree_setId (ptr : TwPtr) : (s.setId l p).kfree ptr = (s.kfree ptr).setId l p := by
  cases ptr with
  | null => rfl
  | err => rfl
  | ref r =>
    have hset : ∀ (c : Prop) [Decidable c] (a b : Cm),
        (if c then a else b).setId l p = if c then a.setId l p else b.setId l p :=
      fun c _ a b => apply_ite (fun s : Cm => s.setId l p) c a b
    conv_rhs => rw [kfree, hset, hset]
    rfl

end Cm

/-! ## The store -/

structure Store (s : Cm) : Prop where
  faults : s.faults = []
  fresh : ∀ r, s.brk ≤ r → s.mem r = none
  exact : ∀ tb r, r ∈ (s.tables tb).toList ↔ ∃ t, s.mem r = some t ∧ t.inserted tb = true
  ordered : ∀ tb, (s.tables tb).OrderedBy (s.key tb)
  nodup : s.timewaitList.Nodup
  listed : ∀ r ∈ s.timewaitList, ∃ t, s.mem r = some t ∧ t.Loose
  queued : ∀ r t, s.mem r = some t → t.queued = true → r ∈ s.timewaitList

/-- Nothing but the timewait_infos in `R` differs, no cm_id does, and no key. -/
structure Touches (R : Nat → Prop) (s s' : Cm) : Prop where
  ids : s'.ids = s.ids
  mem : ∀ q, ¬ R q → s'.mem q = s.mem q
  list : ∀ q, ¬ R q → (q ∈ s'.timewaitList ↔ q ∈ s.timewaitList)
  brk : s.brk ≤ s'.brk
  dead : ∀ q, q < s.brk → s.mem q = none → s'.mem q = none
  keys : ∀ q t t', s.mem q = some t → s'.mem q = some t' → ∀ tb, t'.key tb = t.key tb

theorem Store.lt_brk {s : Cm} (h : Store s) {r : Nat} {t : TimewaitInfo} (hr : s.mem r = some t) :
    r < s.brk := by
  by_contra hlt
  rw [h.fresh r (Nat.le_of_not_lt hlt)] at hr
  cases hr

namespace Touches

variable {R : Nat → Prop} {s s' s'' : Cm}

theorem refl : Touches R s s where
  ids := rfl
  mem _ _ := rfl
  list _ _ := Iff.rfl
  brk := Nat.le_refl _
  dead _ _ h := h
  keys _ _ _ h h' tb := by
    rw [h] at h'
    cases h'
    rfl

theorem trans (hs : Store s) (h : Touches R s s') (h' : Touches R s' s'') : Touches R s s'' where
  ids := h'.ids.trans h.ids
  mem q hq := (h'.mem q hq).trans (h.mem q hq)
  list q hq := (h'.list q hq).trans (h.list q hq)
  brk := h.brk.trans h'.brk
  dead q hq hnone := h'.dead q (hq.trans_le h.brk) (h.dead q hq hnone)
  keys q t t'' ht ht'' tb := by
    cases ht' : s'.mem q with
    | none =>
      rw [h'.dead q ((hs.lt_brk ht).trans_le h.brk) ht'] at ht''
      cases ht''
    | some t' => exact (h'.keys q t' t'' ht' ht'' tb).trans (h.keys q t t' ht ht' tb)

theorem mono {R' : Nat → Prop} (h : Touches R s s') (hR : ∀ q, R q → R' q) :
    Touches R' s s' where
  ids := h.ids
  mem q hq := h.mem q fun hr => hq (hR q hr)
  list q hq := h.list q fun hr => hq (hR q hr)
  brk := h.brk
  dead := h.dead
  keys := h.keys

end Touches

section

variable {cfg : Config} {s s' : Cm} {r : Nat} {t t' : TimewaitInfo} {tb : TwTable}

/-- What is linked in no table may be overwritten, and enter or leave `timewait_list`. -/
theorem Store.write (h : Store s) (hr : s.mem r = some t) (hloose : t.Loose)
    (hloose' : t'.Loose) {list : List Nat} (hnodup : list.Nodup)
    (hlist : ∀ q, q ≠ r → (q ∈ list ↔ q ∈ s.timewaitList))
    (hqueued : t'.queued = true → r ∈ list) :
    Store { s.setTw r t' with timewaitList := list } where
  faults := h.faults
  fresh q hq := by
    have hne : q ≠ r := fun heq => by
      have := h.lt_brk hr
      simp only [Cm.setTw_brk] at hq
      omega
    simp only [Cm.setTw_mem, update_of_ne hne]
    exact h.fresh q hq
  exact tb q := by
    simp only [Cm.setTw_tables, Cm.setTw_mem]
    rw [h.exact]
    by_cases hq : q = r
    · subst hq
      simp [hr, hloose tb, hloose' tb]
    · rw [update_of_ne hq]
  ordered tb := by
    refine (h.ordered tb).congr fun q hq => Cm.key_congr ?_ tb
    refine update_of_ne ?_ _ _
    rintro rfl
    obtain ⟨t₀, ht₀, hins⟩ := (h.exact tb q).mp hq
    rw [hr] at ht₀
    cases ht₀
    simp [hloose tb] at hins
  nodup := hnodup
  listed q hq := by
    simp only [Cm.setTw_mem]
    by_cases hqr : q = r
    · subst hqr
      exact ⟨t', by simp, hloose'⟩
    · rw [update_of_ne hqr]
      exact h.listed q ((hlist q hqr).mp hq)
  queued q t₀ ht₀ hq := by
    simp only [Cm.setTw_mem] at ht₀
    by_cases hqr : q = r
    · subst hqr
      obtain rfl : t' = t₀ := by simpa using ht₀
      exact hqueued hq
    · rw [update_of_ne hqr] at ht₀
      exact (hlist q hqr).mpr (h.queued q t₀ ht₀ hq)

/-- One timewait_info is written, with its keys as they are. -/
theorem Touches.of_mem {mem : Option TimewaitInfo} (hr : s.mem r = some t)
    (hids : s'.ids = s.ids) (hmem : s'.mem = update s.mem r mem)
    (hlist : ∀ q, q ≠ r → (q ∈ s'.timewaitList ↔ q ∈ s.timewaitList)) (hbrk : s'.brk = s.brk)
    (hkey : ∀ t', mem = some t' → ∀ tb, t'.key tb = t.key tb) : Touches (· = r) s s' where
  ids := hids
  mem q hq := by rw [hmem, update_of_ne hq]
  list := hlist
  brk := Nat.le_of_eq hbrk.symm
  dead q _ hnone := by
    have hne : q ≠ r := by
      rintro rfl
      rw [hr] at hnone
      cases hnone
    rw [hmem, update_of_ne hne, hnone]
  keys q t₀ t' h₀ h' := by
    rw [hmem] at h'
    by_cases hq : q = r
    · subst hq
      rw [hr] at h₀
      cases h₀
      rw [update_self] at h'
      exact hkey t' h'
    · rw [update_of_ne hq, h₀] at h'
      cases h'
      exact fun _ => rfl

theorem touches_write (hr : s.mem r = some t) (hkey : ∀ tb, t'.key tb = t.key tb)
    {list : List Nat} (hlist : ∀ q, q ≠ r → (q ∈ list ↔ q ∈ s.timewaitList)) :
    Touches (· = r) s { s.setTw r t' with timewaitList := list } :=
  .of_mem hr rfl rfl hlist rfl fun _ h => by
    cases h
    exact hkey

/-- An allocation. -/
theorem Store.alloc (h : Store s) (hloose : t.Loose) (hqueued : t.queued = false) :
    Store { s.setTw s.brk t with brk := s.brk + 1 } where
  faults := h.faults
  fresh q hq := by
    have hne : q ≠ s.brk := by
      simp only at hq
      omega
    change update s.mem s.brk (some t) q = none
    rw [update_of_ne hne]
    exact h.fresh q (by simp only at hq; omega)
  exact tb q := by
    change q ∈ (s.tables tb).toList ↔ ∃ t', update s.mem s.brk (some t) q = some t' ∧ _
    rw [h.exact]
    by_cases hq : q = s.brk
    · subst hq
      simp [h.fresh s.brk (Nat.le_refl _), hloose tb]
    · rw [update_of_ne hq]
  ordered tb := by
    refine (h.ordered tb).congr fun q hq => Cm.key_congr ?_ tb
    refine update_of_ne ?_ _ _
    rintro rfl
    obtain ⟨t₀, ht₀, -⟩ := (h.exact tb _).mp hq
    rw [h.fresh s.brk (Nat.le_refl _)] at ht₀
    cases ht₀
  nodup := h.nodup
  listed q hq := by
    obtain ⟨t₀, ht₀, hloose₀⟩ := h.listed q hq
    have hlt := h.lt_brk ht₀
    refine ⟨t₀, ?_, hloose₀⟩
    change update s.mem s.brk (some t) q = some t₀
    rw [update_of_ne (by omega)]
    exact ht₀
  queued q t₀ ht₀ hq := by
    change update s.mem s.brk (some t) q = some t₀ at ht₀
    by_cases hqr : q = s.brk
    · subst hqr
      obtain rfl : t = t₀ := by simpa using ht₀
      rw [hqueued] at hq
      cases hq
    · rw [update_of_ne hqr] at ht₀
      exact h.queued q t₀ ht₀ hq

theorem touches_alloc (h : Store s) (t : TimewaitInfo) :
    Touches (· = s.brk) s { s.setTw s.brk t with brk := s.brk + 1 } where
  ids := rfl
  mem q hq := update_of_ne hq _ _
  list _ _ := Iff.rfl
  brk := Nat.le_succ _
  dead q hq hnone := by
    change update s.mem s.brk (some t) q = none
    rw [update_of_ne (Nat.ne_of_lt hq), hnone]
  keys q t₀ t' h₀ h' := by
    have hne := Nat.ne_of_lt (h.lt_brk h₀)
    change update s.mem s.brk (some t) q = some t' at h'
    rw [update_of_ne hne, h₀] at h'
    cases h'
    exact fun _ => rfl

/-! ## Linking -/

/-- A timewait_info is linked in a table or taken out, with its flag. -/
theorem Store.relink (h : Store s) (hr : s.mem r = some t) (hlist : r ∉ s.timewaitList) (b : Bool)
    {tree : SearchTree Nat} (hord : tree.OrderedBy (s.key tb))
    (hmem : ∀ q, q ∈ tree.toList ↔ (q = r ∧ b = true) ∨ (q ≠ r ∧ q ∈ (s.tables tb).toList)) :
    Store ((s.setTw r (t.setInserted tb b)).setTable tb tree) := by
  refine ⟨h.faults, ?_, ?_, ?_, h.nodup, ?_, ?_⟩
  · intro q hq
    have hne : q ≠ r := by
      have := h.lt_brk hr
      simp only [Cm.setTable_brk, Cm.setTw_brk] at hq
      omega
    simp only [Cm.setTable_mem, Cm.setTw_mem, update_of_ne hne]
    exact h.fresh q hq
  · intro tb' q
    simp only [Cm.setTable_mem, Cm.setTw_mem, Cm.setTable_tables, Cm.setTw_tables]
    by_cases htb : tb' = tb
    · subst htb
      rw [update_self, hmem, h.exact]
      by_cases hq : q = r
      · subst hq
        simp
      · simp [hq]
    · rw [update_of_ne htb, h.exact]
      by_cases hq : q = r
      · subst hq
        simp [hr, TimewaitInfo.inserted_setInserted_of_ne _ _ htb]
      · rw [update_of_ne hq]
  · intro tb'
    -- the flags are no part of the keys
    have hkey : ∀ q, ((s.setTw r (t.setInserted tb b)).setTable tb tree).key tb' q =
        s.key tb' q := by
      intro q
      by_cases hq : q = r
      · subst hq
        rw [Cm.key_of_mem hr, Cm.key_of_mem (t := t.setInserted tb b) (by simp),
          TimewaitInfo.key_setInserted]
      · exact Cm.key_congr (by simp [hq]) tb'
    simp only [Cm.setTable_tables, Cm.setTw_tables]
    by_cases htb : tb' = tb
    · subst htb
      rw [update_self]
      exact hord.congr fun q _ => hkey q
    · rw [update_of_ne htb]
      exact (h.ordered tb').congr fun q _ => hkey q
  · intro q hq
    have hne : q ≠ r := fun heq => hlist (heq ▸ hq)
    simp only [Cm.setTable_mem, Cm.setTw_mem, update_of_ne hne]
    exact h.listed q hq
  · intro q t₀ ht₀ hq
    simp only [Cm.setTable_mem, Cm.setTw_mem] at ht₀
    by_cases hqr : q = r
    · subst hqr
      obtain rfl : t.setInserted tb b = t₀ := by simpa using ht₀
      exact h.queued q t hr (by simpa using hq)
    · rw [update_of_ne hqr] at ht₀
      exact h.queued q t₀ ht₀ hq

theorem touches_relink (hr : s.mem r = some t) {b : Bool} {tree : SearchTree Nat} :
    Touches (· = r) s ((s.setTw r (t.setInserted tb b)).setTable tb tree) :=
  .of_mem hr rfl rfl (fun _ _ => Iff.rfl) rfl fun _ h tb' => by
    cases h
    exact TimewaitInfo.key_setInserted t tb tb' b

/-- An insertion that succeeds links its timewait_info. -/
theorem Store.insertTw_ok (h : Store s) (hr : s.mem r = some t)
    (hlist : r ∉ s.timewaitList) (hok : insertTw cfg tb s r t = .ok s') :
    Store s' ∧ Touches (· = r) s s' ∧ s'.mem r = some (t.setInserted tb true) ∧
      s'.timewaitList = s.timewaitList := by
  unfold insertTw at hok
  split at hok
  case h_1 => cases hok
  case h_2 tree htree =>
    obtain rfl := (Except.ok.inj hok).symm
    refine ⟨h.relink hr hlist true ?_ ?_, touches_relink hr, by simp, rfl⟩
    · exact cfg.rb.insertColor_orderedBy (SearchTree.insertBy_orderedBy (h.ordered tb) htree)
    · intro q
      rw [cfg.rb.insertColor_toList, SearchTree.mem_insertBy htree]
      by_cases hq : q = r
      all_goals simp [hq]

/-- `rb_erase` takes a timewait_info out of its table. -/
theorem Store.eraseTw (h : Store s) (hr : s.mem r = some t) (hlist : r ∉ s.timewaitList) :
    Store (eraseTw cfg tb s r t) := by
  refine h.relink hr hlist false (cfg.rb.erase_orderedBy (h.ordered tb) r) fun q => ?_
  rw [cfg.rb.mem_erase_orderedBy (h.ordered tb)]
  simp

theorem TimewaitInfo.eraseTw_mem :
    (IbCm.eraseTw cfg tb s r (t.setInserted tb true)).mem r = some (t.setInserted tb false) := by
  cases tb <;> simp [IbCm.eraseTw, TimewaitInfo.setInserted]

theorem Store.cmCleanupTimewait (cfg : Config) (h : Store s) (hr : s.mem r = some t)
    (hlist : r ∉ s.timewaitList) :
    Store (cmCleanupTimewait cfg s r t) ∧ Touches (· = r) s (cmCleanupTimewait cfg s r t) ∧
      (∃ t', (IbCm.cmCleanupTimewait cfg s r t).mem r = some t' ∧ t'.Loose) ∧
      (IbCm.cmCleanupTimewait cfg s r t).timewaitList = s.timewaitList := by
  -- one table after the other; the flag of a table is clear from then on
  have hone : ∀ (s : Cm) (t : TimewaitInfo) (tb : TwTable), Store s → s.mem r = some t →
      r ∉ s.timewaitList → Store (cleanupTw cfg tb s r t) ∧
        Touches (· = r) s (cleanupTw cfg tb s r t) ∧
        (cleanupTw cfg tb s r t).mem r = some (t.setInserted tb false) ∧
        (cleanupTw cfg tb s r t).timewaitList = s.timewaitList := by
    intro s t tb h hr hlist
    unfold cleanupTw
    split
    case isTrue => exact ⟨h.eraseTw hr hlist, touches_relink hr, by simp [IbCm.eraseTw], rfl⟩
    case isFalse hnot =>
      refine ⟨h, .refl, ?_, rfl⟩
      rw [hr, TimewaitInfo.setInserted_of_eq (by simpa using hnot)]
  obtain ⟨h₁, htouch₁, hr₁, hlist₁⟩ := hone s t .remoteId h hr hlist
  obtain ⟨h₂, htouch₂, hr₂, hlist₂⟩ := hone _ _ .remoteQp h₁ hr₁ (by rw [hlist₁]; exact hlist)
  refine ⟨h₂, htouch₁.trans h htouch₂, ⟨_, hr₂, ?_⟩, hlist₂.trans hlist₁⟩
  intro tb
  cases tb <;> rfl

/-- A timewait_info goes to the end of `timewait_list`, perhaps with its work. -/
theorem Store.enlist (h : Store s) (hr : s.mem r = some t) (hloose : t.Loose)
    (hloose' : t'.Loose) (hlist : r ∉ s.timewaitList) :
    Store { s.setTw r t' with timewaitList := s.timewaitList ++ [r] } := by
  refine h.write hr hloose hloose' ?_ (fun q hq => by simp [hq]) fun _ => by simp
  refine List.nodup_append.mpr ⟨h.nodup, List.pairwise_singleton _ r, ?_⟩
  rintro q hq q' hq' rfl
  exact hlist (List.mem_singleton.mp hq' ▸ hq)

/-- A timewait_info leaves `timewait_list`. -/
theorem Store.delist (h : Store s) (hr : s.mem r = some t) (hloose : t.Loose) :
    Store { s.setTw r { t with queued := false } with
      timewaitList := s.timewaitList.erase r } := by
  refine h.write hr hloose ?_ (h.nodup.erase r) (fun _ hq => List.mem_erase_of_ne hq)
    fun hq => by cases hq
  exact fun tb => by cases tb <;> [exact hloose .remoteId; exact hloose .remoteQp]

/-- `kfree` of a timewait_info that is linked nowhere. -/
theorem Store.kfree (h : Store s) (hr : s.mem r = some t) (hloose : t.Loose)
    (hlist : r ∉ s.timewaitList) :
    Store (s.kfree (.ref r)) ∧ Touches (· = r) s (s.kfree (.ref r)) ∧
      (s.kfree (.ref r)).timewaitList = s.timewaitList := by
  have hnot : ∀ tb, r ∉ (s.tables tb).toList := by
    intro tb hmem
    obtain ⟨t', ht', hins⟩ := (h.exact tb r).mp hmem
    rw [hr] at ht'
    cases ht'
    simp [hloose tb] at hins
  have hfree : s.kfree (.ref r) = { s with mem := update s.mem r none } := by
    simp [Cm.kfree, hr, hnot, hlist]
  rw [hfree]
  refine ⟨⟨h.faults, ?_, ?_, ?_, h.nodup, ?_, ?_⟩,
    .of_mem hr rfl rfl (fun _ _ => Iff.rfl) rfl (fun _ h => by cases h), rfl⟩
  · intro q hq
    by_cases hqr : q = r
    · simp [hqr]
    · simp only [update_of_ne hqr]
      exact h.fresh q hq
  · intro tb q
    by_cases hqr : q = r
    · subst hqr
      simp [hnot tb]
    · simp only [update_of_ne hqr]
      exact h.exact tb q
  · intro tb
    refine (h.ordered tb).congr fun q hq => Cm.key_congr ?_ tb
    have hqr : q ≠ r := fun heq => hnot tb (heq ▸ hq)
    exact update_of_ne hqr _ _
  · intro q hq
    have hqr : q ≠ r := fun heq => hlist (heq ▸ hq)
    simp only [update_of_ne hqr]
    exact h.listed q hq
  · intro q t₀ ht₀ hq
    by_cases hqr : q = r
    · simp [hqr] at ht₀
    · simp only [update_of_ne hqr] at ht₀
      exact h.queued q t₀ ht₀ hq

end

end IbCm
