-- SUMMARY: The timewait tables hold exactly the flagged timewait_infos.
import OfaKernel.IbCm.TimewaitStore

/-!
# The timewait tables over a run

A cm_id that is connecting, connected or disconnecting owns a timewait_info, and one that knows
its peer has it in both tables. `CmInv` says so for all cm_ids at once. The calls of one node are
taken one after the other.
-/

open Function

namespace IbCm

/-- From the first message of a connection to its last. -/
def CmState.owns : CmState → Bool
  | .reqSent | .reqRcvd | .mraReqSent | .mraReqRcvd | .repSent | .repRcvd | .mraRepSent
  | .mraRepRcvd | .established | .dreqSent | .dreqRcvd => true
  | _ => false

/-- The peer is known. -/
def CmState.bound : CmState → Bool
  | .reqRcvd | .mraReqSent | .repSent | .repRcvd | .mraRepSent | .mraRepRcvd | .established
  | .dreqSent | .dreqRcvd => true
  | _ => false

/-! ## The invariant -/

/-- The timewait_infos of a cm_id. -/
def Uses (p : CmIdPrivate) (r : Nat) : Prop :=
  (p.state.owns = true ∧ p.timewaitInfo = .ref r) ∨ r ∈ p.workList

/-- How the timewait_info of a cm_id is linked. -/
structure Tied (p : CmIdPrivate) (t : TimewaitInfo) : Prop where
  linked : p.state.bound = true → (∀ tb, t.inserted tb = true) ∧ t.remoteQpn = p.remoteQpn
  loose : p.state.bound = false → t.Loose

structure IdOk (s : Cm) (p : CmIdPrivate) : Prop where
  owned : p.state.owns = true → ∃ r t, p.timewaitInfo = .ref r ∧ s.mem r = some t ∧
    r ∉ s.timewaitList ∧ r ∉ p.workList ∧ Tied p t
  works : ∀ r ∈ p.workList, r ∉ s.timewaitList ∧ ∃ t, s.mem r = some t ∧ t.Loose
  nodup : p.workList.Nodup

structure CmInv (s : Cm) : Prop where
  store : Store s
  ids : ∀ l p, s.ids l = some p → IdOk s p
  apart : ∀ l l' p p' r, s.ids l = some p → s.ids l' = some p' → Uses p r → Uses p' r → l = l'

/-- A step keeps the invariant, and the keys of what lives on. -/
structure Follows (s s' : Cm) : Prop where
  inv : CmInv s'
  brk : s.brk ≤ s'.brk
  dead : ∀ q, q < s.brk → s.mem q = none → s'.mem q = none
  keys : ∀ q t t', s.mem q = some t → s'.mem q = some t' → ∀ tb, t'.key tb = t.key tb

section

variable {cfg : Config} {env : Env} {s s' s'' : Cm} {l r : Nat} {p q : CmIdPrivate}
  {t : TimewaitInfo} {R : Nat → Prop}

theorem Follows.of_touches (h : CmInv s') (ht : Touches R s s'') (hmem : s'.mem = s''.mem)
    (hbrk : s'.brk = s''.brk) : Follows s s' where
  inv := h
  brk := hbrk ▸ ht.brk
  dead q hq hnone := by rw [hmem, ht.dead q hq hnone]
  keys q t t' h₀ h' := ht.keys q t t' h₀ (by rw [← hmem, h'])

theorem Follows.refl (h : CmInv s) : Follows s s :=
  .of_touches h (.refl : Touches (fun _ => False) s s) rfl rfl

theorem Follows.trans (hs : CmInv s) (h : Follows s s') (h' : Follows s' s'') : Follows s s'' where
  inv := h'.inv
  brk := h.brk.trans h'.brk
  dead q hq hnone := h'.dead q (hq.trans_le h.brk) (h.dead q hq hnone)
  keys q t t'' ht ht'' tb := by
    cases ht' : s'.mem q with
    | none =>
      rw [h'.dead q ((hs.store.lt_brk ht).trans_le h.brk) ht'] at ht''
      cases ht''
    | some t' => exact (h'.keys q t' t'' ht' ht'' tb).trans (h.keys q t t' ht ht' tb)

theorem Uses.mem_brk (h : CmInv s) (hp : s.ids l = some p) (hu : Uses p r) :
    ∃ t, s.mem r = some t := by
  have hok := h.ids l p hp
  rcases hu with ⟨howns, hptr⟩ | hwork
  · obtain ⟨r', t, hptr', hmem, -⟩ := hok.owned howns
    rw [hptr] at hptr'
    cases hptr'
    exact ⟨t, hmem⟩
  · obtain ⟨-, t, hmem, -⟩ := hok.works r hwork
    exact ⟨t, hmem⟩

/-- A cm_id does not see changes to what it does not use. -/
theorem IdOk.frame (h : IdOk s p) (hmem : ∀ q, ¬ R q → s'.mem q = s.mem q)
    (hlist : ∀ q, ¬ R q → (q ∈ s'.timewaitList ↔ q ∈ s.timewaitList))
    (hR : ∀ r, R r → ¬ Uses p r) : IdOk s' p where
  owned howns := by
    obtain ⟨r, t, hptr, hr, hl, hwork, htied⟩ := h.owned howns
    have hnot : ¬ R r := fun hr => hR r hr (.inl ⟨howns, hptr⟩)
    exact ⟨r, t, hptr, (hmem r hnot).trans hr, by rwa [hlist r hnot], hwork, htied⟩
  works r hr := by
    obtain ⟨hl, t, ht, hloose⟩ := h.works r hr
    have hnot : ¬ R r := fun hr' => hR r hr' (.inr hr)
    exact ⟨by rwa [hlist r hnot], t, (hmem r hnot).trans ht, hloose⟩
  nodup := h.nodup

/-- The timewait_infos `R` and one cm_id change; no other cm_id uses these timewait_infos. -/
theorem CmInv.update (h : CmInv s) (hstore : Store s') (ht : Touches R s s')
    (hR : ∀ l' q r, l' ≠ l → s.ids l' = some q → R r → ¬ Uses q r) (o : Option CmIdPrivate)
    (hok : ∀ p, o = some p → IdOk s' p)
    (huses : ∀ p r, o = some p → Uses p r → R r ∨ ∃ q, s.ids l = some q ∧ Uses q r) :
    Follows s { s' with ids := update s'.ids l o } := by
  refine .of_touches ⟨⟨hstore.faults, hstore.fresh, hstore.exact, hstore.ordered, hstore.nodup,
    hstore.listed, hstore.queued⟩, ?_, ?_⟩ ht rfl rfl
  · intro l' q hq
    by_cases hl : l' = l
    · subst hl
      have hok := hok q (by simpa using hq)
      exact ⟨hok.owned, hok.works, hok.nodup⟩
    · have hq' : s.ids l' = some q := by simpa [hl, ht.ids] using hq
      have hok := (h.ids l' q hq').frame ht.mem ht.list fun r hr => hR l' q r hl hq' hr
      exact ⟨hok.owned, hok.works, hok.nodup⟩
  · -- a timewait_info of the changed cm_id was its own, or is one of `R`
    have hother : ∀ l' q p r, l' ≠ l → s.ids l' = some q → o = some p → Uses q r → ¬ Uses p r := by
      intro l' q p r hl hq hp huq hup
      rcases huses p r hp hup with hr | ⟨q', hq', huq'⟩
      · exact hR l' q r hl hq hr huq
      · exact hl (h.apart l' l q q' r hq hq' huq huq')
    intro l₁ l₂ p₁ p₂ r h₁ h₂ hu₁ hu₂
    by_cases hl₁ : l₁ = l <;> by_cases hl₂ : l₂ = l
    · rw [hl₁, hl₂]
    · subst hl₁
      have h₂' : s.ids l₂ = some p₂ := by simpa [hl₂, ht.ids] using h₂
      exact absurd hu₁ (hother l₂ p₂ p₁ r hl₂ h₂' (by simpa using h₁) hu₂)
    · subst hl₂
      have h₁' : s.ids l₁ = some p₁ := by simpa [hl₁, ht.ids] using h₁
      exact absurd hu₂ (hother l₁ p₁ p₂ r hl₁ h₁' (by simpa using h₂) hu₁)
    · exact h.apart l₁ l₂ p₁ p₂ r (by simpa [hl₁, ht.ids] using h₁)
        (by simpa [hl₂, ht.ids] using h₂)
        hu₁ hu₂

/-- A cm_id changes and keeps its timewait_infos, or has given its own up. -/
theorem CmInv.setId (h : CmInv s) (hq : s.ids l = some q) (hwork : p.workList = q.workList)
    (howns : p.state.owns = true → q.state.owns = true ∧ p.timewaitInfo = q.timewaitInfo ∧
      p.state.bound = q.state.bound ∧ p.remoteQpn = q.remoteQpn) : Follows s (s.setId l p) := by
  have hok := h.ids l q hq
  refine h.update h.store (.refl : Touches (fun _ => False) s s) (fun _ _ _ _ _ hr => hr.elim)
    (some p) ?_ ?_
  · rintro _ ⟨⟩
    refine ⟨fun hp => ?_, by rw [hwork]; exact hok.works, by rw [hwork]; exact hok.nodup⟩
    obtain ⟨hq', hptr, hbound, hqpn⟩ := howns hp
    obtain ⟨r, t, hptr', hmem, hlist, hnot, htied⟩ := hok.owned hq'
    refine ⟨r, t, hptr.trans hptr', hmem, hlist, by rwa [hwork], ?_, ?_⟩
    · rw [hbound, hqpn]
      exact htied.linked
    · rw [hbound]
      exact htied.loose
  · rintro _ r ⟨⟩ hu
    refine .inr ⟨q, hq, ?_⟩
    rcases hu with ⟨hp, hptr⟩ | hr
    · obtain ⟨hq', hptr', -⟩ := howns hp
      exact .inl ⟨hq', hptr'.symm.trans hptr⟩
    · exact .inr (hwork ▸ hr)

/-! ## Giving up a timewait_info -/

/-- A cm_id has a timewait_info that no other one uses. -/
structure Holding (s : Cm) (l : Nat) (p : CmIdPrivate) (r : Nat) (t : TimewaitInfo) : Prop where
  ptr : p.timewaitInfo = .ref r
  mem : s.mem r = some t
  list : r ∉ s.timewaitList
  works : r ∉ p.workList
  others : ∀ l' q, l' ≠ l → s.ids l' = some q → ¬ Uses q r
  here : ∃ q, s.ids l = some q ∧ q.workList = p.workList

theorem CmInv.holding (h : CmInv s) (hp : s.ids l = some p) (howns : p.state.owns = true) :
    ∃ r t, Holding s l p r t ∧ Tied p t := by
  obtain ⟨r, t, hptr, hmem, hlist, hwork, htied⟩ := (h.ids l p hp).owned howns
  refine ⟨r, t, ⟨hptr, hmem, hlist, hwork, ?_, p, hp, rfl⟩, htied⟩
  intro l' q hl hq hu
  exact hl (h.apart l' l q p r hq hp hu (.inl ⟨howns, hptr⟩))

theorem Holding.follow (hh : Holding s l p r t) : s.follow p.timewaitInfo = some (r, t) := by
  rw [hh.ptr]
  simp [Cm.follow, hh.list, hh.mem]

/-- The timewait_info of a cm_id changes and the cm_id with it; if it is still to own it, then
as its state asks for. -/
theorem CmInv.rebind (h : CmInv s) (hh : Holding s l p r t) (hstore : Store s')
    (ht : Touches (· = r) s s') (hwork : q.workList = p.workList)
    (howned : q.state.owns = true → q.timewaitInfo = .ref r ∧ r ∉ s'.timewaitList ∧
      ∃ t', s'.mem r = some t' ∧ Tied q t') : Follows s (s'.setId l q) := by
  obtain ⟨q₀, hq₀, hwork₀⟩ := hh.here
  have hok := h.ids l q₀ hq₀
  have hnot : r ∉ q.workList := hwork ▸ hh.works
  have hlist : q₀.workList = q.workList := hwork₀.trans hwork.symm
  refine h.update hstore ht (fun l' q' r' hl hq' hr => hr ▸ hh.others l' q' hl hq') (some q) ?_ ?_
  · rintro _ ⟨⟩
    refine ⟨fun ho => ?_, fun r' hr' => ?_, hlist ▸ hok.nodup⟩
    · obtain ⟨hptr, hlist', t', hmem, htied⟩ := howned ho
      exact ⟨r, t', hptr, hmem, hlist', hnot, htied⟩
    · have hne : r' ≠ r := fun heq => hnot (heq ▸ hr')
      obtain ⟨hl, t', hmem, hloose⟩ := hok.works r' (hlist ▸ hr')
      refine ⟨?_, t', ?_, hloose⟩
      · rwa [ht.list r' hne]
      · rw [ht.mem r' hne, hmem]
  · rintro _ r' ⟨⟩ (⟨ho, hptr⟩ | hr')
    · obtain ⟨hptr', -⟩ := howned ho
      rw [hptr] at hptr'
      cases hptr'
      exact .inl rfl
    · exact .inr ⟨q₀, hq₀, .inr (hlist ▸ hr')⟩

theorem CmInv.release (h : CmInv s) (hh : Holding s l p r t) (hstore : Store s')
    (ht : Touches (· = r) s s') (hwork : q.workList = p.workList)
    (howns : q.state.owns = false) : Follows s (s'.setId l q) :=
  h.rebind hh hstore ht hwork fun ho => absurd ho (by simp [howns])

/-- Nothing is done, or the timewait_info is on the list and the cm_id in timewait. -/
theorem cmEnterTimewait_cases (cfg : Config) (env : Env) (h : CmInv s) (hh : Holding s l p r t) :
    cmEnterTimewait cfg env s l p = s.setId l p ∨
      ∃ s', Store s' ∧ Touches (· = r) s s' ∧ cmEnterTimewait cfg env s l p =
        s'.setId l { p with state := .timewait, timewaitInfo := .null } := by
  unfold cmEnterTimewait
  split
  case h_1 => exact .inl rfl
  case h_2 goingDown _ =>
    rw [hh.follow]
    obtain ⟨hstore, ht, ⟨t₁, hmem, hloose⟩, hlist⟩ := h.store.cmCleanupTimewait cfg hh.mem hh.list
    set t₂ : TimewaitInfo := { t with
      insertedRemoteId := false, insertedRemoteQp := false, queued := !goingDown } with ht₂
    have hloose₂ : t₂.Loose := fun tb => by cases tb <;> rfl
    have hkey : ∀ tb, t₂.key tb = t₁.key tb := by
      intro tb
      rw [ht.keys r t t₁ hh.mem hmem tb]
      cases tb <;> rfl
    have hstore' := hstore.enlist hmem hloose hloose₂ (hlist ▸ hh.list)
    have hadd : ∀ q, q ≠ r → (q ∈ (cmCleanupTimewait cfg s r t).timewaitList ++ [r] ↔
        q ∈ (cmCleanupTimewait cfg s r t).timewaitList) := fun q hq => by simp [hq]
    exact .inr ⟨_, hstore', ht.trans h.store (touches_write hmem hkey hadd), rfl⟩

theorem cmEnterTimewait_follows (h : CmInv s) (hh : Holding s l p r t)
    (hstay : Follows s (s.setId l p)) : Follows s (cmEnterTimewait cfg env s l p) := by
  rcases cmEnterTimewait_cases cfg env h hh with heq | ⟨s', hstore, ht, heq⟩
  · rw [heq]
    exact hstay
  · rw [heq]
    exact h.release hh hstore ht rfl rfl

theorem cmResetToIdle_follows (h : CmInv s) (hh : Holding s l p r t) :
    Follows s (cmResetToIdle cfg s l p) := by
  have hnull : p.timewaitInfo ≠ .null := by simp [hh.ptr]
  obtain ⟨hstore, ht, ⟨t₁, hmem, hloose⟩, hlist⟩ :=
    h.store.cmCleanupTimewait cfg hh.mem hh.list
  obtain ⟨hstore', ht', -⟩ := hstore.kfree hmem hloose (hlist ▸ hh.list)
  rw [cmResetToIdle, if_neg hnull, hh.follow, hh.ptr]
  exact h.release hh hstore' (ht.trans h.store ht') rfl rfl

/-! ## Calls -/

/-- A cm_id goes on with its timewait_info. -/
theorem CmInv.move (h : CmInv s) (hp : s.ids l = some p) (hwork : q.workList = p.workList)
    (hptr : q.timewaitInfo = p.timewaitInfo) (hqpn : q.remoteQpn = p.remoteQpn)
    (howns : q.state.owns = p.state.owns) (hbound : q.state.bound = p.state.bound) :
    Follows s (s.setId l q) :=
  h.setId hp hwork fun ho => ⟨howns ▸ ho, hptr, hbound, hqpn⟩

theorem enter_follows (h : CmInv s) (hp : s.ids l = some p) (howns : p.state.owns = true)
    (data : List Nat) : Follows s (cmEnterTimewait cfg env s l { p with privateData := data }) := by
  obtain ⟨r, t, hh, -⟩ := h.holding hp howns
  exact cmEnterTimewait_follows h ⟨hh.ptr, hh.mem, hh.list, hh.works, hh.others, hh.here⟩
    (h.move hp rfl rfl rfl rfl rfl)

theorem reset_follows (h : CmInv s) (hp : s.ids l = some p) (howns : p.state.owns = true) :
    Follows s (cmResetToIdle cfg s l p) := by
  obtain ⟨r, t, hh, -⟩ := h.holding hp howns
  exact cmResetToIdle_follows h hh

theorem onId_follows {f : CmIdPrivate → Cm × List Mad} (h : CmInv s)
    (hf : ∀ p, s.ids l = some p → Follows s (f p).1) : Follows s (onId s l f).1 := by
  unfold onId
  split
  case h_1 => exact .refl h
  case h_2 p hp => exact hf p hp

theorem CmInv.newId (h : CmInv s) (howns : p.state.owns = false) (hwork : p.workList = []) :
    Follows s (s.setId l p) := by
  refine h.update h.store (.refl : Touches (fun _ => False) s s) (fun _ _ _ _ _ hr => hr.elim)
    (some p) ?_ ?_
  · rintro _ ⟨⟩
    exact ⟨fun ho => absurd ho (by simp [howns]), by simp [hwork], by simp [hwork]⟩
  · rintro _ r ⟨⟩ (⟨ho, -⟩ | hr)
    · exact absurd ho (by simp [howns])
    · simp [hwork] at hr

theorem ibCreateCmId_follows (h : CmInv s) (caGuid : Nat) :
    Follows s (ibCreateCmId s l caGuid) := by
  unfold ibCreateCmId
  split
  case isTrue => exact h.newId rfl rfl
  case isFalse => exact .refl h

theorem ibCmListen_follows (h : CmInv s) (found : Bool) : Follows s (ibCmListen found s l).1 := by
  refine onId_follows h fun p hp => ?_
  split
  case isTrue hst => exact h.move hp rfl rfl rfl (by rw [hst.1]; rfl) (by rw [hst.1]; rfl)
  case isFalse => exact .refl h

theorem ibCmInsertListen_follows (h : CmInv s) : Follows s (ibCmInsertListen s l).1 := by
  refine onId_follows h fun p hp => ?_
  split
  case isTrue => exact h.move hp rfl rfl rfl rfl rfl
  case isFalse => exact .refl h

theorem cmInitAvByPath_same (cfg : Config) (env : Env) (p : CmIdPrivate) (kind : AvKind)
    (path : Path) :
    (cmInitAvByPath cfg env p kind path).1.state = p.state ∧
    (cmInitAvByPath cfg env p kind path).1.timewaitInfo = p.timewaitInfo ∧
    (cmInitAvByPath cfg env p kind path).1.workList = p.workList ∧
    (cmInitAvByPath cfg env p kind path).1.remoteQpn = p.remoteQpn := by
  unfold cmInitAvByPath
  split <;> cases kind <;> exact ⟨rfl, rfl, rfl, rfl⟩

/-- The label `error1`: a timewait_info of an idle cm_id is freed. -/
theorem reqError_follows (h : CmInv s) (hh : Holding s l p r t) (hloose : t.Loose)
    (hidle : p.state.owns = false) : Follows s (reqError s l p).1 := by
  obtain ⟨hstore, ht, -⟩ := h.store.kfree hh.mem hloose hh.list
  have heq : (reqError s l p).1 = (s.kfree (.ref r)).setId l p := by
    rw [reqError, hh.ptr, Cm.kfree_setId]
  rw [heq]
  exact h.release hh hstore ht rfl hidle

theorem Holding.congr (hh : Holding s l p r t) (hptr : q.timewaitInfo = p.timewaitInfo)
    (hwork : q.workList = p.workList) : Holding s l q r t :=
  ⟨hptr.trans hh.ptr, hh.mem, hh.list, hwork ▸ hh.works, hh.others, hwork ▸ hh.here⟩

/-- Timewait_infos change that no cm_id uses. -/
theorem CmInv.touch (h : CmInv s) (hstore : Store s') (ht : Touches R s s')
    (hR : ∀ l q r, s.ids l = some q → R r → ¬ Uses q r) : Follows s s' := by
  refine .of_touches ⟨hstore, fun l q hq => ?_, fun l l' p p' r hp hp' => ?_⟩ ht rfl rfl
  · rw [ht.ids] at hq
    exact (h.ids l q hq).frame ht.mem ht.list fun r hr => hR l q r hq hr
  · rw [ht.ids] at hp hp'
    exact h.apart l l' p p' r hp hp'

/-- A new timewait_info is nobody's. -/
theorem alloc_follows (h : CmInv s) (hloose : t.Loose) (hqueued : t.queued = false) :
    Follows s { s.setTw s.brk t with brk := s.brk + 1 } ∧
      ∀ l q, s.ids l = some q → ¬ Uses q s.brk := by
  have hnot : ∀ l q, s.ids l = some q → ¬ Uses q s.brk := by
    intro l q hq hu
    obtain ⟨t', ht'⟩ := hu.mem_brk h hq
    exact absurd (h.store.lt_brk ht') (Nat.lt_irrefl _)
  refine ⟨h.touch (h.store.alloc hloose hqueued) (touches_alloc h.store t) ?_, hnot⟩
  rintro l q _ hq rfl
  exact hnot l q hq

/-- The cm_id that a new timewait_info is put into. -/
theorem alloc_holding (h : CmInv s) (hp : s.ids l = some p)
    (hptr : q.timewaitInfo = .ref s.brk) (hwork : q.workList = p.workList) :
    Holding { s.setTw s.brk t with brk := s.brk + 1 } l q s.brk t where
  ptr := hptr
  mem := update_self ..
  list hr := by
    obtain ⟨t', ht', -⟩ := h.store.listed _ hr
    exact absurd (h.store.lt_brk ht') (Nat.lt_irrefl _)
  works hr := by
    obtain ⟨-, t', ht', -⟩ := (h.ids l p hp).works _ (hwork ▸ hr)
    exact absurd (h.store.lt_brk ht') (Nat.lt_irrefl _)
  others l' q' _ hq' hu := by
    obtain ⟨t', ht'⟩ := hu.mem_brk h hq'
    exact absurd (h.store.lt_brk ht') (Nat.lt_irrefl _)
  here := ⟨p, hp, hwork.symm⟩

theorem sendReq_follows (h : CmInv s) (hh : Holding s l p r t) (hloose : t.Loose)
    (hidle : p.state = .idle) (param : ReqParam) (path : Path) :
    Follows s (sendReq env s l p param path).1 := by
  have herr : ∀ q : CmIdPrivate, q.timewaitInfo = p.timewaitInfo → q.workList = p.workList →
      q.state = .idle → Follows s (reqError s l q).1 := by
    intro q hptr hwork hq
    exact reqError_follows h (hh.congr hptr hwork) hloose (by rw [hq]; rfl)
  unfold sendReq
  split
  case isTrue => exact herr _ rfl rfl hidle
  case isFalse =>
    split
    case isTrue => exact herr _ rfl rfl hidle
    case isFalse =>
      refine h.rebind hh h.store .refl rfl fun _ => ⟨hh.ptr, hh.list, t, hh.mem, ?_⟩
      exact ⟨fun hb => (by cases hb), fun _ => hloose⟩

theorem ibSendCmReq_follows (h : CmInv s) (param : ReqParam) :
    Follows s (ibSendCmReq cfg env param s l).1 := by
  refine onId_follows h fun p hp => ?_
  cases param.primaryPath with
  | none => exact .refl h
  | some path =>
    dsimp only
    split
    case isTrue => exact .refl h
    case isFalse hst =>
      have hidle : p.state = .idle := by
        simp only [Bool.or_eq_true, decide_eq_true_eq, not_or, not_not] at hst
        exact hst.2
      unfold cmCreateTimewaitInfo
      split
      case isFalse =>
        exact h.setId hp rfl fun ho => absurd ho (by simp [hidle, CmState.owns])
      case isTrue =>
        set p₀ : CmIdPrivate := { p with timewaitInfo := .ref s.brk }
        have hloose : ({ localId := l } : TimewaitInfo).Loose := fun tb => by cases tb <;> rfl
        obtain ⟨hfollows, -⟩ := alloc_follows h hloose rfl
        -- the address vectors leave the rest of the cm_id alone
        have hhold : ∀ q : CmIdPrivate, q.timewaitInfo = p₀.timewaitInfo →
            q.workList = p₀.workList → Holding { s.setTw s.brk { localId := l } with
              brk := s.brk + 1 } l q s.brk { localId := l } :=
          fun q hptr hwork => alloc_holding h hp hptr hwork
        refine Follows.trans h hfollows ?_
        have herr : ∀ q : CmIdPrivate, q.timewaitInfo = p₀.timewaitInfo →
            q.workList = p₀.workList → q.state = .idle → Follows _ (reqError _ l q).1 :=
          fun q hptr hwork hq =>
            reqError_follows hfollows.inv (hhold q hptr hwork) hloose (by rw [hq]; rfl)
        have hsend : ∀ q : CmIdPrivate, q.timewaitInfo = p₀.timewaitInfo →
            q.workList = p₀.workList → q.state = .idle →
              Follows _ (sendReq env _ l q param path).1 :=
          fun q hptr hwork hq =>
            sendReq_follows hfollows.inv (hhold q hptr hwork) hloose hq param path
        obtain ⟨hs₁, hptr₁, hwork₁, -⟩ := cmInitAvByPath_same cfg env p₀ .primary path
        rcases hinit : cmInitAvByPath cfg env p₀ .primary path with ⟨p₁, ok⟩
        rw [hinit] at hs₁ hptr₁ hwork₁
        cases ok with
        | false => exact herr p₁ hptr₁ hwork₁ (hs₁.trans hidle)
        | true =>
          cases param.alternatePath with
          | none => exact hsend p₁ hptr₁ hwork₁ (hs₁.trans hidle)
          | some alt =>
            dsimp only
            obtain ⟨hs₂, hptr₂, hwork₂, -⟩ := cmInitAvByPath_same cfg env p₁ .alternate alt
            rcases hinit₂ : cmInitAvByPath cfg env p₁ .alternate alt with ⟨p₂, ok⟩
            rw [hinit₂] at hs₂ hptr₂ hwork₂
            cases ok with
            | false =>
              exact herr p₂ (hptr₂.trans hptr₁) (hwork₂.trans hwork₁) (hs₂.trans (hs₁.trans hidle))
            | true =>
              exact hsend p₂ (hptr₂.trans hptr₁) (hwork₂.trans hwork₁) (hs₂.trans (hs₁.trans hidle))

theorem ibSendCmRep_follows (h : CmInv s) (param : RepParam) :
    Follows s (ibSendCmRep env param s l).1 := by
  refine onId_follows h fun p hp => ?_
  split
  case isTrue hst =>
    obtain ⟨-, hst | hst, -⟩ := hst
    all_goals exact h.move hp rfl rfl rfl (by rw [hst]; rfl) (by rw [hst]; rfl)
  case isFalse => exact .refl h

theorem ibSendCmRtu_follows (h : CmInv s) (data : List Nat) :
    Follows s (ibSendCmRtu env data s l).1 := by
  refine onId_follows h fun p hp => ?_
  split
  case isTrue hst =>
    obtain ⟨-, -, hst | hst, -⟩ := hst
    all_goals exact h.move hp rfl rfl rfl (by rw [hst]; rfl) (by rw [hst]; rfl)
  case isFalse => exact .refl h

theorem mraStates_same {st : CmState} {lap : LapState} {mraed : MsgResponse}
    (h : mraStates p = some (st, lap, mraed)) :
    st.owns = p.state.owns ∧ st.bound = p.state.bound := by
  unfold mraStates at h
  split at h <;> cases h <;> simp_all [CmState.owns, CmState.bound]

theorem ibSendCmMra_follows (h : CmInv s) (serviceTimeout : Nat) (data : List Nat) :
    Follows s (ibSendCmMra env serviceTimeout data s l).1 := by
  refine onId_follows h fun p hp => ?_
  split
  case isFalse => exact .refl h
  case isTrue =>
    split
    case h_1 => exact .refl h
    case h_2 st lap mraed hst =>
      obtain ⟨howns, hbound⟩ := mraStates_same hst
      split
      case isTrue => exact h.move hp rfl rfl rfl howns hbound
      case isFalse =>
        split
        case isTrue => exact h.move hp rfl rfl rfl howns hbound
        case isFalse => exact .refl h

theorem ibSendCmRej_follows (h : CmInv s) (reason : RejReason) (ari : Nat) :
    Follows s (ibSendCmRej cfg env reason ari s l).1 := by
  refine onId_follows h fun p hp => ?_
  split <;> first
    | exact .refl h
    | exact reset_follows h hp (by simp_all [CmState.owns])
    | exact enter_follows h hp (by simp_all [CmState.owns]) p.privateData

theorem ibSendCmDreq_follows (h : CmInv s) (sent : Bool) :
    Follows s (ibSendCmDreq cfg env sent s l).1 := by
  refine onId_follows h fun p hp => ?_
  split
  case isTrue => exact .refl h
  case isFalse hst =>
    have hst : p.state = .established := not_not.mp hst
    split
    case isTrue => exact h.move hp rfl rfl rfl (by rw [hst]; rfl) (by rw [hst]; rfl)
    case isFalse => exact enter_follows h hp (by rw [hst]; rfl) p.privateData

theorem ibSendCmDrep_follows (h : CmInv s) (data : List Nat) :
    Follows s (ibSendCmDrep cfg env data s l).1 := by
  refine onId_follows h fun p hp => ?_
  split
  case isTrue hst => exact enter_follows h hp (by rw [hst.2.2]; rfl) data
  case isFalse => exact .refl h

theorem ibSendCmLap_follows (h : CmInv s) (path : Path) :
    Follows s (ibSendCmLap cfg env path s l).1 := by
  refine onId_follows h fun p hp => ?_
  split
  case isFalse => exact .refl h
  case isTrue =>
    obtain ⟨hst, hptr, hwork, hqpn⟩ := cmInitAvByPath_same cfg env p .alternate path
    dsimp only
    split
    case isTrue => exact h.move hp hwork hptr hqpn (by rw [hst]) (by rw [hst])
    case isFalse => exact h.move hp hwork hptr hqpn (by rw [hst]) (by rw [hst])

theorem ibSendCmApr_follows (h : CmInv s) (status : Nat) :
    Follows s (ibSendCmApr env status s l).1 := by
  refine onId_follows h fun p hp => ?_
  split
  case isTrue => exact h.move hp rfl rfl rfl rfl rfl
  case isFalse => exact .refl h

theorem cmEstablish_follows (h : CmInv s) : Follows s (cmEstablish env s l).1 := by
  refine onId_follows h fun p hp => ?_
  split
  case isTrue hst =>
    obtain ⟨-, -, hst | hst⟩ := hst
    all_goals exact h.move hp rfl rfl rfl (by rw [hst]; rfl) (by rw [hst]; rfl)
  case isFalse => exact .refl h

theorem cmMigrate_follows (h : CmInv s) : Follows s (cmMigrate s l).1 := by
  refine onId_follows h fun p hp => ?_
  split
  case isTrue => exact h.move hp rfl rfl rfl rfl rfl
  case isFalse => exact .refl h

theorem ibSendCmSidrReq_follows (h : CmInv s) (path : Path) (serviceId : Nat) :
    Follows s (ibSendCmSidrReq cfg env path serviceId s l).1 := by
  refine onId_follows h fun p hp => ?_
  obtain ⟨hst, hptr, hwork, hqpn⟩ := cmInitAvByPath_same cfg env p .primary path
  dsimp only
  split
  case isTrue hidle =>
    simp only [Bool.and_eq_true, decide_eq_true_eq] at hidle
    rw [hst] at hidle
    exact h.move hp hwork hptr hqpn (by rw [hidle.2]; rfl) (by rw [hidle.2]; rfl)
  case isFalse => exact h.move hp hwork hptr hqpn (by rw [hst]) (by rw [hst])

theorem ibSendCmSidrRep_follows (h : CmInv s) (status qpNum : Nat) :
    Follows s (ibSendCmSidrRep env status qpNum s l).1 := by
  refine onId_follows h fun p hp => ?_
  split
  case isTrue hst => exact h.move hp rfl rfl rfl (by rw [hst.1]; rfl) (by rw [hst.1]; rfl)
  case isFalse => exact .refl h

/-- The works of a cm_id are freed one after the other. -/
theorem Store.kfree_works (works : List Nat) (h : Store s) (hnodup : works.Nodup)
    (hworks : ∀ r ∈ works, r ∉ s.timewaitList ∧ ∃ t, s.mem r = some t ∧ t.Loose) :
    Store (works.foldl (fun s r => s.kfree (.ref r)) s) ∧
      Touches (· ∈ works) s (works.foldl (fun s r => s.kfree (.ref r)) s) := by
  induction works generalizing s with
  | nil => exact ⟨h, .refl⟩
  | cons r works ih =>
    obtain ⟨hr, hnodup⟩ := List.nodup_cons.mp hnodup
    obtain ⟨hlist, t, hmem, hloose⟩ := hworks r List.mem_cons_self
    obtain ⟨hstore, ht, -⟩ := h.kfree hmem hloose hlist
    obtain ⟨hstore', ht'⟩ := ih hstore hnodup fun r' hr' => by
      have hne : r' ≠ r := fun heq => hr (heq ▸ hr')
      rw [ht.list r' hne, ht.mem r' hne]
      exact hworks r' (List.mem_cons_of_mem _ hr')
    refine ⟨hstore', Touches.trans h (ht.mono ?_) (ht'.mono ?_)⟩
    · rintro q rfl
      exact List.mem_cons_self
    · exact fun q hq => List.mem_cons_of_mem _ hq

theorem freeId_follows (h : CmInv s) (hp : s.ids l = some p) : Follows s (freeId s l p) := by
  have hok := h.ids l p hp
  obtain ⟨hstore, ht⟩ := h.store.kfree_works p.workList hok.nodup hok.works
  refine h.update hstore ht ?_ none (fun _ h => (by cases h)) fun _ _ h => (by cases h)
  intro l' q r hl hq hr hu
  exact hl (h.apart l' l q p r hq hp hu (.inr hr))

theorem leave_follows (h : CmInv s) (hp : s.ids l = some p) (nomem : Bool) :
    Follows s (leave cfg env nomem s l p).1 := by
  unfold leave
  split <;> first
    | exact .refl h
    | exact ibSendCmSidrRep_follows h _ _
    | exact ibSendCmRej_follows h _ _
    | exact ibSendCmDrep_follows h _
    | exact enter_follows h hp (by simp_all [CmState.owns]) p.privateData
    | skip
  split
  case isTrue => exact reset_follows h hp (by simp_all [CmState.owns])
  case isFalse => exact ibSendCmRej_follows h _ _

/-- What follows a step, and then the end of the cm_id. -/
theorem Follows.free (h : CmInv s) (hf : Follows s s') :
    Follows s (match s'.ids l with
      | none => s'
      | some p => freeId s' l p) := by
  split
  case h_1 => exact hf
  case h_2 p hp => exact hf.trans h (freeId_follows hf.inv hp)

theorem cmDestroyId_follows (h : CmInv s) (nomem : Bool) (sends : List Bool) :
    Follows s (cmDestroyId cfg env nomem sends s l).1 := by
  induction sends generalizing s with
  | nil =>
    refine onId_follows h fun p hp => ?_
    split
    case isTrue => exact h.move hp rfl rfl rfl rfl rfl
    case isFalse =>
      split
      case isTrue => exact .refl h
      case isFalse => exact (leave_follows h hp nomem).free h
  | cons sent sends ih =>
    refine onId_follows h fun p hp => ?_
    split
    case isTrue => exact h.move hp rfl rfl rfl rfl rfl
    case isFalse =>
      split
      case isTrue =>
        have hdreq : Follows s (ibSendCmDreq cfg env sent s l).1 := ibSendCmDreq_follows h sent
        exact hdreq.trans h (ih hdreq.inv)
      case isFalse => exact (leave_follows h hp nomem).free h

/-! ## Handlers -/

theorem dropStale_follows (cfg : Config) (env : Env) (h : CmInv s) (cur : Nat) :
    Follows s (dropStale cfg env s cur).1 := by
  unfold dropStale
  split
  case h_1 => exact .refl h
  case h_2 => exact ibSendCmDreq_follows h _

/-- What another cm_id does with its own timewait_info. -/
theorem Holding.setId_other (hh : Holding s l p r t) {r' l' : Nat} (hl : l' ≠ l)
    (ht : Touches (· = r') s s') (hr : r ≠ r') (hq : ¬ Uses q r) : Holding
    (s'.setId l' q) l p r t where
  ptr := hh.ptr
  mem := by rw [Cm.setId_mem, ht.mem r hr, hh.mem]
  list := by rw [Cm.setId_timewaitList, ht.list r hr]; exact hh.list
  works := hh.works
  others l₁ q₁ hl₁ hq₁ := by
    rw [Cm.setId_ids, ht.ids] at hq₁
    by_cases heq : l₁ = l'
    · subst heq
      obtain rfl : q = q₁ := by simpa using hq₁
      exact hq
    · rw [update_of_ne heq] at hq₁
      exact hh.others l₁ q₁ hl₁ hq₁
  here := by
    rw [Cm.setId_ids, ht.ids, update_of_ne (Ne.symm hl)]
    exact hh.here

theorem ibSendCmDreq_holding (h : CmInv s) (hp : s.ids l = some p) (hidle : p.state = .idle)
    (hh : Holding s l p r t) (sent : Bool) (l' : Nat) :
    (ibSendCmDreq cfg env sent s l').1.ids l = some p ∧
      Holding (ibSendCmDreq cfg env sent s l').1 l p r t := by
  unfold ibSendCmDreq onId
  split
  case h_1 => exact ⟨hp, hh⟩
  case h_2 q hq =>
    dsimp only
    split
    case isTrue => exact ⟨hp, hh⟩
    case isFalse hst =>
      have hst : q.state = .established := not_not.mp hst
      have howns : q.state.owns = true := by rw [hst]; rfl
      have hl : l' ≠ l := by
        rintro rfl
        rw [hp] at hq
        cases hq
        simp [hidle] at hst
      have hnot := hh.others l' q hl hq
      obtain ⟨r', t', hh', -⟩ := h.holding hq howns
      have hr : r ≠ r' := by
        rintro rfl
        exact hnot (.inl ⟨howns, hh'.ptr⟩)
      have hkeep : ∀ (s' : Cm) (q' : CmIdPrivate), Touches (· = r') s s' → ¬ Uses q' r →
          (s'.setId l' q').ids l = some p ∧ Holding (s'.setId l' q') l p r t := by
        intro s' q' ht hq'
        refine ⟨?_, hh.setId_other hl ht hr hq'⟩
        rw [Cm.setId_ids, ht.ids, update_of_ne (Ne.symm hl), hp]
      split
      case isTrue =>
        refine hkeep s _ .refl fun hu => hnot ?_
        rcases hu with ⟨-, hptr⟩ | hwork
        · exact .inl ⟨howns, hptr⟩
        · exact .inr hwork
      case isFalse =>
        rcases cmEnterTimewait_cases cfg env h hh' with heq | ⟨s', -, ht, heq⟩
        · rw [heq]
          exact hkeep s q .refl hnot
        · rw [heq]
          refine hkeep s' _ ht fun hu => hnot ?_
          rcases hu with ⟨ho, -⟩ | hwork
          · cases ho
          · exact .inr hwork

theorem dropStale_holding (cfg : Config) (env : Env) (h : CmInv s) (hp : s.ids l = some p)
    (hidle : p.state = .idle) (hh : Holding s l p r t) (cur : Nat) :
    (dropStale cfg env s cur).1.ids l = some p ∧ Holding (dropStale cfg env s cur).1 l p r t := by
  unfold dropStale
  split
  case h_1 => exact ⟨hp, hh⟩
  case h_2 => exact ibSendCmDreq_holding h hp hidle hh _ _

/-- An idle cm_id has a timewait_info in hand that it does not own yet. -/
structure InHand (s : Cm) (l : Nat) (p : CmIdPrivate) (r : Nat) (t : TimewaitInfo) : Prop where
  inv : CmInv s
  id : s.ids l = some p
  idle : p.state = .idle
  holding : Holding s l p r t

theorem InHand.not_uses (hi : InHand s l p r t) {l' : Nat} (hq : s.ids l' = some q) :
    ¬ Uses q r := by
  by_cases hl : l' = l
  · subst hl
    have := hi.id
    rw [hq] at this
    cases this
    rintro (⟨ho, -⟩ | hr)
    · simp [hi.idle, CmState.owns] at ho
    · exact hi.holding.works hr
  · exact hi.holding.others l' q hl hq

/-- The timewait_info in hand changes. -/
theorem InHand.touch (hi : InHand s l p r t) (hstore : Store s') (ht : Touches (· = r) s s')
    {t' : TimewaitInfo} (hmem : s'.mem r = some t') (hlist : r ∉ s'.timewaitList) :
    Follows s s' ∧ InHand s' l p r t' := by
  have hfollows : Follows s s' := by
    refine hi.inv.touch hstore ht ?_
    rintro l' q _ hq rfl
    exact hi.not_uses hq
  have hhold := hi.holding
  refine ⟨hfollows, hfollows.inv, ht.ids ▸ hi.id, hi.idle, hhold.ptr, hmem, hlist, hhold.works, ?_,
    ht.ids ▸ hhold.here⟩
  rw [ht.ids]
  exact hhold.others

/-- The cm_id is given up with what it has in hand. -/
theorem dropReq_follows (hi : InHand s l p r t) (hloose : t.Loose) :
    Follows s (dropReq s l p) := by
  obtain ⟨hstore, ht, hlist⟩ := hi.inv.store.kfree hi.holding.mem hloose hi.holding.list
  have hfollows : Follows s (s.kfree (.ref r)) := by
    refine hi.inv.touch hstore ht ?_
    rintro l' q _ hq rfl
    exact hi.not_uses hq
  rw [dropReq, hi.holding.ptr]
  exact hfollows.trans hi.inv (freeId_follows hfollows.inv (ht.ids ▸ hi.id))

theorem cmMatchReq_cases (cfg : Config) (env : Env) (hi : InHand s l p r t) (hloose : t.Loose)
    (m : Mad) (req : ReqMsg) :
    (∃ s' out t', cmMatchReq cfg env s m req r t = (none, s', out) ∧ Follows s s' ∧
      InHand s' l p r t' ∧ t'.Loose) ∨
    (∃ s' x t', cmMatchReq cfg env s m req r t = (some s', x) ∧ Follows s s' ∧
      InHand s' l p r t' ∧ (∀ tb, t'.inserted tb = true) ∧ t'.remoteQpn = t.remoteQpn) := by
  have hhold := hi.holding
  unfold cmMatchReq
  split
  case h_1 => exact .inl ⟨_, _, t, rfl, .refl hi.inv, hi, hloose⟩
  case h_2 s₁ hins₁ =>
    obtain ⟨hstore₁, ht₁, hmem₁, hlist₁⟩ :=
      hi.inv.store.insertTw_ok hhold.mem hhold.list hins₁
    obtain ⟨hf₁, hi₁⟩ := hi.touch hstore₁ ht₁ hmem₁ (hlist₁ ▸ hhold.list)
    have hhold₁ := hi₁.holding
    dsimp only
    split
    case h_1 cur hins₂ =>
      -- the connection that has the QP is stale, and the new cm_id is given up as well
      obtain ⟨hstore, ht, ⟨t', hmem, hloose'⟩, hlist⟩ :=
        hi₁.inv.store.cmCleanupTimewait cfg hhold₁.mem hhold₁.list
      obtain ⟨hf, hi'⟩ := hi₁.touch hstore ht hmem (hlist ▸ hhold₁.list)
      have hdrop := dropStale_follows cfg env hi'.inv cur
      obtain ⟨hid, hh'⟩ := dropStale_holding cfg env hi'.inv hi'.id hi'.idle
        hi'.holding cur
      exact .inl ⟨_, _, t', rfl, hf₁.trans hi.inv (hf.trans hi₁.inv hdrop),
        ⟨hdrop.inv, hid, hi'.idle, hh'⟩, hloose'⟩
    case h_2 s₂ hins₂ =>
      obtain ⟨hstore₂, ht₂, hmem₂, hlist₂⟩ :=
        hi₁.inv.store.insertTw_ok hhold₁.mem hhold₁.list hins₂
      obtain ⟨hf₂, hi₂⟩ := hi₁.touch hstore₂ ht₂ hmem₂ (hlist₂ ▸ hhold₁.list)
      split
      case isTrue =>
        refine .inr ⟨s₂, _, _, rfl, hf₁.trans hi.inv hf₂, hi₂, ?_, rfl⟩
        exact fun tb => by cases tb <;> rfl
      case isFalse =>
        obtain ⟨hstore, ht, ⟨t', hmem, hloose'⟩, hlist⟩ :=
          hi₂.inv.store.cmCleanupTimewait cfg hi₂.holding.mem hi₂.holding.list
        obtain ⟨hf, hi'⟩ := hi₂.touch hstore ht hmem (hlist ▸ hi₂.holding.list)
        exact .inl ⟨_, _, t', rfl, hf₁.trans hi.inv (hf₂.trans hi₁.inv hf), hi', hloose'⟩

theorem cmCleanupTimewait_setId (s : Cm) (l r : Nat) (p : CmIdPrivate) (t : TimewaitInfo) :
    cmCleanupTimewait cfg (s.setId l p) r t = (cmCleanupTimewait cfg s r t).setId l p := by
  have hone : ∀ (tb : TwTable) (s : Cm) (t : TimewaitInfo),
      cleanupTw cfg tb (s.setId l p) r t = (cleanupTw cfg tb s r t).setId l p := by
    intro tb s t
    unfold cleanupTw
    split <;> rfl
  rw [cmCleanupTimewait, hone, hone]
  rfl

/-- The cm_id of a REQ whose path is not found is rejected and freed. -/
theorem rejectReq_follows (hi : InHand s l p r t) (hptr : q.timewaitInfo = p.timewaitInfo)
    (hwork : q.workList = p.workList) (hst : q.state = .reqRcvd) (reason : RejReason) :
    Follows s (rejectReq cfg env s l q reason).1 := by
  have hh := hi.holding.congr hptr hwork
  have hnull : q.timewaitInfo ≠ .null := by simp [hh.ptr]
  have hreset : (ibSendCmRej cfg env reason 0 (s.setId l q) l).1 = cmResetToIdle cfg s l q := by
    have hfollow : (s.setId l q).follow q.timewaitInfo = some (r, t) := hh.follow
    have hset : ∀ (s : Cm) (q' : CmIdPrivate), (s.setId l q).setId l q' = s.setId l q' := by
      simp [Cm.setId]
    simp only [ibSendCmRej, onId, Cm.setId_ids, update_self, hst]
    rw [cmResetToIdle, if_neg hnull, hfollow, cmResetToIdle, if_neg hnull, hh.follow]
    dsimp only
    rw [cmCleanupTimewait_setId, Cm.kfree_setId, hset]
  have hfollows : Follows s (cmResetToIdle cfg s l q) := cmResetToIdle_follows hi.inv hh
  unfold rejectReq
  dsimp only
  rw [hreset]
  split
  case h_1 => exact hfollows
  case h_2 q' hq' =>
    -- nothing is left to free but the cm_id
    have hnull' : q'.timewaitInfo = .null := by
      rw [cmResetToIdle, if_neg hnull, hh.follow] at hq'
      simp only [Cm.setId_ids, update_self] at hq'
      cases hq'
      rfl
    rw [dropReq, hnull']
    exact hfollows.trans hi.inv (freeId_follows hfollows.inv hq')

theorem acceptReq_follows (hi : InHand s l p r t) (hlinked : ∀ tb, t.inserted tb = true)
    {req : ReqMsg} (hqpn : t.remoteQpn = req.localQpn) :
    Follows s (acceptReq cfg env s l { p with state := .reqRcvd } req).1 := by
  have haccept : ∀ q : CmIdPrivate, q.timewaitInfo = p.timewaitInfo → q.workList = p.workList →
      q.state = .reqRcvd → Follows s (s.setId l (reqRcvd q req)) := by
    intro q hptr hwork hst
    refine hi.inv.rebind hi.holding hi.inv.store .refl hwork fun _ =>
      ⟨hptr.trans hi.holding.ptr, hi.holding.list, t, hi.holding.mem, fun _ => ⟨hlinked, hqpn⟩, ?_⟩
    intro hb
    simp [reqRcvd, hst, CmState.bound] at hb
  obtain ⟨hs₁, hptr₁, hwork₁, -⟩ :=
    cmInitAvByPath_same cfg env { p with state := .reqRcvd } .primary req.primaryPath
  unfold acceptReq
  split
  case h_1 p₁ hinit =>
    rw [hinit] at hs₁ hptr₁ hwork₁
    exact rejectReq_follows hi hptr₁ hwork₁ hs₁ _
  case h_2 p₁ hinit =>
    rw [hinit] at hs₁ hptr₁ hwork₁
    split
    case h_1 => exact haccept p₁ hptr₁ hwork₁ hs₁
    case h_2 path _ =>
      obtain ⟨hs₂, hptr₂, hwork₂, -⟩ := cmInitAvByPath_same cfg env p₁ .alternate path
      split
      case h_1 p₂ hinit₂ =>
        rw [hinit₂] at hs₂ hptr₂ hwork₂
        exact rejectReq_follows hi (hptr₂.trans hptr₁) (hwork₂.trans hwork₁) (hs₂.trans hs₁) _
      case h_2 p₂ hinit₂ =>
        rw [hinit₂] at hs₂ hptr₂ hwork₂
        exact haccept p₂ (hptr₂.trans hptr₁) (hwork₂.trans hwork₁) (hs₂.trans hs₁)

theorem cmReqHandler_follows (h : CmInv s) (m : Mad) (req : ReqMsg) :
    Follows s (cmReqHandler cfg env s m req).1 := by
  unfold cmReqHandler
  split
  case h_1 => exact .refl h
  case h_2 l _ =>
    split
    case isTrue => exact .refl h
    case isFalse =>
      dsimp only
      have hloose : (req.timewaitInfo l).Loose := fun tb => by cases tb <;> rfl
      obtain ⟨hf₀, hnot⟩ := alloc_follows h hloose rfl
      set s₀ : Cm := { s.setTw s.brk (req.timewaitInfo l) with brk := s.brk + 1 } with hs₀
      set p : CmIdPrivate := {
        caGuid := env.caGuid
        remoteId := req.localCommId
        av := avForResponse env m
        timewaitInfo := .ref s.brk } with hp
      have hf₁ : Follows s₀ (s₀.setId l p) := hf₀.inv.newId rfl rfl
      have hi : InHand (s₀.setId l p) l p s.brk (req.timewaitInfo l) := by
        refine ⟨hf₁.inv, by simp, rfl, rfl, by simp [hs₀], ?_, by simp [hp], ?_, p, by simp, rfl⟩
        · intro hr
          obtain ⟨t', ht', -⟩ := h.store.listed _ hr
          exact absurd (h.store.lt_brk ht') (Nat.lt_irrefl _)
        · intro l' q hl hq
          rw [Cm.setId_ids, update_of_ne hl] at hq
          exact hnot l' q hq
      have hf : Follows s (s₀.setId l p) := hf₀.trans h hf₁
      generalize hmatch : cmMatchReq cfg env _ m req s.brk (req.timewaitInfo l) = r
      have hcases := cmMatchReq_cases cfg env hi hloose m req
      rw [show cmMatchReq cfg env (s₀.setId l p) m req s.brk (req.timewaitInfo l) =
        r from hmatch] at hcases
      rcases hcases with ⟨s', out, t', rfl, hf', hi', hloose'⟩
        | ⟨s', x, t', rfl, hf', hi', hlinked, hqpn⟩
      · exact hf.trans h (hf'.trans hi.inv (dropReq_follows hi' hloose'))
      · exact hf.trans h (hf'.trans hi.inv (acceptReq_follows hi' hlinked hqpn))

theorem cmGetId_some {remoteId : Nat} (h : cmGetId s l remoteId = some p) :
    s.ids l = some p ∧ p.remoteId = remoteId := by
  simpa [cmGetId] using h

/-- A step, and the keys of what is linked. -/
structure Steady (s s' : Cm) : Prop where
  inv : CmInv s'
  keys : ∀ q t t', s.mem q = some t → ¬ t.Loose → s'.mem q = some t' → ∀ tb, t'.key tb = t.key tb

theorem Follows.steady (hf : Follows s s') : Steady s s' :=
  ⟨hf.inv, fun q t t' ht _ => hf.keys q t t' ht⟩

theorem Cm.setId_self (hp : s.ids l = some p) : s.setId l p = s := by
  cases s
  simp_all [Cm.setId]

/-- A cm_id that does not know its peer writes the keys of its timewait_info. -/
theorem CmInv.rekey (h : CmInv s) (hp : s.ids l = some p) (hh : Holding s l p r t)
    (hbound : p.state.bound = false) (hloose : t.Loose) {t' : TimewaitInfo} (hloose' : t'.Loose)
    (hqueued : t'.queued = t.queued) :
    CmInv (s.setTw r t') ∧ Holding (s.setTw r t') l p r t' := by
  have hstore : Store (s.setTw r t') :=
    h.store.write hh.mem hloose hloose' h.store.nodup (fun _ _ => Iff.rfl) fun hq =>
      h.store.queued r t hh.mem (hqueued ▸ hq)
  have hmem : ∀ q, ¬ q = r → (s.setTw r t').mem q = s.mem q := fun q hq => by
    rw [Cm.setTw_mem, update_of_ne hq]
  refine ⟨⟨hstore, fun l' q hq => ?_, h.apart⟩, hh.ptr, by simp, hh.list, hh.works, hh.others,
    hh.here⟩
  by_cases hl : l' = l
  · subst hl
    rw [Cm.setTw_ids, hp] at hq
    cases hq
    have hok := h.ids l' p hp
    refine ⟨fun _ => ⟨r, t', hh.ptr, by simp, hh.list, hh.works, ?_, fun _ => hloose'⟩,
      ?_, hok.nodup⟩
    · intro hb
      simp [hbound] at hb
    · intro r' hr'
      obtain ⟨hlist, t₀, ht₀, hloose₀⟩ := hok.works r' hr'
      exact ⟨hlist, t₀, (hmem r' fun heq => hh.works (heq ▸ hr')).trans ht₀, hloose₀⟩
  · refine (h.ids l' q hq).frame hmem (fun _ _ => Iff.rfl) ?_
    rintro _ rfl
    exact hh.others l' q hl hq

theorem cmRepHandler_steady (h : CmInv s) (m : Mad) (rep : RepMsg) :
    Steady s (cmRepHandler cfg env s m rep).1 := by
  unfold cmRepHandler
  dsimp only
  split
  case h_1 => exact (Follows.refl h).steady
  case h_2 p hget =>
    obtain ⟨hp, -⟩ := cmGetId_some hget
    split
    case isFalse => exact (Follows.refl h).steady
    case isTrue hst =>
      have howns : p.state.owns = true := by rcases hst with hst | hst <;> rw [hst] <;> rfl
      have hbound : p.state.bound = false := by rcases hst with hst | hst <;> rw [hst] <;> rfl
      obtain ⟨r, t, hh, htied⟩ := h.holding hp howns
      have hloose := htied.loose hbound
      rw [hh.follow]
      dsimp only
      set t' := rep.rekey t p.qpType with ht'
      have hloose' : t'.Loose := fun tb => by
        cases tb <;> [exact hloose .remoteId; exact hloose .remoteQp]
      obtain ⟨hinv, hh'⟩ := h.rekey hp hh hbound hloose hloose' rfl
      -- only the timewait_info of this cm_id, which is not linked, gets new keys
      suffices hsuff : ∀ s' : Cm, Follows (s.setTw r t') s' → Steady s s' by
        split
        case h_1 => exact hsuff _ (.refl hinv)
        case h_2 s₁ hins₁ =>
          obtain ⟨hstore₁, ht₁, hmem₁, hlist₁⟩ :=
            hinv.store.insertTw_ok hh'.mem hh'.list hins₁
          have hlist₁' : r ∉ s₁.timewaitList := hlist₁ ▸ hh'.list
          split
          case h_1 cur hins₂ =>
            have herase : (eraseTw cfg .remoteId s₁ r (t'.setInserted .remoteId true)).mem r =
                some t' := by
              rw [TimewaitInfo.eraseTw_mem]
              exact congrArg some (TimewaitInfo.setInserted_of_eq (hloose' .remoteId))
            have hf : Follows (s.setTw r t')
                (eraseTw cfg .remoteId s₁ r (t'.setInserted .remoteId true)) := by
              have := hinv.rebind hh' (hstore₁.eraseTw hmem₁ hlist₁')
                (ht₁.trans hinv.store (touches_relink hmem₁)) rfl fun _ =>
                  ⟨hh'.ptr, hlist₁', t', herase, fun hb => (by simp [hbound] at hb),
                    fun _ => hloose'⟩
              rwa [Cm.setId_self] at this
              exact (congrFun ht₁.ids rep.remoteCommId).trans hp
            exact hsuff _ (hf.trans hinv (dropStale_follows cfg env hf.inv cur))
          case h_2 s₂ hins₂ =>
            obtain ⟨hstore₂, ht₂, hmem₂, hlist₂⟩ := hstore₁.insertTw_ok hmem₁ hlist₁' hins₂
            refine hsuff _ (hinv.rebind hh' hstore₂ (ht₁.trans hinv.store ht₂) rfl fun _ =>
              ⟨hh'.ptr, hlist₂ ▸ hlist₁', _, hmem₂, ?_, ?_⟩)
            · exact fun _ => ⟨fun tb => by cases tb <;> rfl, rfl⟩
            · exact fun hb => by cases hb
      intro s' hf
      refine ⟨hf.inv, fun q t₀ t₁ h₀ hnot h₁ tb => hf.keys q t₀ t₁ ?_ h₁ tb⟩
      rw [Cm.setTw_mem, update_of_ne ?_]
      · exact h₀
      · rintro rfl
        rw [hh.mem] at h₀
        cases h₀
        exact hnot hloose

end

end IbCm
