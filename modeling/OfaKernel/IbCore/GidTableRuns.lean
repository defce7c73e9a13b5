-- SUMMARY: Every run of a port's GID table keeps unique entries.
import Mathlib.Data.List.Count
import OfaKernel.IbCore.GidTable
import OfaKernel.Lib.Run

/-!
# Runs of the GID table

Slots and entries name each other, and the count of an entry is the number of
references to it, and one more while it is valid. Three kinds of change keep
this: an entry changes in its slot, goes, or comes.
-/

open Function List

namespace IbCore

namespace GidTable

variable (port : GidPort) (T : GidTable)

/-! ## The integrity of the table -/

/-- The attributes of the valid entries, by slot. -/
def validAttr (i : Nat) : Option GidAttr := (T.validAt i).map (·.attr)

/-- No two slots for GIDs that are not default ones agree on GID, type and net device. -/
def Unique (f : Nat → Option GidAttr) : Prop :=
  ∀ i j a b, f i = some a → f j = some b → port.isGidIndexDefault i = false →
    port.isGidIndexDefault j = false → a.gid = b.gid → a.gidType = b.gidType →
      a.ndev = b.ndev → i = j

/-- What slots, entries, references and queued frees say about each other. -/
structure Books : Prop where
  slot : ∀ i p, T.dataVec i = some p → i < port.sz ∧ ∃ e, T.entries p = some e ∧
    e.attr.index = i ∧ e.state ≠ .invalid ∧ e.fromDefault = port.isGidIndexDefault i
  linked : ∀ p e, T.entries p = some e → e.state ≠ .invalid → T.dataVec e.attr.index = some p
  kref : ∀ p e, T.entries p = some e →
    e.kref = T.refs.count p + if e.state = .valid then 1 else 0
  held : ∀ p ∈ T.refs, ∃ e, T.entries p = some e ∧ e.state ≠ .invalid
  nodup : T.workQueue.Nodup
  queued : ∀ p, p ∈ T.workQueue ↔ ∃ e, T.entries p = some e ∧ e.kref = 0

/-- What every call keeps. -/
structure Inv : Prop extends Books port T where
  unique : Unique port T.validAttr
  alternate : Alternate T.calls
  hardware : port.capRoceGidTable = true → ∀ i, hwEntry T.calls i = T.validAttr i

variable {port T} {p i : Nat} {e e' : GidEntry}

theorem Unique.remove {f : Nat → Option GidAttr} (h : Unique port f) (ix : Nat) :
    Unique port (update f ix none) := by
  intro i j a b hi hj
  rw [update_apply] at hi hj
  split at hi
  · cases hi
  · split at hj
    · cases hj
    · exact h i j a b hi hj

theorem Unique.insert {f : Nat → Option GidAttr} (h : Unique port f) {ix : Nat} {attr : GidAttr}
    (hnew : port.isGidIndexDefault ix = false → ∀ i a, f i = some a → a.gid = attr.gid →
      a.gidType = attr.gidType → a.ndev ≠ attr.ndev) :
    Unique port (update f ix (some attr)) := by
  intro i j a b hi hj hdi hdj hg ht hn
  rw [update_apply] at hi hj
  split at hi
  next hix =>
    subst hix
    split at hj
    next hjx => exact hjx.symm
    next =>
      cases hi
      exact absurd hn.symm (hnew hdi j b hj hg.symm ht.symm)
  next =>
    split at hj
    next hjx =>
      subst hjx
      cases hj
      exact absurd hn (hnew hdj i a hi hg ht)
    next => exact h i j a b hi hj hdi hdj hg ht hn

/-! ### Valid entries -/

theorem validAt_eq_some : T.validAt i = some e ↔
    ∃ p, T.dataVec i = some p ∧ T.entries p = some e ∧ e.state = .valid := by
  simp only [validAt, entryAt, Option.filter_eq_some_iff, Option.bind_eq_some_iff,
    decide_eq_true_eq]
  constructor
  · rintro ⟨⟨p, h1, h2⟩, h3⟩
    exact ⟨p, h1, h2, h3⟩
  · rintro ⟨p, h1, h2, h3⟩
    exact ⟨⟨p, h1, h2⟩, h3⟩

theorem validAttr_at (hd : T.dataVec i = some p) (he : T.entries p = some e) :
    T.validAttr i = if e.state = .valid then some e.attr else none := by
  simp only [validAttr, validAt, entryAt, hd, Option.bind_some, he]
  split
  next hv => simp [hv]
  next hv => simp [hv]

theorem validAttr_empty (hd : T.dataVec i = none) : T.validAttr i = none := by
  simp [validAttr, validAt, entryAt, hd]

/-- A slot whose entry is the same has the same attributes. -/
theorem validAttr_congr {T' : GidTable} (hd : T'.dataVec i = T.dataVec i)
    (he : ∀ q, T.dataVec i = some q → T'.entries q = T.entries q) :
    T'.validAttr i = T.validAttr i := by
  simp only [validAttr, validAt, entryAt, hd]
  cases hq : T.dataVec i with
  | none => rfl
  | some q => simp [he q hq]

namespace Books

theorem init : Books port GidTable.init where
  slot := by simp [GidTable.init]
  linked := by simp [GidTable.init]
  kref := by simp [GidTable.init]
  held := by simp [GidTable.init]
  nodup := by simp [GidTable.init]
  queued := by simp [GidTable.init]

/-- A slot and its entry name each other. -/
theorem slot_iff (h : Books port T) (he : T.entries p = some e) (hs : e.state ≠ .invalid) :
    T.dataVec i = some p ↔ i = e.attr.index := by
  constructor
  · intro hi
    obtain ⟨-, e', he', hix, -⟩ := h.slot i p hi
    rw [he] at he'
    cases he'
    exact hix.symm
  · rintro rfl
    exact h.linked p e he hs

/-- The entry `p` changes from `e` to `e'`, in its slot. -/
structure Changes (T T' : GidTable) (p : Nat) (e e' : GidEntry) : Prop where
  dataVec : T'.dataVec = T.dataVec
  entries : T'.entries = update T.entries p (some e')
  index : e'.attr.index = e.attr.index
  fromDefault : e'.fromDefault = e.fromDefault
  state : e.state ≠ .invalid ∧ e'.state ≠ .invalid
  kref : e'.kref = T'.refs.count p + if e'.state = .valid then 1 else 0
  refs : ∀ q, q ≠ p → T'.refs.count q = T.refs.count q
  nodup : T'.workQueue.Nodup
  queued : ∀ q, q ∈ T'.workQueue ↔ if q = p then e'.kref = 0 else q ∈ T.workQueue

variable {T' : GidTable}

theorem change (h : Books port T) (he : T.entries p = some e) (hc : Changes T T' p e e') :
    Books port T' := by
  have hent : ∀ q f, T'.entries q = some f → (q = p ∧ f = e') ∨ (q ≠ p ∧ T.entries q = some f) := by
    intro q f hf
    rw [hc.entries, update_apply] at hf
    split at hf
    next hq =>
      cases hf
      exact .inl ⟨hq, rfl⟩
    next hq => exact .inr ⟨hq, hf⟩
  have hself : T'.entries p = some e' := by rw [hc.entries, update_self]
  have hother : ∀ q, q ≠ p → T'.entries q = T.entries q := fun q hq => by
    rw [hc.entries, update_of_ne hq]
  refine ⟨fun i q hq => ?_, fun q f hf hs => ?_, fun q f hf => ?_, fun q hq => ?_, hc.nodup,
    fun q => ?_⟩
  · rw [hc.dataVec] at hq
    obtain ⟨hi, f, hf, h1, h2, h3⟩ := h.slot i q hq
    refine ⟨hi, ?_⟩
    by_cases hqp : q = p
    · subst hqp
      rw [he] at hf
      cases hf
      exact ⟨e', hself, hc.index.trans h1, hc.state.2, hc.fromDefault.trans h3⟩
    · exact ⟨f, (hother q hqp).trans hf, h1, h2, h3⟩
  · rw [hc.dataVec]
    rcases hent q f hf with ⟨rfl, rfl⟩ | ⟨-, hf⟩
    · rw [hc.index]
      exact h.linked q e he hc.state.1
    · exact h.linked q f hf hs
  · rcases hent q f hf with ⟨rfl, rfl⟩ | ⟨hqp, hf⟩
    · exact hc.kref
    · rw [hc.refs q hqp]
      exact h.kref q f hf
  · by_cases hqp : q = p
    · exact ⟨e', hqp ▸ hself, hc.state.2⟩
    · have hin : q ∈ T.refs := by
        rw [← count_pos_iff, ← hc.refs q hqp]
        exact count_pos_iff.mpr hq
      obtain ⟨f, hf, hs⟩ := h.held q hin
      exact ⟨f, (hother q hqp).trans hf, hs⟩
  · rw [hc.queued q]
    by_cases hqp : q = p
    · subst hqp
      simp [hself]
    · rw [if_neg hqp, hother q hqp]
      exact h.queued q

/-- The entry `p` goes, and its slot is free. -/
structure Removes (T T' : GidTable) (p : Nat) (e : GidEntry) : Prop where
  dataVec : ∀ i, T'.dataVec i = if i = e.attr.index ∧ e.state ≠ .invalid then none else T.dataVec i
  entries : T'.entries = update T.entries p none
  unheld : p ∉ T.refs
  refs : T'.refs = T.refs
  nodup : T'.workQueue.Nodup
  queued : ∀ q, q ∈ T'.workQueue ↔ q ≠ p ∧ q ∈ T.workQueue

theorem remove (h : Books port T) (he : T.entries p = some e) (hr : Removes T T' p e) :
    Books port T' := by
  have hent : ∀ q f, T'.entries q = some f ↔ q ≠ p ∧ T.entries q = some f := by
    intro q f
    rw [hr.entries, update_apply]
    split
    next hq => simp [hq]
    next hq => simp [hq]
  -- the slot of another entry is another slot
  have hslot : ∀ i q, T'.dataVec i = some q → q ≠ p ∧ T.dataVec i = some q := by
    intro i q hq
    rw [hr.dataVec] at hq
    split at hq
    · cases hq
    next hne =>
      refine ⟨?_, hq⟩
      rintro rfl
      obtain ⟨-, f, hf, h1, h2, -⟩ := h.slot i q hq
      rw [he] at hf
      cases hf
      exact hne ⟨h1.symm, h2⟩
  refine ⟨fun i q hq => ?_, fun q f hf hs => ?_, fun q f hf => ?_, fun q hq => ?_, hr.nodup,
    fun q => ?_⟩
  · obtain ⟨hqp, hq⟩ := hslot i q hq
    obtain ⟨hi, f, hf, hrest⟩ := h.slot i q hq
    exact ⟨hi, f, (hent q f).mpr ⟨hqp, hf⟩, hrest⟩
  · obtain ⟨hqp, hf⟩ := (hent q f).mp hf
    have hl := h.linked q f hf hs
    rw [hr.dataVec, if_neg, hl]
    rintro ⟨hix, hse⟩
    rw [hix, h.linked p e he hse] at hl
    exact hqp (Option.some.inj hl).symm
  · rw [hr.refs]
    exact h.kref q f ((hent q f).mp hf).2
  · rw [hr.refs] at hq
    obtain ⟨f, hf, hs⟩ := h.held q hq
    exact ⟨f, (hent q f).mpr ⟨fun hqp => hr.unheld (hqp ▸ hq), hf⟩, hs⟩
  · rw [hr.queued q, h.queued q]
    constructor
    · rintro ⟨hqp, f, hf, hk⟩
      exact ⟨f, (hent q f).mpr ⟨hqp, hf⟩, hk⟩
    · rintro ⟨f, hf, hk⟩
      obtain ⟨hqp, hf⟩ := (hent q f).mp hf
      exact ⟨hqp, f, hf, hk⟩

/-- Fresh memory becomes the entry `p`, in its slot if it is valid. -/
structure Inserts (port : GidPort) (T T' : GidTable) (p : Nat) (e : GidEntry) : Prop where
  fresh : T.entries p = none
  slot : e.state ≠ .invalid → T.dataVec e.attr.index = none ∧ e.attr.index < port.sz ∧
    e.fromDefault = port.isGidIndexDefault e.attr.index
  dataVec : ∀ i, T'.dataVec i =
    if i = e.attr.index ∧ e.state ≠ .invalid then some p else T.dataVec i
  entries : T'.entries = update T.entries p (some e)
  kref : e.kref = if e.state = .valid then 1 else 0
  refs : T'.refs = T.refs
  queued : T'.workQueue = if e.kref = 0 then p :: T.workQueue else T.workQueue

theorem insert (h : Books port T) (hi : Inserts port T T' p e) : Books port T' := by
  have hent : ∀ q f, T'.entries q = some f ↔ (q = p ∧ f = e) ∨ T.entries q = some f := by
    intro q f
    rw [hi.entries, update_apply]
    split
    next hq =>
      subst hq
      rw [hi.fresh]
      simp [eq_comm]
    next hq => simp [hq]
  have hheld : p ∉ T.refs := fun hp => by
    obtain ⟨f, hf, -⟩ := h.held p hp
    rw [hi.fresh] at hf
    cases hf
  have hqueue : p ∉ T.workQueue := fun hp => by
    obtain ⟨f, hf, -⟩ := (h.queued p).mp hp
    rw [hi.fresh] at hf
    cases hf
  refine ⟨fun i q hq => ?_, fun q f hf hs => ?_, fun q f hf => ?_, fun q hq => ?_, ?_, fun q => ?_⟩
  · rw [hi.dataVec] at hq
    split at hq
    next hix =>
      cases hq
      obtain ⟨rfl, hs⟩ := hix
      obtain ⟨-, h2, h3⟩ := hi.slot hs
      exact ⟨h2, e, (hent p e).mpr (.inl ⟨rfl, rfl⟩), rfl, hs, h3⟩
    next =>
      obtain ⟨h1, f, hf, hrest⟩ := h.slot i q hq
      exact ⟨h1, f, (hent q f).mpr (.inr hf), hrest⟩
  · rw [hi.dataVec]
    rcases (hent q f).mp hf with ⟨rfl, rfl⟩ | hf
    · rw [if_pos ⟨rfl, hs⟩]
    · have hl := h.linked q f hf hs
      rw [if_neg, hl]
      rintro ⟨hix, hse⟩
      rw [hix, (hi.slot hse).1] at hl
      cases hl
  · rw [hi.refs]
    rcases (hent q f).mp hf with ⟨rfl, rfl⟩ | hf
    · rw [count_eq_zero_of_not_mem hheld, hi.kref, Nat.zero_add]
    · exact h.kref q f hf
  · rw [hi.refs] at hq
    obtain ⟨f, hf, hs⟩ := h.held q hq
    exact ⟨f, (hent q f).mpr (.inr hf), hs⟩
  · rw [hi.queued]
    split
    · exact nodup_cons.mpr ⟨hqueue, h.nodup⟩
    · exact h.nodup
  · have hmem : q ∈ T'.workQueue ↔ (q = p ∧ e.kref = 0) ∨ q ∈ T.workQueue := by
      rw [hi.queued]
      split
      next hk => simp [hk]
      next hk => simp [hk]
    rw [hmem, h.queued q]
    constructor
    · rintro (⟨rfl, hk⟩ | ⟨f, hf, hk⟩)
      · exact ⟨e, (hent q e).mpr (.inl ⟨rfl, rfl⟩), hk⟩
      · exact ⟨f, (hent q f).mpr (.inr hf), hk⟩
    · rintro ⟨f, hf, hk⟩
      rcases (hent q f).mp hf with ⟨rfl, rfl⟩ | hf
      · exact .inl ⟨rfl, hk⟩
      · exact .inr ⟨f, hf, hk⟩

theorem Changes.validAttr (h : Books port T) (he : T.entries p = some e) (hc : Changes T T' p e e')
    (i : Nat) : T'.validAttr i =
      if i = e.attr.index then (if e'.state = .valid then some e'.attr else none)
      else T.validAttr i := by
  split
  next hix =>
    have hslot : T'.dataVec i = some p := by
      rw [hc.dataVec]
      exact (h.slot_iff he hc.state.1).mpr hix
    exact validAttr_at hslot (by rw [hc.entries, update_self])
  next hix =>
    refine validAttr_congr (by rw [hc.dataVec]) fun q hq => ?_
    have hqp : q ≠ p := by
      rintro rfl
      exact hix ((h.slot_iff he hc.state.1).mp hq)
    rw [hc.entries, update_of_ne hqp]

theorem Changes.validAttr_same (h : Books port T) (he : T.entries p = some e)
    (hc : Changes T T' p e e') (hs : e'.state = e.state) (ha : e'.attr = e.attr) :
    T'.validAttr = T.validAttr := by
  funext i
  rw [hc.validAttr h he]
  split
  next hix =>
    subst hix
    rw [validAttr_at (h.linked p e he hc.state.1) he, hs, ha]
  next => rfl

theorem Removes.validAttr (h : Books port T) (he : T.entries p = some e) (hr : Removes T T' p e)
    (i : Nat) : T'.validAttr i =
      if i = e.attr.index ∧ e.state ≠ .invalid then none else T.validAttr i := by
  split
  next hix =>
    apply validAttr_empty
    rw [hr.dataVec, if_pos hix]
  next hix =>
    refine validAttr_congr (by rw [hr.dataVec, if_neg hix]) fun q hq => ?_
    have hqp : q ≠ p := by
      rintro rfl
      obtain ⟨-, f, hf, h1, h2, -⟩ := h.slot i q hq
      rw [he] at hf
      cases hf
      exact hix ⟨h1.symm, h2⟩
    rw [hr.entries, update_of_ne hqp]

/-- Freeing a deleted entry leaves the valid ones. -/
theorem Removes.validAttr_same (h : Books port T) (he : T.entries p = some e)
    (hr : Removes T T' p e) (hs : e.state ≠ .valid) : T'.validAttr = T.validAttr := by
  funext i
  rw [hr.validAttr h he]
  split
  next hix =>
    obtain ⟨rfl, hv⟩ := hix
    rw [validAttr_at (h.linked p e he hv) he, if_neg hs]
  next => rfl

theorem Inserts.validAttr (h : Books port T) (hi : Inserts port T T' p e) (i : Nat) :
    T'.validAttr i =
      if i = e.attr.index ∧ e.state ≠ .invalid then (if e.state = .valid then some e.attr else none)
      else T.validAttr i := by
  split
  next hix =>
    exact validAttr_at (by rw [hi.dataVec, if_pos hix]) (by rw [hi.entries, update_self])
  next hix =>
    refine validAttr_congr (by rw [hi.dataVec, if_neg hix]) fun q hq => ?_
    have hqp : q ≠ p := by
      rintro rfl
      obtain ⟨-, f, hf, -⟩ := h.slot i q hq
      rw [hi.fresh] at hf
      cases hf
    rw [hi.entries, update_of_ne hqp]

end Books

/-! ## What the operations keep -/

namespace Inv

theorem init : Inv port GidTable.init where
  toBooks := .init
  unique := by
    intro i j a b hi
    simp [GidTable.init, validAttr, validAt, entryAt] at hi
  alternate := trivial
  hardware := fun _ i => by simp [GidTable.init, validAttr, validAt, entryAt, hwEntry]

/-- The valid entries and the driver's calls are as before. -/
theorem same {T' : GidTable} (h : Inv port T) (hb : Books port T') (hv : T'.validAttr = T.validAttr)
    (hc : T'.calls = T.calls) : Inv port T' :=
  ⟨hb, hv ▸ h.unique, hc ▸ h.alternate, by rw [hv, hc]; exact h.hardware⟩

/-- A reference is taken to an entry that is not about to be freed. -/
theorem get (h : Inv port T) (he : T.entries p = some e) (hs : e.state ≠ .invalid)
    (hk : 0 < e.kref) : Inv port (T.getGidEntry p) := by
  have hform : T.getGidEntry p = { T with
      entries := update T.entries p (some { e with kref := e.kref + 1 })
      refs := p :: T.refs } := by
    simp only [getGidEntry, he]
  rw [hform]
  have hkref := h.kref p e he
  have hc : Books.Changes T { T with
      entries := update T.entries p (some { e with kref := e.kref + 1 })
      refs := p :: T.refs } p e { e with kref := e.kref + 1 } := by
    refine ⟨rfl, rfl, rfl, rfl, ⟨hs, hs⟩, ?_, fun q hq => ?_, h.nodup, fun q => ?_⟩
    · simp only [count_cons_self]
      omega
    · exact count_cons_of_ne (Ne.symm hq)
    · split
      next hqp =>
        subst hqp
        rw [h.queued q, he]
        simp
        omega
      next => exact Iff.rfl
  exact h.same (h.toBooks.change he hc) (hc.validAttr_same h.toBooks he rfl rfl) rfl

/-- A reference is dropped; with the last one the free is queued. -/
theorem put (h : Inv port T) (hp : p ∈ T.refs) :
    Inv port ({ T with refs := T.refs.erase p }.putGidEntry p) := by
  obtain ⟨e, he, hs⟩ := h.held p hp
  have hkref := h.kref p e he
  have hpos : 0 < T.refs.count p := count_pos_iff.mpr hp
  generalize hT' : { T with refs := T.refs.erase p }.putGidEntry p = T'
  have hform : T' = { T with
      entries := update T.entries p (some { e with kref := e.kref - 1 })
      refs := T.refs.erase p
      workQueue := if e.kref = 1 then p :: T.workQueue else T.workQueue } := by
    rw [← hT']
    simp only [putGidEntry, he]
  have hnot : p ∉ T.workQueue := fun hq => by
    obtain ⟨f, hf, hz⟩ := (h.queued p).mp hq
    rw [he] at hf
    cases hf
    omega
  have hc : Books.Changes T T' p e { e with kref := e.kref - 1 } := by
    subst hform
    refine ⟨rfl, rfl, rfl, rfl, ⟨hs, hs⟩, ?_, fun q hq => ?_, ?_, fun q => ?_⟩
    · simp only [count_erase_self]
      omega
    · exact count_erase_of_ne hq
    · split
      · exact nodup_cons.mpr ⟨hnot, h.nodup⟩
      · exact h.nodup
    · simp only
      by_cases hqp : q = p
      · subst hqp
        rw [if_pos rfl]
        split
        next hk => simp [hk]
        next hk =>
          refine iff_of_false hnot ?_
          omega
      · split
        next hk => simp [hqp]
        next => exact Iff.rfl
  exact h.same (h.toBooks.change he hc) (hc.validAttr_same h.toBooks he rfl rfl) (by rw [hform])

theorem freeWork (h : Inv port T) (hp : p ∈ T.workQueue) : Inv port (T.freeGidWork p) := by
  obtain ⟨e, he, hz⟩ := (h.queued p).mp hp
  have hkref := h.kref p e he
  have hs : e.state ≠ .valid := fun hv => by
    rw [if_pos hv] at hkref
    omega
  have hform : T.freeGidWork p = { T with
      dataVec := if T.dataVec e.attr.index = some p then
        update T.dataVec e.attr.index none else T.dataVec
      entries := update T.entries p none
      workQueue := T.workQueue.erase p } := by
    simp only [freeGidWork, freeGidEntryLocked, he]
  have hr : Books.Removes T (T.freeGidWork p) p e := by
    rw [hform]
    refine ⟨fun i => ?_, rfl, ?_, rfl, h.nodup.erase p, fun q => ?_⟩
    · simp only
      by_cases hv : e.state = .invalid
      · have hd : T.dataVec e.attr.index ≠ some p := fun hd => by
          obtain ⟨-, f, hf, -, h2, -⟩ := h.slot _ p hd
          rw [he] at hf
          cases hf
          exact h2 hv
        rw [if_neg hd, if_neg fun hc => hc.2 hv]
      · rw [if_pos (h.linked p e he hv), update_apply]
        simp [hv]
    · rw [← count_eq_zero]
      omega
    · exact h.nodup.mem_erase_iff
  exact h.same (h.toBooks.remove he hr) (hr.validAttr_same h.toBooks he hs) (by rw [hform])

/-- What `del_gid` does to a valid entry: with a reference left it stays in its slot. -/
theorem delGid_eq (hd : T.dataVec i = some p) (he : T.entries p = some e)
    (hix : e.attr.index = i) : T.delGid port i =
      { T with
        dataVec := if e.kref = 1 then update T.dataVec i none else T.dataVec
        entries := update T.entries p
          (if e.kref = 1 then none else some { e.pending with kref := e.kref - 1 })
        calls := if port.capRoceGidTable then .delGid e.pending.attr :: T.calls else T.calls } := by
  unfold delGid
  simp only [hd, he]
  unfold putGidEntryLocked
  cases port.capRoceGidTable <;> by_cases hk : e.kref = 1 <;>
    simp [freeGidEntryLocked, hk, hix, hd]

/-- `del_gid` on a valid entry. -/
theorem del (h : Inv port T) (hv : T.validAt i = some e) :
    Inv port (T.delGid port i) ∧ (T.delGid port i).validAttr = update T.validAttr i none := by
  obtain ⟨p, hd, he, hst⟩ := validAt_eq_some.mp hv
  have hs : e.state ≠ .invalid := by
    rw [hst]
    decide
  have hix : e.attr.index = i := ((h.slot_iff he hs).mp hd).symm
  have hkref := h.kref p e he
  rw [if_pos hst] at hkref
  have hva : T.validAttr i = some e.attr := by rw [validAttr_at hd he, if_pos hst]
  have hnot : p ∉ T.workQueue := fun hq => by
    obtain ⟨f, hf, hz⟩ := (h.queued p).mp hq
    rw [he] at hf
    cases hf
    omega
  have hform : T.delGid port i = _ := delGid_eq hd he hix
  generalize T.delGid port i = T' at hform ⊢
  have hbooks : Books port T' ∧ T'.validAttr = update T.validAttr i none := by
    by_cases hk : e.kref = 1
    · -- nobody refers to it: the slot is free at once
      have hr : Books.Removes T T' p e := by
        rw [hform]
        refine ⟨fun j => ?_, by simp only [if_pos hk], ?_, rfl, h.nodup, fun q => ?_⟩
        · simp [if_pos hk, update_apply, hix, hs]
        · rw [← count_eq_zero]
          omega
        · constructor
          · intro hq
            exact ⟨fun hqp => hnot (hqp ▸ hq), hq⟩
          · exact fun hq => hq.2
      refine ⟨h.toBooks.remove he hr, funext fun j => ?_⟩
      rw [hr.validAttr h.toBooks he, update_apply, hix]
      simp [hs]
    · have hc : Books.Changes T T' p e { e.pending with kref := e.kref - 1 } := by
        rw [hform]
        refine ⟨by simp only [if_neg hk], by simp only [if_neg hk], by simp, by simp,
          ⟨hs, by simp⟩, ?_, fun q _ => rfl, h.nodup, fun q => ?_⟩
        · simp only [GidEntry.pending_state, reduceCtorEq, if_false]
          omega
        · simp only
          split
          next hqp =>
            subst hqp
            refine iff_of_false hnot ?_
            omega
          next => exact Iff.rfl
      refine ⟨h.toBooks.change he hc, funext fun j => ?_⟩
      rw [hc.validAttr h.toBooks he, update_apply, hix]
      simp
  have hcalls : T'.calls =
      if port.capRoceGidTable then .delGid e.pending.attr :: T.calls else T.calls := by rw [hform]
  refine ⟨⟨hbooks.1, ?_, ?_, fun hcap j => ?_⟩, hbooks.2⟩
  · rw [hbooks.2]
    exact h.unique.remove i
  · rw [hcalls]
    split
    next hcap =>
      refine ⟨?_, h.alternate⟩
      rw [h.hardware hcap, GidEntry.pending_index, hix, hva]
      rfl
    next => exact h.alternate
  · rw [hcalls, if_pos hcap, hbooks.2, hwEntry, h.hardware hcap, GidEntry.pending_index, hix,
      update_apply]
    simp only [eq_comm]

end Inv

/-- Nothing that the table or the driver shows has changed. -/
structure SameTable (T T' : GidTable) : Prop where
  dataVec : T'.dataVec = T.dataVec
  entryAt : ∀ i, T'.entryAt i = T.entryAt i
  refs : T'.refs = T.refs
  hardware : ∀ i, hwEntry T'.calls i = hwEntry T.calls i

theorem SameTable.refl (T : GidTable) : SameTable T T := ⟨rfl, fun _ => rfl, rfl, fun _ => rfl⟩

/-- The entry whose addition failed is in no slot. -/
theorem sameTable_of_insert {T' : GidTable} (h : Books port T) (hi : Books.Inserts port T T' p e)
    (hs : e.state = .invalid) (hc : ∀ i, hwEntry T'.calls i = hwEntry T.calls i) :
    SameTable T T' := by
  have hd : T'.dataVec = T.dataVec := funext fun i => by
    rw [hi.dataVec, if_neg fun hc => hc.2 hs]
  refine ⟨hd, fun i => ?_, hi.refs, hc⟩
  simp only [entryAt, hd]
  cases hq : T.dataVec i with
  | none => rfl
  | some q =>
    have hqp : q ≠ p := by
      rintro rfl
      obtain ⟨-, f, hf, -⟩ := h.slot i q hq
      rw [hi.fresh] at hf
      cases hf
    rw [Option.bind_some, Option.bind_some, hi.entries, update_of_ne hqp]

theorem findGidFrom_spec {gid gidType : Nat} {ndev : Option Nat} {defaultGid : Bool}
    {mask : FindMask} {pempty : Bool} {n i : Nat} {found empty : Option Nat} (hn : i + n = port.sz)
    (hf : ∀ j, found = some j → j < port.sz ∧ T.matchesAt port gid gidType ndev defaultGid mask j)
    (hnone : found = none → ∀ j < i, T.matchesAt port gid gidType ndev defaultGid mask j = false)
    (he : ∀ j, empty = some j →
      j < port.sz ∧ T.dataVec j = none ∧ defaultGid = port.isGidIndexDefault j) :
    let r := T.findGidFrom port gid gidType ndev defaultGid mask pempty n i found empty
    (∀ j, r.1 = some j → j < port.sz ∧ T.matchesAt port gid gidType ndev defaultGid mask j) ∧
      (r.1 = none → ∀ j < port.sz, T.matchesAt port gid gidType ndev defaultGid mask j = false) ∧
      ∀ j, r.2 = some j →
        j < port.sz ∧ T.dataVec j = none ∧ defaultGid = port.isGidIndexDefault j := by
  induction n generalizing i found empty with
  | zero =>
    exact ⟨hf, hn ▸ hnone, he⟩
  | succ n ih =>
    simp only [findGidFrom]
    split
    next hstop =>
      refine ⟨hf, fun h => ?_, he⟩
      have h0 : found = none := h
      simp [h0] at hstop
    next =>
      refine ih (by omega) (fun j hj => ?_) (fun hj k hk => ?_) fun j hj => ?_
      · split at hj
        next hm =>
          cases hj
          exact ⟨by omega, hm.2⟩
        next => exact hf j hj
      · split at hj
        next => cases hj
        next hm =>
          rcases Nat.lt_succ_iff_lt_or_eq.mp hk with hk | rfl
          · exact hnone hj k hk
          · simpa [hj] using hm
      · split at hj
        next hm =>
          cases hj
          exact ⟨by omega, hm.2.2.1, hm.2.2.2⟩
        next => exact he j hj

section Find

variable {gid gidType : Nat} {ndev : Option Nat} {defaultGid : Bool} {mask : FindMask}
    {pempty : Bool}

theorem findGid_spec :
    let r := T.findGid port gid gidType ndev defaultGid mask pempty
    (∀ j, r.1 = some j → j < port.sz ∧ T.matchesAt port gid gidType ndev defaultGid mask j) ∧
      (r.1 = none → ∀ j < port.sz, T.matchesAt port gid gidType ndev defaultGid mask j = false) ∧
      ∀ j, r.2 = some j →
        j < port.sz ∧ T.dataVec j = none ∧ defaultGid = port.isGidIndexDefault j :=
  findGidFrom_spec (by omega) (by simp) (by simp) (by simp)

theorem findGid_valid {j : Nat}
    (h : (T.findGid port gid gidType ndev defaultGid mask pempty).1 = some j) :
    ∃ e, T.validAt j = some e := by
  have hm := (findGid_spec.1 j h).2
  unfold matchesAt at hm
  cases hv : T.validAt j with
  | none => simp [hv] at hm
  | some e => exact ⟨e, rfl⟩

/-- With GID, type and net device in the mask, nothing found means no such valid entry. -/
theorem findGid_none (h : Inv port T) (hm : mask.gid = true ∧ mask.gidType = true ∧
      mask.netdev = true ∧ mask.default = false)
    (hnone : (T.findGid port gid gidType ndev defaultGid mask pempty).1 = none) {attr : GidAttr}
    (hv : T.validAttr i = some attr) (hg : attr.gid = gid) (ht : attr.gidType = gidType) :
    attr.ndev ≠ ndev := by
  obtain ⟨e, hva, rfl⟩ := Option.map_eq_some_iff.mp hv
  obtain ⟨p, hd, -⟩ := validAt_eq_some.mp hva
  have hno := findGid_spec.2.1 hnone i (h.slot i p hd).1
  intro hn
  simp [matchesAt, hva, hm, hg, ht, hn] at hno

end Find

/-- A new GID goes to a free slot of its kind, or nothing changes. -/
theorem Inv.addModify (h : Inv port T) {attr : GidAttr} {fromDefault : Bool} (o : AddOutcome)
    (hgid : attr.gid ≠ 0) (hfree : T.dataVec attr.index = none) (hlt : attr.index < port.sz)
    (hdef : fromDefault = port.isGidIndexDefault attr.index)
    (hnew : port.isGidIndexDefault attr.index = false → ∀ i a, T.validAttr i = some a →
      a.gid = attr.gid → a.gidType = attr.gidType → a.ndev ≠ attr.ndev) :
    Inv port (T.addModifyGid port attr fromDefault o).1 ∧
      ((T.addModifyGid port attr fromDefault o).2 ≠ 0 →
        SameTable T (T.addModifyGid port attr fromDefault o).1) := by
  have hempty : T.validAttr attr.index = none := validAttr_empty hfree
  have hnov : T.validAt attr.index = none := by simp [validAt, entryAt, hfree]
  unfold addModifyGid
  simp only [hnov, Option.isSome_none, Bool.false_eq_true, if_false, if_neg hgid]
  cases ho : o.alloc.filter fun p => (T.entries p).isNone with
  | none => exact ⟨h, fun _ => .refl T⟩
  | some p =>
    have hfresh : T.entries p = none := by
      have := (Option.filter_eq_some_iff.mp ho).2
      simpa using this
    simp only
    cases hret : addRoceGid port attr o.driverRet with
    | mk ret calls =>
      -- the driver is only asked about an empty index
      have hcalls : (ret ≠ 0 → (∀ i, hwEntry (calls ++ T.calls) i = hwEntry T.calls i)) ∧
          (ret = 0 → port.capRoceGidTable = true → ∀ i, hwEntry (calls ++ T.calls) i =
            if i = attr.index then some attr else hwEntry T.calls i) ∧
          Alternate (calls ++ T.calls) := by
        unfold addRoceGid at hret
        split at hret
        · cases hret
          exact ⟨fun _ _ => rfl, by simp, h.alternate⟩
        · split at hret
          next hcap =>
            cases hret
            refine ⟨fun hr i => ?_, fun hr _ i => ?_, ?_, h.alternate⟩
            · simp [hwEntry, hr]
            · simp [hwEntry, hr, eq_comm]
            · exact (h.hardware hcap _).trans hempty
          next hcap =>
            cases hret
            exact ⟨by simp, fun _ hc => absurd hc hcap, h.alternate⟩
      obtain ⟨hfail, hok, halt⟩ := hcalls
      split
      next hne =>
        set T' := ({ T with
          entries := update T.entries p (some (allocGidEntry attr fromDefault))
          calls := calls ++ T.calls } : GidTable).putGidEntry p with hT'
        have hi : Books.Inserts port T T' p { allocGidEntry attr fromDefault with kref := 0 } := by
          refine ⟨hfresh, fun hs => absurd rfl hs, fun i => ?_, ?_, rfl, ?_, ?_⟩ <;>
            simp [hT', putGidEntry, allocGidEntry]
        have hc : T'.calls = calls ++ T.calls := by simp [hT', putGidEntry]
        have hva : T'.validAttr = T.validAttr := funext fun i => by
          rw [hi.validAttr h.toBooks, if_neg fun hc => hc.2 rfl]
        refine ⟨⟨h.toBooks.insert hi, hva ▸ h.unique, hc ▸ halt, fun hcap i => ?_⟩,
          fun _ => sameTable_of_insert h.toBooks hi rfl fun i => by rw [hc, hfail hne i]⟩
        rw [hc, hfail hne i, hva]
        exact h.hardware hcap i
      next heq =>
        have hret0 : ret = 0 := by simpa using heq
        refine ⟨?_, fun hne => absurd rfl hne⟩
        set T' := ({ T with
          entries := update T.entries p (some (allocGidEntry attr fromDefault))
          calls := calls ++ T.calls } : GidTable).storeGidEntry p
            (allocGidEntry attr fromDefault) with hT'
        have hi : Books.Inserts port T T' p
            { allocGidEntry attr fromDefault with state := .valid } := by
          refine ⟨hfresh, fun _ => ⟨hfree, hlt, hdef⟩, fun i => ?_, ?_, rfl, rfl, ?_⟩
          · simp [hT', storeGidEntry, update_apply]
          · simp [hT', storeGidEntry]
          · simp [hT', storeGidEntry, allocGidEntry]
        have hva : T'.validAttr = update T.validAttr attr.index (some attr) :=
          funext fun i => by
            rw [hi.validAttr h.toBooks, update_apply]
            simp [allocGidEntry]
        refine ⟨h.toBooks.insert hi, ?_, halt, fun hcap i => ?_⟩
        · rw [hva]
          exact h.unique.insert hnew
        · have hc : T'.calls = calls ++ T.calls := rfl
          rw [hc, hok hret0 hcap, hva, update_apply, h.hardware hcap]

theorem Inv.addMasked (h : Inv port T) {gid gidType : Nat} {ndev : Option Nat} {mask : FindMask}
    {defaultGid : Bool} (o : AddOutcome)
    (hm : defaultGid = false → mask.gid = true ∧ mask.gidType = true ∧ mask.netdev = true ∧
      mask.default = false) :
    Inv port (T.ibCacheGidAddMasked port gid gidType ndev mask defaultGid o).1 ∧
      ((T.ibCacheGidAddMasked port gid gidType ndev mask defaultGid o).2 ≠ 0 →
        SameTable T (T.ibCacheGidAddMasked port gid gidType ndev mask defaultGid o).1) := by
  unfold ibCacheGidAddMasked
  split
  next => exact ⟨h, fun _ => .refl T⟩
  next hgid =>
    split
    next => exact ⟨h, fun _ => .refl T⟩
    next => exact ⟨h, fun _ => .refl T⟩
    next empty hfind =>
      obtain ⟨hlt, hfree, hdef⟩ := findGid_spec.2.2 empty (by rw [hfind])
      have hnone : (T.findGid port gid gidType ndev defaultGid mask true).1 = none := by rw [hfind]
      have hix : empty % 2 ^ 16 = empty := Nat.mod_eq_of_lt (Nat.lt_of_lt_of_le hlt port.sz_le)
      rw [hix]
      refine h.addModify o hgid hfree hlt hdef fun hd i a ha hg ht => ?_
      exact findGid_none h (hm (hdef.trans hd)) hnone ha hg ht

theorem Inv.add (h : Inv port T) (gid gidType : Nat) (ndev : Option Nat)
    (idev : Option (Nat × Nat)) (o : AddOutcome) :
    Inv port (T.ibCacheGidAdd port gid gidType ndev idev o).1 ∧
      ((T.ibCacheGidAdd port gid gidType ndev idev o).2 ≠ 0 →
        SameTable T (T.ibCacheGidAdd port gid gidType ndev idev o).1) := by
  unfold ibCacheGidAdd
  split
  · exact ⟨h, fun _ => .refl T⟩
  · exact h.addMasked o fun _ => ⟨rfl, rfl, rfl, rfl⟩

theorem Inv.delMasked (h : Inv port T) (gid gidType : Nat) (ndev : Option Nat) (mask : FindMask)
    (defaultGid : Bool) : Inv port
    (T.ibCacheGidDelMasked port gid gidType ndev mask defaultGid).1 := by
  unfold ibCacheGidDelMasked
  split
  · exact h
  next ix hfind =>
    obtain ⟨e, hv⟩ := findGid_valid hfind
    exact (h.del hv).1

/-- A loop over slots or types keeps what each of its rounds keeps. -/
theorem Inv.foldl {α : Type} {f : GidTable → α → GidTable} {l : List α} (h : Inv port T)
    (hf : ∀ T a, Inv port T → Inv port (f T a)) : Inv port (l.foldl f T) := by
  induction l generalizing T with
  | nil => exact h
  | cons a l ih => exact ih (hf T a h)

theorem Inv.delAll (h : Inv port T) (ndev : Option Nat) :
    Inv port (T.ibCacheGidDelAllNetdevGids port ndev) := by
  refine h.foldl fun T ix h => ?_
  split
  next hv =>
    cases he : T.validAt ix with
    | none => simp [he] at hv
    | some e => exact (h.del he).1
  next => exact h

theorem Inv.setDefault (h : Inv port T) (gid ndev gidTypeMask : Nat) (o : Nat → AddOutcome) :
    Inv port (T.ibCacheGidSetDefaultGid port gid ndev gidTypeMask o) := by
  refine h.foldl fun T gidType h => ?_
  split
  · exact (h.addMasked (o gidType) fun hd => by cases hd).1
  · exact h

theorem Inv.deleteDefault (h : Inv port T) (ndev gidTypeMask : Nat) :
    Inv port (T.ibCacheGidDeleteDefaultGid port ndev gidTypeMask) := by
  refine h.foldl fun T gidType h => ?_
  split
  · exact h.delMasked ..
  · exact h

/-- A lookup that has found a valid entry takes a reference to it. -/
theorem Inv.getValid (h : Inv port T) (hv : T.validAt i = some e) :
    Inv port ((T.dataVec i).elim T T.getGidEntry) := by
  obtain ⟨p, hd, he, hst⟩ := validAt_eq_some.mp hv
  have hk := h.kref p e he
  rw [if_pos hst] at hk
  rw [hd]
  refine h.get he ?_ (by omega)
  rw [hst]
  decide

theorem Inv.hold (h : Inv port T) (hp : p ∈ T.refs) : Inv port (T.getGidEntry p) := by
  obtain ⟨e, he, hs⟩ := h.held p hp
  have hk := h.kref p e he
  have hpos : 0 < T.refs.count p := count_pos_iff.mpr hp
  exact h.get he hs (by omega)

/-! ## Every run -/

theorem Inv.step (h : Inv port T) (event : Event) : Inv port (T.step port event) := by
  cases event with
  | add gid gidType ndev idev o => exact (h.add gid gidType ndev idev o).1
  | del gid gidType ndev => exact h.delMasked ..
  | delAllNetdev ndev => exact h.delAll ndev
  | setDefault gid ndev gidTypeMask o => exact h.setDefault gid ndev gidTypeMask o
  | deleteDefault ndev gidTypeMask => exact h.deleteDefault ndev gidTypeMask
  | findByPort gid gidType ndev =>
    simp only [GidTable.step, rdmaFindGidByPort]
    split
    · exact h
    next ix hfind =>
      obtain ⟨e, hv⟩ := findGid_valid hfind
      exact h.getValid hv
  | findByFilter gid filter =>
    simp only [GidTable.step, rdmaFindGidByFilter]
    split
    · exact h
    next ix hfind =>
      have hany := List.find?_some hfind
      cases hv : T.validAt ix with
      | none => simp [hv] at hany
      | some e => exact h.getValid hv
  | getAttr index =>
    simp only [GidTable.step, rdmaGetGidAttr]
    split
    next hv =>
      obtain ⟨e, he⟩ := Option.isSome_iff_exists.mp hv.2
      exact h.getValid he
    next => exact h
  | hold p =>
    simp only [GidTable.step, rdmaHoldGidAttr]
    split
    next hp => exact h.hold hp
    next => exact h
  | put p =>
    simp only [GidTable.step, rdmaPutGidAttr]
    split
    next hp => exact h.put hp
    next => exact h
  | freeWork p =>
    simp only [GidTable.step]
    split
    next hp => exact h.freeWork hp
    next => exact h

/-- The integrity of the table. -/
structure Sound (port : GidPort) (T : GidTable) : Prop where
  unique : ∀ i j e f, T.validAt i = some e → T.validAt j = some f → e.fromDefault = false →
    f.fromDefault = false → e.attr.gid = f.attr.gid → e.attr.gidType = f.attr.gidType →
      e.attr.ndev = f.attr.ndev → i = j
  defaultSlot : ∀ i e, T.entryAt i = some e → e.fromDefault = port.isGidIndexDefault i
  holders : ∀ p ∈ T.refs, ∃ e, T.entries p = some e ∧ T.dataVec e.attr.index = some p
  alternate : Alternate T.calls
  hardware : port.capRoceGidTable = true → ∀ i, hwEntry T.calls i = (T.validAt i).map (·.attr)
  failedAdd : ∀ gid gidType ndev idev o, (T.ibCacheGidAdd port gid gidType ndev idev o).2 ≠ 0 →
    SameTable T (T.ibCacheGidAdd port gid gidType ndev idev o).1
  failedDefault : ∀ gid gidType ndev mask o,
    (T.ibCacheGidAddMasked port gid gidType ndev mask true o).2 ≠ 0 →
      SameTable T (T.ibCacheGidAddMasked port gid gidType ndev mask true o).1

theorem Inv.defaultSlot (h : Inv port T) (he : T.entryAt i = some e) :
    e.fromDefault = port.isGidIndexDefault i := by
  obtain ⟨p, hd, hp⟩ := Option.bind_eq_some_iff.mp he
  obtain ⟨-, f, hf, -, -, h3⟩ := h.slot i p hd
  rw [hp] at hf
  cases hf
  exact h3

theorem Inv.sound (h : Inv port T) : T.Sound port where
  unique := by
    intro i j e f he hf hde hdf hg ht hn
    have hei : T.entryAt i = some e := (Option.filter_eq_some_iff.mp he).1
    have hfj : T.entryAt j = some f := (Option.filter_eq_some_iff.mp hf).1
    refine h.unique i j e.attr f.attr ?_ ?_ ((h.defaultSlot hei).symm.trans hde)
      ((h.defaultSlot hfj).symm.trans hdf) hg ht hn
    · simp [validAttr, he]
    · simp [validAttr, hf]
  defaultSlot := fun i e he => h.defaultSlot he
  holders := by
    intro p hp
    obtain ⟨e, he, hs⟩ := h.held p hp
    exact ⟨e, he, h.linked p e he hs⟩
  alternate := h.alternate
  hardware := h.hardware
  failedAdd := fun gid gidType ndev idev o => (h.add gid gidType ndev idev o).2
  failedDefault := fun _ _ _ _ o => (h.addMasked o fun hd => by cases hd).2

/-- The table of a port keeps its integrity over every run of additions, deletions,
lookups, dropped references and queued frees. -/
theorem gid_table_every_run (port : GidPort) (events : List Event) :
    ∀ T ∈ Run.states (step port) init events, T.Sound port := by
  have hstep : ∀ (T : GidTable) event, T.Inv port → True → (T.step port event).Inv port :=
    fun _ event h _ => h.step event
  intro T hT
  exact ((Run.steps_true _ events).invariant hstep .init T hT).sound

/-- A port with four slots, the first of them for a default GID. -/
def smallPort : GidPort :=
  { sz := 4, sz_le := by decide, defaultGidIndices := 1, capRoceGidTable := true }

/-- A GID is deleted while it is referenced and added again before it is freed. -/
def readded : List Event :=
  [.setDefault 7 1 1 fun _ => ⟨some 10, 0⟩, .add 5 1 (some 1) none ⟨some 11, 0⟩,
    .findByPort 5 1 none, .del 5 1 (some 1), .add 5 1 (some 1) none ⟨some 12, 0⟩, .put 11,
    .add 6 1 (some 1) none ⟨some 13, 1⟩, .freeWork 11, .freeWork 13]

theorem gid_table_every_run_readded : (Run.final (step smallPort) init readded).Sound smallPort :=
  gid_table_every_run smallPort readded _ (Run.final_mem_states _ _)

end GidTable

end IbCore
