-- SUMMARY: The doorbell pages of mlx4 (`alloc.c`).
import OfaKernel.Lib.Bitmap
import OfaKernel.Lib.Dyadic
import OfaKernel.Lib.Run

/-!
# Doorbell pages

A page has one bit for each free pair in `order1`, and one for each free half of a broken pair in
`order0`.
-/

open List

namespace Mlx4

/-! ## Model -/

/-- `struct mlx4_db_pgdir`, with a number for its address. -/
structure DbPgdir where
  id : Nat
  order0 : Bitmap
  order1 : Bitmap
  dbPage : Nat
  dbDma : Nat

structure Db where
  pgdir : Nat
  index : Nat
  order : Nat
  db : Nat
  dma : Nat
  deriving Repr, DecidableEq

namespace DbPgdir

def bits (p : DbPgdir) : Nat → Bitmap
  | 0 => p.order0
  | _ => p.order1

def setBits (p : DbPgdir) (o : Nat) (b : Bitmap) : DbPgdir :=
  match o with
  | 0 => { p with order0 := b }
  | _ => { p with order1 := b }

end DbPgdir

/-- `MLX4_DB_PER_PAGE`, for pages of `pairs` pairs. -/
def dbPerPage (pairs : Nat) : Nat := 2 * pairs

/-- The search of `mlx4_alloc_db_from_pgdir`, with `n` orders left from `o` on. -/
def dbSearch (pairs : Nat) (p : DbPgdir) : Nat → Nat → Option (Nat × Nat)
  | 0, _ => none
  | n + 1, o =>
    let i := (p.bits o).findFirstBit (dbPerPage pairs >>> o)
    if i < dbPerPage pairs >>> o then some (o, i) else dbSearch pairs p n (o + 1)

def allocDbFromPgdir (pairs : Nat) (p : DbPgdir) (order : Nat) : Option (DbPgdir × Db) :=
  match dbSearch pairs p (2 - order) order with
  | none => none
  | some (o, i) =>
    let p := p.setBits o ((p.bits o).clearBit i)
    let i := i <<< o
    let p := if o > order then p.setBits order ((p.bits order).setBit (i ^^^ 1)) else p
    some (p, { pgdir := p.id, index := i, order := order, db := p.dbPage + i * 4
               dma := p.dbDma + i * 4 })

/-- `mlx4_alloc_db_pgdir`, when it gets memory. -/
def allocDbPgdir (pairs id dbPage dbDma : Nat) : DbPgdir where
  id := id
  order0 := Bitmap.zero
  order1 := Bitmap.zero.setRange 0 pairs
  dbPage := dbPage
  dbDma := dbDma

/-- The pages of a device; the next page gets the number `nextId`. -/
structure DbPages where
  pgdirs : List DbPgdir
  nextId : Nat

/-- The loop of `mlx4_db_alloc` over the pages. -/
def allocFromList (pairs order : Nat) : List DbPgdir → Option (List DbPgdir × Db)
  | [] => none
  | p :: ps =>
    match allocDbFromPgdir pairs p order with
    | some (p, db) => some (p :: ps, db)
    | none => (allocFromList pairs order ps).map fun r => (p :: r.1, r.2)

structure DbAllocResult where
  pages : DbPages
  db : Option Db
  warned : Bool

/-- `mlx4_db_alloc`, where a new page gets the addresses `page` or no memory. -/
def dbAlloc (pairs : Nat) (page : Option (Nat × Nat)) (s : DbPages) (order : Nat) : DbAllocResult :=
  match allocFromList pairs order s.pgdirs with
  | some (pgdirs, db) => { pages := { s with pgdirs := pgdirs }, db := some db, warned := false }
  | none =>
    match page with
    | none => { pages := s, db := none, warned := false }
    | some (dbPage, dbDma) =>
      let p := allocDbPgdir pairs s.nextId dbPage dbDma
      match allocDbFromPgdir pairs p order with
      | none =>
        { pages := { pgdirs := p :: s.pgdirs, nextId := s.nextId + 1 }, db := none, warned := true }
      | some (p, db) =>
        { pages := { pgdirs := p :: s.pgdirs, nextId := s.nextId + 1 }, db := some db,
          warned := false }

def freeDb (p : DbPgdir) (db : Db) : DbPgdir :=
  let r := if db.order = 0 ∧ p.order0 (db.index ^^^ 1) = true then
    ({ p with order0 := p.order0.clearBit (db.index ^^^ 1) }, db.order + 1) else (p, db.order)
  r.1.setBits r.2 ((r.1.bits r.2).setBit (db.index >>> r.2))

/-- `bitmap_full(order1, MLX4_DB_PER_PAGE / 2)`. -/
def DbPgdir.full (pairs : Nat) (p : DbPgdir) : Prop := ∀ i < dbPerPage pairs / 2, p.order1 i = true

instance (pairs : Nat) (p : DbPgdir) : Decidable (p.full pairs) :=
  inferInstanceAs (Decidable (∀ i < dbPerPage pairs / 2, p.order1 i = true))

/-- `mlx4_db_free`, with whether the page is freed; `none` is a page that is not there. -/
def dbFree (pairs : Nat) (s : DbPages) (db : Db) : Option (DbPages × Bool) :=
  match s.pgdirs.find? (·.id = db.pgdir) with
  | none => none
  | some p =>
    if (freeDb p db).full pairs then
      some ({ s with pgdirs := s.pgdirs.filter (·.id ≠ p.id) }, true)
    else
      some ({ s with pgdirs := s.pgdirs.map fun q => if q.id = p.id then freeDb p db else q },
        false)

/-! ## Runs -/

/-- The pages with the live doorbells. -/
structure DbRun where
  pages : DbPages
  live : List Db

inductive DbCall where
  | alloc (page : Option (Nat × Nat)) (order : Fin 2)
  | free (db : Db)

namespace DbRun

def start : DbRun where
  pages := { pgdirs := [], nextId := 0 }
  live := []

def step (pairs : Nat) (st : DbRun) : DbCall → DbRun
  | .alloc page order =>
    let r := dbAlloc pairs page st.pages order
    { pages := r.pages, live := r.db.toList ++ st.live }
  | .free db =>
    match dbFree pairs st.pages db with
    | none => st
    | some (pages, _) => { pages := pages, live := st.live.erase db }

/-- A free names a live doorbell. -/
def Valid (st : DbRun) : DbCall → Prop
  | .alloc _ _ => True
  | .free db => db ∈ st.live

instance (st : DbRun) : ∀ call, Decidable (st.Valid call)
  | .alloc _ _ => .isTrue trivial
  | .free db => inferInstanceAs (Decidable (db ∈ st.live))

end DbRun

/-- The doorbell has record `r`. -/
def Db.Has (db : Db) (r : Nat) : Prop := db.index ≤ r ∧ r < db.index + 2 ^ db.order

instance (db : Db) (r : Nat) : Decidable (db.Has r) := inferInstanceAs (Decidable (_ ∧ _))

/-- Free records, free pairs and live doorbells partition the records of a page. -/
structure Partitioned (pairs : Nat) (p : DbPgdir) (live : List Db) : Prop where
  /-- Each record is free by itself, in a free pair, or in one live doorbell. -/
  once : ∀ r < dbPerPage pairs,
    (if p.order0 r = true then 1 else 0) + (if p.order1 (r / 2) = true then 1 else 0) +
      live.countP (fun db => db.Has r) = 1
  order0_lt : ∀ r, p.order0 r = true → r < dbPerPage pairs
  order1_lt : ∀ i, p.order1 i = true → i < pairs
  inside : ∀ db ∈ live, db.order ≤ 1 ∧ 2 ^ db.order ∣ db.index ∧
    db.index + 2 ^ db.order ≤ dbPerPage pairs
  no_buddies : ∀ r, ¬ (p.order0 r = true ∧ p.order0 (r ^^^ 1) = true)

/-- What holds in every state. -/
structure PagesSound (pairs : Nat) (st : DbRun) : Prop where
  partitioned : ∀ p ∈ st.pages.pgdirs, Partitioned pairs p (st.live.filter (·.pgdir = p.id))
  distinct : (st.pages.pgdirs.map DbPgdir.id).Nodup
  /-- The page of a live doorbell has not been freed. -/
  there : ∀ db ∈ st.live, db.pgdir ∈ st.pages.pgdirs.map DbPgdir.id
  /-- A page without live doorbells has been freed. -/
  used : ∀ p ∈ st.pages.pgdirs, ∃ db ∈ st.live, db.pgdir = p.id
  no_warning : ∀ page (order : Fin 2), (dbAlloc pairs page st.pages order).warned = false
  /-- A free frees the page exactly if no other doorbell of it is live, and no other page. -/
  freed : ∀ db ∈ st.live, ∃ pages freed, dbFree pairs st.pages db = some (pages, freed) ∧
    (freed = true ↔ ∀ db' ∈ st.live.erase db, db'.pgdir ≠ db.pgdir) ∧
    pages.pgdirs.map DbPgdir.id =
      (st.pages.pgdirs.map DbPgdir.id).filter fun id => !(freed && id == db.pgdir)

/-! ## One page -/

section

variable {pairs : Nat} {p p' : DbPgdir} {live : List Db} {db : Db} {order : Nat}

theorem pairs_shift (pairs : Nat) : dbPerPage pairs >>> 1 = pairs := by
  unfold dbPerPage
  omega

/-- What an allocation takes: a single record, a pair, or half of a pair. -/
inductive Takes (pairs : Nat) (p p' : DbPgdir) (db : Db) : Prop where
  | single (hi : db.index < dbPerPage pairs) (horder : db.order = 0)
      (hfree : p.order0 db.index = true)
      (h0 : p'.order0 = p.order0.clearBit db.index) (h1 : p'.order1 = p.order1)
  | pair (i : Nat) (hi : i < pairs) (hindex : db.index = 2 * i) (horder : db.order = 1)
      (hfree : p.order1 i = true) (h0 : p'.order0 = p.order0) (h1 : p'.order1 = p.order1.clearBit i)
  | half (i : Nat) (hi : i < pairs) (hindex : db.index = 2 * i) (horder : db.order = 0)
      (hfree : p.order1 i = true) (h0 : p'.order0 = p.order0.setBit (2 * i + 1))
      (h1 : p'.order1 = p.order1.clearBit i)

theorem allocDb_takes (ho : order ≤ 1) (h : allocDbFromPgdir pairs p order = some (p', db)) :
    p'.id = p.id ∧ db.pgdir = p.id ∧ db.order = order ∧ Takes pairs p p' db := by
  have hpair {i : Nat} (hi : i = (p.bits 1).findFirstBit pairs) (hlt : i < pairs) : p.order1
    i = true := by
    subst hi
    exact Bitmap.findFirstBit_spec hlt
  have hshift (i : Nat) : i <<< 1 = 2 * i := by
    omega
  unfold allocDbFromPgdir at h
  rcases Nat.le_one_iff_eq_zero_or_eq_one.mp ho with rfl | rfl
  · simp only [dbSearch, Nat.sub_zero, Nat.shiftRight_zero, Nat.zero_add, pairs_shift] at h
    by_cases hlt : (p.bits 0).findFirstBit (dbPerPage pairs) < dbPerPage pairs
    · -- a free half
      rw [if_pos hlt] at h
      obtain ⟨rfl, rfl⟩ := h
      exact ⟨rfl, rfl, rfl, .single hlt rfl (Bitmap.findFirstBit_spec hlt) rfl rfl⟩
    · rw [if_neg hlt] at h
      by_cases hlt' : (p.bits 1).findFirstBit pairs < pairs
      · -- a pair is broken
        rw [if_pos hlt'] at h
        simp only [hshift, gt_iff_lt, Nat.zero_lt_one, if_true, Option.some.injEq, Prod.mk.injEq,
          Dyadic.two_mul_xor_one] at h
        obtain ⟨rfl, rfl⟩ := h
        exact ⟨rfl, rfl, rfl, .half _ hlt' rfl rfl (hpair rfl hlt') rfl rfl⟩
      · rw [if_neg hlt'] at h
        cases h
  · simp only [dbSearch, Nat.reduceSub, pairs_shift] at h
    by_cases hlt : (p.bits 1).findFirstBit pairs < pairs
    · rw [if_pos hlt] at h
      obtain ⟨rfl, rfl⟩ := h
      exact ⟨rfl, rfl, rfl, .pair _ hlt rfl rfl (hpair rfl hlt) rfl rfl⟩
    · rw [if_neg hlt] at h
      cases h

/-- A page with a free pair serves any order. -/
theorem allocDb_isSome (ho : order ≤ 1) {i : Nat} (hi : i < pairs) (hfree : p.order1 i = true) :
    (allocDbFromPgdir pairs p order).isSome = true := by
  have hlt : (p.bits 1).findFirstBit pairs < pairs := by
    by_contra hnone
    have := Bitmap.findFirstBit_none hnone i hi
    change p.order1 i = false at this
    rw [hfree] at this
    cases this
  unfold allocDbFromPgdir
  rcases Nat.le_one_iff_eq_zero_or_eq_one.mp ho with rfl | rfl
  · simp only [dbSearch, Nat.sub_zero, Nat.shiftRight_zero, Nat.zero_add, pairs_shift]
    by_cases hlt0 : (p.bits 0).findFirstBit (dbPerPage pairs) < dbPerPage pairs
    · rw [if_pos hlt0]
      rfl
    · rw [if_neg hlt0, if_pos hlt]
      rfl
  · simp only [dbSearch, Nat.reduceSub, pairs_shift]
    rw [if_pos hlt]
    rfl

/-- A live record is neither free by itself nor in a free pair. -/
theorem Partitioned.live_record (h : Partitioned pairs p live) (hdb : db ∈ live) {r : Nat}
    (hr : db.Has r) : p.order0 r = false ∧ p.order1 (r / 2) = false := by
  obtain ⟨-, -, hle⟩ := h.inside db hdb
  have hone := h.once r (Nat.lt_of_lt_of_le hr.2 hle)
  have hpos : 0 < live.countP (fun db => db.Has r) :=
    countP_pos_iff.mpr ⟨db, hdb, decide_eq_true hr⟩
  constructor
  · by_contra hset
    have hfree : p.order0 r = true := by simpa using hset
    rw [if_pos hfree] at hone
    omega
  · by_contra hset
    have hfree : p.order1 (r / 2) = true := by simpa using hset
    rw [if_pos hfree] at hone
    omega

theorem Partitioned.pair_record (h : Partitioned pairs p live) {r : Nat}
    (hfree : p.order1 (r / 2) = true) : p.order0 r = false := by
  have hlt := h.order1_lt _ hfree
  have hone := h.once r (by unfold dbPerPage; omega)
  by_contra hset
  rw [if_pos (by simpa using hset), if_pos hfree] at hone
  omega

theorem Partitioned.perm {live' : List Db} (h : Partitioned pairs p live) (hp : live.Perm live') :
    Partitioned pairs p live' where
  once r hr := by
    rw [← hp.countP_eq]
    exact h.once r hr
  order0_lt := h.order0_lt
  order1_lt := h.order1_lt
  inside db hdb := h.inside db (hp.mem_iff.mpr hdb)
  no_buddies := h.no_buddies

theorem Partitioned.takes (h : Partitioned pairs p live) (ht : Takes pairs p p' db) :
    Partitioned pairs p' (db :: live) := by
  cases ht with
  | single hi horder hfree h0 h1 =>
    have hhas (r : Nat) : db.Has r ↔ r = db.index := by
      unfold Db.Has
      rw [horder]
      omega
    refine ⟨fun r hr => ?_, fun r hr => ?_, fun i hi' => ?_, fun d hd => ?_, fun r hr => ?_⟩
    · have hone := h.once r hr
      rw [countP_cons, h0, h1]
      simp only [Bitmap.clearBit_eq_true, decide_eq_true_eq, hhas]
      by_cases he : r = db.index
      · subst he
        rw [if_pos hfree] at hone
        simp only [ne_eq, not_true_eq_false, false_and, if_false, if_true]
        omega
      · simp only [ne_eq, he, not_false_eq_true, true_and, if_false]
        exact hone
    · rw [h0, Bitmap.clearBit_eq_true] at hr
      exact h.order0_lt r hr.2
    · rw [h1] at hi'
      exact h.order1_lt i hi'
    · rcases mem_cons.mp hd with rfl | hd
      · rw [horder]
        exact ⟨Nat.zero_le 1, Nat.one_dvd _, hi⟩
      · exact h.inside d hd
    · rw [h0, Bitmap.clearBit_eq_true, Bitmap.clearBit_eq_true] at hr
      exact h.no_buddies r ⟨hr.1.2, hr.2.2⟩
  | pair i hi hindex horder hfree h0 h1 =>
    have hhas (r : Nat) : db.Has r ↔ r / 2 = i := by
      unfold Db.Has
      rw [horder, hindex]
      omega
    refine ⟨fun r hr => ?_, fun r hr => ?_, fun j hj => ?_, fun d hd => ?_, fun r hr => ?_⟩
    · have hone := h.once r hr
      rw [countP_cons, h0, h1]
      simp only [Bitmap.clearBit_eq_true, decide_eq_true_eq, hhas]
      by_cases he : r / 2 = i
      · rw [he, if_pos hfree] at hone
        simp only [he, ne_eq, not_true_eq_false, false_and, if_false, if_true]
        omega
      · simp only [ne_eq, he, not_false_eq_true, true_and, if_false]
        exact hone
    · rw [h0] at hr
      exact h.order0_lt r hr
    · rw [h1, Bitmap.clearBit_eq_true] at hj
      exact h.order1_lt j hj.2
    · rcases mem_cons.mp hd with rfl | hd
      · rw [horder, hindex]
        unfold dbPerPage
        omega
      · exact h.inside d hd
    · rw [h0] at hr
      exact h.no_buddies r hr
  | half i hi hindex horder hfree h0 h1 =>
    have hhas (r : Nat) : db.Has r ↔ r = 2 * i := by
      unfold Db.Has
      rw [horder, hindex]
      omega
    have hclear {r : Nat} (hr : r / 2 = i) : p.order0 r = false :=
      h.pair_record (by rw [hr]; exact hfree)
    refine ⟨fun r hr => ?_, fun r hr => ?_, fun j hj => ?_, fun d hd => ?_, fun r hr => ?_⟩
    · have hone := h.once r hr
      rw [countP_cons, h0, h1]
      simp only [Bitmap.clearBit_eq_true, Bitmap.setBit_eq_true, decide_eq_true_eq, hhas]
      by_cases he : r / 2 = i
      · rw [hclear he, he, if_pos hfree] at hone
        simp only [hclear he, he, ne_eq, not_true_eq_false, false_and, if_false]
        simp only [Bool.false_eq_true, or_false, if_false] at hone ⊢
        split_ifs <;> omega
      · have hne : r ≠ 2 * i + 1 := by omega
        have hne' : r ≠ 2 * i := by omega
        simp only [ne_eq, he, hne, hne', not_false_eq_true, true_and, false_or, if_false]
        exact hone
    · rw [h0, Bitmap.setBit_eq_true] at hr
      rcases hr with rfl | hr
      · unfold dbPerPage
        omega
      · exact h.order0_lt r hr
    · rw [h1, Bitmap.clearBit_eq_true] at hj
      exact h.order1_lt j hj.2
    · rcases mem_cons.mp hd with rfl | hd
      · rw [horder, hindex]
        unfold dbPerPage
        omega
      · exact h.inside d hd
    · -- the other half is the new doorbell
      rw [h0, Bitmap.setBit_eq_true, Bitmap.setBit_eq_true] at hr
      have hlow : p.order0 (2 * i) = false := hclear (by omega)
      rcases hr with ⟨rfl | hr, hr' | hr'⟩
      · exact Dyadic.xor_one_ne _ hr'
      · rw [← Dyadic.two_mul_xor_one, Dyadic.xor_one_xor_one, hlow] at hr'
        cases hr'
      · have : r = 2 * i := by
          rw [← Dyadic.xor_one_xor_one r, hr', ← Dyadic.two_mul_xor_one, Dyadic.xor_one_xor_one]
        rw [this, hlow] at hr
        cases hr
      · exact h.no_buddies r ⟨hr, hr'⟩

/-- What a free puts back: a record, or the pair that it completes. -/
theorem Partitioned.freeDb (h : Partitioned pairs p (db :: live)) :
    Partitioned pairs (freeDb p db) live ∧ (freeDb p db).id = p.id := by
  obtain ⟨horder, hdvd, hle⟩ := h.inside db mem_cons_self
  have hrecord {r : Nat} (hr : db.Has r) := h.live_record mem_cons_self hr
  have hpow := Nat.two_pow_pos db.order
  have hindex : db.Has db.index := ⟨Nat.le_refl _, Nat.lt_add_of_pos_right hpow⟩
  unfold dbPerPage at hle
  -- a free that sets the bit of a pair whose records are in no other place
  have hjoin {p' : DbPgdir} {i : Nat} (hi : i < pairs)
      (h0 : ∀ r, p'.order0 r = true ↔ r / 2 ≠ i ∧ p.order0 r = true)
      (h1 : ∀ j, p'.order1 j = true ↔ j = i ∨ p.order1 j = true)
      (hhalves : ∀ r, r / 2 = i →
        (if p.order0 r = true then 1 else 0) + (if db.Has r then 1 else 0) = 1)
      (hhas : ∀ r, db.Has r → r / 2 = i) (hold : p.order1 i = false) :
      Partitioned pairs p' live := by
    refine ⟨fun r hr => ?_, fun r hr => ?_, fun j hj => ?_, fun d hd => ?_, fun r hr => ?_⟩
    · have hone := h.once r hr
      rw [countP_cons] at hone
      simp only [h0, h1, decide_eq_true_eq] at hone ⊢
      by_cases he : r / 2 = i
      · have hhalf := hhalves r he
        simp only [he, ne_eq, not_true_eq_false, false_and, true_or, if_false, if_true]
        omega
      · have hnot : ¬ db.Has r := fun hh => he (hhas r hh)
        rw [if_neg hnot] at hone
        simp only [ne_eq, he, not_false_eq_true, true_and, false_or]
        exact hone
    · exact h.order0_lt r ((h0 r).mp hr).2
    · rcases (h1 j).mp hj with rfl | hj
      · exact hi
      · exact h.order1_lt j hj
    · exact h.inside d (mem_cons_of_mem _ hd)
    · exact h.no_buddies r ⟨((h0 r).mp hr.1).2, ((h0 _).mp hr.2).2⟩
  have hold := (hrecord hindex).2
  unfold Mlx4.freeDb
  rcases Nat.le_one_iff_eq_zero_or_eq_one.mp horder with hzero | hone
  · have hhas (r : Nat) : db.Has r ↔ r = db.index := by
      unfold Db.Has
      rw [hzero]
      omega
    have hpair (r : Nat) : r / 2 = db.index / 2 ↔ r = db.index ∨ r = db.index ^^^ 1 := by
      simpa using Dyadic.div_eq_or_xor (x := r) (o := 0) (s := db.index)
    by_cases hbuddy : p.order0 (db.index ^^^ 1) = true
    · -- both halves are free now
      rw [if_pos ⟨hzero, hbuddy⟩, hzero]
      refine ⟨hjoin (i := db.index / 2) (by omega) (fun r => ?_) (fun j => ?_) (fun r hr => ?_)
        (fun r hr => congrArg (· / 2) ((hhas r).mp hr)) hold, rfl⟩
      · change p.order0.clearBit (db.index ^^^ 1) r = true ↔ _
        rw [Bitmap.clearBit_eq_true, ne_eq, ne_eq, hpair, not_or]
        constructor
        · rintro ⟨hne, hset⟩
          refine ⟨⟨?_, hne⟩, hset⟩
          rintro rfl
          rw [(hrecord hindex).1] at hset
          cases hset
        · rintro ⟨⟨-, hne⟩, hset⟩
          exact ⟨hne, hset⟩
      · change p.order1.setBit (db.index >>> 1) j = true ↔ _
        rw [Nat.shiftRight_one, Bitmap.setBit_eq_true]
      · rcases (hpair r).mp hr with rfl | rfl
        · rw [(hrecord hindex).1, if_pos hindex]
          rfl
        · rw [if_pos hbuddy, if_neg fun hh => Dyadic.xor_one_ne _ ((hhas _).mp hh)]
    · -- only this half
      rw [if_neg fun hh => hbuddy hh.2, hzero]
      refine ⟨?_, rfl⟩
      dsimp only [DbPgdir.setBits, DbPgdir.bits]
      rw [Nat.shiftRight_zero]
      refine ⟨fun r hr => ?_, fun r hr => ?_, h.order1_lt,
        fun d hd => h.inside d (mem_cons_of_mem _ hd), fun r hr => ?_⟩
      · have hcount := h.once r hr
        rw [countP_cons] at hcount
        simp only [Bitmap.setBit_eq_true, decide_eq_true_eq, hhas] at hcount ⊢
        by_cases he : r = db.index
        · subst he
          simp only [true_or, if_true] at hcount ⊢
          omega
        · simp only [he, false_or, if_false] at hcount ⊢
          exact hcount
      · rcases Bitmap.setBit_eq_true.mp hr with rfl | hr
        · unfold dbPerPage
          omega
        · exact h.order0_lt r hr
      · obtain ⟨hr, hr'⟩ := hr
        rcases Bitmap.setBit_eq_true.mp hr with rfl | hset <;>
          rcases Bitmap.setBit_eq_true.mp hr' with heq | hset'
        · exact Dyadic.xor_one_ne _ heq
        · exact hbuddy hset'
        · rw [← heq, Dyadic.xor_one_xor_one] at hbuddy
          exact hbuddy hset
        · exact h.no_buddies r ⟨hset, hset'⟩
  · rw [hone] at hdvd hle
    have hhas (r : Nat) : db.Has r ↔ r / 2 = db.index / 2 := by
      unfold Db.Has
      rw [hone]
      omega
    rw [if_neg fun hh => absurd (hone.symm.trans hh.1) Nat.one_ne_zero, hone]
    refine ⟨hjoin (i := db.index / 2) (by omega) (fun r => ?_) (fun j => ?_) (fun r hr => ?_)
      (fun r hr => (hhas r).mp hr) hold, rfl⟩
    · change p.order0 r = true ↔ _
      constructor
      · intro hset
        refine ⟨fun he => ?_, hset⟩
        rw [(hrecord ((hhas r).mpr he)).1] at hset
        cases hset
      · exact And.right
    · change p.order1.setBit (db.index >>> 1) j = true ↔ _
      rw [Nat.shiftRight_one, Bitmap.setBit_eq_true]
    · have hh := (hhas r).mpr hr
      rw [(hrecord hh).1, if_pos hh]
      rfl

/-- All pairs are free exactly if no doorbell is live. -/
theorem Partitioned.full_iff (h : Partitioned pairs p live) : p.full pairs ↔ live = [] := by
  have hhalf : dbPerPage pairs / 2 = pairs := by
    unfold dbPerPage
    omega
  constructor
  · intro hfull
    rw [eq_nil_iff_forall_not_mem]
    intro db hdb
    -- its first record would be in a free pair
    obtain ⟨-, -, hle⟩ := h.inside db hdb
    have hpow := Nat.two_pow_pos db.order
    have hset := (h.live_record hdb ⟨Nat.le_refl _, Nat.lt_add_of_pos_right hpow⟩).2
    unfold dbPerPage at hle
    rw [hfull _ (by omega)] at hset
    cases hset
  · rintro rfl i hi
    -- otherwise both halves of the pair would be free by themselves
    by_contra hset
    have hnot : ¬ p.order1 i = true := hset
    have hhalf (r : Nat) (hr : r / 2 = i) : p.order0 r = true := by
      have hone := h.once r (by unfold dbPerPage; omega)
      rw [hr, if_neg hnot, countP_nil] at hone
      by_contra hclear
      rw [if_neg hclear] at hone
      omega
    refine h.no_buddies (2 * i) ⟨hhalf _ (by omega), ?_⟩
    rw [Dyadic.two_mul_xor_one]
    exact hhalf _ (by omega)

/-- A new page has all its pairs free. -/
theorem allocDbPgdir_partitioned (pairs id dbPage dbDma : Nat) :
    Partitioned pairs (allocDbPgdir pairs id dbPage dbDma) [] := by
  have h1 (i : Nat) : (allocDbPgdir pairs id dbPage dbDma).order1 i = true ↔ i < pairs := by
    unfold allocDbPgdir
    simp
  have h0 (r : Nat) : ¬ (allocDbPgdir pairs id dbPage dbDma).order0 r = true := Bool.false_ne_true
  refine ⟨fun r hr => ?_, fun r hr => absurd hr (h0 r), fun i hi => (h1 i).mp hi, nofun,
    fun r hr => h0 r hr.1⟩
  unfold dbPerPage at hr
  rw [if_neg (h0 r), if_pos ((h1 _).mpr (by omega)), countP_nil]

end

/-! ## The pages of a device -/

/-- The live doorbells of a page. -/
def dbsOf (live : List Db) (id : Nat) : List Db := live.filter (·.pgdir = id)

structure DbInv (pairs : Nat) (st : DbRun) : Prop where
  partitioned : ∀ p ∈ st.pages.pgdirs, Partitioned pairs p (dbsOf st.live p.id)
  distinct : (st.pages.pgdirs.map DbPgdir.id).Nodup
  fresh : ∀ p ∈ st.pages.pgdirs, p.id < st.pages.nextId
  there : ∀ db ∈ st.live, db.pgdir ∈ st.pages.pgdirs.map DbPgdir.id
  used : ∀ p ∈ st.pages.pgdirs, dbsOf st.live p.id ≠ []

section

variable {pairs : Nat} {st : DbRun} {live : List Db} {db : Db}

theorem dbsOf_cons (db : Db) (live : List Db) (id : Nat) :
    dbsOf (db :: live) id = if db.pgdir = id then db :: dbsOf live id else dbsOf live id := by
  unfold dbsOf
  rw [filter_cons]
  simp

/-- The search over the pages: all refuse, or the first one that does not is changed. -/
theorem allocFromList_cases (pairs order : Nat) (ps : List DbPgdir) :
    allocFromList pairs order ps = none ∨
      ∃ l p r p' db, ps = l ++ p :: r ∧ allocDbFromPgdir pairs p order = some (p', db) ∧
        allocFromList pairs order ps = some (l ++ p' :: r, db) := by
  induction ps with
  | nil => exact .inl rfl
  | cons p ps ih =>
    unfold allocFromList
    cases halloc : allocDbFromPgdir pairs p order with
    | some res => exact .inr ⟨[], p, ps, res.1, res.2, rfl, halloc, rfl⟩
    | none =>
      rcases ih with hnone | ⟨l, q, r, q', db, rfl, hq, hsome⟩
      · rw [hnone]
        exact .inl rfl
      · rw [hsome]
        exact .inr ⟨p :: l, q, r, q', db, rfl, hq, rfl⟩

/-- A page with one doorbell more, and the others as they were. -/
theorem DbInv.replace {l r : List DbPgdir} {p p' : DbPgdir} {nextId : Nat}
    (hpart : ∀ q ∈ l ++ r, Partitioned pairs q (dbsOf live q.id))
    (hused : ∀ q ∈ l ++ r, dbsOf live q.id ≠ []) (hdistinct : ((l ++ p :: r).map DbPgdir.id).Nodup)
    (hfresh : ∀ q ∈ l ++ p :: r, q.id < nextId)
    (hthere : ∀ d ∈ live, d.pgdir ∈ (l ++ p :: r).map DbPgdir.id) (hid : p'.id = p.id)
    (hdb : db.pgdir = p.id) (hnew : Partitioned pairs p' (db :: dbsOf live p.id)) :
    DbInv pairs { pages := { pgdirs := l ++ p' :: r, nextId := nextId }, live := db :: live } := by
  have hids : (l ++ p' :: r).map DbPgdir.id = (l ++ p :: r).map DbPgdir.id := by
    rw [map_append, map_append, map_cons, map_cons, hid]
  have hcases {q : DbPgdir} (hq : q ∈ l ++ p' :: r) : q = p' ∨ q ∈ l ++ r := by
    rcases mem_append.mp hq with hq | hq
    · exact .inr (mem_append_left _ hq)
    · rcases mem_cons.mp hq with rfl | hq
      · exact .inl rfl
      · exact .inr (mem_append_right _ hq)
  have hother {q : DbPgdir} (hq : q ∈ l ++ r) : dbsOf (db :: live) q.id = dbsOf live q.id := by
    rw [dbsOf_cons, if_neg]
    rw [hdb]
    intro heq
    rw [map_append, map_cons] at hdistinct
    obtain ⟨-, hr, hlr⟩ := nodup_append.mp hdistinct
    rcases mem_append.mp hq with hq | hq
    · exact hlr q.id (mem_map_of_mem hq) p.id mem_cons_self heq.symm
    · exact (nodup_cons.mp hr).1 (heq ▸ mem_map_of_mem hq)
  have hown : dbsOf (db :: live) p'.id = db :: dbsOf live p.id := by
    rw [dbsOf_cons, if_pos (hdb.trans hid.symm), hid]
  refine ⟨fun q hq => ?_, ?_, fun q hq => ?_, fun d hd => ?_, fun q hq => ?_⟩
  · rcases hcases hq with rfl | hq
    · rw [hown]
      exact hnew
    · rw [hother hq]
      exact hpart q hq
  · exact hids ▸ hdistinct
  · rcases hcases hq with rfl | hq
    · rw [hid]
      exact hfresh p (mem_append_right _ mem_cons_self)
    · refine hfresh q ?_
      rcases mem_append.mp hq with hq | hq
      · exact mem_append_left _ hq
      · exact mem_append_right _ (mem_cons_of_mem _ hq)
  · rw [hids]
    rcases mem_cons.mp hd with rfl | hd
    · rw [hdb]
      exact mem_map_of_mem (mem_append_right _ mem_cons_self)
    · exact hthere d hd
  · rcases hcases hq with rfl | hq
    · rw [hown]
      exact cons_ne_nil _ _
    · rw [hother hq]
      exact hused q hq

/-- An allocation keeps the invariant and never warns. -/
theorem DbInv.alloc (h : DbInv pairs st) (hpairs : 0 < pairs) (page : Option (Nat × Nat))
    {order : Nat} (ho : order ≤ 1) :
    (dbAlloc pairs page st.pages order).warned = false ∧
      DbInv pairs { pages := (dbAlloc pairs page st.pages order).pages
                    live := (dbAlloc pairs page st.pages order).db.toList ++ st.live } := by
  unfold dbAlloc
  rcases allocFromList_cases pairs order st.pages.pgdirs with hnone
    | ⟨l, p, r, p', db, hsplit, hp, hsome⟩
  · rw [hnone]
    cases page with
    | none => exact ⟨rfl, h⟩
    | some addrs =>
      obtain ⟨dbPage, dbDma⟩ := addrs
      dsimp only
      -- a new page has a free pair
      have hpart := allocDbPgdir_partitioned pairs st.pages.nextId dbPage dbDma
      have hfull := hpart.full_iff.mpr rfl
      have hsome := allocDb_isSome (p := allocDbPgdir pairs st.pages.nextId dbPage dbDma) ho hpairs
        (hfull 0 (by unfold dbPerPage; omega))
      have hid : (allocDbPgdir pairs st.pages.nextId dbPage dbDma).id = st.pages.nextId := rfl
      generalize allocDbPgdir pairs st.pages.nextId dbPage dbDma = p at hpart hsome hid ⊢
      cases hp : allocDbFromPgdir pairs p order with
      | none =>
        rw [hp] at hsome
        cases hsome
      | some res =>
        obtain ⟨p', db⟩ := res
        obtain ⟨hid', hdb, -, htakes⟩ := allocDb_takes ho hp
        have hnew : ∀ d ∈ st.live, d.pgdir ≠ p.id := by
          intro d hd heq
          obtain ⟨q, hq, hqd⟩ := mem_map.mp (h.there d hd)
          have := h.fresh q hq
          omega
        have hempty : dbsOf st.live p.id = [] :=
          filter_eq_nil_iff.mpr fun d hd => by simpa using hnew d hd
        refine ⟨rfl, DbInv.replace (l := []) (r := st.pages.pgdirs) (p := p) h.partitioned h.used
          ?_ (fun q hq => ?_) (fun d hd => ?_) hid' hdb ?_⟩
        · refine nodup_cons.mpr ⟨fun hmem => ?_, h.distinct⟩
          obtain ⟨q, hq, hqp⟩ := mem_map.mp hmem
          have := h.fresh q hq
          omega
        · rcases mem_cons.mp hq with rfl | hq
          · omega
          · exact (h.fresh q hq).trans (Nat.lt_succ_self _)
        · exact mem_cons_of_mem _ (h.there d hd)
        · change Partitioned pairs p' (db :: dbsOf st.live p.id)
          rw [hempty]
          exact hpart.takes htakes
  · rw [hsome]
    obtain ⟨hid, hdb, -, htakes⟩ := allocDb_takes ho hp
    have hpmem : p ∈ st.pages.pgdirs := by
      rw [hsplit]
      exact mem_append_right _ mem_cons_self
    have hsub {q : DbPgdir} (hq : q ∈ l ++ r) : q ∈ st.pages.pgdirs := by
      rw [hsplit]
      rcases mem_append.mp hq with hq | hq
      · exact mem_append_left _ hq
      · exact mem_append_right _ (mem_cons_of_mem _ hq)
    refine ⟨rfl, DbInv.replace (p := p) (fun q hq => h.partitioned q (hsub hq))
      (fun q hq => h.used q (hsub hq)) (hsplit ▸ h.distinct) (hsplit ▸ h.fresh)
        (hsplit ▸ h.there) hid hdb
      ((h.partitioned p hpmem).takes htakes)⟩

/-- Of the live doorbells, a free takes one from its page and none from the others. -/
theorem dbsOf_erase (hdb : db ∈ live) (id : Nat) :
    (db.pgdir = id → (dbsOf live id).Perm (db :: dbsOf (live.erase db) id)) ∧
      (db.pgdir ≠ id → (dbsOf live id).Perm (dbsOf (live.erase db) id)) := by
  have hperm : (dbsOf live id).Perm (dbsOf (db :: live.erase db) id) :=
    (perm_cons_erase hdb).filter _
  rw [dbsOf_cons] at hperm
  constructor
  · intro h
    rwa [if_pos h] at hperm
  · intro h
    rwa [if_neg h] at hperm

/-- A free keeps the invariant, and frees the page with its last doorbell. -/
theorem DbInv.free (h : DbInv pairs st) (hdb : db ∈ st.live) :
    ∃ pages freed, dbFree pairs st.pages db = some (pages, freed) ∧
      (freed = true ↔ ∀ db' ∈ st.live.erase db, db'.pgdir ≠ db.pgdir) ∧
      pages.pgdirs.map DbPgdir.id =
        (st.pages.pgdirs.map DbPgdir.id).filter (fun id => !(freed && id == db.pgdir)) ∧
      DbInv pairs { pages := pages, live := st.live.erase db } := by
  obtain ⟨q, hq, hqid⟩ := mem_map.mp (h.there db hdb)
  unfold dbFree
  cases hfind : st.pages.pgdirs.find? (·.id = db.pgdir) with
  | none =>
    rw [List.find?_eq_none] at hfind
    exact absurd (decide_eq_true hqid) (hfind q hq)
  | some p =>
    have hp : p ∈ st.pages.pgdirs := mem_of_find?_eq_some hfind
    have hpid : p.id = db.pgdir := by simpa using List.find?_some hfind
    obtain ⟨hpart, hid⟩ :=
      ((h.partitioned p hp).perm ((dbsOf_erase hdb p.id).1 hpid.symm)).freeDb
    have hother {r : DbPgdir} (hr : r.id ≠ p.id) := (dbsOf_erase hdb r.id).2 (hpid ▸ hr.symm)
    have hempty : (freeDb p db).full pairs ↔ ∀ db' ∈ st.live.erase db, db'.pgdir ≠ db.pgdir := by
      rw [hpart.full_iff, dbsOf, filter_eq_nil_iff, hpid]
      simp
    by_cases hfull : (freeDb p db).full pairs
    · dsimp only
      rw [if_pos hfull]
      have hlast := hempty.mp hfull
      refine ⟨_, _, rfl, iff_of_true rfl hlast, ?_, fun r hr => ?_, ?_, fun r hr => ?_,
        fun d hd => ?_,
        fun r hr => ?_⟩
      · rw [filter_map, hpid]
        congr 1
        exact filter_congr fun r _ => by simp [Bool.beq_eq_decide_eq]
      · obtain ⟨hr, hne⟩ := mem_filter.mp hr
        exact (h.partitioned r hr).perm (hother (of_decide_eq_true hne))
      · exact (filter_sublist.map _).nodup h.distinct
      · exact h.fresh r (mem_filter.mp hr).1
      · obtain ⟨r, hr, hrid⟩ := mem_map.mp (h.there d (mem_of_mem_erase hd))
        refine mem_map.mpr ⟨r, mem_filter.mpr ⟨hr, decide_eq_true ?_⟩, hrid⟩
        rw [hrid, hpid]
        exact hlast d hd
      · obtain ⟨hr, hne⟩ := mem_filter.mp hr
        intro hnil
        exact h.used r hr (perm_nil.mp (hnil ▸ hother (of_decide_eq_true hne)))
    · dsimp only
      rw [if_neg hfull]
      have hids :
        (st.pages.pgdirs.map fun r => if r.id = p.id then freeDb p db else r).map DbPgdir.id =
          st.pages.pgdirs.map DbPgdir.id := by
        rw [map_map]
        refine map_congr_left fun r _ => ?_
        dsimp only [Function.comp_apply]
        split
        · next he => rw [hid, he]
        · rfl
      refine ⟨_, _, rfl, iff_of_false Bool.false_ne_true (fun hall => hfull (hempty.mpr hall)), ?_,
        fun r hr => ?_, ?_, fun r hr => ?_, fun d hd => ?_, fun r hr => ?_⟩
      · rw [hids]
        exact (filter_eq_self.mpr fun _ _ => rfl).symm
      · obtain ⟨r', hr', rfl⟩ := mem_map.mp hr
        split
        · rw [hid]
          exact hpart
        · next hne => exact (h.partitioned r' hr').perm (hother hne)
      · exact hids ▸ h.distinct
      · obtain ⟨r', hr', rfl⟩ := mem_map.mp hr
        split
        · rw [hid]
          exact h.fresh p hp
        · exact h.fresh r' hr'
      · exact hids ▸ h.there d (mem_of_mem_erase hd)
      · obtain ⟨r', hr', rfl⟩ := mem_map.mp hr
        split
        · rw [hid]
          intro hnil
          exact hfull (hpart.full_iff.mpr hnil)
        · next hne =>
          intro hnil
          exact h.used r' hr' (perm_nil.mp (hnil ▸ hother hne))

theorem DbInv.sound (h : DbInv pairs st) (hpairs : 0 < pairs) : PagesSound pairs st where
  partitioned := h.partitioned
  distinct := h.distinct
  there := h.there
  used p hp := by
    obtain ⟨db, hdb⟩ := exists_mem_of_ne_nil _ (h.used p hp)
    obtain ⟨hdb, hid⟩ := mem_filter.mp hdb
    exact ⟨db, hdb, of_decide_eq_true hid⟩
  no_warning page order := (h.alloc hpairs page (Nat.le_of_lt_succ order.isLt)).1
  freed db hdb := by
    obtain ⟨pages, freed, hfree, hlast, hids, -⟩ := h.free hdb
    exact ⟨pages, freed, hfree, hlast, hids⟩

theorem DbInv.step (h : DbInv pairs st) (hpairs : 0 < pairs) {call : DbCall} (hv : st.Valid call) :
    DbInv pairs (DbRun.step pairs st call) := by
  cases call with
  | alloc page order => exact (h.alloc hpairs page (Nat.le_of_lt_succ order.isLt)).2
  | free db =>
    obtain ⟨pages, freed, hfree, -, -, hinv⟩ := h.free hv
    unfold DbRun.step
    dsimp only
    rw [hfree]
    exact hinv

end

/-- In every run the free records, the free pairs and the live doorbells partition each page, and
`mlx4_db_free` frees a page exactly with its last doorbell. -/
theorem db_pages_every_run {pairs : Nat} (hpairs : 0 < pairs) (calls : List DbCall)
    (hv : Run.Steps (DbRun.step pairs) DbRun.Valid .start calls) :
    ∀ st ∈ Run.states (DbRun.step pairs) .start calls, PagesSound pairs st := by
  have hstart : DbInv pairs .start := ⟨nofun, nodup_nil, nofun, nofun, nofun⟩
  intro st hst
  exact (Run.Steps.invariant (fun _ _ h hv => h.step hpairs hv) hstart hv st hst).sound hpairs

/-- Two halves of a pair are given back: they merge, and the page goes. -/
theorem db_pages_two_halves : PagesSound 2 (Run.final (DbRun.step 2) .start
    [.alloc (some (0, 0)) 0, .alloc none 0, .free ⟨0, 0, 0, 0, 0⟩, .free ⟨0, 1, 0, 4, 4⟩]) :=
  db_pages_every_run Nat.two_pos _ (by decide) _ (Run.final_mem_states _ _)

end Mlx4
