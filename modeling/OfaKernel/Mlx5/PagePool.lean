-- SUMMARY: The invariant of the mlx5 firmware page pool.
import OfaKernel.Lib.Run
import OfaKernel.Mlx5.PageAlloc

/-!
# The page pool in every run

The tree, the bitmasks and the free list describe one thing: which 4K chunks are outstanding.
Each operation has one lemma that says what it does to them.
-/

open Function List

namespace Mlx5

namespace PageGeometry

variable (g : PageGeometry)

theorem pageSize_eq : g.pageSize = g.num4kInPage * 4096 := by
  obtain ⟨k, hk⟩ := Nat.exists_eq_add_of_le g.shift_ge
  have hpow : g.pageSize = 2 ^ k * 4096 := by
    rw [pageSize, hk, Nat.pow_add, Nat.mul_comm]
  rw [num4kInPage, adapterPageSize, hpow, Nat.mul_div_cancel _ (by omega)]

theorem num4kInPage_pos : 0 < g.num4kInPage := by
  have hpos : 0 < g.pageSize := Nat.two_pow_pos _
  rw [pageSize_eq] at hpos
  exact Nat.pos_of_mul_pos_right hpos

theorem num4kInPage_le : g.num4kInPage ≤ 64 := by
  have hle : g.pageSize ≤ 2 ^ 18 := Nat.pow_le_pow_right (by omega) g.shift_le
  rw [pageSize_eq] at hle
  omega

theorem indexOf_lt (addr : Nat) : g.indexOf addr < g.num4kInPage := by
  have hpos := g.num4kInPage_pos
  have hlt : addr % g.pageSize < g.num4kInPage * 4096 := by
    rw [← pageSize_eq]
    exact Nat.mod_lt _ (Nat.two_pow_pos _)
  rw [indexOf, adapterPageSize]
  omega

theorem pageOf_add_indexOf (addr : Nat) :
    g.pageOf addr + g.indexOf addr * adapterPageSize = chunkOf addr := by
  have hsplit := Nat.div_add_mod addr g.pageSize
  rw [pageOf, indexOf, chunkOf, adapterPageSize]
  rw [pageSize_eq] at *
  generalize addr / (g.num4kInPage * 4096) = q at *
  generalize addr % (g.num4kInPage * 4096) = r at *
  have h₁ : g.num4kInPage * 4096 * q = g.num4kInPage * q * 4096 := by ac_rfl
  have h₂ : q * (g.num4kInPage * 4096) = g.num4kInPage * q * 4096 := by ac_rfl
  omega

theorem pageSize_dvd_pageOf (addr : Nat) : g.pageSize ∣ g.pageOf addr := Nat.dvd_mul_left _ _

theorem chunk_coords {a n : Nat} (ha : g.pageSize ∣ a) (hn : n < g.num4kInPage) :
    g.pageOf (a + n * adapterPageSize) = a ∧ g.indexOf (a + n * adapterPageSize) = n := by
  obtain ⟨k, rfl⟩ := ha
  have hpos : 0 < g.pageSize := Nat.two_pow_pos _
  have hlt : n * 4096 < g.pageSize := by
    rw [pageSize_eq]
    omega
  rw [pageOf, indexOf, adapterPageSize, Nat.mul_add_div hpos, Nat.mul_add_mod,
    Nat.div_eq_of_lt hlt, Nat.mod_eq_of_lt hlt, Nat.add_zero, Nat.mul_comm,
    Nat.mul_div_cancel _ (by omega)]
  exact ⟨rfl, rfl⟩

theorem chunkOf_coords (addr : Nat) :
    g.pageOf (chunkOf addr) = g.pageOf addr ∧ g.indexOf (chunkOf addr) = g.indexOf addr := by
  rw [← pageOf_add_indexOf g]
  exact g.chunk_coords (g.pageSize_dvd_pageOf addr) (g.indexOf_lt addr)

end PageGeometry

theorem chunkOf_dvd (addr : Nat) : adapterPageSize ∣ chunkOf addr := Nat.dvd_mul_left _ _

theorem chunkOf_of_dvd {addr : Nat} (h : adapterPageSize ∣ addr) : chunkOf addr = addr :=
  Nat.div_mul_cancel h

/-! ## Outstanding chunks -/

section

variable (g : PageGeometry)

/-- The structures of the pool agree with each other. -/
structure PagePool.Inv (s : PagePool) : Prop where
  ordered : s.pageRoot.Ordered
  aligned : ∀ a ∈ s.pageRoot.toList, g.pageSize ∣ a
  high : ∀ a ∈ s.pageRoot.toList, ∀ n, g.num4kInPage ≤ n → (s.page a).bitmask n = false
  count : ∀ a ∈ s.pageRoot.toList, (s.page a).freeCount = (s.page a).bitmask.weight 64
  nodup : s.freeList.Nodup
  free : ∀ a, a ∈ s.freeList ↔ a ∈ s.pageRoot.toList ∧ 0 < (s.page a).freeCount

/-- The chunk at this address belongs to a tracked page and its bit is clear: it
is with firmware, or on its way there. -/
def PagePool.Outstanding (s : PagePool) (addr : Nat) : Prop :=
  adapterPageSize ∣ addr ∧ g.pageOf addr ∈ s.pageRoot.toList ∧
    (s.page (g.pageOf addr)).bitmask (g.indexOf addr) = false

/-- Only the structures of the pool differ. -/
structure PagePool.SameCounters (s t : PagePool) : Prop where
  fwPages : t.fwPages = s.fwPages
  vfsPages : t.vfsPages = s.vfsPages
  peerPfPages : t.peerPfPages = s.peerPfPages
  internalError : t.internalError = s.internalError

theorem PagePool.SameCounters.refl (s : PagePool) : s.SameCounters s := ⟨rfl, rfl, rfl, rfl⟩

theorem PagePool.SameCounters.trans {s t u : PagePool} (h₁ : s.SameCounters t)
    (h₂ : t.SameCounters u) : s.SameCounters u :=
  ⟨h₂.1.trans h₁.1, h₂.2.trans h₁.2, h₂.3.trans h₁.3, h₂.4.trans h₁.4⟩

variable {g} {s : PagePool}

variable {a n : Nat}

theorem PagePool.Inv.coords (hi : s.Inv g) (ha : a ∈ s.pageRoot.toList) (hn : n < g.num4kInPage) :
    g.pageOf (a + n * adapterPageSize) = a ∧ g.indexOf (a + n * adapterPageSize) = n :=
  g.chunk_coords (hi.aligned a ha) hn

theorem PagePool.Inv.dvd (hi : s.Inv g) (ha : a ∈ s.pageRoot.toList) :
    adapterPageSize ∣ a + n * adapterPageSize := by
  refine Nat.dvd_add (dvd_trans ?_ (hi.aligned a ha)) (Nat.dvd_mul_left _ _)
  rw [g.pageSize_eq]
  exact Nat.dvd_mul_left _ _

/-- The fields of one page replaced, with a change of one bit. -/
theorem PagePool.Inv.outstanding_update (hi : s.Inv g) {p : FwPage} {fl : List Nat}
    (ha : a ∈ s.pageRoot.toList) (hn : n < g.num4kInPage)
    (hp : ∀ i, i ≠ n → p.bitmask i = (s.page a).bitmask i) (x : Nat) :
    PagePool.Outstanding g { s with page := update s.page a p, freeList := fl } x ↔
      if x = a + n * adapterPageSize then p.bitmask n = false else s.Outstanding g x := by
  obtain ⟨hpage, hindex⟩ := hi.coords ha hn
  split
  next hx =>
    subst hx
    simp only [Outstanding, hpage, hindex, update_self, ha, true_and]
    simp [hi.dvd ha]
  next hx =>
    simp only [Outstanding]
    refine and_congr_right fun hdvd => and_congr_right fun hmem => ?_
    by_cases hxa : g.pageOf x = a
    · have hne : g.indexOf x ≠ n := by
        intro hxn
        apply hx
        rw [← hxa, ← hxn, g.pageOf_add_indexOf, chunkOf_of_dvd hdvd]
      rw [hxa, update_self, hp _ hne]
    · rw [update_of_ne hxa]

/-- What is left to show of the invariant when the fields of one page and the
free list are replaced. -/
theorem PagePool.Inv.update (hi : s.Inv g) {p : FwPage} {fl : List Nat}
    (hhigh : ∀ n, g.num4kInPage ≤ n → p.bitmask n = false)
    (hcount : p.freeCount = p.bitmask.weight 64) (hnodup : fl.Nodup)
    (hself : a ∈ fl ↔ a ∈ s.pageRoot.toList ∧ 0 < p.freeCount)
    (hother : ∀ b, b ≠ a → (b ∈ fl ↔ b ∈ s.freeList)) :
    PagePool.Inv g { s with page := update s.page a p, freeList := fl } where
  ordered := hi.ordered
  aligned := hi.aligned
  high b hb n hn := by
    dsimp only at hb ⊢
    by_cases hba : b = a
    · subst hba
      rw [update_self]
      exact hhigh n hn
    · rw [update_of_ne hba]
      exact hi.high b hb n hn
  count b hb := by
    dsimp only at hb ⊢
    by_cases hba : b = a
    · subst hba
      rw [update_self, hcount]
    · rw [update_of_ne hba]
      exact hi.count b hb
  nodup := hnodup
  free b := by
    dsimp only
    by_cases hba : b = a
    · subst hba
      rw [update_self]
      exact hself
    · rw [update_of_ne hba]
      exact (hother b hba).trans (hi.free b)

/-- A page on the free list has a free chunk, which `find_first_bit` finds. -/
theorem PagePool.Inv.findFirstBit (hi : s.Inv g) {fp : Nat} (hfp : fp ∈ s.freeList) :
    (s.page fp).bitmask.findFirstBit 64 < g.num4kInPage ∧
      (s.page fp).bitmask ((s.page fp).bitmask.findFirstBit 64) = true := by
  obtain ⟨hmem, hpos⟩ := (hi.free fp).mp hfp
  rw [hi.count fp hmem] at hpos
  have hn : (s.page fp).bitmask.findFirstBit 64 < 64 := by
    by_contra hnone
    have hz : (s.page fp).bitmask.weight 64 = Bitmap.zero.weight 64 :=
      Bitmap.weight_congr (Bitmap.findFirstBit_none hnone)
    rw [Bitmap.weight_zero] at hz
    omega
  have hset := Bitmap.findFirstBit_spec hn
  refine ⟨?_, hset⟩
  by_contra hge
  rw [hi.high fp hmem _ (Nat.not_lt.mp hge)] at hset
  cases hset

variable {e : Int}

theorem alloc4k_error (hi : s.Inv g) (h : alloc4k g s = .error e) : e = errNOMEM := by
  unfold alloc4k at h
  split at h
  next => cases h; rfl
  next fp rest hl =>
    have hfirst := (hi.findFirstBit (hl ▸ mem_cons_self : fp ∈ s.freeList)).1
    simp only [Nat.not_le.mpr hfirst, ↓reduceIte] at h
    cases h

variable {t : PagePool} {addr : Nat}

theorem alloc4k_ok (hi : s.Inv g) (h : alloc4k g s = .ok (t, addr)) :
    t.Inv g ∧ adapterPageSize ∣ addr ∧ ¬ s.Outstanding g addr ∧
      (∀ x, t.Outstanding g x ↔ x = addr ∨ s.Outstanding g x) ∧ s.SameCounters t := by
  unfold alloc4k at h
  split at h
  next => cases h
  next fp rest hl =>
    have hfp : fp ∈ s.freeList := hl ▸ mem_cons_self
    obtain ⟨hmem, hpos⟩ := (hi.free fp).mp hfp
    obtain ⟨hnum, hset⟩ := hi.findFirstBit hfp
    simp only [Nat.not_le.mpr hnum, ↓reduceIte, Except.ok.injEq, Prod.mk.injEq] at h
    obtain ⟨rfl, rfl⟩ := h
    generalize (s.page fp).bitmask.findFirstBit 64 = n at hnum hset
    have hweight := Bitmap.weight_clearBit (hnum.trans_le g.num4kInPage_le) hset
    have hcount := hi.count fp hmem
    obtain ⟨hpage, hindex⟩ := hi.coords hmem hnum
    have hnodup : (fp :: rest).Nodup := hl ▸ hi.nodup
    refine ⟨hi.update ?_ ?_ ?_ ?_ ?_, ?_, ?_, ?_, ⟨rfl, rfl, rfl, rfl⟩⟩
    · intro i hge
      simp only [FwPage.take]
      rw [Bitmap.clearBit_of_ne (by omega)]
      exact hi.high fp hmem i hge
    · simp only [FwPage.take]
      omega
    · split
      · exact (nodup_cons.mp hnodup).2
      · exact hi.nodup
    · split
      next h0 => simp [h0, (nodup_cons.mp hnodup).1]
      next h0 => simp [hfp, hmem, Nat.pos_of_ne_zero h0]
    · intro b hb
      split
      next => simp [hl, hb]
      next => rfl
    · exact hi.dvd hmem
    · rintro ⟨-, -, hbit⟩
      rw [hpage, hindex, hset] at hbit
      cases hbit
    · intro x
      rw [hi.outstanding_update hmem hnum fun i hne => Bitmap.clearBit_of_ne hne]
      by_cases hx : x = fp + n * adapterPageSize <;> simp [hx, FwPage.take]

theorem PagePool.outstanding_chunkOf (addr : Nat) :
    s.Outstanding g (chunkOf addr) ↔
      g.pageOf addr ∈ s.pageRoot.toList ∧
        (s.page (g.pageOf addr)).bitmask (g.indexOf addr) = false := by
  obtain ⟨hpage, hindex⟩ := g.chunkOf_coords addr
  rw [Outstanding, hpage, hindex]
  exact and_iff_right (chunkOf_dvd addr)

theorem free4k_error (hi : s.Inv g) (h : ¬ s.Outstanding g (chunkOf addr)) :
    ∃ e, free4k g s addr = .error e := by
  rw [PagePool.outstanding_chunkOf] at h
  unfold free4k
  by_cases hmem : g.pageOf addr ∈ s.pageRoot.toList
  · have hbit : (s.page (g.pageOf addr)).bitmask (g.indexOf addr) = true := by
      simpa [hmem] using h
    rw [findFwPage, SearchTree.find?_of_mem hi.ordered hmem]
    refine ⟨errINVAL, ?_⟩
    simp [hbit]
  · rw [findFwPage, SearchTree.find?_of_not_mem hi.ordered hmem]
    exact ⟨errNOMEM, rfl⟩

theorem free4k_ok (hi : s.Inv g) (h : s.Outstanding g (chunkOf addr)) :
    ∃ t, free4k g s addr = .ok t ∧ t.Inv g ∧
      (∀ x, t.Outstanding g x ↔ x ≠ chunkOf addr ∧ s.Outstanding g x) ∧ s.SameCounters t := by
  obtain ⟨hmem, hbit⟩ := PagePool.outstanding_chunkOf addr |>.mp h
  have hnum := g.indexOf_lt addr
  have hchunk := g.pageOf_add_indexOf addr
  unfold free4k
  rw [findFwPage, SearchTree.find?_of_mem hi.ordered hmem]
  simp only [hbit, Bool.false_eq_true, ↓reduceIte]
  generalize g.pageOf addr = a at *
  generalize g.indexOf addr = n at *
  have hweight := Bitmap.weight_setBit (hnum.trans_le g.num4kInPage_le) hbit
  have hcount := hi.count a hmem
  refine ⟨_, rfl, hi.update ?_ ?_ ?_ ?_ ?_, ?_, ⟨rfl, rfl, rfl, rfl⟩⟩
  · intro i hge
    simp only [FwPage.put]
    rw [Bitmap.setBit_of_ne (by omega)]
    exact hi.high a hmem i hge
  · simp only [FwPage.put]
    omega
  · split
    next h1 =>
      refine nodup_cons.mpr ⟨?_, hi.nodup⟩
      rw [hi.free a]
      simp only [FwPage.put] at h1
      omega
    next => exact hi.nodup
  · split
    next h1 => simp [hmem, h1]
    next h1 =>
      rw [hi.free a]
      simp only [FwPage.put] at h1 ⊢
      exact and_congr_right fun _ => by omega
  · intro b hb
    split
    next => simp [hb]
    next => rfl
  · intro x
    rw [hi.outstanding_update hmem hnum fun i hne => Bitmap.setBit_of_ne hne, hchunk]
    by_cases hx : x = chunkOf addr <;> simp [hx, FwPage.put]

theorem mapPage_dvd {answers : List (Option Nat)} (h : mapPage g answers = some addr) :
    g.pageSize ∣ addr := by
  induction answers with
  | nil => cases h
  | cons answer again ih =>
    cases answer with
    | none => cases h
    | some frame =>
      simp only [mapPage] at h
      split at h
      next => exact ih h
      next =>
        cases h
        exact Nat.dvd_mul_left _ _

theorem fresh_bitmask (g : PageGeometry) (n : Nat) :
    Bitmap.zero.setRange 0 g.num4kInPage n = decide (n < g.num4kInPage) := by
  rw [Bool.eq_iff_iff, Bitmap.setRange_eq_true]
  simp

theorem fresh_weight (g : PageGeometry) :
    (Bitmap.zero.setRange 0 g.num4kInPage).weight 64 = g.num4kInPage := by
  have hle : 0 + g.num4kInPage ≤ 64 := by
    rw [Nat.zero_add]
    exact g.num4kInPage_le
  have hset := Bitmap.weight_setRange (b := Bitmap.zero) hle fun _ _ _ => rfl
  rw [hset, Bitmap.weight_zero, Nat.zero_add]

variable {rb : SearchTree.Rebalance Nat}

variable {funcId : Nat}

/-- A new page brings free chunks only. -/
theorem insertPage_ok (hi : s.Inv g) {kzalloc : Bool} (hdvd : g.pageSize ∣ addr)
    (h : insertPage rb g s kzalloc addr funcId = .ok t) :
    t.Inv g ∧ (∀ x, t.Outstanding g x ↔ s.Outstanding g x) ∧ s.SameCounters t := by
  unfold insertPage at h
  split at h
  next => cases h
  next tree htree =>
    split at h
    next =>
      cases h
      have hmem : ∀ a, a ∈ (rb.insertColor tree).toList ↔ a = addr ∨ a ∈ s.pageRoot.toList := by
        intro a
        rw [rb.insertColor_toList]
        exact SearchTree.mem_insertLeaf htree
      have hnew := SearchTree.insertLeaf_not_mem hi.ordered htree
      have hpage : ∀ a ∈ s.pageRoot.toList, a ≠ addr := fun a ha heq => hnew (heq ▸ ha)
      refine ⟨⟨?_, ?_, ?_, ?_, ?_, ?_⟩, ?_, ⟨rfl, rfl, rfl, rfl⟩⟩
      · exact rb.insertColor_ordered (SearchTree.insertLeaf_ordered hi.ordered htree)
      · intro a ha
        rcases (hmem a).mp ha with rfl | ha
        · exact hdvd
        · exact hi.aligned a ha
      · intro a ha n hn
        dsimp only
        rcases (hmem a).mp ha with rfl | ha
        · rw [update_self]
          exact (fresh_bitmask g n).trans (decide_eq_false (Nat.not_lt.mpr hn))
        · rw [update_of_ne (hpage a ha)]
          exact hi.high a ha n hn
      · intro a ha
        dsimp only
        rcases (hmem a).mp ha with rfl | ha
        · rw [update_self, fresh_weight]
        · rw [update_of_ne (hpage a ha)]
          exact hi.count a ha
      · refine nodup_cons.mpr ⟨fun hfree => hnew ?_, hi.nodup⟩
        exact ((hi.free addr).mp hfree).1
      · intro a
        rw [mem_cons, hmem]
        dsimp only
        by_cases ha : a = addr
        · subst ha
          simp [g.num4kInPage_pos]
        · rw [update_of_ne ha, hi.free a]
          simp [ha]
      · intro x
        simp only [PagePool.Outstanding, hmem]
        refine and_congr_right fun _ => ?_
        by_cases hx : g.pageOf x = addr
        · have hbit : Bitmap.zero.setRange 0 g.num4kInPage (g.indexOf x) = true :=
            (fresh_bitmask g _).trans (decide_eq_true (g.indexOf_lt x))
          rw [hx, update_self]
          simp [hbit, hnew]
        · rw [update_of_ne hx]
          simp [hx]
    next => cases h

theorem allocSystemPage_ok (hi : s.Inv g) {env : SysPageEnv}
    (h : allocSystemPage rb g s env funcId = .ok t) :
    t.Inv g ∧ (∀ x, t.Outstanding g x ↔ s.Outstanding g x) ∧ s.SameCounters t := by
  unfold allocSystemPage at h
  split at h
  next =>
    split at h
    next => cases h
    next addr haddr => exact insertPage_ok hi (mapPage_dvd haddr) h
  next => cases h

theorem allocSystemPage_error {env : SysPageEnv}
    (h : allocSystemPage rb g s env funcId = .error e) : e ≠ 0 := by
  unfold allocSystemPage insertPage at h
  split at h
  next =>
    split at h
    next => cases h; decide
    next =>
      split at h
      next => cases h; decide
      next =>
        split at h
        next => cases h
        next => cases h; decide
  next => cases h; decide

/-! ## Giving pages -/

/-- What one round of the loop does: a chunk is taken, possibly from a new page; on
failure nothing more is outstanding. -/
structure Takes (g : PageGeometry) (s t : PagePool) (r : Except Int Nat) : Prop where
  inv : t.Inv g
  same : s.SameCounters t
  ok : ∀ addr, r = .ok addr → adapterPageSize ∣ addr ∧ ¬ s.Outstanding g addr ∧
    ∀ x, t.Outstanding g x ↔ x = addr ∨ s.Outstanding g x
  error : ∀ e, r = .error e → e ≠ 0 ∧ ∀ x, t.Outstanding g x ↔ s.Outstanding g x

theorem Takes.fail (hi : s.Inv g) (he : e ≠ 0) : Takes g s s (.error e) where
  inv := hi
  same := .refl s
  ok a ha := by cases ha
  error e' he' := by
    cases he'
    exact ⟨he, fun _ => Iff.rfl⟩

theorem Takes.of_alloc4k (hi : s.Inv g) (h : alloc4k g s = .ok (t, addr)) :
    Takes g s t (.ok addr) := by
  obtain ⟨hinv, hdvd, hnew, hout, hsame⟩ := alloc4k_ok hi h
  refine ⟨hinv, hsame, ?_, fun e he => by cases he⟩
  intro a ha
  cases ha
  exact ⟨hdvd, hnew, hout⟩

theorem Takes.of_systemPage {s' t : PagePool} {r : Except Int Nat} (h : Takes g s' t r)
    (hout : ∀ x, s'.Outstanding g x ↔ s.Outstanding g x) (hsame : s.SameCounters s') :
    Takes g s t r where
  inv := h.inv
  same := hsame.trans h.same
  ok a ha := by
    obtain ⟨hdvd, hnew, hout'⟩ := h.ok a ha
    exact ⟨hdvd, fun hs => hnew ((hout a).mpr hs), fun x => (hout' x).trans (by rw [hout x])⟩
  error e he := ⟨(h.error e he).1, fun x => ((h.error e he).2 x).trans (hout x)⟩

theorem alloc4kRetry_takes (rb : SearchTree.Rebalance Nat) (funcId : Nat)
    (envs : List SysPageEnv) (hi : s.Inv g) :
    Takes g s (alloc4kRetry rb g funcId envs s).1 (alloc4kRetry rb g funcId envs s).2 := by
  induction envs generalizing s with
  | nil =>
    unfold alloc4kRetry
    split
    next t addr halloc => exact .of_alloc4k hi halloc
    next e halloc =>
      rw [if_pos (alloc4k_error hi halloc)]
      exact .fail hi (by decide)
  | cons env envs ih =>
    unfold alloc4kRetry
    split
    next t addr halloc => exact .of_alloc4k hi halloc
    next e halloc =>
      rw [if_pos (alloc4k_error hi halloc)]
      dsimp only
      split
      next e hsys => exact .fail hi (allocSystemPage_error hsys)
      next s' hsys =>
        obtain ⟨hinv, hout, hsame⟩ := allocSystemPage_ok hi hsys
        exact (ih hinv).of_systemPage hout hsame

/-- The chunks `pas` were taken from `s`, which led to `t`. -/
structure Taken (g : PageGeometry) (s t : PagePool) (pas : List Nat) : Prop where
  inv : t.Inv g
  same : s.SameCounters t
  nodup : pas.Nodup
  dvd : ∀ a ∈ pas, adapterPageSize ∣ a
  new : ∀ a ∈ pas, ¬ s.Outstanding g a
  out : ∀ x, t.Outstanding g x ↔ x ∈ pas ∨ s.Outstanding g x

theorem Taken.nil (hi : s.Inv g) : Taken g s s [] :=
  ⟨hi, .refl s, nodup_nil, by simp, by simp, by simp⟩

variable {pas : List Nat}

theorem Taken.cons {t u : PagePool} (h : Taken g s t pas) (ht : Takes g t u (.ok addr)) :
    Taken g s u (addr :: pas) := by
  obtain ⟨hdvd, hnew, hout⟩ := ht.ok addr rfl
  rw [h.out] at hnew
  refine ⟨ht.inv, h.same.trans ht.same, ?_, ?_, ?_, ?_⟩
  · exact nodup_cons.mpr ⟨fun hm => hnew (.inl hm), h.nodup⟩
  · exact forall_mem_cons.mpr ⟨hdvd, h.dvd⟩
  · exact forall_mem_cons.mpr ⟨fun hs => hnew (.inr hs), h.new⟩
  · intro x
    rw [hout, h.out, mem_cons, or_assoc]

theorem Taken.fail {t u : PagePool} (h : Taken g s t pas) (ht : Takes g t u (.error e)) :
    Taken g s u pas :=
  ⟨ht.inv, h.same.trans ht.same, h.nodup, h.dvd, h.new,
    fun x => ((ht.error e rfl).2 x).trans (h.out x)⟩

/-- The loop takes the chunks it lists, no more than asked for, and all of them if it ends without
an error. -/
theorem giveLoop_taken {env : GiveEnv} {s₀ : PagePool} {pas pas' : List Nat} {k i : Nat} {err : Int}
    (hs : Taken g s₀ s pas) (h : giveLoop rb g funcId env k i s pas = (t, pas', err)) :
    Taken g s₀ t pas' ∧ pas'.length ≤ pas.length + k ∧
      (err = 0 → pas'.length = pas.length + k) := by
  induction k generalizing i s pas with
  | zero =>
    cases h
    exact ⟨hs, Nat.le_refl _, fun _ => rfl⟩
  | succ k ih =>
    rw [giveLoop] at h
    split at h
    next =>
      cases h
      exact ⟨hs, Nat.le_add_right _ _, fun he => by cases he⟩
    next =>
      have htakes := alloc4kRetry_takes rb funcId (env.iter i).sysPages hs.inv
      split at h
      next s' addr halloc =>
        rw [halloc] at htakes
        obtain ⟨htaken, hle, hlen⟩ := ih (hs.cons htakes) h
        rw [length_cons] at hle hlen
        exact ⟨htaken, by omega, fun he => by rw [hlen he]; omega⟩
      next s' e halloc =>
        rw [halloc] at htakes
        cases h
        exact ⟨hs.fail htakes, Nat.le_add_right _ _,
          fun he => absurd he (htakes.error _ rfl).1⟩

theorem Taken.out4k (h : Taken g s t pas) :
    (out4k g t pas).Inv g ∧ s.SameCounters (out4k g t pas) ∧
      ∀ x, (out4k g t pas).Outstanding g x ↔ s.Outstanding g x := by
  induction pas generalizing t with
  | nil => exact ⟨h.inv, h.same, fun x => by simpa [Mlx5.out4k] using h.out x⟩
  | cons addr pas ih =>
    obtain ⟨hnodup, hnodup'⟩ := nodup_cons.mp h.nodup
    obtain ⟨hdvd, hdvd'⟩ := forall_mem_cons.mp h.dvd
    obtain ⟨hnew, hnew'⟩ := forall_mem_cons.mp h.new
    have hchunk : chunkOf addr = addr := chunkOf_of_dvd hdvd
    have hout : t.Outstanding g (chunkOf addr) := by
      rw [hchunk, h.out]
      exact .inl mem_cons_self
    obtain ⟨u, hfree, hinv, hout, hsame⟩ := free4k_ok h.inv hout
    have hstep : Mlx5.out4k g t (addr :: pas) = Mlx5.out4k g u pas := by
      simp [Mlx5.out4k, hfree, Except.toOption]
    rw [hstep]
    refine ih ⟨hinv, h.same.trans hsame, hnodup', hdvd', hnew', fun x => ?_⟩
    rw [hout, hchunk, h.out, mem_cons]
    constructor
    · rintro ⟨hne, (heq | hx) | hx⟩
      · exact absurd heq hne
      · exact .inl hx
      · exact .inr hx
    · rintro (hx | hx)
      · exact ⟨fun heq => hnodup (heq ▸ hx), .inl (.inr hx)⟩
      · exact ⟨fun heq => hnew (heq ▸ hx), .inr hx⟩

/-- The buffer of a command has room for the addresses, or there is none. -/
def LenFits (npages : Int) : Prop :=
  pasLen npages < 0 ∨ 0 ≤ npages ∧ pasLen npages = 16 + 8 * npages

instance (npages : Int) : Decidable (LenFits npages) := inferInstanceAs (Decidable (_ ∨ _ ∧ _))

/-- `give_pages` fails and nothing changes hands, or the chunks it lists are new. -/
theorem givePages_spec {isEcpf ecFunction : Bool} {env : GiveEnv} {npages : Int}
    (hfits : LenFits npages) (hi : s.Inv g) {r : GiveResult}
    (h : givePages rb g isEcpf s funcId npages ecFunction env = r) :
    r.overrun = false ∧
    ((r.err ≠ 0 ∧ r.given = [] ∧ r.pool.Inv g ∧ s.SameCounters r.pool ∧
      ∀ x, r.pool.Outstanding g x ↔ s.Outstanding g x) ∨
    (r.err = 0 ∧ r.given.length = npages ∧ ∃ t, Taken g s t r.given ∧
      r.pool = t.addPages isEcpf funcId ecFunction npages npages)) := by
  unfold givePages at h
  split at h
  next hbuf =>
    have hroom : 0 ≤ npages ∧ pasLen npages = 16 + 8 * npages :=
      hfits.resolve_left (not_lt.mpr hbuf.2)
    cases hl : giveLoop rb g funcId env npages.toNat 0 s [] with
    | mk t rest =>
      obtain ⟨pas, err⟩ := rest
      rw [hl] at h
      obtain ⟨htaken, hle, hlen⟩ := giveLoop_taken (Taken.nil hi) hl
      rw [length_nil, Nat.zero_add] at hle hlen
      have hin : ¬ ((err = 0 ∨ pas ≠ []) ∧ pasLen npages < 16 + 8 * pas.length) := by
        rw [hroom.2]
        omega
      dsimp only at h
      rw [if_neg hin] at h
      split at h
      next herr =>
        subst h
        exact ⟨rfl, .inl ⟨herr, rfl, htaken.out4k⟩⟩
      next herr =>
        split at h
        next hcmd =>
          subst h
          exact ⟨rfl, .inl ⟨hcmd, rfl, htaken.out4k⟩⟩
        next =>
          subst h
          have hcount := hlen (not_not.mp herr)
          exact ⟨rfl, .inr ⟨rfl, by dsimp only; omega, t, htaken, rfl⟩⟩
  next =>
    subst h
    exact ⟨rfl, .inl ⟨by simp [errNOMEM], rfl, hi, .refl s, fun _ => Iff.rfl⟩⟩

/-! ## Reclaiming pages -/

/-- A page with all chunks free has none outstanding. -/
theorem PagePool.Inv.bit_of_full (hi : s.Inv g) (ha : a ∈ s.pageRoot.toList)
    (hfull : (s.page a).freeCount = g.num4kInPage) (hn : n < g.num4kInPage) :
    (s.page a).bitmask n = true := by
  by_contra hbit
  rw [Bool.not_eq_true] at hbit
  have hset := Bitmap.weight_setBit (hn.trans_le g.num4kInPage_le) hbit
  have hle : ((s.page a).bitmask.setBit n).weight 64 ≤ g.num4kInPage := by
    apply Bitmap.weight_le_of_high
    intro i hge
    rw [Bitmap.setBit_of_ne (by omega)]
    exact hi.high a ha i hge
  have hcount := hi.count a ha
  omega

theorem freePagesList_spec (rb : SearchTree.Rebalance Nat) (hi : s.Inv g) :
    (freePagesList rb g s).Inv g ∧ s.SameCounters (freePagesList rb g s) ∧
      ∀ x, (freePagesList rb g s).Outstanding g x ↔ s.Outstanding g x := by
  obtain ⟨hord, hmem⟩ := rb.foldl_erase
    (s.freeList.filter fun fp => (s.page fp).freeCount = g.num4kInPage) hi.ordered
  have hgone : ∀ a, a ∈ (freePagesList rb g s).pageRoot.toList ↔
      a ∈ s.pageRoot.toList ∧ (s.page a).freeCount ≠ g.num4kInPage := by
    intro a
    rw [freePagesList, hmem, mem_filter, hi.free a]
    have := g.num4kInPage_pos
    simp only [decide_eq_true_eq]
    constructor
    · rintro ⟨hnot, ha⟩
      exact ⟨ha, fun hfull => hnot ⟨⟨ha, by omega⟩, hfull⟩⟩
    · rintro ⟨ha, hne⟩
      exact ⟨fun h => hne h.2, ha⟩
  refine ⟨⟨hord, ?_, ?_, ?_, ?_, ?_⟩, ⟨rfl, rfl, rfl, rfl⟩, ?_⟩
  · exact fun a ha => hi.aligned a ((hgone a).mp ha).1
  · exact fun a ha => hi.high a ((hgone a).mp ha).1
  · exact fun a ha => hi.count a ((hgone a).mp ha).1
  · exact hi.nodup.filter _
  · intro a
    rw [hgone]
    simp only [freePagesList, mem_filter, hi.free a, decide_eq_true_eq]
    tauto
  · intro x
    simp only [PagePool.Outstanding, hgone]
    refine and_congr_right fun _ => ?_
    constructor
    · rintro ⟨⟨ha, -⟩, hbit⟩
      exact ⟨ha, hbit⟩
    · rintro ⟨ha, hbit⟩
      refine ⟨⟨ha, fun hfull => ?_⟩, hbit⟩
      rw [hi.bit_of_full ha hfull (g.indexOf_lt x)] at hbit
      cases hbit

/-- Firmware's chunks, each once, are the outstanding ones. -/
structure Owned (g : PageGeometry) (s : PagePool) (own : List Given) : Prop where
  nodup : (own.map Given.addr).Nodup
  out : ∀ x, x ∈ own.map Given.addr ↔ s.Outstanding g x

variable {own : List Given}

theorem Owned.congr (h : Owned g s own) (hout : ∀ x, t.Outstanding g x ↔ s.Outstanding g x) :
    Owned g t own :=
  ⟨h.nodup, fun x => (h.out x).trans (hout x).symm⟩

theorem Owned.return_one {c : Nat} (h : Owned g s own) (hc : s.Outstanding g c)
    (ht : ∀ x, t.Outstanding g x ↔ x ≠ c ∧ s.Outstanding g x) :
    Owned g t (own.filter fun o => o.addr ≠ c) ∧
      (own.filter fun o => o.addr ≠ c).length + 1 = own.length := by
  have hmap : (own.filter fun o => o.addr ≠ c).map Given.addr =
      (own.map Given.addr).filter fun a => a ≠ c := by
    rw [filter_map]
    rfl
  refine ⟨⟨?_, fun x => ?_⟩, ?_⟩
  · rw [hmap]
    exact h.nodup.filter _
  · rw [hmap, mem_filter, h.out, ht, and_comm]
    simp
  · have herase : (own.map Given.addr).filter (fun a => a ≠ c) = (own.map Given.addr).erase c := by
      rw [h.nodup.erase_eq_filter]
      apply filter_congr
      intro a _
      rw [bne, Bool.eq_iff_iff]
      simp
    have hmem : c ∈ own.map Given.addr := (h.out c).mpr hc
    have hpos := length_pos_of_mem hmem
    rw [← length_map (f := Given.addr), hmap, herase, length_erase_of_mem hmem]
    rw [length_map] at hpos ⊢
    omega

/-- The loop of `reclaim_pages` takes back the chunks that an entry lies in, and
counts each of them once. -/
theorem claimLoop_spec (pas : List Nat) (hi : s.Inv g) (ho : Owned g s own) :
    (claimLoop g pas s).1.Inv g ∧ s.SameCounters (claimLoop g pas s).1 ∧
      Owned g (claimLoop g pas s).1 (own.filter fun o => o.addr ∉ pas.map chunkOf) ∧
      (own.filter fun o => o.addr ∉ pas.map chunkOf).length + (claimLoop g pas s).2 =
        own.length := by
  induction pas generalizing s own with
  | nil => simpa [claimLoop] using ⟨hi, PagePool.SameCounters.refl s, ho⟩
  | cons addr pas ih =>
    by_cases hc : s.Outstanding g (chunkOf addr)
    · obtain ⟨t, hfree, hinv, hout, hsame⟩ := free4k_ok hi hc
      obtain ⟨hown, hlen⟩ := ho.return_one hc hout
      obtain ⟨hinv', hsame', hown', hlen'⟩ := ih hinv hown
      have hfilter : (own.filter fun o => o.addr ≠ chunkOf addr).filter
          (fun o => o.addr ∉ pas.map chunkOf) =
          own.filter fun o => o.addr ∉ (addr :: pas).map chunkOf := by
        rw [filter_filter]
        congr 1
        funext o
        simp [Bool.and_comm]
      rw [hfilter] at hown' hlen'
      simp only [claimLoop, hfree]
      exact ⟨hinv', hsame.trans hsame', hown', by omega⟩
    · obtain ⟨e, hfree⟩ := free4k_error hi hc
      have hfilter : (own.filter fun o => o.addr ∉ (addr :: pas).map chunkOf) =
          own.filter fun o => o.addr ∉ pas.map chunkOf := by
        apply filter_congr
        intro o hmem
        have hne : o.addr ≠ chunkOf addr := by
          intro heq
          exact hc (heq ▸ (ho.out _).mp (mem_map_of_mem hmem))
        simp [hne]
      simp only [claimLoop, hfree, hfilter]
      exact ih hi ho

/-- `reclaim_pages` accepts the reply. -/
def Accepts (npages : Nat) (env : ReclaimEnv) (out : ReclaimReply) : Prop :=
  (env.kvzalloc = true ∧ 0 ≤ pasLen npages) ∧ out.err = 0 ∧ out.numClaimed ≤ npages

variable {env : ReclaimEnv} {npages : Nat}

theorem reclaimPages_of_not_accepts (rb : SearchTree.Rebalance Nat) (isEcpf ecFunction : Bool)
    (h : ¬ Accepts npages env (reclaimPagesCmd g s funcId npages env.reply)) :
    (reclaimPages rb g isEcpf s funcId npages ecFunction env).pool = s ∧
      (reclaimPages rb g isEcpf s funcId npages ecFunction env).listed = [] := by
  unfold reclaimPages
  by_cases hk : env.kvzalloc = true ∧ 0 ≤ pasLen npages
  case neg =>
    rw [if_neg hk]
    exact ⟨rfl, rfl⟩
  rw [if_pos hk]
  by_cases herr : (reclaimPagesCmd g s funcId npages env.reply).err = 0
  case neg =>
    simp [herr]
  have hgt : (reclaimPagesCmd g s funcId npages env.reply).numClaimed > npages := by
    by_contra hle
    exact h ⟨hk, herr, Int.not_lt.mp hle⟩
  simp [herr, hgt]

theorem reclaimPages_eq_of_accepts {isEcpf ecFunction : Bool} {funcId npages k : Nat}
    {out : ReclaimReply} (hout : reclaimPagesCmd g s funcId npages env.reply = out)
    (h : Accepts npages env out) (hc : claimLoop g out.listed s = (t, k)) :
    reclaimPages rb g isEcpf s funcId npages ecFunction env =
      ⟨(if s.internalError then freePagesList rb g t else t).addPages isEcpf funcId ecFunction
        (-k) (-out.numClaimed), 0, k, out.listed⟩ := by
  obtain ⟨hk, herr, hle⟩ := h
  have hgt : ¬ out.numClaimed > npages := Int.not_lt.mpr hle
  unfold reclaimPages
  rw [if_pos hk, hout]
  dsimp only
  rw [if_neg (not_not.mpr herr), if_neg hgt, hc]

/-- An accepted reply takes back the chunks its entries lie in. -/
theorem reclaimPages_of_accepts {isEcpf ecFunction : Bool} {out : ReclaimReply} (hi : s.Inv g)
    (ho : Owned g s own) (hout : reclaimPagesCmd g s funcId npages env.reply = out)
    (h : Accepts npages env out) {r : ReclaimResult}
    (hr : reclaimPages rb g isEcpf s funcId npages ecFunction env = r) :
    r.listed = out.listed ∧
    (own.filter fun o => o.addr ∉ r.listed.map chunkOf).length + r.nclaimed = own.length ∧
    ∃ t : PagePool, t.Inv g ∧ s.SameCounters t ∧
      Owned g t (own.filter fun o => o.addr ∉ r.listed.map chunkOf) ∧
      r.pool = t.addPages isEcpf funcId ecFunction (-r.nclaimed) (-out.numClaimed) := by
  obtain ⟨hinv, hsame, hown, hlen⟩ := claimLoop_spec out.listed hi ho
  generalize hc : claimLoop g out.listed s = c at hinv hsame hown hlen
  obtain ⟨t, k⟩ := c
  rw [reclaimPages_eq_of_accepts hout h hc] at hr
  subst hr
  refine ⟨rfl, hlen, ?_⟩
  by_cases he : s.internalError = true
  · obtain ⟨hinv', hsame', hout'⟩ := freePagesList_spec rb hinv
    rw [if_pos he]
    exact ⟨_, hinv', hsame.trans hsame', hown.congr hout', rfl⟩
  · rw [if_neg he]
    exact ⟨_, hinv, hsame, hown, rfl⟩

/-! ## Every run -/

/-- The invariant of the pool, with firmware's chunks and the counter of them. -/
structure PageSys.Inv (g : PageGeometry) (s : PageSys) : Prop where
  pool : s.pool.Inv g
  owned : Owned g s.pool s.given
  fwPages : s.pool.fwPages = s.given.length

/-- The counters are no part of the structures. -/
theorem PagePool.Inv.addPages (hi : s.Inv g) (isEcpf : Bool) (funcId : Nat) (ecFunction : Bool)
    (n m : Int) : (s.addPages isEcpf funcId ecFunction n m).Inv g :=
  ⟨hi.ordered, hi.aligned, hi.high, hi.count, hi.nodup, hi.free⟩

theorem PagePool.outstanding_addPages (isEcpf : Bool) (funcId : Nat) (ecFunction : Bool)
    (n m : Int) (x : Nat) :
    (s.addPages isEcpf funcId ecFunction n m).Outstanding g x ↔ s.Outstanding g x := Iff.rfl

variable {isEcpf : Bool} {sys : PageSys}

theorem PageSys.Inv.init : (PageSys.init).Inv g := by
  refine ⟨⟨?_, ?_, ?_, ?_, ?_, ?_⟩, ⟨?_, ?_⟩, rfl⟩ <;>
    simp [PageSys.init, PagePool.init, SearchTree.Ordered, SearchTree.toList,
      PagePool.Outstanding]

theorem PageSys.Inv.give (hi : sys.Inv g) (funcId : Nat) {npages : Int} (hfits : LenFits npages)
    (ecFunction : Bool) (env : GiveEnv) :
    (PageSys.step rb g isEcpf sys (.give funcId npages ecFunction env)).Inv g := by
  simp only [PageSys.step]
  generalize hr : givePages rb g isEcpf sys.pool funcId npages ecFunction env = r
  obtain ⟨-, ⟨-, hgiven, hinv, hsame, hout⟩ | ⟨-, hlen, t, ht, hpool⟩⟩ :=
    givePages_spec hfits hi.pool hr
  · rw [hgiven]
    exact ⟨hinv, hi.owned.congr hout, hsame.fwPages.trans hi.fwPages⟩
  · have hmap : (r.given.map (fun a => (⟨a, funcId, ecFunction⟩ : Given))
      ++ sys.given).map Given.addr =
        r.given ++ sys.given.map Given.addr := by
      simp [Function.comp_def]
    rw [hpool]
    refine ⟨ht.inv.addPages .., ⟨?_, ?_⟩, ?_⟩
    · rw [hmap]
      refine List.Nodup.append ht.nodup hi.owned.nodup ?_
      intro a ha hb
      exact ht.new a ha ((hi.owned.out a).mp hb)
    · intro x
      rw [hmap, mem_append, hi.owned.out, ← ht.out, PagePool.outstanding_addPages]
    · simp only [PagePool.addPages]
      rw [ht.same.fwPages, hi.fwPages, length_append, length_map]
      omega

theorem PageSys.Inv.reclaim (hi : sys.Inv g) (funcId npages : Nat) (ecFunction : Bool)
    (env : ReclaimEnv) :
    (PageSys.step rb g isEcpf sys (.reclaim funcId npages ecFunction env)).Inv g := by
  simp only [PageSys.step]
  by_cases ha : Accepts npages env (reclaimPagesCmd g sys.pool funcId npages env.reply)
  · generalize hr : reclaimPages rb g isEcpf sys.pool funcId npages ecFunction env = r
    obtain ⟨-, hlen, t, hinv, hsame, hown, hpool⟩ :=
      reclaimPages_of_accepts hi.pool hi.owned rfl ha hr
    rw [hpool]
    refine ⟨hinv.addPages .., hown.congr fun x => PagePool.outstanding_addPages .., ?_⟩
    simp only [PagePool.addPages]
    rw [hsame.fwPages, hi.fwPages]
    omega
  · obtain ⟨hpool, hlisted⟩ :=
      reclaimPages_of_not_accepts rb isEcpf ecFunction ha
    rw [hpool, hlisted]
    simpa using hi

/-- The buffers of a call have room for the addresses. What is read behind the reply of firmware is
arbitrary like the reply. -/
def PageSys.Fits (s : PageSys) : PageOp → Prop
  | .give _ npages _ _ => LenFits npages
  | .reclaim _ npages _ _ => s.pool.internalError = true → LenFits npages
  | _ => True

theorem PageSys.Inv.step (hi : sys.Inv g) {op : PageOp} (hfits : sys.Fits op) :
    (PageSys.step rb g isEcpf sys op).Inv g := by
  cases op with
  | give funcId npages ecFunction env => exact hi.give funcId hfits ecFunction env
  | reclaim funcId npages ecFunction env => exact hi.reclaim funcId npages ecFunction env
  | freePagesList =>
    obtain ⟨hinv, hsame, hout⟩ := freePagesList_spec rb hi.pool
    exact ⟨hinv, hi.owned.congr hout, hsame.fwPages.trans hi.fwPages⟩
  | setState internalError =>
    have hp := hi.pool
    exact ⟨⟨hp.ordered, hp.aligned, hp.high, hp.count, hp.nodup, hp.free⟩,
      hi.owned.congr fun _ => Iff.rfl, hi.fwPages⟩

/-- What the tree, the bitmasks, the free list and the counter say in a state. -/
structure PageSys.Ok (g : PageGeometry) (s : PageSys) : Prop where
  freeCount : ∀ a ∈ s.pool.pageRoot.toList,
    (s.pool.page a).freeCount = (s.pool.page a).bitmask.weight 64
  onFreeList : ∀ a ∈ s.pool.pageRoot.toList, a ∈ s.pool.freeList ↔ 0 < (s.pool.page a).freeCount
  found : ∀ a ∈ s.pool.pageRoot.toList, findFwPage s.pool a = some a
  once : (s.given.map Given.addr).Nodup
  owned : ∀ addr, addr ∈ s.given.map Given.addr ↔ s.pool.Outstanding g addr
  fwPages : s.pool.fwPages = s.given.length

/-- What `give_pages` does: it keeps to its buffer, nothing changes hands when it fails, and
otherwise it gives as many chunks as asked, none of which firmware has. -/
def GivesRight (rb : SearchTree.Rebalance Nat) (g : PageGeometry) (isEcpf : Bool) (s : PageSys) :
    PageOp → Prop
  | .give funcId npages ecFunction env =>
    let r := givePages rb g isEcpf s.pool funcId npages ecFunction env
    r.overrun = false ∧ (r.err ≠ 0 → ∀ addr, r.pool.Outstanding g addr ↔
      s.pool.Outstanding g addr) ∧
      (r.err = 0 → r.given.length = npages ∧ r.given.Nodup ∧
        (∀ addr ∈ r.given, addr ∉ s.given.map Given.addr) ∧
        ∀ addr, r.pool.Outstanding g addr ↔ addr ∈ r.given ∨ s.pool.Outstanding g addr)
  | _ => True

theorem PageSys.Inv.ok (hi : sys.Inv g) : sys.Ok g where
  freeCount := hi.pool.count
  onFreeList a ha := by simp [hi.pool.free a, ha]
  found a ha := SearchTree.find?_of_mem hi.pool.ordered ha
  once := hi.owned.nodup
  owned := hi.owned.out
  fwPages := hi.fwPages

theorem PageSys.Inv.givesRight (hi : sys.Inv g) {op : PageOp} (hfits : sys.Fits op) :
    GivesRight rb g isEcpf sys op := by
  cases op with
  | give funcId npages ecFunction env =>
    simp only [GivesRight]
    generalize hr : givePages rb g isEcpf sys.pool funcId npages ecFunction env = r
    obtain ⟨hover, ⟨herr, -, -, -, hout⟩ | ⟨herr, hlen, t, ht, hpool⟩⟩ :=
      givePages_spec hfits hi.pool hr
    · exact ⟨hover, fun _ => hout, fun h => absurd h herr⟩
    · refine ⟨hover, fun h => absurd herr h, fun _ => ⟨hlen, ht.nodup, ?_, ?_⟩⟩
      · intro a ha hb
        exact ht.new a ha ((hi.owned.out a).mp hb)
      · intro x
        rw [← ht.out, hpool, PagePool.outstanding_addPages]
  | _ => trivial

end

/-- In every run whose calls fit their buffers the structures agree, firmware has each chunk at most
once, and `fw_pages` counts them; a `give_pages` that fails gives none. -/
theorem pagePool_every_run (rb : SearchTree.Rebalance Nat) (g : PageGeometry) (isEcpf : Bool)
    {ops : List PageOp} (hfits : Run.Steps (PageSys.step rb g isEcpf) PageSys.Fits .init ops) :
    (∀ s ∈ Run.states (PageSys.step rb g isEcpf) .init ops, s.Ok g) ∧
      Run.Steps (PageSys.step rb g isEcpf) (GivesRight rb g isEcpf) .init ops := by
  have hstep : ∀ (s : PageSys) (op : PageOp), s.Inv g → s.Fits op →
      (PageSys.step rb g isEcpf s op).Inv g := fun s op hi hfits => hi.step hfits
  constructor
  · intro s hs
    exact (Run.Steps.invariant hstep PageSys.Inv.init hfits s hs).ok
  · exact Run.Steps.each hstep (fun s op hi hfits => hi.givesRight hfits) PageSys.Inv.init hfits

/-! ### Pages of one chunk -/

theorem pages4k_ge : 12 ≤ 12 := Nat.le_refl 12

theorem pages4k_le : 12 ≤ 18 := by decide

/-- The host's pages are as small as firmware's. -/
def pages4k : PageGeometry := ⟨12, pages4k_ge, pages4k_le⟩

/-- Everything succeeds; a new system page is mapped at the first address. -/
def giveEnvOk : GiveEnv where
  kvzalloc := true
  iter _ := ⟨false, [⟨true, [some 1], true⟩]⟩
  cmdExec := 0

/-- Firmware returns these addresses. -/
def returns (pas : List Nat) : ReclaimEnv where
  kvzalloc := true
  reply := ⟨0, pas.length, fun i => pas.getD i 0⟩

/-- A page of a virtual function and back. -/
def roundTripOps : List PageOp :=
  [.give 3 1 false giveEnvOk, .reclaim 3 1 false (returns [4096])]

theorem pagePool_round_trip :
    (∀ s ∈ Run.states (PageSys.step (.plain Nat) pages4k true) .init roundTripOps, s.Ok pages4k) ∧
      Run.Steps (PageSys.step (.plain Nat) pages4k true)
        (GivesRight (.plain Nat) pages4k true) .init
        roundTripOps :=
  pagePool_every_run (.plain Nat) pages4k true
    ⟨show LenFits 1 by decide, show false = true → LenFits 1 from fun h => Bool.noConfusion h,
      trivial⟩

/-- The length of the command for `-2 ^ 29` pages is that for none. -/
theorem pagePool_negative_count :
    givePages (.plain Nat) pages4k false .init 0 (-2 ^ 29) false giveEnvOk =
        ⟨PagePool.init.addPages false 0 false (-2 ^ 29) (-2 ^ 29), 0, [], false⟩ ∧
      ¬ ∀ s ∈ Run.states (PageSys.step (.plain Nat) pages4k false) .init
        [.give 0 (-2 ^ 29) false giveEnvOk], s.Ok pages4k := by
  have hgive : givePages (.plain Nat) pages4k false .init 0 (-2 ^ 29) false giveEnvOk =
      ⟨PagePool.init.addPages false 0 false (-2 ^ 29) (-2 ^ 29), 0, [], false⟩ := rfl
  refine ⟨hgive, fun h => ?_⟩
  have hlast := h (PageSys.step (.plain Nat) pages4k false .init
    (.give 0 (-2 ^ 29) false giveEnvOk))
    (by simp)
  have hcount := hlast.fwPages
  revert hcount
  decide +kernel

end Mlx5
