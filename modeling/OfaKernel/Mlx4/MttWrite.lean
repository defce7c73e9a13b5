-- SUMMARY: Writing MTT entries in mlx4 (`__mlx4_write_mtt`).
import Mathlib.Algebra.BigOperators.Ring.List
import OfaKernel.Lib.BigEndian
import OfaKernel.Mlx4.IcmFind

/-!
# Writing MTT entries

`__mlx4_write_mtt` writes page by page: it looks up the first entry of each page and relies on
the others to follow it in memory.
-/

namespace Mlx4

open Segments

/-! ## Model -/

def mttFlagPresent : Nat := 1

def storeMtts (mtts : Nat) (pageList : Nat → Nat) : Nat → BigEndian.Mem → BigEndian.Mem
  | 0, mem => mem
  | n + 1, mem =>
    BigEndian.write (storeMtts mtts pageList n mem) (mtts + 8 * n) 8 (pageList n ||| mttFlagPresent)

/-- `mlx4_write_mtt_chunk`; `none` is `-ENOMEM`. -/
def writeMttChunk (p : IcmShape) (t : IcmTable) (mem : BigEndian.Mem)
    (offset startIndex npages : Nat)
    (pageList : Nat → Nat) : Option BigEndian.Mem :=
  (tableFind p t (U32.wrap (offset + startIndex))).1.map fun mtts => storeMtts mtts
    pageList npages mem

def mttsPerPage : Nat := icmHostPageSize / 8

/-- The loop of `__mlx4_write_mtt`, and whether it succeeds. -/
def writeMttLoop (p : IcmShape) (t : IcmTable) (offset : Nat) :
    Nat → BigEndian.Mem → Nat → Nat → Nat → (Nat → Nat) → BigEndian.Mem × Bool
  | 0, mem, _, _, _, _ => (mem, false)
  | fuel + 1, mem, startIndex, npages, chunk, pageList =>
    if npages = 0 then (mem, true)
    else
      match writeMttChunk p t mem offset startIndex chunk pageList with
      | none => (mem, false)
      | some mem =>
        writeMttLoop p t offset fuel mem (startIndex + chunk) (npages - chunk)
          (min mttsPerPage (npages - chunk)) fun i => pageList (i + chunk)

def writeMtt (p : IcmShape) (t : IcmTable) (mem : BigEndian.Mem) (offset startIndex npages : Nat)
    (pageList : Nat → Nat) : BigEndian.Mem × Bool :=
  let maxMttsFirstPage := mttsPerPage - U32.wrap (offset + startIndex) % mttsPerPage
  writeMttLoop p t offset (npages + 1) mem startIndex npages (min maxMttsFirstPage npages) pageList

/-- The CPU address of the bytes of an object. -/
def cpuAddr (p : IcmShape) (t : IcmTable) (obj : Nat) : Option Nat :=
  (t.icm (obj * p.objSize / tableChunkSize)).bind fun icm =>
    lookup icm.cpuSegs (obj * p.objSize % tableChunkSize)

/-- The blocks of pages of a table do not overlap. -/
def PagesApart (t : IcmTable) : Prop :=
  ∀ (c k c' k' : Nat) (icm icm' : Icm) (page len page' len' : Nat), t.icm c = some icm →
    t.icm c' = some icm' →
    icm.cpuSegs[k]? = some (page, len) → icm'.cpuSegs[k']? = some (page', len') →
      (c, k) ≠ (c', k') → page + len ≤ page' ∨ page' + len' ≤ page

/-- The `n` entries from `first` on hold the addresses of the list, and no other byte has changed.
-/
structure Written (p : IcmShape) (t : IcmTable) (first n : Nat) (pageList : Nat → Nat)
    (mem mem' : BigEndian.Mem) : Prop where
  stored : ∀ k < n, ∃ a, cpuAddr p t (first + k) = some a ∧
    BigEndian.read mem' a 8 = (pageList k ||| mttFlagPresent) % 2 ^ 64
  kept : ∀ x, (∀ k < n, ∀ a, cpuAddr p t (first + k) = some a → ¬ (a ≤ x ∧ x < a + 8)) →
    mem' x = mem x

/-- Every write to entries that are there does what it should. -/
def WriteRight (p : IcmShape) (t : IcmTable) : Prop :=
  ∀ mem offset startIndex npages pageList, offset + startIndex + npages ≤ p.numObj →
    (∀ k < npages, (cpuAddr p t (offset + startIndex + k)).isSome = true) →
      (writeMtt p t mem offset startIndex npages pageList).2 = true ∧
        Written p t (offset + startIndex) npages pageList mem
          (writeMtt p t mem offset startIndex npages pageList).1

section

variable {p : IcmShape} {t : IcmTable}

theorem cpuSegs_pages {icm : Icm} (h : icm.Built) : ∀ e ∈ icm.cpuSegs, icmHostPageSize ∣ e.2 := by
  intro e he
  obtain ⟨c, hc, he⟩ := List.mem_flatMap.mp he
  obtain ⟨sg, hsg, rfl⟩ := List.mem_map.mp he
  exact ((h c hc).pages sg hsg).2

/-- The entries of one page follow each other. -/
theorem cpuAddr_add (h : t.Allocated p) (hsize : p.objSize = 8) {x a d : Nat}
    (hx : cpuAddr p t x = some a) (hd : x % mttsPerPage + d < mttsPerPage) :
    cpuAddr p t (x + d) = some (a + 8 * d) := by
  unfold cpuAddr at hx ⊢
  obtain ⟨icm, hc, hlook⟩ := Option.bind_eq_some_iff.mp hx
  rw [hsize] at hc hlook ⊢
  have hpage : mttsPerPage = 512 := rfl
  have hchunk : tableChunkSize = 262144 := rfl
  rw [hpage] at hd
  rw [hchunk] at hc hlook ⊢
  have hdiv : (x + d) * 8 / 262144 = x * 8 / 262144 := by omega
  have hmod : (x + d) * 8 % 262144 = x * 8 % 262144 + 8 * d := by omega
  rw [hdiv, hmod, hc]
  refine lookup_add (cpuSegs_pages (.of_allocated h hc)) ?_ hlook
  unfold icmHostPageSize
  omega

/-- The bytes of two entries do not overlap. -/
theorem cpuAddr_apart (h : t.Allocated p) (hsize : p.objSize = 8) (hapart : PagesApart t)
    {x y a b : Nat} (hx : cpuAddr p t x = some a) (hy : cpuAddr p t y = some b) (hne : x ≠ y) :
    a + 8 ≤ b ∨ b + 8 ≤ a := by
  obtain ⟨icm, hc, hlook⟩ := Option.bind_eq_some_iff.mp hx
  obtain ⟨icm', hc', hlook'⟩ := Option.bind_eq_some_iff.mp hy
  have hchunk : tableChunkSize = 262144 := rfl
  rw [hsize, hchunk] at hc hlook hc' hlook'
  -- the block of an entry, in which it lies whole
  have hblock {icm : Icm} (hb : icm.Built) {off a : Nat} (hoff : 8 ∣ off)
      (hl : lookup icm.cpuSegs off = some a) :
      ∃ k page len r, icm.cpuSegs[k]? = some (page, len) ∧ r + 8 ≤ len ∧ a = page + r ∧
        off = start (icm.cpuSegs.map Prod.snd) k + r := by
    have hlt : off < (icm.cpuSegs.map Prod.snd).sum := by
      by_contra hge
      rw [lookup_eq_none (Nat.not_lt.mp hge)] at hl
      cases hl
    obtain ⟨k, len, r, hk, hr, heq⟩ := exists_start hlt
    rw [List.getElem?_map, Option.map_eq_some_iff] at hk
    obtain ⟨⟨page, len'⟩, hk, rfl⟩ := hk
    have hpages := cpuSegs_pages hb
    have hlen8 : 8 ∣ len' := dvd_trans (by decide) (hpages _ (List.mem_of_getElem? hk))
    have hstart8 : 8 ∣ start (icm.cpuSegs.map Prod.snd) k := by
      refine List.dvd_sum fun n hn => ?_
      obtain ⟨e, he, rfl⟩ := List.mem_map.mp (List.mem_of_mem_take hn)
      exact dvd_trans (by decide) (hpages e he)
    rw [heq, lookup_start hk hr] at hl
    refine ⟨k, page, len', r, hk, ?_, (Option.some.inj hl).symm, heq⟩
    omega
  obtain ⟨k, page, len, r, hk, hr, rfl, hoff⟩ := hblock (.of_allocated h hc) (by omega) hlook
  obtain ⟨k', page', len', r', hk', hr', rfl, hoff'⟩ :=
    hblock (.of_allocated h hc') (by omega) hlook'
  by_cases hsame : (x * 8 / 262144, k) = (y * 8 / 262144, k')
  · -- both in one block
    obtain ⟨hcc, rfl⟩ := Prod.mk.inj hsame
    rw [hcc, hc'] at hc
    obtain rfl := Option.some.inj hc
    rw [hk'] at hk
    obtain ⟨rfl, rfl⟩ := Prod.mk.inj (Option.some.inj hk)
    omega
  · have := hapart _ _ _ _ icm icm' page len page' len' hc hc' hk hk' hsame
    omega

/-! ## Writes -/

theorem storeMtts_spec (mtts : Nat) (pageList : Nat → Nat) (n : Nat) (mem : BigEndian.Mem) :
    (∀ k < n, BigEndian.read (storeMtts mtts pageList n mem) (mtts + 8 * k) 8 =
      (pageList k ||| mttFlagPresent) % 2 ^ 64) ∧
    ∀ x, (∀ k < n, ¬ (mtts + 8 * k ≤ x ∧ x < mtts + 8 * k + 8)) →
      storeMtts mtts pageList n mem x = mem x := by
  induction n with
  | zero => exact ⟨fun k hk => absurd hk (Nat.not_lt_zero k), fun _ _ => rfl⟩
  | succ n ih =>
    obtain ⟨hread, hkept⟩ := ih
    refine ⟨fun k hk => ?_, fun x hx => ?_⟩
    · rcases Nat.lt_succ_iff_lt_or_eq.mp hk with hlt | rfl
      · -- a later store is behind this entry
        rw [← hread k hlt]
        refine BigEndian.read_congr fun x hlo hhi => ?_
        exact BigEndian.write_of_not _ _ _ _ _ (by omega)
      · exact BigEndian.read_write _ _ _ _
    · unfold storeMtts
      rw [BigEndian.write_of_not _ _ _ _ _ (hx n (Nat.lt_succ_self n))]
      exact hkept x fun k hk => hx k (Nat.lt_succ_of_lt hk)

theorem Written.append
    (hapart : ∀ x y a b, cpuAddr p t x = some a → cpuAddr p t y = some b → x ≠ y →
      a + 8 ≤ b ∨ b + 8 ≤ a) {first n m : Nat} {pageList : Nat → Nat}
        {mem mem' mem'' : BigEndian.Mem}
    (h : Written p t first n pageList mem mem')
    (h' : Written p t (first + n) m (fun i => pageList (i + n)) mem' mem'') :
    Written p t first (n + m) pageList mem mem'' := by
  refine ⟨fun k hk => ?_, fun x hx => ?_⟩
  · rcases Nat.lt_or_ge k n with hlt | hge
    · -- the second write leaves the entry alone
      obtain ⟨a, ha, hread⟩ := h.stored k hlt
      refine ⟨a, ha, ?_⟩
      rw [← hread]
      refine BigEndian.read_congr fun x hlo hhi => ?_
      refine h'.kept x fun j hj b hb hin => ?_
      have := hapart _ _ _ _ ha hb (by omega)
      omega
    · obtain ⟨i, rfl⟩ := Nat.exists_eq_add_of_le hge
      obtain ⟨a, ha, hread⟩ := h'.stored i (by omega)
      rw [Nat.add_assoc] at ha
      rw [Nat.add_comm i n] at hread
      exact ⟨a, ha, hread⟩
  · rw [h'.kept x, h.kept x]
    · exact fun k hk a ha => hx k (by omega) a ha
    · exact fun k hk a ha => hx (n + k) (by omega) a (by rw [← Nat.add_assoc]; exact ha)

/-- One call of `mlx4_write_mtt_chunk`, for entries of one page. -/
theorem writeMttChunk_spec (h : t.Allocated p) (hright : FindRight p t) (hsize : p.objSize = 8)
    (mem : BigEndian.Mem) {offset startIndex n : Nat} (pageList : Nat → Nat)
    (hlt : offset + startIndex < p.numObj)
    (hthere : (cpuAddr p t (offset + startIndex)).isSome = true)
    (hpage : (offset + startIndex) % mttsPerPage + n ≤ mttsPerPage) :
    ∃ mem', writeMttChunk p t mem offset startIndex n pageList = some mem' ∧
      Written p t (offset + startIndex) n pageList mem mem' := by
  obtain ⟨a, ha⟩ := Option.isSome_iff_exists.mp hthere
  have hfind : (tableFind p t (U32.wrap (offset + startIndex))).1 = some a := by
    rw [U32.wrap_of_lt (hlt.trans p.numObj_lt)]
    obtain ⟨icm, hc, hlook⟩ := Option.bind_eq_some_iff.mp ha
    rw [hright _ hlt icm hc]
    exact hlook
  have haddr (k : Nat) (hk : k < n) : cpuAddr p t (offset + startIndex + k) = some (a + 8 * k) :=
    cpuAddr_add h hsize ha (by omega)
  obtain ⟨hread, hkept⟩ := storeMtts_spec a pageList n mem
  unfold writeMttChunk
  rw [hfind]
  refine ⟨_, rfl, fun k hk => ⟨_, haddr k hk, hread k hk⟩, fun x hx => hkept x fun k hk => ?_⟩
  exact hx k hk _ (haddr k hk)

theorem writeMttLoop_spec (h : t.Allocated p) (hright : FindRight p t) (hsize : p.objSize = 8)
    (hapart : PagesApart t) {offset fuel : Nat} (mem : BigEndian.Mem)
    {startIndex npages chunk : Nat}
    (pageList : Nat → Nat) (hfuel : npages < fuel)
    (hbound : offset + startIndex + npages ≤ p.numObj)
    (hthere : ∀ k < npages, (cpuAddr p t (offset + startIndex + k)).isSome = true)
    (hchunk : chunk = min (mttsPerPage - (offset + startIndex) % mttsPerPage) npages) :
    (writeMttLoop p t offset fuel mem startIndex npages chunk pageList).2 = true ∧
      Written p t (offset + startIndex) npages pageList mem
        (writeMttLoop p t offset fuel mem startIndex npages chunk pageList).1 := by
  induction fuel generalizing mem startIndex npages chunk pageList with
  | zero => exact absurd hfuel (Nat.not_lt_zero _)
  | succ fuel ih =>
    unfold writeMttLoop
    by_cases hzero : npages = 0
    · subst hzero
      exact ⟨rfl, fun k hk => absurd hk (Nat.not_lt_zero k), fun _ _ => rfl⟩
    · rw [if_neg hzero]
      have hpage : mttsPerPage = 512 := rfl
      rw [hpage] at hchunk
      have hle : chunk ≤ npages := by omega
      obtain ⟨mem', hwrite, hwritten⟩ := @writeMttChunk_spec p t h hright hsize mem offset
        startIndex chunk
        pageList (by omega) (hthere 0 (by omega)) (by rw [hpage]; omega)
      rw [hwrite]
      -- the rest begins at a page or there is none
      have hnext : min mttsPerPage (npages - chunk) =
          min (mttsPerPage - (offset + (startIndex + chunk)) % mttsPerPage) (npages - chunk) := by
        rw [hpage]
        omega
      have hrest (k : Nat) (hk : k < npages - chunk) :
          (cpuAddr p t (offset + (startIndex + chunk) + k)).isSome = true := by
        rw [show offset + (startIndex + chunk) + k = offset + startIndex + (chunk + k) by omega]
        exact hthere _ (by omega)
      obtain ⟨hok, hrest⟩ := @ih mem' (startIndex + chunk) (npages - chunk) _
        (fun i => pageList (i + chunk)) (by omega) (by omega) hrest hnext
      refine ⟨hok, ?_⟩
      rw [← Nat.add_assoc] at hrest
      have hall := hwritten.append
        (fun x y a b hx hy hne => cpuAddr_apart h hsize hapart hx hy hne) hrest
      rwa [Nat.add_sub_cancel' hle] at hall

theorem writeRight_of_findRight (h : t.Allocated p) (hright : FindRight p t) (hsize : p.objSize = 8)
    (hapart : PagesApart t) : WriteRight p t := by
  intro mem offset startIndex npages pageList hbound hthere
  by_cases hzero : npages = 0
  · subst hzero
    exact ⟨rfl, fun k hk => absurd hk (Nat.not_lt_zero k), fun _ _ => rfl⟩
  · refine writeMttLoop_spec h hright hsize hapart mem pageList (Nat.lt_succ_self _)
      hbound hthere ?_
    have hlt : offset + startIndex < p.numObj := by omega
    rw [U32.wrap_of_lt (hlt.trans p.numObj_lt)]

end

/-- In a table in low memory, the addresses found for all objects, and the writes of MTT entries,
are right exactly if every chunk is in step. -/
theorem table_find_iff {p : IcmShape} {t : IcmTable} (hlow : p.lowmem = true) (h : t.Allocated p)
    (hapart : PagesApart t) :
    (FindRight p t ∧ (p.objSize = 8 → WriteRight p t)) ↔
      ∀ c icm, t.icm c = some icm → InStep p c icm := by
  rw [← findRight_iff hlow h]
  constructor
  · exact And.left
  · exact fun hright => ⟨hright, fun hsize => writeRight_of_findRight h hright hsize hapart⟩

def oneChunkMtt : IcmShape where
  numObj := 2 ^ 15
  objSize := 8
  lowmem := true
  coherent := false
  numObj_lt := by decide
  numObj_pow := ⟨15, rfl⟩
  objSize_dvd := by decide

/-- A block of 32 pages and two of 16 are there, and no larger ones. -/
def threeBlocks (mapSg : (n : Nat) → Option (Merging n)) : AllocIcmEnv where
  icm := true
  newChunk _ := true
  allocPages
    | 1 => some 0x100000
    | 3 => some 0x200000
    | 4 => some 0x300000
    | _ => none
  allocCoherent _ := none
  mapSg _ := mapSg

def threeBlocksIcm (groups : List (Nat × Nat)) : Icm where
  chunkList := [pciMapSg groups
    [⟨0x100000, 0x20000, 0, 0⟩, ⟨0x200000, 0x10000, 0, 0⟩, ⟨0x300000, 0x10000, 0, 0⟩]]
  refcount := 1

def oneChunkTable (groups : List (Nat × Nat)) : IcmTable where
  icm c := if c = 0 then some (threeBlocksIcm groups) else none
  mapped c := c == 0

/-- No block is merged. -/
def separateGroups : List (Nat × Nat) := [(1, 0x4000000), (1, 0x5000000), (1, 0x6000000)]

/-- The first two blocks are merged. -/
def mergedGroups : List (Nat × Nat) := [(2, 0x4000000), (1, 0x5000000)]

theorem oneChunkTable_icm {groups : List (Nat × Nat)} {c : Nat} {icm : Icm}
    (h : (oneChunkTable groups).icm c = some icm) : c = 0 ∧ icm = threeBlocksIcm groups := by
  unfold oneChunkTable at h
  dsimp only at h
  split at h
  next hc => exact ⟨hc, (Option.some.inj h).symm⟩
  next => cases h

theorem separate_allocated : (oneChunkTable separateGroups).Allocated oneChunkMtt := by
  intro c icm hc
  obtain ⟨rfl, rfl⟩ := oneChunkTable_icm hc
  refine ⟨threeBlocks fun n => match n with
    | 3 => some ⟨separateGroups, by decide, by decide⟩
    | _ => none, 64, ?_⟩
  decide +kernel

theorem merged_allocated : (oneChunkTable mergedGroups).Allocated oneChunkMtt := by
  intro c icm hc
  obtain ⟨rfl, rfl⟩ := oneChunkTable_icm hc
  refine ⟨threeBlocks fun n => match n with
    | 3 => some ⟨mergedGroups, by decide, by decide⟩
    | _ => none, 64, ?_⟩
  decide +kernel

theorem threeBlocks_apart {groups : List (Nat × Nat)}
    (h : (threeBlocksIcm groups).cpuSegs =
    [(0x100000, 0x20000), (0x200000, 0x10000), (0x300000, 0x10000)]) :
    PagesApart (oneChunkTable groups) := by
  intro c k c' k' icm icm' page len page' len' hc hc' hk hk' hne
  obtain ⟨rfl, rfl⟩ := oneChunkTable_icm hc
  obtain ⟨rfl, rfl⟩ := oneChunkTable_icm hc'
  rw [h] at hk hk'
  have hlt := (List.getElem?_eq_some_iff.mp hk).1
  have hlt' := (List.getElem?_eq_some_iff.mp hk').1
  have hkk : k ≠ k' := fun he => hne (by rw [he])
  generalize hblocks : [(0x100000, 0x20000), (0x200000, 0x10000), (0x300000, 0x10000)] = blocks
    at hk hk' hlt hlt'
  have hall : ∀ i < blocks.length, ∀ j < blocks.length, i ≠ j →
      (blocks.getD i (0, 0)).1 + (blocks.getD i (0, 0)).2 ≤ (blocks.getD j (0, 0)).1 ∨
        (blocks.getD j (0, 0)).1 + (blocks.getD j (0, 0)).2 ≤ (blocks.getD i (0, 0)).1 := by
    subst hblocks
    decide
  have hget := hall k hlt k' hlt' hkk
  rwa [List.getD_eq_getElem?_getD, List.getD_eq_getElem?_getD, hk, hk'] at hget

theorem table_find_separate :
    oneChunkMtt.lowmem = true ∧ (oneChunkTable separateGroups).Allocated oneChunkMtt ∧
    PagesApart (oneChunkTable separateGroups) ∧
    ((FindRight oneChunkMtt (oneChunkTable separateGroups) ∧
        (oneChunkMtt.objSize = 8 → WriteRight oneChunkMtt (oneChunkTable separateGroups))) ↔
      ∀ c icm, (oneChunkTable separateGroups).icm c = some icm → InStep oneChunkMtt c icm) := by
  have hapart := @threeBlocks_apart separateGroups (by decide +kernel)
  exact ⟨rfl, separate_allocated, hapart, table_find_iff rfl separate_allocated hapart⟩

/-- The entries of the third block are looked up in the second one, and written there. -/
theorem merged_not_right :
    oneChunkMtt.lowmem = true ∧ (oneChunkTable mergedGroups).Allocated oneChunkMtt ∧
    PagesApart (oneChunkTable mergedGroups) ∧
    ¬ FindRight oneChunkMtt (oneChunkTable mergedGroups) ∧
    ¬ WriteRight oneChunkMtt (oneChunkTable mergedGroups) := by
  refine ⟨rfl, merged_allocated, threeBlocks_apart (by decide +kernel), fun hright => ?_,
    fun hright => ?_⟩
  · have hfind := congrArg Prod.fst
      (hright 24576 (by decide) (threeBlocksIcm mergedGroups) (by rfl))
    have hfound : (tableFind oneChunkMtt (oneChunkTable mergedGroups) 24576).1 = some 0x200000 := by
      decide +kernel
    have htrue : lookup (threeBlocksIcm mergedGroups).cpuSegs
        (24576 * oneChunkMtt.objSize % tableChunkSize) = some 0x300000 := by decide +kernel
    rw [hfound, htrue] at hfind
    cases hfind
  · have haddr : cpuAddr oneChunkMtt (oneChunkTable mergedGroups) 24576 = some 0x300000 := by
      decide +kernel
    obtain ⟨-, hwritten⟩ := hright (fun _ => 0) 24576 0 1 (fun _ => 0) (by decide) (fun k hk => by
      obtain rfl := Nat.lt_one_iff.mp hk
      exact congrArg Option.isSome haddr)
    obtain ⟨a, ha, hread⟩ := hwritten.stored 0 Nat.zero_lt_one
    obtain rfl := Option.some.inj (haddr.symm.trans ha)
    have hzero : BigEndian.read
      (writeMtt oneChunkMtt (oneChunkTable mergedGroups) (fun _ => 0) 24576 0 1
        fun _ => 0).1 0x300000 8 = 0 := by decide +kernel
    rw [hzero] at hread
    exact absurd hread (by decide)

end Mlx4
