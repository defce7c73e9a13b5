-- SUMMARY: `mlx4_table_find`: which addresses it finds for an object.
import OfaKernel.Mlx4.IcmAlloc

/-!
# Finding an object

`mlx4_table_find` walks a chunk list with the lengths that `pci_map_sg` wrote, for the DMA and
the CPU address alike.
-/

namespace Mlx4

open Segments

/-! ## Model -/

/-- The two loops of `mlx4_table_find` over all entries: the CPU address, and what was stored at
`dma_handle`. -/
def findLoop : List Sg → Nat → Int → Option Nat → Option Nat × Option Nat
  | [], _, _, dma => (none, dma)
  | e :: es, offset, dmaOffset, dma =>
    let dma := if 0 ≤ dmaOffset ∧ dmaOffset < e.dmaLength then
      some (e.dmaAddress + dmaOffset.toNat) else dma
    let dmaOffset := if 0 ≤ dmaOffset then dmaOffset - e.dmaLength else dmaOffset
    if e.dmaLength > offset then (some (e.page + offset), dma)
    else findLoop es (offset - e.dmaLength) dmaOffset dma

def Icm.entries (icm : Icm) : List Sg := icm.chunkList.flatMap IcmChunk.entries

def tableFind (p : IcmShape) (t : IcmTable) (obj : Nat) : Option Nat × Option Nat :=
  if !p.lowmem then (none, none)
  else
    let idx := (obj &&& (p.numObj - 1)) * p.objSize
    match t.icm (idx / tableChunkSize) with
    | none => (none, none)
    | some icm =>
      let offset := idx % tableChunkSize
      findLoop icm.entries offset offset none

/-! ## The right addresses -/

namespace Icm

/-- The blocks of pages, one after another. -/
def cpuSegs (icm : Icm) : List (Nat × Nat) := icm.chunkList.flatMap IcmChunk.cpuSegs

/-- What the device is given, one segment after another. -/
def dmaSegs (icm : Icm) : List (Nat × Nat) := icm.chunkList.flatMap IcmChunk.dmaSegs

/-- The blocks with the lengths of the merged segments. -/
def foundSegs (icm : Icm) : List (Nat × Nat) := icm.entries.map fun e => (e.page, e.dmaLength)

def Built (icm : Icm) : Prop := ∀ c ∈ icm.chunkList, c.Built

end Icm

/-- The chunks of the table come from `mlx4_alloc_icm`. -/
def IcmTable.Allocated (p : IcmShape) (t : IcmTable) : Prop :=
  ∀ c icm, t.icm c = some icm → ∃ env npages, allocIcm env npages p.coherent = some icm.chunkList

/-- For every object of a chunk that is there, both addresses are those of its bytes. -/
def FindRight (p : IcmShape) (t : IcmTable) : Prop :=
  ∀ obj < p.numObj, ∀ icm, t.icm (obj * p.objSize / tableChunkSize) = some icm →
    tableFind p t obj =
      (lookup icm.cpuSegs (obj * p.objSize % tableChunkSize),
        lookup icm.dmaSegs (obj * p.objSize % tableChunkSize))

/-- Some object of chunk `c` begins in the `n` bytes from `start` on. -/
def ObjectBegins (p : IcmShape) (c start n : Nat) : Prop :=
  ∃ obj < p.numObj, obj * p.objSize / tableChunkSize = c ∧
    start ≤ obj * p.objSize % tableChunkSize ∧ obj * p.objSize % tableChunkSize < start + n

/-- Each block in which an object begins lies as far behind the block with the number of its group
as behind the beginning of the group. -/
def InStep (p : IcmShape) (c : Nat) (icm : Icm) : Prop :=
  ∀ k page len, icm.cpuSegs[k]? = some (page, len) →
    ObjectBegins p c (start (icm.cpuSegs.map Prod.snd) k) len →
      ∃ j first n d, icm.foundSegs[j]? = some (first, n) ∧ d < n ∧
        start (icm.cpuSegs.map Prod.snd) k = start (icm.foundSegs.map Prod.snd) j + d ∧
          first + d = page

/-- The walk finds the byte in the blocks by the lengths of the merged segments. -/
theorem findLoop_eq (es : List Sg) (offset : Nat) :
    findLoop es offset offset none =
      (lookup (es.map fun e => (e.page, e.dmaLength)) offset,
        lookup (es.map fun e => (e.dmaAddress, e.dmaLength)) offset) := by
  induction es generalizing offset with
  | nil => rfl
  | cons e es ih =>
    simp only [findLoop, List.map_cons, lookup]
    have hnonneg : (0 : Int) ≤ offset := Int.natCast_nonneg _
    by_cases hlt : offset < e.dmaLength
    · have hdma : (0 : Int) ≤ offset ∧ (offset : Int) < e.dmaLength :=
        ⟨hnonneg, Int.ofNat_lt.mpr hlt⟩
      rw [if_pos hlt, if_pos hlt, if_pos hlt, if_pos hdma, Int.toNat_natCast]
    · have hdma : ¬ ((0 : Int) ≤ offset ∧ (offset : Int) < e.dmaLength) :=
        fun h => hlt (Int.ofNat_lt.mp h.2)
      rw [if_neg hlt, if_neg hlt, if_neg hlt, if_neg hdma, if_pos hnonneg,
        ← Int.ofNat_sub (Nat.not_lt.mp hlt)]
      exact ih _

section

variable {p : IcmShape} {t : IcmTable}

theorem Icm.Built.of_allocated (h : t.Allocated p) {c : Nat} {icm : Icm} (hc : t.icm c = some icm) :
    icm.Built := by
  obtain ⟨env, npages, halloc⟩ := h c icm hc
  exact (allocIcm_built halloc).1

/-- The empty entries behind the merged ones change nothing for the device. -/
theorem lookup_dma {icm : Icm} (h : icm.Built) (offset : Nat) :
    lookup (icm.entries.map fun e => (e.dmaAddress, e.dmaLength)) offset =
      lookup icm.dmaSegs offset := by
  unfold Icm.entries Icm.dmaSegs
  unfold Icm.Built at h
  generalize icm.chunkList = chunks at h
  induction chunks generalizing offset with
  | nil => rfl
  | cons c chunks ih =>
    have hrest (off : Nat) := ih off fun c' hc' => h c' (List.mem_cons_of_mem _ hc')
    obtain ⟨rest, hzero, hentries⟩ := (h c List.mem_cons_self).dma
    rw [List.flatMap_cons, List.flatMap_cons, List.map_append, hentries, List.append_assoc,
      lookup_append_empty fun e he => by
        obtain ⟨e', he', rfl⟩ := List.mem_map.mp he
        exact hzero e' he',
      lookup_append, lookup_append c.dmaSegs, hrest]

/-- The merged lengths coarsen those of the blocks. -/
theorem Icm.Built.coarsens {icm : Icm} (h : icm.Built) :
    Coarsens (icm.foundSegs.map Prod.snd) (icm.cpuSegs.map Prod.snd) ∧
      (icm.foundSegs.map Prod.snd).sum = (icm.cpuSegs.map Prod.snd).sum := by
  unfold Icm.foundSegs Icm.cpuSegs Icm.entries
  unfold Icm.Built at h
  generalize icm.chunkList = chunks at h
  induction chunks with
  | nil => exact ⟨.refl [], rfl⟩
  | cons c chunks ih =>
    obtain ⟨hcoarse, hsum⟩ := ih fun c' hc' => h c' (List.mem_cons_of_mem _ hc')
    have hc := h c List.mem_cons_self
    have hfound : ((c.entries.map fun e => (e.page, e.dmaLength)).map Prod.snd) =
        c.entries.map Sg.dmaLength := by
      rw [List.map_map]
      rfl
    have hcpu : c.cpuSegs.map Prod.snd = c.entries.map Sg.length := by
      unfold IcmChunk.cpuSegs
      rw [List.map_map]
      rfl
    simp only [List.flatMap_cons, List.map_append, List.sum_append]
    rw [hfound, hcpu, hsum]
    exact ⟨hc.coarsens.append hcoarse hc.sum_eq, by rw [hc.sum_eq]; rfl⟩

theorem tableFind_eq (hlow : p.lowmem = true) (h : t.Allocated p) {obj : Nat}
    (hobj : obj < p.numObj)
    {icm : Icm} (hc : t.icm (obj * p.objSize / tableChunkSize) = some icm) :
    tableFind p t obj =
      (lookup icm.foundSegs (obj * p.objSize % tableChunkSize),
        lookup icm.dmaSegs (obj * p.objSize % tableChunkSize)) := by
  have hmask : obj &&& (p.numObj - 1) = obj := by
    obtain ⟨k, hk⟩ := p.numObj_pow
    rw [hk] at hobj ⊢
    rw [Nat.and_two_pow_sub_one_eq_mod, Nat.mod_eq_of_lt hobj]
  unfold tableFind
  simp only [hlow, Bool.not_true, Bool.false_eq_true, if_false]
  rw [hmask, hc]
  dsimp only
  rw [findLoop_eq, lookup_dma (.of_allocated h hc)]
  rfl

/-- The CPU address of a byte is right exactly if its block is where the walk takes it to be. -/
theorem lookup_found_iff {icm : Icm} (h : icm.Built) {k page len r : Nat}
    (hk : icm.cpuSegs[k]? = some (page, len)) (hr : r < len) :
    lookup icm.foundSegs (start (icm.cpuSegs.map Prod.snd) k + r) = some (page + r) ↔
      ∃ j first n d, icm.foundSegs[j]? = some (first, n) ∧ d < n ∧
        start (icm.cpuSegs.map Prod.snd) k = start (icm.foundSegs.map Prod.snd) j + d ∧
          first + d = page := by
  have hlen : (icm.cpuSegs.map Prod.snd)[k]? = some len := by rw [List.getElem?_map, hk]; rfl
  obtain ⟨j, n, d, hj, hstart, hle⟩ := h.coarsens.1 k len hlen
  rw [List.getElem?_map, Option.map_eq_some_iff] at hj
  obtain ⟨⟨first, n'⟩, hj, rfl⟩ := hj
  have hfound : lookup icm.foundSegs (start (icm.cpuSegs.map Prod.snd) k + r) =
    some (first + (d + r)) := by
    rw [hstart, Nat.add_assoc]
    exact lookup_start hj (by omega)
  rw [hfound, Option.some_inj]
  constructor
  · intro heq
    exact ⟨j, first, n', d, hj, by omega, hstart, by omega⟩
  · -- the block begins in one segment only
    rintro ⟨j', first', n'', d', hj', hd', hstart', rfl⟩
    have hzero := lookup_start hj (r := d) (by omega)
    rw [← hstart, hstart', lookup_start hj' hd', Option.some_inj] at hzero
    omega

/-- The addresses found in an allocated table are right exactly if every chunk is in step. -/
theorem findRight_iff (hlow : p.lowmem = true) (h : t.Allocated p) :
    FindRight p t ↔ ∀ c icm, t.icm c = some icm → InStep p c icm := by
  constructor
  · rintro hright c icm hc k page len hk ⟨obj, hobj, rfl, hlo, hhi⟩
    have hbuilt := Icm.Built.of_allocated h hc
    obtain ⟨r, hr⟩ := Nat.exists_eq_add_of_le hlo
    have hrlen : r < len := by omega
    have hfind := hright obj hobj icm hc
    rw [tableFind_eq hlow h hobj hc, hr, lookup_start hk hrlen] at hfind
    exact (lookup_found_iff hbuilt hk hrlen).mp (congrArg Prod.fst hfind)
  · intro hstep obj hobj icm hc
    have hbuilt := Icm.Built.of_allocated h hc
    rw [tableFind_eq hlow h hobj hc]
    refine congrArg (·, _) ?_
    rcases Nat.lt_or_ge (obj * p.objSize % tableChunkSize) (icm.cpuSegs.map Prod.snd).sum
      with hlt | hge
    · obtain ⟨k, len, r, hk, hr, hoff⟩ := exists_start hlt
      rw [List.getElem?_map, Option.map_eq_some_iff] at hk
      obtain ⟨⟨page, len'⟩, hk, rfl⟩ := hk
      have hbegins : ObjectBegins p (obj * p.objSize / tableChunkSize)
          (start (icm.cpuSegs.map Prod.snd) k) len' := ⟨obj, hobj, rfl, by omega, by omega⟩
      rw [hoff, lookup_start hk hr]
      exact (lookup_found_iff hbuilt hk hr).mpr (hstep _ _ hc k page len' hk hbegins)
    · rw [lookup_eq_none hge, lookup_eq_none (by rw [hbuilt.coarsens.2]; exact hge)]

end

end Mlx4
