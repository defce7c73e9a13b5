-- SUMMARY: `mlx4_alloc_icm`: chunk lists for any merging by `pci_map_sg`.
import OfaKernel.Lib.Segments
import OfaKernel.Mlx4.Icm

/-!
# Allocation of context memory

`mlx4_alloc_icm` collects blocks of pages, the largest ones first, in chunks of a few entries.
`pci_map_sg` may merge neighbours: then the first `nsg` entries carry the addresses for the
device, the others none.
-/

open List

namespace Mlx4

open Segments

/-! ## Model -/

def icmHostPageSize : Nat := 4096

/-- `MLX4_ICM_CHUNK_LEN` on 64 bits: two list pointers, two `int`s, and 32 bytes for an entry. -/
def icmChunkLen : Nat := (256 - 16 - 2 * 4) / 32

/-- How `pci_map_sg` groups `n` entries: the number of entries of each group and its DMA address. -/
structure Merging (n : Nat) where
  groups : List (Nat × Nat)
  pos : ∀ g ∈ groups, 0 < g.1
  sum_eq : (groups.map Prod.fst).sum = n

/-- The DMA addresses and lengths of the groups. -/
def mergedSegs : List (Nat × Nat) → List Nat → List (Nat × Nat)
  | [], _ => []
  | (count, dma) :: groups, lens =>
    (dma, (lens.take count).sum) :: mergedSegs groups (lens.drop count)

/-- The first entries take the DMA addresses and lengths. -/
def setDma : List (Nat × Nat) → List Sg → List Sg
  | (dma, len) :: segs, e :: es => { e with dmaAddress := dma, dmaLength := len } :: setDma segs es
  | _, es => es

def pciMapSg (groups : List (Nat × Nat)) (sg : List Sg) : IcmChunk :=
  .sg (setDma (mergedSegs groups (sg.map Sg.length)) sg) groups.length

/-- The outcomes of one `mlx4_alloc_icm`. -/
structure AllocIcmEnv where
  icm : Bool
  /-- `kzalloc` of the chunk with this number. -/
  newChunk : Nat → Bool
  /-- The address of the pages that an attempt brings. -/
  allocPages : Nat → Option Nat
  /-- The address and the DMA address that an attempt brings. -/
  allocCoherent : Nat → Option (Nat × Nat)
  /-- The mapping of the chunk with this number. -/
  mapSg : Nat → (n : Nat) → Option (Merging n)

def IcmChunk.npages : IcmChunk → Nat
  | .sg es _ => es.length
  | .buf bufs => bufs.length

/-- A new chunk after `kzalloc`. -/
def IcmChunk.empty (coherent : Bool) : IcmChunk := if coherent then .buf [] else .sg [] 0

/-- `mlx4_alloc_icm_pages` or `mlx4_alloc_icm_coherent`, which refuses an address inside a page. -/
def addPages (env : AllocIcmEnv) (attempt order : Nat) : IcmChunk → Option IcmChunk
  | .sg sg nsg =>
    (env.allocPages attempt).map fun page =>
      .sg (sg ++ [⟨page, icmHostPageSize <<< order, 0, 0⟩]) nsg
  | .buf buf =>
    match env.allocCoherent attempt with
    | none => none
    | some (addr, dmaAddr) =>
      if addr % icmHostPageSize ≠ 0 then none
      else some (.buf (buf ++ [⟨addr, icmHostPageSize <<< order, dmaAddr⟩]))

def mapChunk (env : AllocIcmEnv) (number : Nat) : IcmChunk → Option IcmChunk
  | .sg sg _ => (env.mapSg number sg.length).map fun m => pciMapSg m.groups sg
  | .buf buf => some (.buf buf)

/-- `while (1 << cur_order > npages) --cur_order;` -/
def fitOrder (npages : Nat) : Nat → Nat
  | 0 => 0
  | order + 1 => if 2 ^ (order + 1) > npages then fitOrder npages order else order + 1

/-- The loop of `mlx4_alloc_icm`: the chunks that are done, and the one with room. -/
def allocIcmLoop (env : AllocIcmEnv) (coherent : Bool) :
    Nat → List IcmChunk → Option IcmChunk → Nat → Nat → Nat → Option (List IcmChunk)
  | 0, _, _, _, _, _ => none
  | fuel + 1, done, cur, npages, order, attempt =>
    if npages = 0 then
      match cur with
      | none => some done
      | some chunk => (mapChunk env done.length chunk).map fun chunk => done ++ [chunk]
    else
      let new := if env.newChunk done.length then some (IcmChunk.empty coherent) else none
      match cur.or new with
      | none => none
      | some chunk =>
        let order := fitOrder npages order
        match addPages env attempt order chunk with
        | none =>
          if order = 0 then none
          else allocIcmLoop env coherent fuel done (some chunk) npages (order - 1) (attempt + 1)
        | some chunk =>
          if chunk.npages = icmChunkLen then
            match mapChunk env done.length chunk with
            | none => none
            | some chunk =>
              allocIcmLoop env coherent fuel (done ++ [chunk]) none (npages - 2 ^ order) order
                (attempt + 1)
          else
            allocIcmLoop env coherent fuel done (some chunk) (npages - 2 ^ order)
              order (attempt + 1)

def icmAllocOrder : Nat := 6

/-- `mlx4_alloc_icm`: the chunk list. -/
def allocIcm (env : AllocIcmEnv) (npages : Nat) (coherent : Bool) : Option (List IcmChunk) :=
  if !env.icm then none
  else allocIcmLoop env coherent (npages + icmAllocOrder + 1) [] none npages icmAllocOrder 0

theorem fitOrder_le (npages order : Nat) : fitOrder npages order ≤ order := by
  induction order with
  | zero => exact Nat.le_refl 0
  | succ order ih =>
    unfold fitOrder
    split
    next => exact ih.trans (Nat.le_succ _)
    next => exact Nat.le_refl _

variable {npages : Nat}

theorem two_pow_fitOrder (h : npages ≠ 0) (order : Nat) :
    2 ^ fitOrder npages order ≤ npages := by
  induction order with
  | zero => exact Nat.one_le_iff_ne_zero.mpr h
  | succ order ih =>
    unfold fitOrder
    split
    next => exact ih
    next hle => exact Nat.not_lt.mp hle

variable {order attempt : Nat}

/-- The loop ends: each turn lowers the pages or the order, and more fuel changes nothing. -/
theorem allocIcmLoop_fuel (env : AllocIcmEnv) (coherent : Bool) {fuel : Nat} {done : List IcmChunk}
    {cur : Option IcmChunk} (hfuel : npages + order < fuel) :
    allocIcmLoop env coherent (fuel + 1) done cur npages order attempt =
      allocIcmLoop env coherent fuel done cur npages order attempt := by
  induction fuel generalizing done cur npages order attempt with
  | zero => exact absurd hfuel (Nat.not_lt_zero _)
  | succ fuel ih =>
    unfold allocIcmLoop
    by_cases hn : npages = 0
    · rw [if_pos hn, if_pos hn]
    · rw [if_neg hn, if_neg hn]
      have hle := fitOrder_le npages order
      have hpos := Nat.two_pow_pos (fitOrder npages order)
      dsimp only
      cases cur.or (if env.newChunk done.length then some (IcmChunk.empty coherent) else none) with
      | none => rfl
      | some chunk =>
        dsimp only
        cases addPages env attempt (fitOrder npages order) chunk with
        | none =>
          by_cases ho : fitOrder npages order = 0
          · rw [if_pos ho, if_pos ho]
          · rw [if_neg ho, if_neg ho]
            exact ih (by omega)
        | some chunk =>
          refine if_congr Iff.rfl ?_ (ih (by omega))
          cases mapChunk env done.length chunk with
          | none => rfl
          | some chunk => exact ih (by omega)

/-! ## The chunks that are built -/

namespace IcmChunk

/-- The entries as `mlx4_table_find` reads them. -/
def entries : IcmChunk → List Sg
  | .sg es _ => es
  | .buf bufs => bufs.map fun b => ⟨b.addr, b.size, b.dmaAddr, b.size⟩

/-- The segments that the device is given: the first `nsg` entries. -/
def dmaSegs : IcmChunk → List (Nat × Nat)
  | .sg es nsg => (es.take nsg).map fun e => (e.dmaAddress, e.dmaLength)
  | .buf bufs => bufs.map fun b => (b.dmaAddr, b.size)

/-- The segments of CPU memory. -/
def cpuSegs (c : IcmChunk) : List (Nat × Nat) := c.entries.map fun e => (e.page, e.length)

def size (c : IcmChunk) : Nat := (c.entries.map Sg.length).sum

/-- A chunk with its mapping. -/
structure Built (c : IcmChunk) : Prop where
  pages : ∀ e ∈ c.entries, 0 < e.length ∧ icmHostPageSize ∣ e.length
  coarsens : Coarsens (c.entries.map Sg.dmaLength) (c.entries.map Sg.length)
  sum_eq : (c.entries.map Sg.dmaLength).sum = c.size
  /-- The entries behind the first `nsg` are empty for the device. -/
  dma : ∃ rest : List Sg, (∀ e ∈ rest, e.dmaLength = 0) ∧
    c.entries.map (fun e => (e.dmaAddress, e.dmaLength)) =
      c.dmaSegs ++ rest.map fun e => (e.dmaAddress, e.dmaLength)

/-- A chunk before its mapping. -/
structure Raw (c : IcmChunk) : Prop where
  pages : ∀ e ∈ c.entries, 0 < e.length ∧ icmHostPageSize ∣ e.length
  unmapped : ∀ es nsg, c = .sg es nsg → ∀ e ∈ es, e.dmaLength = 0

end IcmChunk

theorem length_mergedSegs (groups : List (Nat × Nat)) (lens : List Nat) :
    (mergedSegs groups lens).length = groups.length := by
  induction groups generalizing lens with
  | nil => rfl
  | cons g groups ih => exact congrArg Nat.succ (ih _)

/-- Merging keeps the number of bytes and splits no entry. -/
theorem mergedSegs_coarsens {groups : List (Nat × Nat)} {lens : List Nat}
    (h : (groups.map Prod.fst).sum = lens.length) :
    Coarsens ((mergedSegs groups lens).map Prod.snd) lens ∧
      ((mergedSegs groups lens).map Prod.snd).sum = lens.sum := by
  induction groups generalizing lens with
  | nil =>
    obtain rfl := eq_nil_of_length_eq_zero h.symm
    exact ⟨.refl [], rfl⟩
  | cons g groups ih =>
    obtain ⟨count, dma⟩ := g
    rw [map_cons, sum_cons] at h
    obtain ⟨hcoarse, hsum⟩ := @ih (lens.drop count) (by rw [length_drop]; omega)
    refine ⟨hcoarse.group, ?_⟩
    unfold mergedSegs
    rw [map_cons, sum_cons, hsum, ← sum_append, take_append_drop]

/-- The groups are at most as many as the entries. -/
theorem Merging.length_le {n : Nat} (m : Merging n) : m.groups.length ≤ n := by
  have hle : ∀ groups : List (Nat × Nat), (∀ g ∈ groups, 0 < g.1) →
      groups.length ≤ (groups.map Prod.fst).sum := by
    intro groups hpos
    induction groups with
    | nil => exact Nat.le_refl 0
    | cons g groups ih =>
      have hg := hpos g mem_cons_self
      have hrest := ih fun g' hg' => hpos g' (mem_cons_of_mem _ hg')
      rw [map_cons, sum_cons, length_cons]
      omega
  exact (hle m.groups m.pos).trans_eq m.sum_eq

section

variable {segs : List (Nat × Nat)} {sg : List Sg}

theorem setDma_eq (h : segs.length ≤ sg.length) :
    (setDma segs sg).map (fun e => (e.page, e.length)) = sg.map (fun e => (e.page, e.length)) ∧
      (setDma segs sg).map (fun e => (e.dmaAddress, e.dmaLength)) =
        segs ++ (sg.drop segs.length).map fun e => (e.dmaAddress, e.dmaLength) := by
  induction segs generalizing sg with
  | nil =>
    exact ⟨rfl, rfl⟩
  | cons d segs ih =>
    cases sg with
    | nil => exact absurd h (Nat.not_succ_le_zero _)
    | cons e sg =>
      obtain ⟨hcpu, hdma⟩ := @ih sg (Nat.le_of_succ_le_succ h)
      exact ⟨congrArg (_ :: ·) hcpu, congrArg (_ :: ·) hdma⟩

end

theorem pciMapSg_built {sg : List Sg} (hpages : ∀ e ∈ sg, 0 < e.length ∧ icmHostPageSize ∣ e.length)
    (hraw : ∀ e ∈ sg, e.dmaLength = 0) (m : Merging sg.length) :
    (pciMapSg m.groups sg).Built ∧ (pciMapSg m.groups sg).size = (sg.map Sg.length).sum := by
  have hle : (mergedSegs m.groups (sg.map Sg.length)).length ≤ sg.length := by
    rw [length_mergedSegs]
    exact m.length_le
  obtain ⟨hcpu, hdma⟩ := setDma_eq hle
  obtain ⟨hcoarse, hsum⟩ := @mergedSegs_coarsens m.groups (sg.map Sg.length)
    (by rw [m.sum_eq, length_map])
  rw [length_mergedSegs] at hdma
  have hentries : (pciMapSg m.groups sg).entries =
      setDma (mergedSegs m.groups (sg.map Sg.length)) sg := rfl
  have hlens : (pciMapSg m.groups sg).entries.map Sg.length = sg.map Sg.length := by
    have h := congrArg (List.map Prod.snd) hcpu
    rwa [map_map, map_map] at h
  -- behind the groups the lengths are still zero
  have hdlens : (pciMapSg m.groups sg).entries.map Sg.dmaLength =
      (mergedSegs m.groups (sg.map Sg.length)).map Prod.snd ++
        (sg.drop m.groups.length).map Sg.dmaLength := by
    have h := congrArg (List.map Prod.snd) hdma
    rwa [map_append, map_map, map_map] at h
  have hzero : ((sg.drop m.groups.length).map Sg.dmaLength).sum = 0 := by
    refine sum_eq_zero fun n hn => ?_
    obtain ⟨e, he, rfl⟩ := mem_map.mp hn
    exact hraw e (mem_of_mem_drop he)
  refine ⟨⟨fun e he => ?_, ?_, ?_, sg.drop m.groups.length, ?_, ?_⟩, congrArg List.sum hlens⟩
  · have hmem : e.length ∈ (pciMapSg m.groups sg).entries.map Sg.length := mem_map_of_mem he
    rw [hlens] at hmem
    obtain ⟨e', he', hlen⟩ := mem_map.mp hmem
    rw [← hlen]
    exact hpages e' he'
  · rw [hdlens, hlens]
    exact hcoarse.append_left _
  · unfold IcmChunk.size
    rw [hdlens, hlens, sum_append, hsum, hzero, Nat.add_zero]
  · exact fun e he => hraw e (mem_of_mem_drop he)
  · rw [hentries, hdma]
    -- the first entries are the groups
    unfold IcmChunk.dmaSegs pciMapSg
    dsimp only
    rw [map_take, hdma, take_left']
    rw [length_mergedSegs]

theorem buf_built {bufs : List IcmBuf}
    (hpages : ∀ b ∈ bufs, 0 < b.size ∧ icmHostPageSize ∣ b.size) : (IcmChunk.buf bufs).Built := by
  have hlens : (IcmChunk.buf bufs).entries.map Sg.dmaLength =
      (IcmChunk.buf bufs).entries.map Sg.length := by
    unfold IcmChunk.entries
    rw [map_map, map_map]
    rfl
  refine ⟨fun e he => ?_, ?_, congrArg List.sum hlens, [], nofun, ?_⟩
  · obtain ⟨b, hb, rfl⟩ := mem_map.mp he
    exact hpages b hb
  · rw [hlens]
    exact .refl _
  · unfold IcmChunk.entries IcmChunk.dmaSegs
    rw [map_map, map_nil, append_nil]
    rfl

variable {env : AllocIcmEnv}

theorem addPages_raw {c c' : IcmChunk} (h : c.Raw) (hadd : addPages env attempt order c = some c') :
    c'.Raw ∧ c'.size = c.size + icmHostPageSize * 2 ^ order := by
  have hlen : icmHostPageSize <<< order = icmHostPageSize * 2 ^ order := Nat.shiftLeft_eq _ _
  have hpos : 0 < icmHostPageSize * 2 ^ order := Nat.mul_pos (by decide) (Nat.two_pow_pos _)
  have hdvd : icmHostPageSize ∣ icmHostPageSize * 2 ^ order := Nat.dvd_mul_right _ _
  cases c with
  | sg es nsg =>
    obtain ⟨page, -, rfl⟩ := Option.map_eq_some_iff.mp hadd
    refine ⟨⟨fun e he => ?_, fun es' nsg' heq e he => ?_⟩, ?_⟩
    · rcases mem_append.mp he with he | he
      · exact h.pages e he
      · obtain rfl := mem_singleton.mp he
        exact ⟨hlen ▸ hpos, hlen ▸ hdvd⟩
    · cases heq
      rcases mem_append.mp he with he | he
      · exact h.unmapped es nsg rfl e he
      · obtain rfl := mem_singleton.mp he
        rfl
    · simp [IcmChunk.size, IcmChunk.entries, hlen]
  | buf bufs =>
    unfold addPages at hadd
    dsimp only at hadd
    split at hadd
    next => cases hadd
    next addr dmaAddr _ =>
      split at hadd
      next => cases hadd
      next =>
        cases hadd
        refine ⟨⟨fun e he => ?_, nofun⟩, ?_⟩
        · obtain ⟨b, hb, rfl⟩ := mem_map.mp he
          rcases mem_append.mp hb with hb | hb
          · exact h.pages _ (mem_map_of_mem hb)
          · obtain rfl := mem_singleton.mp hb
            exact ⟨hlen ▸ hpos, hlen ▸ hdvd⟩
        · simp [IcmChunk.size, IcmChunk.entries, hlen]

theorem mapChunk_built {number : Nat} {c c' : IcmChunk} (h : c.Raw)
    (hmap : mapChunk env number c = some c') : c'.Built ∧ c'.size = c.size := by
  cases c with
  | sg es nsg =>
    obtain ⟨m, -, rfl⟩ := Option.map_eq_some_iff.mp hmap
    exact pciMapSg_built h.pages (h.unmapped es nsg rfl) m
  | buf bufs =>
    obtain rfl := Option.some.inj hmap
    exact ⟨buf_built fun b hb => h.pages _ (mem_map_of_mem hb), rfl⟩

/-- The bytes of a chunk list. -/
def icmSize (chunks : List IcmChunk) : Nat := (chunks.map IcmChunk.size).sum

theorem allocIcmLoop_built {coherent : Bool} {fuel : Nat} {done : List IcmChunk}
    {cur : Option IcmChunk} (hdone : ∀ c ∈ done, c.Built) (hcur : ∀ c ∈ cur, c.Raw)
    {chunks : List IcmChunk}
    (h : allocIcmLoop env coherent fuel done cur npages order attempt = some chunks) :
    (∀ c ∈ chunks, c.Built) ∧
      icmSize chunks = icmSize done + (cur.map IcmChunk.size).getD 0 + icmHostPageSize
        * npages := by
  induction fuel generalizing done cur npages order attempt with
  | zero => cases h
  | succ fuel ih =>
    have hsnoc {c : IcmChunk} (hc : c.Built) : ∀ c' ∈ done ++ [c], c'.Built := by
      intro c' hc'
      rcases mem_append.mp hc' with hc' | hc'
      · exact hdone c' hc'
      · obtain rfl := mem_singleton.mp hc'
        exact hc
    have hsize (c : IcmChunk) : icmSize (done ++ [c]) = icmSize done + c.size := by
      simp [icmSize]
    unfold allocIcmLoop at h
    by_cases hn : npages = 0
    · subst hn
      cases cur with
      | none =>
        obtain rfl := Option.some.inj h
        exact ⟨hdone, rfl⟩
      | some chunk =>
        obtain ⟨c, hmap, rfl⟩ := Option.map_eq_some_iff.mp h
        obtain ⟨hbuilt, heq⟩ := mapChunk_built (hcur chunk rfl) hmap
        refine ⟨hsnoc hbuilt, ?_⟩
        rw [hsize, heq]
        rfl
    · rw [if_neg hn] at h
      have hpow := two_pow_fitOrder hn order
      generalize fitOrder npages order = o at hpow h
      have hpages : icmHostPageSize * 2 ^ o + icmHostPageSize * (npages - 2 ^ o) =
          icmHostPageSize * npages := by
        rw [← Nat.mul_add, Nat.add_sub_cancel' hpow]
      dsimp only at h
      split at h
      next => cases h
      next chunk hchunk =>
        -- the chunk with room, new or not
        obtain ⟨hraw, hsz⟩ : chunk.Raw ∧ chunk.size = (cur.map IcmChunk.size).getD 0 := by
          cases cur with
          | some c =>
            obtain rfl := Option.some.inj hchunk
            exact ⟨hcur c rfl, rfl⟩
          | none =>
            split at hchunk
            next =>
              obtain rfl := Option.some.inj hchunk
              cases coherent with
              | true => exact ⟨⟨nofun, nofun⟩, rfl⟩
              | false => exact ⟨⟨nofun, fun es nsg he => by cases he; nofun⟩, rfl⟩
            next => cases hchunk
        rw [← hsz]
        split at h
        next =>
          split at h
          next => cases h
          next => exact ih hdone (fun c hc => by cases hc; exact hraw) h
        next chunk' hadd =>
          obtain ⟨hraw', hsz'⟩ := addPages_raw hraw hadd
          split at h
          next =>
            split at h
            next => cases h
            next c hmap =>
              obtain ⟨hbuilt, heq⟩ := mapChunk_built hraw' hmap
              obtain ⟨hall, htotal⟩ := ih (hsnoc hbuilt)
                (fun _ hc => absurd hc (Option.not_mem_none _)) h
              refine ⟨hall, ?_⟩
              rw [htotal, hsize, heq, hsz', ← hpages]
              simp only [Option.map_none, Option.getD_none]
              omega
          next =>
            obtain ⟨hall, htotal⟩ := ih hdone (fun c hc => by cases hc; exact hraw') h
            refine ⟨hall, ?_⟩
            rw [htotal, ← hpages]
            simp only [Option.map_some, Option.getD_some]
            omega

/-- Every chunk is mapped, and together they have the pages that were asked for. -/
theorem allocIcm_built {coherent : Bool} {chunks : List IcmChunk}
    (h : allocIcm env npages coherent = some chunks) :
    (∀ c ∈ chunks, c.Built) ∧ icmSize chunks = icmHostPageSize * npages := by
  unfold allocIcm at h
  split at h
  next => cases h
  next =>
    obtain ⟨hall, hsize⟩ := allocIcmLoop_built (fun _ hc => absurd hc not_mem_nil)
      (fun _ hc => absurd hc (Option.not_mem_none _)) h
    refine ⟨hall, hsize.trans ?_⟩
    exact Nat.zero_add _

end Mlx4
