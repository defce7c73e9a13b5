-- SUMMARY: Ranges of MTT entries in mlx4 (`mr.c`).
import Mathlib.Data.Nat.Log
import OfaKernel.Mlx4.Buddy
import OfaKernel.Mlx4.Icm

/-!
# Ranges of MTT entries

`__mlx4_alloc_mtt_range` takes a block of segments from the buddy allocator and a reference on
each ICM chunk with an entry of the range. A segment is `1 << log_mtts_per_seg` entries.
-/

open List

namespace Mlx4

/-! ## Model -/

/-- The ICM table of the MTT entries, with `log_mtts_per_seg`. There is at least one segment, and
the reserved entries are inside the table and few. -/
structure MttShape extends IcmShape where
  logMttsPerSeg : Nat
  reserved : Nat
  log_le : logMttsPerSeg ≤ 7
  seg_le : 2 ^ logMttsPerSeg ≤ numObj
  reserved_le : reserved ≤ numObj
  reserved_lt : reserved * objSize < 2 ^ 31

/-- The state of `mlx4_mr_table` that ranges change. -/
structure MttTables where
  buddy : Buddy
  table : IcmTable

namespace MttShape

/-- `max_t(int, order - log_mtts_per_seg, 0)`. -/
def segOrder (p : MttShape) (order : Nat) : Nat := order - p.logMttsPerSeg

/-- `offset + (1 << order) - 1`. -/
def lastEntry (offset order : Nat) : Nat := U32.dec (U32.wrap (offset + 2 ^ order))

/-- The order that `mlx4_init_mr_table` gives to `mlx4_buddy_init`. -/
def buddyOrder (p : MttShape) : Nat := Nat.log2 (p.numObj / 2 ^ p.logMttsPerSeg)

end MttShape

open MttShape

/-- `__mlx4_alloc_mtt_range`; `none` is a fault or a loop without end. -/
def allocMttRange (p : MttShape) (env : IcmEnv) (s : MttTables) (order : Nat) :
    Option (MttTables × Nat) :=
  let r := buddyAlloc s.buddy (p.segOrder order)
  if r.2 = U32.allOnes then some ({ s with buddy := r.1 }, U32.allOnes)
  else
    let offset := U32.wrap (r.2 * 2 ^ p.logMttsPerSeg)
    match tableGetRange p.toIcmShape env s.table offset (lastEntry offset order) with
    | none => none
    | some (table, true) => some ({ buddy := r.1, table := table }, offset)
    | some (table, false) =>
      (buddyFree r.1 r.2 (p.segOrder order)).map fun buddy =>
        ({ buddy := buddy, table := table }, U32.allOnes)

/-- `__mlx4_free_mtt_range`; `none` is a fault or a loop without end. -/
def freeMttRange (p : MttShape) (s : MttTables) (offset order : Nat) : Option MttTables :=
  let firstSeg := offset / 2 ^ p.logMttsPerSeg
  match buddyFree s.buddy firstSeg (p.segOrder order) with
  | none => none
  | some buddy =>
    (tablePutRange p.toIcmShape s.table offset (lastEntry offset order)).map fun table =>
      { buddy := buddy, table := table }

/-! ## Runs -/

/-- The tables with the live ranges, as pairs of offset and order. -/
structure MttRun where
  tables : MttTables
  live : List (Nat × Nat)

inductive MttCall where
  | alloc (env : IcmEnv) (order : Nat)
  | free (offset order : Nat)

namespace MttRun

def step (p : MttShape) (st : MttRun) : MttCall → MttRun
  | .alloc env order =>
    match allocMttRange p env st.tables order with
    | none => st
    | some (tables, offset) =>
      { tables := tables
        live := if offset = U32.allOnes then st.live else (offset, order) :: st.live }
  | .free offset order =>
    match freeMttRange p st.tables offset order with
    | none => st
    | some tables => { tables := tables, live := st.live.erase (offset, order) }

/-- A free names a live range. -/
def Valid (st : MttRun) : MttCall → Prop
  | .alloc _ _ => True
  | .free offset order => (offset, order) ∈ st.live

instance (st : MttRun) : ∀ call, Decidable (st.Valid call)
  | .alloc _ _ => .isTrue trivial
  | .free offset order => inferInstanceAs (Decidable ((offset, order) ∈ st.live))

/-- `mlx4_init_icm_table` of the MTT table and `mlx4_buddy_init`. -/
def init (p : MttShape) (env : IcmEnv) (kvmalloc : Nat → Bool) : Option MttRun :=
  match initIcmTable p.toIcmShape env p.reserved with
  | none => none
  | some table =>
    (buddyInit kvmalloc p.buddyOrder).map fun buddy =>
      { tables := { buddy := buddy, table := table }, live := [] }

end MttRun

/-- The range has an entry in the chunk. -/
def Meets (p : MttShape) (c : Nat) (r : Nat × Nat) : Prop :=
  r.1 < (c + 1) * p.objPerChunk ∧ c * p.objPerChunk < r.1 + 2 ^ r.2

instance (p : MttShape) (c : Nat) (r : Nat × Nat) : Decidable (Meets p c r) :=
  inferInstanceAs (Decidable (_ ∧ _))

/-- The references and the mappings are those of the live ranges and of the reserved entries, and
the next call does nothing by halves. -/
structure RefsMatch (p : MttShape) (st : MttRun) : Prop where
  refcount : ∀ c, st.tables.table.refs c =
    st.live.countP (fun r => Meets p c r) + if p.Reserved p.reserved c then 1 else 0
  /-- The `int` does not overflow. -/
  refcount_le : ∀ c, st.tables.table.refs c ≤ p.objPerChunk + 1
  mapped : ∀ c, st.tables.table.mapped c = true ↔ 0 < st.tables.table.refs c
  present : ∀ c, st.tables.table.mapped c = (st.tables.table.icm c).isSome
  /-- Every entry of a live range lies in a mapped chunk. -/
  entries : ∀ r ∈ st.live, ∀ x, r.1 ≤ x → x < r.1 + 2 ^ r.2 →
    x < p.numObj ∧ st.tables.table.mapped (p.chunkIndex x) = true
  /-- A range is given out, or -1 is returned and nothing has changed. -/
  alloc : ∀ env order, ∃ s offset, allocMttRange p env st.tables order = some (s, offset) ∧
    (offset = U32.allOnes → s = st.tables)
  free : ∀ r ∈ st.live, ∃ s, freeMttRange p st.tables r.1 r.2 = some s

namespace MttShape

variable (p : MttShape)

theorem numObj_eq : p.numObj = 2 ^ (p.buddyOrder + p.logMttsPerSeg) := by
  obtain ⟨k, hk⟩ := p.numObj_pow
  have hle := p.seg_le
  rw [hk] at hle
  have hlog : p.logMttsPerSeg ≤ k := (Nat.pow_le_pow_iff_right Nat.one_lt_two).mp hle
  unfold buddyOrder
  rw [hk, Nat.pow_div hlog Nat.two_pos, Nat.log2_two_pow, Nat.sub_add_cancel hlog]

theorem numObj_le : p.numObj ≤ 2 ^ 31 := by
  obtain ⟨k, hk⟩ := p.numObj_pow
  have hlt := p.numObj_lt
  rw [hk] at hlt ⊢
  have hk32 : k < 32 := (Nat.pow_lt_pow_iff_right Nat.one_lt_two).mp hlt
  exact Nat.pow_le_pow_right Nat.two_pos (Nat.le_of_lt_succ hk32)

/-- A range fits into the segments of its block. -/
theorem two_pow_dvd_seg (order : Nat) :
    2 ^ order ∣ 2 ^ p.segOrder order * 2 ^ p.logMttsPerSeg := by
  rw [← Nat.pow_add]
  refine pow_dvd_pow 2 ?_
  unfold segOrder
  omega

/-- The range at the beginning of a block is aligned and inside the table. -/
theorem block_fits {order s : Nat} (ho : p.segOrder order ≤ p.buddyOrder)
    (hs : s < 2 ^ (p.buddyOrder - p.segOrder order)) :
    2 ^ order ∣ s * 2 ^ p.segOrder order * 2 ^ p.logMttsPerSeg ∧
      s * 2 ^ p.segOrder order * 2 ^ p.logMttsPerSeg + 2 ^ order ≤ p.numObj := by
  have hdvd := p.two_pow_dvd_seg order
  refine ⟨?_, ?_⟩
  · rw [Nat.mul_assoc]
    exact hdvd.mul_left s
  · have hle : 2 ^ order ≤ 2 ^ p.segOrder order * 2 ^ p.logMttsPerSeg :=
      Nat.le_of_dvd (Nat.mul_pos (Nat.two_pow_pos _) (Nat.two_pow_pos _)) hdvd
    calc s * 2 ^ p.segOrder order * 2 ^ p.logMttsPerSeg + 2 ^ order
        ≤ s * 2 ^ p.segOrder order * 2 ^ p.logMttsPerSeg +
            2 ^ p.segOrder order * 2 ^ p.logMttsPerSeg := Nat.add_le_add_left hle _
      _ = (s + 1) * (2 ^ p.segOrder order * 2 ^ p.logMttsPerSeg) := by
          rw [Nat.succ_mul, Nat.mul_assoc]
      _ ≤ 2 ^ (p.buddyOrder - p.segOrder order) * (2 ^ p.segOrder order * 2 ^ p.logMttsPerSeg) :=
          Nat.mul_le_mul_right _ hs
      _ = p.numObj := by
          rw [p.numObj_eq, ← Nat.pow_add, ← Nat.pow_add]
          congr 1
          omega

variable {p} {offset order : Nat}

theorem lastEntry_eq (h : offset + 2 ^ order ≤ p.numObj) :
    lastEntry offset order = offset + 2 ^ order - 1 := by
  have hpos := Nat.two_pow_pos order
  have hle := p.numObj_le
  unfold lastEntry
  rw [U32.wrap_of_lt (by omega), U32.dec_of_pos (by omega) (by omega)]

theorem strides_of_aligned (hdvd : 2 ^ order ∣ offset) (hle : offset + 2 ^ order ≤ p.numObj) :
    ∃ m, Strides p.toIcmShape offset (lastEntry offset order) m ∧
      ∀ c, inChunks (offset / p.objPerChunk) m c = if Meets p c (offset, order) then 1 else 0 := by
  obtain ⟨e, he, hinc⟩ := p.objPerChunk_pow
  have hpos := Nat.two_pow_pos order
  have hnum := p.numObj_le
  have hincpos := p.objPerChunk_pos
  have hsmall : offset + 2 ^ order - 1 + p.objPerChunk < 2 ^ 32 := by
    have : 2 ^ e ≤ 2 ^ 18 := Nat.pow_le_pow_right Nat.two_pos he
    omega
  rw [lastEntry_eq hle]
  rcases Nat.le_total order e with hoe | hoe
  · -- the range lies in one chunk
    have hshort : 2 ^ order ∣ p.objPerChunk := by
      rw [hinc]
      exact pow_dvd_pow 2 hoe
    refine ⟨1, ⟨fun k hk => ?_, ?_, by omega, hsmall⟩, fun c => if_congr ?_ rfl rfl⟩
    · obtain rfl := Nat.lt_one_iff.mp hk
      omega
    · have := Nat.le_of_dvd hincpos hshort
      omega
    · unfold Meets
      rw [Nat.succ_mul c]
      have hdiv : offset / p.objPerChunk = c ↔
          c * p.objPerChunk ≤ offset ∧ offset < c * p.objPerChunk + p.objPerChunk := by
        rw [Nat.div_eq_iff hincpos]
        omega
      -- both ends are multiples of the length
      have halign : c * p.objPerChunk < offset + 2 ^ order ↔ c * p.objPerChunk ≤ offset := by
        obtain ⟨a, ha⟩ := hdvd
        obtain ⟨b, hb⟩ := hshort.mul_left c
        rw [ha, hb, ← Nat.mul_succ, Nat.mul_lt_mul_left hpos, Nat.mul_le_mul_left_iff hpos,
          Nat.lt_succ_iff]
      rw [halign]
      constructor
      · intro h
        exact (hdiv.mp (by omega)).symm
      · omega
  · -- the range is made of whole chunks
    have hwhole : 2 ^ order = 2 ^ (order - e) * p.objPerChunk := by
      rw [hinc, ← Nat.pow_add, Nat.sub_add_cancel hoe]
    have hstart : offset = offset / p.objPerChunk * p.objPerChunk := by
      refine (Nat.div_mul_cancel (dvd_trans ?_ hdvd)).symm
      rw [hwhole]
      exact Nat.dvd_mul_left _ _
    refine ⟨2 ^ (order - e), ⟨fun k hk => ?_, by omega, by omega, hsmall⟩,
      fun c => if_congr ?_ rfl rfl⟩
    · have hstep : (k + 1) * p.objPerChunk ≤ 2 ^ (order - e) * p.objPerChunk :=
        Nat.mul_le_mul_right _ hk
      rw [Nat.succ_mul] at hstep
      omega
    · unfold Meets
      generalize offset / p.objPerChunk = first at hstart
      rw [hstart, hwhole, ← Nat.add_mul, Nat.mul_lt_mul_right hincpos, Nat.mul_lt_mul_right hincpos,
        Nat.lt_succ_iff]

end MttShape

/-! ## The invariant -/

/-- The block of segments of a range, as a pair of order and index. -/
def blockOf (p : MttShape) (r : Nat × Nat) : Nat × Nat :=
  (p.segOrder r.2, r.1 / 2 ^ p.logMttsPerSeg / 2 ^ p.segOrder r.2)

theorem blockOf_start (p : MttShape) (s order : Nat) :
    blockOf p (s * 2 ^ p.segOrder order * 2 ^ p.logMttsPerSeg, order) = (p.segOrder order, s) := by
  unfold blockOf
  rw [Nat.mul_div_cancel _ (Nat.two_pow_pos _), Nat.mul_div_cancel _ (Nat.two_pow_pos _)]

structure MttInv (p : MttShape) (st : MttRun) : Prop where
  held : st.tables.buddy.Held (st.live.map (blockOf p))
  maxOrder : st.tables.buddy.maxOrder = p.buddyOrder
  aligned : ∀ r ∈ st.live, r.1 = (blockOf p r).2 * 2 ^ p.segOrder r.2 * 2 ^ p.logMttsPerSeg
  table : st.tables.table.Ok
  refs : ∀ c, st.tables.table.refs c =
    st.live.countP (fun r => Meets p c r) + if p.Reserved p.reserved c then 1 else 0

namespace MttInv

variable {p : MttShape} {st : MttRun}

theorem fits (h : MttInv p st) {r : Nat × Nat} (hr : r ∈ st.live) :
    2 ^ r.2 ∣ r.1 ∧ r.1 + 2 ^ r.2 ≤ p.numObj := by
  obtain ⟨ho, hs⟩ := h.held.held_range _ (mem_map_of_mem hr)
  rw [h.maxOrder] at ho hs
  rw [h.aligned r hr]
  exact p.block_fits ho hs

/-- The buddy allocator has nothing, and the state stays; or the range is refused or taken, with
the block in hand. -/
theorem alloc (h : MttInv p st) (env : IcmEnv) (order : Nat) :
    allocMttRange p env st.tables order = some (st.tables, U32.allOnes) ∨
      ∃ tables offset, allocMttRange p env st.tables order = some (tables, offset) ∧
        offset ≠ U32.allOnes ∧ MttInv p
          { tables := tables, live := (offset, order) :: st.live } := by
  unfold allocMttRange
  rcases buddyAlloc_held h.held (p.segOrder order) with hnone | ⟨b, s, halloc, hne, hmax, hheld⟩
  · rw [hnone]
    exact .inl rfl
  have hback := @buddyFree_buddyAlloc _ _ (p.segOrder order) h.held (by rw [halloc]; exact hne)
  rw [halloc] at hback ⊢
  dsimp only at hback ⊢
  rw [if_neg hne]
  -- the range of the block
  obtain ⟨ho, hs⟩ := hheld.held_range (p.segOrder order, s) mem_cons_self
  rw [hmax, h.maxOrder] at ho hs
  obtain ⟨hdvd, hle⟩ := p.block_fits ho hs
  have hlt : s * 2 ^ p.segOrder order * 2 ^ p.logMttsPerSeg < 2 ^ 31 :=
    Nat.lt_of_lt_of_le (Nat.lt_of_lt_of_le (Nat.lt_add_of_pos_right (Nat.two_pow_pos order)) hle)
      p.numObj_le
  rw [U32.wrap_of_lt (hlt.trans (by decide))]
  obtain ⟨m, hstrides, hmeets⟩ := strides_of_aligned hdvd hle
  rcases tableGetRange_spec hstrides env h.table with hget | ⟨t, hget, hok, hrefs⟩
  · rw [hget]
    dsimp only
    rw [hback]
    exact .inl rfl
  · rw [hget]
    refine .inr ⟨_, _, rfl, ?_, ?_⟩
    · exact (hlt.trans (by decide)).ne
    · refine ⟨?_, hmax.trans h.maxOrder, fun r hr => ?_, hok, fun c => ?_⟩
      · rw [map_cons, blockOf_start]
        exact hheld
      · rcases mem_cons.mp hr with rfl | hr
        · rw [blockOf_start]
        · exact h.aligned r hr
      · rw [hrefs, h.refs, hmeets, countP_cons]
        simp only [decide_eq_true_eq]
        split_ifs <;> omega

theorem free (h : MttInv p st) {r : Nat × Nat} (hr : r ∈ st.live) :
    ∃ tables, freeMttRange p st.tables r.1 r.2 = some tables ∧
      MttInv p { tables := tables, live := st.live.erase r } := by
  have hperm := perm_cons_erase hr
  have halign := h.aligned r hr
  obtain ⟨hdvd, hle⟩ := h.fits hr
  obtain ⟨b, hfree, hmax, hheld⟩ := @buddyFree_held _ _ (p.segOrder r.2) ((blockOf p r).2)
    (h.held.perm (hperm.map (blockOf p)))
  obtain ⟨m, hstrides, hmeets⟩ := strides_of_aligned hdvd hle
  have hcount (c : Nat) : st.live.countP (fun r => Meets p c r) =
      (st.live.erase r).countP (fun r => Meets p c r) + if Meets p c r then 1 else 0 := by
    rw [hperm.countP_eq, countP_cons]
    simp
  obtain ⟨t, hput, hok, hrefs⟩ := tablePutRange_spec hstrides h.table fun c => by
    rw [hmeets, h.refs, hcount]
    split_ifs <;> omega
  have hseg : r.1 / 2 ^ p.logMttsPerSeg = (blockOf p r).2 * 2 ^ p.segOrder r.2 := by
    conv => lhs; rw [halign]
    exact Nat.mul_div_cancel _ (Nat.two_pow_pos _)
  refine ⟨{ buddy := b, table := t }, ?_, hheld, hmax.trans h.maxOrder,
    fun r' hr' => h.aligned r' (mem_of_mem_erase hr'), hok, fun c => ?_⟩
  · unfold freeMttRange
    dsimp only
    rw [hseg, hfree]
    rw [hput]
    rfl
  · rw [hrefs, h.refs, hmeets, hcount]
    dsimp only
    split_ifs <;> omega

theorem step (h : MttInv p st) (call : MttCall) (hv : st.Valid call) :
    MttInv p (st.step p call) := by
  cases call with
  | alloc env order =>
    dsimp only [MttRun.step]
    rcases h.alloc env order with halloc | ⟨tables, offset, halloc, hne, hinv⟩
    · rw [halloc]
      exact h
    · rw [halloc]
      dsimp only
      rw [if_neg hne]
      exact hinv
  | free offset order =>
    obtain ⟨tables, hfree, hinv⟩ := h.free (r := (offset, order)) hv
    dsimp only [MttRun.step] at hfree ⊢
    rw [hfree]
    exact hinv

theorem init {env : IcmEnv} {kvmalloc : Nat → Bool} (hinit : MttRun.init p env kvmalloc = some st) :
    MttInv p st := by
  unfold MttRun.init at hinit
  split at hinit
  next => cases hinit
  next table htable =>
    obtain ⟨b, hb, rfl⟩ := Option.map_eq_some_iff.mp hinit
    obtain ⟨hmax, hheld⟩ := buddyInit_held hb
    obtain ⟨hok, hrefs⟩ := initIcmTable_spec htable
    refine ⟨hheld, hmax, nofun, hok, fun c => ?_⟩
    rw [hrefs, countP_nil]
    exact (Int.zero_add _).symm

/-- A segment is in one live range at most. -/
theorem heldCover_le (h : MttInv p st) (x : Nat) :
    Buddy.heldCover (st.live.map (blockOf p)) x ≤ 1 := by
  rcases Nat.lt_or_ge x (2 ^ st.tables.buddy.maxOrder) with hlt | hge
  · have := h.held.cover x hlt
    omega
  · have hzero : Buddy.heldCover (st.live.map (blockOf p)) x = 0 := by
      refine countP_eq_zero.mpr fun q hq => ?_
      obtain ⟨ho, hs⟩ := h.held.held_range q hq
      rw [decide_eq_true_eq]
      intro hx
      exact absurd (Dyadic.lt_of_mem_block ho hs (Dyadic.mem_block.mpr hx)) (Nat.not_lt.mpr hge)
    exact hzero.trans_le (Nat.zero_le 1)

/-- A range that meets a chunk has one of the chunk's entries in its block. -/
theorem meets_entry {r : Nat × Nat} {c : Nat}
    (halign : r.1 = (blockOf p r).2 * 2 ^ p.segOrder r.2 * 2 ^ p.logMttsPerSeg) (hm : Meets p c r) :
    ∃ x < p.objPerChunk,
      (c * p.objPerChunk + x) / 2 ^ p.logMttsPerSeg / 2 ^ (blockOf p r).1 = (blockOf p r).2 := by
  obtain ⟨hlo, hhi⟩ := hm
  rw [Nat.succ_mul] at hlo
  have hpos := p.objPerChunk_pos
  refine ⟨max (c * p.objPerChunk) r.1 - c * p.objPerChunk, by omega, ?_⟩
  have hlen : 2 ^ r.2 ≤ 2 ^ p.logMttsPerSeg * 2 ^ p.segOrder r.2 := by
    rw [Nat.mul_comm]
    exact Nat.le_of_dvd (Nat.mul_pos (Nat.two_pow_pos _) (Nat.two_pow_pos _))
      (p.two_pow_dvd_seg r.2)
  have hstart : r.1 = (blockOf p r).2 * (2 ^ p.logMttsPerSeg * 2 ^ p.segOrder r.2) := by
    conv => lhs; rw [halign]
    rw [Nat.mul_assoc, Nat.mul_comm (2 ^ p.segOrder r.2)]
  have hposr := Nat.two_pow_pos r.2
  change _ / 2 ^ p.logMttsPerSeg / 2 ^ p.segOrder r.2 = _
  rw [Nat.div_div_eq_div_mul]
  refine Nat.div_eq_of_lt_le ?_ ?_
  · omega
  · rw [Nat.succ_mul, ← hstart]
    omega

/-- The live ranges that meet a chunk are at most as many as its entries. -/
theorem countP_meets_le (l : List (Nat × Nat)) (c : Nat)
    (halign : ∀ r ∈ l, r.1 = (blockOf p r).2 * 2 ^ p.segOrder r.2 * 2 ^ p.logMttsPerSeg) :
    l.countP (fun r => Meets p c r) ≤ ∑ x ∈ Finset.range p.objPerChunk,
      Buddy.heldCover (l.map (blockOf p)) ((c * p.objPerChunk + x) / 2 ^ p.logMttsPerSeg) := by
  induction l with
  | nil => exact Nat.zero_le _
  | cons r l ih =>
    have hrest := ih fun r' hr' => halign r' (mem_cons_of_mem _ hr')
    rw [countP_cons]
    simp only [map_cons, Buddy.heldCover_cons, Finset.sum_add_distrib, decide_eq_true_eq]
    refine Nat.add_le_add hrest ?_
    split
    next hm =>
      obtain ⟨x, hx, hentry⟩ := meets_entry (halign r mem_cons_self) hm
      refine le_trans ?_ (Finset.single_le_sum (fun _ _ => Nat.zero_le _) (Finset.mem_range.mpr hx))
      rw [if_pos hentry]
    next => exact Nat.zero_le _

theorem refcount_le (h : MttInv p st) (c : Nat) : st.tables.table.refs c ≤ p.objPerChunk + 1 := by
  have hcount := countP_meets_le (p := p) st.live c h.aligned
  have hsum : ∑ x ∈ Finset.range p.objPerChunk,
      Buddy.heldCover (st.live.map (blockOf p)) ((c * p.objPerChunk + x) / 2 ^ p.logMttsPerSeg) ≤
        p.objPerChunk := by
    refine le_trans (Finset.sum_le_card_nsmul _ _ 1 fun x _ => h.heldCover_le _) ?_
    simp
  rw [h.refs]
  split_ifs <;> omega

theorem entries (h : MttInv p st) {r : Nat × Nat} (hr : r ∈ st.live) {x : Nat} (hx : r.1 ≤ x)
    (hx' : x < r.1 + 2 ^ r.2) :
    x < p.numObj ∧ st.tables.table.mapped (p.chunkIndex x) = true := by
  have hlt : x < p.numObj := Nat.lt_of_lt_of_le hx' (h.fits hr).2
  refine ⟨hlt, (h.table.mapped_iff _).mpr ?_⟩
  rw [p.chunkIndex_of_lt hlt, h.refs]
  have hmeets : Meets p (x / p.objPerChunk) r := by
    have hdiv := Nat.div_add_mod' x p.objPerChunk
    have hmod := Nat.mod_lt x p.objPerChunk_pos
    unfold Meets
    rw [Nat.succ_mul]
    omega
  have hpos : 0 < st.live.countP (fun r => Meets p (x / p.objPerChunk) r) :=
    countP_pos_iff.mpr ⟨r, hr, decide_eq_true hmeets⟩
  split_ifs <;> omega

theorem refsMatch (h : MttInv p st) : RefsMatch p st where
  refcount := h.refs
  refcount_le := h.refcount_le
  mapped := h.table.mapped_iff
  present := h.table.mapped
  entries _ hr _ := h.entries hr
  alloc env order := by
    rcases h.alloc env order with halloc | ⟨tables, offset, halloc, hne, -⟩
    · exact ⟨_, _, halloc, fun _ => rfl⟩
    · exact ⟨_, _, halloc, fun he => absurd he hne⟩
  free r hr := by
    obtain ⟨tables, hfree, -⟩ := h.free hr
    exact ⟨tables, hfree⟩

end MttInv

/-- In every run, with any failures, the references and mappings of the ICM chunks match the live
ranges, and failed calls change nothing. -/
theorem mtt_refs_every_run {p : MttShape} {env : IcmEnv} {kvmalloc : Nat → Bool} {st₀ : MttRun}
    (hinit : MttRun.init p env kvmalloc = some st₀) {calls : List MttCall}
    (hv : Run.Steps (MttRun.step p) MttRun.Valid st₀ calls) :
    ∀ st ∈ Run.states (MttRun.step p) st₀ calls, RefsMatch p st := by
  intro st hst
  exact (hv.invariant (fun _ call h hok => h.step call hok) (MttInv.init hinit) st hst).refsMatch

/-- Sixteen entries, two in a chunk and two in a segment, of which one is reserved. -/
def smallMtt : MttShape where
  numObj := 16
  objSize := 2 ^ 17
  lowmem := true
  coherent := false
  numObj_lt := by decide
  numObj_pow := ⟨4, rfl⟩
  objSize_dvd := by decide
  logMttsPerSeg := 1
  reserved := 1
  log_le := by decide
  seg_le := by decide
  reserved_le := by decide
  reserved_lt := by decide

/-- Chunks are allocated, and all but one can be mapped. -/
def mapAllBut (bad : Nat) : IcmEnv where
  allocIcm _ := some []
  mapIcm i := i != bad

/-- A range shorter than a chunk, one of two chunks whose second cannot be mapped, then the same
again with success, and the frees. -/
def mttCalls : List MttCall :=
  [.alloc (mapAllBut 9) 0, .alloc (mapAllBut 3) 2, .alloc (mapAllBut 9) 2, .free 0 0, .free 4 2]

theorem mtt_refs_small : ∃ st₀, MttRun.init smallMtt (mapAllBut 9) (fun _ => true) = some st₀ ∧
    Run.Steps (MttRun.step smallMtt) MttRun.Valid st₀ mttCalls ∧
    ∀ st ∈ Run.states (MttRun.step smallMtt) st₀ mttCalls, RefsMatch smallMtt st := by
  have hinit : (MttRun.init smallMtt (mapAllBut 9) fun _ => true).isSome = true := by decide +kernel
  obtain ⟨st₀, hst₀⟩ := Option.isSome_iff_exists.mp hinit
  have hv : Run.Steps (MttRun.step smallMtt) MttRun.Valid st₀ mttCalls := by
    have hall : ∀ st ∈ MttRun.init smallMtt (mapAllBut 9) fun _ => true,
        Run.Steps (MttRun.step smallMtt) MttRun.Valid st mttCalls := by decide +kernel
    exact hall st₀ hst₀
  exact ⟨st₀, hst₀, hv, mtt_refs_every_run hst₀ hv⟩

end Mlx4
