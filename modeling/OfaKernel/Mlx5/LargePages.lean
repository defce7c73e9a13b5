-- SUMMARY: Soundness of the large pages of a memory region.
import Mathlib.Order.Bounds.Basic
import Mathlib.Data.Nat.Log
import OfaKernel.Mlx5.ContPages

/-!
# Soundness of large pages

The block size found is the largest power of two that divides the page number of the address and
the places where the DMA segments break. An `int` limits the shift of the alignment, the number
of pages, and the offset of a block in its segment.
-/

open List

namespace Mlx5

/-! ## Specification -/

namespace Umem

/-- The bus address of a byte of the region, counted from its first page. -/
def dmaAt (u : Umem) (off : Nat) : Option Nat :=
  Segments.lookup (u.segs.map fun sg => (sg.addr, sg.len)) off

/-- The number of pages of the region. -/
def total (u : Umem) : Nat := (u.runs.map Prod.snd).sum

/-- `2 ^ m` pages are the largest block allowed by the address, the limit, the size of the region
and the breaks of its segments. -/
def BlockShift (u : Umem) (addr maxPageShift m : Nat) : Prop :=
  IsGreatest {m | m ≤ startShift u addr maxPageShift ∧ m ≤ Nat.clog 2 u.total ∧
    Alignment.BreaksAt (2 ^ m) none 0 u.runs} m

end Umem

/-- Every block of `b` pages starts less than 2 GiB into its segment; `off` pages come before. -/
def StartsNear (b pageShift : Nat) : Nat → List (Nat × Nat) → Prop
  | _, [] => True
  | off, (_, len) :: s =>
    (∀ k < len, b ∣ off + k → k * 2 ^ pageShift < 2 ^ 31) ∧ StartsNear b pageShift (off + len) s

/-- The results describe the region: blocks are contiguous and aligned, and cover it. -/
structure ContPages.Covers (r : ContPages) (u : Umem) (addr : Nat) : Prop where
  count : r.count = u.total
  shift : u.pageShift ≤ r.shift
  blocks : ∀ j : Nat, (j : Int) < r.ncont → ∃ bus, 2 ^ r.shift ∣ bus ∧
    ∀ off < u.total * 2 ^ u.pageShift, off / 2 ^ r.shift = j →
      u.dmaAt off = some (bus + off % 2 ^ r.shift)
  offset : addr % 2 ^ r.shift = addr % 2 ^ u.pageShift
  covered : r.count ≤ r.ncont * 2 ^ (r.shift - u.pageShift)
  order : r.ncont ≤ 2 ^ r.order

/-- The blocks cover the region, and every part of the array gets their bus addresses. -/
def LargePages (u : Umem) (addr maxPageShift flags : Nat) : Prop :=
  ∃ r, contPages u addr maxPageShift = some r ∧ r.Covers u addr ∧
    ∀ offset numPages pas, ((offset + numPages : Nat) : Int) ≤ r.ncont →
      ∃ pas', populatePas u r.shift offset numPages pas flags = some pas' ∧
        ∀ j, offset ≤ j → j < offset + numPages →
          ∃ bus, u.dmaAt (j * 2 ^ r.shift) = some bus ∧ pas' (j - offset) = bus ||| flags

theorem shl_one {m : Nat} (hm : m < 31) : shl 1 m = some (2 ^ m) := by
  have hlt : 2 ^ m < 2 ^ 31 := Nat.pow_lt_pow_right (by omega) hm
  rw [shl, Nat.one_mul, if_pos ⟨by omega, hlt⟩]

theorem shl_one_none {m : Nat} (hm : ¬ m < 31) : shl 1 m = none := by
  have hle : 2 ^ 31 ≤ 2 ^ m := Nat.pow_le_pow_right (by omega) (Nat.not_lt.mp hm)
  rw [shl, Nat.one_mul, if_neg fun h => absurd h.2 (Nat.not_lt.mpr hle)]

theorem fls_pred (n : Nat) : fls (n - 1) = Nat.clog 2 n := by
  refine le_antisymm (Nat.size_le.mpr ?_) (Nat.clog_le_of_le_pow ?_)
  · have hle := Nat.le_pow_clog (b := 2) (by omega) n
    have hpos := Nat.two_pow_pos (Nat.clog 2 n)
    omega
  · have hlt := Nat.lt_size_self (n - 1)
    unfold fls
    omega

theorem roundupPowOfTwo_natCast {n : Nat} (hn : n < 2 ^ 31) :
    roundupPowOfTwo n = some (2 ^ Nat.clog 2 n) := by
  have hcast : ((n : Int) % 2 ^ 64).toNat = n := by omega
  have hclog : Nat.clog 2 n ≤ 31 := Nat.clog_le_of_le_pow hn.le
  unfold roundupPowOfTwo
  dsimp only
  rw [hcast, fls_pred, if_pos (by omega), Nat.one_shiftLeft]

/-! ## The block size -/

section

variable {u : Umem} {addr maxPageShift flags : Nat}

/-- The alignment after a break is the largest one below that divides both sides of it. -/
theorem le_nextShift {m m' pfn p : Nat} (hm : m < 31) :
    m' ≤ (if Alignment.IsAligned (pfn ||| p) (2 ^ m) then m else Alignment.firstBit (pfn ||| p)) ↔
      m' ≤ m ∧ 2 ^ m' ∣ pfn ∧ 2 ^ m' ∣ p := by
  rw [← Alignment.two_pow_dvd_or]
  by_cases hal : Alignment.IsAligned (pfn ||| p) (2 ^ m)
  · rw [if_pos hal]
    have hdvd := Alignment.isAligned_two_pow.mp hal
    exact ⟨fun h => ⟨h, (Nat.pow_dvd_pow 2 h).trans hdvd⟩, And.left⟩
  · rw [if_neg hal]
    have hlt := Alignment.firstBit_lt (fun h => hal (Alignment.isAligned_two_pow.mpr h))
      (show m ≤ 64 by omega)
    constructor
    · intro h
      exact ⟨by omega, (Alignment.le_firstBit (by omega)).mp h⟩
    · rintro ⟨hle, hdvd⟩
      exact (Alignment.le_firstBit (by omega)).mpr hdvd

/-- The loop keeps the alignments that divide the breaks, and counts the pages. -/
theorem contLoop_spec {runs : List (Nat × Nat)} (hpfn : ∀ run ∈ runs, run.1 < 2 ^ 64 - 1)
    {st : ContState} {stop : Option Nat} {off : Nat} (hm : st.m < 31)
    (hstop : st.base + st.p = stop.getD (2 ^ 64 - 1)) (hp : st.p ≤ off)
    (hrun : ∀ m' ≤ st.m, 2 ^ m' ∣ off - st.p) (hi : st.i = I32.wrap off) :
    ∃ st', contLoop st runs = some st' ∧
      (∀ m', m' ≤ st'.m ↔ m' ≤ st.m ∧ Alignment.BreaksAt (2 ^ m') stop off runs) ∧
      st'.i = I32.wrap (off + (runs.map Prod.snd).sum : Nat) := by
  induction runs generalizing st stop off with
  | nil => exact ⟨st, rfl, fun m' => (and_iff_left trivial).symm, hi⟩
  | cons run runs ih =>
    obtain ⟨pfn, len⟩ := run
    have hne : pfn ≠ 2 ^ 64 - 1 := Nat.ne_of_lt (hpfn (pfn, len) mem_cons_self)
    have hcont : stop = some pfn ↔ st.base + st.p = pfn := by
      rw [hstop]
      cases stop with
      | none => exact iff_of_false nofun fun h => hne h.symm
      | some t => exact Option.some_inj
    have hnext : I32.wrap (st.i + len) = I32.wrap (off + len : Nat) := by
      rw [hi, I32.wrap_wrap_add]
      rfl
    have hsum : off + len + (runs.map Prod.snd).sum =
      off + (((pfn, len) :: runs).map Prod.snd).sum := by
      rw [map_cons, sum_cons, Nat.add_assoc]
    unfold contLoop contStep
    dsimp only
    by_cases hbreak : st.base + st.p ≠ pfn
    · rw [if_pos hbreak, shl_one hm]
      have hle {m' : Nat} := @le_nextShift _ m' pfn st.p hm
      have hoff {m' : Nat} (hm' : m' ≤ st.m) : 2 ^ m' ∣ off ↔ 2 ^ m' ∣ st.p := by
        have := Nat.dvd_add_right (c := st.p) (hrun m' hm')
        rwa [Nat.sub_add_cancel hp] at this
      obtain ⟨st', hloop, hm', hi'⟩ := @ih (fun run hr => hpfn run (mem_cons_of_mem _ hr))
        { m := if Alignment.IsAligned (pfn ||| st.p) (2 ^ st.m) then st.m
            else Alignment.firstBit (pfn ||| st.p)
          base := pfn, p := len, i := I32.wrap (st.i + len) }
        (some (pfn + len)) (off + len)
        (Nat.lt_of_le_of_lt (hle.mp (Nat.le_refl _)).1 hm) rfl (Nat.le_add_left _ _)
        (fun m' h => by
          rw [Nat.add_sub_cancel]
          obtain ⟨h1, -, h2⟩ := hle.mp h
          exact (hoff h1).mpr h2)
        hnext
      refine ⟨st', hloop, fun m' => ?_, hsum ▸ hi'⟩
      rw [hm', hle]
      constructor
      · rintro ⟨⟨h1, h2, h3⟩, h4⟩
        exact ⟨h1, .inr ⟨h2, (hoff h1).mpr h3⟩, h4⟩
      · rintro ⟨h1, h2, h4⟩
        obtain ⟨h2, h3⟩ := h2.resolve_left fun h => hbreak (hcont.mp h)
        exact ⟨⟨h1, h2, (hoff h1).mp h3⟩, h4⟩
    · rw [if_neg hbreak]
      have heq : st.base + st.p = pfn := not_not.mp hbreak
      obtain ⟨st', hloop, hm', hi'⟩ := @ih (fun run hr => hpfn run (mem_cons_of_mem _ hr))
        { st with p := st.p + len, i := I32.wrap (st.i + len) } (some (pfn + len)) (off + len) hm
        (show st.base + (st.p + len) = pfn + len by omega) (show st.p + len ≤ off + len by omega)
        (fun m' h => by
          have := hrun m' h
          rwa [show off + len - (st.p + len) = off - st.p by omega])
        hnext
      refine ⟨st', hloop, fun m' => ?_, hsum ▸ hi'⟩
      rw [hm']
      exact and_congr_right fun _ => (and_iff_right (.inl (hcont.mpr heq))).symm

/-- A loop over entries shifts by the first alignment. -/
theorem contLoop_none {run : Nat × Nat} {runs : List (Nat × Nat)} {st : ContState}
    (hbreak : st.base + st.p ≠ run.1) (hm : ¬ st.m < 31) : contLoop st (run :: runs) = none := by
  unfold contLoop contStep
  dsimp only
  rw [if_pos hbreak, shl_one_none hm]
  rfl

theorem Umem.pfn_lt (u : Umem) : ∀ run ∈ u.runs, run.1 < 2 ^ 64 - 1 := by
  intro run hrun
  obtain ⟨sg, hsg, rfl⟩ := mem_map.mp hrun
  have hle := u.addr_le sg hsg
  have hshift : 2 ^ 12 ≤ 2 ^ u.pageShift := Nat.pow_le_pow_right (by omega) u.pageShift_ge
  rw [Nat.shiftRight_eq_div_pow]
  calc sg.addr / 2 ^ u.pageShift ≤ sg.addr / 2 ^ 12 := Nat.div_le_div_left hshift (by omega)
    _ < 2 ^ 64 - 1 := by omega

theorem contLoop_region (u : Umem) {addr maxPageShift : Nat}
    (hstart : startShift u addr maxPageShift < 31) :
    ∃ st',
      contLoop { m := startShift u addr maxPageShift, base := 2 ^ 64 - 1, p := 0, i := 0 } u.runs =
        some st' ∧
      (∀ m', m' ≤ st'.m ↔
        m' ≤ startShift u addr maxPageShift ∧ Alignment.BreaksAt (2 ^ m') none 0 u.runs) ∧
      st'.i = I32.wrap u.total := by
  have h := @contLoop_spec u.runs u.pfn_lt
    { m := startShift u addr maxPageShift, base := 2 ^ 64 - 1, p := 0, i := 0 } none 0 hstart rfl
    (Nat.le_refl 0) (fun m' _ => Nat.dvd_zero _) rfl
  rwa [Nat.zero_add] at h

/-- The results for a region of less than `2 ^ 31` pages. -/
theorem contPages_eq (hodp : u.isOdp = false) (hstart : startShift u addr maxPageShift < 31)
    (htotal : u.total < 2 ^ 31) :
    ∃ m, u.BlockShift addr maxPageShift m ∧ contPages u addr maxPageShift = some
      { count := u.total, shift := u.pageShift + m
        ncont := (I32.wrap (u.total + 2 ^ m - 1)).tdiv (2 ^ m : Nat)
        order := Nat.clog 2 u.total - m } := by
  obtain ⟨st', hloop, hm, hi⟩ := contLoop_region u hstart
  have hcount : st'.i = (u.total : Int) := by
    rw [hi, I32.wrap_of_range (by omega) (by omega)]
  have hgreatest : u.BlockShift addr maxPageShift (min (Nat.clog 2 u.total) st'.m) := by
    constructor
    · obtain ⟨hle, hbreaks⟩ := (hm _).mp (Nat.min_le_right (Nat.clog 2 u.total) st'.m)
      exact ⟨hle, Nat.min_le_left _ _, hbreaks⟩
    · rintro m' ⟨hle, hclog, hbreaks⟩
      exact Nat.le_min.mpr ⟨hclog, (hm m').mpr ⟨hle, hbreaks⟩⟩
  refine ⟨_, hgreatest, ?_⟩
  have hlt : min (Nat.clog 2 u.total) st'.m < 31 := Nat.lt_of_le_of_lt (hgreatest.1.1) hstart
  unfold contPages
  rw [hodp, hloop]
  dsimp only [Option.bind_eq_bind, Option.bind_some, Bool.false_eq_true, if_false]
  rw [hcount]
  by_cases hzero : (u.total : Int) = 0
  · have hz : u.total = 0 := by omega
    rw [if_pos hzero, hz]
    simp [I32.wrap]
  · rw [if_neg hzero, roundupPowOfTwo_natCast htotal, Option.bind_some,
      Nat.log2_two_pow, shl_one hlt]
    have horder : Nat.log2 (2 ^ Nat.clog 2 u.total >>> min (Nat.clog 2 u.total) st'.m) =
        Nat.clog 2 u.total - min (Nat.clog 2 u.total) st'.m := by
      rw [Nat.shiftRight_eq_div_pow, Nat.pow_div (Nat.min_le_left _ _) (by omega), Nat.log2_two_pow]
    rw [Option.bind_some, horder]
    rfl

/-- The bus address of a byte, from the page number. -/
theorem Umem.dmaAt_page (u : Umem) {d : Nat} (hd : d < 2 ^ u.pageShift) (x : Nat) :
    u.dmaAt (x * 2 ^ u.pageShift + d) =
      (Segments.lookup u.runs x).map fun a => a * 2 ^ u.pageShift + d := by
  have hsegs : (u.segs.map fun sg => (sg.addr, sg.len)) =
      u.runs.map fun e => (e.1 * 2 ^ u.pageShift, e.2 * 2 ^ u.pageShift) := by
    unfold Umem.runs
    rw [map_map]
    refine map_congr_left fun sg hsg => ?_
    obtain ⟨haddr, hlen⟩ := u.pages sg hsg
    dsimp only [Function.comp_apply]
    rw [Nat.shiftRight_eq_div_pow, Nat.shiftRight_eq_div_pow, Nat.div_mul_cancel haddr,
      Nat.div_mul_cancel hlen]
  unfold Umem.dmaAt
  rw [hsegs]
  exact Segments.lookup_scale u.runs hd x

theorem Umem.lookup_isSome (u : Umem) {x : Nat} (hx : x < u.total) :
    ∃ v, Segments.lookup u.runs x = some v := by
  obtain ⟨k, n, r, hk, hr, heq⟩ := Segments.exists_start hx
  rw [List.getElem?_map] at hk
  cases hrun : u.runs[k]? with
  | none =>
    rw [hrun] at hk
    cases hk
  | some run =>
    rw [hrun] at hk
    obtain rfl := Option.some.inj hk
    exact ⟨_, heq ▸ @Segments.lookup_start _ _ run.1 _ _ hrun hr⟩

/-- A block starts at a multiple of its size, and its bytes follow each other. -/
theorem Umem.block_bytes (u : Umem) {m j : Nat} (h : Alignment.BreaksAt (2 ^ m) none 0 u.runs)
    (hj : j * 2 ^ m < u.total) :
    ∃ bus, u.dmaAt (j * 2 ^ (u.pageShift + m)) = some bus ∧ 2 ^ (u.pageShift + m) ∣ bus ∧
      ∀ off < u.total * 2 ^ u.pageShift, off / 2 ^ (u.pageShift + m) = j →
        u.dmaAt off = some (bus + off % 2 ^ (u.pageShift + m)) := by
  have hb := Nat.two_pow_pos m
  have hc := Nat.two_pow_pos u.pageShift
  have hpow : 2 ^ (u.pageShift + m) = 2 ^ u.pageShift * 2 ^ m := Nat.pow_add 2 u.pageShift m
  obtain ⟨v, hv⟩ := u.lookup_isSome hj
  have hmod := h.mod_eq nofun hv
  rw [Nat.zero_add, Nat.mul_mod_left] at hmod
  refine ⟨v * 2 ^ u.pageShift, ?_, ?_, fun off hoff hblock => ?_⟩
  · have hpage := u.dmaAt_page hc (j * 2 ^ m)
    rw [hv, Nat.add_zero] at hpage
    rw [hpow, Nat.mul_comm (2 ^ u.pageShift), ← Nat.mul_assoc, hpage]
    rfl
  · rw [hpow, Nat.mul_comm]
    exact Nat.mul_dvd_mul_right (Nat.dvd_of_mod_eq_zero hmod) _
  · -- the page of the byte, in the block
    obtain ⟨w, hw⟩ := u.lookup_isSome (Nat.div_lt_of_lt_mul (Nat.mul_comm _ _ ▸ hoff))
    have hpage := u.dmaAt_page (Nat.mod_lt off hc) (off / 2 ^ u.pageShift)
    rw [Nat.div_add_mod', hw] at hpage
    have hdiv : off / 2 ^ u.pageShift / 2 ^ m = j := by
      rw [Nat.div_div_eq_div_mul, ← hpow, hblock]
    have hle : j * 2 ^ m ≤ off / 2 ^ u.pageShift := hdiv ▸ Nat.div_mul_le_self _ _
    have hdist := h.block hb hle
      (by rw [Nat.zero_add, Nat.zero_add, Nat.mul_div_cancel _ hb, hdiv]) hv hw
    rw [hpage, Option.map_some]
    have hsplit : off % 2 ^ (u.pageShift + m) =
        (off / 2 ^ u.pageShift - j * 2 ^ m) * 2 ^ u.pageShift + off % 2 ^ u.pageShift := by
      have hlow : off / 2 ^ u.pageShift % 2 ^ m = off / 2 ^ u.pageShift - j * 2 ^ m := by
        rw [← hdiv, Nat.mod_eq_sub_div_mul]
      rw [hpow, Nat.mod_mul, hlow, Nat.mul_comm (2 ^ u.pageShift), Nat.add_comm]
    rw [hsplit, hdist, Nat.add_mul, Nat.add_assoc]

end

/-! ## The array -/

section

variable {pageShift m offset numPages flags bound : Nat}

/-- The region's page after which the array is full. -/
def pasBound (m offset numPages : Nat) : Nat :=
  if numPages = 0 then offset * 2 ^ m + 1 else (offset + numPages) * 2 ^ m

/-- The early return is taken after the last page. -/
theorem pasBound_le_iff {x : Nat} (hx : offset * 2 ^ m ≤ x) :
    offset + numPages ≤ (x + 1) >>> m ↔ pasBound m offset numPages ≤ x + 1 := by
  rw [Nat.shiftRight_eq_div_pow, Nat.le_div_iff_mul_le (Nat.two_pow_pos m)]
  unfold pasBound
  split
  next h =>
    subst h
    exact iff_of_true (by rw [Nat.add_zero]; omega) (by omega)
  next => rfl

theorem lt_pasBound (m offset numPages : Nat) : offset * 2 ^ m < pasBound m offset numPages := by
  unfold pasBound
  split
  next => exact Nat.lt_succ_self _
  next h =>
    exact Nat.mul_lt_mul_of_pos_right (Nat.lt_add_of_pos_right (Nat.pos_of_ne_zero h))
      (Nat.two_pow_pos m)

/-- The test of the page counter finds the first pages of blocks. -/
theorem and_mask_eq_zero {i : Nat} : i &&& (2 ^ m - 1) = 0 ↔ 2 ^ m ∣ i := by
  rw [Nat.and_two_pow_sub_one_eq_mod, Nat.dvd_iff_mod_eq_zero]

/-- One entry of the array. -/
theorem update_block {pas : Nat → Nat} {i j cur : Nat} (hi : 2 ^ m ∣ i) (hoff : offset * 2 ^ m ≤ i)
    (hj : offset ≤ j) :
    Function.update pas (i >>> m - offset) cur (j - offset) =
      if j * 2 ^ m = i then cur else pas (j - offset) := by
  obtain ⟨q, rfl⟩ := hi
  have hpos := Nat.two_pow_pos m
  have hq : offset ≤ q := Nat.le_of_mul_le_mul_right (Nat.mul_comm (2 ^ m) q ▸ hoff) hpos
  rw [Nat.shiftRight_eq_div_pow, Nat.mul_div_cancel_left q hpos, Function.update_apply,
    Nat.mul_comm j]
  refine if_congr ?_ rfl rfl
  rw [Nat.mul_right_inj hpos.ne']
  omega

/-- Page `k` of a segment whose first page is page `i₀` of the region. -/
theorem writePas_spec {base i₀ k : Nat} {st : PasState} (hi : st.i = i₀ + k)
    (hoff : offset * 2 ^ m ≤ i₀ + k) (hshift : pageShift < 32)
    (hnear : 2 ^ m ∣ i₀ + k → k * 2 ^ pageShift < 2 ^ 31)
    (htop : base + k * 2 ^ pageShift < 2 ^ 64) :
    ∃ pas, writePas pageShift m (2 ^ m - 1) offset base flags k st.i st.pas = some pas ∧
      ∀ j, offset ≤ j → pas (j - offset) =
        if j * 2 ^ m = i₀ + k then (base + k * 2 ^ pageShift) ||| flags else st.pas
          (j - offset) := by
  unfold writePas
  by_cases hblock : 2 ^ m ∣ i₀ + k
  · have hshl : shl k pageShift = some (k * 2 ^ pageShift) := if_pos ⟨hshift, hnear hblock⟩
    rw [hi, if_pos (and_mask_eq_zero.mpr hblock), hshl]
    refine ⟨_, rfl, fun j hj => ?_⟩
    rw [update_block hblock hoff hj, Nat.mod_eq_of_lt htop]
  · rw [hi, if_neg fun h => hblock (and_mask_eq_zero.mp h)]
    refine ⟨_, rfl, fun j hj => ?_⟩
    rw [if_neg fun h : j * 2 ^ m = i₀ + k => hblock (h ▸ Nat.dvd_mul_left _ _)]

/-- The pages of one segment, from page `k` on; the segment has page `i₀` of the region first. -/
theorem fillPages_spec {base i₀ n k : Nat} {st : PasState} (hi : st.i = i₀ + k)
    (hoff : offset * 2 ^ m ≤ i₀ + k) (hbound : i₀ + k < pasBound m offset numPages)
    (hshift : 0 < n → pageShift < 32)
    (hnear : ∀ d < n, 2 ^ m ∣ i₀ + (k + d) → (k + d) * 2 ^ pageShift < 2 ^ 31)
    (htop : base + (k + n) * 2 ^ pageShift ≤ 2 ^ 64) (hdone : st.done = false) :
    ∃ st', fillPages pageShift m (2 ^ m - 1) offset numPages base flags n k st = some st' ∧
      (st'.done = true ↔ pasBound m offset numPages ≤ i₀ + (k + n)) ∧
      (st'.done = false → st'.i = i₀ + (k + n)) ∧
      ∀ j, offset ≤ j → st'.pas (j - offset) =
        if i₀ + k ≤ j * 2 ^ m ∧ j * 2 ^ m < i₀ + (k + n) ∧
          j * 2 ^ m < pasBound m offset numPages then
          (base + (j * 2 ^ m - i₀) * 2 ^ pageShift) ||| flags
        else st.pas (j - offset) := by
  induction n generalizing k st with
  | zero =>
    refine ⟨st, rfl, iff_of_false (by simp [hdone]) (by omega), fun _ => hi, fun j hj => ?_⟩
    rw [if_neg (by omega)]
  | succ n ih =>
    have hk : k * 2 ^ pageShift + 2 ^ pageShift ≤ (k + (n + 1)) * 2 ^ pageShift := by
      rw [← Nat.succ_mul]
      exact Nat.mul_le_mul_right _ (by omega)
    have hpage := Nat.two_pow_pos pageShift
    obtain ⟨pas, hwrite, hpas⟩ := @writePas_spec _ _ _ flags base _ _ st hi hoff
      (hshift (Nat.succ_pos n)) (hnear 0 (Nat.succ_pos n)) (by omega)
    have hnext : pasBound m offset numPages ≤ i₀ + k + 1 ↔
      offset + numPages ≤ (st.i + 1) >>> m := by
      rw [hi, pasBound_le_iff hoff]
    unfold fillPages
    rw [hwrite]
    dsimp only [Option.bind_eq_bind, Option.bind_some]
    by_cases hfull : offset + numPages ≤ (st.i + 1) >>> m
    · rw [if_pos hfull]
      refine ⟨_, rfl, iff_of_true rfl (by omega), nofun, fun j hj => ?_⟩
      dsimp only
      rw [hpas j hj]
      by_cases heq : j * 2 ^ m = i₀ + k
      · rw [if_pos heq, if_pos (by omega), heq, Nat.add_sub_cancel_left]
      · rw [if_neg heq, if_neg (by omega)]
    · rw [if_neg hfull]
      obtain ⟨st', hfill, hdone', hi', hpas'⟩ :=
        @ih (k + 1) { i := st.i + 1, pas := pas, done := false }
        (show st.i + 1 = i₀ + (k + 1) by omega) (by omega) (by omega)
          (fun _ => hshift (Nat.succ_pos n))
        (fun d hd => by
          rw [show k + 1 + d = k + (d + 1) by omega]
          exact hnear (d + 1) (by omega))
        (by rwa [show k + 1 + n = k + (n + 1) by omega]) rfl
      rw [show k + 1 + n = k + (n + 1) by omega] at hdone' hi' hpas'
      refine ⟨st', hfill, hdone', hi', fun j hj => ?_⟩
      rw [hpas' j hj]
      dsimp only
      rw [hpas j hj]
      by_cases heq : j * 2 ^ m = i₀ + k
      · rw [if_neg (by omega), if_pos heq, if_pos (by omega), heq, Nat.add_sub_cancel_left]
      · rw [if_neg heq]
        exact if_congr (by omega) rfl rfl

/-- A block that starts too far into its segment cannot be filled. -/
theorem fillPages_none {base i₀ n k d : Nat} {st : PasState} (hi : st.i = i₀ + k)
    (hoff : offset * 2 ^ m ≤ i₀ + k) (hd : d < n) (hblock : 2 ^ m ∣ i₀ + (k + d))
    (hfar : ¬ (k + d) * 2 ^ pageShift < 2 ^ 31)
    (hbound : i₀ + (k + d) < pasBound m offset numPages) :
    fillPages pageShift m (2 ^ m - 1) offset numPages base flags n k st = none := by
  induction n generalizing k d st with
  | zero => exact absurd hd (Nat.not_lt_zero d)
  | succ n ih =>
    unfold fillPages
    cases d with
    | zero =>
      have hshl : shl k pageShift = none := if_neg fun h => hfar h.2
      unfold writePas
      rw [if_pos (and_mask_eq_zero.mpr (hi ▸ hblock)), hshl]
      rfl
    | succ d =>
      cases hwrite : writePas pageShift m (2 ^ m - 1) offset base flags k st.i st.pas with
      | none => rfl
      | some pas =>
        dsimp only [Option.bind_eq_bind, Option.bind_some]
        have hnot : ¬ offset + numPages ≤ (st.i + 1) >>> m := by
          rw [hi, pasBound_le_iff hoff]
          omega
        rw [if_neg hnot]
        refine ih (d := d) (show st.i + 1 = i₀ + (k + 1) by omega) (by omega)
          (by omega) ?_ ?_ ?_ <;>
          rwa [show k + 1 + d = k + (d + 1) by omega]

/-- What the array holds after the segments from page `off` of the region on. -/
def pasAfter (m bound off flags : Nat) (segs : List (Nat × Nat)) (pageShift : Nat) (old : Nat)
    (j : Nat) : Nat :=
  if off ≤ j * 2 ^ m ∧ j * 2 ^ m < bound then
    match Segments.lookup segs ((j * 2 ^ m - off) * 2 ^ pageShift) with
    | some bus => bus ||| flags
    | none => old
  else old

/-- All segments, when every block starts near enough. -/
theorem populateLoop_spec {segs : List DmaSeg} {off : Nat} {st : PasState} (hi : st.i = off)
    (hbound : off < pasBound m offset numPages) (hdone : st.done = false)
    (hpages : ∀ sg ∈ segs, 2 ^ pageShift ∣ sg.len ∧ sg.len < 2 ^ 32 ∧ sg.addr + sg.len ≤ 2 ^ 64)
    (hnear : StartsNear (2 ^ m) pageShift off
      (segs.map fun sg => (sg.addr >>> pageShift, sg.len >>> pageShift))) :
    ∃ st', populateLoop pageShift m (2 ^ m - 1) offset numPages flags segs st = some st' ∧
      ∀ j, offset ≤ j → st'.pas (j - offset) =
        pasAfter m (pasBound m offset numPages) off flags
          (segs.map fun sg => (sg.addr, sg.len)) pageShift
          (st.pas (j - offset)) j := by
  induction segs generalizing off st with
  | nil =>
    refine ⟨st, rfl, fun j _ => ?_⟩
    unfold pasAfter
    split <;> rfl
  | cons sg segs ih =>
    obtain ⟨hdvd, hlen, htop⟩ := hpages sg mem_cons_self
    obtain ⟨hnear, hrest⟩ := hnear
    have hih {st : PasState} (hi : st.i = off + sg.len >>> pageShift)
        (hb : off + sg.len >>> pageShift < pasBound m offset numPages) (hd : st.done = false) :=
      ih hi hb hd (fun sg' hsg' => hpages sg' (mem_cons_of_mem _ hsg')) hrest
    have hpos := Nat.two_pow_pos pageShift
    have hbytes : sg.len >>> pageShift * 2 ^ pageShift = sg.len := by
      rw [Nat.shiftRight_eq_div_pow, Nat.div_mul_cancel hdvd]
    generalize hn : sg.len >>> pageShift = n at hih hbytes hnear hrest
    -- a page of the region that lies after the segment is looked up in the rest
    have hafter (j : Nat) (hj : off + n ≤ j * 2 ^ m) :
        Segments.lookup ((sg :: segs).map fun sg => (sg.addr, sg.len))
          ((j * 2 ^ m - off) * 2 ^ pageShift) =
          Segments.lookup (segs.map fun sg => (sg.addr, sg.len))
            ((j * 2 ^ m - (off + n)) * 2 ^ pageShift) := by
      have hle : n * 2 ^ pageShift ≤ (j * 2 ^ m - off) * 2 ^ pageShift :=
        Nat.mul_le_mul_right _ (by omega)
      rw [map_cons, Segments.lookup, if_neg (by omega), ← hbytes, ← Nat.sub_mul, Nat.sub_sub]
    have hinside (j : Nat) (hoff : off ≤ j * 2 ^ m) (hj : j * 2 ^ m < off + n) :
        Segments.lookup ((sg :: segs).map fun sg => (sg.addr, sg.len))
          ((j * 2 ^ m - off) * 2 ^ pageShift) =
          some (sg.addr + (j * 2 ^ m - off) * 2 ^ pageShift) := by
      have hlt : (j * 2 ^ m - off) * 2 ^ pageShift < n * 2 ^ pageShift :=
        Nat.mul_lt_mul_of_pos_right (by omega) hpos
      rw [map_cons, Segments.lookup, if_pos (by omega)]
    have hstart : offset <<< m = offset * 2 ^ m := Nat.shiftLeft_eq offset m
    unfold populateLoop
    dsimp only
    rw [hn, hi, hstart]
    by_cases hskip : off + n < offset * 2 ^ m
    · rw [if_pos hskip]
      obtain ⟨st', hloop, hpas⟩ := @hih { st with i := off + n } rfl
        (hskip.trans (lt_pasBound m offset numPages)) hdone
      refine ⟨st', hloop, fun j hj => ?_⟩
      have hle : offset * 2 ^ m ≤ j * 2 ^ m := Nat.mul_le_mul_right _ hj
      rw [hpas j hj]
      unfold pasAfter
      rw [hafter j (by omega)]
      exact if_congr (by omega) rfl rfl
    · rw [if_neg hskip]
      -- the first page of the segment that is not below the offset
      obtain ⟨k, hk, hi', hkn, hoff, hkbound⟩ : ∃ k,
          (if off < offset * 2 ^ m then offset * 2 ^ m - off else 0) = k ∧
          (if off < offset * 2 ^ m then offset * 2 ^ m else off) = off + k ∧ k ≤ n ∧
          offset * 2 ^ m ≤ off + k ∧ off + k < pasBound m offset numPages ∧
            (∀ x, offset * 2 ^ m ≤ x → off ≤ x → off + k ≤ x) := by
        have hlt := lt_pasBound m offset numPages
        by_cases hlow : off < offset * 2 ^ m
        · exact ⟨_, rfl, by rw [if_pos hlow, if_pos hlow]; omega, by rw [if_pos hlow]; omega,
            by rw [if_pos hlow]; omega, by rw [if_pos hlow]; omega,
            fun x h1 h2 => by rw [if_pos hlow]; omega⟩
        · exact ⟨0, by rw [if_neg hlow], by rw [if_neg hlow]; rfl, Nat.zero_le n, by omega, hbound,
            fun x h1 h2 => h2⟩
      obtain ⟨hkbound, hfirst⟩ := hkbound
      rw [hk, hi']
      obtain ⟨st', hfill, hdone', hi', hpas⟩ := @fillPages_spec _ _ _ _ flags sg.addr off (n - k) k
        { st with i := off + k } rfl hoff hkbound (fun hpos' => by
          by_contra hlarge
          have hle : 2 ^ 32 ≤ 2 ^ pageShift :=
            Nat.pow_le_pow_right (by omega) (Nat.not_lt.mp hlarge)
          have hone : 1 * 2 ^ pageShift ≤ n * 2 ^ pageShift := Nat.mul_le_mul_right _ (by omega)
          omega) (fun d hd hblock => hnear (k + d) (by omega) hblock)
            (by rw [show k + (n - k) = n by omega]; omega) hdone
      rw [show k + (n - k) = n by omega] at hdone' hi' hpas
      rw [hfill]
      dsimp only [Option.bind_some]
      cases hd : st'.done with
      | true =>
        have hle := hdone'.mp hd
        refine ⟨st', rfl, fun j hj => ?_⟩
        have hjle : offset * 2 ^ m ≤ j * 2 ^ m := Nat.mul_le_mul_right _ hj
        rw [hpas j hj]
        unfold pasAfter
        by_cases hin : off ≤ j * 2 ^ m ∧ j * 2 ^ m < pasBound m offset numPages
        · have := hfirst _ hjle hin.1
          rw [if_pos (by omega), if_pos hin, hinside j hin.1 (by omega)]
        · rw [if_neg (by omega), if_neg hin]
      | false =>
        have hlt : off + n < pasBound m offset numPages :=
          Nat.not_le.mp fun h => by simp [hdone'.mpr h] at hd
        obtain ⟨st'', hloop, hpas'⟩ := hih (hi' hd) hlt hd
        refine ⟨st'', hloop, fun j hj => ?_⟩
        have hjle : offset * 2 ^ m ≤ j * 2 ^ m := Nat.mul_le_mul_right _ hj
        rw [hpas' j hj, hpas j hj]
        unfold pasAfter
        by_cases hlow : off ≤ j * 2 ^ m
        · have := hfirst _ hjle hlow
          by_cases hin : j * 2 ^ m < off + n
          · rw [if_neg (by omega), if_pos (by omega), if_pos (by omega), hinside j hlow hin]
          · rw [hafter j (by omega),
              if_neg (show ¬ (off + k ≤ j * 2 ^ m ∧ j * 2 ^ m < off + n ∧ _) by omega)]
            exact if_congr (by omega) rfl rfl
        · rw [if_neg (by omega), if_neg (by omega), if_neg (by omega)]

/-- An entry of the outer loop, from the first block of the region on. -/
theorem populateLoop_cons (sg : DmaSeg) (segs : List DmaSeg) (st : PasState) :
    populateLoop pageShift m (2 ^ m - 1) 0 numPages flags (sg :: segs) st =
      (fillPages pageShift m (2 ^ m - 1) 0 numPages sg.addr flags (sg.len >>> pageShift) 0
        st).bind fun st =>
        if st.done then some st
        else populateLoop pageShift m (2 ^ m - 1) 0 numPages flags segs st := by
  rw [populateLoop]
  dsimp only
  rw [Nat.zero_shiftLeft, if_neg (Nat.not_lt_zero _), if_neg (Nat.not_lt_zero _),
    if_neg (Nat.not_lt_zero _), Nat.sub_zero]

theorem startsNear_of_empty {b off : Nat} {runs : List (Nat × Nat)}
    (h : (runs.map Prod.snd).sum = 0) :
    StartsNear b pageShift off runs := by
  induction runs generalizing off with
  | nil => trivial
  | cons run runs ih =>
    rw [map_cons, sum_cons] at h
    exact ⟨fun k hk => by omega, ih (by omega)⟩

/-- A region with a block that starts too far into its segment cannot be filled. -/
theorem populateLoop_none {segs : List DmaSeg} {off : Nat} {st : PasState} (hi : st.i = off)
    (hbound : off + ((segs.map fun sg => (sg.addr >>> pageShift, sg.len >>> pageShift)).map
    Prod.snd).sum ≤
      pasBound m 0 numPages) (hdone : st.done = false)
    (hpages : ∀ sg ∈ segs, 2 ^ pageShift ∣ sg.len ∧ sg.len < 2 ^ 32 ∧ sg.addr + sg.len ≤ 2 ^ 64)
    (hfar : ¬ StartsNear (2 ^ m) pageShift off
      (segs.map fun sg => (sg.addr >>> pageShift, sg.len >>> pageShift))) :
    populateLoop pageShift m (2 ^ m - 1) 0 numPages flags segs st = none := by
  induction segs generalizing off st with
  | nil => exact absurd trivial hfar
  | cons sg segs ih =>
    obtain ⟨hdvd, hlen, htop⟩ := hpages sg mem_cons_self
    have hbytes : sg.len >>> pageShift * 2 ^ pageShift = sg.len := by
      rw [Nat.shiftRight_eq_div_pow, Nat.div_mul_cancel hdvd]
    rw [map_cons, map_cons, sum_cons] at hbound
    rw [populateLoop_cons]
    generalize hn : sg.len >>> pageShift = n at hbytes hbound
    by_cases hnear : ∀ k < n, 2 ^ m ∣ off + k → k * 2 ^ pageShift < 2 ^ 31
    · have hrest : ¬ StartsNear (2 ^ m) pageShift (off + n)
          (segs.map fun sg => (sg.addr >>> pageShift, sg.len >>> pageShift)) := by
        intro h
        refine hfar ⟨?_, ?_⟩
        all_goals rwa [hn]
      -- the rest has a page, so the loop does not end here
      have hmore : 0 < ((segs.map fun sg => (sg.addr >>> pageShift, sg.len >>> pageShift)).map
        Prod.snd).sum :=
        Nat.pos_of_ne_zero fun hzero => hrest (startsNear_of_empty hzero)
      by_cases hlt : off < pasBound m 0 numPages
      · obtain ⟨st', hfill, hdone', hi', -⟩ := @fillPages_spec pageShift m 0 numPages flags sg.addr
          off n 0 st hi (by omega) hlt
          (fun hpos' => by
            by_contra hlarge
            have hle : 2 ^ 32 ≤ 2 ^ pageShift :=
              Nat.pow_le_pow_right (by omega) (Nat.not_lt.mp hlarge)
            have hone : 1 * 2 ^ pageShift ≤ n * 2 ^ pageShift := Nat.mul_le_mul_right _ hpos'
            omega)
          (fun d hd hblock => by
            rw [Nat.zero_add] at hblock ⊢
            exact hnear d hd hblock)
          (by rw [Nat.zero_add]; omega) hdone
        rw [Nat.zero_add] at hdone' hi'
        have hd : st'.done = false := by
          rw [← Bool.not_eq_true, hdone']
          omega
        rw [hfill, Option.bind_some, hd, if_neg Bool.false_ne_true]
        exact ih (hi' hd) (by omega) hd (fun sg' hsg' => hpages sg' (mem_cons_of_mem _ hsg')) hrest
      · omega
    · push Not at hnear
      obtain ⟨k, hk, hblock, hle⟩ := hnear
      rw [@fillPages_none _ _ _ _ _ _ off _ 0 k _ hi (by omega) hk (by rwa [Nat.zero_add])
        (by rw [Nat.zero_add]; omega) (by omega)]
      rfl

end

/-! ## The whole region -/

section

variable {u : Umem} {addr maxPageShift flags m : Nat}

theorem Umem.fits (u : Umem) : ∀ sg ∈ u.segs,
    2 ^ u.pageShift ∣ sg.len ∧ sg.len < 2 ^ 32 ∧ sg.addr + sg.len ≤ 2 ^ 64 :=
  fun sg hsg => ⟨(u.pages sg hsg).2, u.len_lt sg hsg, u.addr_le sg hsg⟩

theorem contPages_nil (hodp : u.isOdp = false) (h : u.segs = []) :
    contPages u addr maxPageShift =
      some { count := 0, shift := u.pageShift, ncont := 0, order := 0 } := by
  unfold contPages Umem.runs
  rw [hodp, h]
  rfl

/-- Where the pages were counted right, there are less than `2 ^ 31`. -/
theorem contPages_count {r : ContPages} (hodp : u.isOdp = false)
    (h : contPages u addr maxPageShift = some r) (hstart : startShift u addr maxPageShift < 31)
    (hcount : r.count = u.total) : u.total < 2 ^ 31 := by
  obtain ⟨st', hloop, -, hi⟩ := contLoop_region u hstart
  have hst : st'.i = r.count := by
    unfold contPages at h
    rw [hodp, hloop] at h
    simp only [Bool.false_eq_true, if_false, Option.bind_eq_bind, Option.bind_some] at h
    by_cases hz : st'.i = 0
    · rw [if_pos hz] at h
      obtain rfl := Option.some.inj h
      exact hz
    · rw [if_neg hz, Option.bind_eq_some_iff] at h
      obtain ⟨round, -, h⟩ := h
      rw [Option.bind_eq_some_iff] at h
      obtain ⟨d, -, h⟩ := h
      obtain rfl := Option.some.inj h
      rfl
  have hrange := I32.wrap_range u.total
  omega

/-- The number of blocks, where the rounding up stays an `int`. -/
theorem ncont_eq {total : Nat} (hfit : total + 2 ^ m ≤ 2 ^ 31) :
    (I32.wrap (total + 2 ^ m - 1)).tdiv (2 ^ m : Nat) = ((total + (2 ^ m - 1)) / 2 ^ m : Nat) := by
  have hpos := Nat.two_pow_pos m
  have hcast : ((total : Int) + 2 ^ m - 1) = ((total + (2 ^ m - 1) : Nat) : Int) := by
    push_cast [Nat.one_le_two_pow]
    omega
  rw [hcast, I32.wrap_of_range (by omega) (by omega)]
  rfl

/-- The results cover the region if the rounding up stays an `int`, and only then. -/
theorem covers_iff (hm : u.BlockShift addr maxPageShift m) (hlt : m < 31)
    (htotal : u.total < 2 ^ 31) :
    ContPages.Covers
      { count := u.total, shift := u.pageShift + m
        ncont := (I32.wrap (u.total + 2 ^ m - 1)).tdiv (2 ^ m : Nat)
        order := Nat.clog 2 u.total - m } u addr ↔ u.total + 2 ^ m ≤ 2 ^ 31 := by
  obtain ⟨⟨hstart, hclog, hbreaks⟩, -⟩ := hm
  have hpos := Nat.two_pow_pos m
  have hpow : 2 ^ m < 2 ^ 31 := Nat.pow_lt_pow_right (by omega) hlt
  constructor
  · intro h
    by_contra hover
    have hcovered := h.covered
    rw [Nat.add_sub_cancel_left] at hcovered
    -- the sum has become negative
    have hcast : ((u.total : Int) + 2 ^ m - 1) = ((u.total + (2 ^ m - 1) : Nat) : Int) := by
      push_cast [Nat.one_le_two_pow]
      omega
    have hneg : I32.wrap ((u.total : Int) + 2 ^ m - 1) ≤ 0 := by
      rw [hcast, I32.wrap_natCast (by omega), if_neg (by omega)]
      omega
    have hncont : (I32.wrap ((u.total : Int) + 2 ^ m - 1)).tdiv (2 ^ m : Nat) ≤ 0 := by
      rw [← Int.zero_tdiv ((2 ^ m : Nat) : Int)]
      exact Int.tdiv_le_tdiv (Int.natCast_pos.mpr hpos) hneg
    have hnonpos := Int.mul_nonpos_of_nonpos_of_nonneg hncont (Int.natCast_nonneg (2 ^ m))
    push_cast at hcovered hnonpos
    omega
  · intro hfit
    rw [ncont_eq hfit]
    refine ⟨rfl, Nat.le_add_right _ _, fun j hj => ?_, ?_, ?_, ?_⟩
    · have hlt : j < (u.total + (2 ^ m - 1)) / 2 ^ m := Int.ofNat_lt.mp hj
      have hblock : j * 2 ^ m < u.total := by
        have hmul := (Nat.le_div_iff_mul_le hpos).mp (Nat.succ_le_of_lt hlt)
        rw [Nat.succ_mul] at hmul
        omega
      obtain ⟨bus, -, hal, hbytes⟩ := u.block_bytes hbreaks hblock
      exact ⟨bus, hal, hbytes⟩
    · -- the page number of the address is a multiple of the block size
      have hle : m ≤ Alignment.firstBit (addr >>> u.pageShift) := by
        unfold startShift at hstart
        split at hstart
        · exact hstart.trans (Nat.min_le_right _ _)
        · exact hstart
      have hdvd := (Alignment.le_firstBit (by omega)).mp hle
      rw [Nat.shiftRight_eq_div_pow] at hdvd
      rw [Nat.pow_add, Nat.mod_mul, Nat.mod_eq_zero_of_dvd hdvd, Nat.mul_zero, Nat.add_zero]
    · dsimp only
      rw [Nat.add_sub_cancel_left]
      have hdiv := Nat.div_add_mod (u.total + (2 ^ m - 1)) (2 ^ m)
      have hle : u.total ≤ (u.total + (2 ^ m - 1)) / 2 ^ m * 2 ^ m := by
        rw [Nat.mul_comm]
        omega
      exact_mod_cast hle
    · dsimp only
      have hle : (u.total + (2 ^ m - 1)) / 2 ^ m ≤ 2 ^ (Nat.clog 2 u.total - m) := by
        refine Nat.le_of_lt_succ ((Nat.div_lt_iff_lt_mul hpos).mpr ?_)
        rw [Nat.succ_mul, ← Nat.pow_add, Nat.sub_add_cancel hclog]
        have := Nat.le_pow_clog (b := 2) (by omega) u.total
        omega
      exact_mod_cast hle

/-- Every part of the array is filled with the bus addresses of its blocks. -/
theorem populatePas_spec (hlt : m < 31) (hbreaks : Alignment.BreaksAt (2 ^ m) none 0 u.runs)
    (hnear : StartsNear (2 ^ m) u.pageShift 0 u.runs) {offset numPages : Nat} (pas : Nat → Nat)
    (hfit : (offset + numPages) * 2 ^ m < u.total + 2 ^ m) :
    ∃ pas', populatePas u (u.pageShift + m) offset numPages pas flags = some pas' ∧
      ∀ j, offset ≤ j → j < offset + numPages →
        ∃ bus, u.dmaAt (j * 2 ^ (u.pageShift + m)) = some bus ∧
          pas' (j - offset) = bus ||| flags := by
  have hpos := Nat.two_pow_pos m
  obtain ⟨st', hloop, hpas⟩ := @populateLoop_spec _ _ offset numPages flags _ _
    { i := 0, pas := pas, done := false } rfl
    (Nat.lt_of_le_of_lt (Nat.zero_le _) (lt_pasBound m offset numPages)) rfl u.fits hnear
  unfold populatePas
  dsimp only
  rw [Nat.add_sub_cancel_left, shl_one hlt]
  dsimp only [Option.bind_eq_bind, Option.bind_some]
  rw [hloop]
  refine ⟨st'.pas, rfl, fun j hj hjlt => ?_⟩
  have hsucc : (j + 1) * 2 ^ m ≤ (offset + numPages) * 2 ^ m := Nat.mul_le_mul_right _ hjlt
  rw [Nat.succ_mul] at hsucc
  obtain ⟨bus, hbus, -, -⟩ := u.block_bytes hbreaks (j := j) (by omega)
  refine ⟨bus, hbus, ?_⟩
  have hbound : j * 2 ^ m < pasBound m offset numPages := by
    unfold pasBound
    rw [if_neg (by omega)]
    omega
  rw [hpas j hj]
  unfold pasAfter
  unfold Umem.dmaAt at hbus
  rw [if_pos ⟨Nat.zero_le _, hbound⟩, Nat.sub_zero, Nat.mul_assoc, Nat.mul_comm (2 ^ m),
    ← Nat.pow_add, hbus]

theorem block_fits {total blocks : Nat} (h : blocks ≤ (total + (2 ^ m - 1)) / 2 ^ m) :
    blocks * 2 ^ m < total + 2 ^ m := by
  have hpos := Nat.two_pow_pos m
  have := (Nat.le_div_iff_mul_le hpos).mp h
  omega

/-- Where a block starts too far into its segment, the whole array cannot be filled. -/
theorem populatePas_none (hlt : m < 31) (hfar : ¬ StartsNear (2 ^ m) u.pageShift 0 u.runs)
    (pas : Nat → Nat) :
    populatePas u (u.pageShift + m) 0 ((u.total + (2 ^ m - 1)) / 2 ^ m) pas flags = none := by
  have hbound : 0 + u.total ≤ pasBound m 0 ((u.total + (2 ^ m - 1)) / 2 ^ m) := by
    have hdiv := Nat.div_add_mod (u.total + (2 ^ m - 1)) (2 ^ m)
    rw [Nat.mul_comm] at hdiv
    unfold pasBound
    split
    next hzero =>
      rw [hzero] at hdiv
      omega
    next =>
      rw [Nat.zero_add, Nat.zero_add]
      omega
  unfold populatePas
  dsimp only
  rw [Nat.add_sub_cancel_left, shl_one hlt]
  dsimp only [Option.bind_eq_bind, Option.bind_some]
  rw [populateLoop_none rfl hbound rfl u.fits hfar]
  rfl

/-- The large pages of a region translate every byte to the bus address of its segment exactly if
the region has no segment, or the address allows a shift by less than 31, the region has less than
`2 ^ 31` pages, also rounded up to blocks, and each block starts in the first 2 GiB of its segment.
-/
theorem large_pages_iff (u : Umem) (hodp : u.isOdp = false) (addr maxPageShift flags : Nat) :
    LargePages u addr maxPageShift flags ↔
      u.segs = [] ∨
        (startShift u addr maxPageShift < 31 ∧ u.total < 2 ^ 31 ∧
          ∀ m, u.BlockShift addr maxPageShift m →
            u.total + 2 ^ m ≤ 2 ^ 31 ∧ StartsNear (2 ^ m) u.pageShift 0 u.runs) := by
  constructor
  · rintro ⟨r, hr, hcovers, hfill⟩
    by_cases hnil : u.segs = []
    · exact .inl hnil
    · have hstart : startShift u addr maxPageShift < 31 := by
        by_contra hwide
        obtain ⟨sg, segs, hsegs⟩ := exists_cons_of_ne_nil hnil
        have hruns : u.runs = (sg.addr >>> u.pageShift, sg.len >>> u.pageShift) ::
            segs.map fun sg => (sg.addr >>> u.pageShift, sg.len >>> u.pageShift) := by
          unfold Umem.runs
          rw [hsegs, map_cons]
        have hpfn := u.pfn_lt _ (hruns ▸ mem_cons_self)
        have hnone := @contLoop_none (sg.addr >>> u.pageShift, sg.len >>> u.pageShift)
          (segs.map fun sg => (sg.addr >>> u.pageShift, sg.len >>> u.pageShift))
          { m := startShift u addr maxPageShift, base := 2 ^ 64 - 1, p := 0, i := 0 }
          (Nat.ne_of_gt hpfn) hwide
        unfold contPages at hr
        rw [hodp, hruns, hnone] at hr
        cases hr
      have htotal := contPages_count hodp hr hstart hcovers.count
      refine .inr ⟨hstart, htotal, fun m hm => ?_⟩
      obtain ⟨m', hm', heq⟩ := contPages_eq hodp hstart htotal
      obtain rfl := hm.unique hm'
      rw [heq] at hr
      obtain rfl := Option.some.inj hr
      have hlt : m < 31 := Nat.lt_of_le_of_lt hm.1.1 hstart
      have hfit := (covers_iff hm hlt htotal).mp hcovers
      refine ⟨hfit, ?_⟩
      by_contra hfar
      obtain ⟨pas', hpas, -⟩ := hfill 0 ((u.total + (2 ^ m - 1)) / 2 ^ m) (fun _ => 0)
        (by rw [Nat.zero_add, ncont_eq hfit])
      rw [populatePas_none hlt hfar] at hpas
      cases hpas
  · rintro (hnil | ⟨hstart, htotal, hblocks⟩)
    · refine ⟨_, contPages_nil hodp hnil, ⟨?_, Nat.le_refl _, nofun, rfl, ?_, ?_⟩, ?_⟩
      · unfold Umem.total Umem.runs
        rw [hnil]
        rfl
      · exact (Int.zero_mul _).symm.le
      · exact Int.natCast_nonneg _
      · intro offset numPages pas hle
        have hzero : offset + numPages = 0 := Int.natCast_nonpos_iff.mp hle
        obtain ⟨rfl, rfl⟩ := Nat.add_eq_zero_iff.mp hzero
        refine ⟨pas, ?_, fun j _ hj => absurd hj (Nat.not_lt_zero j)⟩
        unfold populatePas
        rw [hnil, Nat.sub_self]
        rfl
    · obtain ⟨m, hm, heq⟩ := contPages_eq hodp hstart htotal
      obtain ⟨hfit, hnear⟩ := hblocks m hm
      have hlt : m < 31 := Nat.lt_of_le_of_lt hm.1.1 hstart
      refine ⟨_, heq, (covers_iff hm hlt htotal).mpr hfit, fun offset numPages pas hle => ?_⟩
      rw [ncont_eq hfit] at hle
      exact populatePas_spec hlt hm.1.2.2 hnear pas (block_fits (Int.ofNat_le.mp hle))

/-- One segment of `len` bytes at bus address 2^40, in 4 KiB pages. -/
def oneSegment (len : Nat) (hpages : 2 ^ 12 ∣ len) (hlen : len < 2 ^ 32) : Umem where
  address := 4096
  length := len
  pageShift := 12
  isOdp := false
  segs := [{ addr := 2 ^ 40, len := len }]
  pageShift_ge := Nat.le_refl 12
  pages sg hsg := by
    obtain rfl := mem_singleton.mp hsg
    exact ⟨Nat.pow_dvd_pow 2 (by omega), hpages⟩
  len_lt sg hsg := by
    obtain rfl := mem_singleton.mp hsg
    exact hlen
  addr_le sg hsg := by
    obtain rfl := mem_singleton.mp hsg
    show 2 ^ 40 + len ≤ 2 ^ 64
    omega
  nmap_lt := Nat.one_lt_two_pow (by omega)

/-- A segment of 3 GiB, registered page by page: page 2^19 starts at `1 << 31`. -/
theorem large_segment_not_translated :
    ¬ LargePages (oneSegment (3 * 2 ^ 30) (by decide) (by decide)) 4096 0 3 := by
  rintro ⟨r, hr, -, hfill⟩
  have heq : contPages (oneSegment (3 * 2 ^ 30) (by decide) (by decide)) 4096 0 =
      some { count := 786432, shift := 12, ncont := 786432, order := 20 } := by decide +kernel
  rw [heq] at hr
  obtain rfl := Option.some.inj hr
  obtain ⟨pas', hpas, -⟩ := hfill 0 786432 (fun _ => 0) (Int.le_refl _)
  have hnone := @populatePas_none (oneSegment (3 * 2 ^ 30) (by decide) (by decide)) 3 0
    (by decide) (fun h => absurd (h.1 (2 ^ 19) (by decide) (Nat.one_dvd _))
    (by decide)) (fun _ => 0)
  exact absurd (hnone.symm.trans hpas) nofun

/-- Two segments of 2 and 4 pages, from an even page on. -/
def twoSegments : Umem where
  address := 8192
  length := 24576
  pageShift := 12
  isOdp := false
  segs := [{ addr := 2 ^ 40, len := 8192 }, { addr := 2 ^ 41, len := 16384 }]
  pageShift_ge := Nat.le_refl 12
  pages := by decide
  len_lt := by decide
  addr_le := by decide
  nmap_lt := by decide

/-- They are translated in three blocks of two pages. -/
theorem two_segments_translated :
    contPages twoSegments 8192 0 = some { count := 6, shift := 13, ncont := 3, order := 2 } ∧
      LargePages twoSegments 8192 0 3 := by
  refine ⟨by decide +kernel,
    (large_pages_iff _ rfl 8192 0 3).mpr (.inr ⟨by decide, by decide, fun m hm => ?_⟩)⟩
  have hpow : 2 ^ m ≤ 2 ^ 1 := Nat.pow_le_pow_right (by decide) hm.1.1
  have htotal : twoSegments.total = 6 := rfl
  have hnear : ∀ k n, k < n → n ≤ 4 → k * 2 ^ 12 < 2 ^ 31 := by
    intro k n _ _
    omega
  exact ⟨by omega, fun k hk _ => hnear k 2 hk (by decide), fun k hk _ => hnear k 4 hk (by decide),
    trivial⟩

end

end Mlx5
