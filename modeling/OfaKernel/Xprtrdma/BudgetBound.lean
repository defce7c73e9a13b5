-- SUMMARY: When the budgets of an RPC-over-RDMA client are kept.
import OfaKernel.Xprtrdma.RegionCount

/-!
# When the budgets hold

The regions fit except when head and tail each need their own and the pages take one region more
than `frwr_op_open` has allowed for.
-/

open List

namespace Xprtrdma.Budget

/-! ## Specification -/

/-- A buffer of at most a megabyte of pages, with head and tail each in one page. -/
structure Buf.InRange (xdr : Buf) : Prop where
  pageLen : xdr.pageLen ≤ 1024 * 1024
  head : xdr.head.InPage
  tail : xdr.tail.InPage

/-- Head, pages and tail are three runs, and the pages need a region more than is allowed for. -/
structure Overruns (ia : Ia) (xdr : Buf) (pos : Nat) (type : ChunkType) : Prop where
  noHoles : ia.holesOk = false
  head : pos = 0 ∧ xdr.head.iovLen ≠ 0
  tail : withTail ia xdr type
  headGap : xdr.pageBase % pageSize ≠ 0 ∨ (xdr.head.iovBase + xdr.head.iovLen) % pageSize ≠ 0
  tailGap : xdr.tail.iovBase % pageSize ≠ 0 ∨ (xdr.pageBase + xdr.pageLen) % pageSize ≠ 0
  pages : maxDataSegs / ia.maxFrwrDepth * ia.maxFrwrDepth < pagesTouched
    (xdr.pageBase % pageSize) xdr.pageLen

/-- The regions of a chunk are within the budget. -/
def RegionsFit (ia : Ia) (present : Nat → Bool) (xdr : Buf) (pos : Nat) (type : ChunkType) : Prop :=
  (convertIovs ia present xdr pos type).2 →
    ∃ n, regions ia ((convertIovs ia present xdr pos type).1.length + 1)
      (convertIovs ia present xdr pos type).1 =
      some n ∧ n ≤ ia.maxSegs

/-- A call that is accepted as inline fits into the inline buffer with its header. -/
def InlineFits (ia : Ia) (cdata : Cdata) (present : Nat → Bool) (call : Call) : Prop :=
  argsInline ia call.snd → ∀ hdr ∈ inlineHeader ia present call,
    hdr + call.snd.len ≤ cdata.inlineWsize

section

variable {ia : Ia} {present : Nat → Bool} {xdr : Buf} {pos : Nat} {type : ChunkType}

theorem pagesTouched_le (offset : Nat) {len : Nat} (hoff : offset < pageSize)
    (hlen : len ≤ 1024 * 1024) :
    pagesTouched offset len ≤ maxDataSegs := by
  unfold pagesTouched maxDataSegs pageSize at *
  omega

theorem convertPages_length_le {page offset len fuel : Nat} (hoff : offset < pageSize) :
    (convertPages present page offset len fuel).1.length ≤ pagesTouched offset len := by
  induction fuel generalizing page offset len with
  | zero => exact Nat.zero_le _
  | succ fuel ih =>
    rw [convertPages]
    by_cases hzero : len = 0
    · rw [if_pos hzero]
      exact Nat.zero_le _
    rw [if_neg hzero]
    split
    · exact Nat.zero_le _
    · have := @ih (page + 1) 0 (len - min (pageSize - offset) len) (by decide)
      rw [length_cons]
      unfold pagesTouched pageSize at *
      omega

theorem convertKvec_length_le {vec : Kvec} (h : vec.InPage) : (convertKvec vec).length ≤ 1 := by
  rw [convertKvec_inPage h]
  split <;> simp

/-- Never more segments are stored than the array has. -/
theorem convertIovs_stores (h : xdr.InRange) :
    (convertIovs ia present xdr pos type).1.length ≤ maxSegs := by
  have hhead : (if pos = 0 then convertKvec xdr.head else []).length ≤ 1 := by
    split
    · exact convertKvec_length_le h.head
    · exact Nat.zero_le _
  have hpages := @convertPages_length_le present (xdr.pageBase / pageSize) _ xdr.pageLen xdr.pageLen
    (Nat.mod_lt xdr.pageBase (show 0 < pageSize by decide))
  have hmax := pagesTouched_le (xdr.pageBase % pageSize) (Nat.mod_lt _ (by decide)) h.pageLen
  have htail : (if withTail ia xdr type then convertKvec xdr.tail else []).length ≤ 1 := by
    split
    · exact convertKvec_length_le h.tail
    · exact Nat.zero_le _
  unfold convertIovs maxSegs
  dsimp only
  split
  · rw [length_append]
    omega
  · rw [length_append, length_append]
    omega

theorem regionsOf_mono (depth : Nat) {n m : Nat} (h : n ≤ m) :
    regionsOf depth n ≤ regionsOf depth m :=
  Nat.div_le_div_right (by omega)

/-- One segment more than the maximum costs one region more at most, and two cost two. -/
theorem regionsOf_extra {depth k : Nat} (hpos : 0 < depth) (hk : k ≤ 2) (hk' : 0 < k) :
    regionsOf depth (maxDataSegs + k) ≤ maxDataSegs / depth + k := by
  have hdiv := Nat.div_add_mod maxDataSegs depth
  have hmod := Nat.mod_lt maxDataSegs hpos
  unfold regionsOf
  rw [← Nat.lt_succ_iff, Nat.div_lt_iff_lt_mul hpos]
  have hmul : (maxDataSegs / depth + k).succ * depth =
    depth * (maxDataSegs / depth) + k * depth + depth := by
    rw [Nat.succ_mul, Nat.add_mul, Nat.mul_comm depth]
  obtain rfl | rfl : k = 1 ∨ k = 2 := by omega
  all_goals omega

theorem regionsOf_le_iff {depth n q : Nat} (hpos : 0 < depth) :
    regionsOf depth n ≤ q ↔ n ≤ q * depth := by
  unfold regionsOf
  rw [← Nat.lt_succ_iff, Nat.div_lt_iff_lt_mul hpos, Nat.succ_mul]
  omega

theorem max_div {depth : Nat} (hpos : 0 < depth) (h : depth ≤ maxDataSegs) :
    max 1 (maxDataSegs / depth) = maxDataSegs / depth :=
  Nat.max_eq_right (Nat.div_pos h hpos)

/-- The three parts of a segment list that was built without an error. -/
structure Parts (ia : Ia) (xdr : Buf) (pos : Nat) (type : ChunkType) (h p t : List Seg) : Prop where
  head : h = if pos = 0 ∧ xdr.head.iovLen ≠ 0 then
    [⟨none, xdr.head.iovBase, xdr.head.iovLen⟩] else []
  tail : t = if withTail ia xdr type then [⟨none, xdr.tail.iovBase, xdr.tail.iovLen⟩] else []
  pagesLength : p.length ≤ maxDataSegs
  pages : 0 < xdr.pageLen → p.length = pagesTouched (xdr.pageBase % pageSize) xdr.pageLen
  noPages : xdr.pageLen = 0 → p = []
  chain : p.IsChain fun a b => ¬ Gap a b
  first : ∀ a ∈ p.head?, a.offset = xdr.pageBase % pageSize
  last : ∀ a ∈ p.getLast?, (a.offset + a.len) % pageSize = (xdr.pageBase + xdr.pageLen) % pageSize

theorem convertIovs_parts (hrange : xdr.InRange)
    (hok : (convertIovs ia present xdr pos type).2 = true) :
    ∃ h p t, (convertIovs ia present xdr pos type).1 = h ++ p ++ t ∧
      Parts ia xdr pos type h p t := by
  have hpages : (convertPages present (xdr.pageBase / pageSize)
    (xdr.pageBase % pageSize) xdr.pageLen
      xdr.pageLen).2 = true := by
    by_contra hfail
    unfold convertIovs at hok
    rw [if_pos hfail] at hok
    exact Bool.false_ne_true hok
  have hmod : xdr.pageBase % pageSize < pageSize := Nat.mod_lt _ (by decide)
  obtain ⟨hlen, hnil, hchain, hfirst, hlast⟩ := convertPages_spec hmod (Nat.le_refl _) hpages
  have hmax := pagesTouched_le (xdr.pageBase % pageSize) hmod hrange.pageLen
  have hle := @convertPages_length_le present (xdr.pageBase / pageSize) _ xdr.pageLen
    xdr.pageLen hmod
  refine ⟨if pos = 0 then convertKvec xdr.head else [], _,
    if withTail ia xdr type then convertKvec xdr.tail else [], ?_, ?_, ?_, hle.trans hmax,
      hlen, hnil, hchain,
    hfirst, fun a ha => (hlast a ha).trans (by rw [Nat.add_mod, Nat.mod_mod, ← Nat.add_mod])⟩
  · unfold convertIovs
    rw [if_neg (not_not.mpr hpages)]
  · rw [convertKvec_inPage hrange.head]
    by_cases hpos : pos = 0 <;> by_cases hlen : xdr.head.iovLen = 0 <;> simp [hpos, hlen]
  · rw [convertKvec_inPage hrange.tail]
    by_cases htail : withTail ia xdr type = true
    · have hne : xdr.tail.iovLen ≠ 0 := by
        unfold withTail at htail
        simp only [decide_eq_true_eq] at htail
        exact htail.2
      rw [if_pos htail, if_pos htail, if_neg hne]
    · rw [if_neg htail, if_neg htail]

/-- The regions of one, two or three runs, and the bound for them. -/
theorem regions_of_runs (hdepth : 0 < ia.maxFrwrDepth) {ls : List (List Seg)}
    (h : Runs ia.holesOk ls)
    (hls : ls ≠ []) {segs : List Seg} (hsegs : segs = ls.flatten) :
    regions ia (segs.length + 1) segs =
      some (ls.map fun l => regionsOf ia.maxFrwrDepth l.length).sum := by
  subst hsegs
  exact regions_flatten hdepth h hls (Nat.lt_succ_self _)

theorem run_iff_chain (hholes : ia.holesOk = false) {l rest : List Seg} :
    Run ia.holesOk l rest ↔
      l.IsChain (fun a b => ¬ Gap a b) ∧ ∀ a ∈ l.getLast?, ∀ b ∈ rest.head?, Gap a b := by
  unfold Run
  rw [hholes, if_neg Bool.false_ne_true]

theorem isChain_append_of_joined {l r : List Seg} (hl : l.IsChain fun a b => ¬ Gap a b)
    (hr : r.IsChain fun a b => ¬ Gap a b) (h : ¬ ∀ a ∈ l.getLast?, ∀ b ∈ r.head?, Gap a b) :
    (l ++ r).IsChain fun a b => ¬ Gap a b := by
  refine isChain_append.mpr ⟨hl, hr, fun a ha b hb hab => h fun a' ha' b' hb' => ?_⟩
  obtain rfl : a = a' := Option.some.inj (ha.symm.trans ha')
  obtain rfl : b = b' := Option.some.inj (hb.symm.trans hb')
  exact hab

/-- A list with at most one gap, at `l`, stays within the budget. -/
theorem regions_two_runs (hpos : 0 < ia.maxFrwrDepth) (hdepth : ia.maxFrwrDepth ≤ maxDataSegs)
    (hmax : ia.maxSegs = maxDataSegs / ia.maxFrwrDepth + 2) (hholes : ia.holesOk = false)
    {l r segs : List Seg}
    (hsegs : segs = l ++ r) (hl : l.IsChain fun a b => ¬ Gap a b)
    (hr : r.IsChain fun a b => ¬ Gap a b)
    (hlen : l.length ≤ maxDataSegs + 1 ∧ r.length ≤ 1 ∨ l.length ≤ 1 ∧ r.length ≤ maxDataSegs + 1) :
    ∃ n, regions ia (segs.length + 1) segs = some n ∧ n ≤ ia.maxSegs := by
  have hone := regionsOf_extra hpos (show 1 ≤ 2 by decide) (show 0 < 1 by decide)
  have htwo := regionsOf_extra hpos (Nat.le_refl 2) (show 0 < 2 by decide)
  have hunit : regionsOf ia.maxFrwrDepth 1 = 1 := regionsOf_le_depth (by decide) hpos
  have hbound (n : Nat) (hn : n ≤ maxDataSegs + 1) :
      regionsOf ia.maxFrwrDepth n ≤ maxDataSegs / ia.maxFrwrDepth + 1 :=
        (regionsOf_mono _ hn).trans hone
  have hsmall (n : Nat) (hn : n ≤ 1) : regionsOf ia.maxFrwrDepth n ≤ 1 :=
    (regionsOf_mono _ hn).trans hunit.le
  by_cases hgap : ∀ a ∈ l.getLast?, ∀ b ∈ r.head?, Gap a b
  · by_cases hlnil : l = []
    · by_cases hrnil : r = []
      · refine ⟨1, ?_, by omega⟩
        rw [hsegs, hlnil, hrnil]
        rfl
      · refine ⟨_, @regions_of_runs _ hpos [r] ⟨hrnil, (run_iff_chain hholes).mpr ⟨hr, by simp⟩,
          trivial⟩ (cons_ne_nil _ _) _ (by simp [hsegs, hlnil]), ?_⟩
        have := hbound r.length (by omega)
        simp only [map_cons, map_nil, sum_cons, sum_nil]
        omega
    · by_cases hrnil : r = []
      · refine ⟨_, @regions_of_runs _ hpos [l] ⟨hlnil, (run_iff_chain hholes).mpr ⟨hl, by simp⟩,
          trivial⟩ (cons_ne_nil _ _) _ (by simp [hsegs, hrnil]), ?_⟩
        have := hbound l.length (by omega)
        simp only [map_cons, map_nil, sum_cons, sum_nil]
        omega
      · refine ⟨_, @regions_of_runs _ hpos [l, r]
          ⟨hlnil, (run_iff_chain hholes).mpr ⟨hl, by simpa using hgap⟩,
          hrnil, (run_iff_chain hholes).mpr ⟨hr, by simp⟩, trivial⟩ (cons_ne_nil _ _) _
            (by simp [hsegs]), ?_⟩
        simp only [map_cons, map_nil, sum_cons, sum_nil]
        rcases hlen with ⟨h₁, h₂⟩ | ⟨h₁, h₂⟩
        · have := hbound _ h₁
          have := hsmall _ h₂
          omega
        · have := hbound _ h₂
          have := hsmall _ h₁
          omega
  · have hchain := isChain_append_of_joined hl hr hgap
    have hne : l ++ r ≠ [] := by
      rintro hnil
      obtain ⟨rfl, -⟩ := append_eq_nil_iff.mp hnil
      exact hgap (by simp)
    refine ⟨_, @regions_of_runs _ hpos [l ++ r] ⟨hne, (run_iff_chain hholes).mpr ⟨hchain, by simp⟩,
      trivial⟩ (cons_ne_nil _ _) _ (by simp [hsegs]), ?_⟩
    have hlen' : (l ++ r).length ≤ maxDataSegs + 2 := by rw [length_append]; omega
    have := (regionsOf_mono ia.maxFrwrDepth hlen').trans htwo
    simp only [map_cons, map_nil, sum_cons, sum_nil]
    omega

/-- The regions of a chunk are within the budget, unless three runs overrun it, by one region. -/
theorem regions_count (hpos : 0 < ia.maxFrwrDepth) (hdepth : ia.maxFrwrDepth ≤ maxDataSegs)
    (hmax : ia.maxSegs = maxDataSegs / ia.maxFrwrDepth + 2) (hrange : xdr.InRange)
    (hok : (convertIovs ia present xdr pos type).2 = true) :
    ∃ n, regions ia ((convertIovs ia present xdr pos type).1.length + 1)
      (convertIovs ia present xdr pos type).1 =
      some n ∧ n ≤ ia.maxSegs + 1 ∧ (n ≤ ia.maxSegs ↔ ¬ Overruns ia xdr pos type) := by
  have within {o : Option Nat} (hfit : ∃ n, o = some n ∧ n ≤ ia.maxSegs)
    (hno : ¬ Overruns ia xdr pos type) :
      ∃ n, o = some n ∧ n ≤ ia.maxSegs + 1 ∧ (n ≤ ia.maxSegs ↔ ¬ Overruns ia xdr pos type) := by
    obtain ⟨n, hn, hle⟩ := hfit
    exact ⟨n, hn, by omega, iff_of_true hle hno⟩
  obtain ⟨h, p, t, hsegs, hparts⟩ := convertIovs_parts hrange hok
  rw [hsegs]
  have hhlen : h.length ≤ 1 := by rw [hparts.head]; split <;> simp
  have htlen : t.length ≤ 1 := by rw [hparts.tail]; split <;> simp
  have hplen := hparts.pagesLength
  have htwo := regionsOf_extra hpos (Nat.le_refl 2) (show 0 < 2 by decide)
  have hq : 1 ≤ maxDataSegs / ia.maxFrwrDepth := Nat.div_pos hdepth hpos
  cases hholes : ia.holesOk with
  | true =>
    refine within ?_ fun hover => Bool.noConfusion (hholes.symm.trans hover.noHoles)
    by_cases hnil : h ++ p ++ t = []
    · refine ⟨1, ?_, by omega⟩
      rw [hnil]
      rfl
    · refine ⟨_, @regions_of_runs _ hpos [h ++ p ++ t] ⟨hnil, ?_, trivial⟩ (cons_ne_nil _ _) _
        (by simp), ?_⟩
      · unfold Run
        rw [hholes, if_pos rfl, flatten_nil]
      · have hlen : (h ++ p ++ t).length ≤ maxDataSegs + 2 := by
          rw [length_append, length_append]
          omega
        have := (regionsOf_mono ia.maxFrwrDepth hlen).trans htwo
        simp only [map_cons, map_nil, sum_cons, sum_nil]
        omega
  | false =>
    have hhchain : h.IsChain fun a b => ¬ Gap a b := by
      rw [hparts.head]
      split
      · exact .singleton _
      · exact .nil
    have htchain : t.IsChain fun a b => ¬ Gap a b := by
      rw [hparts.tail]
      split
      · exact .singleton _
      · exact .nil
    by_cases hheadGap : ∀ a ∈ h.getLast?, ∀ b ∈ p.head?, Gap a b
    swap
    · -- the head goes with the pages
      have hjoin := isChain_append_of_joined hhchain hparts.chain hheadGap
      refine within (regions_two_runs hpos hdepth hmax hholes rfl hjoin htchain
        (.inl ⟨by rw [length_append]; omega, htlen⟩)) fun hover => hheadGap fun a ha b hb => ?_
      rw [hparts.head, if_pos hover.head] at ha
      obtain rfl := Option.some.inj ha
      rcases hover.headGap with hgap | hgap
      · refine .inl ?_
        rw [hparts.first b hb, Nat.mod_mod]
        exact hgap
      · exact .inr hgap
    by_cases htailGap : ∀ a ∈ p.getLast?, ∀ b ∈ t.head?, Gap a b
    swap
    · -- the tail goes with the pages
      have hjoin := isChain_append_of_joined hparts.chain htchain htailGap
      refine within (regions_two_runs hpos hdepth hmax hholes (append_assoc h p t) hhchain hjoin
        (.inr ⟨hhlen, by rw [length_append]; omega⟩)) fun hover => htailGap fun a ha b hb => ?_
      rw [hparts.tail, if_pos hover.tail] at hb
      obtain rfl := Option.some.inj hb
      rcases hover.tailGap with hgap | hgap
      · exact .inl hgap
      · refine .inr ?_
        rw [hparts.last a ha]
        exact hgap
    by_cases hp : p = []
    · -- without pages there are two segments at most
      subst hp
      rw [append_nil]
      refine within (regions_two_runs hpos hdepth hmax hholes rfl hhchain htchain
        (.inl ⟨by omega, htlen⟩)) fun hover => ?_
      have hpages := hover.pages
      have hzero : xdr.pageLen = 0 := by
        by_contra hne
        have := hparts.pages (by omega)
        simp only [length_nil] at this
        omega
      have hle : pagesTouched (xdr.pageBase % pageSize) xdr.pageLen ≤ 1 := by
        unfold pagesTouched pageSize
        omega
      have hone : 1 ≤ maxDataSegs / ia.maxFrwrDepth * ia.maxFrwrDepth := Nat.mul_pos hq hpos
      omega
    by_cases hh : h = []
    · rw [hh, nil_append]
      refine within (regions_two_runs hpos hdepth hmax hholes rfl hparts.chain htchain
        (.inl ⟨by omega, htlen⟩)) fun hover => ?_
      have hhead := hparts.head
      rw [if_pos hover.head, hh] at hhead
      cases hhead
    by_cases ht : t = []
    · rw [ht, append_nil]
      refine within (regions_two_runs hpos hdepth hmax hholes rfl hhchain hparts.chain
        (.inr ⟨hhlen, by omega⟩)) fun hover => ?_
      have htail := hparts.tail
      rw [if_pos hover.tail, ht] at htail
      cases htail
    -- three runs
    have hsum : regions ia ((h ++ p ++ t).length + 1) (h ++ p ++ t) =
        some (regionsOf ia.maxFrwrDepth h.length + (regionsOf ia.maxFrwrDepth p.length +
          (regionsOf ia.maxFrwrDepth t.length + 0))) := by
      refine @regions_of_runs _ hpos [h, p, t] ⟨hh, (run_iff_chain hholes).mpr ⟨hhchain, ?_⟩, hp,
        (run_iff_chain hholes).mpr ⟨hparts.chain, by simpa using htailGap⟩, ht,
        (run_iff_chain hholes).mpr ⟨htchain, by simp⟩, trivial⟩ (cons_ne_nil _ _) _ (by simp)
      intro a ha b hb
      refine hheadGap a ha b ?_
      cases p with
      | nil => exact absurd rfl hp
      | cons c p => simpa using hb
    have hunit {l : List Seg} (hle : l.length ≤ 1) (hne : l ≠ []) : regionsOf ia.maxFrwrDepth
      l.length = 1 := by
      have := length_pos_iff.mpr hne
      exact regionsOf_le_depth this (by omega)
    rw [hunit hhlen hh, hunit htlen ht] at hsum
    have hpageLen : 0 < xdr.pageLen := by
      by_contra hzero
      exact hp (hparts.noPages (by omega))
    have hone := (regionsOf_mono ia.maxFrwrDepth (show p.length ≤ maxDataSegs + 1 by omega)).trans
      (regionsOf_extra hpos (show 1 ≤ 2 by decide) (show 0 < 1 by decide))
    have hfit : 1 + (regionsOf ia.maxFrwrDepth p.length + (1 + 0)) ≤ ia.maxSegs ↔
        p.length ≤ maxDataSegs / ia.maxFrwrDepth * ia.maxFrwrDepth := by
      rw [← regionsOf_le_iff hpos, hmax]
      omega
    refine ⟨_, hsum, by omega, ?_⟩
    rw [hfit, ← not_lt, hparts.pages hpageLen]
    refine not_congr ⟨fun hpages => ?_, fun hover => hover.pages⟩
    -- the gaps that are there are those of the buffer
    have hheadIf : pos = 0 ∧ xdr.head.iovLen ≠ 0 := by
      by_contra hno
      exact hh (hparts.head.trans (if_neg hno))
    have htailIf : withTail ia xdr type = true := by
      by_contra hno
      exact ht (hparts.tail.trans (if_neg hno))
    obtain ⟨c, hc⟩ : ∃ c, p.head? = some c := by
      cases p with
      | nil => exact absurd rfl hp
      | cons c p => exact ⟨c, rfl⟩
    obtain ⟨d, hd⟩ : ∃ d, p.getLast? = some d := ⟨p.getLast hp, List.getLast?_eq_some_getLast hp⟩
    refine ⟨hholes, hheadIf, htailIf, ?_, ?_, hpages⟩
    · have hgap := hheadGap ⟨none, xdr.head.iovBase, xdr.head.iovLen⟩
        (by rw [hparts.head, if_pos hheadIf]; rfl) c hc
      unfold Gap at hgap
      rw [hparts.first c hc, Nat.mod_mod] at hgap
      exact hgap
    · have hgap := htailGap d hd ⟨none, xdr.tail.iovBase, xdr.tail.iovLen⟩
        (by rw [hparts.tail, if_pos htailIf]; rfl)
      unfold Gap at hgap
      rw [hparts.last d hd] at hgap
      exact hgap

/-- The header of an inline call is within what was reserved. A write chunk leaves the head out, and
so has no region too many; a reply chunk may have one. -/
theorem inlineHeader_le (hpos : 0 < ia.maxFrwrDepth) (hdepth : ia.maxFrwrDepth ≤ maxDataSegs)
    (hmax : ia.maxSegs = maxDataSegs / ia.maxFrwrDepth + 2) {call : Call}
    (hrange : call.rcv.InRange)
    {hdr : Nat} (h : inlineHeader ia present call = some hdr) :
    hdr ≤ maxCallHeaderSize ia.maxSegs := by
  have hq : 1 ≤ maxDataSegs / ia.maxFrwrDepth := Nat.div_pos hdepth hpos
  unfold inlineHeader at h
  unfold maxCallHeaderSize hdrlenMin readchunkMaxsz segmentMaxsz at *
  split at h
  · dsimp only at h
    split at h
    next hok =>
      obtain ⟨n, hn, -, hiff⟩ := regions_count hpos hdepth hmax hrange hok
      have hle := hiff.mpr fun hover => hover.head.2 hover.head.1
      rw [hn, Option.map_some] at h
      obtain rfl := Option.some.inj h
      omega
    next => cases h
  · dsimp only at h
    split at h
    next hok =>
      obtain ⟨n, hn, hle, -⟩ := regions_count hpos hdepth hmax hrange hok
      rw [hn, Option.map_some] at h
      obtain rfl := Option.some.inj h
      omega
    next => cases h
  · obtain rfl := Option.some.inj h
    omega

theorem argsInline_len (h : argsInline ia xdr = true) : xdr.len ≤ ia.maxInlineWrite := by
  unfold argsInline at h
  split at h
  · exact absurd h Bool.false_ne_true
  · omega

/-- A call of the given length whose two iovecs are each in one page, and which expects no results.
-/
def plainCall (len : Nat) : Call :=
  { snd := ⟨⟨0, min len pageSize⟩, 0, 0, ⟨0, len - min len pageSize⟩⟩
    rcv := ⟨⟨0, 0⟩, 0, 0, ⟨0, 0⟩⟩
    rcvBuflen := 0
    rcvRead := false
    ddpAllowed := false }

theorem plainCall_len (len : Nat) : (plainCall len).snd.len = len := by
  unfold plainCall Buf.len
  dsimp only
  omega

theorem plainCall_inRange {len : Nat} (h : len ≤ 2 * pageSize) :
    (plainCall len).snd.InRange ∧ (plainCall len).rcv.InRange := by
  unfold pageSize at h
  refine ⟨⟨Nat.zero_le _, ?_, ?_⟩, ⟨Nat.zero_le _, ?_, ?_⟩⟩ <;>
    simp only [plainCall, Kvec.InPage, pageSize] <;> omega

theorem inlineHeader_plainCall (len : Nat) :
    inlineHeader ia present (plainCall len) = some hdrlenMin := by
  unfold inlineHeader resultChunk plainCall
  rw [if_pos (Nat.zero_le _)]

/-- The inline budget is kept exactly if the largest header fits into the inline buffer. -/
theorem inline_fits_iff (hpos : 0 < ia.maxFrwrDepth) (hdepth : ia.maxFrwrDepth ≤ maxDataSegs)
    (hmax : ia.maxSegs = maxDataSegs / ia.maxFrwrDepth + 2) {cdata : Cdata}
    (hwsize : cdata.inlineWsize < 2 ^ 32)
    (hwrite : ia.maxInlineWrite = U32.sub cdata.inlineWsize (maxCallHeaderSize ia.maxSegs)) :
    (∀ present call, call.snd.InRange → call.rcv.InRange → InlineFits ia cdata present call) ↔
      maxCallHeaderSize ia.maxSegs ≤ cdata.inlineWsize := by
  constructor
  · intro h
    by_contra hsmall
    have hq : maxDataSegs / ia.maxFrwrDepth ≤ maxDataSegs := Nat.div_le_self _ _
    have hlarge : maxCallHeaderSize ia.maxSegs ≤ 6240 := by
      unfold maxCallHeaderSize readchunkMaxsz segmentMaxsz
      unfold maxDataSegs pageSize at *
      omega
    have hsub : ia.maxInlineWrite =
      cdata.inlineWsize + (2 ^ 32 - maxCallHeaderSize ia.maxSegs) := by
      rw [hwrite]
      unfold U32.sub
      omega
    obtain ⟨hsnd, hrcv⟩ := @plainCall_inRange (cdata.inlineWsize - 27) (by unfold pageSize; omega)
    have hinline : argsInline ia (plainCall (cdata.inlineWsize - 27)).snd = true := by
      unfold argsInline
      rw [plainCall_len, if_neg (by omega)]
      rfl
    have hfit := h (fun _ => true) _ hsnd hrcv hinline hdrlenMin (inlineHeader_plainCall _)
    rw [plainCall_len] at hfit
    unfold hdrlenMin at hfit
    omega
  · intro hlarge present call _ hrcv hinline hdr hhdr
    have hlen := argsInline_len hinline
    have hle := inlineHeader_le hpos hdepth hmax hrcv hhdr
    rw [hwrite, U32.sub_of_le hlarge hwsize] at hlen
    omega

/-! ## The adapter that was opened -/

end

/-- `frwr_op_open`, the limits that are set beside it, and `rpcrdma_set_max_header_sizes`. -/
def openAdapter (tooFew : Int → Bool) (attrs : DeviceAttrs) (cdata : Cdata) (maxSendSges : Nat)
    (implicitRoundup : Bool) : Option (Except Int (Ia × Cdata)) :=
  (frwrOpOpen tooFew attrs cdata).map fun
    | .error err => .error err
    | .ok (ia, cdata) =>
      .ok (setMaxHeaderSizes { ia with maxSendSges := maxSendSges, implicitRoundup :=
        implicitRoundup } cdata, cdata)

/-- What an adapter that was opened has. -/
structure Opened (attrs : DeviceAttrs) (ia : Ia) (cdata : Cdata) : Prop where
  holesOk : ia.holesOk = attrs.sgGaps
  depth : ia.maxFrwrDepth = min maxDataSegs attrs.maxFastRegPageListLen
  maxSegs : ia.maxSegs = max 1 (maxDataSegs / ia.maxFrwrDepth) + 2
  maxInlineWrite : ia.maxInlineWrite = U32.sub cdata.inlineWsize (maxCallHeaderSize ia.maxSegs)

theorem openAdapter_opened {tooFew : Int → Bool} {attrs : DeviceAttrs} {cdata₀ cdata : Cdata}
    {maxSendSges : Nat}
    {implicitRoundup : Bool} {ia : Ia}
    (h : openAdapter tooFew attrs cdata₀ maxSendSges implicitRoundup = some (.ok (ia, cdata))) :
    Opened attrs ia cdata ∧ cdata.inlineWsize = cdata₀.inlineWsize := by
  obtain ⟨e, he, h⟩ := Option.map_eq_some_iff.mp h
  obtain ⟨extra, -, he⟩ := Option.map_eq_some_iff.mp he
  dsimp only at he
  generalize (if toU32 _ > toU32 _ then _ else min cdata₀.maxRequests _) = maxRequests at he
  split at he
  · subst he
    cases h
  split at he
  · subst he
    cases h
  · subst he
    cases h
    exact ⟨⟨rfl, rfl, rfl, rfl⟩, rfl⟩

/-- The budgets of a connection are kept. -/
def Kept (ia : Ia) (cdata : Cdata) : Prop :=
  (∀ present xdr pos type, xdr.InRange →
    (convertIovs ia present xdr pos type).1.length ≤ maxSegs ∧ RegionsFit ia present xdr pos type) ∧
  ∀ present call, call.snd.InRange → call.rcv.InRange → InlineFits ia cdata present call

/-- A call of a megabyte that begins and ends within a page, between a head and a tail of their own.
-/
def oddCall : Buf := ⟨⟨1, 1⟩, 1, 1024 * 1024, ⟨1, 1⟩⟩

theorem oddCall_inRange :
    oddCall.InRange := ⟨by decide, by unfold Kvec.InPage; decide, by unfold Kvec.InPage; decide⟩

theorem convertIovs_oddCall (ia : Ia) :
    (convertIovs ia (fun _ => true) oddCall 0 .areadch).2 = true := by
  have hstores := @convertIovs_stores ia (fun _ => true) _ 0 .areadch oddCall_inRange
  exact decide_eq_true hstores

/-- The segments always fit, the regions of a buffer fit unless they overrun, and all budgets are
kept exactly for these devices and connections. -/
theorem budgets_kept_iff {tooFew : Int → Bool} {attrs : DeviceAttrs} {cdata₀ cdata : Cdata}
    {maxSendSges : Nat}
    {implicitRoundup : Bool} {ia : Ia}
    (hopen : openAdapter tooFew attrs cdata₀ maxSendSges implicitRoundup = some (.ok (ia, cdata)))
    (hattrs : 1 ≤ attrs.maxFastRegPageListLen) (hwsize : cdata₀.inlineWsize < 2 ^ 32) :
    (Kept ia cdata ↔ (attrs.sgGaps ∨ ia.maxFrwrDepth ∣ maxDataSegs) ∧
      maxCallHeaderSize ia.maxSegs ≤ cdata.inlineWsize) ∧
    ∀ present xdr pos type, xdr.InRange → (convertIovs ia present xdr pos type).2 →
      (RegionsFit ia present xdr pos type ↔ ¬ Overruns ia xdr pos type) := by
  obtain ⟨hopened, hsize⟩ := openAdapter_opened hopen
  have hdepth : ia.maxFrwrDepth ≤ maxDataSegs := by rw [hopened.depth]; exact Nat.min_le_left _ _
  have hpos : 0 < ia.maxFrwrDepth := by
    rw [hopened.depth]
    exact Nat.lt_min.mpr ⟨by decide, hattrs⟩
  have hmax : ia.maxSegs = maxDataSegs / ia.maxFrwrDepth + 2 := by
    rw [hopened.maxSegs, max_div hpos hdepth]
  have hinline := inline_fits_iff hpos hdepth hmax (hsize ▸ hwsize) hopened.maxInlineWrite
  have hregions (present xdr pos type) (hrange : Buf.InRange xdr)
      (hok : (convertIovs ia present xdr pos type).2 = true) :
      RegionsFit ia present xdr pos type ↔ ¬ Overruns ia xdr pos type := by
    obtain ⟨n, hn, -, hiff⟩ := regions_count hpos hdepth hmax hrange hok
    rw [← hiff]
    unfold RegionsFit
    rw [hn]
    simp [hok]
  refine ⟨⟨fun hkept => ⟨?_, hinline.mp hkept.2⟩,
    fun ⟨hdiv, hlarge⟩ => ⟨?_, hinline.mpr hlarge⟩⟩, hregions⟩
  · by_contra hno
    rw [not_or] at hno
    obtain ⟨hgaps, hdiv⟩ := hno
    have hok := convertIovs_oddCall ia
    refine (hregions _ _ 0 .areadch oddCall_inRange hok).mp
      (hkept.1 _ _ 0 .areadch oddCall_inRange).2
      ⟨?_, ⟨rfl, by decide⟩, ?_, .inl (by decide), .inl (by decide), ?_⟩
    · rw [hopened.holesOk]
      exact Bool.eq_false_iff.mpr hgaps
    · unfold withTail oddCall
      simp
    · exact lt_of_le_of_ne (Nat.div_mul_le_self _ _) fun heq => hdiv
        ⟨_, (Nat.mul_comm _ _).trans heq |>.symm⟩
  · intro present xdr pos type hrange
    refine ⟨convertIovs_stores hrange, fun hok => ?_⟩
    refine (hregions present xdr pos type hrange hok).mpr (fun hover => ?_) hok
    rcases hdiv with hgaps | hdiv
    · exact Bool.noConfusion ((hopened.holesOk.trans hgaps).symm.trans hover.noHoles)
    · have hpages := hover.pages
      have hle := pagesTouched_le (xdr.pageBase % pageSize) (Nat.mod_lt _ (by decide))
        hrange.pageLen
      rw [Nat.div_mul_cancel hdiv] at hpages
      omega

/-- An adapter with three regions for a call, for an inline buffer of 4096 bytes. -/
def threeRegions (depth : Nat) : Ia where
  holesOk := false
  maxFrwrDepth := depth
  maxSegs := 3
  maxInlineWrite := 4000
  maxInlineRead := 4040
  maxSendSges := 16

def plainCdata : Cdata := ⟨64, 4096, 4096⟩

theorem openAdapter_threeRegions {attrs : DeviceAttrs} {depth : Nat}
    (hopen : frwrOpOpen (· < 4) attrs plainCdata =
      some (.ok ({ holesOk := false, maxFrwrDepth := depth, maxSegs := 3 }, plainCdata))) :
    openAdapter (· < 4) attrs plainCdata 16 false =
      some (.ok (threeRegions depth, plainCdata)) := by
  have hwrite : U32.sub 4096 (maxCallHeaderSize 3) = 4000 := U32.sub_of_le (by decide) (by decide)
  have hread : U32.sub 4096 (maxReplyHeaderSize 3) = 4040 := U32.sub_of_le (by decide) (by decide)
  unfold openAdapter
  rw [hopen, Option.map_some]
  unfold setMaxHeaderSizes plainCdata
  dsimp only
  rw [hwrite, hread]
  rfl

theorem full_depth_kept : Kept (threeRegions 257) plainCdata :=
  (@budgets_kept_iff _ ⟨false, 512, 1024⟩ _ _ _ _ _ (openAdapter_threeRegions rfl) (by decide)
    (by decide)).1.mpr ⟨.inr (by decide), by decide⟩

/-- With a depth of 256 the odd call needs four regions. -/
theorem odd_call_does_not_fit :
    openAdapter (· < 4) ⟨false, 256, 1024⟩ plainCdata 16 false =
      some (.ok (threeRegions 256, plainCdata)) ∧
      oddCall.InRange ∧ ¬ RegionsFit (threeRegions 256) (fun _ => true) oddCall 0 .areadch := by
  refine ⟨openAdapter_threeRegions rfl, oddCall_inRange, fun hfit => ?_⟩
  have hok := convertIovs_oddCall (threeRegions 256)
  obtain ⟨n, hn, -, hiff⟩ := @regions_count (threeRegions 256) _ _ _ _ (by decide) (by decide)
    (by decide) oddCall_inRange hok
  obtain ⟨m, hm, hle⟩ := hfit hok
  obtain rfl : n = m := Option.some.inj (hn.symm.trans hm)
  refine hiff.mp hle ⟨rfl, ⟨rfl, by decide⟩, by
    decide, .inl (by decide), .inl (by decide), by decide⟩

end Xprtrdma.Budget
