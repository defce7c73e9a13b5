-- SUMMARY: How many regions the segments of a buffer take.
import Mathlib.Data.List.Chain
import OfaKernel.Xprtrdma.SegmentBudget

/-!
# Counting regions

Segments that follow one another without a gap go into regions of the full depth, and a gap starts a
new region. The pages of a buffer have no gaps between them, so there are at most three such runs.
-/

open List

namespace Xprtrdma.Budget

/-! ## Runs -/

/-- `l` is as much as one region could hold if it had no limit, and `rest` comes after it. -/
def Run (holesOk : Bool) (l rest : List Seg) : Prop :=
  if holesOk then rest = []
  else l.IsChain (fun a b => ¬ Gap a b) ∧ ∀ a ∈ l.getLast?, ∀ b ∈ rest.head?, Gap a b

/-- The regions that a run of `n` segments takes. -/
def regionsOf (depth n : Nat) : Nat := (n + depth - 1) / depth

theorem Run.drop {holesOk : Bool} {l rest : List Seg} {n : Nat} (h : Run holesOk l rest)
    (hn : n < l.length) :
    Run holesOk (l.drop n) rest := by
  unfold Run at h ⊢
  split at h
  next hholes => rwa [if_pos hholes]
  next hholes =>
    rw [if_neg hholes]
    refine ⟨h.1.drop n, ?_⟩
    rw [List.getLast?_drop, if_neg (by omega)]
    exact h.2

/-- A region takes from a run what its depth allows. -/
theorem mapLoop_run {holesOk : Bool} {l rest : List Seg} (h : Run holesOk l rest) (hl : l ≠ [])
    (n : Nat) :
    mapLoop holesOk n (l ++ rest) = min n l.length := by
  cases holesOk with
  | true =>
    obtain rfl : rest = [] := by simpa [Run] using h
    rw [append_nil]
    clear h hl
    induction l generalizing n with
    | nil => cases n <;> simp [mapLoop]
    | cons seg l ih =>
      cases n with
      | zero => simp [mapLoop]
      | succ n =>
        rw [mapLoop, if_pos rfl, ih]
        simp
  | false =>
    obtain ⟨hchain, hsep⟩ : l.IsChain (fun a b => ¬ Gap a b) ∧ ∀ a ∈ l.getLast?,
      ∀ b ∈ rest.head?, Gap a b := by
      simpa [Run] using h
    clear h
    induction l generalizing n with
    | nil => exact absurd rfl hl
    | cons seg l ih =>
      cases n with
      | zero => simp [mapLoop]
      | succ n =>
        rw [cons_append, mapLoop, if_neg Bool.false_ne_true]
        cases l with
        | nil =>
          -- the last segment of the run
          rw [nil_append, length_singleton]
          split
          · omega
          next hopen =>
            cases n with
            | zero => simp [mapLoop]
            | succ n =>
              cases rest with
              | nil => simp [mapLoop]
              | cons next rest =>
                refine absurd (hsep seg rfl next rfl) fun hgap => hopen ?_
                rcases hgap with hgap | hgap
                · exact .inl ⟨by omega, next, rfl, hgap⟩
                · exact .inr hgap
        | cons next l =>
          obtain ⟨hgap, hrest⟩ := isChain_cons_cons.mp hchain
          unfold Gap at hgap
          rw [not_or] at hgap
          have hopen : ¬ ((0 < n ∧ ∃ b ∈ ((next :: l) ++ rest).head?, b.offset % pageSize ≠ 0) ∨
              (seg.offset + seg.len) % pageSize ≠ 0) := by
            rintro (⟨-, b, hb, hoff⟩ | hend)
            · obtain rfl := Option.some.inj hb
              exact hgap.1 hoff
            · exact hgap.2 hend
          rw [if_neg hopen, ih (cons_ne_nil _ _) n hrest
            fun a ha => hsep a (by rwa [List.getLast?_cons_cons])]
          simp

/-- Lists of segments that are runs one after the other. -/
def Runs (holesOk : Bool) : List (List Seg) → Prop
  | [] => True
  | l :: ls => l ≠ [] ∧ Run holesOk l ls.flatten ∧ Runs holesOk ls

theorem regionsOf_le_depth {depth n : Nat} (hn : 0 < n) (h : n ≤ depth) :
    regionsOf depth n = 1 := by
  exact Nat.div_eq_of_lt_le (by omega) (by omega)

theorem regionsOf_add_depth {depth n : Nat} (hdepth : 0 < depth) :
    regionsOf depth (n + depth) = regionsOf depth n + 1 := by
  unfold regionsOf
  rw [show n + depth + depth - 1 = n + depth - 1 + depth by omega, Nat.add_div_right _ hdepth]

theorem regions_flatten {ia : Ia} (hdepth : 0 < ia.maxFrwrDepth) {fuel : Nat} {ls : List (List Seg)}
    (h : Runs ia.holesOk ls) (hls : ls ≠ []) (hfuel : ls.flatten.length < fuel) :
    regions ia fuel ls.flatten = some (ls.map fun l => regionsOf ia.maxFrwrDepth l.length).sum := by
  induction fuel generalizing ls with
  | zero => omega
  | succ fuel ih =>
    match ls, hls with
    | l :: ls, _ =>
      obtain ⟨hl, hrun, hruns⟩ := h
      have hpos := length_pos_iff.mpr hl
      rw [flatten_cons, length_append] at hfuel
      have htake : frwrOpMap ia (l ++ ls.flatten) = min ia.maxFrwrDepth l.length := by
        unfold frwrOpMap
        rw [mapLoop_run hrun hl, length_append]
        omega
      rw [flatten_cons, regions, htake]
      by_cases hall : l.length ≤ ia.maxFrwrDepth
      · rw [Nat.min_eq_right hall, drop_left, map_cons, sum_cons, regionsOf_le_depth hpos hall]
        cases ls with
        | nil => rfl
        | cons l' ls =>
          have hne : (l' :: ls).flatten ≠ [] := by
            exact fun hnil => hruns.1 (append_eq_nil_iff.mp hnil).1
          rw [if_neg hne, ih hruns (cons_ne_nil _ _) (by omega), Option.map_some, Nat.add_comm]
      · obtain ⟨r, hr⟩ : ∃ r, l.length = r + ia.maxFrwrDepth :=
          ⟨l.length - ia.maxFrwrDepth, by omega⟩
        have hdrop : (l.drop ia.maxFrwrDepth).length = r := by rw [length_drop]; omega
        have hne : l.drop ia.maxFrwrDepth ≠ [] := by
          rw [← length_pos_iff]
          omega
        have hih := @ih (l.drop ia.maxFrwrDepth :: ls) ⟨hne, hrun.drop (by omega), hruns⟩
          (cons_ne_nil _ _) (by rw [flatten_cons, length_append]; omega)
        rw [Nat.min_eq_left (by omega), drop_append_of_le_length (by omega),
          if_neg fun hnil => hne (append_eq_nil_iff.mp hnil).1]
        rw [flatten_cons] at hih
        rw [hih, map_cons, map_cons, sum_cons, sum_cons, hdrop, hr,
          regionsOf_add_depth hdepth, Option.map_some]
        exact congrArg some (Nat.add_right_comm _ _ _)

def pagesTouched (offset len : Nat) : Nat := (offset + len + pageSize - 1) / pageSize

/-- An iovec that lies in one page. -/
def Kvec.InPage (vec : Kvec) : Prop := vec.iovBase % pageSize + vec.iovLen ≤ pageSize

theorem convertKvec_inPage {vec : Kvec} (h : vec.InPage) :
    convertKvec vec = if vec.iovLen = 0 then [] else [⟨none, vec.iovBase, vec.iovLen⟩] := by
  unfold Kvec.InPage pageSize at h
  unfold convertKvec
  rw [U32.wrap_of_lt (by omega)]
  split
  next hzero => rw [hzero]; rfl
  next hpos =>
    obtain ⟨n, hn⟩ := Nat.exists_eq_succ_of_ne_zero hpos
    rw [hn, cutKvec, if_neg (Nat.succ_ne_zero n)]
    dsimp only
    have hmin : min (pageSize - vec.iovBase % pageSize) n.succ = n.succ := by
      unfold pageSize
      omega
    rw [hmin, Nat.sub_self]
    cases n <;> rfl

/-- The segments of a page list: no gaps, one for each page, and where they begin and end. -/
theorem convertPages_spec {present : Nat → Bool} {page offset len fuel : Nat}
    (hoff : offset < pageSize)
    (hfuel : len ≤ fuel) (hok : (convertPages present page offset len fuel).2 = true) :
    let segs := (convertPages present page offset len fuel).1
    (0 < len → segs.length = pagesTouched offset len) ∧ (len = 0 → segs = []) ∧
      segs.IsChain (fun a b => ¬ Gap a b) ∧ (∀ a ∈ segs.head?, a.offset = offset) ∧
      ∀ a ∈ segs.getLast?, (a.offset + a.len) % pageSize = (offset + len) % pageSize := by
  induction fuel generalizing page offset len with
  | zero =>
    obtain rfl := Nat.le_zero.mp hfuel
    exact ⟨fun h => absurd h (Nat.lt_irrefl 0), fun _ => rfl, .nil, by
      simp [convertPages], by simp [convertPages]⟩
  | succ fuel ih =>
    rw [convertPages] at hok ⊢
    by_cases hzero : len = 0
    · rw [if_pos hzero]
      exact ⟨by omega, fun _ => rfl, .nil, by simp, by simp⟩
    rw [if_neg hzero] at hok ⊢
    by_cases hpresent : present page = true
    swap
    · rw [if_pos hpresent] at hok
      exact absurd hok Bool.false_ne_true
    rw [if_neg (not_not.mpr hpresent)] at hok ⊢
    dsimp only at hok ⊢
    generalize hn : min (pageSize - offset) len = n at hok ⊢
    obtain ⟨hlen, hnil, hchain, hhead, hlast⟩ := ih (by decide) (by omega) hok
    refine ⟨fun _ => ?_, fun h => absurd h hzero, ?_, ?_, ?_⟩
    · rw [length_cons]
      by_cases hend : len - n = 0
      · rw [hnil hend, length_nil]
        unfold pagesTouched
        unfold pageSize at *
        omega
      · rw [hlen (by omega)]
        unfold pagesTouched
        unfold pageSize at *
        omega
    · rw [isChain_cons]
      refine ⟨fun b hb => ?_, hchain⟩
      have hfull : n = pageSize - offset := by
        by_contra hshort
        rw [hnil (by omega)] at hb
        cases hb
      unfold Gap
      rw [hhead b hb, hfull]
      dsimp only
      unfold pageSize at *
      omega
    · intro a ha
      obtain rfl := Option.some.inj ha
      rfl
    · intro a ha
      by_cases hend : len - n = 0
      · rw [hnil hend, List.getLast?_singleton] at ha
        obtain rfl := Option.some.inj ha
        rw [show n = len by omega]
      · generalize hsegs : (convertPages present (page + 1) 0 (len - n) fuel).1 = segs at ha hlast
        have hne : segs ≠ [] := by
          rintro rfl
          have := hlen (by omega)
          rw [hsegs] at this
          unfold pagesTouched pageSize at this
          simp only [length_nil] at this
          omega
        have hlast' : a ∈ segs.getLast? := by
          cases segs with
          | nil => exact absurd rfl hne
          | cons b segs => rwa [List.getLast?_cons_cons] at ha
        rw [hlast a hlast']
        unfold pageSize at *
        omega

end Xprtrdma.Budget
