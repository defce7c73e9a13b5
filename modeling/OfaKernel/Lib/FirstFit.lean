-- SUMMARY: First-fit placement in a sorted list of disjoint intervals.
import Mathlib.Data.List.Basic

/-!
# First fit

A sorted list of items occupies intervals `[lo a, lo a + len a)`. An item that starts before the
end of the scan's candidate moves the candidate behind the item.
-/

open List

namespace FirstFit

variable {α : Type*} (lo len : α → Nat)

/-- The item `a` ends where `b` starts or before. -/
def Before (a b : α) : Prop := lo a + len a ≤ lo b

/-- The items are not empty and lie one after the other. -/
structure Placed (l : List α) : Prop where
  pos : ∀ a ∈ l, 0 < len a
  sorted : l.Pairwise (Before lo len)

/-- The `size` positions from `i` are in no item of the list. -/
def Free (l : List α) (i size : Nat) : Prop :=
  ∀ a ∈ l, i + size ≤ lo a ∨ lo a + len a ≤ i

instance (l : List α) (i size : Nat) : Decidable (Free lo len l i size) :=
  inferInstanceAs (Decidable (∀ a ∈ l, _))

/-- The scan from candidate `c`: the candidate at its end and the number of items passed. -/
def scan (size : Nat) : Nat → List α → Nat × Nat
  | c, [] => (c, 0)
  | c, a :: l =>
    if lo a < c + size then
      let r := scan size (lo a + len a) l
      (r.1, r.2 + 1)
    else (c, 0)

variable {lo len} {l : List α} {a : α} {c i size : Nat}

theorem Placed.tail (h : Placed lo len (a :: l)) : Placed lo len l :=
  ⟨fun b hb => h.pos b (mem_cons_of_mem _ hb), h.sorted.of_cons⟩

theorem Placed.nil : Placed lo len [] :=
  ⟨by simp, List.Pairwise.nil⟩

theorem Placed.sublist {l' : List α} (h : Placed lo len l) (hs : l'.Sublist l) :
    Placed lo len l' :=
  ⟨fun b hb => h.pos b (hs.subset hb), h.sorted.sublist hs⟩

theorem Placed.before_of_mem (h : Placed lo len (a :: l)) : ∀ b ∈ l, lo a + len a ≤ lo b :=
  (pairwise_cons.mp h.sorted).1

/-- Items placed between `c` and `n` are at most as many as there are positions. -/
theorem Placed.length_le {n : Nat} (h : Placed lo len l) (hc : ∀ b ∈ l, c ≤ lo b) (hcn : c ≤ n)
    (hn : ∀ b ∈ l, lo b + len b ≤ n) : c + l.length ≤ n := by
  induction l generalizing c with
  | nil => exact hcn
  | cons a l ih =>
    have hca : c ≤ lo a := hc a mem_cons_self
    have hpos : 0 < len a := h.pos a mem_cons_self
    have hrest : lo a + len a + l.length ≤ n :=
      ih h.tail h.before_of_mem (hn a mem_cons_self)
        fun b hb => hn b (mem_cons_of_mem _ hb)
    rw [length_cons]
    omega

/-! ## Where the scan stops -/

/-- The items passed end at the candidate or before. -/
theorem scan_take (size : Nat) (h : Placed lo len l) (hc : ∀ b ∈ l, c ≤ lo b) :
    c ≤ (scan lo len size c l).1 ∧
      ∀ b ∈ l.take (scan lo len size c l).2, lo b + len b ≤ (scan lo len size c l).1 := by
  induction l generalizing c with
  | nil => simp [scan]
  | cons a l ih =>
    obtain ⟨hle, htake⟩ := ih h.tail h.before_of_mem
    have hca : c ≤ lo a := hc a mem_cons_self
    unfold scan
    split
    · refine ⟨by dsimp only; omega, fun b hb => ?_⟩
      rcases mem_cons.mp hb with rfl | hb
      · exact hle
      · exact htake b hb
    · exact ⟨Nat.le_refl _, by simp⟩

/-- The items not passed start behind the candidate's end. -/
theorem scan_drop (size : Nat) (h : Placed lo len l) :
    ∀ b ∈ l.drop (scan lo len size c l).2, (scan lo len size c l).1 + size ≤ lo b := by
  induction l generalizing c with
  | nil => simp
  | cons a l ih =>
    unfold scan
    split
    · exact ih h.tail
    case isFalse hlt =>
      have ha : c + size ≤ lo a := Nat.le_of_not_lt hlt
      intro b hb
      rcases mem_cons.mp hb with rfl | hb
      · exact ha
      · exact Nat.le_trans ha (Nat.le_trans (Nat.le_add_right _ _) (h.before_of_mem b hb))

theorem scan_free (size : Nat) (h : Placed lo len l) (hc : ∀ b ∈ l, c ≤ lo b) :
    Free lo len l (scan lo len size c l).1 size := by
  intro b hb
  rw [← take_append_drop (scan lo len size c l).2 l] at hb
  rcases mem_append.mp hb with hb | hb
  · exact .inr ((scan_take size h hc).2 b hb)
  · exact .inl (scan_drop size h b hb)

/-- No gap lies before the one the scan finds. -/
theorem scan_least (hci : c ≤ i) (hfree : Free lo len l i size) :
    (scan lo len size c l).1 ≤ i := by
  induction l generalizing c with
  | nil => exact hci
  | cons a l ih =>
    unfold scan
    split
    case isTrue hlt =>
      -- an item that starts before `c + size` is not behind the gap at `i`
      have hai : lo a + len a ≤ i := by
        rcases hfree a mem_cons_self with h | h
        · omega
        · exact h
      exact ih hai fun b hb => hfree b (mem_cons_of_mem _ hb)
    case isFalse => exact hci

/-- An item of the size scanned for, put at the candidate behind the items passed. -/
theorem Placed.insert (h : Placed lo len l) (hpos : 0 < size) {x : α}
    (hlo : lo x = (scan lo len size 0 l).1) (hlen : len x = size) :
    Placed lo len (l.take (scan lo len size 0 l).2 ++ x :: l.drop (scan lo len size 0 l).2) := by
  have htake := (scan_take size h fun b _ => Nat.zero_le (lo b)).2
  have hdrop := scan_drop size (c := 0) h
  have hcut := take_append_drop (scan lo len size 0 l).2 l
  generalize (scan lo len size 0 l).2 = n at *
  have hsorted : (l.take n ++ l.drop n).Pairwise (Before lo len) := hcut.symm ▸ h.sorted
  obtain ⟨hpre, hsuf, hcross⟩ := pairwise_append.mp hsorted
  constructor
  · intro b hb
    rcases mem_append.mp hb with hb | hb
    · exact h.pos b (mem_of_mem_take hb)
    rcases mem_cons.mp hb with rfl | hb
    · rw [hlen]; exact hpos
    · exact h.pos b (mem_of_mem_drop hb)
  · have hx : ∀ b ∈ l.drop n, Before lo len x b := by
      intro b hb
      unfold Before
      rw [hlo, hlen]
      exact hdrop b hb
    apply pairwise_append.mpr
    refine ⟨hpre, pairwise_cons.mpr ⟨hx, hsuf⟩, fun b hb d hd => ?_⟩
    rcases mem_cons.mp hd with rfl | hd
    · unfold Before
      rw [hlo]
      exact htake b hb
    · exact hcross b hb d hd

end FirstFit
