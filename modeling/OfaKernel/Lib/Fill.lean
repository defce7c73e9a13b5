-- SUMMARY: Filling a row of buffers front to back.
import Mathlib.Algebra.GroupWithZero.Nat
import Mathlib.Data.List.GetD
import Mathlib.Data.List.Induction
import Mathlib.Algebra.BigOperators.Group.List.Basic

/-!
# Filling a row of buffers

A row of buffers is the list of their capacities. `fill` gives what each holds once `n` units
have been put in, front first.
-/

open List

namespace Fill

/-! ## What each buffer holds -/

/-- The contents of the buffers after `n` units. -/
def fill : List Nat → Nat → List Nat
  | [], _ => []
  | c :: cs, n => min n c :: fill cs (n - c)

@[simp] theorem length_fill (cs : List Nat) (n : Nat) : (fill cs n).length = cs.length := by
  induction cs generalizing n with
  | nil => rfl
  | cons c cs ih => simp [fill, ih]

theorem sum_fill (cs : List Nat) (n : Nat) : (fill cs n).sum = min n cs.sum := by
  induction cs generalizing n with
  | nil => simp [fill]
  | cons c cs ih =>
    simp only [fill, sum_cons, ih]
    omega

theorem fill_zero (cs : List Nat) : fill cs 0 = List.replicate cs.length 0 := by
  induction cs with
  | nil => rfl
  | cons c cs ih => simp [fill, ih, replicate_succ]

/-- The buffers before number `i` are full, those behind it are empty. -/
theorem getElem_fill {cs : List Nat} {i off : Nat} (hoff : off ≤ cs.getD i 0) {j : Nat}
    (hj : j < (fill cs ((cs.take i).sum + off)).length) :
    (fill cs ((cs.take i).sum + off))[j] =
      if j < i then cs.getD j 0 else if j = i then off else 0 := by
  induction cs generalizing i j with
  | nil => simp at hj
  | cons c cs ih =>
    cases i with
    | zero =>
      simp only [getD_cons_zero] at hoff
      have hrest : off - c = 0 := by omega
      cases j with
      | zero => simpa [fill] using Nat.min_eq_left hoff
      | succ j => simp [fill, hrest, fill_zero]
    | succ i =>
      have hsum : c + (cs.take i).sum + off - c = (cs.take i).sum + off := by omega
      cases j with
      | zero => simp [fill, Nat.add_assoc]
      | succ j =>
        simp only [take_succ_cons, sum_cons, fill, hsum, getElem_cons_succ]
        rw [ih (by simpa using hoff)]
        simp

theorem sum_take_mono (l : List Nat) {i j : Nat} (hij : i ≤ j) :
    (l.take i).sum ≤ (l.take j).sum := by
  obtain ⟨d, rfl⟩ := Nat.exists_eq_add_of_le hij
  rw [take_add, sum_append]
  exact Nat.le_add_right _ _

theorem sum_take_le (l : List Nat) (i : Nat) : (l.take i).sum ≤ l.sum := by
  conv_rhs => rw [← take_append_drop i l, sum_append]
  exact Nat.le_add_right _ _

theorem sum_take_succ {l : List Nat} {i : Nat} (hi : i < l.length) :
    (l.take (i + 1)).sum = (l.take i).sum + l.getD i 0 := by
  rw [take_succ_eq_append_getElem hi, sum_append, sum_singleton,
    getD_eq_getElem _ _ hi]

/-- A place of the row lies in one buffer only. -/
theorem place_unique {l : List Nat} {i j a b : Nat} (hi : i < l.length) (hj : j < l.length)
    (ha : a < l.getD i 0) (hb : b < l.getD j 0)
    (h : (l.take i).sum + a = (l.take j).sum + b) : i = j := by
  have hi' := sum_take_succ hi
  have hj' := sum_take_succ hj
  rcases Nat.lt_trichotomy i j with hlt | heq | hlt
  · have := sum_take_mono l (show i + 1 ≤ j from hlt)
    omega
  · exact heq
  · have := sum_take_mono l (show j + 1 ≤ i from hlt)
    omega

/-! ## Pieces -/

/-- One piece: the buffer it goes to, the place in the buffer, its length. -/
structure Piece where
  idx : Nat
  off : Nat
  len : Nat
  deriving Repr, DecidableEq

/-- The units of all pieces. -/
def total (ps : List Piece) : Nat := (ps.map Piece.len).sum

/-- The units that went to buffer `j`. -/
def amount (ps : List Piece) (j : Nat) : Nat :=
  ((ps.filter fun p => p.idx == j).map Piece.len).sum

@[simp] theorem total_nil : total [] = 0 := rfl

@[simp] theorem total_append (ps qs : List Piece) : total (ps ++ qs) = total ps + total qs := by
  simp [total]

@[simp] theorem total_singleton (p : Piece) : total [p] = p.len := by
  simp [total]

theorem amount_push (ps : List Piece) (p : Piece) (j : Nat) :
    amount (ps ++ [p]) j = amount ps j + if p.idx = j then p.len else 0 := by
  by_cases h : p.idx = j <;> simp [amount, filter_append, h]

/-- Where a piece stands in the row is where the pieces before it end. -/
def InOrder (cs : List Nat) (ps : List Piece) : Prop :=
  ∀ k (hk : k < ps.length), (cs.take ps[k].idx).sum + ps[k].off = total (ps.take k)

theorem InOrder.push {cs : List Nat} {ps : List Piece} (h : InOrder cs ps) {p : Piece}
    (hp : (cs.take p.idx).sum + p.off = total ps) : InOrder cs (ps ++ [p]) := by
  intro k hk
  by_cases hlast : k < ps.length
  · rw [getElem_append_left hlast, take_append_of_le_length (Nat.le_of_lt hlast)]
    exact h k hlast
  · obtain rfl : k = ps.length := by
      simp only [length_append, length_singleton] at hk
      omega
    simpa using hp

/-- The pieces have been put into the row in order, each inside its buffer, and the next
one goes to place `off` of buffer `i`. -/
structure Placed (cs : List Nat) (ps : List Piece) (i off : Nat) : Prop where
  idx_le : i ≤ cs.length
  off_le : off ≤ cs.getD i 0
  inside : ∀ p ∈ ps, p.idx < cs.length ∧ p.off + p.len ≤ cs.getD p.idx 0
  order : InOrder cs ps
  next : (cs.take i).sum + off = total ps
  amounts : ∀ j, amount ps j = if j < i then cs.getD j 0 else if j = i then off else 0

namespace Placed

variable {cs : List Nat} {ps : List Piece} {i off : Nat}

theorem start (cs : List Nat) : Placed cs [] 0 0 where
  idx_le := Nat.zero_le _
  off_le := Nat.zero_le _
  inside := by simp
  order := by
    intro k hk
    simp at hk
  next := by simp
  amounts := by simp [amount]

/-- The rest of the buffer is filled. -/
theorem push_full (h : Placed cs ps i off) (hi : i < cs.length) :
    Placed cs (ps ++ [⟨i, off, cs.getD i 0 - off⟩]) (i + 1) 0 := by
  have hoff := h.off_le
  have htake := sum_take_succ hi
  refine ⟨hi, Nat.zero_le _, ?_, h.order.push h.next, ?_, ?_⟩
  · intro p hp
    rcases mem_append.mp hp with hp | hp
    · exact h.inside p hp
    · obtain rfl := mem_singleton.mp hp
      exact ⟨hi, by simp only; omega⟩
  · have hnext := h.next
    simp only [total_append, total_singleton]
    omega
  · intro j
    rw [amount_push, h.amounts]
    rcases Nat.lt_trichotomy j i with hj | rfl | hj
    · rw [if_pos hj, if_neg (by simp only; omega), if_pos (by omega)]
      rfl
    · simp only [Nat.lt_irrefl, ↓reduceIte, Nat.lt_succ_self]
      omega
    · simp only
      rw [if_neg (by omega), if_neg (by omega), if_neg (by omega), if_neg (by omega)]
      split <;> rfl

/-- Part of the rest of the buffer is used. -/
theorem push_part (h : Placed cs ps i off) (hi : i < cs.length) {n : Nat}
    (hn : off + n ≤ cs.getD i 0) : Placed cs (ps ++ [⟨i, off, n⟩]) i (off + n) := by
  refine ⟨h.idx_le, hn, ?_, h.order.push h.next, ?_, ?_⟩
  · intro p hp
    rcases mem_append.mp hp with hp | hp
    · exact h.inside p hp
    · obtain rfl := mem_singleton.mp hp
      exact ⟨hi, hn⟩
  · have hnext := h.next
    simp only [total_append, total_singleton]
    omega
  · intro j
    rw [amount_push, h.amounts]
    rcases Nat.lt_trichotomy j i with hj | rfl | hj
    · rw [if_pos hj, if_neg (by simp only; omega), if_pos hj]
      rfl
    · simp
    · simp only
      rw [if_neg (by omega), if_neg (by omega), if_neg (by omega), if_neg (by omega),
        if_neg (by omega)]

/-- Piece by piece or at once, each buffer holds the same. -/
theorem amounts_eq_fill (h : Placed cs ps i off) :
    (List.range cs.length).map (amount ps) = fill cs (total ps) := by
  rw [← h.next]
  apply ext_getElem
  · simp
  · intro j hj hj'
    rw [getElem_fill h.off_le hj', getElem_map, getElem_range, h.amounts]

/-- The units put in never exceed the capacity. -/
theorem total_le (h : Placed cs ps i off) : total ps ≤ cs.sum := by
  have hle : (cs.take i).sum + cs.getD i 0 ≤ cs.sum := by
    conv_rhs => rw [← take_append_drop i cs, sum_append]
    apply Nat.add_le_add_left
    by_cases hi : i < cs.length
    · rw [drop_eq_getElem_cons hi, sum_cons, getD_eq_getElem _ _ hi]
      exact Nat.le_add_right _ _
    · simp [Nat.not_lt.mp hi]
  have hoff := h.off_le
  have hnext := h.next
  omega

end Placed

section

variable {α : Type}

/-- The buffers after `data` went to the place of one piece. -/
def store (mem : Nat → Nat → α) (p : Piece) (data : List α) (i o : Nat) : α :=
  if i = p.idx ∧ p.off ≤ o ∧ o < p.off + p.len then data.getD (o - p.off) (mem i o) else mem i o

/-- The buffers after `data` was cut along the pieces. -/
def scatter (mem : Nat → Nat → α) : List Piece → List α → Nat → Nat → α
  | [], _ => mem
  | p :: ps, data => scatter (store mem p (data.take p.len)) ps (data.drop p.len)

theorem scatter_append (mem : Nat → Nat → α) (ps qs : List Piece) {d₁ : List α} (d₂ : List α)
    (h : d₁.length = total ps) :
    scatter mem (ps ++ qs) (d₁ ++ d₂) = scatter (scatter mem ps d₁) qs d₂ := by
  induction ps generalizing mem d₁ with
  | nil =>
    obtain rfl := length_eq_zero_iff.mp h
    rfl
  | cons p ps ih =>
    have hlen : p.len ≤ d₁.length := by
      rw [h, ← singleton_append, total_append, total_singleton]
      exact Nat.le_add_right _ _
    have hrest : (d₁.drop p.len).length = total ps := by
      rw [length_drop, h, ← singleton_append, total_append, total_singleton]
      exact Nat.add_sub_cancel_left _ _
    simp only [cons_append, scatter, take_append_of_le_length hlen,
      drop_append_of_le_length hlen]
    exact ih _ hrest

theorem InOrder.of_push {cs : List Nat} {ps : List Piece} {p : Piece}
    (h : InOrder cs (ps ++ [p])) :
    InOrder cs ps ∧ (cs.take p.idx).sum + p.off = total ps := by
  constructor
  · intro k hk
    have := h k (by rw [length_append]; omega)
    rwa [getElem_append_left hk, take_append_of_le_length (Nat.le_of_lt hk)] at this
  · have := h ps.length (by simp)
    simpa using this

/-- Pieces put into the row in order make the data of one piece: a place of the row holds the data
of that place. -/
theorem scatter_inOrder {cs : List Nat} {ps : List Piece} (horder : InOrder cs ps)
    (hinside : ∀ p ∈ ps, p.idx < cs.length ∧ p.off + p.len ≤ cs.getD p.idx 0)
    (mem : Nat → Nat → α) {data : List α} (hdata : data.length = total ps) {i o : Nat}
    (hi : i < cs.length) (ho : o < cs.getD i 0) :
    scatter mem ps data i o = data.getD ((cs.take i).sum + o) (mem i o) := by
  induction ps using List.reverseRecOn generalizing data with
  | nil =>
    obtain rfl := length_eq_zero_iff.mp hdata
    rfl
  | append_singleton ps p ih =>
    obtain ⟨horder', hp⟩ := horder.of_push
    obtain ⟨hidx, hroom⟩ := hinside p (by simp)
    rw [total_append, total_singleton] at hdata
    have hsplit := take_append_drop (total ps) data
    have htake : (data.take (total ps)).length = total ps := by
      rw [length_take]
      omega
    have hdrop : (data.drop (total ps)).length = p.len := by
      rw [length_drop]
      omega
    have ih := ih horder' (fun q hq => hinside q (by simp [hq])) htake
    conv_lhs => rw [← hsplit, scatter_append mem ps [p] _ htake]
    simp only [scatter, store, take_of_length_le (Nat.le_of_eq hdrop), ih]
    split
    case isTrue hin =>
      obtain ⟨rfl, hlo, hhi⟩ := hin
      have hplace : (cs.take p.idx).sum + o = total ps + (o - p.off) := by omega
      rw [hplace, getD_eq_getElem _ _ (by omega), getD_eq_getElem _ _ (by omega),
        getElem_drop]
    case isFalse hout =>
      by_cases hbefore : (cs.take i).sum + o < total ps
      · rw [getD_eq_getElem _ _ (by omega), getD_eq_getElem _ _ (by omega),
          getElem_take]
      · -- behind the pieces before, and not in the last one: behind all of them
        have hbehind : data.length ≤ (cs.take i).sum + o := by
          by_contra hlt
          obtain rfl : i = p.idx := place_unique hi hidx ho
            (show (cs.take i).sum + o - (cs.take p.idx).sum < cs.getD p.idx 0 by omega) (by omega)
          omega
        rw [getD_eq_default _ _ (by omega), getD_eq_default _ _ hbehind]

end

end Fill
