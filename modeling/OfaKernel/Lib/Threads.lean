-- SUMMARY: Lists of threads and what the step of one changes.
import Mathlib.Algebra.GroupWithZero.Nat
import Mathlib.Algebra.Ring.Int.Defs
import Mathlib.Algebra.Order.BigOperators.Group.List

/-!
# Threads

A list whose entries are the program points of threads. When one thread moves on, a sum
over the list changes by what that thread counts for.
-/

open List

namespace Threads

variable {α : Type*}

section Sum

variable {M : Type*} [AddCommMonoid M] (f : α → M) {l : List α} {i : Nat} {a : α}

theorem sum_map_set (b : α) (h : l[i]? = some a) :
    ((l.set i b).map f).sum + f a = (l.map f).sum + f b := by
  induction l generalizing i with
  | nil => simp at h
  | cons x l ih =>
    cases i with
    | zero =>
      have hx : x = a := by simpa using h
      subst hx
      simp only [set_cons_zero, map_cons, sum_cons]
      rw [add_assoc, add_comm (f b), add_assoc (f x), add_assoc, add_left_comm]
    | succ i =>
      have hl := ih (by simpa using h)
      simp only [set_cons_succ, map_cons, sum_cons]
      rw [add_assoc, hl, add_assoc]

theorem sum_map_eraseIdx (h : l[i]? = some a) :
    ((l.eraseIdx i).map f).sum + f a = (l.map f).sum := by
  induction l generalizing i with
  | nil => simp at h
  | cons x l ih =>
    cases i with
    | zero =>
      have hx : x = a := by simpa using h
      subst hx
      exact add_comm _ _
    | succ i =>
      have hl := ih (by simpa using h)
      simp only [eraseIdx_cons_succ, map_cons, sum_cons]
      rw [add_assoc, hl]

end Sum

theorem perm_set {l : List α} {i : Nat} {a : α} (h : l[i]? = some a) (b : α) :
    (l.set i b ++ [a]).Perm (l ++ [b]) := by
  induction l generalizing i with
  | nil => simp at h
  | cons x l ih =>
    cases i with
    | zero =>
      have hx : x = a := by simpa using h
      subst hx
      have hfront := @perm_append_comm _ (b :: l) [x]
      exact hfront.trans (List.Perm.cons x (@perm_append_comm _ [b] l))
    | succ i => exact (ih (by simpa using h)).cons x

theorem eq_zero_of_sum_map_eq_zero {f : α → Int} {l : List α} (hnonneg : ∀ a ∈ l, 0 ≤ f a)
    (hsum : (l.map f).sum = 0) : ∀ a ∈ l, f a = 0 := by
  induction l with
  | nil => simp
  | cons x l ih =>
    have hx := hnonneg x mem_cons_self
    have hl : 0 ≤ (l.map f).sum := sum_nonneg fun n hn => by
      obtain ⟨a, ha, rfl⟩ := mem_map.mp hn
      exact hnonneg a (mem_cons_of_mem _ ha)
    rw [map_cons, sum_cons] at hsum
    intro a ha
    rcases mem_cons.mp ha with rfl | ha
    · omega
    · exact ih (fun b hb => hnonneg b (mem_cons_of_mem _ hb)) (by omega) a ha

theorem getElem?_set_of_getElem? {l : List α} {i : Nat} {a : α} (h : l[i]? = some a) (b : α)
    (j : Nat) : (l.set i b)[j]? = if j = i then some b else l[j]? := by
  have hlt : i < l.length := (List.getElem?_eq_some_iff.mp h).1
  by_cases hj : j = i
  · subst hj
    rw [if_pos rfl, List.getElem?_set_self hlt]
  · rw [if_neg hj, List.getElem?_set_ne (Ne.symm hj)]

/-- The threads at a place in `p` are those that have what only one thread can have. -/
def Exclusive (p : α → Bool) (l : List α) (who : Option Nat) : Prop :=
  ∀ i a, l[i]? = some a → (p a ↔ who = some i)

variable {p : α → Bool} {l : List α} {who : Option Nat}

def whoAfter (p : α → Bool) (i : Nat) (a b : α) (who : Option Nat) : Option Nat :=
  if p b then some i else if p a then none else who

/-- A thread may take what no thread has, keep it, and give it back. -/
theorem Exclusive.set (h : Exclusive p l who) {i : Nat} {a : α} (ha : l[i]? = some a) (b : α)
    (hfree : p b → p a ∨ who = none) : Exclusive p (l.set i b) (whoAfter p i a b who) := by
  intro j c hj
  rw [getElem?_set_of_getElem? ha] at hj
  have hi := h i a ha
  unfold whoAfter
  by_cases hji : j = i
  · subst hji
    rw [if_pos rfl, Option.some.injEq] at hj
    subst hj
    by_cases hb : p b
    · simp [hb]
    · by_cases hp : p a
      · simp [hb, hp]
      · have hne : who ≠ some j := fun he => hp (hi.mpr he)
        simp [hne]
  · rw [if_neg hji] at hj
    rw [h j c hj]
    by_cases hb : p b
    · rw [if_pos hb]
      rcases hfree hb with hp | hnone
      · rw [hi.mp hp]
      · simp [hnone, Ne.symm hji]
    · rw [if_neg hb]
      by_cases hp : p a
      · rw [if_pos hp, hi.mp hp]
        simp [Ne.symm hji]
      · rw [if_neg hp]

theorem Exclusive.append (h : Exclusive p l who) (hlt : ∀ i, who = some i → i < l.length) {a : α}
    (ha : p a = false) : Exclusive p (l ++ [a]) who := by
  intro j c hj
  by_cases hjl : j < l.length
  · rw [List.getElem?_append_left hjl] at hj
    exact h j c hj
  · have hne : who ≠ some j := fun he => hjl (hlt j he)
    have hc : c = a := by
      rw [List.getElem?_append_right (by omega)] at hj
      exact (mem_singleton.mp (mem_of_getElem? hj))
    simp [hc, ha, hne]

end Threads
