-- SUMMARY: Runs of segments of memory.
import Mathlib.Algebra.GroupWithZero.Nat
import Mathlib.Algebra.BigOperators.Group.List.Basic
import Mathlib.Order.Nat

/-!
# Runs of segments

A run is a list of segments, each an address and a length. Its bytes are numbered through all
segments. A list of lengths coarsens another one as happens when neighbours are merged.
-/

open List

namespace Segments

/-- The address of byte `off` of the run. -/
def lookup : List (Nat × Nat) → Nat → Option Nat
  | [], _ => none
  | (addr, len) :: s, off => if off < len then some (addr + off) else lookup s (off - len)

/-- The number of bytes before segment `k`. -/
def start (lens : List Nat) (k : Nat) : Nat := (lens.take k).sum

variable {s t : List (Nat × Nat)} {off : Nat}

theorem lookup_append (s t : List (Nat × Nat)) (off : Nat) :
    lookup (s ++ t) off =
      if off < (s.map Prod.snd).sum then lookup s off else lookup t
        (off - (s.map Prod.snd).sum) := by
  induction s generalizing off with
  | nil => rfl
  | cons e s ih =>
    obtain ⟨addr, len⟩ := e
    simp only [cons_append, lookup, map_cons, sum_cons]
    by_cases hlt : off < len
    · rw [if_pos hlt, if_pos hlt, if_pos (by omega)]
    · rw [if_neg hlt, if_neg hlt, ih]
      by_cases hin : off - len < (s.map Prod.snd).sum
      · rw [if_pos hin, if_pos (by omega)]
      · rw [if_neg hin, if_neg (by omega), Nat.sub_sub]

/-- Empty segments can be left out. -/
theorem lookup_append_empty {z : List (Nat × Nat)} (hz : ∀ e ∈ z, e.2 = 0) (off : Nat) :
    lookup (s ++ (z ++ t)) off = lookup (s ++ t) off := by
  have hsum : (z.map Prod.snd).sum = 0 := by
    refine sum_eq_zero fun n hn => ?_
    obtain ⟨e, he, rfl⟩ := mem_map.mp hn
    exact hz e he
  rw [lookup_append, lookup_append s t, lookup_append z t, hsum,
    if_neg (Nat.not_lt_zero _), Nat.sub_zero]

/-- A byte of segment `k`. -/
theorem lookup_start {k addr len r : Nat} (hk : s[k]? = some (addr, len)) (hr : r < len) :
    lookup s (start (s.map Prod.snd) k + r) = some (addr + r) := by
  induction s generalizing k with
  | nil => cases hk
  | cons e s ih =>
    obtain ⟨a, n⟩ := e
    unfold lookup
    cases k with
    | zero =>
      obtain ⟨rfl, rfl⟩ := Prod.mk.inj (Option.some.inj hk)
      have hzero : start (((a, n) :: s).map Prod.snd) 0 + r = r := Nat.zero_add r
      rw [hzero, if_pos hr]
    | succ k =>
      have hstart : start (((a, n) :: s).map Prod.snd) (k + 1) = n + start (s.map Prod.snd) k := by
        simp [start]
      rw [hstart, if_neg (by omega), show n + start (s.map Prod.snd) k + r - n =
        start (s.map Prod.snd) k + r by omega]
      exact ih hk

theorem lookup_eq_none (h : (s.map Prod.snd).sum ≤ off) : lookup s off = none := by
  induction s generalizing off with
  | nil => rfl
  | cons e s ih =>
    rw [map_cons, sum_cons] at h
    unfold lookup
    rw [if_neg (by omega)]
    exact ih (by omega)

/-- Bytes of one page are neighbours, where the segments are made of whole pages. -/
theorem lookup_add {page d addr : Nat} (hpages : ∀ e ∈ s, page ∣ e.2) (hd : off % page + d < page)
    (h : lookup s off = some addr) : lookup s (off + d) = some (addr + d) := by
  induction s generalizing off with
  | nil => cases h
  | cons e s ih =>
    obtain ⟨a, len⟩ := e
    have hlen : page ∣ len := hpages (a, len) mem_cons_self
    unfold lookup at h ⊢
    split at h
    next hlt =>
      obtain rfl := Option.some.inj h
      -- the whole page of the byte lies in the segment
      have hin : off + d < len := by
        obtain ⟨m, rfl⟩ := hlen
        have hdiv := Nat.div_add_mod off page
        have hq : off / page < m := Nat.div_lt_of_lt_mul hlt
        have hle : page * (off / page + 1) ≤ page * m := Nat.mul_le_mul_left _ hq
        rw [Nat.mul_succ] at hle
        omega
      rw [if_pos hin, Nat.add_assoc]
    next hge =>
      rw [if_neg (by omega), show off + d - len = off - len + d by omega]
      refine ih (fun e' he' => hpages e' (mem_cons_of_mem _ he')) ?_ h
      obtain ⟨m, rfl⟩ := hlen
      rwa [Nat.sub_mul_mod (Nat.not_lt.mp hge)]

/-- A run with all addresses and lengths multiplied. -/
theorem lookup_scale (s : List (Nat × Nat)) {c d : Nat} (hd : d < c) (x : Nat) :
    lookup (s.map fun e => (e.1 * c, e.2 * c)) (x * c + d) =
      (lookup s x).map fun a => a * c + d := by
  induction s generalizing x with
  | nil => rfl
  | cons e s ih =>
    obtain ⟨addr, len⟩ := e
    rw [map_cons]
    unfold lookup
    dsimp only
    by_cases hlt : x < len
    · have hle : (x + 1) * c ≤ len * c := Nat.mul_le_mul_right c hlt
      rw [Nat.succ_mul] at hle
      rw [if_pos hlt, if_pos (by omega), Option.map_some, Nat.add_mul, Nat.add_assoc]
    · have hle : len * c ≤ x * c := Nat.mul_le_mul_right c (Nat.not_lt.mp hlt)
      rw [if_neg hlt, if_neg (by omega), show x * c + d - len * c = (x - len) * c + d by
        rw [Nat.sub_mul]; omega]
      exact ih (x - len)

/-- Every byte lies in a segment. -/
theorem exists_start {lens : List Nat} (h : off < lens.sum) :
    ∃ k n r, lens[k]? = some n ∧ r < n ∧ off = start lens k + r := by
  induction lens generalizing off with
  | nil => exact absurd h (Nat.not_lt_zero _)
  | cons n lens ih =>
    rcases Nat.lt_or_ge off n with hlt | hge
    · exact ⟨0, n, off, rfl, hlt, (Nat.zero_add off).symm⟩
    · rw [sum_cons] at h
      obtain ⟨k, n', r, hk, hr, hoff⟩ := @ih (off - n) (by omega)
      refine ⟨k + 1, n', r, hk, hr, ?_⟩
      have hstart : start (n :: lens) (k + 1) = n + start lens k := by simp [start]
      omega

theorem start_succ {lens : List Nat} {k n : Nat} (hk : lens[k]? = some n) :
    start lens (k + 1) = start lens k + n := by
  obtain ⟨hlt, hget⟩ := List.getElem?_eq_some_iff.mp hk
  unfold start
  rw [sum_take_succ _ k hlt, hget]

/-! ## Merged segments -/

/-- Each length of `fine` lies within one length of `coarse`. -/
def Coarsens (coarse fine : List Nat) : Prop :=
  ∀ k n, fine[k]? = some n →
    ∃ j n' d, coarse[j]? = some n' ∧ start fine k = start coarse j + d ∧ d + n ≤ n'

theorem Coarsens.refl (lens : List Nat) : Coarsens lens lens :=
  fun k n hk => ⟨k, n, 0, hk, rfl, (Nat.zero_add n).le⟩

theorem Coarsens.append {c c' f f' : List Nat} (h : Coarsens c f) (h' : Coarsens c' f')
    (hsum : c.sum = f.sum) : Coarsens (c ++ c') (f ++ f') := by
  have hstart (l l' : List Nat) (k : Nat) : start (l ++ l') (l.length + k) =
    l.sum + start l' k := by
    unfold start
    rw [take_length_add_append, sum_append]
  intro k n hk
  rcases Nat.lt_or_ge k f.length with hlt | hge
  · rw [List.getElem?_append_left hlt] at hk
    obtain ⟨j, n', d, hj, heq, hle⟩ := h k n hk
    have hjlt : j < c.length := (List.getElem?_eq_some_iff.mp hj).1
    refine ⟨j, n', d, by rw [List.getElem?_append_left hjlt, hj], ?_, hle⟩
    unfold start at heq ⊢
    rw [take_append_of_le_length hlt.le, take_append_of_le_length hjlt.le, heq]
  · obtain ⟨i, rfl⟩ := Nat.exists_eq_add_of_le hge
    rw [List.getElem?_append_right hge, Nat.add_sub_cancel_left] at hk
    obtain ⟨j, n', d, hj, heq, hle⟩ := h' i n hk
    refine ⟨c.length + j, n', d, ?_, ?_, hle⟩
    · rw [List.getElem?_append_right (Nat.le_add_right _ _), Nat.add_sub_cancel_left, hj]
    · rw [hstart, hstart, heq, hsum, Nat.add_assoc]

/-- The first `count` segments as one, and the rest merged. -/
theorem Coarsens.group {coarse fine : List Nat} {count : Nat}
    (h : Coarsens coarse (fine.drop count)) : Coarsens ((fine.take count).sum :: coarse) fine := by
  have hone : Coarsens [(fine.take count).sum] (fine.take count) := by
    intro k n hk
    refine ⟨0, _, start (fine.take count) k, rfl, (Nat.zero_add _).symm, ?_⟩
    calc start (fine.take count) k + n = start (fine.take count) (k + 1) := (start_succ hk).symm
      _ ≤ start (fine.take count) (k + 1) + ((fine.take count).drop (k + 1)).sum :=
        Nat.le_add_right _ _
      _ = (fine.take count).sum := by
          unfold start
          rw [← sum_append, take_append_drop]
  have happ := hone.append h (sum_singleton)
  rwa [take_append_drop] at happ

/-- More segments at the end. -/
theorem Coarsens.append_left {coarse fine : List Nat} (h : Coarsens coarse fine) (more : List Nat) :
    Coarsens (coarse ++ more) fine := by
  intro k n hk
  obtain ⟨j, n', d, hj, heq, hle⟩ := h k n hk
  have hjlt : j < coarse.length := (List.getElem?_eq_some_iff.mp hj).1
  refine ⟨j, n', d, by rw [List.getElem?_append_left hjlt, hj], ?_, hle⟩
  unfold start at heq ⊢
  rw [take_append_of_le_length hjlt.le, heq]

end Segments
