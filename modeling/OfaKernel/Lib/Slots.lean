-- SUMMARY: Lists kept in ordered slots.
import Mathlib.Data.List.Nodup
import Mathlib.Data.List.TakeWhile

/-!
# Ordered slots

`next` is the first entry of the nearest non-empty slot after a slot, `prev` the last one before
it.
-/

open List

namespace Slots

variable {ι β : Type*}

/-- The first entry of the slots `js`, searched in this order. -/
def first (slots : ι → List β) (js : List ι) : Option β :=
  js.findSome? fun j => (slots j).head?

/-- The last entry of the first non-empty slot of `js`. -/
def last (slots : ι → List β) (js : List ι) : Option β :=
  js.findSome? fun j => (slots j).getLast?

@[simp] theorem first_nil (slots : ι → List β) : first slots [] = none := rfl

@[simp] theorem first_cons (slots : ι → List β) (j : ι) (js : List ι) :
    first slots (j :: js) = (slots j).head?.or (first slots js) := by
  cases h : (slots j).head? <;> simp [first, h]

@[simp] theorem first_append (slots : ι → List β) (js ks : List ι) :
    first slots (js ++ ks) = (first slots js).or (first slots ks) := by
  simp [first]

theorem first_eq_none {slots : ι → List β} {js : List ι} :
    first slots js = none ↔ ∀ j ∈ js, slots j = [] := by
  simp [first]

theorem last_eq_none {slots : ι → List β} {js : List ι} :
    last slots js = none ↔ ∀ j ∈ js, slots j = [] := by
  simp [last]

/-- Where the first entry stands: at the head of a slot behind empty ones only. -/
theorem first_eq_some {slots : ι → List β} {js : List ι} {x : β} (h : first slots js = some x) :
    ∃ ks j ls, js = ks ++ j :: ls ∧ (∀ k ∈ ks, slots k = []) ∧ (slots j).head? = some x := by
  induction js with
  | nil => simp at h
  | cons j js ih =>
    rw [first_cons] at h
    cases hj : slots j with
    | nil =>
      rw [hj] at h
      obtain ⟨ks, k, ls, rfl, hks, hk⟩ := ih h
      exact ⟨j :: ks, k, ls, rfl, by simpa [hj] using hks, hk⟩
    | cons y ys =>
      rw [hj] at h
      exact ⟨[], j, js, rfl, by simp, by rw [hj]; exact h⟩

theorem first_mem {slots : ι → List β} {js : List ι} {x : β} (h : first slots js = some x) :
    ∃ j ∈ js, x ∈ slots j := by
  obtain ⟨ks, j, ls, rfl, -, hj⟩ := first_eq_some h
  exact ⟨j, by simp, mem_of_head? hj⟩

theorem last_mem {slots : ι → List β} {js : List ι} {x : β} (h : last slots js = some x) :
    ∃ j ∈ js, x ∈ slots j := by
  obtain ⟨j, hj, hx⟩ := exists_of_findSome?_eq_some h
  exact ⟨j, hj, mem_of_getLast? hx⟩

theorem first_congr {slots slots' : ι → List β} {js : List ι}
    (h : ∀ j ∈ js, (slots j).head? = (slots' j).head?) : first slots js = first slots' js := by
  induction js with
  | nil => rfl
  | cons j js ih =>
    rw [first_cons, first_cons, h j (by simp), ih fun k hk => h k (by simp [hk])]

/-! ## Positions -/

variable [DecidableEq ι]

/-- The slots behind `i`, nearest first. -/
def after (order : List ι) (i : ι) : List ι :=
  (order.dropWhile (· ≠ i)).tail

/-- The slots in front of `i`, nearest first. -/
def before (order : List ι) (i : ι) : List ι :=
  (order.takeWhile (· ≠ i)).reverse

/-- The nearest non-empty slot in front of `i`. -/
def prevSlot (order : List ι) (slots : ι → List β) (i : ι) : Option ι :=
  (before order i).find? fun j => !(slots j).isEmpty

theorem after_append {l r : List ι} {i : ι} (h : i ∉ l) : after (l ++ i :: r) i = r := by
  induction l with
  | nil => simp [after]
  | cons j l ih =>
    simp only [mem_cons, not_or] at h
    have := ih h.2
    simp only [after, cons_append] at this ⊢
    rw [dropWhile_cons_of_pos (by simpa using fun hj => h.1 hj.symm)]
    exact this

theorem before_append {l r : List ι} {i : ι} (h : i ∉ l) :
    before (l ++ i :: r) i = l.reverse := by
  induction l with
  | nil => simp [before]
  | cons j l ih =>
    simp only [mem_cons, not_or] at h
    have := ih h.2
    simp only [before, cons_append, reverse_inj] at this ⊢
    rw [takeWhile_cons_of_pos (by simpa using fun hj => h.1 hj.symm), this]

omit [DecidableEq ι] in
theorem notMem_of_nodup {l r : List ι} {i : ι} (hnd : (l ++ i :: r).Nodup) : i ∉ l ∧ i ∉ r :=
  ⟨fun h => (nodup_append.mp hnd).2.2 i h i (by simp) rfl,
    (nodup_cons.mp (nodup_append.mp hnd).2.1).1⟩

/-- A slot splits the order around it. -/
theorem exists_split {order : List ι} (hnd : order.Nodup) {i : ι} (hi : i ∈ order) :
    ∃ l r, order = l ++ i :: r ∧ i ∉ l ∧ i ∉ r ∧ after order i = r ∧
      before order i = l.reverse := by
  obtain ⟨l, r, rfl⟩ := append_of_mem hi
  obtain ⟨hl, hr⟩ := notMem_of_nodup hnd
  exact ⟨l, r, rfl, hl, hr, after_append hl, before_append hl⟩

theorem prevSlot_eq_none {order : List ι} {slots : ι → List β} {i : ι} :
    prevSlot order slots i = none ↔ last slots (before order i) = none := by
  simp [prevSlot, last_eq_none]

theorem prevSlot_ne_nil {order : List ι} {slots : ι → List β} {i j : ι}
    (h : prevSlot order slots i = some j) : slots j ≠ [] := by
  simpa using List.find?_some h

theorem prevSlot_ne {order : List ι} {slots : ι → List β} {i j : ι}
    (h : prevSlot order slots i = some j) : j ≠ i := by
  have := mem_of_find?_eq_some h
  simp only [before, mem_reverse] at this
  simpa using mem_takeWhile_imp this

/-- The entry `prev` finds stands in the nearest non-empty slot. -/
theorem last_before_mem {order : List ι} {slots : ι → List β} {i : ι} {x : β}
    (h : last slots (before order i) = some x) : ∃ j, prevSlot order slots i = some j ∧
    x ∈ slots j := by
  unfold prevSlot
  generalize before order i = js at h ⊢
  induction js with
  | nil => simp [last] at h
  | cons j js ih =>
    cases hj : slots j with
    | nil =>
      simp only [last, List.findSome?_cons, hj, List.getLast?_nil] at h
      simpa [hj] using ih h
    | cons y ys =>
      refine ⟨j, by simp [hj], ?_⟩
      refine mem_of_getLast? ?_
      simpa [last, hj] using h

/-- A non-empty slot is the nearest one exactly if the slots between are empty. -/
theorem prevSlot_append {a c d : List ι} {slots : ι → List β} {i j : ι} (hi : i ∉ a ++ j :: c)
    (hjc : j ∉ c) (hj : slots j ≠ []) :
    prevSlot ((a ++ j :: c) ++ i :: d) slots i = some j ↔ ∀ k ∈ c, slots k = [] := by
  rw [prevSlot, before_append hi]
  simp only [reverse_append, reverse_cons, append_assoc, List.find?_append]
  constructor
  · intro h k hk
    by_contra hk0
    cases hc : c.reverse.find? fun j => !(slots j).isEmpty with
    | none =>
      have := List.find?_eq_none.mp hc k (by simpa using hk)
      simp [hk0] at this
    | some x =>
      rw [hc] at h
      simp only [Option.some_or, Option.some.injEq] at h
      subst h
      exact hjc (by simpa using mem_of_find?_eq_some hc)
  · intro h
    have : c.reverse.find? (fun j => !(slots j).isEmpty) = none := by
      simpa using h
    simp [this, hj]

/-- What a change of slot `i` does to the first entry behind a non-empty slot `j`. -/
theorem first_after_update {order : List ι} (hnd : order.Nodup) {slots : ι → List β} {i j : ι}
    (hi : i ∈ order) (hj : j ∈ order) (hne : j ≠ i) (hj0 : slots j ≠ []) (l : List β) :
    first (Function.update slots i l) (after order j) =
      if prevSlot order slots i = some j then l.head?.or (first slots (after order i))
      else first slots (after order j) := by
  obtain ⟨a, b, rfl, hja, hjb, haj, -⟩ := exists_split hnd hj
  have hupd : ∀ js : List ι, i ∉ js → first (Function.update slots i l) js = first slots js :=
    fun js hjs => first_congr fun k hk => by
      rw [Function.update_of_ne (fun h : k = i => hjs (h ▸ hk))]
  rw [haj]
  simp only [mem_append, mem_cons] at hi
  rcases hi with hi | hi | hi
  · -- `i` stands in front of `j`: the slots behind `j` are untouched
    obtain ⟨c, d, rfl⟩ := append_of_mem hi
    simp only [append_assoc, cons_append] at hnd ⊢
    obtain ⟨hic, hib⟩ := notMem_of_nodup hnd
    simp only [mem_append, mem_cons, not_or] at hib
    rw [if_neg, hupd b hib.2.2]
    intro h
    have := mem_of_find?_eq_some h
    rw [before_append hic, mem_reverse] at this
    exact hja (by simp [this])
  · exact absurd hi.symm hne
  · obtain ⟨c, d, rfl⟩ := append_of_mem hi
    have hsplit : a ++ j :: (c ++ i :: d) = (a ++ j :: c) ++ i :: d := by simp
    rw [hsplit] at hnd ⊢
    obtain ⟨hic, hid⟩ := notMem_of_nodup hnd
    have hic' : i ∉ c := fun h => hic (by simp [h])
    rw [after_append hic, first_append, first_append, first_cons, first_cons, hupd c hic',
      hupd d hid, Function.update_self]
    have hprev := prevSlot_append (d := d) hic (fun h => hjb (by simp [h])) hj0
    split
    · next h =>
        rw [first_eq_none.mpr (hprev.mp h), Option.none_or]
    · next h =>
        have : first slots c ≠ none := fun h0 => h (hprev.mpr (first_eq_none.mp h0))
        obtain ⟨x, hx⟩ := Option.ne_none_iff_exists'.mp this
        rw [hx, Option.some_or, Option.some_or]

end Slots
