-- SUMMARY: Binary search trees with the larger keys to the left.
import Mathlib.Order.Lattice
import Mathlib.Data.List.Basic

/-!
# Search trees

A plain binary tree whose in-order list of keys decreases. What `rb_insert_color` and `rb_erase`
may do is a structure: rebalancing keeps the in-order list, and erasing drops one key from it.
-/

inductive SearchTree (α : Type*) where
  | leaf
  | node (left : SearchTree α) (key : α) (right : SearchTree α)
  deriving Repr

namespace SearchTree

variable {α : Type*}

/-- The keys, from `rb_first` along `rb_next`. -/
def toList : SearchTree α → List α
  | leaf => []
  | node l k r => l.toList ++ k :: r.toList

theorem mem_node {l r : SearchTree α} {k y : α} :
    y ∈ (node l k r).toList ↔ y ∈ l.toList ∨ y = k ∨ y ∈ r.toList := by
  simp [toList]

def ofList : List α → SearchTree α
  | [] => leaf
  | x :: xs => node leaf x (ofList xs)

theorem toList_ofList (xs : List α) : (ofList xs).toList = xs := by
  induction xs with
  | nil => rfl
  | cons x xs ih => simp [ofList, toList, ih]

variable [LinearOrder α]

/-- The keys decrease from left to right. -/
def Ordered (t : SearchTree α) : Prop := t.toList.Pairwise (· > ·)

/-- The new leaf of a key, or nothing if the key is there. -/
def insertLeaf : SearchTree α → α → Option (SearchTree α)
  | leaf, x => some (node leaf x leaf)
  | node l k r, x =>
    if k < x then (l.insertLeaf x).map fun l => node l k r
    else if x < k then (r.insertLeaf x).map fun r => node l k r
    else none

def find? : SearchTree α → α → Option α
  | leaf, _ => none
  | node l k r, x =>
    if k < x then l.find? x
    else if x < k then r.find? x
    else some k

variable {t l r : SearchTree α} {k x y : α}

theorem ordered_node :
    (node l k r).Ordered ↔
      l.Ordered ∧ r.Ordered ∧ (∀ a ∈ l.toList, k < a) ∧ ∀ b ∈ r.toList, b < k := by
  simp only [Ordered, toList, List.pairwise_append, List.pairwise_cons, List.mem_cons]
  constructor
  · rintro ⟨hl, ⟨hk, hr⟩, hlr⟩
    exact ⟨hl, hr, fun a ha => hlr a ha k (.inl rfl), hk⟩
  · rintro ⟨hl, hr, hlk, hrk⟩
    refine ⟨hl, ⟨hrk, hr⟩, ?_⟩
    rintro a ha b (rfl | hb)
    · exact hlk a ha
    · exact lt_trans (hrk b hb) (hlk a ha)

/-! ## Lookup -/

/-- The descent finds the keys of the tree and nothing else. -/
theorem find?_eq_some_iff (ht : t.Ordered) : t.find? x = some y ↔ y = x ∧ x ∈ t.toList := by
  induction t with
  | leaf => simp [find?, toList]
  | node l k r ihl ihr =>
    obtain ⟨hl, hr, hlk, hrk⟩ := ordered_node.mp ht
    rw [find?, mem_node]
    split
    next hkx =>
      have hr' : x ∉ r.toList := fun h => lt_asymm hkx (hrk x h)
      simp [ihl hl, ne_of_gt hkx, hr']
    next hkx =>
      split
      next hxk =>
        have hl' : x ∉ l.toList := fun h => lt_asymm hxk (hlk x h)
        simp [ihr hr, ne_of_lt hxk, hl']
      next hxk =>
        obtain rfl : x = k := le_antisymm (not_lt.mp hkx) (not_lt.mp hxk)
        simp [eq_comm]

theorem find?_of_mem (ht : t.Ordered) (hx : x ∈ t.toList) : t.find? x = some x :=
  (find?_eq_some_iff ht).mpr ⟨rfl, hx⟩

theorem find?_of_not_mem (ht : t.Ordered) (hx : x ∉ t.toList) : t.find? x = none := by
  cases h : t.find? x with
  | none => rfl
  | some y => exact absurd ((find?_eq_some_iff ht).mp h).2 hx

theorem mem_insertLeaf (h : l.insertLeaf x = some t) : y ∈ t.toList ↔ y = x ∨ y ∈ l.toList := by
  induction l generalizing t with
  | leaf =>
    cases h
    simp [toList]
  | node a k b iha ihb =>
    rw [insertLeaf] at h
    split at h
    next =>
      obtain ⟨a', ha, rfl⟩ := Option.map_eq_some_iff.mp h
      rw [mem_node, mem_node, iha ha]
      tauto
    next =>
      split at h
      next =>
        obtain ⟨b', hb, rfl⟩ := Option.map_eq_some_iff.mp h
        rw [mem_node, mem_node, ihb hb]
        tauto
      next => cases h

theorem insertLeaf_ordered (hl : l.Ordered) (h : l.insertLeaf x = some t) : t.Ordered := by
  induction l generalizing t with
  | leaf =>
    cases h
    simp [Ordered, toList]
  | node a k b iha ihb =>
    obtain ⟨ha, hb, hak, hbk⟩ := ordered_node.mp hl
    rw [insertLeaf] at h
    split at h
    next hkx =>
      obtain ⟨a', ha', rfl⟩ := Option.map_eq_some_iff.mp h
      refine ordered_node.mpr ⟨iha ha ha', hb, ?_, hbk⟩
      intro y hy
      rcases (mem_insertLeaf ha').mp hy with rfl | hy
      · exact hkx
      · exact hak y hy
    next =>
      split at h
      next hxk =>
        obtain ⟨b', hb', rfl⟩ := Option.map_eq_some_iff.mp h
        refine ordered_node.mpr ⟨ha, ihb hb hb', hak, ?_⟩
        intro y hy
        rcases (mem_insertLeaf hb').mp hy with rfl | hy
        · exact hxk
        · exact hbk y hy
      next => cases h

/-- A key that is there is refused. -/
theorem insertLeaf_not_mem (hl : l.Ordered) (h : l.insertLeaf x = some t) : x ∉ l.toList := by
  induction l generalizing t with
  | leaf => simp [toList]
  | node a k b iha ihb =>
    obtain ⟨ha, hb, hak, hbk⟩ := ordered_node.mp hl
    rw [insertLeaf] at h
    rw [mem_node]
    split at h
    next hkx =>
      obtain ⟨a', ha', rfl⟩ := Option.map_eq_some_iff.mp h
      rintro (hx | rfl | hx)
      · exact iha ha ha' hx
      · exact lt_irrefl _ hkx
      · exact lt_asymm hkx (hbk x hx)
    next =>
      split at h
      next hxk =>
        obtain ⟨b', hb', rfl⟩ := Option.map_eq_some_iff.mp h
        rintro (hx | rfl | hx)
        · exact lt_asymm hxk (hak x hx)
        · exact lt_irrefl _ hxk
        · exact ihb hb hb' hx
      next => cases h

/-- What a red-black tree library does to the shape: `insertColor` after a leaf
was linked, `erase` when a key goes. -/
structure Rebalance (α : Type*) [LinearOrder α] where
  insertColor : SearchTree α → SearchTree α
  erase : SearchTree α → α → SearchTree α
  insertColor_toList : ∀ t, (insertColor t).toList = t.toList
  erase_toList : ∀ t x, (erase t x).toList = t.toList.erase x

/-- The library that never rotates. -/
def Rebalance.plain (α : Type*) [LinearOrder α] : Rebalance α where
  insertColor t := t
  erase t x := ofList (t.toList.erase x)
  insertColor_toList _ := rfl
  erase_toList _ _ := toList_ofList _

variable (rb : Rebalance α)

theorem Rebalance.insertColor_ordered (ht : t.Ordered) : (rb.insertColor t).Ordered := by
  rw [Ordered, rb.insertColor_toList]
  exact ht

theorem Rebalance.erase_ordered (ht : t.Ordered) (x : α) : (rb.erase t x).Ordered := by
  rw [Ordered, rb.erase_toList]
  exact ht.sublist List.erase_sublist

theorem Ordered.nodup (ht : t.Ordered) : t.toList.Nodup := ht.imp fun h => ne_of_gt h

theorem Rebalance.mem_erase (ht : t.Ordered) :
    y ∈ (rb.erase t x).toList ↔ y ≠ x ∧ y ∈ t.toList := by
  rw [rb.erase_toList]
  exact ht.nodup.mem_erase_iff

theorem Rebalance.foldl_erase (xs : List α) (ht : t.Ordered) :
    (xs.foldl rb.erase t).Ordered ∧
      ∀ y, y ∈ (xs.foldl rb.erase t).toList ↔ y ∉ xs ∧ y ∈ t.toList := by
  induction xs generalizing t with
  | nil => exact ⟨ht, by simp⟩
  | cons x xs ih =>
    obtain ⟨hord, hmem⟩ := ih (rb.erase_ordered ht x)
    refine ⟨hord, fun y => ?_⟩
    rw [List.foldl_cons, hmem, rb.mem_erase ht, List.mem_cons, not_or]
    tauto

end SearchTree
