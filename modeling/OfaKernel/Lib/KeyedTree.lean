-- SUMMARY: Search trees of references whose keys are read through a function.
import OfaKernel.Lib.SearchTree

/-!
# Trees of references

An intrusive tree reads the keys out of the linked objects, so overwriting a key puts the tree
out of order. A tree here holds references and is given the function that reads a key.
-/

namespace SearchTree

variable {ρ κ : Type*} [LinearOrder κ]

/-- The keys increase from left to right. -/
def OrderedBy (key : ρ → κ) (t : SearchTree ρ) : Prop :=
  t.toList.Pairwise fun a b => key a < key b

/-- Link a reference at a leaf, or find the reference that has its key. -/
def insertBy (key : ρ → κ) : SearchTree ρ → ρ → Except ρ (SearchTree ρ)
  | leaf, x => .ok (node leaf x leaf)
  | node l k r, x =>
    if key x < key k then (l.insertBy key x).map fun l => node l k r
    else if key k < key x then (r.insertBy key x).map fun r => node l k r
    else .error k

/-- The reference that has a key. -/
def findBy (key : ρ → κ) : SearchTree ρ → κ → Option ρ
  | leaf, _ => none
  | node l k r, x =>
    if x < key k then l.findBy key x
    else if key k < x then r.findBy key x
    else some k

variable {key key' : ρ → κ} {t t' l r : SearchTree ρ} {k x y : ρ}

@[simp]
theorem orderedBy_leaf : (leaf : SearchTree ρ).OrderedBy key := List.Pairwise.nil

theorem orderedBy_node :
    (node l k r).OrderedBy key ↔ l.OrderedBy key ∧ r.OrderedBy key ∧
      (∀ a ∈ l.toList, key a < key k) ∧ ∀ b ∈ r.toList, key k < key b := by
  simp only [OrderedBy, toList, List.pairwise_append, List.pairwise_cons, List.mem_cons]
  constructor
  · rintro ⟨hl, ⟨hk, hr⟩, hlr⟩
    exact ⟨hl, hr, fun a ha => hlr a ha k (.inl rfl), hk⟩
  · rintro ⟨hl, hr, hlk, hrk⟩
    refine ⟨hl, ⟨hrk, hr⟩, ?_⟩
    rintro a ha b (rfl | hb)
    · exact hlk a ha
    · exact lt_trans (hlk a ha) (hrk b hb)

theorem OrderedBy.congr (ht : t.OrderedBy key) (h : ∀ a ∈ t.toList, key' a = key a) :
    t.OrderedBy key' := by
  refine List.Pairwise.imp_of_mem ?_ ht
  intro a b ha hb hab
  rw [h a ha, h b hb]
  exact hab

/-- No two references of a tree have the same key. -/
theorem OrderedBy.injective (ht : t.OrderedBy key) (hx : x ∈ t.toList) (hy : y ∈ t.toList)
    (h : key x = key y) : x = y := by
  induction t with
  | leaf => cases hx
  | node l k r ihl ihr =>
    obtain ⟨hl, hr, hlk, hrk⟩ := orderedBy_node.mp ht
    rcases mem_node.mp hx with hx' | hx' | hx' <;> rcases mem_node.mp hy with hy' | hy' | hy'
    · exact ihl hl hx' hy'
    · exact absurd h (ne_of_lt (hy' ▸ hlk x hx'))
    · exact absurd h (ne_of_lt (lt_trans (hlk x hx') (hrk y hy')))
    · exact absurd h (ne_of_gt (hx' ▸ hlk y hy'))
    · rw [hx', hy']
    · exact absurd h (ne_of_lt (hx' ▸ hrk y hy'))
    · exact absurd h (ne_of_gt (lt_trans (hlk y hy') (hrk x hx')))
    · exact absurd h (ne_of_gt (hy' ▸ hrk x hx'))
    · exact ihr hr hx' hy'

theorem OrderedBy.nodup (ht : t.OrderedBy key) : t.toList.Nodup := by
  refine List.Pairwise.imp ?_ ht
  rintro a b hab rfl
  exact lt_irrefl _ hab

/-! ## The descent -/

/-- The three ways in which an insertion ends with a new leaf. -/
theorem insertBy_node_ok (h : (node l k r).insertBy key x = .ok t) :
    (key x < key k ∧ ∃ l', l.insertBy key x = .ok l' ∧ t = node l' k r) ∨
      (key k < key x ∧ ∃ r', r.insertBy key x = .ok r' ∧ t = node l k r') := by
  rw [insertBy] at h
  split at h
  next hxk =>
    cases hl : l.insertBy key x with
    | error z => simp [hl, Except.map] at h
    | ok l' =>
      refine .inl ⟨hxk, l', rfl, ?_⟩
      simpa [hl, Except.map, eq_comm] using h
  next =>
    split at h
    next hkx =>
      cases hr : r.insertBy key x with
      | error z => simp [hr, Except.map] at h
      | ok r' =>
        refine .inr ⟨hkx, r', rfl, ?_⟩
        simpa [hr, Except.map, eq_comm] using h
    next => simp at h

theorem mem_insertBy (h : t.insertBy key x = .ok t') : y ∈ t'.toList ↔ y = x ∨ y ∈ t.toList := by
  induction t generalizing t' with
  | leaf =>
    cases h
    simp [toList]
  | node l k r ihl ihr =>
    rcases insertBy_node_ok h with ⟨-, l', hl, rfl⟩ | ⟨-, r', hr, rfl⟩
    · rw [mem_node, mem_node, ihl hl]
      tauto
    · rw [mem_node, mem_node, ihr hr]
      tauto

theorem insertBy_orderedBy (ht : t.OrderedBy key) (h : t.insertBy key x = .ok t') :
    t'.OrderedBy key := by
  induction t generalizing t' with
  | leaf =>
    cases h
    exact orderedBy_node.mpr ⟨orderedBy_leaf, orderedBy_leaf, by simp [toList], by simp [toList]⟩
  | node l k r ihl ihr =>
    obtain ⟨hl, hr, hlk, hrk⟩ := orderedBy_node.mp ht
    rcases insertBy_node_ok h with ⟨hxk, l', hl', rfl⟩ | ⟨hkx, r', hr', rfl⟩
    · refine orderedBy_node.mpr ⟨ihl hl hl', hr, ?_, hrk⟩
      intro a ha
      rcases (mem_insertBy hl').mp ha with rfl | ha
      · exact hxk
      · exact hlk a ha
    · refine orderedBy_node.mpr ⟨hl, ihr hr hr', hlk, ?_⟩
      intro a ha
      rcases (mem_insertBy hr').mp ha with rfl | ha
      · exact hkx
      · exact hrk a ha

/-- What a lookup finds is linked and has the key. -/
theorem mem_of_findBy {v : κ} (h : t.findBy key v = some y) : y ∈ t.toList ∧ key y = v := by
  induction t with
  | leaf => cases h
  | node l k r ihl ihr =>
    rw [findBy] at h
    rw [mem_node]
    split at h
    next => exact ⟨.inl (ihl h).1, (ihl h).2⟩
    next hvk =>
      split at h
      next => exact ⟨.inr (.inr (ihr h).1), (ihr h).2⟩
      next hkv =>
        obtain rfl : k = y := by simpa using h
        exact ⟨.inr (.inl rfl), le_antisymm (not_lt.mp hvk) (not_lt.mp hkv)⟩

variable [LinearOrder ρ] (rb : Rebalance ρ)

theorem Rebalance.insertColor_orderedBy (ht : t.OrderedBy key) :
    (rb.insertColor t).OrderedBy key := by
  rw [OrderedBy, rb.insertColor_toList]
  exact ht

theorem Rebalance.erase_orderedBy (ht : t.OrderedBy key) (x : ρ) :
    (rb.erase t x).OrderedBy key := by
  rw [OrderedBy, rb.erase_toList]
  exact ht.sublist List.erase_sublist

theorem Rebalance.mem_erase_orderedBy (ht : t.OrderedBy key) :
    y ∈ (rb.erase t x).toList ↔ y ≠ x ∧ y ∈ t.toList := by
  rw [rb.erase_toList]
  exact ht.nodup.mem_erase_iff

end SearchTree
