-- SUMMARY: Search trees of references in which equal keys may be linked.
import OfaKernel.Lib.KeyedTree

/-!
# Trees with equal keys

The insertion is told whether a key may be linked a second time; then it goes to the left of
the equal one. A lookup finds one of the references that have the key.
-/

namespace SearchTree

variable {ρ κ : Type*} [LinearOrder κ]

/-- The keys do not decrease from left to right. -/
def SortedBy (key : ρ → κ) (t : SearchTree ρ) : Prop :=
  t.toList.Pairwise fun a b => key a ≤ key b

/-- Link a reference at a leaf; without `dup`, or find a reference that has its key. -/
def insertAllow (key : ρ → κ) (dup : Bool) : SearchTree ρ → ρ → Except ρ (SearchTree ρ)
  | leaf, x => .ok (node leaf x leaf)
  | node l k r, x =>
    if key x < key k then (l.insertAllow key dup x).map fun l => node l k r
    else if key k < key x then (r.insertAllow key dup x).map fun r => node l k r
    else if dup then (l.insertAllow key dup x).map fun l => node l k r
    else .error k

variable {key key' : ρ → κ} {dup : Bool} {t t' l r : SearchTree ρ} {k x y : ρ}

@[simp]
theorem sortedBy_leaf : (leaf : SearchTree ρ).SortedBy key := List.Pairwise.nil

theorem sortedBy_node :
    (node l k r).SortedBy key ↔ l.SortedBy key ∧ r.SortedBy key ∧
      (∀ a ∈ l.toList, key a ≤ key k) ∧ ∀ b ∈ r.toList, key k ≤ key b := by
  simp only [SortedBy, toList, List.pairwise_append, List.pairwise_cons, List.mem_cons]
  constructor
  · rintro ⟨hl, ⟨hk, hr⟩, hlr⟩
    exact ⟨hl, hr, fun a ha => hlr a ha k (.inl rfl), hk⟩
  · rintro ⟨hl, hr, hlk, hrk⟩
    refine ⟨hl, ⟨hrk, hr⟩, ?_⟩
    rintro a ha b (rfl | hb)
    · exact hlk a ha
    · exact le_trans (hlk a ha) (hrk b hb)

theorem SortedBy.congr (ht : t.SortedBy key) (h : ∀ a ∈ t.toList, key' a = key a) :
    t.SortedBy key' := by
  refine List.Pairwise.imp_of_mem ?_ ht
  intro a b ha hb hab
  rw [h a ha, h b hb]
  exact hab

/-! ## Insertion -/

/-- What stops the insertion is linked and has the key, and equal keys are not allowed. -/
theorem mem_of_insertAllow_error (h : t.insertAllow key dup x = .error y) :
    y ∈ t.toList ∧ key y = key x ∧ dup = false := by
  induction t with
  | leaf => cases h
  | node l k r ihl ihr =>
    have hleft : ∀ {z}, (l.insertAllow key dup x).map (fun l => node l k r) = .error z →
        l.insertAllow key dup x = .error z := fun {z} hz => by
      cases hl : l.insertAllow key dup x with
      | ok l' => simp [hl, Except.map] at hz
      | error w => simpa [hl, Except.map] using hz
    rw [insertAllow] at h
    rw [mem_node]
    split at h
    next =>
      obtain ⟨hy, hrest⟩ := ihl (hleft h)
      exact ⟨.inl hy, hrest⟩
    next hxk =>
      split at h
      next =>
        cases hr : r.insertAllow key dup x with
        | ok r' => simp [hr, Except.map] at h
        | error z =>
          obtain rfl : z = y := by simpa [hr, Except.map] using h
          obtain ⟨hy, hrest⟩ := ihr hr
          exact ⟨.inr (.inr hy), hrest⟩
      next hkx =>
        split at h
        next =>
          obtain ⟨hy, hrest⟩ := ihl (hleft h)
          exact ⟨.inl hy, hrest⟩
        next hdup =>
          obtain rfl : k = y := by simpa using h
          exact ⟨.inr (.inl rfl), le_antisymm (not_lt.mp hxk) (not_lt.mp hkx), by simpa using hdup⟩

/-- The ways in which an insertion ends with a new leaf. -/
theorem insertAllow_node_ok (h : (node l k r).insertAllow key dup x = .ok t) :
    (key x ≤ key k ∧ (dup = false → key x < key k) ∧
        ∃ l', l.insertAllow key dup x = .ok l' ∧ t = node l' k r) ∨
      (key k < key x ∧ ∃ r', r.insertAllow key dup x = .ok r' ∧ t = node l k r') := by
  have hleft : (l.insertAllow key dup x).map (fun l => node l k r) = .ok t →
      ∃ l', l.insertAllow key dup x = .ok l' ∧ t = node l' k r := fun hz => by
    cases hl : l.insertAllow key dup x with
    | error w => simp [hl, Except.map] at hz
    | ok l' => exact ⟨l', rfl, by simpa [hl, Except.map, eq_comm] using hz⟩
  rw [insertAllow] at h
  split at h
  next hxk => exact .inl ⟨le_of_lt hxk, fun _ => hxk, hleft h⟩
  next hxk =>
    split at h
    next hkx =>
      cases hr : r.insertAllow key dup x with
      | error z => simp [hr, Except.map] at h
      | ok r' =>
        refine .inr ⟨hkx, r', rfl, ?_⟩
        simpa [hr, Except.map, eq_comm] using h
    next hkx =>
      split at h
      next hdup => exact .inl ⟨not_lt.mp hkx, fun hd => by simp [hdup] at hd, hleft h⟩
      next => simp at h

/-- The new reference is linked, and the others are as before. -/
theorem perm_insertAllow (h : t.insertAllow key dup x = .ok t') :
    t'.toList.Perm (x :: t.toList) := by
  induction t generalizing t' with
  | leaf =>
    cases h
    exact List.Perm.refl _
  | node l k r ihl ihr =>
    rcases insertAllow_node_ok h with ⟨-, -, l', hl, rfl⟩ | ⟨-, r', hr, rfl⟩
    · exact (ihl hl).append_right (k :: r.toList)
    · have hright : (node l k r').toList.Perm (l.toList ++ k :: x :: r.toList) :=
        ((ihr hr).cons k).append_left l.toList
      have hswap : (l.toList ++ k :: x :: r.toList).Perm (l.toList ++ x :: k :: r.toList) :=
        (List.Perm.swap x k r.toList).append_left l.toList
      exact (hright.trans hswap).trans List.perm_middle

theorem mem_insertAllow (h : t.insertAllow key dup x = .ok t') :
    y ∈ t'.toList ↔ y = x ∨ y ∈ t.toList := by
  rw [(perm_insertAllow h).mem_iff, List.mem_cons]

theorem insertAllow_sortedBy (ht : t.SortedBy key) (h : t.insertAllow key dup x = .ok t') :
    t'.SortedBy key := by
  induction t generalizing t' with
  | leaf =>
    cases h
    exact sortedBy_node.mpr ⟨sortedBy_leaf, sortedBy_leaf, by simp [toList], by simp [toList]⟩
  | node l k r ihl ihr =>
    obtain ⟨hl, hr, hlk, hrk⟩ := sortedBy_node.mp ht
    rcases insertAllow_node_ok h with ⟨hxk, -, l', hl', rfl⟩ | ⟨hkx, r', hr', rfl⟩
    · refine sortedBy_node.mpr ⟨ihl hl hl', hr, ?_, hrk⟩
      intro a ha
      rcases (mem_insertAllow hl').mp ha with rfl | ha
      · exact hxk
      · exact hlk a ha
    · refine sortedBy_node.mpr ⟨hl, ihr hr hr', hlk, ?_⟩
      intro a ha
      rcases (mem_insertAllow hr').mp ha with rfl | ha
      · exact le_of_lt hkx
      · exact hrk a ha

/-- Without `dup` a key that is linked is refused. -/
theorem insertAllow_key_ne (ht : t.SortedBy key) (h : t.insertAllow key false x = .ok t')
    (hy : y ∈ t.toList) : key y ≠ key x := by
  induction t generalizing t' with
  | leaf => cases hy
  | node l k r ihl ihr =>
    obtain ⟨hl, hr, hlk, hrk⟩ := sortedBy_node.mp ht
    rcases insertAllow_node_ok h with ⟨-, hxk, l', hl', rfl⟩ | ⟨hkx, r', hr', rfl⟩
    · have hlt := hxk rfl
      rcases mem_node.mp hy with hy | rfl | hy
      · exact ihl hl hl' hy
      · exact ne_of_gt hlt
      · exact ne_of_gt (lt_of_lt_of_le hlt (hrk y hy))
    · rcases mem_node.mp hy with hy | rfl | hy
      · exact ne_of_lt (lt_of_le_of_lt (hlk y hy) hkx)
      · exact ne_of_lt hkx
      · exact ihr hr hr' hy

/-- A key that is linked is found. -/
theorem findBy_isSome (ht : t.SortedBy key) (hy : y ∈ t.toList) :
    ∃ z, t.findBy key (key y) = some z := by
  induction t with
  | leaf => cases hy
  | node l k r ihl ihr =>
    obtain ⟨hl, hr, hlk, hrk⟩ := sortedBy_node.mp ht
    rw [findBy]
    split
    next hyk =>
      rcases mem_node.mp hy with hy | rfl | hy
      · exact ihl hl hy
      · exact absurd hyk (lt_irrefl _)
      · exact absurd hyk (not_lt.mpr (hrk y hy))
    next =>
      split
      next hky =>
        rcases mem_node.mp hy with hy | rfl | hy
        · exact absurd hky (not_lt.mpr (hlk y hy))
        · exact absurd hky (lt_irrefl _)
        · exact ihr hr hy
      next => exact ⟨k, rfl⟩

variable [LinearOrder ρ] (rb : Rebalance ρ)

theorem Rebalance.insertColor_sortedBy (ht : t.SortedBy key) : (rb.insertColor t).SortedBy key := by
  rw [SortedBy, rb.insertColor_toList]
  exact ht

theorem Rebalance.erase_sortedBy (ht : t.SortedBy key) (x : ρ) : (rb.erase t x).SortedBy key := by
  rw [SortedBy, rb.erase_toList]
  exact ht.sublist List.erase_sublist

end SearchTree
