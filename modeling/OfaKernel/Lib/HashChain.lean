-- SUMMARY: Hash tables with overflow chains in a memory of entries.
import Mathlib.Data.List.Nodup
import Mathlib.Data.List.Perm.Subperm
import Mathlib.Logic.Function.Iterate

/-!
# Hash chains

Entries below `n` are buckets, the others overflow entries that a bitmap hands out. `next` gives
the entry after one, and zero ends a chain.
-/

open Function List

namespace HashChain

/-! ## Linked lists -/

/-- The entries of `l` point to each other in order, and the last one to `z`. -/
def Linked (next : Nat → Nat) : List Nat → Nat → Prop
  | [], _ => True
  | i :: l, z => next i = l.headD z ∧ Linked next l z

theorem linked_append {next : Nat → Nat} {l r : List Nat} {z : Nat} :
    Linked next (l ++ r) z ↔ Linked next l (r.headD z) ∧ Linked next r z := by
  induction l with
  | nil => simp [Linked]
  | cons i l ih =>
    simp only [cons_append, Linked, ih, and_assoc]
    cases l <;> simp

theorem Linked.congr {next next' : Nat → Nat} {l : List Nat} {z : Nat} (h : Linked next l z)
    (hsame : ∀ i ∈ l, next' i = next i) : Linked next' l z := by
  induction l with
  | nil => trivial
  | cons i l ih =>
    refine ⟨(hsame i mem_cons_self).trans h.1, ih h.2 fun j hj => ?_⟩
    exact hsame j (mem_cons_of_mem _ hj)

/-- An entry is taken out of the middle. -/
theorem Linked.unlink {next next' : Nat → Nat} {l r : List Nat} {p i z : Nat}
    (h : Linked next (l ++ p :: i :: r) z) (hnodup : (l ++ p :: i :: r).Nodup)
    (hp : next' p = next i) (hsame : ∀ j, j ≠ p → next' j = next j) :
    Linked next' (l ++ p :: r) z := by
  obtain ⟨hl, hpi, hi, hr⟩ := linked_append.mp h
  have hnot := nodup_append.mp hnodup
  have hpr : p ∉ r := fun hm => (nodup_cons.mp hnot.2.1).1 (mem_cons_of_mem _ hm)
  refine linked_append.mpr ⟨hl.congr fun j hj => hsame j ?_, hp.trans hi,
    hr.congr fun j hj => hsame j ?_⟩
  · exact hnot.2.2 j hj p mem_cons_self
  · exact fun he => hpr (he ▸ hj)

/-- An entry is put at the end. -/
theorem Linked.push {next next' : Nat → Nat} {l : List Nat} {p j z : Nat}
    (h : Linked next (l ++ [p]) z) (hnodup : (l ++ [p]).Nodup) (hj : j ∉ l ++ [p])
    (hp : next' p = j) (hnext : next' j = z) (hsame : ∀ i, i ≠ p → i ≠ j → next' i = next i) :
    Linked next' (l ++ [p, j]) z := by
  obtain ⟨hl, -⟩ := linked_append.mp h
  have hnot := nodup_append.mp hnodup
  refine linked_append.mpr ⟨hl.congr fun i hi => hsame i ?_ ?_, hp, hnext, trivial⟩
  · exact hnot.2.2 i hi p mem_cons_self
  · exact fun he => hj (mem_append_left _ (he ▸ hi))

/-! ## The table -/

variable {κ β : Type*}

/-- Entry `i` stores `v` under `k`, in the chain where `k` is looked for. -/
def At (hash : κ → Nat) (chain : Nat → List Nat) (content : Nat → Option (κ × β)) (i : Nat) (k : κ)
    (v : β) : Prop :=
  i ∈ chain (hash k) ∧ content i = some (k, v)

/-- The chains of a table with `n` buckets; `used` marks the overflow entries handed out. -/
structure Chains (hash : κ → Nat) (n : Nat) (next : Nat → Nat) (content : Nat → Option (κ × β))
    (used : Nat → Prop) (chain : Nat → List Nat) : Prop where
  start : ∀ b < n, ∃ t, chain b = b :: t
  linked : ∀ b < n, Linked next (chain b) 0
  nodup : ∀ b < n, (chain b).Nodup
  overflow : ∀ b < n, ∀ i ∈ chain b, i = b ∨ n ≤ i
  disjoint : ∀ b < n, ∀ b' < n, ∀ i ∈ chain b, i ∈ chain b' → b = b'
  used : ∀ a, used a ↔ ∃ b < n, n + a ∈ chain b
  full : ∀ b < n, ∀ i ∈ chain b, i ≠ b → content i ≠ none
  empty : ∀ b < n, content b = none → chain b = [b]
  hashed : ∀ b < n, ∀ i ∈ chain b, ∀ k v, content i = some (k, v) → hash k = b
  unique : ∀ b < n, ∀ i ∈ chain b, ∀ j ∈ chain b, ∀ k v w,
    content i = some (k, v) → content j = some (k, w) → i = j

variable {hash : κ → Nat} {n : Nat} {next next' : Nat → Nat}
    {content content' : Nat → Option (κ × β)}
  {used used' : Nat → Prop} {chain : Nat → List Nat}

section

variable (h : Chains hash n next content used chain)
include h

theorem Chains.at_hash {i b : Nat} {k : κ} {v : β} (hb : b < n) (hi : i ∈ chain b)
    (hc : content i = some (k, v)) : At hash chain content i k v := by
  rw [At, h.hashed b hb i hi k v hc]
  exact ⟨hi, hc⟩

theorem Chains.at_unique (hlt : ∀ k, hash k < n) {i j : Nat} {k : κ} {v w : β}
    (hi : At hash chain content i k v) (hj : At hash chain content j k w) : i = j ∧ v = w := by
  have hij := h.unique _ (hlt k) i hi.1 j hj.1 k v w hi.2 hj.2
  have hcontent := hi.2.symm.trans (hij ▸ hj.2)
  simp only [Option.some.injEq, Prod.mk.injEq, true_and] at hcontent
  exact ⟨hij, hcontent⟩

theorem Chains.head_mem {b : Nat} (hb : b < n) : b ∈ chain b := by
  obtain ⟨t, ht⟩ := h.start b hb
  rw [ht]
  exact mem_cons_self

/-- A chain has the bucket and overflow entries that were handed out. -/
theorem Chains.length_le {b m : Nat} (hb : b < n) (hm : ∀ a, used a → a < m) :
    (chain b).length ≤ m + 1 := by
  obtain ⟨t, ht⟩ := h.start b hb
  have hnodup := h.nodup b hb
  rw [ht] at hnodup ⊢
  have hsub : t ⊆ (List.range m).map (n + ·) := by
    intro i hi
    have hmem : i ∈ chain b := by rw [ht]; exact mem_cons_of_mem _ hi
    have hne : i ≠ b := fun he => (nodup_cons.mp hnodup).1 (he ▸ hi)
    have hge := (h.overflow b hb i hmem).resolve_left hne
    obtain ⟨a, rfl⟩ := Nat.exists_eq_add_of_le hge
    exact mem_map.mpr ⟨a, mem_range.mpr (hm a ((h.used a).mpr ⟨b, hb, hmem⟩)), rfl⟩
  have := (subperm_of_subset (nodup_cons.mp hnodup).2 hsub).length_le
  simpa using this

end

/-- Values may change as long as the keys stay. -/
theorem Chains.of_keys (h : Chains hash n next content used chain) (hnext : ∀ i, next' i = next i)
    (hkeys : ∀ i, (content' i).map Prod.fst = (content i).map Prod.fst) :
    Chains hash n next' content' used chain := by
  have hnone (i : Nat) : content' i = none ↔ content i = none := by
    rw [← Option.map_eq_none_iff (f := Prod.fst), hkeys i, Option.map_eq_none_iff]
  have hsome {i : Nat} {k : κ} {v : β} (hc : content' i = some (k, v)) : ∃ w, content i =
    some (k, w) := by
    have hk := hkeys i
    rw [hc, Option.map_some, eq_comm, Option.map_eq_some_iff] at hk
    obtain ⟨⟨k', w⟩, hw, rfl⟩ := hk
    exact ⟨w, hw⟩
  refine { h with
    linked := fun b hb => (h.linked b hb).congr fun i _ => hnext i
    full := fun b hb i hi hne hc => h.full b hb i hi hne ((hnone i).mp hc)
    empty := fun b hb hc => h.empty b hb ((hnone b).mp hc)
    hashed := fun b hb i hi k v hc => ?_
    unique := fun b hb i hi j hj k v w hci hcj => ?_ }
  · obtain ⟨w, hw⟩ := hsome hc
    exact h.hashed b hb i hi k w hw
  · obtain ⟨v', hv⟩ := hsome hci
    obtain ⟨w', hw⟩ := hsome hcj
    exact h.unique b hb i hi j hj k v' w' hv hw

theorem Chains.of_linked (h : Chains hash n next content used chain)
    (hnext : ∀ b < n, ∀ i ∈ chain b, next' i = next i)
    (hcontent : ∀ b < n, ∀ i ∈ chain b, content' i = content i) (hused : ∀ a, used' a ↔ used a) :
    Chains hash n next' content' used' chain := by
  refine { h with
    linked := fun b hb => (h.linked b hb).congr (hnext b hb)
    used := fun a => (hused a).trans (h.used a)
    full := fun b hb i hi hne => ?_
    empty := fun b hb hc => h.empty b hb ?_
    hashed := fun b hb i hi k v hc => h.hashed b hb i hi k v ?_
    unique := fun b hb i hi j hj k v w hci hcj => h.unique b hb i hi j hj k v w ?_ ?_ }
  · rw [hcontent b hb i hi]
    exact h.full b hb i hi hne
  · rw [← hcontent b hb b (h.head_mem hb)]
    exact hc
  · rw [← hcontent b hb i hi]
    exact hc
  · rw [← hcontent b hb i hi]
    exact hci
  · rw [← hcontent b hb j hj]
    exact hcj

/-- Bucket `b` gets the chain `c`, and only entries of its old and its new chain change. -/
structure Rechain (n : Nat) (next next' : Nat → Nat) (content content' : Nat → Option (κ × β))
    (used used' : Nat → Prop) (chain : Nat → List Nat) (b : Nat) (c : List Nat) : Prop where
  bucket : b < n
  fresh : ∀ i ∈ c, i ∈ chain b ∨ n ≤ i ∧ ¬ used (i - n)
  next : ∀ i, i ∉ c → i ∉ chain b → next' i = next i
  content : ∀ i, i ∉ c → i ∉ chain b → content' i = content i
  used : ∀ a, used' a ↔ n + a ∈ c ∨ used a ∧ n + a ∉ chain b

section

variable {b : Nat} {c : List Nat} (h : Chains hash n next content used chain)
  (hre : Rechain n next next' content content' used used' chain b c)
include h hre

theorem Chains.apart {b' i : Nat} (hb' : b' < n) (hne : b' ≠ b) (hi : i ∈ chain b') :
    i ∉ c ∧ i ∉ chain b := by
  have hold : i ∉ chain b := fun hm => hne (h.disjoint b' hb' b hre.bucket i hi hm)
  refine ⟨fun hm => ?_, hold⟩
  rcases hre.fresh i hm with hm | ⟨hge, hunused⟩
  · exact hold hm
  · obtain ⟨a, rfl⟩ := Nat.exists_eq_add_of_le hge
    rw [Nat.add_sub_cancel_left] at hunused
    exact hunused ((h.used a).mpr ⟨b', hb', hi⟩)

theorem Chains.content_apart {b' i : Nat} (hb' : b' < n) (hne : b' ≠ b) (hi : i ∈ chain b') :
    content' i = content i :=
  hre.content i (h.apart hre hb' hne hi).1 (h.apart hre hb' hne hi).2

theorem Chains.rechain (hstart : ∃ t, c = b :: t) (hlinked : Linked next' c 0) (hnodup : c.Nodup)
    (hfull : ∀ i ∈ c, i ≠ b → content' i ≠ none) (hempty : content' b = none → c = [b])
    (hhashed : ∀ i ∈ c, ∀ k v, content' i = some (k, v) → hash k = b)
    (hunique : ∀ i ∈ c, ∀ j ∈ c, ∀ k v w, content' i = some (k, v) →
    content' j = some (k, w) → i = j) :
    Chains hash n next' content' used' (update chain b c) := by
  have hsame {b' : Nat} (hne : b' ≠ b) : update chain b c b' = chain b' :=
    update_of_ne hne _ _
  have hself : update chain b c b = c := update_self _ _ _
  -- each property is that of the new chain, or of one that did not change
  constructor
  case start =>
    intro b' hb'
    by_cases hne : b' = b
    · rw [hne, hself]; exact hstart
    · rw [hsame hne]; exact h.start b' hb'
  case linked =>
    intro b' hb'
    by_cases hne : b' = b
    · rw [hne, hself]; exact hlinked
    · rw [hsame hne]
      refine (h.linked b' hb').congr fun i hi => ?_
      exact hre.next i (h.apart hre hb' hne hi).1 (h.apart hre hb' hne hi).2
  case nodup =>
    intro b' hb'
    by_cases hne : b' = b
    · rw [hne, hself]; exact hnodup
    · rw [hsame hne]; exact h.nodup b' hb'
  case overflow =>
    intro b' hb' i hi
    by_cases hne : b' = b
    · rw [hne, hself] at hi
      rw [hne]
      rcases hre.fresh i hi with hm | hm
      · exact h.overflow b hre.bucket i hm
      · exact .inr hm.1
    · rw [hsame hne] at hi
      exact h.overflow b' hb' i hi
  case disjoint =>
    intro b₁ hb₁ b₂ hb₂ i hi₁ hi₂
    by_cases hne₁ : b₁ = b <;> by_cases hne₂ : b₂ = b
    · rw [hne₁, hne₂]
    · rw [hne₁, hself] at hi₁
      rw [hsame hne₂] at hi₂
      exact absurd hi₁ (h.apart hre hb₂ hne₂ hi₂).1
    · rw [hne₂, hself] at hi₂
      rw [hsame hne₁] at hi₁
      exact absurd hi₂ (h.apart hre hb₁ hne₁ hi₁).1
    · rw [hsame hne₁] at hi₁
      rw [hsame hne₂] at hi₂
      exact h.disjoint b₁ hb₁ b₂ hb₂ i hi₁ hi₂
  case used =>
    intro a
    rw [hre.used a, h.used a]
    constructor
    · rintro (hm | ⟨⟨b', hb', hm⟩, hnot⟩)
      · exact ⟨b, hre.bucket, by rw [hself]; exact hm⟩
      · have hne : b' ≠ b := fun he => hnot (he ▸ hm)
        exact ⟨b', hb', by rw [hsame hne]; exact hm⟩
    · rintro ⟨b', hb', hm⟩
      by_cases hne : b' = b
      · rw [hne, hself] at hm
        exact .inl hm
      · rw [hsame hne] at hm
        exact .inr ⟨⟨b', hb', hm⟩, (h.apart hre hb' hne hm).2⟩
  case full =>
    intro b' hb' i hi hib
    by_cases hne : b' = b
    · subst hne
      rw [hself] at hi
      exact hfull i hi hib
    · rw [hsame hne] at hi
      rw [h.content_apart hre hb' hne hi]
      exact h.full b' hb' i hi hib
  case empty =>
    intro b' hb' hc
    by_cases hne : b' = b
    · subst hne
      rw [hself]
      exact hempty hc
    · rw [h.content_apart hre hb' hne (h.head_mem hb')] at hc
      rw [hsame hne]
      exact h.empty b' hb' hc
  case hashed =>
    intro b' hb' i hi k v hc
    by_cases hne : b' = b
    · subst hne
      rw [hself] at hi
      exact hhashed i hi k v hc
    · rw [hsame hne] at hi
      rw [h.content_apart hre hb' hne hi] at hc
      exact h.hashed b' hb' i hi k v hc
  case unique =>
    intro b' hb' i hi j hj k v w hci hcj
    by_cases hne : b' = b
    · subst hne
      rw [hself] at hi hj
      exact hunique i hi j hj k v w hci hcj
    · rw [hsame hne] at hi hj
      rw [h.content_apart hre hb' hne hi] at hci
      rw [h.content_apart hre hb' hne hj] at hcj
      exact h.unique b' hb' i hi j hj k v w hci hcj

/-- What is stored afterwards: what the new chain has, and what the others had. -/
theorem Chains.at_rechain (hlt : ∀ k, hash k < n) {i : Nat} {k : κ} {v : β} :
    At hash (update chain b c) content' i k v ↔
      if hash k = b then i ∈ c ∧ content' i = some (k, v) else At hash chain content i k v := by
  unfold At
  split
  next hk => rw [hk, update_self]
  next hk =>
    rw [update_of_ne hk]
    refine and_congr_right fun hi => ?_
    rw [h.content_apart hre (hlt k) hk hi]

end

section

variable (h : Chains hash n next content used chain) (hlt : ∀ k, hash k < n)
include h hlt

/-- An entry of the chain of `k` is given the value `v` for `k`; it was empty or had `k`. -/
theorem Chains.store {i : Nat} {k : κ} {v : β} (hi : i ∈ chain (hash k))
    (hold : ∀ k' w, content i = some (k', w) → k' = k)
    (honly : ∀ j ∈ chain (hash k), ∀ w, content j = some (k, w) → j = i)
    (hset : content' i = some (k, v)) (hsame : ∀ j, j ≠ i → content' j = content j)
    (hnext : ∀ j, next' j = next j) :
    Chains hash n next' content' used chain ∧
      (At hash chain content' i k v) ∧
      ∀ j k' v', k' ≠ k → (At hash chain content' j k' v' ↔ At hash chain content j k' v') := by
  have hre : Rechain n next next' content content' used used chain (hash k) (chain (hash k)) :=
    { bucket := hlt k
      fresh := fun _ hj => .inl hj
      next := fun j _ _ => hnext j
      content := fun j _ hj => hsame j fun he => hj (he ▸ hi)
      used := fun a => by
        by_cases hm : n + a ∈ chain (hash k)
        · simp [hm, (h.used a).mpr ⟨_, hlt k, hm⟩]
        · simp [hm] }
  have hchain : update chain (hash k) (chain (hash k)) = chain := update_eq_self _ _
  have hb := hlt k
  refine ⟨?_, ⟨hi, hset⟩, fun j k' v' hk' => ?_⟩
  · rw [← hchain]
    refine h.rechain hre (h.start _ hb) ((h.linked _ hb).congr fun j _ => hnext j)
      (h.nodup _ hb) ?_ ?_ ?_ ?_
    · intro j hj hne
      by_cases hji : j = i
      · rw [hji, hset]
        exact nofun
      · rw [hsame j hji]
        exact h.full _ hb j hj hne
    · intro hc
      have hne : hash k ≠ i := fun he => by rw [he, hset] at hc; cases hc
      rw [hsame _ hne] at hc
      exact h.empty _ hb hc
    · intro j hj k' v' hc
      by_cases hji : j = i
      · rw [hji, hset] at hc
        cases hc
        rfl
      · rw [hsame j hji] at hc
        exact h.hashed _ hb j hj k' v' hc
    · intro j hj j' hj' k' v' w' hc hc'
      by_cases hji : j = i <;> by_cases hji' : j' = i
      · rw [hji, hji']
      · rw [hji, hset] at hc
        cases hc
        rw [hsame j' hji'] at hc'
        exact absurd (honly j' hj' w' hc') hji'
      · rw [hji', hset] at hc'
        cases hc'
        rw [hsame j hji] at hc
        exact absurd (honly j hj v' hc) hji
      · rw [hsame j hji] at hc
        rw [hsame j' hji'] at hc'
        exact h.unique _ hb j hj j' hj' k' v' w' hc hc'
  · refine and_congr_right fun _ => ?_
    by_cases hji : j = i
    · rw [hji, hset]
      constructor
      · intro hc
        cases hc
        exact absurd rfl hk'
      · intro hc
        exact absurd (hold k' v' hc) hk'
    · rw [hsame j hji]

/-- A new overflow entry is put at the end of the chain of `k`. -/
theorem Chains.push {l : List Nat} {p a : Nat} {k : κ} {v : β} (hc : chain (hash k) = l ++ [p])
    (hunused : ¬ used a) (hhead : content (hash k) ≠ none)
    (honly : ∀ j ∈ chain (hash k), ∀ w, content j ≠ some (k, w))
    (hset : content' (n + a) = some (k, v)) (hsame : ∀ j, j ≠ n + a → content' j = content j)
    (hp : next' p = n + a) (hz : next' (n + a) = 0)
    (hnext : ∀ j, j ≠ p → j ≠ n + a → next' j = next j)
    (hused : ∀ a', used' a' ↔ a' = a ∨ used a') :
    Chains hash n next' content' used' (update chain (hash k) (l ++ [p, n + a])) ∧
      At hash (update chain (hash k) (l ++ [p, n + a])) content' (n + a) k v ∧
      ∀ j k' v', k' ≠ k →
        (At hash (update chain (hash k) (l ++ [p, n + a])) content' j k' v' ↔
          At hash chain content j k' v') := by
  have hb := hlt k
  have hnew {b : Nat} (hb : b < n) : n + a ∉ chain b :=
    fun hm => hunused ((h.used a).mpr ⟨b, hb, hm⟩)
  have hc' : l ++ [p, n + a] = chain (hash k) ++ [n + a] := by rw [hc]; simp
  have hmem {j : Nat} : j ∈ l ++ [p, n + a] ↔ j ∈ chain (hash k) ∨ j = n + a := by
    rw [hc']
    simp
  have hne {j : Nat} (hj : j ∈ chain (hash k)) : j ≠ n + a := fun he => hnew hb (he ▸ hj)
  have hpmem : p ∈ chain (hash k) := by rw [hc]; simp
  have hre : Rechain n next next' content content' used used' chain (hash k) (l ++ [p, n + a]) :=
    { bucket := hb
      fresh := fun j hj => by
        rcases hmem.mp hj with hj | rfl
        · exact .inl hj
        · exact .inr ⟨Nat.le_add_right _ _, by rw [Nat.add_sub_cancel_left]; exact hunused⟩
      next := fun j hj hold =>
        hnext j (fun he => hold (he ▸ hpmem)) (fun he => hj (hmem.mpr (.inr he)))
      content := fun j hj _ => hsame j fun he => hj (hmem.mpr (.inr he))
      used := fun a' => by
        rw [hused a', hmem]
        by_cases hm : n + a' ∈ chain (hash k)
        · simp [hm, (h.used a').mpr ⟨_, hb, hm⟩]
        · simp [hm] }
  have hnodup := h.nodup _ hb
  have hlinked := h.linked _ hb
  refine ⟨?_, ?_, fun j k' v' hk' => ?_⟩
  · refine h.rechain hre ?_ ?_ ?_ ?_ ?_ ?_ ?_
    · obtain ⟨t, ht⟩ := h.start _ hb
      exact ⟨t ++ [n + a], by rw [hc', ht]; rfl⟩
    · rw [hc] at hlinked hnodup
      exact hlinked.push hnodup (hc ▸ hnew hb) hp hz hnext
    · rw [hc']
      exact nodup_append.mpr ⟨hnodup, by simp, fun j hj j' hj' he =>
        hne hj (he.trans (mem_singleton.mp hj'))⟩
    · intro j hj hjb
      rcases hmem.mp hj with hj | rfl
      · rw [hsame j (hne hj)]
        exact h.full _ hb j hj hjb
      · rw [hset]
        exact nofun
    · intro hnone
      rw [hsame _ (by omega)] at hnone
      exact absurd hnone hhead
    · intro j hj k' v' hcj
      rcases hmem.mp hj with hj | rfl
      · rw [hsame j (hne hj)] at hcj
        exact h.hashed _ hb j hj k' v' hcj
      · rw [hset] at hcj
        cases hcj
        rfl
    · intro j hj j' hj' k' v' w' hcj hcj'
      rcases hmem.mp hj with hj | rfl <;> rcases hmem.mp hj' with hj' | rfl
      · rw [hsame j (hne hj)] at hcj
        rw [hsame j' (hne hj')] at hcj'
        exact h.unique _ hb j hj j' hj' k' v' w' hcj hcj'
      · rw [hset] at hcj'
        cases hcj'
        rw [hsame j (hne hj)] at hcj
        exact absurd hcj (honly j hj v')
      · rw [hset] at hcj
        cases hcj
        rw [hsame j' (hne hj')] at hcj'
        exact absurd hcj' (honly j' hj' w')
      · rfl
  · rw [h.at_rechain hre hlt, if_pos rfl]
    exact ⟨hmem.mpr (.inr rfl), hset⟩
  · rw [h.at_rechain hre hlt]
    split
    next heq =>
      unfold At
      rw [heq, hmem]
      constructor
      · rintro ⟨hj | rfl, hcj⟩
        · exact ⟨hj, by rw [← hsame j (hne hj)]; exact hcj⟩
        · rw [hset] at hcj
          cases hcj
          exact absurd rfl hk'
      · rintro ⟨hj, hcj⟩
        exact ⟨.inl hj, by rw [hsame j (hne hj)]; exact hcj⟩
    · rfl

/-- An overflow entry is taken out of its chain. -/
theorem Chains.unlink {l r : List Nat} {b p i : Nat} {k : κ} {v : β} (hb : b < n)
    (hc : chain b = l ++ p :: i :: r) (hi : content i = some (k, v))
    (hsame : ∀ j, content' j = content j) (hp : next' p = next i)
    (hnext : ∀ j, j ≠ p → next' j = next j) (hused : ∀ a, used' a ↔ used a ∧ n + a ≠ i) :
    Chains hash n next' content' used' (update chain b (l ++ p :: r)) ∧
      ∀ j k' v', At hash (update chain b (l ++ p :: r)) content' j k' v' ↔
        k' ≠ k ∧ At hash chain content j k' v' := by
  have hnodup := h.nodup _ hb
  have hlinked := h.linked _ hb
  rw [hc] at hnodup hlinked
  have hmem {j : Nat} : j ∈ chain b ↔ j ∈ l ++ p :: r ∨ j = i := by
    rw [hc]
    simp only [mem_append, mem_cons]
    tauto
  have hni : i ∉ l ++ p :: r := by
    have hperm : (l ++ p :: i :: r).Perm (i :: (l ++ p :: r)) := by
      refine List.Perm.trans ?_ perm_middle
      exact List.Perm.append_left _ (List.Perm.swap _ _ _)
    exact (nodup_cons.mp (hperm.nodup_iff.mp hnodup)).1
  have hpm : p ∈ l ++ p :: r := by simp
  have hib : i ∈ chain b := hmem.mpr (.inr rfl)
  have hk : hash k = b := h.hashed b hb i hib k v hi
  have hstart : ∃ t, l ++ p :: r = b :: t := by
    obtain ⟨t, ht⟩ := h.start b hb
    rw [hc] at ht
    cases l with
    | nil => exact ⟨r, by simp at ht ⊢; exact ht.1⟩
    | cons x l => exact ⟨l ++ p :: r, by simp at ht ⊢; exact ht.1⟩
  have hne : i ≠ b := by
    obtain ⟨t, ht⟩ := hstart
    exact fun he => hni (by rw [ht, he]; exact mem_cons_self)
  have hre : Rechain n next next' content content' used used' chain b (l ++ p :: r) :=
    { bucket := hb
      fresh := fun j hj => .inl (hmem.mpr (.inl hj))
      next := fun j hj _ => hnext j fun he => hj (he ▸ hpm)
      content := fun j _ _ => hsame j
      used := fun a => by
        rw [hused a, hmem]
        by_cases hm : n + a ∈ l ++ p :: r
        · have hua : used a := (h.used a).mpr ⟨b, hb, hmem.mpr (.inl hm)⟩
          simp only [hm, hua, true_or, true_and, iff_true]
          exact fun he => hni (he ▸ hm)
        · simp [hm] }
  refine ⟨?_, fun j k' v' => ?_⟩
  · refine h.rechain hre hstart (hlinked.unlink hnodup hp hnext) ?_ ?_ ?_ ?_ ?_
    · refine hnodup.sublist ?_
      exact (List.Sublist.refl l).append (List.Sublist.cons_cons p (sublist_cons_self i r))
    · intro j hj hjb
      rw [hsame j]
      exact h.full b hb j (hmem.mpr (.inl hj)) hjb
    · intro hnone
      rw [hsame b] at hnone
      have hone := h.empty b hb hnone
      rw [hone] at hib
      exact absurd (mem_singleton.mp hib) hne
    · intro j hj k' v' hcj
      rw [hsame j] at hcj
      exact h.hashed b hb j (hmem.mpr (.inl hj)) k' v' hcj
    · intro j hj j' hj' k' v' w' hcj hcj'
      rw [hsame] at hcj hcj'
      exact h.unique b hb j (hmem.mpr (.inl hj)) j' (hmem.mpr (.inl hj')) k' v' w' hcj hcj'
  · rw [h.at_rechain hre hlt]
    split
    next heq =>
      unfold At
      rw [heq, hmem, hsame j]
      constructor
      · rintro ⟨hj, hcj⟩
        refine ⟨?_, .inl hj, hcj⟩
        rintro rfl
        have := h.unique b hb j (hmem.mpr (.inl hj)) i hib k' v' v hcj hi
        exact hni (this ▸ hj)
      · rintro ⟨hk', hj | rfl, hcj⟩
        · exact ⟨hj, hcj⟩
        · rw [hi] at hcj
          cases hcj
          exact absurd rfl hk'
    next heq =>
      constructor
      · exact fun hat => ⟨fun he => heq (he ▸ hk), hat⟩
      · exact fun hat => hat.2

omit hlt in
/-- The only entry of a chain becomes empty. -/
theorem Chains.clear {b : Nat} {k : κ} {v : β} (hb : b < n) (hc : chain b = [b])
    (hk : content b = some (k, v)) (hset : content' b = none)
    (hsame : ∀ j, j ≠ b → content' j = content j) (hnext : ∀ j, next' j = next j) :
    Chains hash n next' content' used chain ∧
      ∀ j k' v', At hash chain content' j k' v' ↔ k' ≠ k ∧ At hash chain content j k' v' := by
  have hre : Rechain n next next' content content' used used chain b (chain b) :=
    { bucket := hb
      fresh := fun _ hj => .inl hj
      next := fun j _ _ => hnext j
      content := fun j _ hj => hsame j fun he => hj (he.symm ▸ h.head_mem hb)
      used := fun a => by
        have hnot : n + a ∉ chain b := by rw [hc, mem_singleton]; omega
        simp [hnot] }
  have hchain : update chain b (chain b) = chain := update_eq_self _ _
  have hmem {j : Nat} (hj : j ∈ chain b) : j = b := by rwa [hc, mem_singleton] at hj
  have hkb : hash k = b := h.hashed b hb b (h.head_mem hb) k v hk
  refine ⟨?_, fun j k' v' => ?_⟩
  · rw [← hchain]
    refine h.rechain hre (h.start b hb) ((h.linked b hb).congr fun j _ => hnext j) (h.nodup b hb) ?_
      (fun _ => hc) ?_ ?_
    · exact fun j hj hne => absurd (hmem hj) hne
    · intro j hj k' v' hcj
      rw [hmem hj, hset] at hcj
      cases hcj
    · exact fun j hj j' hj' _ _ _ _ _ => (hmem hj).trans (hmem hj').symm
  · unfold At
    by_cases hjb : j = b
    · rw [hjb, hset, hk]
      constructor
      · exact fun hat => nomatch hat.2
      · rintro ⟨hk', -, hcj⟩
        cases hcj
        exact absurd rfl hk'
    · rw [hsame j hjb]
      constructor
      · rintro ⟨hj, hcj⟩
        refine ⟨?_, hj, hcj⟩
        rintro rfl
        rw [hkb] at hj
        exact hjb (hmem hj)
      · exact fun hat => hat.2

/-- The bucket takes over the entry after it, which is given back. -/
theorem Chains.pull {b a : Nat} {r : List Nat} {k : κ} {v : β} (hb : b < n)
    (hc : chain b = b :: a :: r)
    (hk : content b = some (k, v)) (hset : content' b = content a)
    (hsame : ∀ j, j ≠ b → content' j = content j) (hp : next' b = next a)
    (hnext : ∀ j, j ≠ b → next' j = next j) (hused : ∀ a', used' a' ↔ used a' ∧ n + a' ≠ a) :
    Chains hash n next' content' used' (update chain b (b :: r)) ∧
      ∀ k' v', (∃ j, At hash (update chain b (b :: r)) content' j k' v') ↔
        k' ≠ k ∧ ∃ j, At hash chain content j k' v' := by
  have hnodup := h.nodup _ hb
  have hlinked := h.linked _ hb
  rw [hc] at hnodup hlinked
  have hbnot := (nodup_cons.mp hnodup).1
  have hanot := (nodup_cons.mp (nodup_cons.mp hnodup).2).1
  have hmem {j : Nat} : j ∈ chain b ↔ j = b ∨ j = a ∨ j ∈ r := by
    rw [hc, mem_cons, mem_cons]
  have ham : a ∈ chain b := hmem.mpr (.inr (.inl rfl))
  have hab : a ≠ b := fun he => hbnot (he ▸ mem_cons_self)
  have hrb {j : Nat} (hj : j ∈ r) : j ≠ b := fun he => hbnot (he ▸ mem_cons_of_mem _ hj)
  have hkb : hash k = b := h.hashed b hb b (h.head_mem hb) k v hk
  have hre : Rechain n next next' content content' used used' chain b (b :: r) :=
    { bucket := hb
      fresh := fun j hj => by
        rcases mem_cons.mp hj with hj | hj
        · exact .inl (hmem.mpr (.inl hj))
        · exact .inl (hmem.mpr (.inr (.inr hj)))
      next := fun j hj _ => hnext j fun he => hj (he ▸ mem_cons_self)
      content := fun j hj _ => hsame j fun he => hj (he ▸ mem_cons_self)
      used := fun a' => by
        rw [hused a', hmem, mem_cons]
        by_cases hm : n + a' ∈ r
        · have hua : used a' := (h.used a').mpr ⟨b, hb, hmem.mpr (.inr (.inr hm))⟩
          simp only [hm, hua, true_and, or_true, true_or, iff_true]
          exact fun he => hanot (he ▸ hm)
        · have : n + a' ≠ b := by omega
          simp [hm, this] }
  -- the new content of the chain is the old one without the first entry
  have hcontent {j : Nat} (hj : j ∈ b :: r) : ∃ i ∈ chain b, i ≠ b ∧ content' j = content i ∧
      (j = b ↔ i = a) ∧ (j ≠ b → i = j) := by
    rcases mem_cons.mp hj with rfl | hj
    · exact ⟨a, ham, hab, hset, by simp, fun hne => absurd rfl hne⟩
    · refine ⟨j, hmem.mpr (.inr (.inr hj)), hrb hj, hsame j (hrb hj), ?_, fun _ => rfl⟩
      simp only [hrb hj, false_iff]
      exact fun he => hanot (he ▸ hj)
  refine ⟨?_, fun k' v' => ?_⟩
  · refine h.rechain hre ⟨r, rfl⟩ ?_ ?_ ?_ ?_ ?_ ?_
    · exact hlinked.unlink (l := []) hnodup hp hnext
    · exact nodup_cons.mpr ⟨fun hm => hbnot (mem_cons_of_mem _ hm),
        (nodup_cons.mp (nodup_cons.mp hnodup).2).2⟩
    · intro j hj hjb
      obtain ⟨i, hi, hib, hci, -⟩ := hcontent hj
      rw [hci]
      exact h.full b hb i hi hib
    · intro hnone
      rw [hset] at hnone
      exact absurd hnone (h.full b hb a ham hab)
    · intro j hj k' v' hcj
      obtain ⟨i, hi, -, hci, -⟩ := hcontent hj
      exact h.hashed b hb i hi k' v' (hci ▸ hcj)
    · intro j hj j' hj' k' v' w' hcj hcj'
      obtain ⟨i, hi, -, hci, hja, hji⟩ := hcontent hj
      obtain ⟨i', hi', -, hci', hja', hji'⟩ := hcontent hj'
      have heq := h.unique b hb i hi i' hi' k' v' w' (hci ▸ hcj) (hci' ▸ hcj')
      by_cases hjb : j = b
      · rw [hjb]
        exact (hja'.mpr (heq ▸ hja.mp hjb)).symm
      · have hjb' : j' ≠ b := fun he => hjb (hja.mpr (heq ▸ hja'.mp he))
        rw [← hji hjb, heq, hji' hjb']
  · simp only [h.at_rechain hre hlt]
    split
    next heq =>
      constructor
      · rintro ⟨j, hj, hcj⟩
        obtain ⟨i, hi, hib, hci, -⟩ := hcontent hj
        refine ⟨?_, i, by rw [At, heq]; exact ⟨hi, hci ▸ hcj⟩⟩
        rintro rfl
        exact hib (h.unique b hb i hi b (h.head_mem hb) k' v' v (hci ▸ hcj) hk)
      · rintro ⟨hk', i, hi, hci⟩
        rw [heq] at hi
        rcases hmem.mp hi with rfl | rfl | hir
        · rw [hk] at hci
          cases hci
          exact absurd rfl hk'
        · exact ⟨b, mem_cons_self, hset.trans hci⟩
        · exact ⟨i, mem_cons_of_mem _ hir, (hsame i (hrb hir)).trans hci⟩
    next heq =>
      constructor
      · exact fun hat => ⟨fun he => heq (he ▸ hkb), hat⟩
      · exact fun hat => hat.2

end

/-- Entries reached from bucket `b` through `next`. -/
inductive Reach (next : Nat → Nat) (b : Nat) : Nat → Prop
  | start : Reach next b b
  | step {i : Nat} : Reach next b i → next i ≠ 0 → Reach next b (next i)

theorem Linked.next_mem {l : List Nat} {i : Nat} (h : Linked next l 0) (hi : i ∈ l)
    (hz : next i ≠ 0) : next i ∈ l := by
  induction l with
  | nil => cases hi
  | cons j l ih =>
    rcases mem_cons.mp hi with rfl | hi
    · cases l with
      | nil => exact absurd h.1 hz
      | cons x l => exact h.1 ▸ mem_cons_of_mem _ mem_cons_self
    · exact mem_cons_of_mem _ (ih h.2 hi)

theorem Reach.mem (h : Chains hash n next content used chain) {b i : Nat} (hb : b < n)
    (hr : Reach next b i) : i ∈ chain b := by
  induction hr with
  | start => exact h.head_mem hb
  | step _ hz ih => exact (h.linked b hb).next_mem ih hz

theorem reach_of_linked {b j : Nat} {l : List Nat} (hj : Reach next b j)
    (hl : Linked next (j :: l) 0)
    (hpos : ∀ i ∈ l, i ≠ 0) : ∀ i ∈ l, Reach next b i := by
  induction l generalizing j with
  | nil => exact nofun
  | cons x l ih =>
    have hx : next j = x := hl.1
    have hreach : Reach next b x := hx ▸ hj.step (hx ▸ hpos x mem_cons_self)
    intro i hi
    rcases mem_cons.mp hi with rfl | hi
    · exact hreach
    · exact ih hreach hl.2 (fun i hi => hpos i (mem_cons_of_mem _ hi)) i hi

theorem Chains.reach_iff (h : Chains hash n next content used chain) {b i : Nat} (hb : b < n) :
    Reach next b i ↔ i ∈ chain b := by
  refine ⟨Reach.mem h hb, fun hi => ?_⟩
  obtain ⟨t, ht⟩ := h.start b hb
  have hlinked := h.linked b hb
  have hnodup := h.nodup b hb
  rw [ht] at hlinked hi hnodup
  rcases mem_cons.mp hi with rfl | hi
  · exact .start
  · refine reach_of_linked .start hlinked (fun j hj => ?_) i hi
    have hjb : j ≠ b := fun he => (nodup_cons.mp hnodup).1 (he ▸ hj)
    have := (h.overflow b hb j (by rw [ht]; exact mem_cons_of_mem _ hj)).resolve_left hjb
    omega

/-- Following the links from the first entry of a list leads to its last one. -/
theorem Linked.iterate {l : List Nat} {i : Nat} (h : Linked next (i :: l) 0) :
    next (next^[l.length] i) = 0 := by
  induction l generalizing i with
  | nil => exact h.1
  | cons x l ih =>
    have hx : next i = x := h.1
    rw [length_cons, Function.iterate_succ_apply, hx]
    exact ih h.2

theorem Chains.ends (h : Chains hash n next content used chain) {b : Nat} (hb : b < n) :
    ∃ m, next (next^[m] b) = 0 := by
  obtain ⟨t, ht⟩ := h.start b hb
  exact ⟨t.length, Linked.iterate (ht ▸ h.linked b hb)⟩

end HashChain
