-- SUMMARY: Reference counts of an FTE's rules.
import OfaKernel.Mlx5.Fte
import Mathlib.Data.List.Induction

/-!
# Sharing of rules

`Held f refs` says that `refs`, the rules of all live handles in one list, is what the reference
counts of the entry `f` stand for.
-/

open Function List

namespace Mlx5

/-- The child list and the counts of an entry whose rules are referred to by `refs`. -/
structure Held (f : Fte) (refs : List RuleId) : Prop where
  nodup : f.children.Nodup
  lt : ∀ r ∈ f.children, r < f.nextRule
  mem : ∀ r, r ∈ f.children ↔ r ∈ refs
  refcount : ∀ r ∈ f.children, (f.rule r).refcount = refs.count r
  linked : ∀ r ∈ f.children, (f.rule r).linked = true

theorem Held.perm {f : Fte} {refs refs' : List RuleId} (h : Held f refs) (hp : refs.Perm refs') :
    Held f refs' :=
  { h with
    mem := fun r => (h.mem r).trans hp.mem_iff
    refcount := fun r hr => (h.refcount r hr).trans (hp.count_eq r) }

/-! ## Building a handle -/

/-- The entry `f` while the handle with the rules `rules` is built on the entry
`f₀`: `fresh` are the new rules. -/
structure Building (f₀ f : Fte) (rules fresh : List RuleId) : Prop where
  children : f.children.Perm (fresh ++ f₀.children)
  nodup : fresh.Nodup
  next_le : f₀.nextRule ≤ f.nextRule
  fresh_ge : ∀ r ∈ fresh, f₀.nextRule ≤ r ∧ r < f.nextRule
  fresh_rule : ∀ r ∈ fresh, (f.rule r).linked = false ∧
    (f.rule r).refcount = rules.count r ∧ r ∈ rules
  old_rule : ∀ r ∈ f₀.children, (f.rule r).dest = (f₀.rule r).dest ∧
    (f.rule r).linked = (f₀.rule r).linked ∧
    (f.rule r).refcount = (f₀.rule r).refcount + rules.count r
  mem : ∀ r ∈ rules, r ∈ fresh ∨ r ∈ f₀.children
  frame : f.action = f₀.action ∧ f.flowTag = f₀.flowTag ∧ f.existing = f₀.existing ∧
    f.refcount = f₀.refcount

section

variable {f₀ f : Fte} {rules fresh : List RuleId}

theorem Building.start (f : Fte) : Building f f [] [] where
  children := by simp
  nodup := by simp
  next_le := Nat.le_refl _
  fresh_ge := by simp
  fresh_rule := by simp
  old_rule := by simp
  mem := by simp
  frame := ⟨rfl, rfl, rfl, rfl⟩

variable {r : RuleId}

theorem Building.mem_children (h : Building f₀ f rules fresh) :
    r ∈ f.children ↔ r ∈ fresh ∨ r ∈ f₀.children := by
  rw [h.children.mem_iff, mem_append]

theorem Building.lt (h : Building f₀ f rules fresh) (hlt : ∀ r ∈ f₀.children, r < f₀.nextRule) :
    ∀ r ∈ f.children, r < f.nextRule := by
  intro r hr
  rcases h.mem_children.mp hr with hr | hr
  · exact (h.fresh_ge r hr).2
  · exact Nat.lt_of_lt_of_le (hlt r hr) h.next_le

/-- A rule that is found gets one more reference. -/
theorem Building.reuse (h : Building f₀ f rules fresh) (hr : r ∈ f.children) :
    Building f₀ (f.setRefcount r ((f.rule r).refcount + 1)) (rules ++ [r]) fresh where
  children := h.children
  nodup := h.nodup
  next_le := h.next_le
  fresh_ge := h.fresh_ge
  fresh_rule x hx := by
    have hx' := h.fresh_rule x hx
    by_cases hxr : x = r
    · subst hxr
      simp [Fte.setRefcount, hx']
    · simp [Fte.setRefcount, update_of_ne hxr, hx', Ne.symm hxr]
  old_rule x hx := by
    have hx' := h.old_rule x hx
    by_cases hxr : x = r
    · subst hxr
      simp [Fte.setRefcount, hx', Nat.add_assoc]
    · simp [Fte.setRefcount, update_of_ne hxr, hx', Ne.symm hxr]
  mem x hx := by
    rcases mem_append.mp hx with hx | hx
    · exact h.mem x hx
    · rw [mem_singleton.mp hx]
      exact h.mem_children.mp hr
  frame := h.frame

/-- A new rule is fresh and belongs to the handle once. -/
theorem Building.alloc (h : Building f₀ f rules fresh) (hlt : ∀ r ∈ f₀.children, r < f₀.nextRule)
    (d : Option Dest) :
    Building f₀ (allocRule f d) (rules ++ [f.nextRule]) (f.nextRule :: fresh) := by
  have hnotin : f.nextRule ∉ rules := fun hm =>
    (h.mem _ hm).elim (fun hm => Nat.lt_irrefl _ (h.fresh_ge _ hm).2)
      (fun hm => absurd (hlt _ hm) (Nat.not_lt.mpr h.next_le))
  have hne : ∀ r, r < f.nextRule → r ≠ f.nextRule := fun r hr => Nat.ne_of_lt hr
  refine
    { children := ?_
      nodup := nodup_cons.mpr ⟨fun hm => Nat.lt_irrefl _ (h.fresh_ge _ hm).2, h.nodup⟩
      next_le := Nat.le_succ_of_le h.next_le
      fresh_ge := ?_
      fresh_rule := ?_
      old_rule := ?_
      mem := ?_
      frame := h.frame }
  · unfold allocRule
    split
    · exact h.children.cons _
    · exact (perm_append_singleton _ _).trans (h.children.cons _)
  · intro r hr
    rcases mem_cons.mp hr with rfl | hr
    · exact ⟨h.next_le, Nat.lt_succ_self _⟩
    · exact ⟨(h.fresh_ge r hr).1, Nat.lt_succ_of_lt (h.fresh_ge r hr).2⟩
  · intro r hr
    rcases mem_cons.mp hr with rfl | hr
    · simp [allocRule, count_eq_zero.mpr hnotin]
    · have hr' := h.fresh_rule r hr
      have hrne := hne r (h.fresh_ge r hr).2
      simp [allocRule, update_of_ne hrne, hr', hrne.symm]
  · intro r hr
    have hr' := h.old_rule r hr
    have hrne := hne r (Nat.lt_of_lt_of_le (hlt r hr) h.next_le)
    simp [allocRule, update_of_ne hrne, hr', hrne.symm]
  · intro r hr
    rcases mem_append.mp hr with hr | hr
    · exact (h.mem r hr).imp (fun hm => mem_cons_of_mem _ hm) id
    · exact .inl (by simp [mem_singleton.mp hr])

/-- Taking back the last rule of the handle: a new rule goes away with its last
reference, an old one keeps those it had. -/
theorem Building.unwind (h : Building f₀ f (rules ++ [r]) fresh)
    (hlt : ∀ r ∈ f₀.children, r < f₀.nextRule)
    (hpos : ∀ r ∈ f₀.children, 0 < (f₀.rule r).refcount) :
    ∃ fresh', Building f₀ (destroyHandleRule f r) rules fresh' ∧ fresh' ⊆ fresh ∧
      ((f.rule r).refcount = 1 → r ∈ fresh) := by
  have hcount : ∀ x, x ≠ r → (rules ++ [r]).count x = rules.count x := fun x hx => by
    simp [Ne.symm hx]
  have hself : (rules ++ [r]).count r = rules.count r + 1 := by simp
  by_cases hone : (f.rule r).refcount = 1
  · -- the only reference: the rule is new and leaves the list
    have hfresh : r ∈ fresh := by
      refine (h.mem r (by simp)).resolve_right fun hold => ?_
      have := (h.old_rule r hold).2.2
      have := hpos r hold
      omega
    have hrules : rules.count r = 0 := by
      have := (h.fresh_rule r hfresh).2.1
      omega
    have hnotin : r ∉ rules := count_eq_zero.mp hrules
    have hrule : ∀ x, x ≠ r → (destroyHandleRule f r).rule x = f.rule x := fun x hx => by
      simp [destroyHandleRule, hone, Fte.setRefcount, update_of_ne hx]
    have hout : ∀ x ∈ fresh.erase r, x ∈ fresh ∧ x ≠ r := fun x hx =>
      ⟨mem_of_mem_erase hx, fun he => h.nodup.not_mem_erase (he ▸ hx)⟩
    refine ⟨fresh.erase r, ?_, erase_subset, fun _ => hfresh⟩
    refine
      { children := ?_
        nodup := h.nodup.erase r
        next_le := ?_
        fresh_ge := ?_
        fresh_rule := ?_
        old_rule := ?_
        mem := ?_
        frame := ?_ }
    · have := h.children.erase r
      rw [erase_append_left _ hfresh] at this
      simpa [destroyHandleRule, hone] using this
    · simpa [destroyHandleRule, hone, Fte.setRefcount] using h.next_le
    · intro x hx
      have := h.fresh_ge x (hout x hx).1
      simpa [destroyHandleRule, hone, Fte.setRefcount] using this
    · intro x hx
      obtain ⟨hx, hxr⟩ := hout x hx
      obtain ⟨h₁, h₂, h₃⟩ := h.fresh_rule x hx
      rw [hrule x hxr]
      exact ⟨h₁, h₂.trans (hcount x hxr), by simpa [hxr] using h₃⟩
    · intro x hx
      have hxr : x ≠ r := fun he =>
        absurd (hlt x hx) (Nat.not_lt.mpr (he ▸ (h.fresh_ge r hfresh).1))
      obtain ⟨h₁, h₂, h₃⟩ := h.old_rule x hx
      rw [hrule x hxr]
      exact ⟨h₁, h₂, by rw [h₃, hcount x hxr]⟩
    · intro x hx
      have hxr : x ≠ r := fun he => hnotin (he ▸ hx)
      refine (h.mem x (by simp [hx])).imp (fun hm => ?_) id
      exact (mem_erase_of_ne hxr).mpr hm
    · simpa [destroyHandleRule, hone, Fte.setRefcount] using h.frame
  · have heq : destroyHandleRule f r = f.setRefcount r ((f.rule r).refcount - 1) := by
      simp [destroyHandleRule, hone]
    rw [heq]
    refine ⟨fresh, ?_, List.Subset.refl _, fun h1 => absurd h1 hone⟩
    refine
      { children := h.children
        nodup := h.nodup
        next_le := h.next_le
        fresh_ge := h.fresh_ge
        fresh_rule := ?_
        old_rule := ?_
        mem := fun x hx => h.mem x (by simp [hx])
        frame := h.frame }
    · intro x hx
      obtain ⟨h₁, h₂, h₃⟩ := h.fresh_rule x hx
      by_cases hxr : x = r
      · subst hxr
        have hx' : x ∈ rules := count_pos_iff.mp (by omega)
        simp only [Fte.setRefcount, update_self]
        exact ⟨h₁, by omega, hx'⟩
      · simp only [Fte.setRefcount, update_of_ne hxr]
        exact ⟨h₁, h₂.trans (hcount x hxr), by simpa [hxr] using h₃⟩
    · intro x hx
      obtain ⟨h₁, h₂, h₃⟩ := h.old_rule x hx
      by_cases hxr : x = r
      · subst hxr
        simp only [Fte.setRefcount, update_self]
        exact ⟨h₁, h₂, by omega⟩
      · simp only [Fte.setRefcount, update_of_ne hxr]
        exact ⟨h₁, h₂, by rw [h₃, hcount x hxr]⟩

/-- Unwinding the whole handle restores the child list and its counts. -/
theorem Building.destroy (h : Building f₀ f rules fresh)
    (hlt : ∀ r ∈ f₀.children, r < f₀.nextRule)
    (hpos : ∀ r ∈ f₀.children, 0 < (f₀.rule r).refcount) :
    Building f₀ (destroyFlowHandle f rules) [] [] := by
  induction rules using List.reverseRecOn generalizing f fresh with
  | nil =>
    obtain rfl : fresh = [] := eq_nil_iff_forall_not_mem.mpr fun r hr => by
      have := (h.fresh_rule r hr).2.2
      simp at this
    exact h
  | append_singleton rules r ih =>
    obtain ⟨fresh', h', -, -⟩ := h.unwind hlt hpos
    rw [destroyFlowHandle, reverse_append]
    exact ih h'

theorem Building.setFte (h : Building f₀ f rules fresh) (m : Option ModifyMask) :
    Building f₀ (f.setFte m) rules fresh :=
  ⟨h.children, h.nodup, h.next_le, h.fresh_ge, h.fresh_rule, h.old_rule, h.mem, h.frame⟩

end

/-! ## The loop of `create_flow_handle` -/

/-- One destination that an existing rule serves. -/
def HandleBuild.reuse (b : HandleBuild) (r : RuleId) : HandleBuild :=
  { b with fte := b.fte.setRefcount r ((b.fte.rule r).refcount + 1), rules := b.rules ++ [r] }

/-- One destination that gets a new rule. -/
def HandleBuild.alloc (b : HandleBuild) (d : Option Dest) : HandleBuild where
  fte := allocRule b.fte d
  rules := b.rules ++ [b.fte.nextRule]
  modifyMask := b.modifyMask.addDest d
  newRule := true

/-- The invariant rule of the loop: `P ds b` holds after the destinations `ds`. -/
theorem createFlowHandleLoop_rule {P : List (Option Dest) → HandleBuild → Prop}
    (reuse : ∀ ds b e r, P ds b → findFlowRule b.fte e = some r → P (ds ++ [some e]) (b.reuse r))
    (alloc : ∀ ds b d, P ds b → d.bind (findFlowRule b.fte) = none → P (ds ++ [d]) (b.alloc d))
    (allocOk : Nat → Bool) (i : Nat) (ds : List (Option Dest)) {done : List (Option Dest)}
    {b : HandleBuild} (h : P done b) :
    ∃ ds' b', ds' <+: done ++ ds ∧ P ds' b' ∧
      ((ds' = done ++ ds ∧ createFlowHandleLoop allocOk i ds b = (b', true)) ∨
        (ds' ≠ done ++ ds ∧
          createFlowHandleLoop allocOk i ds b = ({ b' with newRule := true }, false))) := by
  induction ds generalizing i done b with
  | nil => exact ⟨done, b, by simp, h, .inl ⟨by simp, rfl⟩⟩
  | cons d ds ih =>
    have happ : ∀ d', done ++ d' :: ds = (done ++ [d']) ++ ds := fun d' => by simp
    unfold createFlowHandleLoop
    cases hf : d.bind (findFlowRule b.fte) with
    | some r =>
      obtain ⟨e, rfl, he⟩ := Option.bind_eq_some_iff.mp hf
      rw [happ]
      exact ih (i + 1) (reuse done b e r h he)
    | none =>
      by_cases ha : allocOk i = true
      · simp only [ha, if_true]
        rw [happ]
        exact ih (i + 1) (alloc done b d h hf)
      · simp only [ha, Bool.false_eq_true, if_false]
        exact ⟨done, b, prefix_append _ _, h, .inr ⟨by simp, rfl⟩⟩

/-- The number of rules in the child list that carry a destination. -/
def Fte.numDests (f : Fte) : Nat :=
  f.children.countP fun r => (f.rule r).dest.isSome

theorem Fte.setRefcount_dest (f : Fte) (r x : RuleId) (k : Nat) :
    ((f.setRefcount r k).rule x).dest = (f.rule x).dest := by
  by_cases hx : x = r
  · subst hx; simp [Fte.setRefcount]
  · simp [Fte.setRefcount, update_of_ne hx]

@[simp] theorem Fte.numDests_setRefcount (f : Fte) (r : RuleId) (k : Nat) :
    (f.setRefcount r k).numDests = f.numDests := by
  simp only [Fte.numDests, Fte.setRefcount_dest]
  rfl

theorem Fte.numDests_allocRule {f : Fte} (hlt : ∀ r ∈ f.children, r < f.nextRule)
    (d : Option Dest) : (allocRule f d).numDests = f.numDests + if d.isSome then 1 else 0 := by
  have hold : f.children.countP (fun r => ((allocRule f d).rule r).dest.isSome) = f.numDests := by
    refine countP_congr fun r hr => ?_
    simp [allocRule, update_of_ne (Nat.ne_of_lt (hlt r hr))]
  have hperm : (allocRule f d).children.Perm (f.nextRule :: f.children) := by
    unfold allocRule
    split
    · exact .refl _
    · exact perm_append_singleton _ _
  have hnew : ((allocRule f d).rule f.nextRule).dest = d := by simp [allocRule]
  rw [Fte.numDests, hperm.countP_eq, countP_cons, hold, hnew]

/-- `dests_size` counts the rules that carry a destination. -/
def Fte.SizeOk (f : Fte) : Prop :=
  f.destsSize = U32.wrap f.numDests

theorem Fte.SizeOk.alloc {f : Fte} (h : f.SizeOk) (hlt : ∀ r ∈ f.children, r < f.nextRule)
    (d : Option Dest) : (allocRule f d).SizeOk := by
  rw [Fte.SizeOk, Fte.numDests_allocRule hlt]
  simp only [allocRule]
  split
  · rw [h, U32.inc_wrap]
  · exact h

/-- No destination of the list is equal to an earlier one that is new to the entry. -/
def NoRepeat (f : Fte) (ds : List (Option Dest)) : Prop :=
  ds.Pairwise fun d d' => d.isSome ∧
    ∀ e ∈ d, ∀ e' ∈ d', flowDestsCmp e e' = true → findFlowRule f e ≠ none

instance (f : Fte) (ds : List (Option Dest)) : Decidable (NoRepeat f ds) :=
  inferInstanceAs (Decidable (List.Pairwise _ _))

/-- A rule that compares equal to a destination of the list was made for that destination. -/
def Matches (f : Fte) (ds : List (Option Dest)) : Prop :=
  ∀ d ∈ ds, ∀ e ∈ d, ∀ r ∈ f.children, flowDestsCmp (f.rule r).destAttr e = true →
    (f.rule r).dest = some e

instance (f : Fte) (ds : List (Option Dest)) : Decidable (Matches f ds) :=
  inferInstanceAs (Decidable (∀ d ∈ ds, ∀ e ∈ d, ∀ r ∈ f.children, _ → _))

/-- The handle being built on `f₀` after the destinations `ds`. -/
structure Built (f₀ : Fte) (ds : List (Option Dest)) (b : HandleBuild) (fresh : List RuleId) :
    Prop extends Building f₀ b.fte b.rules fresh where
  length_eq : b.rules.length = ds.length
  serves : NoRepeat f₀ ds → Matches f₀ ds → b.rules.map (fun r => (b.fte.rule r).dest) = ds
  fresh_dest : ∀ r ∈ fresh, (b.fte.rule r).dest ∈ ds ∧
    ∀ e, (b.fte.rule r).dest = some e → findFlowRule f₀ e = none
  once : NoRepeat f₀ ds → ∀ r ∈ fresh, b.rules.count r = 1
  newRule : b.newRule = true ↔ fresh ≠ []
  size : f₀.SizeOk → b.fte.SizeOk
  cmds : b.fte.cmds = f₀.cmds
  destinationList : b.modifyMask.destinationList = true ↔
    ∃ r ∈ fresh, ∃ d, (b.fte.rule r).dest = some d ∧ d.isCounter = false
  flowCounters : b.modifyMask.flowCounters = true ↔
    ∃ r ∈ fresh, ∃ d, (b.fte.rule r).dest = some d ∧ d.isCounter = true

variable {e : Dest} {r : RuleId}

theorem findFlowRule_mem {f : Fte} (h : findFlowRule f e = some r) :
    r ∈ f.children ∧ flowDestsCmp (f.rule r).destAttr e = true :=
  ⟨mem_of_find?_eq_some h, by simpa using List.find?_some h⟩

/-- A destination new to the grown entry is new to the old one. -/
theorem Building.findFlowRule_none {f₀ f : Fte} {rules fresh : List RuleId}
    (h : Building f₀ f rules fresh) (hf : findFlowRule f e = none) :
    findFlowRule f₀ e = none := by
  unfold findFlowRule at hf ⊢
  rw [List.find?_eq_none] at hf ⊢
  intro r hr
  have := hf r (h.mem_children.mpr (.inr hr))
  unfold Rule.destAttr at this ⊢
  rw [(h.old_rule r hr).1] at this
  exact this

theorem Built.reuse {f₀ : Fte} {ds : List (Option Dest)} {b : HandleBuild} {fresh : List RuleId}
    (h : Built f₀ ds b fresh) (hf : findFlowRule b.fte e = some r) :
    Built f₀ (ds ++ [some e]) (b.reuse r) fresh := by
  obtain ⟨hr, hcmp⟩ := findFlowRule_mem hf
  have hdest : ∀ x, ((b.reuse r).fte.rule x).dest = (b.fte.rule x).dest := fun x =>
    Fte.setRefcount_dest ..
  -- a new rule is not found: its destination would repeat one that is new
  have hold : NoRepeat f₀ (ds ++ [some e]) → ∀ x ∈ fresh, r ≠ x := by
    rintro hrep r hx rfl
    obtain ⟨-, -, hlast⟩ := pairwise_append.mp hrep
    obtain ⟨hmem, hnone⟩ := h.fresh_dest r hx
    obtain ⟨hsome, hcmp'⟩ := hlast _ hmem (some e) (by simp)
    obtain ⟨e₀, he₀⟩ := Option.isSome_iff_exists.mp hsome
    refine hcmp' e₀ he₀ e rfl ?_ (hnone e₀ he₀)
    simpa [Rule.destAttr, he₀] using hcmp
  refine { h.toBuilding.reuse hr with
    length_eq := by simp [HandleBuild.reuse, h.length_eq]
    serves := fun hrep hmatch => ?_
    fresh_dest := fun x hx => ?_
    once := fun hrep x hx => ?_
    newRule := h.newRule
    size := fun hs => by
      rw [Fte.SizeOk, HandleBuild.reuse, Fte.numDests_setRefcount]
      exact h.size hs
    cmds := h.cmds
    destinationList := by simp only [hdest]; exact h.destinationList
    flowCounters := by simp only [hdest]; exact h.flowCounters }
  · have hprev := h.serves (pairwise_append.mp hrep).1 fun e' he' =>
      hmatch e' (mem_append_left _ he')
    have hr' := (h.mem_children.mp hr).resolve_left fun hx => hold hrep r hx rfl
    have he : (b.fte.rule r).dest = some e := by
      rw [(h.old_rule r hr').1]
      refine hmatch (some e) (by simp) e rfl r hr' ?_
      rw [Rule.destAttr, ← (h.old_rule r hr').1]
      exact hcmp
    simp only [hdest]
    rw [HandleBuild.reuse, map_append, hprev, map_singleton, he]
  · rw [hdest]
    exact ⟨mem_append_left _ (h.fresh_dest x hx).1, (h.fresh_dest x hx).2⟩
  · rw [HandleBuild.reuse, count_append, h.once (pairwise_append.mp hrep).1 x hx]
    simp [hold hrep x hx]

theorem ModifyMask.addDest_destinationList (m : ModifyMask) (d : Option Dest) :
    (m.addDest d).destinationList = true ↔
      m.destinationList = true ∨ ∃ e, d = some e ∧ e.isCounter = false := by
  unfold ModifyMask.addDest
  cases d with
  | none => simp
  | some e => cases he : e.isCounter <;> simp [he]

theorem ModifyMask.addDest_flowCounters (m : ModifyMask) (d : Option Dest) :
    (m.addDest d).flowCounters = true ↔
      m.flowCounters = true ∨ ∃ e, d = some e ∧ e.isCounter = true := by
  unfold ModifyMask.addDest
  cases d with
  | none => simp
  | some e => cases he : e.isCounter <;> simp [he]

theorem Built.alloc {f₀ : Fte} {ds : List (Option Dest)} {b : HandleBuild} {fresh : List RuleId}
    (h : Built f₀ ds b fresh) (hlt : ∀ r ∈ f₀.children, r < f₀.nextRule) {d : Option Dest}
    (hf : d.bind (findFlowRule b.fte) = none) :
    Built f₀ (ds ++ [d]) (b.alloc d) (b.fte.nextRule :: fresh) := by
  have hdest : ∀ x, x < b.fte.nextRule → ((b.alloc d).fte.rule x).dest = (b.fte.rule x).dest :=
    fun x hx => by simp [HandleBuild.alloc, allocRule, update_of_ne (Nat.ne_of_lt hx)]
  have hnew : ((b.alloc d).fte.rule b.fte.nextRule).dest = d := by
    simp [HandleBuild.alloc, allocRule]
  have hrules : ∀ r ∈ b.rules, r < b.fte.nextRule := fun r hr =>
    h.lt hlt r (h.mem_children.mpr (h.mem r hr))
  have hex : ∀ v, (∃ r ∈ b.fte.nextRule :: fresh, ∃ e, ((b.alloc d).fte.rule r).dest = some e ∧
      e.isCounter = v) ↔ (∃ r ∈ fresh, ∃ e, (b.fte.rule r).dest = some e ∧ e.isCounter = v) ∨
        ∃ e, d = some e ∧ e.isCounter = v := by
    intro v
    rw [exists_mem_cons_iff, hnew, or_comm]
    refine or_congr_left (exists_congr fun r => and_congr_right fun hr => ?_)
    rw [hdest r (h.fresh_ge r hr).2]
  refine { h.toBuilding.alloc hlt d with
    length_eq := by simp [HandleBuild.alloc, h.length_eq]
    serves := fun hrep hmatch => ?_
    fresh_dest := fun x hx => ?_
    once := fun hrep x hx => ?_
    newRule := by simp [HandleBuild.alloc]
    size := fun hs => (h.size hs).alloc (h.lt hlt) d
    cmds := h.cmds
    destinationList := by
      rw [hex, ← h.destinationList]; exact ModifyMask.addDest_destinationList ..
    flowCounters := by rw [hex, ← h.flowCounters]; exact ModifyMask.addDest_flowCounters .. }
  · have hprev := h.serves (pairwise_append.mp hrep).1 fun e' he' =>
      hmatch e' (mem_append_left _ he')
    have hsame : b.rules.map (fun x => ((b.alloc d).fte.rule x).dest) =
        b.rules.map fun x => (b.fte.rule x).dest :=
      map_congr_left fun x hx => hdest x (hrules x hx)
    rw [show (b.alloc d).rules = b.rules ++ [b.fte.nextRule] from rfl, map_append, hsame, hprev,
      map_singleton, hnew]
  · rcases mem_cons.mp hx with rfl | hx
    · rw [hnew]
      refine ⟨by simp, fun e he => ?_⟩
      subst he
      exact h.findFlowRule_none hf
    · rw [hdest x (h.fresh_ge x hx).2]
      exact ⟨mem_append_left _ (h.fresh_dest x hx).1, (h.fresh_dest x hx).2⟩
  · have hnot : b.fte.nextRule ∉ b.rules := fun hm => Nat.lt_irrefl _ (hrules _ hm)
    rw [HandleBuild.alloc, count_append]
    rcases mem_cons.mp hx with rfl | hx
    · simp [count_eq_zero.mpr hnot]
    · rw [h.once (pairwise_append.mp hrep).1 x hx]
      simp [(Nat.ne_of_lt (h.fresh_ge x hx).2).symm]

theorem Built.start (f : Fte) : Built f [] ⟨f, [], ⟨false, false, false⟩, false⟩ [] :=
  { Building.start f with
    length_eq := rfl
    serves := fun _ _ => rfl
    fresh_dest := by simp
    once := by simp
    newRule := by simp
    size := id
    cmds := rfl
    destinationList := by simp
    flowCounters := by simp }

theorem createFlowHandle_built {f : Fte} (hlt : ∀ r ∈ f.children, r < f.nextRule)
    (allocOk : Nat → Bool) (ds : List (Option Dest)) :
    ∃ ds' b fresh, ds' <+: ds ∧ Built f ds' b fresh ∧
      ((ds' = ds ∧ createFlowHandleLoop allocOk 0 ds ⟨f, [], ⟨false, false, false⟩, false⟩
        = (b, true)) ∨
        (ds' ≠ ds ∧ createFlowHandleLoop allocOk 0 ds ⟨f, [], ⟨false, false, false⟩, false⟩ =
          ({ b with newRule := true }, false))) := by
  obtain ⟨ds', b, hpre, ⟨fresh, hb⟩, hres⟩ := createFlowHandleLoop_rule
    (P := fun ds b => ∃ fresh, Built f ds b fresh)
    (fun ds b e r ⟨fresh, hb⟩ hf => ⟨fresh, hb.reuse hf⟩)
    (fun ds b d ⟨fresh, hb⟩ hf => ⟨_, hb.alloc hlt hf⟩) allocOk 0 ds ⟨[], Built.start f⟩
  exact ⟨ds', b, fresh, hpre, hb, hres⟩

/-- The loop of `add_rule_fg` over the handle: rules with one reference are linked. -/
theorem foldl_linkRule (f : Fte) (rules : List RuleId) :
    rules.foldl linkRule f =
      { f with
        rule := fun r =>
          { f.rule r with
            linked := (f.rule r).linked || (rules.contains r && (f.rule r).refcount == 1) }
        refcount := f.refcount + rules.countP fun r => (f.rule r).refcount == 1 } := by
  induction rules generalizing f with
  | nil => simp
  | cons r rules ih =>
    rw [foldl_cons, ih]
    unfold linkRule
    by_cases h1 : (f.rule r).refcount = 1
    · have hrc : ∀ x, (update f.rule r { f.rule r with linked := true } x).refcount =
          (f.rule x).refcount := fun x => by
        by_cases hx : x = r
        · subst hx; simp
        · simp [update_of_ne hx]
      rw [if_pos h1]
      simp only [Fte.mk.injEq, hrc, countP_cons, true_and, and_true]
      refine ⟨funext fun x => ?_, by rw [if_pos (by simpa using h1)]; omega⟩
      by_cases hx : x = r
      · subst hx; simp [h1]
      · simp [hx]
    · rw [if_neg h1]
      simp only [Fte.mk.injEq, countP_cons, true_and, and_true]
      refine ⟨funext fun x => ?_, by simp [h1]⟩
      by_cases hx : x = r
      · subst hx
        have : ((f.rule x).refcount == 1) = false := by simpa using h1
        simp [this]
      · simp [hx]

section

variable {f₀ : Fte} {ds : List (Option Dest)} {b : HandleBuild} {fresh refs : List RuleId}

/-- In a handle without repeated new destinations, the rules with one reference
are the new ones. -/
theorem Built.refcount_eq_one (h : Built f₀ ds b fresh) (hheld : Held f₀ refs)
    (hrep : NoRepeat f₀ ds) {r : RuleId} (hr : r ∈ b.rules) :
    (b.fte.rule r).refcount = 1 ↔ r ∈ fresh := by
  constructor
  · intro h1
    refine (h.mem r hr).resolve_right fun hold => ?_
    have h₁ := (h.old_rule r hold).2.2
    have h₂ := hheld.refcount r hold
    have h₃ := count_pos_iff.mpr ((hheld.mem r).mp hold)
    have h₄ := count_pos_iff.mpr hr
    omega
  · intro hf
    rw [(h.fresh_rule r hf).2.1]
    exact h.once hrep r hf

theorem Built.countP_eq (h : Built f₀ ds b fresh) (hheld : Held f₀ refs) (hrep : NoRepeat f₀ ds) :
    (b.rules.countP fun r => (b.fte.rule r).refcount == 1) = fresh.length := by
  have hcongr : (b.rules.countP fun r => (b.fte.rule r).refcount == 1) =
      b.rules.countP fun r => decide (r ∈ fresh) :=
    countP_congr fun r hr => by simpa using h.refcount_eq_one hheld hrep hr
  rw [hcongr, countP_eq_length_filter]
  refine List.Perm.length_eq ((perm_ext_iff_of_nodup ?_ h.nodup).mpr fun r => ?_)
  · rw [nodup_iff_count]
    intro r
    by_cases hr : r ∈ fresh
    · have := h.once hrep r hr
      exact Nat.le_trans (List.Sublist.count_le r filter_sublist) (by omega)
    · rw [count_eq_zero.mpr (by simp [hr])]
      omega
  · simp only [mem_filter, decide_eq_true_eq]
    exact ⟨fun hr => hr.2, fun hr => ⟨(h.fresh_rule r hr).2.2, hr⟩⟩

/-- After a successful addition the new handle is one more holder of rules. -/
theorem Built.held (h : Built f₀ ds b fresh) (hheld : Held f₀ refs) (hrep : NoRepeat f₀ ds) :
    Held (b.rules.foldl linkRule b.fte) (refs ++ b.rules) := by
  have hdisj : ∀ r ∈ fresh, r ∉ refs := fun r hr hm =>
    absurd (hheld.lt r ((hheld.mem r).mpr hm)) (Nat.not_lt.mpr (h.fresh_ge r hr).1)
  rw [foldl_linkRule]
  refine ⟨?_, h.lt hheld.lt, fun r => ?_, fun r hr => ?_, fun r hr => ?_⟩
  · refine h.children.nodup_iff.mpr (nodup_append.mpr ⟨h.nodup, hheld.nodup, ?_⟩)
    rintro x hx y hy rfl
    exact hdisj x hx ((hheld.mem x).mp hy)
  · rw [mem_append, ← hheld.mem]
    refine h.mem_children.trans
      ⟨fun hr => hr.elim (fun hf => ?_) .inl, fun hr => hr.elim .inr (h.mem r)⟩
    exact .inr (h.fresh_rule r hf).2.2
  · rw [count_append]
    rcases h.mem_children.mp hr with hf | hold
    · rw [(h.fresh_rule r hf).2.1, count_eq_zero.mpr (hdisj r hf), Nat.zero_add]
    · rw [(h.old_rule r hold).2.2, hheld.refcount r hold]
  · dsimp only
    rcases h.mem_children.mp hr with hf | hold
    · have hr' := (h.fresh_rule r hf).2.2
      simp [hr', (h.refcount_eq_one hheld hrep hr').mpr hf]
    · rw [(h.old_rule r hold).2.1, hheld.linked r hold, Bool.true_or]

end

theorem delSwHwRule_frame (f : Fte) (r : RuleId) :
    (delSwHwRule f r).rule = f.rule ∧ (delSwHwRule f r).children = f.children ∧
      (delSwHwRule f r).nextRule = f.nextRule ∧ (delSwHwRule f r).refcount = f.refcount := by
  have hfwd : ∀ g : Fte, (delFwdDest g).rule = g.rule ∧ (delFwdDest g).children = g.children ∧
      (delFwdDest g).nextRule = g.nextRule ∧ (delFwdDest g).refcount = g.refcount := by
    intro g
    unfold delFwdDest Fte.setFte
    dsimp only
    split
    · split <;> exact ⟨rfl, rfl, rfl, rfl⟩
    · exact ⟨rfl, rfl, rfl, rfl⟩
  unfold delSwHwRule Fte.setFte
  dsimp only
  split
  · split
    · exact ⟨rfl, rfl, rfl, rfl⟩
    · obtain ⟨h₁, h₂, h₃, h₄⟩ := hfwd { f with destsSize := U32.dec f.destsSize }
      rw [h₁, h₂, h₃, h₄]
      exact ⟨rfl, rfl, rfl, rfl⟩
  · exact hfwd f

theorem treeRemoveRule_last {f : Fte} (hone : ¬(f.rule r).refcount > 1)
    (hl : (f.rule r).linked = true) :
    treeRemoveRule f r =
      { delSwHwRule { f.setRefcount r 0 with children := f.children.erase r } r with
        refcount := (delSwHwRule { f.setRefcount r 0 with
          children := f.children.erase r } r).refcount - 1 } := by
  unfold treeRemoveRule
  rw [if_neg hone, if_pos hl]

/-- Deleting one rule of a handle takes one occurrence away. -/
theorem Held.remove {f : Fte} {refs : List RuleId} (h : Held f (r :: refs))
    (hentry : f.refcount = f.children.length) :
    Held (treeRemoveRule f r) refs ∧
      (treeRemoveRule f r).refcount = (treeRemoveRule f r).children.length := by
  have hr : r ∈ f.children := (h.mem r).mpr (by simp)
  have hrc : (f.rule r).refcount = refs.count r + 1 := by rw [h.refcount r hr]; simp
  have hother : ∀ x, x ≠ r → (r :: refs).count x = refs.count x := fun x hx => by
    simp [Ne.symm hx]
  unfold treeRemoveRule
  by_cases hgt : (f.rule r).refcount > 1
  · rw [if_pos hgt]
    refine ⟨⟨h.nodup, h.lt, fun x => ?_, fun x hx => ?_, fun x hx => ?_⟩, hentry⟩
    · have hmem : r ∈ refs := count_pos_iff.mp (by omega)
      refine (h.mem x).trans (mem_cons.trans ⟨fun hx => hx.elim (fun he => he ▸ hmem) id, .inr⟩)
    · by_cases hxr : x = r
      · subst hxr
        simp only [Fte.setRefcount, update_self]
        omega
      · simp only [Fte.setRefcount, update_of_ne hxr]
        rw [h.refcount x hx, hother x hxr]
    · by_cases hxr : x = r
      · subst hxr
        simpa [Fte.setRefcount] using h.linked x hx
      · simpa [Fte.setRefcount, update_of_ne hxr] using h.linked x hx
  · rw [if_neg hgt, if_pos (h.linked r hr)]
    obtain ⟨h₁, h₂, h₃, h₄⟩ :=
      delSwHwRule_frame { f.setRefcount r 0 with children := f.children.erase r } r
    have hnot : r ∉ refs := count_eq_zero.mp (by omega)
    have hmem : ∀ x, x ∈ f.children.erase r ↔ x ≠ r ∧ x ∈ f.children :=
      fun x => h.nodup.mem_erase_iff
    refine ⟨⟨?_, ?_, fun x => ?_, fun x hx => ?_, fun x hx => ?_⟩, ?_⟩
    · rw [h₂]; exact h.nodup.erase r
    · rw [h₂, h₃]; exact fun x hx => h.lt x ((hmem x).mp hx).2
    · rw [h₂, hmem, h.mem, mem_cons]
      exact ⟨fun ⟨hne, hx⟩ => hx.resolve_left hne, fun hx => ⟨fun he => hnot (he ▸ hx), .inr hx⟩⟩
    · rw [h₂] at hx
      obtain ⟨hne, hx⟩ := (hmem x).mp hx
      rw [h₁]
      simp only [Fte.setRefcount, update_of_ne hne]
      rw [h.refcount x hx, hother x hne]
    · rw [h₂] at hx
      obtain ⟨hne, hx⟩ := (hmem x).mp hx
      rw [h₁]
      simpa [Fte.setRefcount, update_of_ne hne] using h.linked x hx
    · dsimp only
      rw [h₂, h₄]
      dsimp only [Fte.setRefcount]
      rw [length_erase_of_mem hr, hentry]

/-! ## Everything an addition can do -/

/-- The entry with the action of the addition joined in. -/
def Fte.join (f : Fte) (act : FlowAct) : Fte :=
  { f with action := f.action ||| act.action }

/-- A failed addition: refused at once, or unwound after the destinations `ds`,
with or without a command in between. -/
def AddFails (f : Fte) (a : AddArgs) : Prop :=
  addRuleFg f a = (f, none) ∨
    ∃ ds b fresh g, ds <+: a.requests ∧ Built (f.join a.act) ds b fresh ∧
      ((ds ≠ a.requests ∧ g = b.fte) ∨
        (ds = a.requests ∧ a.cmdOk = false ∧ ∃ m, g = b.fte.setFte m)) ∧
      addRuleFg f a = ({ destroyFlowHandle g b.rules with action := f.action }, none)

/-- A successful addition: with a command if it made new rules. -/
def AddSucceeds (f : Fte) (a : AddArgs) : Prop :=
  ∃ b fresh g, Built (f.join a.act) a.requests b fresh ∧
    ((fresh = [] ∧ g = b.fte) ∨
      (fresh ≠ [] ∧ g = { b.fte.setFte (commandMask f b.modifyMask (f.action != a.act.action)) with
        existing := true })) ∧
    addRuleFg f a = (b.rules.foldl linkRule g, some b.rules)

theorem addRuleFte_cases {f : Fte} (hlt : ∀ r ∈ f.children, r < f.nextRule) (a : AddArgs)
    (updateAction : Bool) :
    addRuleFte f a updateAction = (f, none) ∨
    (∃ ds b fresh g, ds <+: a.requests ∧ Built f ds b fresh ∧
      ((ds ≠ a.requests ∧ g = b.fte) ∨
        (ds = a.requests ∧ a.cmdOk = false ∧ ∃ m, g = b.fte.setFte m)) ∧
      addRuleFte f a updateAction = (destroyFlowHandle g b.rules, none)) ∨
    (∃ b fresh g, Built f a.requests b fresh ∧
      ((fresh = [] ∧ g = b.fte) ∨
        (fresh ≠ [] ∧ g = { b.fte.setFte (commandMask f b.modifyMask updateAction) with
          existing := true })) ∧
      addRuleFte f a updateAction = (g, some b.rules)) := by
  unfold addRuleFte
  by_cases hh : a.handleOk = true
  · obtain ⟨ds, b, fresh, hpre, hb, hres⟩ := createFlowHandle_built hlt a.allocOk a.requests
    simp only [hh, Bool.not_true, Bool.false_eq_true, if_false]
    rcases hres with ⟨rfl, hres⟩ | ⟨hne, hres⟩
    · simp only [hres, Bool.not_true, Bool.false_eq_true, if_false]
      by_cases hn : b.newRule = true
      · simp only [hn, Bool.not_true, Bool.false_eq_true, if_false]
        by_cases hcmd : a.cmdOk = true
        · rw [if_pos hcmd]
          exact .inr (.inr ⟨b, fresh, _, hb,
            .inr ⟨hb.newRule.mp hn, rfl⟩, rfl⟩)
        · rw [if_neg hcmd]
          exact .inr (.inl ⟨_, b, fresh, _, hpre, hb, .inr ⟨rfl, by simpa using hcmd,
            commandMask f b.modifyMask updateAction, rfl⟩, rfl⟩)
      · have hfresh : fresh = [] := by
          by_contra hne
          exact hn (hb.newRule.mpr hne)
        simp only [hn, Bool.not_false, if_true]
        exact .inr (.inr ⟨b, fresh, _, hb, .inl ⟨hfresh, rfl⟩, rfl⟩)
    · simp only [hres, Bool.not_false, if_true]
      exact .inr (.inl ⟨ds, b, fresh, _, hpre, hb, .inl ⟨hne, rfl⟩, rfl⟩)
  · exact .inl (by simp [hh])

theorem addRuleFg_cases {f : Fte} (hlt : ∀ r ∈ f.children, r < f.nextRule) (a : AddArgs) :
    AddFails f a ∨ AddSucceeds f a := by
  unfold AddFails AddSucceeds addRuleFg
  split
  · exact .inl (.inl rfl)
  · have hcases := addRuleFte_cases (f := f.join a.act) hlt a (f.action != a.act.action)
    unfold Fte.join at hcases ⊢
    rcases hcases with h | ⟨ds, b, fresh, g, hpre, hb, hg, h⟩ | ⟨b, fresh, g, hb, hg, h⟩
    · exact .inl (.inl (by rw [h]))
    · exact .inl (.inr ⟨ds, b, fresh, g, hpre, hb, hg, by rw [h]⟩)
    · exact .inr ⟨b, fresh, g, hb, hg, by rw [h]⟩

variable {a : AddArgs}

theorem addRuleFg_refused {f : Fte} (h : checkConflictingFtes f a.act = true) :
    addRuleFg f a = (f, none) :=
  if_pos h

namespace FteState

/-- All references of the live handles. -/
def refs (s : FteState) : List RuleId :=
  s.handles.flatMap Handle.rules

/-- The sharing invariant, with the references `pend` of a handle that is being deleted. -/
structure Inv (s : FteState) (pend : List RuleId) : Prop where
  held : s.present = true → Held s.fte (s.refs ++ pend)
  entry : s.present = true → s.fte.refcount = s.fte.children.length ∧ s.fte.refcount ≠ 0
  absent : s.present = false → s.handles = [] ∧ pend = []
  rules : ∀ h ∈ s.handles, h.rules ≠ []

variable {s : FteState} {pend : List RuleId}

theorem inv_init : Inv init [] where
  held := by simp [init]
  entry := by simp [init]
  absent := by simp [init]
  rules := by simp [init]

/-- The entry an addition works on. -/
theorem Inv.getFte (h : Inv s []) (act : FlowAct) :
    Held (s.getFte act) s.refs ∧ (s.getFte act).refcount = (s.getFte act).children.length + 1 := by
  unfold FteState.getFte
  by_cases hp : s.present = true
  · have hheld := h.held hp
    rw [append_nil] at hheld
    rw [if_pos hp]
    exact ⟨⟨hheld.nodup, hheld.lt, hheld.mem, hheld.refcount, hheld.linked⟩,
      by rw [(h.entry hp).1]⟩
  · have habs := h.absent (by simpa using hp)
    rw [if_neg hp, refs, habs.1]
    exact ⟨⟨by simp, by simp, by simp, by simp, by simp⟩, rfl⟩

end FteState

theorem AddArgs.requests_ne_nil (h : a.dest ≠ some []) : a.requests ≠ [] := by
  unfold AddArgs.requests
  cases hd : a.dest with
  | none => simp
  | some ds => simpa [hd] using h

/-- What every addition does to the entry it works on. -/
theorem addRuleFg_held {f : Fte} {refs : List RuleId} (hheld : Held f refs)
    (hok : checkConflictingFtes f a.act = true ∨ NoRepeat f a.requests) :
    ((addRuleFg f a).2 = none ∧ Held (addRuleFg f a).1 refs ∧
      (addRuleFg f a).1.refcount = f.refcount ∧
      (addRuleFg f a).1.children.length = f.children.length) ∨
    ∃ rules, (addRuleFg f a).2 = some rules ∧ rules.length = a.requests.length ∧
      Held (addRuleFg f a).1 (refs ++ rules) ∧
      (addRuleFg f a).1.refcount + f.children.length =
        f.refcount + (addRuleFg f a).1.children.length := by
  have hjoin : Held (f.join a.act) refs :=
    ⟨hheld.nodup, hheld.lt, hheld.mem, hheld.refcount, hheld.linked⟩
  rcases hok with hc | hrep
  · rw [addRuleFg_refused hc]
    exact .inl ⟨rfl, hheld, rfl, rfl⟩
  rcases addRuleFg_cases hheld.lt a with (hf | ⟨ds, b, fresh, g, -, hb, hg, hf⟩) |
    ⟨b, fresh, g, hb, hg, hf⟩
  · rw [hf]
    exact .inl ⟨rfl, hheld, rfl, rfl⟩
  · rw [hf]
    have hg' : Building (f.join a.act) g b.rules fresh := by
      rcases hg with ⟨-, rfl⟩ | ⟨-, -, m, rfl⟩
      · exact hb.toBuilding
      · exact hb.toBuilding.setFte m
    have hpos : ∀ r ∈ (f.join a.act).children, 0 < ((f.join a.act).rule r).refcount :=
      fun r hr => by
      rw [hjoin.refcount r hr]
      exact count_pos_iff.mpr ((hjoin.mem r).mp hr)
    have hd := hg'.destroy hjoin.lt hpos
    have hperm : (destroyFlowHandle g b.rules).children.Perm f.children := hd.children
    refine .inl ⟨rfl, ⟨hperm.nodup_iff.mpr hheld.nodup, hd.lt hjoin.lt, fun r => ?_, fun r hr => ?_,
      fun r hr => ?_⟩, hd.frame.2.2.2, hperm.length_eq⟩
    · exact hperm.mem_iff.trans (hheld.mem r)
    · have hr' := hperm.mem_iff.mp hr
      rw [(hd.old_rule r hr').2.2]
      exact hheld.refcount r hr'
    · have hr' := hperm.mem_iff.mp hr
      rw [(hd.old_rule r hr').2.1]
      exact hheld.linked r hr'
  · rw [hf]
    have hgf : g.rule = b.fte.rule ∧ g.children = b.fte.children ∧ g.nextRule = b.fte.nextRule ∧
        g.refcount = b.fte.refcount := by
      rcases hg with ⟨-, rfl⟩ | ⟨-, rfl⟩
      all_goals exact ⟨rfl, rfl, rfl, rfl⟩
    have hh := hb.held hjoin hrep
    rw [foldl_linkRule] at hh ⊢
    rw [hgf.1, hgf.2.2.2]
    refine .inr ⟨b.rules, rfl, hb.length_eq, ?_, ?_⟩
    · exact ⟨by rw [hgf.2.1]; exact hh.nodup, by rw [hgf.2.1, hgf.2.2.1]; exact hh.lt,
        by rw [hgf.2.1]; exact hh.mem, by rw [hgf.2.1]; exact hh.refcount,
        by rw [hgf.2.1]; exact hh.linked⟩
    · rw [hgf.2.1, hb.countP_eq hjoin hrep, hb.children.length_eq, length_append,
        hb.frame.2.2.2]
      change f.refcount + fresh.length + f.children.length =
        f.refcount + (fresh.length + f.children.length)
      omega

namespace FteState

variable {s : FteState} {pend : List RuleId}

theorem add_present (s : FteState) (a : AddArgs) :
    (s.add a).present = true ↔ (addRuleFg (s.getFte a.act) a).1.refcount ≠ 1 := by
  simp [FteState.add, addResult]

theorem add_fte (s : FteState) (a : AddArgs) :
    (s.add a).fte = { (addRuleFg (s.getFte a.act) a).1 with
      refcount := (addRuleFg (s.getFte a.act) a).1.refcount - 1 } := rfl

theorem Inv.add (h : Inv s []) {a : AddArgs} (hv : a.dest ≠ some [])
    (hok : checkConflictingFtes (s.getFte a.act) a.act = true ∨
      NoRepeat (s.getFte a.act) a.requests) : Inv (s.add a) [] := by
  obtain ⟨hheld, hentry⟩ := h.getFte a.act
  rcases addRuleFg_held hheld hok with ⟨hnone, hh, hrc, hlen⟩ | ⟨rules, hsome, hl, hh, hrc⟩
  · have hrefs : (s.add a).refs = s.refs := by simp [refs, FteState.add, addResult, hnone]
    have hhandles : (s.add a).handles = s.handles := by simp [FteState.add, addResult, hnone]
    refine ⟨fun _ => ?_, fun hp => ?_, fun hp => ⟨?_, rfl⟩, by rw [hhandles]; exact h.rules⟩
    · rw [hrefs, append_nil]
      exact ⟨hh.nodup, hh.lt, hh.mem, hh.refcount, hh.linked⟩
    · rw [add_present] at hp
      rw [add_fte]
      dsimp only
      omega
    · rw [hhandles]
      by_contra hne
      -- the references of a live handle keep the entry
      obtain ⟨k, hk⟩ := exists_mem_of_ne_nil _ hne
      obtain ⟨r, hr⟩ := exists_mem_of_ne_nil _ (h.rules k hk)
      have hmem : r ∈ (s.getFte a.act).children :=
        (hheld.mem r).mpr (mem_flatMap.mpr ⟨k, hk, hr⟩)
      have := length_pos_of_mem hmem
      rw [← Bool.not_eq_true, add_present, not_not] at hp
      omega
  · have hrefs : (s.add a).refs = rules ++ s.refs := by simp [refs, FteState.add, addResult, hsome]
    have hne : rules ≠ [] := fun he => AddArgs.requests_ne_nil hv (by
      rw [he] at hl; exact length_eq_zero_iff.mp hl.symm)
    obtain ⟨r, hr⟩ := exists_mem_of_ne_nil _ hne
    have hmem := length_pos_of_mem ((hh.mem r).mpr (mem_append_right _ hr))
    refine ⟨fun _ => ?_, fun hp => ?_, fun hp => ?_, fun k hk => ?_⟩
    · rw [hrefs, append_nil]
      exact Held.perm ⟨hh.nodup, hh.lt, hh.mem, hh.refcount, hh.linked⟩ perm_append_comm
    · rw [add_fte]
      dsimp only
      omega
    · rw [← Bool.not_eq_true, add_present, not_not] at hp
      omega
    · simp only [FteState.add, addResult, hsome, mem_cons] at hk
      rcases hk with rfl | hk
      · exact hne
      · exact h.rules k hk

theorem delRule_dest (s : FteState) (r x : RuleId) :
    ((s.delRule r).fte.rule x).dest = (s.fte.rule x).dest := by
  unfold FteState.delRule treeRemoveRule
  split
  · exact Fte.setRefcount_dest ..
  · split
    · rw [(delSwHwRule_frame _ r).1]
      exact Fte.setRefcount_dest ..
    · exact Fte.setRefcount_dest ..

theorem Inv.delRule {r : RuleId} (h : Inv s (r :: pend)) : Inv (s.delRule r) pend := by
  have hp : s.present = true := by
    by_contra hp
    have := (h.absent (by simpa using hp)).2
    simp at this
  have hheld := (h.held hp).perm perm_middle
  obtain ⟨hh, hentry⟩ := hheld.remove (h.entry hp).1
  refine ⟨fun _ => hh, fun hp' => ⟨hentry, ?_⟩, fun hp' => ?_, h.rules⟩
  · simp only [FteState.delRule, hp, Bool.true_and, bne_iff_ne] at hp'
    exact hp'
  · -- released: no reference is left
    simp only [FteState.delRule, hp, Bool.true_and, bne_eq_false_iff_eq] at hp'
    have hnil : (treeRemoveRule s.fte r).children = [] :=
      length_eq_zero_iff.mp (hentry.symm.trans hp')
    have hrefs : s.refs ++ pend = [] := eq_nil_iff_forall_not_mem.mpr fun x hx => by
      have := (hh.mem x).mpr hx
      rw [hnil] at this
      simp at this
    obtain ⟨hrefs, hpend⟩ := append_eq_nil_iff.mp hrefs
    refine ⟨eq_nil_iff_forall_not_mem.mpr fun k hk => ?_, hpend⟩
    exact h.rules k hk (flatMap_eq_nil_iff.mp hrefs k hk)

/-- A live handle becomes the one that is being deleted. -/
theorem Inv.pend_handle (h : Inv s []) {k : Handle} (hk : k ∈ s.handles) :
    Inv { s with handles := s.handles.erase k } k.rules.reverse := by
  have hperm : s.refs.Perm (k.rules
    ++ ({ s with handles := s.handles.erase k } : FteState).refs) := by
    exact (perm_cons_erase hk).flatMap_right Handle.rules
  refine ⟨fun hp => ?_, h.entry, fun hp => ?_, fun k' hk' => h.rules k' (mem_of_mem_erase hk')⟩
  · have hheld := h.held hp
    rw [append_nil] at hheld
    refine (hheld.perm (hperm.trans ?_))
    exact perm_append_comm.trans ((reverse_perm k.rules).symm.append_left _)
  · have := (h.absent hp).1
    rw [this] at hk
    simp at hk

end FteState

end Mlx5
