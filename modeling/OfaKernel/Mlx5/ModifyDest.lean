-- SUMMARY: Changing a destination of a flow handle.
import OfaKernel.Mlx5.Fte
import Mathlib.Data.List.Pairwise

/-!
# Changing a destination

`mlx5_modify_rule_destination` is to replace the rule for `old_dest` of a handle by
`new_dest`. It looks for `new_dest`, and it writes the new destination into the rule
before the device has answered.
-/

namespace Mlx5

def modifyEinval : Int := -22

/-- `memcpy(&rule->dest_attr, dest, sizeof(*dest))`. -/
def Fte.setDest (f : Fte) (r : RuleId) (dest : Dest) : Fte :=
  { f with rule := Function.update f.rule r { f.rule r with dest := some dest } }

/-- `_mlx5_modify_rule_destination`; `cmd` is what `update_fte` returns. -/
def Fte.modifyRule (f : Fte) (cmd : Int) (r : RuleId) (dest : Dest) : Fte × Int :=
  if !f.action.hasFwdDest then (f, modifyEinval)
  else ((f.setDest r dest).setFte (some ⟨false, true, false⟩), cmd)

/-- `mlx5_modify_rule_destination` of the handle with the given rules. -/
def Fte.modifyRuleDestination (f : Fte) (cmd : Int) (handle : List RuleId) (newDest : Dest) :
    Option Dest → Fte × Int
  | none =>
    match handle with
    | [r] => f.modifyRule cmd r newDest
    | _ => (f, modifyEinval)
  | some _ =>
    match handle.find? fun r => flowDestsCmp newDest (f.rule r).destAttr with
    | some r => f.modifyRule cmd r newDest
    | none => (f, modifyEinval)

/-! ## What the call is for -/

/-- The rule of the handle for a destination. -/
def ruleFor (f : Fte) (handle : List RuleId) (dest : Dest) : Option RuleId :=
  handle.find? fun r => flowDestsCmp dest (f.rule r).destAttr

/-- The rules of the handle have pairwise different destinations. -/
def Distinct (f : Fte) (handle : List RuleId) : Prop :=
  handle.Pairwise fun r s => r ≠ s ∧ ¬flowDestsCmp (f.rule r).destAttr (f.rule s).destAttr

/-- The rule for `old` gets `new` and no other rule changes, if the device takes the command; a
call that fails changes no rule. -/
structure ReplacesOld (f : Fte) (cmd : Int) (handle : List RuleId) (new old : Dest)
    (r : Fte × Int) : Prop where
  replaced : ∀ k, ruleFor f handle old = some k → cmd = 0 →
    r.2 = 0 ∧ (r.1.rule k).destAttr = new ∧
      ∀ s, s ≠ k → (r.1.rule s).destAttr = (f.rule s).destAttr
  absent : ruleFor f handle old = none → r = (f, modifyEinval)
  failed : r.2 ≠ 0 → ∀ s, (r.1.rule s).destAttr = (f.rule s).destAttr

/-- On success, the rule found for `new` is the rule for `old`, or there is neither. On failure,
there is no rule for `new`, or the rule for `new` already has exactly that destination. -/
def FindsOld (f : Fte) (cmd : Int) (handle : List RuleId) (new old : Dest) : Prop :=
  if cmd = 0 then ruleFor f handle new = ruleFor f handle old
  else ∀ k, ruleFor f handle new = some k →
    ruleFor f handle old ≠ none ∧ (f.rule k).destAttr = new

/-! ## The rules after a call -/

section Rules

variable {f : Fte} {cmd : Int} {handle : List RuleId} {new old : Dest}

@[simp] theorem destAttr_setDest_self (f : Fte) (r : RuleId) (dest : Dest) :
    ((f.setDest r dest).rule r).destAttr = dest := by
  simp [Fte.setDest, Rule.destAttr]

theorem destAttr_setDest_of_ne {r s : RuleId} (dest : Dest) (h : s ≠ r) :
    ((f.setDest r dest).rule s).destAttr = (f.rule s).destAttr := by
  simp [Fte.setDest, h]

theorem destAttr_setDest_of_eq {r : RuleId} (h : (f.rule r).destAttr = new) (s : RuleId) :
    ((f.setDest r new).rule s).destAttr = (f.rule s).destAttr := by
  by_cases hs : s = r
  · rw [hs, destAttr_setDest_self, h]
  · exact destAttr_setDest_of_ne new hs

theorem modify_of_none (h : ruleFor f handle new = none) :
    f.modifyRuleDestination cmd handle new (some old) = (f, modifyEinval) := by
  unfold ruleFor at h
  simp only [Fte.modifyRuleDestination, h]

theorem modify_of_some {k : RuleId} (hfwd : f.action.hasFwdDest = true)
    (h : ruleFor f handle new = some k) :
    f.modifyRuleDestination cmd handle new (some old) =
      ((f.setDest k new).setFte (some ⟨false, true, false⟩), cmd) := by
  unfold ruleFor at h
  simp [Fte.modifyRuleDestination, h, Fte.modifyRule, hfwd]

/-- A call that sends its command has changed the entry. -/
theorem setFte_ne (k : RuleId) : (f.setDest k new).setFte (some ⟨false, true, false⟩) ≠ f := by
  intro h
  have hlen := congrArg (fun g : Fte => g.cmds.length) h
  simp [Fte.setFte, Fte.setDest] at hlen

theorem ruleFor_cmp {k : RuleId} (h : ruleFor f handle new = some k) :
    k ∈ handle ∧ flowDestsCmp new (f.rule k).destAttr = true :=
  ⟨List.mem_of_find?_eq_some h,
    List.find?_some (p := fun r => flowDestsCmp new (f.rule r).destAttr) h⟩

theorem flowDestsCmp_comm (d e : Dest) : flowDestsCmp d e = flowDestsCmp e d := by
  cases d <;> cases e <;> simp [flowDestsCmp, eq_comm]

/-- In a handle with distinct destinations, no other rule has exactly the destination that a
rule was found for. -/
theorem Distinct.eq_of_destAttr {k l : RuleId} (hd : Distinct f handle)
    (hk : ruleFor f handle new = some k) (hl : l ∈ handle) (hnew : (f.rule l).destAttr = new) :
    l = k := by
  obtain ⟨hmem, hcmp⟩ := ruleFor_cmp hk
  have hsymm : Std.Symm fun r s => r ≠ s ∧
      ¬flowDestsCmp (f.rule r).destAttr (f.rule s).destAttr :=
    ⟨fun r s h => ⟨h.1.symm, by rw [flowDestsCmp_comm]; exact h.2⟩⟩
  by_contra hne
  apply (List.Pairwise.forall hd hl hmem hne).2
  rw [hnew]
  exact hcmp

end Rules

/-- A command that succeeds: the rule found for `new` is the one that changes. -/
theorem replaces_iff_of_ok {f : Fte} {handle : List RuleId} (hfwd : f.action.hasFwdDest = true)
    (hd : Distinct f handle) (new old : Dest) :
    ReplacesOld f 0 handle new old (f.modifyRuleDestination 0 handle new (some old)) ↔
      ruleFor f handle new = ruleFor f handle old := by
  cases hnew : ruleFor f handle new with
  | none =>
    rw [modify_of_none hnew]
    constructor
    · intro h
      cases hold : ruleFor f handle old with
      | none => rfl
      | some l =>
        have hzero : modifyEinval = 0 := (h.replaced l hold rfl).1
        exact absurd hzero (by decide)
    · intro hold
      refine ⟨fun l hl => ?_, fun _ => rfl, fun _ _ => rfl⟩
      rw [← hold] at hl
      cases hl
  | some k =>
    rw [modify_of_some hfwd hnew]
    constructor
    · intro h
      cases hold : ruleFor f handle old with
      | none =>
        have hzero : 0 = modifyEinval := congrArg Prod.snd (h.absent hold)
        exact absurd hzero (by decide)
      | some l =>
        obtain ⟨-, hl, -⟩ := h.replaced l hold rfl
        -- a rule other than `k` keeps its destination, so it would have been `new` before
        by_contra hne
        have hlk : l ≠ k := fun heq => hne (by rw [heq])
        change ((f.setDest k new).rule l).destAttr = new at hl
        rw [destAttr_setDest_of_ne new hlk] at hl
        exact hlk (hd.eq_of_destAttr hnew (ruleFor_cmp hold).1 hl)
    · intro hold
      refine ⟨fun l hl _ => ?_, fun hnone => ?_, fun herr => absurd rfl herr⟩
      · rw [← hold] at hl
        obtain rfl : k = l := Option.some.inj hl
        exact ⟨rfl, destAttr_setDest_self f k new, fun s hs => destAttr_setDest_of_ne new hs⟩
      · rw [← hold] at hnone
        cases hnone

/-- A command that fails: the rule that was found must not have changed. -/
theorem replaces_iff_of_error {f : Fte} {cmd : Int} {handle : List RuleId} (hcmd : cmd ≠ 0)
    (hfwd : f.action.hasFwdDest = true) (new old : Dest) :
    ReplacesOld f cmd handle new old (f.modifyRuleDestination cmd handle new (some old)) ↔
      ∀ k, ruleFor f handle new = some k →
        ruleFor f handle old ≠ none ∧ (f.rule k).destAttr = new := by
  cases hnew : ruleFor f handle new with
  | none =>
    rw [modify_of_none hnew]
    refine iff_of_true ⟨fun _ _ h => absurd h hcmd, fun _ => rfl, fun _ _ => rfl⟩ ?_
    intro k hk
    cases hk
  | some k =>
    rw [modify_of_some hfwd hnew]
    constructor
    · intro h l hl
      obtain rfl : k = l := Option.some.inj hl
      refine ⟨fun hold => ?_, ?_⟩
      · exact setFte_ne k (congrArg Prod.fst (h.absent hold))
      · have hsame := h.failed hcmd k
        change ((f.setDest k new).rule k).destAttr = _ at hsame
        rw [destAttr_setDest_self] at hsame
        exact hsame.symm
    · intro h
      obtain ⟨hold, hsame⟩ := h k rfl
      exact ⟨fun _ _ h0 => absurd h0 hcmd, fun hnone => absurd hnone hold,
        fun _ s => destAttr_setDest_of_eq hsame s⟩

/-- The call replaces the rule for `old_dest`, and leaves nothing behind when it fails, exactly
when its search for `new_dest` finds the right rule. -/
theorem modify_replaces_iff {f : Fte} {handle : List RuleId} (hfwd : f.action.hasFwdDest = true)
    (hd : Distinct f handle) (cmd : Int) (new old : Dest) :
    ReplacesOld f cmd handle new old (f.modifyRuleDestination cmd handle new (some old)) ↔
      FindsOld f cmd handle new old := by
  unfold FindsOld
  by_cases hcmd : cmd = 0
  · rw [if_pos hcmd, hcmd]
    exact replaces_iff_of_ok hfwd hd new old
  · rw [if_neg hcmd]
    exact replaces_iff_of_error hcmd hfwd new old

/-- An entry that forwards to the TIRs 1 and 2. -/
def twoTirs : Fte :=
  { FteState.init.fte with
    rule := fun r => ⟨some (.tir (r + 1)), 1, true⟩
    nextRule := 2
    children := [0, 1]
    destsSize := 2
    action := Action.fwdDest
    existing := true }

theorem modify_replaces_two_tirs :
    ReplacesOld twoTirs 0 [0, 1] (.tir 2) (.tir 2)
        (twoTirs.modifyRuleDestination 0 [0, 1] (.tir 2) (some (.tir 2))) ↔
      FindsOld twoTirs 0 [0, 1] (.tir 2) (.tir 2) :=
  modify_replaces_iff (by decide) (by unfold Distinct; decide) 0 (.tir 2) (.tir 2)

/-- TIR 3 cannot take the place of TIR 1: the call finds no rule for it. -/
theorem two_tirs_not_replaced :
    ¬ReplacesOld twoTirs 0 [0, 1] (.tir 3) (.tir 1)
        (twoTirs.modifyRuleDestination 0 [0, 1] (.tir 3) (some (.tir 1))) := by
  intro h
  exact absurd (h.replaced 0 (by decide) rfl).1 (by decide)

end Mlx5
