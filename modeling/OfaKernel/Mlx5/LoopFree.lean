-- SUMMARY: Which calls keep mlx5 steering loop-free.
import OfaKernel.Mlx5.Steering

/-!
# Loop freedom

Every miss link and every flow table a rule forwards to should lie at a strictly greater level
than the table they start from.
-/

open Function List

namespace Mlx5

open FsNode hiding ns prio

/-! ## The destinations of one entry -/

/-- Every destination of the child list has the property `P`. -/
def Fte.All (P : Dest → Prop) (f : Fte) : Prop :=
  ∀ r ∈ f.children, ∀ d, (f.rule r).dest = some d → P d

section

variable {P : Dest → Prop} {f g : Fte} {a : AddArgs}

/-- Rules may leave the child list. -/
theorem Fte.All.of_subset (h : f.All P) (hch : g.children ⊆ f.children)
    (hdest : ∀ r, (g.rule r).dest = (f.rule r).dest) : g.All P := fun r hr d hd =>
  h r (hch hr) d (by rw [← hdest, hd])

theorem Fte.All.allocRule (h : f.All P) {d : Option Dest} (hd : ∀ e ∈ d, P e) :
    (allocRule f d).All P := by
  intro r hr e he
  have hmem : r = f.nextRule ∨ r ∈ f.children := by
    unfold Mlx5.allocRule at hr
    split at hr
    · exact mem_cons.mp hr
    · exact (mem_append.mp hr).symm.imp mem_singleton.mp id
  simp only [Mlx5.allocRule] at he
  by_cases hn : r = f.nextRule
  · subst hn
    rw [update_self] at he
    exact hd e he
  · rw [update_of_ne hn] at he
    exact h r (hmem.resolve_left hn) e he

theorem Fte.All.destroyFlowHandle (h : f.All P) (rules : List RuleId) :
    (destroyFlowHandle f rules).All P := by
  unfold Mlx5.destroyFlowHandle
  generalize rules.reverse = l
  induction l generalizing f with
  | nil => exact h
  | cons r l ih =>
    refine ih (h.of_subset ?_ fun x => ?_)
    · unfold destroyHandleRule
      split
      · exact erase_subset
      · exact List.Subset.refl _
    · unfold destroyHandleRule
      split <;> exact Fte.setRefcount_dest ..

theorem createFlowHandleLoop_all (h : f.All P) (allocOk : Nat → Bool) (ds : List (Option Dest))
    (hds : ∀ d ∈ ds, ∀ e ∈ d, P e) (m : ModifyMask) (new : Bool) :
    (createFlowHandleLoop allocOk 0 ds ⟨f, [], m, new⟩).1.fte.All P := by
  obtain ⟨ds', b, hpre, hb, hres⟩ := createFlowHandleLoop_rule
    (P := fun ds b => (∀ d ∈ ds, ∀ e ∈ d, P e) → b.fte.All P)
    (fun ds b e r ih _ hP => (ih fun d hd => hP d (mem_append_left _ hd)).of_subset
      (List.Subset.refl _) fun x => Fte.setRefcount_dest ..)
    (fun ds b d ih _ hP => (ih fun d hd => hP d (mem_append_left _ hd)).allocRule
      (hP d (by simp)))
    allocOk 0 ds (b := ⟨f, [], m, new⟩) (show (∀ d ∈ [], ∀ e ∈ d, P e) → _ from fun _ => h)
  have hall := hb fun d hd => hds d (hpre.subset hd)
  rcases hres with ⟨-, hres⟩ | ⟨-, hres⟩
  all_goals rw [hres]; exact hall

theorem addRuleFg_all (h : f.All P) (hds : ∀ d ∈ a.requests, ∀ e ∈ d, P e) :
    (addRuleFg f a).1.All P := by
  have hte : ∀ g : Fte, g.All P → ∀ u, (addRuleFte g a u).1.All P := by
    intro g hg u
    have hloop := createFlowHandleLoop_all hg a.allocOk a.requests hds ⟨false, false, false⟩ false
    unfold addRuleFte
    split
    · exact hg
    · dsimp only
      split
      · exact hloop.destroyFlowHandle _
      · split
        · exact hloop
        · split
          · exact hloop
          · exact Fte.All.destroyFlowHandle (f := Fte.setFte _ _) hloop _
  unfold addRuleFg
  split
  · exact h
  · have hres := hte { f with action := f.action ||| a.act.action } h (f.action != a.act.action)
    dsimp only
    split
    · exact hres
    · rw [foldl_linkRule]
      exact hres

theorem FteState.add_all {s : FteState} (h : s.present = true → s.fte.All P)
    (hds : ∀ d ∈ a.requests, ∀ e ∈ d, P e) : (s.add a).fte.All P := by
  have hget : (s.getFte a.act).All P := by
    unfold FteState.getFte
    split
    · next hp => exact h hp
    · intro r hr
      simp at hr
  exact addRuleFg_all hget hds

/-- A deletion takes rules away. -/
theorem FteState.delRule_frame (s : FteState) (r : RuleId) :
    (s.delRule r).fte.children ⊆ s.fte.children ∧
      ((s.delRule r).present = true → s.present = true) := by
  refine ⟨?_, fun hp => ?_⟩
  · unfold FteState.delRule treeRemoveRule
    split
    · exact List.Subset.refl _
    · split
      · rw [(delSwHwRule_frame _ r).2.1]
        exact erase_subset
      · exact List.Subset.refl _
  · simp only [FteState.delRule, Bool.and_eq_true] at hp
    exact hp.1

theorem FteState.del_frame (s : FteState) (h : Handle) :
    (s.del h).fte.children ⊆ s.fte.children ∧
      (∀ r, ((s.del h).fte.rule r).dest = (s.fte.rule r).dest) ∧
      ((s.del h).present = true → s.present = true) := by
  have hgo : ∀ (l : List RuleId) (t : FteState),
      (l.foldl FteState.delRule t).fte.children ⊆ t.fte.children ∧
        (∀ r, ((l.foldl FteState.delRule t).fte.rule r).dest = (t.fte.rule r).dest) ∧
        ((l.foldl FteState.delRule t).present = true → t.present = true) := by
    intro l
    induction l with
    | nil => exact fun t => ⟨List.Subset.refl _, fun _ => rfl, id⟩
    | cons x l ih =>
      intro t
      obtain ⟨h₁, h₂, h₃⟩ := ih (t.delRule x)
      obtain ⟨hsub, hp⟩ := t.delRule_frame x
      exact ⟨List.Subset.trans h₁ hsub, fun r => (h₂ r).trans (FteState.delRule_dest t x r),
        fun h => hp (h₃ h)⟩
  exact hgo _ _

theorem modifyRuleDestination_all (h : f.All P) (r : RuleId) {d : Dest} (hd : P d) :
    (modifyRuleDestination f r d).All P ∧ (modifyRuleDestination f r d).children = f.children := by
  unfold modifyRuleDestination
  split
  · refine ⟨fun x hx e he => ?_, rfl⟩
    by_cases hxr : x = r
    · subst hxr
      simp only [Fte.setFte, update_self, Option.some.injEq] at he
      exact he ▸ hd
    · simp only [Fte.setFte, update_of_ne hxr] at he
      exact h x hx e he
  · exact ⟨h, rfl⟩

theorem pointRulesTo_all {ft : FtId} {nextFt : RuleId → Option FtId} (h : f.All P)
    (hft : (∃ r ∈ f.children, nextFt r = some ft) → P (.flowTable ft)) :
    (pointRulesTo ft nextFt f).All P ∧ (pointRulesTo ft nextFt f).children = f.children := by
  -- over a part of the child list
  suffices hgo : ∀ l ⊆ f.children, ∀ g : Fte, g.All P → g.children = f.children →
      (l.foldl (fun f r => if nextFt r = some ft then modifyRuleDestination f r (.flowTable ft)
        else f) g).All P ∧
      (l.foldl (fun f r => if nextFt r = some ft then modifyRuleDestination f r (.flowTable ft)
        else f) g).children = f.children from hgo _ (List.Subset.refl _) f h rfl
  intro l
  induction l with
  | nil => exact fun _ g hg hch => ⟨hg, hch⟩
  | cons x l ih =>
    intro hl g hg hch
    rw [foldl_cons]
    have hl' : l ⊆ f.children := fun y hy => hl (by simp [hy])
    split
    · next hx =>
        obtain ⟨h₁, h₂⟩ := modifyRuleDestination_all hg x (hft ⟨x, hl (by simp), hx⟩)
        exact ih hl' _ h₁ (h₂.trans hch)
    · exact ih hl' g hg hch

end

/-! ## Tables -/

namespace FtState

variable {root : FsNode} {s : FtState} {p : Path} {a : FsPrio} {x y ft : FtId} {hi : Nat}

/-- The table `y` is live and lies above `x`. -/
def Up (s : FtState) (x y : FtId) : Prop :=
  s.Live y ∧ s.level x < s.level y

/-- Every miss link of a live table goes up. -/
def MissUp (s : FtState) : Prop :=
  ∀ x y, s.Live x → s.miss x = some y → s.Up x y

theorem Inv.next_above (h : Inv root s) (hlev : root.Levels 0 hi) (ha : root.attrAt p = some a)
    (hy : findNextChainedFt root s.tables p = some y) :
    s.Live y ∧ a.startLevel + a.numLevels ≤ s.level y := by
  rw [findNextChainedFt, findClosestFt_forward] at hy
  obtain ⟨q, hq, hmem⟩ := Slots.first_mem hy
  exact ⟨h.live hmem, h.level_leavesAfter hlev ha hq hmem⟩

theorem connectPrevFts_cases (hpar : ∀ q x, x ∈ s.tables q → s.parent x = q)
    (target : Option FtId) (x : FtId) :
    connectPrevFts root s target p x = s.miss x ∨
      (connectPrevFts root s target p x = target ∧
        ∃ q ∈ root.leavesBefore [] p, x ∈ s.tables q) := by
  unfold connectPrevFts
  cases hprev : findPrevChainedFt root s.tables p with
  | none => exact .inl rfl
  | some prev =>
    rw [findPrevChainedFt, findClosestFt_reverse] at hprev
    obtain ⟨q, hq, hmem⟩ := Slots.last_mem hprev
    dsimp only [connectFtsInPrio]
    rw [hpar q prev hmem]
    split
    · next hx => exact .inr ⟨rfl, q, hq, hx⟩
    · exact .inl rfl

theorem Inv.live_ne_nextFt (h : Inv root s) (hx : s.Live x) : x ≠ s.nextFt := fun he =>
  h.nextFt_notMem _ (he ▸ hx)

/-- What a creation keeps of a live table. -/
theorem Inv.create_frame (h : Inv root s) (modifyRoot : Bool) (lvl : Nat) (hx : s.Live x) :
    (createInPrio root modifyRoot s p lvl).Live x ∧
      (createInPrio root modifyRoot s p lvl).level x = s.level x := by
  have hne := h.live_ne_nextFt hx
  refine ⟨?_, update_of_ne hne _ _⟩
  have hpar : (createInPrio root modifyRoot s p lvl).parent x = s.parent x :=
    update_of_ne hne _ _
  rw [Live, hpar, createInPrio_tables]
  by_cases hp : s.parent x = p
  · rw [← hp, update_self, mem_listAddFlowTable]
    exact .inr hx
  · rw [update_of_ne hp]
    exact hx

theorem live_of_create {modifyRoot : Bool} {lvl : Nat}
    (hx : (createInPrio root modifyRoot s p lvl).Live x) : x = s.nextFt ∨ s.Live x := by
  refine or_iff_not_imp_left.mpr fun hne => ?_
  have hpar : (createInPrio root modifyRoot s p lvl).parent x = s.parent x :=
    update_of_ne hne _ _
  rw [Live, hpar, createInPrio_tables] at hx
  by_cases hp : s.parent x = p
  · rw [← hp, update_self, mem_listAddFlowTable] at hx
    exact hx.resolve_left hne
  · rw [update_of_ne hp] at hx
    exact hx

/-- A live table that lies below the next table of an empty priority lies below
the priority. -/
theorem Inv.level_lt_of_lt_next (h : Inv root s) (hlev : root.Levels 0 hi) (hn : root.NoChains)
    (ha : root.attrAt p = some a) (hempty : s.tables p = [])
    (hy : findNextChainedFt root s.tables p = some y) (hx : s.Live x)
    (hlt : s.level x < s.level y) : s.level x < a.startLevel := by
  obtain ⟨b, hb, -⟩ := h.level _ x hx
  have hmem := mem_leaves hn hb
  obtain ⟨l, r, heq, -, -, hafter, hbefore⟩ :=
    Slots.exists_split (nodup_leaves [] root) (mem_leaves hn ha)
  rw [findNextChainedFt_eq hn ha, hafter] at hy
  rw [heq, mem_append, mem_cons] at hmem
  rcases hmem with hl | hp | hr
  · exact h.level_lt_before hlev hn ha (by rw [hbefore]; exact mem_reverse.mpr hl) hx
  · rw [Live, hp, hempty] at hx
    simp at hx
  · -- behind the priority a live table does not lie below its next table
    obtain ⟨l', j, r', rfl, hl', hhead⟩ := Slots.first_eq_some hy
    have hyj : y ∈ s.tables j := mem_of_head? hhead
    rw [mem_append, mem_cons] at hr
    rcases hr with hr | hr | hr
    · rw [Live, hl' _ hr] at hx
      simp at hx
    · rw [Live, hr] at hx
      exact absurd (h.head_le hhead hx) (Nat.not_le.mpr hlt)
    · obtain ⟨c, hc, -, hylt⟩ := h.level j y hyj
      have hj : Slots.after (root.leaves []) j = r' := by
        have hnd := nodup_leaves [] root
        have hsplit : root.leaves [] = (l ++ p :: l') ++ j :: r' := by rw [heq]; simp
        rw [hsplit] at hnd ⊢
        exact Slots.after_append (Slots.notMem_of_nodup hnd).1
      have hle := h.level_lt hlev hn hc (by rw [hj]; exact hr) hx
      omega

/-- A creation links upwards. -/
theorem MissUp.create (hm : MissUp s) (h : Inv root s) (hlev : root.Levels 0 hi)
    (modifyRoot : Bool) (ha : root.attrAt p = some a) {lvl : Nat} (hlo : a.startLevel ≤ lvl)
    (hhi : lvl < a.startLevel + a.numLevels) : MissUp (createInPrio root modifyRoot s p lvl) := by
  have hnew : (createInPrio root modifyRoot s p lvl).Live s.nextFt ∧
      (createInPrio root modifyRoot s p lvl).level s.nextFt = lvl := by
    have hpar : (createInPrio root modifyRoot s p lvl).parent s.nextFt = p := update_self ..
    refine ⟨?_, update_self ..⟩
    rw [Live, hpar, createInPrio_tables, update_self, mem_listAddFlowTable]
    exact .inl rfl
  have hmiss : ∀ x, (createInPrio root modifyRoot s p lvl).miss x =
        update s.miss s.nextFt (findNextChainedFt root s.tables p) x ∨
      ((createInPrio root modifyRoot s p lvl).miss x = some s.nextFt ∧
        ∃ q ∈ root.leavesBefore [] p, x ∈ s.tables q) := by
    intro x
    simp only [createInPrio, connectFlowTable]
    split
    · exact connectPrevFts_cases (s := allocFlowTable root s p lvl) (fun q z hz => by
        rw [← h.parent q z hz]
        exact update_of_ne (fun he : z = s.nextFt => h.nextFt_notMem q (he ▸ hz)) _ _) _ x
    · exact .inl rfl
  intro x y hx hxy
  rcases hmiss x with he | ⟨he, q, hq, hxq⟩
  · rw [hxy] at he
    by_cases hxn : x = s.nextFt
    · subst hxn
      rw [update_self] at he
      obtain ⟨hy, hle⟩ := h.next_above hlev ha he.symm
      obtain ⟨hy', hlv⟩ := h.create_frame modifyRoot lvl hy (p := p)
      exact ⟨hy', by rw [hlv, hnew.2]; omega⟩
    · rw [update_of_ne hxn] at he
      have hx' := (live_of_create hx).resolve_left hxn
      obtain ⟨hy, hlt⟩ := hm x y hx' he.symm
      obtain ⟨hy', hlv⟩ := h.create_frame modifyRoot lvl hy (p := p)
      exact ⟨hy', by rw [hlv, (h.create_frame modifyRoot lvl hx').2]; exact hlt⟩
  · obtain rfl : y = s.nextFt := Option.some.inj (hxy.symm.trans he)
    have hx' : s.Live x := h.live hxq
    refine ⟨hnew.1, ?_⟩
    rw [hnew.2, (h.create_frame modifyRoot lvl hx').2]
    exact Nat.lt_of_lt_of_le (h.level_leavesBefore hlev ha hq hxq) hlo

theorem MissUp.disconnect (hm : MissUp s) (h : Inv root s) (hlev : root.Levels 0 hi)
    (hft : s.Live ft) : MissUp (disconnectFlowTable root s ft) := by
  obtain ⟨a, ha, hlo, hhi⟩ := h.level _ ft hft
  intro x y hx hxy
  have hx' : s.Live x := hx
  simp only [disconnectFlowTable] at hxy
  split at hxy
  · exact hm x y hx' hxy
  · rcases connectPrevFts_cases h.parent (findNextChainedFt root s.tables (s.parent ft)) x with
      he | ⟨he, q, hq, hxq⟩
    · exact hm x y hx' (he ▸ hxy)
    · rw [hxy] at he
      obtain ⟨hy, hle⟩ := h.next_above hlev ha he.symm
      have hlt := h.level_leavesBefore hlev ha hq hxq
      exact ⟨hy, show s.level x < s.level y by omega⟩

/-- What a release keeps: all tables but the released one. -/
theorem Inv.live_remove_iff (h : Inv root s) :
    (removeFlowTable s ft).Live x ↔ s.Live x ∧ x ≠ ft := by
  have hpar : (removeFlowTable s ft).parent = s.parent := rfl
  rw [Live, hpar, removeFlowTable_tables]
  by_cases hp : s.parent x = s.parent ft
  · rw [hp, update_self, (h.nodup _).mem_erase_iff, Live, hp, and_comm]
  · rw [update_of_ne hp]
    exact ⟨fun hx => ⟨hx, fun he => hp (by rw [he])⟩, fun hx => hx.1⟩

end FtState

namespace Steering

/-- Every entry belongs to a live table, and its flow table destinations and the
lists its rules stand on are tables the relation `up` leads to. -/
structure Entries (live : FtId → Prop) (up : FtId → FtId → Prop) (s : Steering) : Prop where
  live : ∀ k, (s.fte k).present = true → live k.1
  dest : ∀ k, (s.fte k).present = true →
    (s.fte k).fte.All fun d => ∀ y, d = .flowTable y → up k.1 y
  next : ∀ k r ft, (s.fte k).present = true → r ∈ (s.fte k).fte.children →
    s.nextFt k r = some ft → up k.1 ft

variable {live live' : FtId → Prop} {up up' : FtId → FtId → Prop} {s s' : Steering} {k : FteKey}

theorem Entries.mono (h : Entries live up s) (hlive : ∀ x, live x → live' x)
    (hup : ∀ x y, live x → up x y → up' x y) : Entries live' up' s where
  live k hp := hlive _ (h.live k hp)
  dest k hp r hr d hd y hy := hup _ _ (h.live k hp) (h.dest k hp r hr d hd y hy)
  next k r ft hp hr hn := hup _ _ (h.live k hp) (h.next k r ft hp hr hn)

/-- Rules move to a table that lies above all of theirs. -/
theorem Entries.connectFwdRules (h : Entries live up s) {new old : FtId}
    (hnew : ∀ k r, (s.fte k).present = true → r ∈ (s.fte k).fte.children →
      s.nextFt k r = some old → up k.1 new) :
    Entries live up (connectFwdRules s (some new) (some old)) := by
  have hpoint : ∀ k, (s.fte k).present = true →
      ((Mlx5.connectFwdRules s (some new) (some old)).fte k).fte.All
          (fun d => ∀ y, d = .flowTable y → up k.1 y) ∧
        ((Mlx5.connectFwdRules s (some new) (some old)).fte k).fte.children =
          (s.fte k).fte.children := by
    intro k hp
    simp only [Mlx5.connectFwdRules, hp, if_true]
    refine pointRulesTo_all (h.dest k hp) ?_
    rintro ⟨r, hr, hn⟩ y hy
    obtain rfl : new = y := Dest.flowTable.inj hy
    split at hn
    · next ho => exact hnew k r hp hr ho
    · exact h.next k r new hp hr hn
  have hpres : ∀ k, ((Mlx5.connectFwdRules s (some new) (some old)).fte k).present =
      (s.fte k).present := by
    intro k
    simp only [Mlx5.connectFwdRules]
    split <;> rfl
  refine ⟨fun k hp => h.live k (hpres k ▸ hp), fun k hp => (hpoint k (hpres k ▸ hp)).1,
    fun k r ft hp hr hn => ?_⟩
  have hp' := hpres k ▸ hp
  rw [(hpoint k hp').2] at hr
  simp only [Mlx5.connectFwdRules] at hn
  split at hn
  · next ho =>
      obtain rfl : new = ft := Option.some.inj hn
      exact hnew k r hp' hr ho
  · exact h.next k r ft hp' hr hn

/-- A validated addition, or one whose flow tables lie above. -/
theorem Entries.addRules (h : Entries live up s) {a : RuleArgs} (hk : live k.1)
    (hup : a.validated.all (destIsValid s.fts.level k.1 a.act.action) = true →
      ∀ ds ∈ a.dest, ∀ y, .flowTable y ∈ ds → up k.1 y) :
    Entries live up (s.addRules k a) := by
  unfold Steering.addRules
  split
  · next hval =>
      have hreq : ∀ d ∈ a.addArgs.requests, ∀ e ∈ d, ∀ y, e = .flowTable y → up k.1 y := by
        intro d hd e he y hy
        subst hy
        unfold AddArgs.requests RuleArgs.addArgs at hd
        cases hds : a.dest with
        | none => simp [hds] at hd; simp [hd] at he
        | some ds =>
          simp only [hds, mem_map] at hd
          obtain ⟨e', he', rfl⟩ := hd
          obtain rfl : e' = .flowTable y := by simpa using he
          exact hup hval ds hds y he'
      refine ⟨fun j hp => ?_, fun j hp => ?_, fun j r ft hp hr hn => ?_⟩
      · by_cases hj : j = k
        · exact hj ▸ hk
        · simp only [update_of_ne hj] at hp
          exact h.live j hp
      · by_cases hj : j = k
        · subst hj
          simp only [update_self]
          exact FteState.add_all (h.dest j) hreq
        · simp only [update_of_ne hj] at hp ⊢
          exact h.dest j hp
      · by_cases hj : j = k
        · subst hj
          simp only [update_self] at hn
          split at hn
          · next hc =>
              simp only [Bool.and_eq_true, decide_eq_true_eq] at hc
              exact h.next j r ft hc.1 hc.2 hn
          · simp at hn
        · simp only [update_of_ne hj] at hp hr hn
          exact h.next j r ft hp hr hn
  · exact h

theorem Entries.joinFwdRules (h : Entries live up s) {ft : FtId}
    (hup : up k.1 ft) (rules : Option (List RuleId)) :
    Entries live up (s.joinFwdRules k ft rules) := by
  unfold Steering.joinFwdRules
  split
  · next r _ =>
      split
      · refine ⟨h.live, h.dest, fun j x y hp hx hn => ?_⟩
        by_cases hj : j = k
        · subst hj
          simp only [update_self] at hn
          by_cases hxr : x = r
          · subst hxr
            rw [update_self] at hn
            exact Option.some.inj hn ▸ hup
          · rw [update_of_ne hxr] at hn
            exact h.next j x y hp hx hn
        · simp only [update_of_ne hj] at hn
          exact h.next j x y hp hx hn
      · exact h
  · exact h

theorem Entries.del (h : Entries live up s) (k : FteKey) (hd : Handle) :
    Entries live up (s.del k hd) := by
  obtain ⟨hsub, hdest, hpres⟩ := (s.fte k).del_frame hd
  refine ⟨fun j hp => ?_, fun j hp => ?_, fun j r ft hp hr hn => ?_⟩
  · by_cases hj : j = k
    · subst hj
      simp only [Steering.del, update_self] at hp
      exact h.live j (hpres hp)
    · simp only [Steering.del, update_of_ne hj] at hp
      exact h.live j hp
  · by_cases hj : j = k
    · subst hj
      simp only [Steering.del, update_self] at hp ⊢
      exact (h.dest j (hpres hp)).of_subset hsub hdest
    · simp only [Steering.del, update_of_ne hj] at hp ⊢
      exact h.dest j hp
  · by_cases hj : j = k
    · subst hj
      simp only [Steering.del, update_self] at hp hr hn
      rw [if_pos hr] at hn
      exact h.next j r ft (hpres hp) (hsub hr) hn
    · simp only [Steering.del, update_of_ne hj] at hp hr hn
      exact h.next j r ft hp hr hn

/-! ## Runs -/

/-- The invariant of the runs that keep the levels. -/
structure LoopInv (r : SteeringRoot) (s : Steering) : Prop where
  inv : s.fts.Inv r.root.tree
  miss : s.fts.MissUp
  entries : Entries s.fts.Live s.fts.Up s
  /-- Rules stand on lists only where forwarding to the next priority is supported. -/
  noChains : ∀ k i ft, s.nextFt k i = some ft → r.root.tree.NoChains

variable {r : SteeringRoot}

theorem loopInv_init (r : SteeringRoot) : LoopInv r init where
  inv := FtState.inv_init _
  miss x y _ hxy := by simp [init, FtState.init] at hxy
  entries := ⟨by simp [init, FteState.init], by simp [init, FteState.init], by simp [init]⟩
  noChains := by simp [init]

theorem connectFwdRules_nextFt {new old : Option FtId} {i : RuleId} {ft : FtId}
    (h : (Mlx5.connectFwdRules s new old).nextFt k i = some ft) : ∃ ft', s.nextFt k i =
    some ft' := by
  unfold Mlx5.connectFwdRules at h
  split at h
  · simp only at h
    split at h
    · next ho => exact ⟨_, ho⟩
    · exact ⟨_, h⟩
  · exact ⟨_, h⟩

theorem connectFwdRules_fts (s : Steering) (new old : Option FtId) :
    (Mlx5.connectFwdRules s new old).fts = s.fts := by
  unfold Mlx5.connectFwdRules
  split <;> rfl

theorem Entries.congr (h : Entries live up s) (hf : s'.fte = s.fte) (hn : s'.nextFt = s.nextFt) :
    Entries live up s' := by
  refine ⟨?_, ?_, ?_⟩
  · rw [hf]; exact h.live
  · rw [hf]; exact h.dest
  · rw [hf, hn]; exact h.next

theorem LoopInv.create (h : LoopInv r s) (modifyRoot : Bool) {ns : Path} {prio level : Nat}
    (hv : ∀ p ∈ findPrio r.root.tree ns prio, r.root.tree.attrAt p.1 = some p.2) :
    LoopInv r (s.create r.root.tree modifyRoot ns prio level) := by
  unfold Steering.create
  cases hf : findPrio r.root.tree ns prio with
  | none => exact h
  | some pa =>
    obtain ⟨p, a⟩ := pa
    have ha : r.root.tree.attrAt p = some a := hv (p, a) hf
    dsimp only
    by_cases hl : level ≥ a.numLevels
    · rw [if_pos hl]; exact h
    rw [if_neg hl]
    have hlo : a.startLevel ≤ level + a.startLevel := by omega
    have hhi : level + a.startLevel < a.startLevel + a.numLevels := by omega
    have hinv := h.inv.create modifyRoot ha hlo hhi
    have hmiss := h.miss.create h.inv r.root.levels modifyRoot ha hlo hhi
    have hframe := fun x (hx : s.fts.Live x) =>
      h.inv.create_frame modifyRoot (level + a.startLevel) hx (p := p)
    -- the entries belong to the old tables, whose links stay upward
    have hold : Entries s.fts.Live
        (createInPrio r.root.tree modifyRoot s.fts p (level + a.startLevel)).Up s :=
      h.entries.mono (fun x hx => hx) fun x y hx hup =>
        ⟨(hframe y hup.1).1, by rw [(hframe x hx).2, (hframe y hup.1).2]; exact hup.2⟩
    have hold' : Entries s.fts.Live
        (createInPrio r.root.tree modifyRoot s.fts p (level + a.startLevel)).Up
        { s with fts := createInPrio r.root.tree modifyRoot s.fts p (level + a.startLevel) } :=
      hold.congr rfl rfl
    by_cases hempty : (s.fts.tables p).isEmpty = true
    · rw [if_pos hempty]
      rw [List.isEmpty_iff] at hempty
      refine ⟨by rw [connectFwdRules_fts]; exact hinv, by rw [connectFwdRules_fts]; exact hmiss,
        ?_, fun k i ft hn => ?_⟩
      · cases hy : findNextChainedFt r.root.tree s.fts.tables p with
        | none => exact hold'.mono (fun x hx => (hframe x hx).1) fun x y _ hup => hup
        | some y =>
          refine (hold'.connectFwdRules fun k i hp hi hn => ?_).mono
            (fun x hx => (hframe x hx).1) fun x y _ hup => hup
          have hx := h.entries.live k hp
          have hup := h.entries.next k i y hp hi hn
          have hlt := h.inv.level_lt_of_lt_next r.root.levels (h.noChains k i y hn) ha hempty hy hx
            hup.2
          refine ⟨?_, ?_⟩
          · have hpar : (createInPrio r.root.tree modifyRoot s.fts p
                (level + a.startLevel)).parent s.fts.nextFt = p := update_self ..
            rw [FtState.Live, hpar, createInPrio_tables, update_self, mem_listAddFlowTable]
            exact .inl rfl
          · rw [(hframe _ hx).2, createInPrio_level, update_self]
            omega
      · obtain ⟨ft', hn'⟩ := connectFwdRules_nextFt hn
        exact h.noChains k i ft' hn'
    · rw [if_neg hempty]
      exact ⟨hinv, hmiss, hold'.mono (fun x hx => (hframe x hx).1) fun x y _ hup => hup, h.noChains⟩

theorem LoopInv.destroy (h : LoopInv r s) {ft : FtId} (hft : s.fts.Live ft) :
    LoopInv r (s.destroy r.root.tree ft) := by
  obtain ⟨a, ha, -, hhi⟩ := h.inv.level _ ft hft
  have hent : Entries s.fts.Live s.fts.Up
      (if (s.fts.tables (s.fts.parent ft)).head? = some ft then
        Mlx5.connectFwdRules s (findNextChainedFt r.root.tree s.fts.tables
          (s.fts.parent ft)) (some ft)
        else s) := by
    split
    · cases hy : findNextChainedFt r.root.tree s.fts.tables (s.fts.parent ft) with
      | none => exact h.entries
      | some y =>
        obtain ⟨hlive, hle⟩ := h.inv.next_above r.root.levels ha hy
        refine h.entries.connectFwdRules fun k i hp hi hn => ⟨hlive, ?_⟩
        have := (h.entries.next k i ft hp hi hn).2
        omega
    · exact h.entries
  refine ⟨h.inv.disconnect ft, h.miss.disconnect h.inv r.root.levels hft, ?_, fun k i ft' hn => ?_⟩
  · exact (hent.mono (fun x hx => hx) fun x y _ hup => hup).congr rfl rfl
  · simp only [Steering.destroy] at hn
    split at hn
    · obtain ⟨ft'', hn'⟩ := connectFwdRules_nextFt hn
      exact h.noChains k i ft'' hn'
    · exact h.noChains k i ft' hn

/-- An addition that is not validated names no flow table at or below its own, and a table is
released only when nothing points to it. -/
def KeepsLevels (s : Steering) : SteeringOp → Prop
  | .add k a =>
    a.act.action = .fwdNextPrio ∨ (a.act.action.hasFwdDest = true ∧ a.numDest ≠ 0) ∨
      ∀ ds ∈ a.dest, ∀ y, .flowTable y ∈ ds → s.fts.level k.1 < s.fts.level y
  | .release ft =>
    (∀ x, s.fts.Live x → x ≠ ft → s.fts.miss x ≠ some ft) ∧
      ∀ k, (s.fte k).present = true → ∀ i ∈ (s.fte k).fte.children,
        ((s.fte k).fte.rule i).dest ≠ some (.flowTable ft) ∧ s.nextFt k i ≠ some ft
  | _ => True

theorem LoopInv.addRules (h : LoopInv r s) {a : RuleArgs} (hk : s.fts.Live k.1)
    (hup : a.validated.all (destIsValid s.fts.level k.1 a.act.action) = true →
      ∀ ds ∈ a.dest, ∀ y, .flowTable y ∈ ds → s.fts.Up k.1 y) : LoopInv r (s.addRules k a) := by
  have hfts : (s.addRules k a).fts = s.fts := by
    unfold Steering.addRules
    split <;> rfl
  refine ⟨by rw [hfts]; exact h.inv, by rw [hfts]; exact h.miss, ?_, fun j i ft hn => ?_⟩
  · rw [hfts]
    exact h.entries.addRules hk hup
  · unfold Steering.addRules at hn
    split at hn
    · by_cases hj : j = k
      · subst hj
        simp only [update_self] at hn
        split at hn
        · exact h.noChains j i ft hn
        · simp at hn
      · simp only [update_of_ne hj] at hn
        exact h.noChains j i ft hn
    · exact h.noChains j i ft hn

theorem destIsValid_flowTable {level : FtId → Nat} {ft y : FtId} {action : Action}
    (hf : action.hasFwdDest = true) (h : destIsValid level ft action (.flowTable y) = true) :
    level ft < level y := by
  simpa [destIsValid, Dest.isCounter, hf] using h

theorem LoopInv.add (h : LoopInv r s) {a : RuleArgs} (hv : Valid r s (.add k a))
    (hok : KeepsLevels s (.add k a)) : LoopInv r (s.add r k a) := by
  obtain ⟨hk, hdest⟩ := hv
  unfold Steering.add
  split
  · split
    · exact h
    · next hsup =>
        simp only [Bool.or_eq_true, Bool.not_eq_true', bne_iff_ne, not_or, Bool.not_eq_false,
          not_not] at hsup
        cases hy : findNextChainedFt r.root.tree s.fts.tables (s.fts.parent k.1) with
        | none => exact h
        | some y =>
          obtain ⟨b, hb, -, hlt⟩ := h.inv.level _ _ hk
          obtain ⟨hlive, hle⟩ := h.inv.next_above r.root.levels hb hy
          have hup : s.fts.Up k.1 y := ⟨hlive, by omega⟩
          have hadd : LoopInv r (s.addRules k (a.toNextFt y)) :=
            h.addRules hk fun _ ds hds z hz => by
              obtain rfl : [Dest.flowTable y] = ds := Option.some.inj hds
              obtain rfl : z = y := by simpa using hz
              exact hup
          have hfts : (s.addRules k (a.toNextFt y)).fts = s.fts := by
            unfold Steering.addRules
            split <;> rfl
          have hjoin : ∀ rules, ((s.addRules k (a.toNextFt y)).joinFwdRules k y rules).fts =
              (s.addRules k (a.toNextFt y)).fts := by
            intro rules
            unfold Steering.joinFwdRules
            split
            · split <;> rfl
            · rfl
          refine ⟨by rw [hjoin]; exact hadd.inv, by rw [hjoin]; exact hadd.miss, ?_,
            fun _ _ _ _ => SteeringRoot.noChains_of_supported hsup.1⟩
          rw [hjoin]
          exact hadd.entries.joinFwdRules (by rw [hfts]; exact hup) _
  · next hne =>
      refine h.addRules hk fun hval ds hds y hy => ?_
      rw [hds] at hdest
      obtain ⟨hnum, -, hlive⟩ := hdest
      refine ⟨hlive y hy, ?_⟩
      rcases hok with hnp | ⟨hf, hnz⟩ | hup
      · exact absurd hnp hne
      · have hlen : a.numDest = ds.length := hnum.resolve_right fun h0 => hnz h0.1
        have hmem : Dest.flowTable y ∈ a.validated := by
          rw [RuleArgs.validated, hds, hlen, Option.getD_some, take_length]
          exact hy
        exact destIsValid_flowTable hf (all_eq_true.mp hval _ hmem)
      · exact hup ds hds y hy

theorem LoopInv.release (h : LoopInv r s) {ft : FtId} (hv : Valid r s (.release ft))
    (hok : KeepsLevels s (.release ft)) : LoopInv r (s.release ft) := by
  obtain ⟨-, -, hnone⟩ := hv
  obtain ⟨hmiss, hrules⟩ := hok
  have hlive : ∀ x, (removeFlowTable s.fts ft).Live x ↔ s.fts.Live x ∧ x ≠ ft := fun x =>
    h.inv.live_remove_iff
  have hkey : ∀ k, (s.fte k).present = true → k.1 ≠ ft := by
    rintro ⟨x, i⟩ hp rfl
    rw [hnone i] at hp
    simp at hp
  have hup : ∀ x y, s.fts.Up x y → y ≠ ft → (removeFlowTable s.fts ft).Up x y :=
    fun x y hxy hne => ⟨(hlive y).mpr ⟨hxy.1, hne⟩, hxy.2⟩
  refine ⟨h.inv.remove ft, fun x y hx hxy => ?_, ⟨fun k hp => ?_, fun k hp i hi d hd y hy => ?_,
    fun k i y hp hi hn => ?_⟩, h.noChains⟩
  · obtain ⟨hx, hne⟩ := (hlive x).mp hx
    refine hup x y (h.miss x y hx hxy) fun he => ?_
    exact hmiss x hx hne (he ▸ hxy)
  · exact (hlive _).mpr ⟨h.entries.live k hp, hkey k hp⟩
  · refine hup _ y (h.entries.dest k hp i hi d hd y hy) fun he => ?_
    subst hy he
    exact (hrules k hp i hi).1 hd
  · refine hup _ y (h.entries.next k i y hp hi hn) fun he => ?_
    exact (hrules k hp i hi).2 (he ▸ hn)

theorem LoopInv.del (h : LoopInv r s) (k : FteKey) (hd : Handle) : LoopInv r (s.del k hd) := by
  refine ⟨h.inv, h.miss, h.entries.del k hd, fun j i ft hn => ?_⟩
  by_cases hj : j = k
  · subst hj
    simp only [Steering.del, update_self] at hn
    split at hn
    · exact h.noChains j i ft hn
    · simp at hn
  · simp only [Steering.del, update_of_ne hj] at hn
    exact h.noChains j i ft hn

/-- One way a packet can take from the table `x`: the miss link, or a forward
destination of an entry. -/
def Leads (s : Steering) (x y : FtId) : Prop :=
  (s.fts.Live x ∧ s.fts.miss x = some y) ∨
    ∃ i, (s.fte (x, i)).present = true ∧ (s.fte (x, i)).fte.action.hasFwdDest = true ∧
      ∃ j ∈ (s.fte (x, i)).fte.children, ((s.fte (x, i)).fte.rule j).dest = some (.flowTable y)

/-- Every link leads to a live table of strictly greater level, and no table is
met again. -/
structure LoopFree (s : Steering) : Prop where
  up : ∀ x y, s.Leads x y → s.fts.Live y ∧ s.fts.level x < s.fts.level y
  acyclic : ∀ x, ¬Relation.TransGen s.Leads x x

theorem LoopInv.loopFree (h : LoopInv r s) : s.LoopFree := by
  have hup : ∀ x y, s.Leads x y → s.fts.Live y ∧ s.fts.level x < s.fts.level y := by
    rintro x y (⟨hx, hxy⟩ | ⟨i, hp, -, j, hj, hd⟩)
    · exact h.miss x y hx hxy
    · exact h.entries.dest (x, i) hp j hj _ hd y rfl
  refine ⟨hup, fun x hx => ?_⟩
  have hlt : ∀ z, Relation.TransGen s.Leads x z → s.fts.level x < s.fts.level z := by
    intro z hz
    induction hz with
    | single hxy => exact (hup _ _ hxy).2
    | tail _ hyz ih => exact Nat.lt_trans ih (hup _ _ hyz).2
  exact Nat.lt_irrefl _ (hlt x hx)

/-- In every run of a steering tree whose calls all keep the levels, every state
is loop-free. -/
theorem loopFree_every_run (r : SteeringRoot) (modifyRoot : Bool) (ops : List SteeringOp)
    (hv : Run.Steps (step r modifyRoot) (Valid r) init ops)
    (hok : Run.Steps (step r modifyRoot) KeepsLevels init ops) :
    ∀ s ∈ Run.states (step r modifyRoot) init ops, LoopFree s := by
  have hboth := Run.steps_and.mpr ⟨hv, hok⟩
  have hstep : ∀ s op, LoopInv r s → Valid r s op ∧ KeepsLevels s op →
      LoopInv r (step r modifyRoot s op) := by
    rintro s op h ⟨hv, hk⟩
    cases op with
    | create ns prio level => exact h.create modifyRoot hv
    | destroy ft => exact h.destroy hv.1
    | release ft => exact h.release hv hk
    | add k a => exact h.add hv hk
    | del k hd => exact h.del k hd
  intro s hs
  exact (hboth.invariant hstep (loopInv_init r) s hs).loopFree

/-- A device with few levels: the tc and the nic priority of the kernel namespace. -/
def kernelRoot : SteeringRoot :=
  .nicRx ⟨8, fun _ => false⟩ true

/-- Arguments whose allocations and command succeed. -/
def ruleOk (action : Action) (dest : Option (List Dest)) (numDest : Nat) : RuleArgs :=
  { act := ⟨action, false, 0⟩, dest := dest, numDest := numDest, handleOk := true
    allocOk := fun _ => true, cmdOk := true }

/-- A rule that forwards to the next priority, and a second table there. -/
def nextPrioOps : List SteeringOp :=
  [.create [0, 0] 0 1, .create [0, 0] 1 0, .add (0, 0) (ruleOk .fwdNextPrio none 0),
    .add (0, 1) (ruleOk .fwdDest (some [.tir 1]) 1), .create [0, 0] 1 3]

theorem loopFree_every_run_next_prio :
    Run.Steps (step kernelRoot true) (Valid kernelRoot) init nextPrioOps ∧
      Run.Steps (step kernelRoot true) KeepsLevels init nextPrioOps ∧
      ∀ s ∈ Run.states (step kernelRoot true) init nextPrioOps, LoopFree s := by
  have hv : Run.Steps (step kernelRoot true) (Valid kernelRoot) init nextPrioOps := by
    simp only [nextPrioOps, Run.steps_cons, Run.steps_nil, Valid, ruleOk, mem_singleton,
      reduceCtorEq, false_implies, implies_true, and_true]
    decide +kernel
  have hok : Run.Steps (step kernelRoot true) KeepsLevels init nextPrioOps :=
    ⟨trivial, trivial, .inl rfl, .inr (.inl ⟨by decide, by decide⟩), trivial, trivial⟩
  exact ⟨hv, hok, loopFree_every_run _ _ _ hv hok⟩

/-- A rule that only counts names a lower table; when a rule that forwards joins its entry, the
entry forwards to it. -/
theorem loopFree_breaks :
    ¬∀ (r : SteeringRoot) (modifyRoot : Bool) (ops : List SteeringOp),
      Run.Steps (step r modifyRoot) (Valid r) init ops →
      ∀ s ∈ Run.states (step r modifyRoot) init ops, LoopFree s := by
  intro hall
  let ops : List SteeringOp :=
    [.create [0, 0] 0 0, .create [0, 0] 1 0, .add (1, 0) (ruleOk .count (some [.flowTable 0]) 1),
      .add (1, 0) (ruleOk .fwdDest (some [.tir 1]) 1)]
  have hv : Run.Steps (step kernelRoot true) (Valid kernelRoot) init ops := by
    simp only [ops, Run.steps_cons, Run.steps_nil, Valid, ruleOk, mem_singleton, reduceCtorEq,
      Dest.flowTable.injEq, forall_eq, false_implies, implies_true, and_true]
    decide +kernel
  have hlast : Run.final (step kernelRoot true) init ops ∈
      Run.states (step kernelRoot true) init ops := by simp [ops, Run.final]
  have hleads : (Run.final (step kernelRoot true) init ops).Leads 1 0 := by
    refine .inr ⟨0, ?_⟩
    decide +kernel
  exact absurd ((hall _ _ _ hv _ hlast).up 1 0 hleads).2 (by decide +kernel)

end Steering

end Mlx5
