-- SUMMARY: Which calls keep `dests_size` of an mlx5 FTE right.
import OfaKernel.Mlx5.FteSharing

/-!
# Destination counts

`dests_size` is raised for each new rule that carries a destination and lowered in three places
that do not agree on which rules they count. `destsSize_every_run` names the calls that stay away
from the disagreements.
-/

open List

namespace Mlx5

/-! ## The command buffer -/

def setFteInBytes : Nat := 832

/-- The bytes of one destination or counter entry. -/
def destFormatBytes : Nat := 8

/-- The buffer length `mlx5_cmd_set_fte` computes, an `unsigned int`. -/
def SetFte.inlen (c : SetFte) : Nat :=
  U32.wrap (setFteInBytes + c.destsSize * destFormatBytes)

/-- Everything the command writes lies inside its buffer. -/
def SetFte.HasRoom (c : SetFte) : Prop :=
  setFteInBytes + (c.dests.length + c.counters.length) * destFormatBytes ≤ c.inlen

/-- The entries for which the buffer length does not wrap. -/
def maxEntries : Nat := (2 ^ 32 - 1 - setFteInBytes) / destFormatBytes

/-- No rule without a destination while the entry forwards. -/
def Fte.Apart (f : Fte) : Prop :=
  f.action.hasFwdDest = true → ∀ r ∈ f.children, (f.rule r).dest.isSome = true

theorem Rule.isSome_of_isCounter {r : Rule} (h : r.destAttr.isCounter = true) :
    r.dest.isSome = true := by
  unfold Rule.destAttr at h
  cases hd : r.dest with
  | none => rw [hd] at h; simp [Dest.zero, Dest.isCounter] at h
  | some d => rfl

theorem length_filterMap_counterId (ds : List Dest) :
    (ds.filterMap Dest.counterId?).length = ds.countP Dest.isCounter := by
  induction ds with
  | nil => rfl
  | cons d ds ih =>
    cases d <;> simp [filterMap_cons, countP_cons, Dest.counterId?, Dest.isCounter, ih]

/-- The entries a command writes are at most the destinations of the child list. -/
theorem Fte.Apart.written_le {f : Fte} (h : f.Apart) (m : Option ModifyMask) :
    (f.content m).dests.length + (f.content m).counters.length ≤ f.numDests := by
  have hcounters : (f.content m).counters.length ≤ f.destAttrs.countP Dest.isCounter := by
    simp only [Fte.content]
    split
    · rw [length_filterMap_counterId]
    · simp
  by_cases hfwd : f.action.hasFwdDest = true
  · have hall : f.numDests = f.children.length := countP_eq_length.mpr (h hfwd)
    have hsplit := length_eq_countP_add_countP Dest.isCounter (l := f.destAttrs)
    have hlen : f.destAttrs.length = f.children.length := by simp [Fte.destAttrs]
    have hdests : (f.content m).dests.length = f.destAttrs.countP fun d => !d.isCounter := by
      simp [Fte.content, hfwd, countP_eq_length_filter]
    have hnot : (f.destAttrs.countP fun d => decide ¬(d.isCounter = true)) =
        f.destAttrs.countP fun d => !d.isCounter := by
      congr 1
      funext d
      cases d.isCounter <;> rfl
    omega
  · have hdests : (f.content m).dests = [] := by simp [Fte.content, hfwd]
    have hle : f.destAttrs.countP Dest.isCounter ≤ f.numDests := by
      rw [Fte.destAttrs, countP_map]
      exact countP_mono_left fun r _ hr => Rule.isSome_of_isCounter hr
    rw [hdests]
    simp only [length_nil, Nat.zero_add]
    omega

/-- What the entry must keep for its count to be exact. -/
structure Fte.Sized (f : Fte) : Prop where
  size : f.SizeOk
  apart : f.Apart
  few : f.children.length ≤ maxEntries

theorem Fte.Sized.numDests_le {f : Fte} (h : f.Sized) : f.numDests ≤ maxEntries :=
  Nat.le_trans countP_le_length h.few

theorem Fte.wrap_numDests {f : Fte} (h : f.children.length ≤ maxEntries) :
    U32.wrap f.numDests = f.numDests := by
  have hle : f.numDests ≤ maxEntries := Nat.le_trans countP_le_length h
  have hmax : maxEntries < 2 ^ 32 := by decide
  exact U32.wrap_of_lt (Nat.lt_of_le_of_lt hle hmax)

theorem Fte.Sized.destsSize_eq {f : Fte} (h : f.Sized) : f.destsSize = f.numDests := by
  rw [h.size, Fte.wrap_numDests h.few]

theorem Fte.Sized.hasRoom {f : Fte} (h : f.Sized) (m : Option ModifyMask) :
    (f.content m).HasRoom := by
  have hw := h.apart.written_le m
  have hle := h.numDests_le
  have hsize : (f.content m).destsSize = f.numDests := h.destsSize_eq
  have hmax : setFteInBytes + maxEntries * destFormatBytes < 2 ^ 32 := by decide
  have hbound : setFteInBytes + f.numDests * destFormatBytes < 2 ^ 32 :=
    Nat.lt_of_le_of_lt (Nat.add_le_add_left (Nat.mul_le_mul_right _ hle) _) hmax
  rw [SetFte.HasRoom, SetFte.inlen, hsize, U32.wrap_of_lt hbound]
  exact Nat.add_le_add_left (Nat.mul_le_mul_right _ hw) _

theorem Fte.Sized.setRefcount {f : Fte} (h : f.Sized) (r : RuleId) (k : Nat) :
    (f.setRefcount r k).Sized := by
  refine ⟨?_, fun hf x hx => ?_, h.few⟩
  · rw [Fte.SizeOk, Fte.numDests_setRefcount]
    exact h.size
  · rw [Fte.setRefcount_dest]
    exact h.apart hf x hx

/-- An entry after `dests_size` was set right. -/
theorem Fte.Sized.withSize {f : Fte} {n : Nat} (hn : n = U32.wrap f.numDests) (hapart : f.Apart)
    (hfew : f.children.length ≤ maxEntries) : Fte.Sized { f with destsSize := n } :=
  ⟨hn, hapart, hfew⟩

/-- The action bit of the counters does not take part. -/
theorem Fte.Sized.clearCount {f : Fte} {n : Nat} (h : Fte.Sized { f with destsSize := n }) :
    Fte.Sized { f with destsSize := n, action := f.action &&& ~~~.count } :=
  ⟨h.size, fun hf => h.apart (by simpa using hf), h.few⟩

/-- The count without a rule that carries a destination. -/
theorem Fte.numDests_erase {f : Fte} {r : RuleId} (hr : r ∈ f.children)
    (hd : (f.rule r).dest.isSome = true) :
    ((f.children.erase r).countP fun x => (f.rule x).dest.isSome) + 1 = f.numDests := by
  rw [countP_erase, if_pos ⟨hr, hd⟩]
  have : 0 < f.numDests := countP_pos_iff.mpr ⟨r, hr, hd⟩
  rw [Fte.numDests] at this ⊢
  omega

theorem Fte.SizeOk.destroyHandleRule {f : Fte} {r : RuleId} (h : f.SizeOk) (hr : r ∈ f.children)
    (hd : (f.rule r).refcount = 1 → (f.rule r).dest.isSome = true) :
    (destroyHandleRule f r).SizeOk := by
  unfold Mlx5.destroyHandleRule
  by_cases hone : (f.rule r).refcount = 1
  · have hcount := Fte.numDests_erase hr (hd hone)
    simp only [hone, if_true, Fte.SizeOk, Fte.numDests, Fte.setRefcount_dest]
    rw [h, ← hcount, U32.dec_wrap]
  · simp only [hone, if_false, Fte.SizeOk, Fte.numDests_setRefcount]
    exact h

theorem Building.destroy_size {f₀ f : Fte} {rules fresh : List RuleId}
    (h : Building f₀ f rules fresh) (hlt : ∀ r ∈ f₀.children, r < f₀.nextRule)
    (hpos : ∀ r ∈ f₀.children, 0 < (f₀.rule r).refcount)
    (hd : ∀ r ∈ fresh, (f.rule r).dest.isSome = true) (hs : f.SizeOk) :
    (destroyFlowHandle f rules).SizeOk := by
  induction rules using List.reverseRecOn generalizing f fresh with
  | nil => exact hs
  | append_singleton rules r ih =>
    obtain ⟨fresh', h', hsub, hone⟩ := h.unwind hlt hpos
    rw [destroyFlowHandle, reverse_append]
    refine ih h' (fun x hx => ?_) (hs.destroyHandleRule (h.mem_children.mpr (h.mem r (by simp)))
      fun h1 => hd r (hone h1))
    have hdest : ((destroyHandleRule f r).rule x).dest = (f.rule x).dest := by
      unfold Mlx5.destroyHandleRule
      split <;> exact Fte.setRefcount_dest ..
    rw [hdest]
    exact hd x (hsub hx)

/-! ## Additions -/

/-- The additions that keep the count: refused ones, and those that repeat no new destination,
bring no rule without a destination together with forwarding, stay below the largest buffer, and
do not fail in the device. -/
def AddKeepsSize (s : FteState) (a : AddArgs) : Prop :=
  checkConflictingFtes (s.getFte a.act) a.act = true ∨
    (NoRepeat (s.getFte a.act) a.requests ∧
      (((s.getFte a.act).join a.act).action.hasFwdDest = true →
        a.dest ≠ none ∧ ∀ r ∈ (s.getFte a.act).children,
          ((s.getFte a.act).rule r).dest.isSome = true) ∧
      (s.getFte a.act).children.length + a.requests.length ≤ maxEntries ∧
      (a.dest = none → s.present = true → a.cmdOk = true))

theorem AddArgs.isSome_of_mem_requests {a : AddArgs} (h : a.dest ≠ none) {d : Option Dest}
    (hd : d ∈ a.requests) : d.isSome = true := by
  unfold AddArgs.requests at hd
  cases ha : a.dest with
  | none => exact absurd ha h
  | some ds =>
    rw [ha] at hd
    obtain ⟨e, -, rfl⟩ := mem_map.mp hd
    rfl

/-- The entry while a handle is built keeps what the count needs. -/
theorem Built.sized {f : Fte} {act : FlowAct} {ds : List (Option Dest)} {b : HandleBuild}
    {fresh : List RuleId} (h : Built (f.join act) ds b fresh) (hs : f.SizeOk)
    (hfwd : (f.join act).action.hasFwdDest = true →
      (∀ d ∈ ds, d.isSome = true) ∧ ∀ r ∈ f.children, (f.rule r).dest.isSome = true)
    (hfew : f.children.length + ds.length ≤ maxEntries) : b.fte.Sized where
  size := h.size hs
  apart hf r hr := by
    rw [h.frame.1] at hf
    obtain ⟨hds, hold⟩ := hfwd hf
    rcases h.mem_children.mp hr with hr | hr
    · exact hds _ (h.fresh_dest r hr).1
    · rw [(h.old_rule r hr).1]
      exact hold r hr
  few := by
    have hlen : fresh.length ≤ ds.length := by
      rw [← h.length_eq]
      exact (subperm_of_subset h.nodup fun r hr => (h.fresh_rule r hr).2.2).length_le
    have hperm := h.children.length_eq
    rw [length_append] at hperm
    have hjoin : (f.join act).children.length = f.children.length := rfl
    omega

namespace FteState

/-- The invariant of the runs that keep the count. -/
structure SizeInv (s : FteState) (pend : List RuleId) : Prop extends Inv s pend where
  sized : s.present = true → s.fte.Sized
  room : ∀ c ∈ s.fte.cmds, c.HasRoom

theorem sizeInv_init : SizeInv init [] :=
  { inv_init with
    sized := by simp [init]
    room := by simp [init] }

variable {s : FteState} {pend : List RuleId}

theorem SizeInv.getFte (h : SizeInv s []) (act : FlowAct) :
    (s.getFte act).SizeOk ∧ (s.getFte act).cmds = s.fte.cmds ∧
      (s.present = true → (s.getFte act).Sized) := by
  unfold FteState.getFte
  by_cases hp : s.present = true
  · have hs := h.sized hp
    rw [if_pos hp]
    exact ⟨hs.size, rfl, fun _ => ⟨hs.size, hs.apart, hs.few⟩⟩
  · rw [if_neg hp]
    exact ⟨(U32.wrap_of_lt (n := 0) (by decide)).symm, rfl, fun hp' => absurd hp' hp⟩

end FteState

theorem destroyFlowHandle_cmds (f : Fte) (rules : List RuleId) :
    (destroyFlowHandle f rules).cmds = f.cmds := by
  have hstep : ∀ (g : Fte) (r : RuleId), (destroyHandleRule g r).cmds = g.cmds := fun g r => by
    unfold Mlx5.destroyHandleRule Fte.setRefcount
    split <;> rfl
  unfold destroyFlowHandle
  generalize rules.reverse = l
  induction l generalizing f with
  | nil => rfl
  | cons r l ih => rw [foldl_cons, ih, hstep]

/-- What an addition that keeps the count does to a sized entry; a new entry that
fails is released, so nothing is said of its count. -/
theorem addRuleFg_sized {f : Fte} {refs : List RuleId} (hheld : Held f refs) (hs : f.SizeOk)
    {present : Bool} (hsized : present = true → f.Sized) (hroom : ∀ c ∈ f.cmds, c.HasRoom)
    {a : AddArgs}
    (hfwd : (f.join a.act).action.hasFwdDest = true →
      a.dest ≠ none ∧ ∀ r ∈ f.children, (f.rule r).dest.isSome = true)
    (hfew : f.children.length + a.requests.length ≤ maxEntries)
    (hcmd : a.dest = none → present = true → a.cmdOk = true) :
    (∀ c ∈ (addRuleFg f a).1.cmds, c.HasRoom) ∧
      ((addRuleFg f a).2 ≠ none ∨ present = true → (addRuleFg f a).1.Sized) := by
  have hfwd' : (f.join a.act).action.hasFwdDest = true →
      (∀ d ∈ a.requests, d.isSome = true) ∧ ∀ r ∈ f.children, (f.rule r).dest.isSome = true :=
    fun h => ⟨fun d hd => AddArgs.isSome_of_mem_requests (hfwd h).1 hd, (hfwd h).2⟩
  rcases addRuleFg_cases hheld.lt a with (hf | ⟨ds, b, fresh, g, hpre, hb, hg, hf⟩) |
    ⟨b, fresh, g, hb, hg, hf⟩
  · rw [hf]
    exact ⟨hroom, fun h => hsized (h.resolve_left fun hne => hne rfl)⟩
  · rw [hf]
    have hbsized : b.fte.Sized := hb.sized hs
      (fun h => ⟨fun d hd => (hfwd' h).1 d (hpre.subset hd), (hfwd' h).2⟩)
      (Nat.le_trans (Nat.add_le_add_left hpre.length_le _) hfew)
    have hgb : Building (f.join a.act) g b.rules fresh ∧ g.rule = b.fte.rule ∧ g.SizeOk ∧
        ∀ c ∈ g.cmds, c.HasRoom := by
      rcases hg with ⟨-, rfl⟩ | ⟨-, -, m, rfl⟩
      · exact ⟨hb.toBuilding, rfl, hbsized.size, by rw [hb.cmds]; exact hroom⟩
      · refine ⟨hb.toBuilding.setFte m, rfl, hbsized.size, fun c hc => ?_⟩
        rcases mem_cons.mp hc with rfl | hc
        · exact hbsized.hasRoom m
        · rw [hb.cmds] at hc
          exact hroom c hc
    obtain ⟨hbuild, hrule, hgsize, hgroom⟩ := hgb
    refine ⟨by rw [destroyFlowHandle_cmds]; exact hgroom, fun h => ?_⟩
    have hp : present = true := h.resolve_left fun hne => hne rfl
    have hpos : ∀ r ∈ (f.join a.act).children, 0 < ((f.join a.act).rule r).refcount := fun r hr =>
      (hheld.refcount r hr).symm ▸ count_pos_iff.mpr ((hheld.mem r).mp hr)
    -- the rules that are unwound carry a destination
    have hdest : ∀ r ∈ fresh, (g.rule r).dest.isSome = true := by
      intro r hr
      rw [hrule]
      by_cases hnone : a.dest = none
      · have hreq : a.requests = [none] := by simp [AddArgs.requests, hnone]
        rcases hg with ⟨hne, -⟩ | ⟨-, hfail, -⟩
        · have hds : ds = [] := by
            rw [hreq] at hne hpre
            cases ds with
            | nil => rfl
            | cons d ds' =>
              obtain ⟨rfl, hnil⟩ := cons_prefix_cons.mp hpre
              exact absurd (by rw [prefix_nil.mp hnil]) hne
          have hmem := (hb.fresh_dest r hr).1
          rw [hds] at hmem
          simp at hmem
        · rw [hcmd hnone hp] at hfail
          exact absurd hfail (by simp)
      · exact AddArgs.isSome_of_mem_requests hnone (hpre.subset (hb.fresh_dest r hr).1)
    have hd := hbuild.destroy hheld.lt hpos
    have hperm : (destroyFlowHandle g b.rules).children.Perm f.children := hd.children
    refine ⟨hbuild.destroy_size hheld.lt hpos hdest hgsize, fun hact r hr => ?_, ?_⟩
    · have hr' := hperm.mem_iff.mp hr
      rw [(hd.old_rule r hr').1]
      exact (hsized hp).apart hact r hr'
    · exact hperm.length_eq.symm ▸ (hsized hp).few
  · rw [hf, foldl_linkRule]
    have hbsized : b.fte.Sized := hb.sized hs hfwd' hfew
    have hg' : g.Sized ∧ ∀ c ∈ g.cmds, c.HasRoom := by
      rcases hg with ⟨-, rfl⟩ | ⟨-, rfl⟩
      · exact ⟨hbsized, by rw [hb.cmds]; exact hroom⟩
      · refine ⟨⟨hbsized.size, hbsized.apart, hbsized.few⟩, fun c hc => ?_⟩
        rcases mem_cons.mp hc with rfl | hc
        · exact hbsized.hasRoom _
        · rw [hb.cmds] at hc
          exact hroom c hc
    exact ⟨hg'.2, fun _ => ⟨hg'.1.size, hg'.1.apart, hg'.1.few⟩⟩

namespace FteState

variable {s : FteState} {pend : List RuleId}

theorem SizeInv.add (h : SizeInv s []) {a : AddArgs} (hv : a.dest ≠ some [])
    (hk : AddKeepsSize s a) : SizeInv (s.add a) [] := by
  have hinv := h.toInv.add hv (hk.imp id fun hk => hk.1)
  obtain ⟨hheld, hentry⟩ := h.toInv.getFte a.act
  obtain ⟨hs, hcmds, hsized⟩ := h.getFte a.act
  have hroom : ∀ c ∈ (s.getFte a.act).cmds, c.HasRoom := by rw [hcmds]; exact h.room
  have hadd : (∀ c ∈ (addRuleFg (s.getFte a.act) a).1.cmds, c.HasRoom) ∧
      ((addRuleFg (s.getFte a.act) a).2 ≠ none ∨ s.present = true →
        (addRuleFg (s.getFte a.act) a).1.Sized) := by
    rcases hk with hc | ⟨-, hfwd, hfew, hcmd⟩
    · rw [addRuleFg_refused hc]
      exact ⟨hroom, fun h => hsized (h.resolve_left fun hne => hne rfl)⟩
    · exact addRuleFg_sized hheld hs hsized hroom hfwd hfew hcmd
  refine { hinv with sized := fun hp => ?_, room := hadd.1 }
  have hsz := hadd.2 ?_
  · exact ⟨hsz.size, hsz.apart, hsz.few⟩
  · -- an entry that survives a failed addition was there before
    by_contra hno
    rw [not_or, not_not, Bool.not_eq_true] at hno
    have hempty : (s.add a).handles = [] := by
      simp only [FteState.add, addResult, hno.1]
      exact (h.absent hno.2).1
    have hheld' := hinv.held hp
    rw [refs, hempty] at hheld'
    have hent := hinv.entry hp
    have hnil : (s.add a).fte.children = [] := eq_nil_iff_forall_not_mem.mpr fun r hr => by
      have := (hheld'.mem r).mp hr
      simp at this
    rw [hnil] at hent
    exact hent.2 hent.1

end FteState

/-! ## Deletions -/

/-- A counter is not the last destination of an entry that forwards, and another destination
leaves only an entry that forwards, or takes the entry with it. -/
def DropKeepsSize (f : Fte) (r : RuleId) : Prop :=
  (f.rule r).refcount > 1 ∨ ∀ d ∈ (f.rule r).dest,
    (d.isCounter = true → ¬(f.destsSize = 1 ∧ f.action.hasFwdDest = true)) ∧
      (d.isCounter = false → f.action.hasFwdDest = true ∨ f.children = [r])

instance (f : Fte) (r : RuleId) : Decidable (DropKeepsSize f r) :=
  inferInstanceAs (Decidable (_ ∨ _))

theorem delFwdDest_of_not {f : Fte} (h : f.action.hasFwdDest = false) : delFwdDest f = f :=
  if_neg (by simp [h])

theorem delFwdDest_of_dec {f : Fte} {n : Nat} (hfwd : f.action.hasFwdDest = true)
    (hn : U32.dec f.destsSize = n) : delFwdDest f =
      if n ≠ 0 then Fte.setFte { f with destsSize := n } (some ⟨false, true, false⟩)
      else { f with destsSize := n } := by
  rw [delFwdDest, if_pos hfwd, hn]

theorem delSwHwRule_of_dec {f : Fte} {r : RuleId} {n : Nat}
    (hc : (f.rule r).destAttr.isCounter = true) (hn : U32.dec f.destsSize = n) :
    delSwHwRule f r =
      if n ≠ 0 then
        Fte.setFte { f with destsSize := n, action := f.action &&& ~~~.count }
          (some ⟨true, false, true⟩)
      else delFwdDest { f with destsSize := n } := by
  rw [delSwHwRule, if_pos hc, hn]

/-- What `del_sw_hw_rule` makes of an entry `g` that just lost a rule for the
given destination. -/
inductive Drops (g : Fte) : Option Dest → Fte → Prop
  | plain (hfwd : g.action.hasFwdDest = false) : Drops g none g
  | counter {d : Dest} (hc : d.isCounter = true) (hne : g.numDests ≠ 0) :
      Drops g (some d) (Fte.setFte
        { g with destsSize := g.numDests, action := g.action &&& ~~~.count }
          (some ⟨true, false, true⟩))
  /-- The count has reached 0, and the second test is next. -/
  | lastCounter {d : Dest} (hc : d.isCounter = true) (h0 : g.numDests = 0) :
      Drops g (some d) (delFwdDest { g with destsSize := g.numDests })
  | forward {d : Dest} (hc : d.isCounter = false) (hfwd : g.action.hasFwdDest = true)
      (hne : g.numDests ≠ 0) :
      Drops g (some d) (Fte.setFte { g with destsSize := g.numDests } (some ⟨false, true, false⟩))
  | lastForward {d : Dest} (hc : d.isCounter = false) (hfwd : g.action.hasFwdDest = true)
      (h0 : g.numDests = 0) : Drops g (some d) { g with destsSize := g.numDests }
  /-- The entry does not forward: the rule goes, and the count stays. -/
  | uncounted {d : Dest} (hc : d.isCounter = false) (hfwd : g.action.hasFwdDest = false) :
      Drops g (some d) g

/-- The entry `g` is `f` without the rule `r`, as `tree_remove_node` passes it on. -/
structure Lost (f : Fte) (r : RuleId) (g : Fte) : Prop where
  dest : ∀ x, (g.rule x).dest = (f.rule x).dest
  children : g.children = f.children.erase r
  action : g.action = f.action
  destsSize : g.destsSize = f.destsSize
  cmds : g.cmds = f.cmds

theorem Lost.erase (f : Fte) (r : RuleId) :
    Lost f r { f.setRefcount r 0 with children := f.children.erase r } :=
  ⟨fun _ => Fte.setRefcount_dest .., rfl, rfl, rfl, rfl⟩

section

variable {f g : Fte} {r : RuleId}

theorem Lost.destAttr (h : Lost f r g) (x : RuleId) :
    (g.rule x).destAttr = (f.rule x).destAttr := by
  simp only [Rule.destAttr, h.dest]

theorem Lost.apart (h : Lost f r g) (hs : f.Sized) : g.Apart := fun hf x hx => by
  rw [h.action] at hf
  rw [h.children] at hx
  rw [h.dest]
  exact hs.apart hf x (mem_of_mem_erase hx)

theorem Lost.few (h : Lost f r g) (hs : f.Sized) : g.children.length ≤ maxEntries := by
  rw [h.children]
  exact Nat.le_trans length_erase_le hs.few

theorem Lost.numDests (h : Lost f r g) (hr : r ∈ f.children) :
    g.numDests + (if (f.rule r).dest.isSome then 1 else 0) = f.numDests := by
  have hg : g.numDests = (f.children.erase r).countP fun x => (f.rule x).dest.isSome := by
    simp only [Fte.numDests, h.dest, h.children]
  rw [hg]
  split
  · next hd => exact Fte.numDests_erase hr hd
  · next hd =>
      rw [countP_erase, if_neg fun hc => hd hc.2]
      rfl

/-- The entry with its count set right. -/
theorem Lost.sized (h : Lost f r g) (hs : f.Sized) :
    Fte.Sized { g with destsSize := g.numDests } :=
  .withSize (Fte.wrap_numDests (h.few hs)).symm (h.apart hs) (h.few hs)

theorem Lost.drops (h : Lost f r g) (hs : f.Sized) (hr : r ∈ f.children) :
    Drops g (f.rule r).dest (delSwHwRule g r) := by
  have hnum := h.numDests hr
  cases hd : (f.rule r).dest with
  | none =>
    -- an entry with such a rule does not forward
    have hnf : g.action.hasFwdDest = false := by
      rw [h.action]
      by_contra hf
      have := hs.apart (by simpa using hf) r hr
      rw [hd] at this
      simp at this
    have hnc : (f.rule r).destAttr.isCounter = false := by
      simp [Rule.destAttr, hd, Dest.zero, Dest.isCounter]
    rw [delSwHwRule, h.destAttr, hnc, if_neg (by simp), delFwdDest_of_not hnf]
    exact .plain hnf
  | some d =>
    rw [hd, if_pos (Option.isSome_some)] at hnum
    have hdec : U32.dec g.destsSize = g.numDests := by
      rw [h.destsSize, hs.size, ← hnum, U32.dec_wrap, Fte.wrap_numDests (h.few hs)]
    have hattr : (g.rule r).destAttr = d := by rw [h.destAttr]; simp [Rule.destAttr, hd]
    by_cases hc : d.isCounter = true
    · rw [delSwHwRule_of_dec (by rw [hattr, hc]) hdec]
      split
      · next hne => exact .counter hc hne
      · next h0 => exact .lastCounter hc (not_not.mp h0)
    · rw [delSwHwRule, hattr, if_neg hc]
      rw [Bool.not_eq_true] at hc
      by_cases hf : g.action.hasFwdDest = true
      · rw [delFwdDest_of_dec hf hdec]
        split
        · next hne => exact .forward hc hf hne
        · next h0 => exact .lastForward hc hf (not_not.mp h0)
      · rw [Bool.not_eq_true] at hf
        rw [delFwdDest_of_not hf]
        exact .uncounted hc hf

/-- A deleted rule that was still in use takes its destination out of the count;
the entry is right, or its child list is empty. -/
theorem Lost.drop_sized (h : Lost f r g) (hs : f.Sized) (hr : r ∈ f.children)
    (hroom : ∀ c ∈ f.cmds, c.HasRoom) (hone : (f.rule r).refcount = 1) (hk : DropKeepsSize f r) :
    (g.children = [] ∨ (delSwHwRule g r).Sized) ∧ ∀ c ∈ (delSwHwRule g r).cmds, c.HasRoom := by
  have hk' := hk.resolve_left (by omega)
  have hroom' : ∀ c ∈ g.cmds, c.HasRoom := by rw [h.cmds]; exact hroom
  have hsized := h.sized hs
  have hnum := h.numDests hr
  have hsend : ∀ {f' : Fte} (m : Option ModifyMask), f'.Sized → f'.cmds = g.cmds →
      (f'.setFte m).Sized ∧ ∀ c ∈ (f'.setFte m).cmds, c.HasRoom := by
    intro f' m hf' hcmds
    refine ⟨⟨hf'.size, hf'.apart, hf'.few⟩, fun c hc => ?_⟩
    rcases mem_cons.mp hc with rfl | hc
    · exact hf'.hasRoom m
    · exact hroom' c (hcmds ▸ hc)
  have hdrop := h.drops hs hr
  generalize hd : (f.rule r).dest = d at hdrop
  generalize delSwHwRule g r = g' at hdrop ⊢
  rw [hd] at hnum hk'
  cases hdrop with
  | plain hfwd =>
    refine ⟨.inr ⟨?_, h.apart hs, h.few hs⟩, hroom'⟩
    rw [if_neg (by simp), Nat.add_zero] at hnum
    rw [Fte.SizeOk, h.destsSize, hs.size, hnum]
  | counter hc hne =>
    obtain ⟨h₁, h₂⟩ := hsend (some ⟨true, false, true⟩) hsized.clearCount rfl
    exact ⟨.inr h₁, h₂⟩
  | lastCounter hc h0 =>
    have hnf : g.action.hasFwdDest = false := by
      rw [if_pos (by simp)] at hnum
      rw [← Bool.not_eq_true, h.action]
      exact fun hf => (hk' _ rfl).1 hc ⟨by rw [hs.destsSize_eq]; omega, hf⟩
    rw [delFwdDest_of_not (f := { g with destsSize := g.numDests }) hnf]
    exact ⟨.inr hsized, hroom'⟩
  | forward hc hfwd hne =>
    obtain ⟨h₁, h₂⟩ := hsend (some ⟨false, true, false⟩) hsized rfl
    exact ⟨.inr h₁, h₂⟩
  | lastForward hc hfwd h0 => exact ⟨.inr hsized, hroom'⟩
  | uncounted hc hfwd =>
    have honly := ((hk' _ rfl).2 hc).resolve_left (by rw [← h.action, hfwd]; simp)
    exact ⟨.inl (by rw [h.children, honly]; simp), hroom'⟩

end

namespace FteState

variable {s : FteState} {pend : List RuleId}

theorem SizeInv.delRule {r : RuleId} (h : SizeInv s (r :: pend)) (hk : DropKeepsSize s.fte r) :
    SizeInv (s.delRule r) pend := by
  have hp : s.present = true := by
    by_contra hp
    have := (h.absent (by simpa using hp)).2
    simp at this
  have hheld := (h.held hp).perm perm_middle
  have hr : r ∈ s.fte.children := (hheld.mem r).mpr (by simp)
  have hs := h.sized hp
  have hinv := h.toInv.delRule
  have hpos : 0 < (s.fte.rule r).refcount := by
    rw [hheld.refcount r hr]
    exact count_pos_iff.mpr (by simp)
  have hfte : (s.delRule r).fte = treeRemoveRule s.fte r := rfl
  by_cases hgt : (s.fte.rule r).refcount > 1
  · have hrem : treeRemoveRule s.fte r =
        s.fte.setRefcount r ((s.fte.rule r).refcount - 1) := if_pos hgt
    refine { hinv with sized := fun _ => ?_, room := ?_ }
    · rw [hfte, hrem]
      exact hs.setRefcount r _
    · rw [hfte, hrem]
      exact h.room
  · have hdel := (Lost.erase s.fte r).drop_sized hs hr h.room (by omega) hk
    have hrem := treeRemoveRule_last hgt (hheld.linked r hr)
    refine { hinv with sized := fun hp' => ?_, room := ?_ }
    · have hne : (s.fte.children.erase r) ≠ [] := by
        intro hnil
        have hentry := hinv.entry hp'
        rw [hfte, hrem] at hentry
        rw [(delSwHwRule_frame _ r).2.1] at hentry
        rw [hnil] at hentry
        exact hentry.2 hentry.1
      rw [hfte, hrem]
      have hsz := hdel.1.resolve_left hne
      exact ⟨hsz.size, hsz.apart, hsz.few⟩
    · rw [hfte, hrem]
      exact hdel.2

/-! ## Runs -/

/-- The calls that keep the count; a deletion runs from the last rule of the handle to the first. -/
def KeepsSize (s : FteState) : FteOp → Prop
  | .add a => AddKeepsSize s a
  | .del k => Run.Steps delRule (fun t r => DropKeepsSize t.fte r)
      { s with handles := s.handles.erase k } k.rules.reverse

/-- `dests_size` is the number of rules that carry a destination, and every command
buffer had room for what was written into it. -/
def SizeExact (s : FteState) : Prop :=
  (s.present = true → s.fte.destsSize = s.fte.numDests) ∧ ∀ c ∈ s.fte.cmds, c.HasRoom

theorem SizeInv.del (h : SizeInv s []) {k : Handle} (hk : k ∈ s.handles)
    (hok : KeepsSize s (.del k)) : SizeInv (s.del k) [] := by
  have hgo : ∀ (l : List RuleId) (t : FteState), SizeInv t l →
      Run.Steps FteState.delRule (fun t r => DropKeepsSize t.fte r) t l →
      SizeInv (l.foldl FteState.delRule t) [] := by
    intro l
    induction l with
    | nil => exact fun t ht _ => ht
    | cons r l ih => exact fun t ht hs => ih _ (ht.delRule hs.1) hs.2
  refine hgo _ _ { h.toInv.pend_handle hk with sized := h.sized, room := h.room } hok

/-- In every run whose calls all keep the count, `dests_size` is exact in every
state and no command buffer was too small. -/
theorem destsSize_every_run (ops : List FteOp) (hv : Run.Steps step Valid init ops)
    (hok : Run.Steps step KeepsSize init ops) : ∀ s ∈ Run.states step init ops, SizeExact s := by
  have hboth := Run.steps_and.mpr ⟨hv, hok⟩
  have hstep : ∀ s op, SizeInv s [] → Valid s op ∧ KeepsSize s op → SizeInv (step s op) [] := by
    rintro s op h ⟨hv, hk⟩
    cases op with
    | add a => exact h.add hv hk
    | del k => exact h.del hv hk
  intro s hs
  have h := hboth.invariant hstep sizeInv_init s hs
  exact ⟨fun hp => (h.sized hp).destsSize_eq, h.room⟩

/-- An addition whose allocations and command succeed. -/
def addOk (action : Action) (dest : Option (List Dest)) : AddArgs :=
  { act := ⟨action, false, 0⟩, dest := dest, handleOk := true, allocOk := fun _ => true
    cmdOk := true }

/-- A counted TIR and, beside it, a second TIR; the counted one is deleted again. -/
def countedTirOps : List FteOp :=
  [.add (addOk (.fwdDest ||| .count) (some [.tir 1, .counter 7])),
    .add (addOk .fwdDest (some [.tir 2])),
    .del ⟨[0, 1], [some (.tir 1), some (.counter 7)]⟩]

theorem destsSize_every_run_counted_tir :
    Run.Steps step Valid init countedTirOps ∧ Run.Steps step KeepsSize init countedTirOps ∧
      ∀ s ∈ Run.states step init countedTirOps, SizeExact s := by
  have hv : Run.Steps step Valid init countedTirOps := by
    simp only [countedTirOps, Run.steps_cons, Run.steps_nil, Valid]
    decide +kernel
  have hok : Run.Steps step KeepsSize init countedTirOps := by
    simp only [countedTirOps, Run.steps_cons, Run.steps_nil, KeepsSize, AddKeepsSize]
    decide +kernel
  exact ⟨hv, hok, destsSize_every_run _ hv hok⟩

/-- The deletion takes the TIR first, and then the counter twice. The last state is that of a
count of `2 ^ 32 - 1` for no rule. -/
theorem destsSize_breaks :
    ¬∀ ops, Run.Steps step Valid init ops → ∀ s ∈ Run.states step init ops, SizeExact s := by
  intro hall
  let args := addOk (.fwdDest ||| .count) (some [.counter 7, .tir 1])
  let k : Handle := ⟨[0, 1], args.requests⟩
  have hv : Run.Steps step Valid init [.add args, .del k] := by
    simp only [Run.steps_cons, Run.steps_nil, Valid]
    decide +kernel
  have hlast : (init.step (.add args)).step (.del k) ∈
      Run.states step init [.add args, .del k] := by simp
  have hroom := (hall _ hv _ hlast).2
  revert hroom
  simp only [SetFte.HasRoom]
  decide +kernel

end FteState

end Mlx5
