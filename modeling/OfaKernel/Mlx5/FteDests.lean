-- SUMMARY: What an mlx5 FTE does for its handles.
import OfaKernel.Mlx5.FteDestsSize

/-!
# Destinations of an entry

While a handle is live, its entry should hold and have given to the device exactly the
destinations the live handles asked for. `dests_every_run` names the calls that keep this.
-/

open List

namespace Mlx5

/-! ## What the device was given -/

/-- The destination list of the last command that set one. -/
def sentDests : List SetFte → List Dest
  | [] => []
  | c :: cs => if c.modifyMask.all (·.destinationList) then c.dests else sentDests cs

/-- The counter list of the last command that set one. -/
def sentCounters : List SetFte → List Nat
  | [] => []
  | c :: cs => if c.modifyMask.all (·.flowCounters) then c.counters else sentCounters cs

/-- A rule of the child list was made for the destination. -/
def Fte.Has (f : Fte) (d : Dest) : Prop :=
  ∃ r ∈ f.children, (f.rule r).dest = some d

/-- Only an entry that forwards has destinations other than counters. -/
def Fte.Forwards (f : Fte) : Prop :=
  ∀ d, f.Has d → d.isCounter = false → f.action.hasFwdDest = true

theorem Fte.mem_content_dests {f : Fte} (hapart : f.Apart) (hfwd : f.Forwards)
    (m : Option ModifyMask) (d : Dest) :
    d ∈ (f.content m).dests ↔ d.isCounter = false ∧ f.Has d := by
  by_cases hf : f.action.hasFwdDest = true
  · have hattr : ∀ r ∈ f.children, ((f.rule r).destAttr = d ↔ (f.rule r).dest = some d) := by
      intro r hr
      obtain ⟨e, he⟩ := Option.isSome_iff_exists.mp (hapart hf r hr)
      simp [Rule.destAttr, he]
    simp only [Fte.content, hf, if_true, mem_filter, Fte.destAttrs, mem_map,
      Bool.not_eq_true', Fte.Has]
    constructor
    · rintro ⟨⟨r, hr, hd⟩, hc⟩
      exact ⟨hc, r, hr, (hattr r hr).mp hd⟩
    · rintro ⟨hc, r, hr, hd⟩
      exact ⟨⟨r, hr, (hattr r hr).mpr hd⟩, hc⟩
  · simp only [Fte.content, hf, Bool.false_eq_true, if_false, not_mem_nil, false_iff]
    exact fun h => hf (hfwd d h.2 h.1)

theorem Fte.mem_content_counters (f : Fte) (m : Option ModifyMask) (id : Nat) :
    id ∈ (f.content m).counters ↔ f.action.hasCount = true ∧ f.Has (.counter id) := by
  have hid : ∀ r : Rule, r.destAttr.counterId? = some id ↔ r.dest = some (.counter id) := by
    intro r
    unfold Rule.destAttr
    cases r.dest with
    | none => simp [Dest.zero, Dest.counterId?]
    | some d => cases d <;> simp [Dest.counterId?]
  by_cases hc : f.action.hasCount = true
  · simp only [Fte.content, hc, if_true, mem_filterMap, Fte.destAttrs, mem_map,
      true_and, Fte.Has]
    constructor
    · rintro ⟨_, ⟨r, hr, rfl⟩, hd⟩
      exact ⟨r, hr, (hid _).mp hd⟩
    · rintro ⟨r, hr, hd⟩
      exact ⟨_, ⟨r, hr, rfl⟩, (hid _).mpr hd⟩
  · simp [Fte.content, hc]

/-- The device has what the child list holds. -/
structure Fte.Synced (f : Fte) : Prop where
  dests : ∀ d, d ∈ sentDests f.cmds ↔ d.isCounter = false ∧ f.Has d
  counters : ∀ id, id ∈ sentCounters f.cmds ↔ f.action.hasCount = true ∧ f.Has (.counter id)

theorem Fte.has_congr {f g : Fte} (hdest : ∀ x, (g.rule x).dest = (f.rule x).dest)
    (hch : g.children.Perm f.children) (d : Dest) : g.Has d ↔ f.Has d := by
  simp only [Fte.Has, hdest, hch.mem_iff]

/-- What a command changes in the lists that were sent: those its mask names, or all. -/
theorem Fte.Synced.setFte {f : Fte} {m : Option ModifyMask} (hapart : f.Apart)
    (hfwd : f.Forwards)
    (hdests : m.all (·.destinationList) = false →
      ∀ d, d ∈ sentDests f.cmds ↔ d.isCounter = false ∧ f.Has d)
    (hcounters : m.all (·.flowCounters) = false →
      ∀ id, id ∈ sentCounters f.cmds ↔ f.action.hasCount = true ∧ f.Has (.counter id)) :
    (f.setFte m).Synced where
  dests d := by
    have hhas : (f.setFte m).Has d ↔ f.Has d := Iff.rfl
    have hsent : sentDests (f.setFte m).cmds =
        if m.all (·.destinationList) then (f.content m).dests else sentDests f.cmds := rfl
    rw [hhas, hsent]
    split
    · exact Fte.mem_content_dests hapart hfwd m d
    · next hm => exact hdests (by simpa using hm) d
  counters id := by
    have hhas : (f.setFte m).Has (.counter id) ↔ f.Has (.counter id) := Iff.rfl
    have hsent : sentCounters (f.setFte m).cmds =
        if m.all (·.flowCounters) then (f.content m).counters else sentCounters f.cmds := rfl
    have hact : (f.setFte m).action = f.action := rfl
    rw [hhas, hsent, hact]
    split
    · exact Fte.mem_content_counters f m id
    · next hm => exact hcounters (by simpa using hm) id

namespace FteState

/-- A live handle asked for the destination. -/
def Requested (s : FteState) (d : Dest) : Prop :=
  ∃ h ∈ s.handles, some d ∈ h.dests

/-- The device was given the destination. -/
def Given (s : FteState) (d : Dest) : Prop :=
  d ∈ sentDests s.fte.cmds ∨ ∃ id, d = .counter id ∧ id ∈ sentCounters s.fte.cmds

/-- The entry is there exactly while a handle is live, holds and has given to the device what the
live handles asked for, and counts while one of them has a counter. -/
structure DestsExact (s : FteState) : Prop where
  released : s.present = true ↔ s.handles ≠ []
  children : s.present = true → ∀ d, s.fte.Has d ↔ s.Requested d
  given : s.present = true → ∀ d, s.Given d ↔ s.Requested d
  count : ∀ id, s.Requested (.counter id) → s.fte.action.hasCount = true

/-- The invariant of the runs that keep the destinations, with the references
`pend` of a handle that is being deleted. -/
structure DestInv (s : FteState) (pend : List RuleId) : Prop extends Inv s pend where
  sized : s.present = true → s.fte.Sized
  serves : ∀ h ∈ s.handles, h.rules.map (fun r => (s.fte.rule r).dest) = h.dests
  forwards : s.present = true → s.fte.Forwards
  count : ∀ id, s.Requested (.counter id) → s.fte.action.hasCount = true
  synced : s.present = true → s.fte.Synced

variable {s : FteState} {pend : List RuleId}

theorem destInv_init : DestInv init [] :=
  { inv_init with
    sized := by simp [init]
    serves := by simp [init]
    forwards := by simp [init]
    count := by simp [Requested, init]
    synced := by simp [init] }

/-- Between two calls the invariant says what the entry should do. -/
theorem DestInv.destsExact (h : DestInv s []) : s.DestsExact := by
  have hhas : s.present = true → ∀ d, s.fte.Has d ↔ s.Requested d := by
    intro hp d
    have hheld := h.held hp
    rw [append_nil] at hheld
    constructor
    · rintro ⟨r, hr, hd⟩
      obtain ⟨k, hk, hrk⟩ := mem_flatMap.mp ((hheld.mem r).mp hr)
      exact ⟨k, hk, by rw [← h.serves k hk]; exact mem_map.mpr ⟨r, hrk, hd⟩⟩
    · rintro ⟨k, hk, hd⟩
      rw [← h.serves k hk] at hd
      obtain ⟨r, hr, he⟩ := mem_map.mp hd
      exact ⟨r, (hheld.mem r).mpr (mem_flatMap.mpr ⟨k, hk, hr⟩), he⟩
  refine ⟨⟨fun hp hnil => ?_, fun hne => ?_⟩, hhas, fun hp d => ?_, h.count⟩
  · -- an entry without references has no child
    have hheld := h.held hp
    have hch : s.fte.children = [] := eq_nil_iff_forall_not_mem.mpr fun r hr => by
      have := (hheld.mem r).mp hr
      simp [refs, hnil] at this
    have hentry := h.entry hp
    rw [hch] at hentry
    exact hentry.2 hentry.1
  · by_contra hp
    exact hne (h.absent (by simpa using hp)).1
  · have hs := h.synced hp
    rw [← hhas hp]
    constructor
    · rintro (hd | ⟨id, rfl, hid⟩)
      · exact ((hs.dests d).mp hd).2
      · exact ((hs.counters id).mp hid).2
    · intro hd
      cases hc : d.isCounter with
      | false => exact .inl ((hs.dests d).mpr ⟨hc, hd⟩)
      | true =>
        cases d with
        | counter id =>
          exact .inr ⟨id, rfl, (hs.counters id).mpr ⟨h.count id ((hhas hp _).mp hd), hd⟩⟩
        | _ => simp [Dest.isCounter] at hc

end FteState

/-! ## Additions -/

/-- The additions to the entry `f` that keep the destinations. -/
@[mk_iff]
structure AddKeepsDests (f : Fte) (a : AddArgs) : Prop where
  /-- No destination is repeated in the array, unless the entry had it. -/
  noRepeat : NoRepeat f a.requests
  /-- A destination that the comparison finds is the same in all its fields. -/
  found : Matches f a.requests
  /-- A rule without a destination and forwarding do not come together. -/
  apart : (f.join a.act).action.hasFwdDest = true →
    a.dest ≠ none ∧ ∀ r ∈ f.children, (f.rule r).dest.isSome = true
  few : f.children.length + a.requests.length ≤ maxEntries
  /-- A counter comes with the count action, and another destination with forwarding. -/
  action : ∀ d ∈ a.requests, ∀ e ∈ d,
    (if e.isCounter then (f.join a.act).action.hasCount else
    (f.join a.act).action.hasFwdDest) = true

instance (f : Fte) (a : AddArgs) : Decidable (AddKeepsDests f a) :=
  decidable_of_iff' _ (addKeepsDests_iff f a)

section

variable {f : Fte} {a : AddArgs} {b : HandleBuild} {fresh : List RuleId}

theorem Built.has_iff {ds : List (Option Dest)} (h : Built (f.join a.act) ds b fresh) (d : Dest) :
    b.fte.Has d ↔ f.Has d ∨ ∃ r ∈ fresh, (b.fte.rule r).dest = some d := by
  constructor
  · rintro ⟨r, hr, hd⟩
    rcases h.mem_children.mp hr with hr | hr
    · exact .inr ⟨r, hr, hd⟩
    · exact .inl ⟨r, hr, by rw [← hd, (h.old_rule r hr).1]; rfl⟩
  · rintro (⟨r, hr, hd⟩ | ⟨r, hr, hd⟩)
    · exact ⟨r, h.mem_children.mpr (.inr hr), by rw [(h.old_rule r hr).1]; exact hd⟩
    · exact ⟨r, h.mem_children.mpr (.inl hr), hd⟩

theorem Built.forwards (h : Built (f.join a.act) a.requests b fresh) (hk : AddKeepsDests f a)
    (hf : f.Forwards) : b.fte.Forwards := by
  intro d hd hc
  rw [h.frame.1]
  rcases (h.has_iff d).mp hd with hd | ⟨r, hr, hd⟩
  · simp [Fte.join, hf d hd hc]
  · have hact := hk.action (some d) (by rw [← hd]; exact (h.fresh_dest r hr).1) d rfl
    simpa [hc] using hact

/-- The command of an addition gives the device every list that changed. -/
theorem Built.synced (h : Built (f.join a.act) a.requests b fresh) (hk : AddKeepsDests f a)
    (hapart : b.fte.Apart) (hf : f.Forwards) (hsync : f.existing = true → f.Synced)
    (hcount : ∀ id, f.Has (.counter id) → f.action.hasCount = true) :
    (b.fte.setFte (commandMask f b.modifyMask (f.action != a.act.action))).Synced := by
  have hcmds : b.fte.cmds = f.cmds := h.cmds
  have hact : b.fte.action = (f.join a.act).action := h.frame.1
  have hex : ∀ p : ModifyMask → Bool, (∀ m v, p { m with action := v } = p m) →
      (commandMask f b.modifyMask (f.action != a.act.action)).all p = false →
      f.existing = true ∧ p b.modifyMask = false := by
    intro p hp hm
    unfold commandMask at hm
    split at hm
    · next hx => exact ⟨hx, by simpa [hp] using hm⟩
    · simp at hm
  refine Fte.Synced.setFte hapart (h.forwards hk hf) (fun hm d => ?_) (fun hm id => ?_)
  · obtain ⟨hx, hmask⟩ := hex _ (fun _ _ => rfl) hm
    rw [hcmds, (hsync hx).dests, h.has_iff]
    refine and_congr_right fun hc => ⟨.inl, fun hd => hd.resolve_right fun ⟨r, hr, hd⟩ => ?_⟩
    rw [h.destinationList.mpr ⟨r, hr, d, hd, hc⟩] at hmask
    simp at hmask
  · obtain ⟨hx, hmask⟩ := hex _ (fun _ _ => rfl) hm
    rw [hcmds, (hsync hx).counters, h.has_iff, hact]
    have hnew : ¬∃ r ∈ fresh, (b.fte.rule r).dest = some (.counter id) := by
      rintro ⟨r, hr, hd⟩
      rw [h.flowCounters.mpr ⟨r, hr, _, hd, rfl⟩] at hmask
      simp at hmask
    constructor
    · rintro ⟨hc, hd⟩
      exact ⟨by simp [Fte.join, hc], .inl hd⟩
    · rintro ⟨-, hd⟩
      have hd := hd.resolve_right hnew
      exact ⟨hcount id hd, hd⟩

/-- An addition that makes no rule changes nothing the device has. -/
theorem Built.synced_of_nil (h : Built (f.join a.act) a.requests b fresh) (hnil : fresh = [])
    (hreq : a.requests ≠ []) (hsync : f.children ≠ [] → f.Synced)
    (hcount : ∀ id, f.Has (.counter id) → f.action.hasCount = true) : b.fte.Synced := by
  have hne : f.children ≠ [] := by
    have hlen : b.rules ≠ [] := by
      rw [← length_pos_iff, h.length_eq]
      exact length_pos_iff.mpr hreq
    obtain ⟨r, hr⟩ := exists_mem_of_ne_nil _ hlen
    have hmem := (h.mem r hr).resolve_left (by simp [hnil])
    exact ne_nil_of_mem hmem
  have hhas : ∀ d, b.fte.Has d ↔ f.Has d := fun d => by simp [h.has_iff, hnil]
  have hact : b.fte.action = (f.join a.act).action := h.frame.1
  refine ⟨fun d => ?_, fun id => ?_⟩
  · rw [h.cmds, hhas]
    exact (hsync hne).dests d
  · rw [h.cmds, hhas, hact]
    refine ((hsync hne).counters id).trans ⟨fun ⟨hc, hd⟩ => ⟨by simp [Fte.join, hc], hd⟩, ?_⟩
    exact fun ⟨_, hd⟩ => ⟨hcount id hd, hd⟩

end

namespace FteState

variable {s : FteState} {pend : List RuleId}

/-- The entry an addition works on. -/
theorem DestInv.getFte (h : DestInv s []) (act : FlowAct) :
    (s.getFte act).rule = s.fte.rule ∧ (s.getFte act).SizeOk ∧ (s.getFte act).Forwards ∧
      ((s.getFte act).existing = true ∨ (s.getFte act).children ≠ [] → (s.getFte act).Synced) ∧
      (∀ id, (s.getFte act).Has (.counter id) → (s.getFte act).action.hasCount = true) ∧
      (s.handles ≠ [] → (s.getFte act).action = s.fte.action) := by
  have hexact := h.destsExact
  unfold FteState.getFte
  by_cases hp : s.present = true
  · have hsync := h.synced hp
    rw [if_pos hp]
    exact ⟨rfl, (h.sized hp).size, h.forwards hp, fun _ => ⟨hsync.dests, hsync.counters⟩,
      fun id hd => h.count id ((hexact.children hp _).mp hd), fun _ => rfl⟩
  · have hnone : s.handles = [] := (h.absent (by simpa using hp)).1
    rw [if_neg hp]
    refine ⟨rfl, (U32.wrap_of_lt (n := 0) (by decide)).symm, ?_, ?_, ?_,
      fun hne => absurd hnone hne⟩
    · rintro d ⟨r, hr, -⟩
      simp at hr
    · rintro (hx | hx) <;> simp at hx
    · rintro id ⟨r, hr, -⟩
      simp at hr

theorem DestInv.add (h : DestInv s []) {a : AddArgs} (hv : a.dest ≠ some [])
    (hsucc : (s.addResult a).2 ≠ none) (hk : AddKeepsDests (s.getFte a.act) a) :
    DestInv (s.add a) [] := by
  obtain ⟨hrule, hsize, hfwd, hsync, hcount, haction⟩ := h.getFte a.act
  obtain ⟨hheld, -⟩ := h.toInv.getFte a.act
  have hinv := h.toInv.add hv (.inr hk.noRepeat)
  unfold addResult at hsucc
  have hfwd' : ((s.getFte a.act).join a.act).action.hasFwdDest = true →
      (∀ d ∈ a.requests, d.isSome = true) ∧
        ∀ r ∈ (s.getFte a.act).children, ((s.getFte a.act).rule r).dest.isSome = true :=
    fun hf => ⟨fun d hd => AddArgs.isSome_of_mem_requests (hk.apart hf).1 hd, (hk.apart hf).2⟩
  rcases addRuleFg_cases hheld.lt a with (hf | ⟨ds, b, fresh, g, -, -, -, hf⟩) |
    ⟨b, fresh, g, hb, hg, hf⟩
  · rw [hf] at hsucc; exact absurd rfl hsucc
  · rw [hf] at hsucc; exact absurd rfl hsucc
  have hbsized : b.fte.Sized := hb.sized hsize hfwd' hk.few
  have hbfwd := hb.forwards hk hfwd
  have hgs : g.Sized ∧ g.Forwards ∧ g.Synced ∧ g.rule = b.fte.rule ∧
      g.action = (s.getFte a.act).action ||| a.act.action := by
    rcases hg with ⟨hnil, rfl⟩ | ⟨-, rfl⟩
    · refine ⟨hbsized, hbfwd, ?_, rfl, hb.frame.1⟩
      exact hb.synced_of_nil hnil (AddArgs.requests_ne_nil hv) (fun hx => hsync (.inr hx)) hcount
    · have hs := hb.synced hk hbsized.apart hfwd (fun hx => hsync (.inl hx)) hcount
      exact ⟨⟨hbsized.size, hbsized.apart, hbsized.few⟩, hbfwd, ⟨hs.dests, hs.counters⟩, rfl,
        hb.frame.1⟩
  obtain ⟨hgsized, hgfwd, hgsync, hgrule, hgact⟩ := hgs
  have hfte : (s.add a).fte = { b.rules.foldl linkRule g with
      refcount := (b.rules.foldl linkRule g).refcount - 1 } := by rw [add_fte, hf]
  have hhandles : (s.add a).handles = ⟨b.rules, a.requests⟩ :: s.handles := by
    simp [FteState.add, addResult, hf]
  rw [foldl_linkRule] at hfte
  have hdest : ∀ r, ((s.add a).fte.rule r).dest = (b.fte.rule r).dest := by
    intro r
    rw [hfte, ← hgrule]
  refine { hinv with
    sized := fun _ => by rw [hfte]; exact ⟨hgsized.size, hgsized.apart, hgsized.few⟩
    serves := fun k hk' => ?_
    forwards := fun _ => by rw [hfte]; exact hgfwd
    count := fun id hid => ?_
    synced := fun _ => by rw [hfte]; exact ⟨hgsync.dests, hgsync.counters⟩ }
  · simp only [hdest]
    rw [hhandles] at hk'
    rcases mem_cons.mp hk' with rfl | hk'
    · exact hb.serves hk.noRepeat hk.found
    · rw [← h.serves k hk']
      refine map_congr_left fun r hr => ?_
      have hmem := (hheld.mem r).mpr (mem_flatMap.mpr ⟨k, hk', hr⟩)
      rw [(hb.old_rule r hmem).1, ← hrule]
      rfl
  · have hact : (s.add a).fte.action = ((s.getFte a.act).join a.act).action := by
      rw [hfte]; exact hgact
    rw [hact]
    obtain ⟨k, hk', hid⟩ := hid
    rw [hhandles] at hk'
    rcases mem_cons.mp hk' with rfl | hk'
    · simpa [Dest.isCounter] using hk.action _ hid _ rfl
    · simp [Fte.join, haction (ne_nil_of_mem hk'), h.count id ⟨k, hk', hid⟩]

end FteState

/-! ## Deletions -/

def Handle.hasCounter (h : Handle) : Bool :=
  h.dests.any fun d => d.any Dest.isCounter

/-- The deletions that keep the destinations. With a counter no live handle may have another, and
unless the entry goes, the device must be told. -/
def DropKeepsDests (s : FteState) (r : RuleId) : Prop :=
  (s.fte.rule r).refcount > 1 ∨ s.fte.children = [r] ∨
    ∀ d ∈ (s.fte.rule r).dest, d.isCounter = true →
      (s.fte.destsSize ≠ 1 ∨ s.fte.action.hasCount = false) ∧
        ∀ h ∈ s.handles, h.hasCounter = false

instance (s : FteState) (r : RuleId) : Decidable (DropKeepsDests s r) :=
  inferInstanceAs (Decidable (_ ∨ _))

section

variable {f g : Fte} {r : RuleId}

theorem Lost.has_of_ne (h : Lost f r g) {d : Dest} (hd : (f.rule r).dest ≠ some d) :
    g.Has d ↔ f.Has d := by
  simp only [Fte.Has, h.dest, h.children]
  refine exists_congr fun x => and_congr_left fun hx => mem_erase_of_ne ?_
  rintro rfl
  exact hd hx

theorem Lost.has (h : Lost f r g) {d : Dest} (hd : g.Has d) : f.Has d := by
  obtain ⟨x, hx, hd⟩ := hd
  rw [h.children] at hx
  exact ⟨x, mem_of_mem_erase hx, by rw [← h.dest, hd]⟩

theorem Lost.forwards (h : Lost f r g) (hf : f.Forwards) : g.Forwards := fun d hd hc => by
  rw [h.action]
  exact hf d (h.has hd) hc

/-- An entry that forwards and has children left has destinations left. -/
theorem Lost.numDests_ne_zero (h : Lost f r g) (hs : f.Sized) (hne : g.children ≠ [])
    (hf : g.action.hasFwdDest = true) : g.numDests ≠ 0 := by
  obtain ⟨x, hx⟩ := exists_mem_of_ne_nil _ hne
  exact Nat.ne_of_gt (countP_pos_iff.mpr ⟨x, hx, h.apart hs hf x hx⟩)

/-- What stays of an entry that loses one of several rules. -/
theorem Lost.drop_synced (h : Lost f r g) (hs : f.Sized) (hf : f.Forwards) (hsync : f.Synced)
    (hr : r ∈ f.children) (hne : g.children ≠ [])
    (hk : ∀ d ∈ (f.rule r).dest, d.isCounter = true →
      f.destsSize ≠ 1 ∨ f.action.hasCount = false) :
    (delSwHwRule g r).Sized ∧ (delSwHwRule g r).Forwards ∧ (delSwHwRule g r).Synced ∧
      ((delSwHwRule g r).action = f.action ∨
        ∃ d, (f.rule r).dest = some d ∧ d.isCounter = true) := by
  have hsized := h.sized hs
  have hgf := h.forwards hf
  have hnum := h.numDests hr
  have hdrop := h.drops hs hr
  have hdests : (∀ d, d.isCounter = false → (f.rule r).dest ≠ some d) →
      ∀ d, d ∈ sentDests g.cmds ↔ d.isCounter = false ∧ g.Has d := by
    intro hd d
    rw [h.cmds, hsync.dests]
    exact and_congr_right fun hc => (h.has_of_ne (hd d hc)).symm
  have hcounters : (∀ d, d.isCounter = true → (f.rule r).dest ≠ some d) →
      ∀ id, id ∈ sentCounters g.cmds ↔ g.action.hasCount = true ∧ g.Has (.counter id) := by
    intro hd id
    rw [h.cmds, hsync.counters, h.action]
    exact and_congr_right fun _ => (h.has_of_ne (hd _ rfl)).symm
  have hkind : ∀ {d : Dest} {v : Bool}, d.isCounter = v →
      ∀ e : Dest, e.isCounter = !v → some d ≠ some e := by
    rintro d v hv e he heq
    rw [Option.some.inj heq, he] at hv
    simp at hv
  generalize hd : (f.rule r).dest = d at hdrop
  generalize delSwHwRule g r = g' at hdrop ⊢
  rw [hd] at hnum hk hdests hcounters
  cases hdrop with
  | plain hfwd =>
    refine ⟨⟨?_, h.apart hs, h.few hs⟩, hgf, ⟨hdests (by simp), hcounters (by simp)⟩, .inl h.action⟩
    rw [if_neg (by simp), Nat.add_zero] at hnum
    rw [Fte.SizeOk, h.destsSize, hs.size, hnum]
  | @counter d hc hnz =>
    have hclear := hsized.clearCount
    have hforw : Fte.Forwards { g with
        destsSize := g.numDests, action := g.action &&& ~~~.count } := fun e he hce => by
      simpa using hgf e he hce
    exact ⟨⟨hclear.size, hclear.apart, hclear.few⟩, hforw,
      Fte.Synced.setFte hclear.apart hforw (fun _ => hdests (hkind hc)) (by simp),
      .inr ⟨d, rfl, hc⟩⟩
  | @lastCounter d hc h0 =>
    have hnf : g.action.hasFwdDest = false := by
      rw [← Bool.not_eq_true]
      exact fun hfwd => h.numDests_ne_zero hs hne hfwd h0
    -- the device is not told, and does not count any more
    have hno : f.action.hasCount = false := by
      rw [if_pos (by simp)] at hnum
      exact (hk d rfl hc).resolve_left (by rw [not_not, hs.destsSize_eq]; omega)
    rw [delFwdDest_of_not (f := { g with destsSize := g.numDests }) hnf]
    refine ⟨hsized, hgf, ⟨hdests (hkind hc), fun id => ?_⟩, .inl h.action⟩
    have hsent := hsync.counters id
    rw [← h.cmds, hno] at hsent
    simpa [h.action, hno] using hsent
  | @forward d hc hfwd hnz =>
    refine ⟨⟨hsized.size, hsized.apart, hsized.few⟩, hgf,
      Fte.Synced.setFte hsized.apart hgf (by simp) (fun _ => hcounters (hkind hc)), .inl h.action⟩
  | lastForward hc hfwd h0 => exact absurd h0 (h.numDests_ne_zero hs hne hfwd)
  | @uncounted d hc hfwd =>
    rw [h.action, hf d ⟨r, hr, hd⟩ hc] at hfwd
    simp at hfwd

end

namespace FteState

variable {s : FteState} {pend : List RuleId}

theorem Requested.hasCounter {id : Nat} (h : s.Requested (.counter id)) :
    ∃ k ∈ s.handles, k.hasCounter = true := by
  obtain ⟨k, hk, hd⟩ := h
  exact ⟨k, hk, any_eq_true.mpr ⟨_, hd, rfl⟩⟩

theorem DestInv.delRule {r : RuleId} (h : DestInv s (r :: pend)) (hk : DropKeepsDests s r) :
    DestInv (s.delRule r) pend := by
  have hp : s.present = true := by
    by_contra hp
    have := (h.absent (by simpa using hp)).2
    simp at this
  have hheld := (h.held hp).perm perm_middle
  have hr : r ∈ s.fte.children := (hheld.mem r).mpr (by simp)
  have hinv := h.toInv.delRule
  have hserves : ∀ k ∈ (s.delRule r).handles,
      k.rules.map (fun x => ((s.delRule r).fte.rule x).dest) = k.dests := by
    simp only [delRule_dest]
    exact h.serves
  have hfte : (s.delRule r).fte = treeRemoveRule s.fte r := rfl
  by_cases hgt : (s.fte.rule r).refcount > 1
  · have hrem : treeRemoveRule s.fte r = s.fte.setRefcount r ((s.fte.rule r).refcount - 1) :=
      if_pos hgt
    have hsync := h.synced hp
    have hhas : ∀ d, (s.delRule r).fte.Has d ↔ s.fte.Has d :=
      Fte.has_congr (delRule_dest s r) (by rw [hfte, hrem]; exact .refl _)
    have hsame : (s.delRule r).fte.cmds = s.fte.cmds ∧ (s.delRule r).fte.action = s.fte.action := by
      rw [hfte, hrem]; exact ⟨rfl, rfl⟩
    refine { hinv with
      sized := fun _ => by rw [hfte, hrem]; exact (h.sized hp).setRefcount r _
      serves := hserves
      forwards := fun _ d hd hc => by rw [hsame.2]; exact h.forwards hp d ((hhas d).mp hd) hc
      count := fun id hid => by rw [hsame.2]; exact h.count id hid
      synced := fun _ => ⟨fun d => ?_, fun id => ?_⟩ }
    · rw [hsame.1, hhas]
      exact hsync.dests d
    · rw [hsame.1, hsame.2, hhas]
      exact hsync.counters id
  have hrem := treeRemoveRule_last hgt (hheld.linked r hr)
  by_cases honly : s.fte.children = [r]
  · -- the entry is released
    have habs : (s.delRule r).present = false := by
      rw [← Bool.not_eq_true]
      intro hp'
      have hentry := hinv.entry hp'
      rw [hfte, hrem] at hentry
      rw [(delSwHwRule_frame _ r).2.1] at hentry
      simp [honly] at hentry
    have hnone := (hinv.absent habs).1
    refine { hinv with
      sized := fun hp' => absurd hp' (by simp [habs])
      serves := hserves
      forwards := fun hp' => absurd hp' (by simp [habs])
      count := fun id hid => ?_
      synced := fun hp' => absurd hp' (by simp [habs]) }
    obtain ⟨k, hk', -⟩ := hid
    rw [hnone] at hk'
    simp at hk'
  · have hk' := (hk.resolve_left hgt).resolve_left honly
    have hne : s.fte.children.erase r ≠ [] := fun hnil =>
      honly (perm_singleton.mp (hnil ▸ perm_cons_erase hr))
    obtain ⟨h₁, h₂, h₃, h₄⟩ := (Lost.erase s.fte r).drop_synced (h.sized hp) (h.forwards hp)
      (h.synced hp) hr hne fun d hd hc => (hk' d hd hc).1
    refine { hinv with
      sized := fun _ => by rw [hfte, hrem]; exact ⟨h₁.size, h₁.apart, h₁.few⟩
      serves := hserves
      forwards := fun _ => by rw [hfte, hrem]; exact h₂
      count := fun id hid => ?_
      synced := fun _ => by rw [hfte, hrem]; exact ⟨h₃.dests, h₃.counters⟩ }
    rcases h₄ with hact | ⟨d, hd, hc⟩
    · rw [hfte, hrem]
      rw [hact]
      exact h.count id hid
    · obtain ⟨k, hkm, hkc⟩ := Requested.hasCounter hid
      rw [(hk' d hd hc).2 k hkm] at hkc
      simp at hkc

theorem DestInv.del (h : DestInv s []) {k : Handle} (hk : k ∈ s.handles)
    (hok : Run.Steps FteState.delRule DropKeepsDests
      { s with handles := s.handles.erase k } k.rules.reverse) : DestInv (s.del k) [] := by
  have hgo : ∀ (l : List RuleId) (t : FteState), DestInv t l →
      Run.Steps FteState.delRule DropKeepsDests t l → DestInv (l.foldl FteState.delRule t) [] := by
    intro l
    induction l with
    | nil => exact fun t ht _ => ht
    | cons r l ih => exact fun t ht hs => ih _ (ht.delRule hs.1) hs.2
  refine hgo _ _ { h.toInv.pend_handle hk with
    sized := h.sized
    serves := fun k' hk' => h.serves k' (mem_of_mem_erase hk')
    forwards := h.forwards
    count := fun id ⟨k', hk', hid⟩ => h.count id ⟨k', mem_of_mem_erase hk', hid⟩
    synced := h.synced } hok

/-- Additions that succeed, and deletions of live handles. -/
def Succeeds (s : FteState) : FteOp → Prop
  | .add a => a.dest ≠ some [] ∧ (s.addResult a).2 ≠ none
  | .del k => k ∈ s.handles

/-- The calls that keep the destinations; a deletion runs from the last rule of
the handle to the first. -/
def KeepsDests (s : FteState) : FteOp → Prop
  | .add a => AddKeepsDests (s.getFte a.act) a
  | .del k => Run.Steps FteState.delRule DropKeepsDests
      { s with handles := s.handles.erase k } k.rules.reverse

/-- In every run of successful additions and deletions that all keep the
destinations, every state has exactly what its live handles asked for. -/
theorem dests_every_run (ops : List FteOp) (hv : Run.Steps step Succeeds init ops)
    (hok : Run.Steps step KeepsDests init ops) : ∀ s ∈ Run.states step init ops, DestsExact s := by
  have hboth := Run.steps_and.mpr ⟨hv, hok⟩
  have hstep : ∀ s op, DestInv s [] → Succeeds s op ∧ KeepsDests s op → DestInv (step s op) [] := by
    rintro s op h ⟨hv, hk⟩
    cases op with
    | add a => exact h.add hv.1 hv.2 hk
    | del k => exact h.del hv hk
  intro s hs
  exact (hboth.invariant hstep destInv_init s hs).destsExact

/-- Two handles share TIR 1, and the one with the counter goes first. -/
def sharedTirOps : List FteOp :=
  [.add (addOk (.fwdDest ||| .count) (some [.tir 1, .counter 7])),
    .add (addOk .fwdDest (some [.tir 1, .tir 2])),
    .del ⟨[0, 1], [some (.tir 1), some (.counter 7)]⟩,
    .del ⟨[0, 2], [some (.tir 1), some (.tir 2)]⟩]

theorem dests_every_run_shared_tir :
    Run.Steps step Succeeds init sharedTirOps ∧ Run.Steps step KeepsDests init sharedTirOps ∧
      ∀ s ∈ Run.states step init sharedTirOps, DestsExact s := by
  have hv : Run.Steps step Succeeds init sharedTirOps := by
    simp only [sharedTirOps, Run.steps_cons, Run.steps_nil, Succeeds]
    decide +kernel
  have hok : Run.Steps step KeepsDests init sharedTirOps := by
    simp only [sharedTirOps, Run.steps_cons, Run.steps_nil, KeepsDests]
    decide +kernel
  exact ⟨hv, hok, dests_every_run _ hv hok⟩

/-- One TIR twice in an array: the rule is not linked, and the entry goes while its handle is
live. -/
theorem dests_breaks :
    ¬∀ ops, Run.Steps step Succeeds init ops → ∀ s ∈ Run.states step init ops, DestsExact s := by
  intro hall
  let args := addOk .fwdDest (some [.tir 1, .tir 1])
  have hv : Run.Steps step Succeeds init [.add args] := by
    simp only [Run.steps_cons, Run.steps_nil, Succeeds]
    decide +kernel
  have hlast : init.step (.add args) ∈ Run.states step init [.add args] := by simp
  have hreleased := (hall _ hv _ hlast).released
  revert hreleased
  decide +kernel

end FteState

end Mlx5
