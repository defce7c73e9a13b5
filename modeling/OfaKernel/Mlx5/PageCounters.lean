-- SUMMARY: The per-function page counters of mlx5.
import OfaKernel.Mlx5.PagePool

/-!
# Page counters

`vfs_pages` and `peer_pf_pages` count the chunks that firmware holds for other functions. A
reclaim adjusts them by the function of the request.
-/

open List

namespace Mlx5

/-! ## What the counters should be -/

/-- The counter that a function's chunks belong to. -/
inductive PageCounter where
  | vfs
  | peerPf
  | none
  deriving Repr, DecidableEq

def pageCounter (isEcpf : Bool) (funcId : Nat) (ecFunction : Bool) : PageCounter :=
  if funcId ≠ 0 then .vfs
  else if isEcpf = true ∧ ecFunction = false then .peerPf
  else .none

theorem pageCounter_eq_peerPf {isEcpf ecFunction : Bool} {funcId : Nat} :
    pageCounter isEcpf funcId ecFunction = .peerPf ↔
      isEcpf = true ∧ funcId = 0 ∧ ecFunction = false := by
  unfold pageCounter
  split
  next h => simp [h]
  next h =>
    split
    next h' => simp [h', not_not.mp h]
    next h' => simpa [not_not.mp h] using h'

namespace Given

def isVf (o : Given) : Bool := o.funcId ≠ 0

def isPeerPf (o : Given) : Bool := o.funcId = 0 ∧ o.ecFunction = false

end Given

/-- The counters say how many chunks firmware holds for the functions. -/
structure PageSys.Counted (isEcpf : Bool) (s : PageSys) : Prop where
  vfsPages : s.pool.vfsPages = s.given.countP Given.isVf
  peerPfPages : isEcpf = true → s.pool.peerPfPages = s.given.countP Given.isPeerPf

section

variable (g : PageGeometry)

/-- Counts are `int`s for which the buffers have room, and outside the internal-error state firmware
returns only chunks of the function it is asked for, or entries that lie in no chunk. -/
def PageSys.Possible (s : PageSys) (op : PageOp) : Prop :=
  s.Fits op ∧
    match op with
    | .reclaim funcId npages ecFunction env =>
      npages < 2 ^ 31 ∧ (s.pool.internalError = false →
        env.reply.outputNumEntries < 2 ^ 31 ∧
        ∀ addr ∈ env.reply.listed, ∀ o ∈ s.given, o.addr = chunkOf addr →
          o.funcId = funcId ∧ o.ecFunction = ecFunction)
    | _ => True

/-- A reply of normal operation for the peer function has no entry that `free_4k` rejects. In the
internal-error state the chunks picked were given for functions of the same counter as that of the
request. -/
def PageSys.Keeps (isEcpf : Bool) (s : PageSys) : PageOp → Prop
  | .reclaim funcId npages ecFunction env =>
    let out := reclaimPagesCmd g s.pool funcId npages env.reply
    Accepts npages env out →
      if s.pool.internalError then
        ∀ o ∈ s.given, o.addr ∈ out.listed →
          pageCounter isEcpf o.funcId o.ecFunction = pageCounter isEcpf funcId ecFunction
      else
        pageCounter isEcpf funcId ecFunction = .peerPf →
          (out.listed.map chunkOf).Nodup ∧
            ∀ addr ∈ out.listed, chunkOf addr ∈ s.given.map Given.addr
  | _ => True

end

variable {own : List Given}

theorem countP_filter_add {p q : Given → Bool} :
    (own.filter fun o => !q o).countP p + (own.filter q).countP p = own.countP p := by
  induction own with
  | nil => rfl
  | cons o own ih =>
    cases hq : q o <;> cases hp : p o <;> simp [hq, hp] at ih ⊢ <;> omega

/-- Chunks of one function are all counted, or none is. -/
theorem countP_of_func {funcId : Nat} {ecFunction : Bool}
    (h : ∀ o ∈ own, o.funcId = funcId ∧ o.ecFunction = ecFunction) :
    own.countP Given.isVf = (if funcId ≠ 0 then own.length else 0) ∧
      own.countP Given.isPeerPf =
        if funcId = 0 ∧ ecFunction = false then own.length else 0 := by
  induction own with
  | nil => simp
  | cons o own ih =>
    obtain ⟨⟨hf, hec⟩, hown⟩ := forall_mem_cons.mp h
    obtain ⟨ih₁, ih₂⟩ := ih hown
    rw [countP_cons, countP_cons, ih₁, ih₂]
    subst hf hec
    constructor
    · by_cases h0 : o.funcId = 0 <;> simp [Given.isVf, h0]
    · by_cases h0 : o.funcId = 0 ∧ o.ecFunction = false <;> simp [Given.isPeerPf, h0]

/-- The number of different chunks of `own` that a list names, against its length. -/
theorem length_filter_eq_iff (hown : (own.map Given.addr).Nodup) (chunks : List Nat) :
    (own.filter fun o => o.addr ∈ chunks).length = chunks.length ↔
      chunks.Nodup ∧ ∀ c ∈ chunks, c ∈ own.map Given.addr := by
  have hmap : (own.filter fun o => o.addr ∈ chunks).map Given.addr =
      (own.map Given.addr).filter fun a => a ∈ chunks := by
    rw [filter_map]
    rfl
  have hnodup : ((own.map Given.addr).filter fun a => a ∈ chunks).Nodup := hown.filter _
  have hsub : (own.map Given.addr).filter (fun a => a ∈ chunks) ⊆ chunks := by
    intro a ha
    simpa using (mem_filter.mp ha).2
  rw [← length_map (f := Given.addr), hmap]
  constructor
  · intro hlen
    have hperm := (subperm_of_subset hnodup hsub).perm_of_length_le hlen.ge
    refine ⟨hperm.nodup_iff.mp hnodup, fun c hc => ?_⟩
    exact (mem_filter.mp (hperm.mem_iff.mpr hc)).1
  · rintro ⟨hchunks, hmem⟩
    apply List.Perm.length_eq
    apply (perm_ext_iff_of_nodup hnodup hchunks).mpr
    intro a
    rw [mem_filter]
    constructor
    · simp
    · intro h
      exact ⟨hmem a h, by simpa using h⟩

theorem ReclaimReply.numClaimed_of_lt {out : ReclaimReply} (h : out.outputNumEntries < 2 ^ 31) :
    out.numClaimed = out.outputNumEntries := by
  exact I32.wrap_of_range (by omega) (by omega)

theorem ReclaimReply.length_listed (out : ReclaimReply) :
    out.listed.length = out.numClaimed.toNat := by
  unfold listed
  rw [length_map, length_range]

section

variable {g : PageGeometry} {s : PagePool} {funcId : Nat}

theorem length_pickPages (n : Nat) (keys : List Nat) :
    (pickPages g s funcId n keys).length ≤ n := by
  fun_induction pickPages g s funcId n keys with
  | case1 => simp
  | case2 => simp
  | case3 n fwp keys hfunc ih => exact ih
  | case4 n fwp keys hfunc j hj ih => exact ih
  | case5 n fwp keys hfunc j hj ih => simpa using ih

/-- The chunks that are picked are outstanding, one of each page. -/
theorem pickPages_spec (hi : s.Inv g) (funcId n : Nat) {keys : List Nat} (hk : keys.Nodup)
    (hmem : ∀ k ∈ keys, k ∈ s.pageRoot.toList) :
    (pickPages g s funcId n keys).Nodup ∧
      ∀ c ∈ pickPages g s funcId n keys, s.Outstanding g c ∧ g.pageOf c ∈ keys := by
  fun_induction pickPages g s funcId n keys with
  | case1 => simp
  | case2 => simp
  | case3 n fwp keys hfunc ih =>
    obtain ⟨hnodup, hout⟩ := ih (nodup_cons.mp hk).2 (forall_mem_cons.mp hmem).2
    exact ⟨hnodup, fun c hc => ⟨(hout c hc).1, mem_cons_of_mem _ (hout c hc).2⟩⟩
  | case4 n fwp keys hfunc j hj ih =>
    obtain ⟨hnodup, hout⟩ := ih (nodup_cons.mp hk).2 (forall_mem_cons.mp hmem).2
    exact ⟨hnodup, fun c hc => ⟨(hout c hc).1, mem_cons_of_mem _ (hout c hc).2⟩⟩
  | case5 n fwp keys hfunc j hj ih =>
    obtain ⟨hfresh, hk'⟩ := nodup_cons.mp hk
    obtain ⟨hfwp, hmem'⟩ := forall_mem_cons.mp hmem
    obtain ⟨hnodup, hout⟩ := ih hk' hmem'
    have hj' : j < g.num4kInPage := Nat.not_le.mp hj
    obtain ⟨hpage, hindex⟩ := hi.coords hfwp hj'
    have hbit : (s.page fwp).bitmask j = false := (Bitmap.findNextZeroBit_spec hj').2
    have hself : s.Outstanding g (fwp + j * adapterPageSize) :=
      ⟨hi.dvd hfwp, by rw [hpage]; exact hfwp, by rw [hpage, hindex]; exact hbit⟩
    refine ⟨nodup_cons.mpr ⟨fun hc => hfresh ?_, hnodup⟩, forall_mem_cons.mpr ⟨?_, ?_⟩⟩
    · have := (hout _ hc).2
      rwa [hpage] at this
    · exact ⟨hself, by rw [hpage]; exact mem_cons_self⟩
    · exact fun c hc => ⟨(hout c hc).1, mem_cons_of_mem _ (hout c hc).2⟩

/-- In the internal-error state the reply lists the picked chunks. -/
theorem reclaimPagesCmd_of_error (g : PageGeometry) (funcId : Nat) {npages : Nat}
    (reply : ReclaimReply) (he : s.internalError = true) (hn : npages < 2 ^ 31) :
    (reclaimPagesCmd g s funcId npages reply).numClaimed =
        (pickPages g s funcId npages s.pageRoot.toList).length ∧
      (reclaimPagesCmd g s funcId npages reply).listed =
        pickPages g s funcId npages s.pageRoot.toList := by
  have hle : (pickPages g s funcId npages s.pageRoot.toList).length ≤ npages :=
    length_pickPages npages s.pageRoot.toList
  generalize hp : pickPages g s funcId npages s.pageRoot.toList = picked at hle
  have hcmd : reclaimPagesCmd g s funcId npages reply =
      ⟨0, picked.length, fun i => picked.getD i 0⟩ := by
    simp [reclaimPagesCmd, he, hp]
  rw [hcmd]
  have hnum : ReclaimReply.numClaimed ⟨0, picked.length, fun i => picked.getD i 0⟩ =
      picked.length := ReclaimReply.numClaimed_of_lt (hle.trans_lt hn)
  refine ⟨hnum, ?_⟩
  unfold ReclaimReply.listed
  rw [hnum]
  apply ext_getElem
  · simp
  · intro i h₁ h₂
    simp [List.getElem?_eq_getElem h₂]

theorem reclaimPagesCmd_of_normal {npages : Nat} {reply : ReclaimReply}
    (he : s.internalError = false) : reclaimPagesCmd g s funcId npages reply = reply := by
  simp [reclaimPagesCmd, he]

end

/-! ## Steps -/

section

variable {rb : SearchTree.Rebalance Nat} {g : PageGeometry} {isEcpf : Bool} {s : PageSys}

theorem PageSys.Counted.init : (PageSys.init).Counted isEcpf := ⟨rfl, fun _ => rfl⟩

theorem PageSys.Counted.give (hc : s.Counted isEcpf) (hi : s.Inv g) (funcId : Nat) {npages : Int}
    (hfits : LenFits npages) (ecFunction : Bool) (env : GiveEnv) :
    (PageSys.step rb g isEcpf s (.give funcId npages ecFunction env)).Counted isEcpf := by
  simp only [PageSys.step]
  generalize hr : givePages rb g isEcpf s.pool funcId npages ecFunction env = r
  obtain ⟨-, ⟨-, hgiven, -, hsame, -⟩ | ⟨-, hlen, t, ht, hpool⟩⟩ := givePages_spec hfits hi.pool hr
  · rw [hgiven]
    exact ⟨hsame.vfsPages.trans hc.vfsPages, fun he => hsame.peerPfPages.trans (hc.peerPfPages he)⟩
  · rw [hpool]
    have hsame := ht.same
    have hfunc : ∀ o ∈ r.given.map fun a => (⟨a, funcId, ecFunction⟩ : Given),
        o.funcId = funcId ∧ o.ecFunction = ecFunction := by simp
    obtain ⟨hvf, hpeer⟩ := countP_of_func hfunc
    rw [length_map] at hvf hpeer
    constructor
    · simp only [PagePool.addPages, countP_append, hsame.vfsPages, hc.vfsPages, hvf]
      split <;> omega
    · intro he
      simp only [PagePool.addPages, countP_append, hsame.peerPfPages, hc.peerPfPages he,
        hpeer, he, true_and]
      split <;> omega

/-- The chunks that an accepted reply takes back. -/
def PageSys.removed (s : PageSys) (listed : List Nat) : List Given :=
  s.given.filter fun o => o.addr ∈ listed.map chunkOf

variable {ecFunction : Bool} {env : ReclaimEnv}

/-- After an accepted reply the counters are right if they went down by what was
taken back of their functions. -/
theorem PageSys.Counted.reclaim_iff (hc : s.Counted isEcpf) (hi : s.Inv g) {funcId npages : Nat}
    {out : ReclaimReply} (hout : reclaimPagesCmd g s.pool funcId npages env.reply = out)
    (ha : Accepts npages env out) :
    (PageSys.step rb g isEcpf s (.reclaim funcId npages ecFunction env)).Counted isEcpf ↔
      ((s.removed out.listed).countP Given.isVf : Int) =
          (if funcId ≠ 0 then ((s.removed out.listed).length : Int) else 0) ∧
        (isEcpf = true → ((s.removed out.listed).countP Given.isPeerPf : Int) =
          if funcId = 0 ∧ ecFunction = false then out.numClaimed else 0) := by
  simp only [PageSys.step]
  generalize hr : reclaimPages rb g isEcpf s.pool funcId npages ecFunction env = r
  obtain ⟨hlisted, hlen, t, -, hsame, -, hpool⟩ :=
    reclaimPages_of_accepts hi.pool hi.owned hout ha hr
  rw [hlisted] at hlen ⊢
  have hsplit : ∀ p : Given → Bool,
      (s.given.filter fun o => o.addr ∉ out.listed.map chunkOf).countP p +
        (s.removed out.listed).countP p = s.given.countP p := by
    intro p
    have hnot : (fun o : Given => decide (o.addr ∉ out.listed.map chunkOf)) =
        fun o => !decide (o.addr ∈ out.listed.map chunkOf) := by
      funext o
      exact decide_not
    rw [hnot]
    exact countP_filter_add
  have hclaimed : r.nclaimed = (s.removed out.listed).length := by
    have hall := hsplit fun _ => true
    simp only [countP_true] at hall
    omega
  rw [hpool, hclaimed]
  have hvfs : ((t.addPages isEcpf funcId ecFunction (-((s.removed out.listed).length : Int))
      (-out.numClaimed)).vfsPages =
        (s.given.filter fun o => o.addr ∉ out.listed.map chunkOf).countP Given.isVf) ↔
      ((s.removed out.listed).countP Given.isVf : Int) =
        if funcId ≠ 0 then ((s.removed out.listed).length : Int) else 0 := by
    simp only [PagePool.addPages, hsame.vfsPages, hc.vfsPages, ← hsplit Given.isVf]
    split <;> omega
  have hpeer : isEcpf = true →
      ((t.addPages isEcpf funcId ecFunction (-((s.removed out.listed).length : Int))
        (-out.numClaimed)).peerPfPages =
          (s.given.filter fun o => o.addr ∉ out.listed.map chunkOf).countP Given.isPeerPf ↔
        ((s.removed out.listed).countP Given.isPeerPf : Int) =
          if funcId = 0 ∧ ecFunction = false then out.numClaimed else 0) := by
    intro he
    simp only [PagePool.addPages, hsame.peerPfPages, hc.peerPfPages he, ← hsplit Given.isPeerPf,
      he, true_and]
    split <;> omega
  constructor
  · intro h
    exact ⟨hvfs.mp h.vfsPages, fun he => (hpeer he).mp (h.peerPfPages he)⟩
  · intro h
    exact ⟨hvfs.mpr h.1, fun he => (hpeer he).mpr (h.2 he)⟩

theorem mem_removed {listed : List Nat} {o : Given} :
    o ∈ s.removed listed ↔ o ∈ s.given ∧ o.addr ∈ listed.map chunkOf := by
  simp [PageSys.removed]

/-- In normal operation only the counter of the peer function can go wrong. -/
theorem PageSys.Counted.reclaim_normal (hc : s.Counted isEcpf) (hi : s.Inv g) {funcId npages : Nat}
    (hp : s.Possible (.reclaim funcId npages ecFunction env)) (he : s.pool.internalError = false)
    (ha : Accepts npages env env.reply) :
    (PageSys.step rb g isEcpf s (.reclaim funcId npages ecFunction env)).Counted isEcpf ↔
      (pageCounter isEcpf funcId ecFunction = .peerPf →
        (env.reply.listed.map chunkOf).Nodup ∧
          ∀ addr ∈ env.reply.listed, chunkOf addr ∈ s.given.map Given.addr) := by
  obtain ⟨-, -, hp⟩ := hp
  obtain ⟨hnum, hheld⟩ := hp he
  have hfunc : ∀ o ∈ s.removed env.reply.listed,
      o.funcId = funcId ∧ o.ecFunction = ecFunction := by
    intro o ho
    obtain ⟨hgiven, hlisted⟩ := mem_removed.mp ho
    obtain ⟨addr, haddr, heq⟩ := mem_map.mp hlisted
    exact hheld addr haddr o hgiven heq.symm
  have hlen : (env.reply.listed.map chunkOf).length = env.reply.outputNumEntries := by
    rw [length_map, ReclaimReply.length_listed, ReclaimReply.numClaimed_of_lt hnum]
    simp
  have hexact := length_filter_eq_iff hi.owned.nodup (env.reply.listed.map chunkOf)
  rw [forall_mem_map, hlen] at hexact
  rw [hc.reclaim_iff hi (reclaimPagesCmd_of_normal he) ha,
    ReclaimReply.numClaimed_of_lt hnum, ← hexact, ← removed]
  obtain ⟨hvf, hpeer⟩ := countP_of_func hfunc
  rw [hvf, hpeer]
  rw [pageCounter_eq_peerPf]
  constructor
  · rintro ⟨-, h⟩ ⟨hecpf, hpeer⟩
    have := h hecpf
    rw [if_pos hpeer, if_pos hpeer] at this
    omega
  · intro h
    refine ⟨by split <;> simp, fun hecpf => ?_⟩
    by_cases hpeer : funcId = 0 ∧ ecFunction = false
    · rw [if_pos hpeer, if_pos hpeer, h ⟨hecpf, hpeer⟩]
    · rw [if_neg hpeer, if_neg hpeer]
      rfl

/-- All of some chunks are counted as those of the request are, exactly if the
numbers of those for the counters agree. -/
theorem forall_pageCounter_iff {own : List Given} {funcId : Nat} :
    (∀ o ∈ own, pageCounter isEcpf o.funcId o.ecFunction = pageCounter isEcpf funcId ecFunction) ↔
      own.countP Given.isVf = (if funcId ≠ 0 then own.length else 0) ∧
        (isEcpf = true → own.countP Given.isPeerPf =
          if funcId = 0 ∧ ecFunction = false then own.length else 0) := by
  by_cases hf : funcId = 0
  · cases isEcpf <;> cases ecFunction <;>
      simp [pageCounter, hf, countP_eq_zero, countP_eq_length, Given.isVf,
        Given.isPeerPf] <;>
      grind
  · simp [pageCounter, hf, countP_eq_zero, countP_eq_length, Given.isVf, Given.isPeerPf]
    grind

/-- In the internal-error state the counters stay right exactly if what is picked
belongs to the counter of the request. -/
theorem PageSys.Counted.reclaim_error (hc : s.Counted isEcpf) (hi : s.Inv g) {funcId npages : Nat}
    {out : ReclaimReply} (hn : npages < 2 ^ 31) (he : s.pool.internalError = true)
    (hout : reclaimPagesCmd g s.pool funcId npages env.reply = out) (ha : Accepts npages env out) :
    (PageSys.step rb g isEcpf s (.reclaim funcId npages ecFunction env)).Counted isEcpf ↔
      ∀ o ∈ s.given, o.addr ∈ out.listed →
        pageCounter isEcpf o.funcId o.ecFunction = pageCounter isEcpf funcId ecFunction := by
  obtain ⟨hnum, hlisted⟩ := reclaimPagesCmd_of_error g funcId env.reply he hn
  obtain ⟨hnodup, hpicked⟩ := pickPages_spec hi.pool funcId npages
    hi.pool.ordered.nodup fun _ h => h
  rw [hout] at hnum hlisted
  rw [← hlisted] at hnum hnodup hpicked
  have hchunk : out.listed.map chunkOf = out.listed :=
    (map_congr_left fun c hc => chunkOf_of_dvd (hpicked c hc).1.1).trans (map_id _)
  have hlen : (s.removed out.listed).length = out.listed.length := by
    have hexact := length_filter_eq_iff hi.owned.nodup (out.listed.map chunkOf)
    rw [hchunk] at hexact
    rw [PageSys.removed, hchunk]
    exact hexact.mpr ⟨hnodup, fun c hc => (hi.owned.out c).mpr (hpicked c hc).1⟩
  rw [hc.reclaim_iff hi hout ha, hnum, ← hlen]
  have hcast : ∀ (c : Prop) [Decidable c] (a n : Nat),
      ((a : Int) = if c then (n : Int) else 0) ↔ a = if c then n else 0 := by
    intro c _ a n
    split <;> omega
  simp only [hcast]
  rw [← forall_pageCounter_iff]
  simp [mem_removed, hchunk]

/-- One step, exactly. -/
theorem PageSys.Counted.step_iff (hc : s.Counted isEcpf) (hi : s.Inv g) {op : PageOp}
    (hp : s.Possible op) :
    (PageSys.step rb g isEcpf s op).Counted isEcpf ↔ s.Keeps g isEcpf op := by
  cases op with
  | give funcId npages ecFunction env =>
    exact iff_of_true (hc.give hi funcId hp.1 ecFunction env) trivial
  | freePagesList =>
    obtain ⟨-, hsame, -⟩ := freePagesList_spec rb hi.pool
    exact iff_of_true ⟨hsame.vfsPages.trans hc.vfsPages,
      fun he => hsame.peerPfPages.trans (hc.peerPfPages he)⟩ trivial
  | setState internalError => exact iff_of_true ⟨hc.vfsPages, hc.peerPfPages⟩ trivial
  | reclaim funcId npages ecFunction env =>
    simp only [Keeps]
    generalize hout : reclaimPagesCmd g s.pool funcId npages env.reply = out
    by_cases ha : Accepts npages env out
    case neg =>
      refine iff_of_true ?_ fun h => absurd h ha
      rw [← hout] at ha
      obtain ⟨hpool, hlisted⟩ := reclaimPages_of_not_accepts rb isEcpf ecFunction ha
      simp only [PageSys.step, hpool, hlisted]
      simpa using ⟨hc.vfsPages, hc.peerPfPages⟩
    cases he : s.pool.internalError with
    | true =>
      rw [hc.reclaim_error hi hp.2.1 he hout ha]
      simp [ha]
    | false =>
      rw [reclaimPagesCmd_of_normal he] at hout
      subst hout
      rw [hc.reclaim_normal hi hp he ha]
      simp [ha]

end

/-- In every run the counters are right in every state exactly if every reclaim
keeps them right. -/
theorem pageCounters_every_run (rb : SearchTree.Rebalance Nat) (g : PageGeometry) (isEcpf : Bool)
    (ops : List PageOp)
    (hp : Run.Steps (PageSys.step rb g isEcpf) PageSys.Possible .init ops) :
    (∀ s ∈ Run.states (PageSys.step rb g isEcpf) .init ops, s.Counted isEcpf) ↔
      Run.Steps (PageSys.step rb g isEcpf) (PageSys.Keeps g isEcpf) .init ops :=
  Run.forall_states_iff (fun _ _ hi hp => hi.step hp.1)
    (fun _ _ hi hp hc => hc.step_iff hi hp) PageSys.Inv.init PageSys.Counted.init hp

instance (npages : Nat) (env : ReclaimEnv) (out : ReclaimReply) :
    Decidable (Accepts npages env out) :=
  inferInstanceAs (Decidable (_ ∧ _ ∧ _))

instance PageSys.Possible.decidable (s : PageSys) : ∀ op, Decidable (s.Possible op)
  | .give .. => inferInstanceAs (Decidable (LenFits _ ∧ True))
  | .reclaim .. => inferInstanceAs (Decidable ((_ → LenFits _) ∧ _ ∧ (_ → _ ∧ _)))
  | .freePagesList => .isTrue ⟨trivial, trivial⟩
  | .setState _ => .isTrue ⟨trivial, trivial⟩

instance PageSys.Keeps.decidable (g : PageGeometry) (isEcpf : Bool) (s : PageSys) :
    ∀ op, Decidable (s.Keeps g isEcpf op)
  | .give .. => .isTrue trivial
  | .reclaim .. => inferInstanceAs (Decidable (_ → ite _ _ _))
  | .freePagesList => .isTrue trivial
  | .setState _ => .isTrue trivial

theorem pageCounters_round_trip :
    Run.Steps (PageSys.step (.plain Nat) pages4k true) PageSys.Possible .init roundTripOps ∧
      ∀ s ∈ Run.states (PageSys.step (.plain Nat) pages4k true) .init roundTripOps,
        s.Counted true :=
  have hp : Run.Steps (PageSys.step (.plain Nat) pages4k true) PageSys.Possible .init
      roundTripOps := by decide +kernel
  ⟨hp, (pageCounters_every_run _ _ _ _ hp).mpr (by decide +kernel)⟩

/-- A page allocated for a virtual function is given to the physical one; in the internal-error
state it is taken back from the virtual function. -/
def staleFuncOps : List PageOp :=
  [.give 3 1 false giveEnvOk, .reclaim 3 1 false (returns [4096]), .give 0 1 false giveEnvOk,
    .setState true, .reclaim 3 1 false (returns [])]

/-- The peer of an embedded CPU function returns its one page, listed twice. -/
def rejectedEntryOps : List PageOp :=
  [.give 0 1 false giveEnvOk, .reclaim 0 2 false (returns [4096, 4096])]

theorem pageCounters_break :
    (Run.Steps (PageSys.step (.plain Nat) pages4k false) PageSys.Possible .init staleFuncOps ∧
      ¬ ∀ s ∈ Run.states (PageSys.step (.plain Nat) pages4k false) .init staleFuncOps,
        s.Counted false) ∧
    (Run.Steps (PageSys.step (.plain Nat) pages4k true) PageSys.Possible .init rejectedEntryOps ∧
      ¬ ∀ s ∈ Run.states (PageSys.step (.plain Nat) pages4k true) .init rejectedEntryOps,
        s.Counted true) := by
  refine ⟨⟨by decide +kernel, fun h => ?_⟩, ⟨by decide +kernel, fun h => ?_⟩⟩
  · have hlast := h (Run.final (PageSys.step (.plain Nat) pages4k false) .init staleFuncOps)
      (by simp [staleFuncOps, Run.final])
    have hvfs := hlast.vfsPages
    revert hvfs
    decide +kernel
  · have hlast := h (Run.final (PageSys.step (.plain Nat) pages4k true) .init rejectedEntryOps)
      (by simp [rejectedEntryOps, Run.final])
    have hpeer := hlast.peerPfPages rfl
    revert hpeer
    decide +kernel

end Mlx5
