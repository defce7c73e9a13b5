-- SUMMARY: Runs of calls on the mlx4 multicast table.
import OfaKernel.Mlx4.AttachTruth

/-!
# Reports in every run

While every attach meets `AttachOk`, and promiscuous calls come when the steering entries stand
for entries in use, the table stays intact.
-/

open List

namespace Mlx4

open HashChain McgState

variable {caps : McgCaps} {s : McgState} {chain : Nat → List Nat}

/-! ## Adding a promiscuous QP -/

/-- The entry at an index is in a chain. -/
def InChains (caps : McgCaps) (chain : Nat → List Nat) (i : Nat) : Prop :=
  ∃ b < caps.numMgms, i ∈ chain b

theorem Table.write_outside (h : Table caps s chain) {i : Nat} (hi : ¬ InChains caps chain i)
    (m : Mgm) : Table caps (s.writeEntry i m) chain := by
  refine (@Table.of_linked caps s (s.writeEntry i m) chain h h.amgms (fun b hb j hj => ?_)
    fun _ => rfl).1
  rw [writeEntry_mem, if_neg]
  rintro rfl
  exact hi ⟨b, hb, hj⟩

/-- An entry in use, with its key and members. -/
theorem Table.stored_of_count (h : Table caps s chain) {i : Nat} (hi : InChains caps chain i)
    (hne : (s.mem i).count ≠ 0) :
    StoredAt caps s chain i ((s.mem i).gid, (s.mem i).prot) (s.mem i).members := by
  obtain ⟨b, hb, hmem⟩ := hi
  refine h.chains.at_hash hb hmem (Mgm.content_eq_some.mpr ⟨fun hnil => hne ?_, rfl, rfl, rfl⟩)
  rw [← Mgm.length_members, hnil]
  rfl

theorem Table.push_member (h : Table caps s chain) {i q : Nat} (hq : q < 2 ^ 24)
    (hne : InChains caps chain i → (s.mem i).count ≠ 0)
    (hroom : (s.mem i).count ≠ caps.numQpPerMgm) (hnot : q ∉ (s.mem i).members) :
    Table caps (s.writeEntry i ((s.mem i).push (q &&& mgmQpnMask) (s.mem i).prot)) chain := by
  by_cases hi : InChains caps chain i
  · have hstored := h.stored_of_count hi (hne hi)
    have hle := caps.qp_le
    have hcnt := h.count_lt hstored
    have hlt : (s.mem i).count + 1 < 2 ^ 24 := by omega
    have hpush : ((s.mem i).push (q &&& mgmQpnMask) (s.mem i).prot).content =
        some (((s.mem i).gid, (s.mem i).prot), (s.mem i).members ++ [q]) := by
      refine Mgm.content_eq_some.mpr ⟨by simp, rfl, Mgm.prot_push hlt, ?_⟩
      rw [Mgm.members_push hlt, and_mgmQpnMask hq]
    have hcontent : (s.mem i).content =
        some (((s.mem i).gid, (s.mem i).prot), (s.mem i).members) := hstored.2
    refine (@Table.of_members caps s chain h
      (s.writeEntry i ((s.mem i).push (q &&& mgmQpnMask) (s.mem i).prot)).mem
      (fun j l => if j = i then l ++ [q] else l) (fun j => ?_) (fun j => ?_) fun j k l hj => ?_).1
    · rw [writeEntry_mem]
      split
      next hj => rw [hj]; rfl
      next => rfl
    · rw [writeEntry_mem]
      by_cases hj : j = i
      · subst hj
        simp [hpush, hcontent]
      · simp [hj]
    · obtain ⟨hlen, hnodup⟩ := h.members j k l hj
      by_cases hji : j = i
      · subst hji
        rw [if_pos rfl]
        have hl := hj.members_eq
        rw [← hl] at hlen hnodup ⊢
        refine ⟨?_, nodup_append.mpr ⟨hnodup, nodup_singleton _, ?_⟩⟩
        · rw [length_append, Mgm.length_members, length_singleton]
          omega
        · rintro a ha b hb rfl
          exact hnot ((mem_singleton.mp hb) ▸ ha)
      · rw [if_neg hji]
        exact ⟨hlen, hnodup⟩
  · exact h.write_outside hi _

/-- The loop over the steering entries keeps the table when those in a chain are in use. -/
theorem addToEntries_table {q : Nat} (hq : q < 2 ^ 24) {es : List SteerIndex} {mem : Nat → Mgm}
    (h : Table caps { s with mem := mem } chain)
    (hes : ∀ e ∈ es, InChains caps chain e.index → (mem e.index).count ≠ 0) :
    Table caps { s with mem := (addToEntries caps q mem es).1 } chain := by
  induction es generalizing mem with
  | nil => exact h
  | cons e es ih =>
    have hrest : ∀ e' ∈ es, InChains caps chain e'.index → (mem e'.index).count ≠ 0 :=
      fun e' he' => hes e' (mem_cons_of_mem _ he')
    unfold addToEntries
    dsimp only
    split
    next => exact ih h hrest
    next hhits =>
      split
      next => exact h
      next hroom =>
        have hnot : q ∉ (mem e.index).members := by
          intro hm
          apply hhits
          intro hnil
          have := filter_eq_nil_iff.mp hnil q hm
          simp at this
        have hpush := h.push_member hq (hes e mem_cons_self) hroom hnot
        refine ih hpush fun e' he' hin => ?_
        by_cases hidx : e'.index = e.index
        · -- the entry has one member more
          rw [hidx] at hin ⊢
          have hcnt := h.count_lt (h.stored_of_count hin (hes e mem_cons_self hin))
          have hle := caps.qp_le
          rw [Function.update_self]
          rw [show Mgm.count (Mgm.push _ _ _) = (mem e.index).count + 1 from
            Mgm.packCount_and (by change (mem e.index).count ≤ _ at hcnt; omega)]
          exact Nat.succ_ne_zero _
        · rw [Function.update_of_ne hidx]
          exact hrest e' he' hin

/-- What an addition should find: the steering entries are of entries in use. -/
def AddOk (s : McgState) (port : Nat) (st : SteerType) : Prop :=
  ∀ e ∈ (s.steer port st).steerEntries, (s.mem e.index).count ≠ 0

instance (s : McgState) (port : Nat) (st : SteerType) : Decidable (AddOk s port st) :=
  inferInstanceAs (Decidable (∀ e ∈ (s.steer port st).steerEntries, _))

theorem setSteer_steer (s : McgState) (port : Nat) (st : SteerType) (t : Steer) (port' : Nat)
    (st' : SteerType) :
    (s.setSteer port st t).steer port' st' =
      if port' = port ∧ st' = st then t else s.steer port' st' := by
  unfold McgState.setSteer
  by_cases hport : port' = port
  · subst hport
    by_cases hst : st' = st
    · subst hst
      simp
    · simp [hst]
  · simp [hport]

/-- Lists of promiscuous QPs after a change for one port and steering type. -/
theorem promiscLists_setSteer (hp : ∀ port st, PromiscList (s.steer port st)) {port : Nat}
    {st : SteerType} {t : Steer} (ht : PromiscList t) (port' : Nat) (st' : SteerType) :
    PromiscList ((s.setSteer port st t).steer port' st') := by
  rw [setSteer_steer]
  split
  next => exact ht
  next => exact hp port' st'

theorem addPromiscQp_table (h : Table caps s chain) (hp : ∀ port st, PromiscList (s.steer port st))
    {port q : Nat} {st : SteerType} (hq : q < 2 ^ 24) (hok : AddOk s port st) :
    Table caps (addPromiscQp caps s port st q).1 chain ∧
      ∀ port' st', PromiscList ((addPromiscQp caps s port st q).1.steer port' st') := by
  have hlist := hp port st
  unfold addPromiscQp
  split
  next => exact ⟨h, hp⟩
  next =>
    split
    next => exact ⟨h, hp⟩
    next hnot =>
      -- the entries after the loop, which a multi-function device skips for unicast
      have hloop : Table caps { s with
          mem := (if caps.mfunc ∧ st = .uc then (s.mem, (s.steer port st).steerEntries, none)
            else addToEntries caps q s.mem (s.steer port st).steerEntries).1 } chain := by
        split
        next => exact h
        next => exact addToEntries_table hq h fun e he _ => hok e he
      dsimp only
      generalize (if caps.mfunc ∧ st = .uc then (s.mem, (s.steer port st).steerEntries, none)
        else addToEntries caps q s.mem (s.steer port st).steerEntries) = r at hloop ⊢
      obtain ⟨mem, es, err⟩ := r
      have hsame : PromiscList ((s.steer port st).withEntries es) := ⟨hlist.nodup, hlist.lt⟩
      cases err with
      | some err =>
        exact ⟨hloop.setSteer port st _, promiscLists_setSteer (by exact hp) hsame⟩
      | none =>
        dsimp only
        split
        next =>
          exact ⟨hloop.setSteer port st _, promiscLists_setSteer (by exact hp) hsame⟩
        next =>
          refine ⟨hloop.setSteer port st _, promiscLists_setSteer (by exact hp) ⟨?_, ?_⟩⟩
          · have hnew : q ∉ (s.steer port st).promiscQps := fun hm => hnot (isPromisc_iff.mpr hm)
            refine nodup_append.mpr ⟨hlist.nodup, nodup_singleton q, ?_⟩
            rintro a ha b hb rfl
            exact hnew ((mem_singleton.mp hb) ▸ ha)
          · intro x hx
            rcases mem_append.mp hx with hx | hx
            · exact hlist.lt x hx
            · rw [mem_singleton.mp hx]
              exact hq

/-- What a removal should find: an Ethernet entry that keeps a member. -/
def RemoveOk (s : McgState) (port : Nat) (st : SteerType) (q : Nat) : Prop :=
  ∀ e ∈ (s.steer port st).steerEntries, q ∉ e.duplicates → q ∈ (s.mem e.index).members →
    1 < (s.mem e.index).count ∧ (s.mem e.index).prot = Protocol.eth.val

instance (s : McgState) (port : Nat) (st : SteerType) (q : Nat) : Decidable
    (RemoveOk s port st q) :=
  inferInstanceAs (Decidable (∀ e ∈ (s.steer port st).steerEntries, _))

theorem Table.pop_member (h : Table caps s chain) {i q loc : Nat}
    (hok : InChains caps chain i → 1 < (s.mem i).count ∧ (s.mem i).prot = Protocol.eth.val)
    (hloc : (s.mem i).findQp q = some loc) :
    Table caps (s.writeEntry i ((s.mem i).pop loc Protocol.eth.val)) chain ∧
      (InChains caps chain i → q ∉ ((s.mem i).pop loc Protocol.eth.val).members) := by
  by_cases hi : InChains caps chain i
  · obtain ⟨hcount, hprot⟩ := hok hi
    have hstored := h.stored_of_count hi (by omega)
    have hle := caps.qp_le
    have hcnt := h.count_lt hstored
    have hlt : (s.mem i).count < 2 ^ 24 := by omega
    obtain ⟨-, hnodup⟩ := h.members i _ _ hstored
    rw [hprot] at hstored
    have hs := store_pop h hstored hloc (by rw [Mgm.count_pop hlt]; omega)
    refine ⟨hs.table, fun _ hm => ?_⟩
    exact ((Mgm.mem_members_pop hlt hnodup hloc).2 q |>.mp hm).2 rfl
  · exact ⟨h.write_outside hi _, fun hin => absurd hin hi⟩

theorem removeFromEntries_table {q : Nat} {es : List SteerIndex} {mem : Nat → Mgm}
    (h : Table caps { s with mem := mem } chain)
    (hes : ∀ e ∈ es, InChains caps chain e.index → q ∉ e.duplicates → q ∈ (mem e.index).members →
      1 < (mem e.index).count ∧ (mem e.index).prot = Protocol.eth.val) :
    Table caps { s with mem := (removeFromEntries q mem es).1 } chain := by
  induction es generalizing mem with
  | nil => exact h
  | cons e es ih =>
    have hrest := fun e' (he' : e' ∈ es) => hes e' (mem_cons_of_mem _ he')
    unfold removeFromEntries
    dsimp only
    split
    next => exact ih h hrest
    next hdup =>
      split
      next => exact ih h hrest
      next =>
        cases hloc : (mem e.index).findQp q with
        | none => exact h
        | some loc =>
          have hm : q ∈ (mem e.index).members :=
            Mgm.findQp_isSome.mp (by rw [hloc]; rfl)
          obtain ⟨hpop, hgone⟩ := h.pop_member
            (fun hin => hes e mem_cons_self hin (by simpa using hdup) hm) hloc
          refine ih hpop fun e' he' hin hd hm' => ?_
          by_cases hidx : e'.index = e.index
          · -- the QP has left this entry
            rw [hidx] at hin hm'
            rw [Function.update_self] at hm'
            exact absurd hm' (hgone hin)
          · rw [Function.update_of_ne hidx] at hm' ⊢
            exact hrest e' he' hin hd hm'

theorem removePromiscQp_table (h : Table caps s chain)
    (hp : ∀ port st, PromiscList (s.steer port st)) {port q : Nat} {st : SteerType}
    (hok : RemoveOk s port st q) :
    Table caps (removePromiscQp caps s port st q).1 chain ∧
      ∀ port' st', PromiscList ((removePromiscQp caps s port st q).1.steer port' st') := by
  have hlist := hp port st
  unfold removePromiscQp
  split
  next => exact ⟨h, hp⟩
  next =>
    split
    next => exact ⟨h, hp⟩
    next =>
      have hloop : Table caps { s with
          mem := (if caps.mfunc ∧ st = .uc then (s.mem, (s.steer port st).steerEntries, none)
            else removeFromEntries q s.mem (s.steer port st).steerEntries).1 } chain := by
        split
        next => exact h
        next => exact removeFromEntries_table h fun e he _ => hok e he
      refine ⟨hloop.setSteer port st _, promiscLists_setSteer (by exact hp) ⟨?_, ?_⟩⟩
      · exact hlist.nodup.erase q
      · exact fun x hx => hlist.lt x (mem_of_mem_erase hx)

/-! ## Runs -/

inductive TableCall where
  | attach (env : AttachEnv) (qpn : Fin (2 ^ 24)) (gid : Gid) (blockMcastLoopback : Bool)
      (prot : Protocol) (steer : SteerType)
  | detach (mailboxes : Bool) (qpn : Fin (2 ^ 24)) (gid : Gid) (prot : Protocol) (steer : SteerType)
  | addPromisc (port : Nat) (steer : SteerType) (qpn : Fin (2 ^ 24))
  | removePromisc (port : Nat) (steer : SteerType) (qpn : Fin (2 ^ 24))

def tableStep (caps : McgCaps) (s : McgState) : TableCall → McgState
  | .attach env qpn gid block prot steer => (attachWith caps env s qpn gid block prot steer).1
  | .detach mailboxes qpn gid prot steer => (qpDetachCommon caps s mailboxes qpn gid prot steer).1
  | .addPromisc port steer qpn => (addPromiscQp caps s port steer qpn).1
  | .removePromisc port steer qpn => (removePromiscQp caps s port steer qpn).1

/-- The condition on a call. -/
def CallOk (caps : McgCaps) (s : McgState) : TableCall → Prop
  | .attach env qpn gid block prot steer => AttachOk caps env s qpn gid block prot steer
  | .detach _ _ _ _ _ => True
  | .addPromisc port steer _ => AddOk s port steer
  | .removePromisc port steer qpn => RemoveOk s port steer qpn

instance (caps : McgCaps) (s : McgState) : ∀ call, Decidable (CallOk caps s call)
  | .attach env qpn gid block prot steer =>
    inferInstanceAs (Decidable (AttachOk caps env s qpn gid block prot steer))
  | .detach _ _ _ _ _ => .isTrue trivial
  | .addPromisc port steer _ => inferInstanceAs (Decidable (AddOk s port steer))
  | .removePromisc port steer qpn => inferInstanceAs (Decidable (RemoveOk s port steer qpn))

/-- What the calls keep. -/
structure TableOk (caps : McgCaps) (s : McgState) : Prop where
  table : ∃ chain, Table caps s chain
  promisc : ∀ port st, PromiscList (s.steer port st)

/-- The table after `mlx4_init_mcg_table`, with no steering entries. -/
def McgState.start (caps : McgCaps) (bitmap : BitmapAllocator) (amgm : Nat → Mgm) : McgState :=
  (McgRun.start caps bitmap amgm fun _ _ => ⟨[], [], Mgm.zero⟩).table

theorem start_tableOk {bitmap : BitmapAllocator} (hb : initMcgTable caps true = some bitmap)
    (amgm : Nat → Mgm) : TableOk caps (.start caps bitmap amgm) :=
  ⟨⟨_, (start_mcgInv hb amgm _).table⟩, fun _ _ => ⟨nodup_nil, nofun⟩⟩

theorem TableOk.step (h : TableOk caps s) {call : TableCall} (hok : CallOk caps s call) :
    TableOk caps (tableStep caps s call) := by
  obtain ⟨⟨chain, ht⟩, hp⟩ := h
  cases call with
  | attach env qpn gid block prot steer =>
    have hr := attach_reported ht hp env qpn.isLt gid block prot steer
    refine ⟨hr.table hok, fun port st => ⟨?_, fun q hq => ?_⟩⟩
    · change ((attachWith caps env s qpn gid block prot steer).1.steer port st).promiscQps.Nodup
      rw [hr.promisc]
      exact (hp port st).nodup
    · change q ∈ ((attachWith caps env s qpn gid block prot steer).1.steer port st).promiscQps at hq
      rw [hr.promisc] at hq
      exact (hp port st).lt q hq
  | detach mailboxes qpn gid prot steer =>
    obtain ⟨htable, hpromisc⟩ := detach_table ht mailboxes qpn gid prot steer
    refine ⟨htable, fun port st => ⟨?_, fun q hq => ?_⟩⟩
    · change ((qpDetachCommon caps s mailboxes qpn gid prot steer).1.steer port st).promiscQps.Nodup
      rw [hpromisc]
      exact (hp port st).nodup
    · change q ∈ ((qpDetachCommon caps s mailboxes qpn gid prot steer).1.steer port
        st).promiscQps at hq
      rw [hpromisc] at hq
      exact (hp port st).lt q hq
  | addPromisc port steer qpn =>
    obtain ⟨htable, hlists⟩ := addPromiscQp_table ht hp qpn.isLt hok
    exact ⟨⟨chain, htable⟩, hlists⟩
  | removePromisc port steer qpn =>
    obtain ⟨htable, hlists⟩ := removePromiscQp_table ht hp hok
    exact ⟨⟨chain, htable⟩, hlists⟩

/-- In every state of every run whose calls meet the condition, an attach reports the truth
exactly if it meets `AttachOk`. -/
theorem attach_truthful_iff (caps : McgCaps) {bitmap : BitmapAllocator} (amgm : Nat → Mgm)
    (hb : initMcgTable caps true = some bitmap) {calls : List TableCall}
    (hcalls : Run.Steps (tableStep caps) (CallOk caps) (.start caps bitmap amgm) calls)
    (env : AttachEnv) (qpn : Fin (2 ^ 24)) (gid : Gid) (block : Bool) (prot : Protocol)
    (st : SteerType) :
    ∀ s ∈ Run.states (tableStep caps) (.start caps bitmap amgm) calls,
      Truthful caps s qpn gid prot (attachWith caps env s qpn gid block prot st) ↔
        AttachOk caps env s qpn gid block prot st := by
  intro s hs
  have hinv : TableOk caps s :=
    hcalls.invariant (fun _ _ h hok => h.step hok) (start_tableOk hb amgm) s hs
  obtain ⟨⟨chain, ht⟩, hp⟩ := hinv
  exact (attach_reported ht hp env qpn.isLt gid block prot st).truthful

/-- Every command and every allocation succeeds. -/
def AttachEnv.allSucceed : AttachEnv where
  mailbox := true
  hashMailbox := true
  gidHash := none
  findRead _ := none
  writeMember := none
  readPrev := none
  writePrev := none
  newEntry := true
  duplicate := true
  steerMailbox := true
  steerRead := none
  steerWrite := none

attribute [local instance] neZero_qpns

/-- A QP joins, one that is in no entry becomes promiscuous and stops, and the first one leaves. -/
def truthfulCalls : List TableCall :=
  [.attach .allSucceed 7 portGid false .eth .mc, .addPromisc 1 .mc 8, .removePromisc 1 .mc 8,
    .detach true 7 portGid .eth .mc]

theorem attach_truthful_calls :
    Run.Steps (tableStep oneBucket) (CallOk oneBucket)
      (.start oneBucket oneBucketBitmap fun _ => Mgm.zero)
      truthfulCalls ∧
    ∀ s ∈ Run.states (tableStep oneBucket) (.start oneBucket oneBucketBitmap fun _ => Mgm.zero)
      truthfulCalls,
      Truthful oneBucket s 9 portGid .eth
          (attachWith oneBucket .allSucceed s 9 portGid false .eth .mc) ↔
        AttachOk oneBucket .allSucceed s 9 portGid false .eth .mc := by
  have hcalls : Run.Steps (tableStep oneBucket) (CallOk oneBucket)
      (.start oneBucket oneBucketBitmap fun _ => Mgm.zero) truthfulCalls := by decide +kernel
  exact ⟨hcalls, attach_truthful_iff oneBucket _ oneBucket_init hcalls _ 9 portGid false .eth .mc⟩

def AttachEnv.writeFails : AttachEnv := { AttachEnv.allSucceed with writeMember := some 1 }

def AttachEnv.noSteeringEntry : AttachEnv := { AttachEnv.allSucceed with newEntry := false }

/-- On the empty table an attach returns 0 although its write has failed, and another returns an
error although the QP is a member. -/
theorem attach_untruthful :
    (¬ Truthful oneBucket (.start oneBucket oneBucketBitmap fun _ => Mgm.zero) 7 portGid .eth
      (attachWith oneBucket .writeFails
        (.start oneBucket oneBucketBitmap fun _ => Mgm.zero) 7 portGid
        false .eth .mc)) ∧
    ¬ Truthful oneBucket (.start oneBucket oneBucketBitmap fun _ => Mgm.zero) 7 portGid .eth
      (attachWith oneBucket .noSteeringEntry (.start oneBucket oneBucketBitmap fun _ => Mgm.zero) 7
        portGid false .eth .mc) := by
  constructor
  · intro h
    have hnot : 7 ∉ foundMembers oneBucket (attachWith oneBucket .writeFails
        (.start oneBucket oneBucketBitmap fun _ => Mgm.zero) 7 portGid false .eth .mc).1
          portGid .eth := by
      decide +kernel
    exact hnot h
  · intro h
    have hnew : 7 ∈ foundMembers oneBucket (attachWith oneBucket .noSteeringEntry
        (.start oneBucket oneBucketBitmap fun _ => Mgm.zero) 7 portGid false .eth .mc).1
          portGid .eth := by
      decide +kernel
    have hold : 7 ∉ foundMembers oneBucket (.start oneBucket oneBucketBitmap fun _ => Mgm.zero)
        portGid .eth := by decide +kernel
    exact hold ((h.members portGid .eth 7).mp hnew)

end Mlx4
