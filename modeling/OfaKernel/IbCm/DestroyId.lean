-- SUMMARY: The retest loop of `cm_destroy_id`.
import Mathlib.Data.Nat.Find
import OfaKernel.IbCm.Cm

/-!
# Destroying a cm_id

One cm_id with all that it holds: entries in the tables and the lists of the ports, its
timewait_info, the MADs it has posted. No event arrives while it is destroyed.
-/

namespace IbCm.Destroy

/-! ## The cm_id -/

/-- The entries of a `cm_timewait_info` in `remote_id_table` and `remote_qp_table`. -/
structure Timewait where
  insertedRemoteId : Bool
  insertedRemoteQp : Bool
  deriving Repr, DecidableEq

/-- `struct cm_id_private`, and where it is entered. -/
structure CmId where
  state : CmState
  lapState : LapState
  qpType : QpType
  listenSharecount : Int
  refcount : Int
  localId : Bool
  serviceNode : Bool
  sidrIdNode : Bool
  timewaitInfo : Option Timewait
  /-- The ports at which `prim_list` and `altr_list` were entered, the last of them last. -/
  lists : AvKind → List Nat
  /-- `prim_send_port_not_ready` and `altr_send_port_not_ready`. -/
  notReady : AvKind → Bool
  altPort : Bool
  /-- The posted MADs that are not completed; each has a reference. -/
  mads : Nat

/-- What the outside answers, message by message where it may change its mind. -/
structure Env where
  /-- The client data of the device, and whether it is `going_down`. -/
  cmDev : Option Bool
  goingDown : Nat → Bool
  madAgent : Bool
  createAh : Nat → Bool
  createSendMad : Nat → Bool
  postSendMad : Nat → Bool

/-- What a round of `cm_destroy_id` comes to. -/
inductive Outcome where
  | retest (s : CmId)
  /-- The listener is still shared. -/
  | shared (s : CmId)
  | freed (s : CmId)
  /-- `wait_for_completion` does not return. -/
  | waits
  /-- `NULL` was followed. -/
  | fault

/-! ## Messages and timewait -/

section

variable (env : Env)

/-- `cm_alloc_msg`, for message `k`. -/
def cmAllocMsg (k : Nat) (s : CmId) : Bool :=
  (!s.notReady .primary || (!s.notReady .alternate && s.altPort)) && env.madAgent &&
    env.createAh k &&
    env.createSendMad k

/-- `cm_alloc_msg` and `ib_post_send_mad`. -/
def sends (k : Nat) (s : CmId) : Bool := cmAllocMsg env k s && env.postSendMad k

/-- The references that a posted MAD takes. -/
def CmId.posted (s : CmId) : CmId := { s with refcount := s.refcount + 1, mads := s.mads + 1 }

/-- A message without a response, sent if that is possible. -/
def trySend (k : Nat) (s : CmId) : CmId := if sends env k s then s.posted else s

/-- `ib_cancel_mad`: the MAD completes sooner. -/
def ibCancelMad (s : CmId) : Option CmId := if env.madAgent then some s else none

def cmEnterTimewait (s : CmId) : Option CmId :=
  match env.cmDev with
  | none => some s
  | some _ => s.timewaitInfo.map fun _ => { s with state := .timewait, timewaitInfo := none }

def cmResetToIdle (s : CmId) : CmId := { s with state := .idle, timewaitInfo := none }

def ibSendCmRej (k : Nat) (s : CmId) : Option CmId :=
  match s.state with
  | .reqSent | .mraReqRcvd | .reqRcvd | .mraReqSent | .repRcvd | .mraRepSent =>
    some (trySend env k (cmResetToIdle s))
  | .repSent | .mraRepRcvd => (cmEnterTimewait env s).map (trySend env k)
  | _ => some s

def ibSendCmDreq (k : Nat) (s : CmId) : Option CmId :=
  if s.state ≠ .established then some s
  else
    (if s.lapState = .sent ∨ s.lapState = .mraRcvd then ibCancelMad env s else some s).bind fun s =>
      if sends env k s then some { s.posted with state := .dreqSent } else cmEnterTimewait env s

def ibSendCmDrep (k : Nat) (s : CmId) : Option CmId :=
  if s.state ≠ .dreqRcvd then some s else (cmEnterTimewait env s).map (trySend env k)

def ibSendCmSidrRep (k : Nat) (s : CmId) : CmId :=
  if s.state = .sidrReqRcvd ∧
    sends env k s then { s.posted with state := .idle, sidrIdNode := false } else s

/-- `list_del` takes the entry out of the list it was entered in last. -/
def CmId.listDel (s : CmId) (kind : AvKind) : List Nat :=
  if s.notReady kind then s.lists kind else (s.lists kind).dropLast

/-- The end of `cm_destroy_id`. The MADs complete before `wait_for_completion` returns. -/
def finish (s : CmId) : Outcome :=
  let s : CmId := { s with lists := s.listDel, localId := false, refcount := s.refcount - 1 }
  let s : CmId := { s with refcount := s.refcount - s.mads, mads := 0 }
  if s.refcount = 0 then .freed s else .waits

/-- A step that may follow `NULL`, and then the end. -/
def finishWith : Option CmId → Outcome
  | none => .fault
  | some s => finish s

/-- The code from `retest` on; `nomem` is `err == -ENOMEM`. -/
def pass (nomem : Bool) (k : Nat) (s : CmId) : Outcome :=
  match s.state with
  | .listen =>
    let s : CmId := { s with listenSharecount := s.listenSharecount - 1 }
    if s.listenSharecount > 0 then .shared { s with refcount := s.refcount - 1 }
    else finish { s with serviceNode := false }
  | .sidrReqSent => finishWith (ibCancelMad env { s with state := .idle })
  | .sidrReqRcvd => finish { ibSendCmSidrRep env k s with sidrIdNode := false }
  | .reqSent | .mraReqRcvd => finishWith ((ibCancelMad env s).bind (ibSendCmRej env k))
  | .reqRcvd => if nomem then finish (cmResetToIdle s) else finishWith (ibSendCmRej env k s)
  | .repSent | .mraRepRcvd => finishWith ((ibCancelMad env s).bind (ibSendCmRej env k))
  | .mraReqSent | .repRcvd | .mraRepSent => finishWith (ibSendCmRej env k s)
  | .established =>
    if s.qpType = .xrcTgt then finish s
    else
      match ibSendCmDreq env k s with
      | none => .fault
      | some s => .retest s
  | .dreqSent => finishWith ((ibCancelMad env s).bind (cmEnterTimewait env))
  | .dreqRcvd => finishWith (ibSendCmDrep env k s)
  | .idle | .timewait => finish s

/-- `n` rounds of the loop. -/
def rounds (nomem : Bool) : Nat → CmId → Outcome
  | 0, s => .retest s
  | n + 1, s =>
    match rounds nomem n s with
    | .retest s => pass env nomem n s
    | o => o

/-! ## Specification -/

/-- The cm_id has no entry in a table, is in the list of no port that stays, and has no MAD. -/
structure HoldsNothing (s : CmId) : Prop where
  localId : s.localId = false
  serviceNode : s.serviceNode = false
  sidrIdNode : s.sidrIdNode = false
  timewaitInfo : ∀ t ∈ s.timewaitInfo, t.insertedRemoteId = false ∧ t.insertedRemoteQp = false
  lists : ∀ kind, ∀ port ∈ s.lists kind, env.goingDown port
  mads : s.mads = 0

/-- The cm_id is freed, and holds nothing. -/
def Outcome.Released : Outcome → Prop
  | .freed s => HoldsNothing env s
  | _ => False

/-- The loop is left after some rounds, and the cm_id then holds nothing. -/
def Destroyed (nomem : Bool) (s : CmId) : Prop := ∃ n, (rounds env nomem n s).Released env

/-- The timewait_info, if there is one, is in no table. -/
def CmId.Unlinked (s : CmId) : Prop :=
  ∀ t ∈ s.timewaitInfo, t.insertedRemoteId = false ∧ t.insertedRemoteQp = false

/-- The cm_id is connected, and tries to disconnect. -/
def CmId.Disconnects (s : CmId) : Prop := s.state = .established ∧ s.qpType ≠ .xrcTgt

def CmId.Cancels (s : CmId) : Prop :=
  s.state ∈ [.sidrReqSent, .reqSent, .mraReqRcvd, .repSent, .mraRepRcvd, .dreqSent] ∨
    (s.Disconnects ∧ (s.lapState = .sent ∨ s.lapState = .mraRcvd))

/-- The states whose end is timewait. -/
def CmId.EntersTimewait (s : CmId) : Prop :=
  s.state ∈ [.repSent, .mraRepRcvd, .dreqSent, .dreqRcvd] ∨ s.Disconnects

/-- The states that are reset to idle. -/
def CmId.Resets (s : CmId) : Prop :=
  s.state ∈ [.reqSent, .mraReqRcvd, .reqRcvd, .mraReqSent, .repRcvd, .mraRepSent]

/-- Nothing of the timewait_info stays in a table: it is freed, handed to the timer, or was in none.
-/
def CmId.TimewaitLeaves (s : CmId) : Prop :=
  s.Resets ∨ (s.EntersTimewait ∧ env.cmDev.isSome ∧ s.timewaitInfo.isSome) ∨
    (¬ (s.EntersTimewait ∧ env.cmDev.isSome) ∧ s.Unlinked)

/-- What a cm_id needs to be destroyed with all it holds. -/
structure Destroyable (s : CmId) : Prop where
  unshared : s.state = .listen → s.listenSharecount ≤ 1
  agent : s.Cancels → env.madAgent
  dreq : s.Disconnects → env.cmDev = none → ∃ k, sends env k s
  timewait : CmId.TimewaitLeaves env s
  lists : ∀ kind, ∀ port ∈ s.listDel kind, env.goingDown port
  serviceNode : s.serviceNode → s.state = .listen
  sidrIdNode : s.sidrIdNode → s.state = .sidrReqRcvd
  refcount : s.refcount = 1 + s.mads

/-! ## The end -/

/-- What `finish` asks of a cm_id apart from its timewait_info. -/
structure Rest (s : CmId) : Prop where
  serviceNode : s.serviceNode = false
  sidrIdNode : s.sidrIdNode = false
  lists : ∀ kind, ∀ port ∈ s.listDel kind, env.goingDown port
  refcount : s.refcount = 1 + s.mads

variable {env} {s : CmId}

theorem finish_released : (finish s).Released env ↔ Rest env s ∧ s.Unlinked := by
  unfold finish
  dsimp only
  by_cases hrefs : s.refcount = 1 + s.mads
  · rw [if_pos (by omega)]
    constructor
    · intro h
      exact ⟨⟨h.serviceNode, h.sidrIdNode, h.lists, hrefs⟩, h.timewaitInfo⟩
    · rintro ⟨h, hunlinked⟩
      exact ⟨rfl, h.serviceNode, h.sidrIdNode, hunlinked, h.lists, rfl⟩
  · rw [if_neg (by omega)]
    exact ⟨False.elim, fun h => hrefs h.1.refcount⟩

theorem finishWith_released {o : Option CmId} :
    (finishWith o).Released env ↔ ∃ s ∈ o, Rest env s ∧ s.Unlinked := by
  cases o with
  | none => simp [finishWith, Outcome.Released]
  | some s => simpa [finishWith] using finish_released

theorem rest_state (st : CmState) : Rest env { s with state := st } ↔ Rest env s :=
  ⟨fun ⟨h₁, h₂, h₃, h₄⟩ => ⟨h₁, h₂, h₃, h₄⟩, fun ⟨h₁, h₂, h₃, h₄⟩ => ⟨h₁, h₂, h₃, h₄⟩⟩

theorem rest_posted : Rest env s.posted ↔ Rest env s := by
  constructor <;> rintro ⟨h₁, h₂, h₃, h₄⟩ <;> refine ⟨h₁, h₂, h₃, ?_⟩
  · change s.refcount + 1 = 1 + ((s.mads + 1 : Nat) : Int) at h₄
    omega
  · change s.refcount + 1 = 1 + ((s.mads + 1 : Nat) : Int)
    omega

theorem rest_trySend (k : Nat) : Rest env (trySend env k s) ↔ Rest env s := by
  unfold trySend
  split
  · exact rest_posted
  · rfl

theorem unlinked_trySend (k : Nat) : (trySend env k s).Unlinked ↔ s.Unlinked := by
  unfold trySend
  split <;> rfl

/-- The timewait_info of a cm_id that enters timewait is handed over, or stays where it is. -/
theorem cmEnterTimewait_released :
    (∃ s' ∈ cmEnterTimewait env s, Rest env s' ∧ s'.Unlinked) ↔
      Rest env s ∧ (env.cmDev.isSome ∧ s.timewaitInfo.isSome ∨ ¬ env.cmDev.isSome ∧
        s.Unlinked) := by
  unfold cmEnterTimewait
  cases hdev : env.cmDev with
  | none => simp
  | some goingDown =>
    cases htw : s.timewaitInfo with
    | none => simp
    | some t =>
      have hrest : Rest env { s with state := .timewait, timewaitInfo := none } ↔ Rest env s :=
        ⟨fun ⟨h₁, h₂, h₃, h₄⟩ => ⟨h₁, h₂, h₃, h₄⟩, fun ⟨h₁, h₂, h₃, h₄⟩ => ⟨h₁, h₂, h₃, h₄⟩⟩
      simp [hrest, CmId.Unlinked]

theorem trySend_released (k : Nat) {o : Option CmId} :
    (∃ s' ∈ o.map (trySend env k), Rest env s' ∧ s'.Unlinked) ↔ ∃ s' ∈ o, Rest env s' ∧
    s'.Unlinked := by
  cases o with
  | none => simp
  | some s => simp [rest_trySend, unlinked_trySend]

theorem cmResetToIdle_released :
    (Rest env (cmResetToIdle s) ∧ (cmResetToIdle s).Unlinked) ↔ Rest env s := by
  constructor
  · rintro ⟨⟨h₁, h₂, h₃, h₄⟩, -⟩
    exact ⟨h₁, h₂, h₃, h₄⟩
  · rintro ⟨h₁, h₂, h₃, h₄⟩
    exact ⟨⟨h₁, h₂, h₃, h₄⟩, by simp [CmId.Unlinked, cmResetToIdle]⟩

theorem ibCancelMad_released {f : CmId → Option CmId} :
    (∃ s' ∈ (ibCancelMad env s).bind f, Rest env s' ∧ s'.Unlinked) ↔
      env.madAgent ∧ ∃ s' ∈ f s, Rest env s' ∧ s'.Unlinked := by
  unfold ibCancelMad
  split <;> simp [*]

theorem ibSendCmRej_resets (k : Nat) (h : s.Resets) :
    (∃ s' ∈ ibSendCmRej env k s, Rest env s' ∧ s'.Unlinked) ↔ Rest env s := by
  have hrej : ibSendCmRej env k s = (some (cmResetToIdle s)).map (trySend env k) := by
    unfold ibSendCmRej
    simp only [CmId.Resets, List.mem_cons, List.not_mem_nil, or_false] at h
    rcases h with h | h | h | h | h | h <;> rw [h] <;> rfl
  rw [hrej, trySend_released]
  simpa using cmResetToIdle_released

theorem ibSendCmRej_enters (k : Nat) (h : s.state = .repSent ∨ s.state = .mraRepRcvd) :
    (∃ s' ∈ ibSendCmRej env k s, Rest env s' ∧ s'.Unlinked) ↔
      Rest env s ∧ (env.cmDev.isSome ∧ s.timewaitInfo.isSome ∨ ¬ env.cmDev.isSome ∧
        s.Unlinked) := by
  have hrej : ibSendCmRej env k s = (cmEnterTimewait env s).map (trySend env k) := by
    unfold ibSendCmRej
    rcases h with h | h <;> rw [h]
  rw [hrej, trySend_released, cmEnterTimewait_released]

theorem rest_iff : Rest env s ↔ s.serviceNode = false ∧ s.sidrIdNode = false ∧
    (∀ kind, ∀ port ∈ s.listDel kind, env.goingDown port) ∧ s.refcount = 1 + s.mads :=
  ⟨fun ⟨h₁, h₂, h₃, h₄⟩ => ⟨h₁, h₂, h₃, h₄⟩, fun ⟨h₁, h₂, h₃, h₄⟩ => ⟨h₁, h₂, h₃, h₄⟩⟩

/-- What a cm_id needs that neither listens nor has a service ID request to answer. -/
theorem destroyable_iff (h : ¬ s.Disconnects) (hlisten : s.state ≠ .listen)
    (hsidr : s.state ≠ .sidrReqRcvd) :
    Destroyable env s ↔ Rest env s ∧ (s.Cancels → env.madAgent) ∧ CmId.TimewaitLeaves env s := by
  constructor
  · intro hd
    refine ⟨⟨?_, ?_, hd.lists, hd.refcount⟩, hd.agent, hd.timewait⟩
    · exact Bool.eq_false_iff.mpr fun hnode => hlisten (hd.serviceNode hnode)
    · exact Bool.eq_false_iff.mpr fun hnode => hsidr (hd.sidrIdNode hnode)
  · rintro ⟨hrest, hagent, htimewait⟩
    refine ⟨fun hst => absurd hst hlisten, hagent, fun hd => absurd hd h, htimewait,
      hrest.lists, ?_, ?_,
      hrest.refcount⟩
    · intro hnode
      exact absurd hnode (Bool.eq_false_iff.mp hrest.serviceNode)
    · intro hnode
      exact absurd hnode (Bool.eq_false_iff.mp hrest.sidrIdNode)

/-- A listener is freed by its last sharer. -/
theorem pass_listen {nomem : Bool} {k : Nat} (hst : s.state = .listen) :
    (pass env nomem k s).Released env ↔ Destroyable env s := by
  have hstate : ¬ s.Disconnects ∧ ¬ s.Cancels ∧ (CmId.TimewaitLeaves env s ↔ s.Unlinked) := by
    simp [CmId.TimewaitLeaves, CmId.Resets, CmId.EntersTimewait, CmId.Cancels,
      CmId.Disconnects, hst]
  obtain ⟨hdisc, hcancels, htimewait⟩ := hstate
  unfold pass
  rw [hst]
  dsimp only
  split
  next hshared => exact ⟨False.elim, fun hd => by have := hd.unshared hst; omega⟩
  next hlast =>
    rw [finish_released, rest_iff]
    constructor
    · rintro ⟨⟨-, hsidr, hlists, hrefs⟩, hunlinked⟩
      exact ⟨fun _ => by omega, fun h => absurd h hcancels, fun h => absurd h hdisc,
        htimewait.mpr hunlinked, hlists, fun _ => hst,
        fun h => absurd h (Bool.eq_false_iff.mp hsidr), hrefs⟩
    · intro hd
      refine ⟨⟨rfl, Bool.eq_false_iff.mpr fun hnode => ?_, hd.lists, hd.refcount⟩,
        htimewait.mp hd.timewait⟩
      have hsidr := hd.sidrIdNode hnode
      rw [hst] at hsidr
      cases hsidr

/-- A request for a service ID is rejected, and leaves the table in any case. -/
theorem pass_sidrReqRcvd {nomem : Bool} {k : Nat} (hst : s.state = .sidrReqRcvd) :
    (pass env nomem k s).Released env ↔ Destroyable env s := by
  have hstate : ¬ s.Disconnects ∧ ¬ s.Cancels ∧ (CmId.TimewaitLeaves env s ↔ s.Unlinked) := by
    simp [CmId.TimewaitLeaves, CmId.Resets, CmId.EntersTimewait, CmId.Cancels,
      CmId.Disconnects, hst]
  obtain ⟨hdisc, hcancels, htimewait⟩ := hstate
  have hrest : Rest env { ibSendCmSidrRep env k s with sidrIdNode := false } ↔
      Rest env { s with sidrIdNode := false } := by
    unfold ibSendCmSidrRep
    split
    · exact (rest_state (s := CmId.posted { s with sidrIdNode := false }) .idle).trans rest_posted
    · rfl
  have hunlinked : CmId.Unlinked { ibSendCmSidrRep env k s with sidrIdNode := false } ↔
    s.Unlinked := by
    unfold ibSendCmSidrRep
    split <;> rfl
  have hpass : pass env nomem k s =
    finish { ibSendCmSidrRep env k s with sidrIdNode := false } := by
    unfold pass
    rw [hst]
  rw [hpass, finish_released, hrest, hunlinked, rest_iff]
  constructor
  · rintro ⟨⟨hservice, -, hlists, hrefs⟩, hunlinked⟩
    exact ⟨fun h => absurd (hst.symm.trans h) (by decide), fun h => absurd h hcancels,
      fun h => absurd h hdisc,
      htimewait.mpr hunlinked, hlists, fun h => absurd h (Bool.eq_false_iff.mp hservice),
        fun _ => hst, hrefs⟩
  · intro hd
    refine ⟨⟨Bool.eq_false_iff.mpr fun hnode => ?_, rfl, hd.lists, hd.refcount⟩,
      htimewait.mp hd.timewait⟩
    have hlisten := hd.serviceNode hnode
    rw [hst] at hlisten
    cases hlisten

/-- A round that does not disconnect is the last one. -/
theorem pass_released {nomem : Bool} {k : Nat} (h : ¬ s.Disconnects) :
    (pass env nomem k s).Released env ↔ Destroyable env s := by
  by_cases hlisten : s.state = .listen
  · exact pass_listen hlisten
  by_cases hsidr : s.state = .sidrReqRcvd
  · exact pass_sidrReqRcvd hsidr
  rw [destroyable_iff h hlisten hsidr]
  unfold CmId.TimewaitLeaves CmId.Cancels CmId.EntersTimewait
  unfold pass
  cases hst : s.state with
  | listen => exact absurd hst hlisten
  | sidrReqRcvd => exact absurd hst hsidr
  | idle | timewait =>
    rw [finish_released]
    simp [h, hst, CmId.Resets]
  | sidrReqSent =>
    have hcancel : (∃ s' ∈ ibCancelMad env { s with state := .idle }, Rest env s' ∧ s'.Unlinked) ↔
        env.madAgent ∧ Rest env { s with state := .idle } ∧ s.Unlinked := by
      unfold ibCancelMad
      split
      · simp only [Option.mem_some_iff, exists_eq_left', *, true_and]
        rfl
      · simp [*]
    rw [finishWith_released, hcancel, rest_state]
    simp [h, hst, CmId.Resets]
    tauto
  | reqSent | mraReqRcvd =>
    have hresets : s.Resets := by simp [CmId.Resets, hst]
    rw [finishWith_released, ibCancelMad_released, ibSendCmRej_resets k hresets]
    simp [hresets, and_comm]
  | reqRcvd =>
    have hresets : s.Resets := by simp [CmId.Resets, hst]
    dsimp only
    split
    · rw [finish_released, cmResetToIdle_released]
      simp [h, hresets]
    · rw [finishWith_released, ibSendCmRej_resets k hresets]
      simp [h, hresets]
  | mraReqSent | repRcvd | mraRepSent =>
    have hresets : s.Resets := by simp [CmId.Resets, hst]
    rw [finishWith_released, ibSendCmRej_resets k hresets]
    simp [h, hresets]
  | repSent | mraRepRcvd =>
    rw [finishWith_released, ibCancelMad_released, ibSendCmRej_enters k (by simp [hst])]
    simp [hst, CmId.Resets]
    tauto
  | established =>
    have htgt : s.qpType = .xrcTgt := by_contra fun htgt => h ⟨hst, htgt⟩
    rw [if_pos htgt, finish_released]
    simp [h, hst, CmId.Resets]
  | dreqSent =>
    rw [finishWith_released, ibCancelMad_released, cmEnterTimewait_released]
    simp [hst, CmId.Resets]
    tauto
  | dreqRcvd =>
    have hdrep : ibSendCmDrep env k s = (cmEnterTimewait env s).map (trySend env k) := by
      unfold ibSendCmDrep
      rw [if_neg (not_not.mpr hst)]
    rw [finishWith_released, hdrep, trySend_released, cmEnterTimewait_released]
    simp [h, hst, CmId.Resets]

variable {nomem : Bool}

theorem finish_ne_retest (s s' : CmId) : finish s ≠ .retest s' := by
  unfold finish
  dsimp only
  split <;> exact Outcome.noConfusion

theorem finishWith_ne_retest (o : Option CmId) (s' : CmId) : finishWith o ≠ .retest s' := by
  cases o with
  | none => exact Outcome.noConfusion
  | some s => exact finish_ne_retest s s'

theorem pass_ne_retest (k : Nat) (h : ¬ s.Disconnects) (s' : CmId) :
    pass env nomem k s ≠ .retest s' := by
  unfold pass
  split
  case h_1 =>
    dsimp only
    split
    · exact Outcome.noConfusion
    · exact finish_ne_retest _ s'
  case h_3 => exact finish_ne_retest _ s'
  case h_6 =>
    split
    · exact finish_ne_retest _ s'
    · exact finishWith_ne_retest _ s'
  case h_12 hst =>
    rw [if_pos (by_contra fun htgt => h ⟨hst, htgt⟩)]
    exact finish_ne_retest _ s'
  case h_15 => exact finish_ne_retest _ s'
  case h_16 => exact finish_ne_retest _ s'
  all_goals exact finishWith_ne_retest _ s'

theorem rounds_left {n m : Nat} (h : ∀ s', rounds env nomem n s ≠ .retest s') (hm : n ≤ m) :
    rounds env nomem m s = rounds env nomem n s := by
  induction m, hm using Nat.le_induction with
  | base => rfl
  | succ m _ ih =>
    change (match rounds env nomem m s with
      | .retest s => pass env nomem m s
      | o => o) = _
    rw [ih]
    split
    next s' hretest => exact absurd hretest (h s')
    next => rfl

theorem destroyed_iff_released {n : Nat} (h : ∀ s', rounds env nomem n s ≠ .retest s') :
    Destroyed env nomem s ↔ (rounds env nomem n s).Released env := by
  refine ⟨fun ⟨m, hm⟩ => ?_, fun hn => ⟨n, hn⟩⟩
  have hleft : ∀ s', rounds env nomem m s ≠ .retest s' := by
    intro s' hretest
    rw [hretest] at hm
    exact hm
  rcases Nat.le_total n m with hle | hle
  · rwa [← rounds_left h hle]
  · rwa [rounds_left hleft hle]

/-- The round after a retest decides, when it does not disconnect. -/
theorem destroyed_of_retest {n : Nat} {s₁ : CmId} (hretest : rounds env nomem n s = .retest s₁)
    (h : ¬ s₁.Disconnects) : Destroyed env nomem s ↔ Destroyable env s₁ := by
  have hround : rounds env nomem (n + 1) s = pass env nomem n s₁ := by
    change (match rounds env nomem n s with
      | .retest s => pass env nomem n s
      | o => o) = _
    rw [hretest]
  rw [destroyed_iff_released (n := n + 1) (fun s' => hround ▸ pass_ne_retest n h s'), hround,
    pass_released h]

/-! ## Disconnecting -/

def CmId.disconnected (s : CmId) : CmId := { s.posted with state := .dreqSent }

/-- The cm_id after its timewait_info was handed over. -/
def CmId.timedWait (s : CmId) : CmId := { s with state := .timewait, timewaitInfo := none }

theorem pass_disconnects (k : Nat) (h : s.Disconnects) :
    pass env nomem k s =
      match ibSendCmDreq env k s with
      | none => .fault
      | some s => .retest s := by
  unfold pass
  rw [h.1]
  rw [if_neg h.2]

/-- What a connected cm_id needs. -/
theorem destroyable_disconnects (h : s.Disconnects) : Destroyable env s ↔
    Rest env s ∧ (s.lapState = .sent ∨ s.lapState = .mraRcvd → env.madAgent) ∧
      (env.cmDev = none → ∃ k, sends env k s) ∧
        (env.cmDev.isSome ∧ s.timewaitInfo.isSome ∨ ¬ env.cmDev.isSome ∧ s.Unlinked) := by
  have htimewait : CmId.TimewaitLeaves env s ↔
      (env.cmDev.isSome ∧ s.timewaitInfo.isSome ∨ ¬ env.cmDev.isSome ∧ s.Unlinked) := by
    simp [CmId.TimewaitLeaves, CmId.Resets, CmId.EntersTimewait, h, h.1]
  have hcancels : s.Cancels ↔ s.lapState = .sent ∨ s.lapState = .mraRcvd := by
    simp [CmId.Cancels, h, h.1]
  constructor
  · intro hd
    refine ⟨⟨?_, ?_, hd.lists, hd.refcount⟩, fun hlap => hd.agent (hcancels.mpr hlap), hd.dreq h,
      htimewait.mp hd.timewait⟩
    · exact Bool.eq_false_iff.mpr fun hnode => CmState.noConfusion
        (h.1.symm.trans (hd.serviceNode hnode))
    · exact Bool.eq_false_iff.mpr fun hnode => CmState.noConfusion
        (h.1.symm.trans (hd.sidrIdNode hnode))
  · rintro ⟨hrest, hagent, hdreq, htw⟩
    refine ⟨fun hst => CmState.noConfusion (h.1.symm.trans hst), fun hc => hagent (hcancels.mp hc),
      fun _ => hdreq, htimewait.mpr htw, hrest.lists, ?_, ?_, hrest.refcount⟩
    · intro hnode
      exact absurd hnode (Bool.eq_false_iff.mp hrest.serviceNode)
    · intro hnode
      exact absurd hnode (Bool.eq_false_iff.mp hrest.sidrIdNode)

theorem sends_madAgent {k : Nat} (h : sends env k s) : env.madAgent := by
  unfold sends cmAllocMsg at h
  simp only [Bool.and_eq_true] at h
  exact h.1.1.1.2

/-- After the DREQ the same is needed as before it. -/
theorem destroyable_disconnected (hagent : env.madAgent) : Destroyable env s.disconnected ↔
    Rest env s ∧ (env.cmDev.isSome ∧ s.timewaitInfo.isSome ∨ ¬ env.cmDev.isSome ∧ s.Unlinked) := by
  have hdisc : ¬ s.disconnected.Disconnects := fun h => CmState.noConfusion h.1
  have hrest : Rest env s.disconnected ↔ Rest env s := (rest_state _).trans rest_posted
  have hresets : ¬ s.disconnected.Resets := by simp [CmId.Resets, CmId.disconnected]
  have henters : s.disconnected.EntersTimewait := by simp [CmId.EntersTimewait, CmId.disconnected]
  have hunlinked : s.disconnected.Unlinked ↔ s.Unlinked := Iff.rfl
  have htimewait : CmId.TimewaitLeaves env s.disconnected ↔
      (env.cmDev.isSome ∧ s.timewaitInfo.isSome ∨ ¬ env.cmDev.isSome ∧ s.Unlinked) := by
    unfold CmId.TimewaitLeaves
    simp only [hresets, henters, hunlinked, false_or, true_and]
    rfl
  rw [destroyable_iff hdisc CmState.noConfusion CmState.noConfusion, hrest, htimewait]
  simp [hagent]

theorem destroyable_timedWait : Destroyable env s.timedWait ↔ Rest env s := by
  have hdisc : ¬ s.timedWait.Disconnects := fun h => CmState.noConfusion h.1
  have hrest : Rest env s.timedWait ↔ Rest env s :=
    ⟨fun ⟨h₁, h₂, h₃, h₄⟩ => ⟨h₁, h₂, h₃, h₄⟩, fun ⟨h₁, h₂, h₃, h₄⟩ => ⟨h₁, h₂, h₃, h₄⟩⟩
  have hcancels : ¬ s.timedWait.Cancels := by
    rintro (h | h)
    · simp [CmId.timedWait] at h
    · exact hdisc h.1
  have htimewait : CmId.TimewaitLeaves env s.timedWait := by
    refine .inr (.inr ⟨?_, by simp [CmId.Unlinked, CmId.timedWait]⟩)
    rintro ⟨h | h, -⟩
    · simp [CmId.timedWait] at h
    · exact hdisc h
  rw [destroyable_iff hdisc CmState.noConfusion CmState.noConfusion, hrest]
  simp [hcancels, htimewait]

/-- What a round makes of a connected cm_id, when no LAP has to be cancelled in vain. -/
theorem ibSendCmDreq_eq (k : Nat) (h : s.Disconnects)
    (hlap : s.lapState = .sent ∨ s.lapState = .mraRcvd → env.madAgent) :
    ibSendCmDreq env k s = if sends env k s then some s.disconnected else
      cmEnterTimewait env s := by
  have hcancel : (if s.lapState = .sent ∨ s.lapState = .mraRcvd then ibCancelMad env s else some s)
    = some s := by
    unfold ibCancelMad
    split
    next hout => rw [if_pos (hlap hout)]
    next => rfl
  unfold ibSendCmDreq
  rw [if_neg (not_not.mpr h.1), hcancel]
  rfl

/-- Without client data a DREQ that is not sent leaves the cm_id as it is. -/
theorem rounds_unsent {n : Nat} (h : s.Disconnects) (hdev : env.cmDev = none)
    (hlap : s.lapState = .sent ∨ s.lapState = .mraRcvd → env.madAgent)
    (hsends : ∀ k < n, ¬ sends env k s) :
    rounds env nomem n s = .retest s := by
  induction n with
  | zero => rfl
  | succ n ih =>
    have hprev := ih fun k hk => hsends k (by omega)
    change (match rounds env nomem n s with
      | .retest s => pass env nomem n s
      | o => o) = _
    rw [hprev]
    dsimp only
    rw [pass_disconnects n h, ibSendCmDreq_eq n h hlap, if_neg (hsends n (by omega))]
    unfold cmEnterTimewait
    rw [hdev]

/-- A connected cm_id is destroyed after the round that gets it out of its state. -/
theorem destroyed_disconnects (h : s.Disconnects) : Destroyed env nomem s ↔ Destroyable env s := by
  rw [destroyable_disconnects h]
  by_cases hlap : s.lapState = .sent ∨ s.lapState = .mraRcvd → env.madAgent
  swap
  · have hfault : rounds env nomem 1 s = .fault := by
      change pass env nomem 0 s = _
      rw [pass_disconnects 0 h]
      unfold ibSendCmDreq ibCancelMad
      rw [Classical.not_imp] at hlap
      rw [if_neg (not_not.mpr h.1), if_pos hlap.1, if_neg hlap.2]
      rfl
    rw [destroyed_iff_released (n := 1) (fun s' => hfault ▸ Outcome.noConfusion), hfault]
    exact ⟨False.elim, fun hd => hlap hd.2.1⟩
  cases hdev : env.cmDev with
  | none =>
    by_cases hsends : ∃ k, sends env k s
    · classical
      have hround : rounds env nomem (Nat.find hsends + 1) s = .retest s.disconnected := by
        change (match rounds env nomem (Nat.find hsends) s with
          | .retest s => pass env nomem (Nat.find hsends) s
          | o => o) = _
        rw [rounds_unsent h hdev hlap fun k hk => Nat.find_min hsends hk]
        dsimp only
        rw [pass_disconnects _ h, ibSendCmDreq_eq _ h hlap, if_pos (Nat.find_spec hsends)]
      rw [destroyed_of_retest hround (fun h => CmState.noConfusion h.1),
        destroyable_disconnected (sends_madAgent (Nat.find_spec hsends)), hdev]
      exact and_congr_right fun _ => ⟨fun htw => ⟨hlap, fun _ => hsends, htw⟩, fun hd => hd.2.2⟩
    · have hstuck (n : Nat) : rounds env nomem n s = .retest s :=
        rounds_unsent h hdev hlap fun k _ hk => hsends ⟨k, hk⟩
      refine iff_of_false ?_ fun hd => hsends (hd.2.2.1 rfl)
      rintro ⟨n, hn⟩
      rw [hstuck n] at hn
      exact hn
  | some goingDown =>
    by_cases hsend : sends env 0 s
    · have hround : rounds env nomem 1 s = .retest s.disconnected := by
        change pass env nomem 0 s = _
        rw [pass_disconnects 0 h, ibSendCmDreq_eq 0 h hlap, if_pos hsend]
      rw [destroyed_of_retest hround (fun h => CmState.noConfusion h.1),
        destroyable_disconnected (sends_madAgent hsend), hdev]
      simp only [Option.isSome_some, not_true_eq_false, false_and, or_false, true_and, reduceCtorEq,
        false_imp_iff]
      exact and_congr_right fun _ => (and_iff_right hlap).symm
    · have hpass : rounds env nomem 1 s =
          match cmEnterTimewait env s with
          | none => .fault
          | some s => .retest s := by
        change pass env nomem 0 s = _
        rw [pass_disconnects 0 h, ibSendCmDreq_eq 0 h hlap, if_neg hsend]
      cases htw : s.timewaitInfo with
      | none =>
        have hfault : rounds env nomem 1 s = .fault := by
          rw [hpass]
          unfold cmEnterTimewait
          rw [hdev, htw]
          rfl
        rw [destroyed_iff_released (n := 1) (fun s' => hfault ▸ Outcome.noConfusion), hfault]
        simp [Outcome.Released]
      | some t =>
        have hround : rounds env nomem 1 s = .retest s.timedWait := by
          rw [hpass]
          unfold cmEnterTimewait
          rw [hdev, htw]
          rfl
        rw [destroyed_of_retest hround (fun h => CmState.noConfusion h.1), destroyable_timedWait]
        simp only [Option.isSome_some, not_true_eq_false, false_and, or_false, and_true,
          reduceCtorEq, false_imp_iff]
        exact (and_iff_left hlap).symm

/-- The loop of `cm_destroy_id` is left, and leaves nothing behind, exactly under this condition. -/
theorem destroy_id_iff (env : Env) (nomem : Bool) (s : CmId) :
    Destroyed env nomem s ↔ Destroyable env s := by
  by_cases h : s.Disconnects
  · exact destroyed_disconnects h
  · exact destroyed_of_retest (n := 0) rfl h

end

/-- The device is gone, and its port has no MAD agent any more. -/
def removed : Env where
  cmDev := none
  goingDown _ := true
  madAgent := false
  createAh _ := true
  createSendMad _ := true
  postSendMad _ := true

/-- A connection over port 0. -/
def connected : CmId where
  state := .established
  lapState := .uninit
  qpType := .rc
  listenSharecount := 0
  refcount := 1
  localId := true
  serviceNode := false
  sidrIdNode := false
  timewaitInfo := some ⟨true, true⟩
  lists kind := if kind = .primary then [0] else []
  notReady kind := kind = .primary
  altPort := false
  mads := 0

/-- The loop goes on for ever. -/
theorem connected_retests : (∀ n, rounds removed false n connected = .retest connected) ∧
    ¬ Destroyed removed false connected := by
  have hround (n : Nat) : rounds removed false n connected = .retest connected := by
    induction n with
    | zero => rfl
    | succ n ih =>
      change (match rounds removed false n connected with
        | .retest s => pass removed false n s
        | o => o) = _
      rw [ih]
      rfl
  refine ⟨hround, ?_⟩
  rintro ⟨n, hn⟩
  rw [hround n] at hn
  exact hn

end IbCm.Destroy
