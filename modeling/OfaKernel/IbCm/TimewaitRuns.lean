-- SUMMARY: The timewait tables in every run of a node.
import OfaKernel.IbCm.TimewaitTables

/-!
# Every run of the timewait tables

The handlers that are left, a step of the node, and what `CmInv` says of every state that a
node reaches from no cm_ids at all.
-/

open List

namespace IbCm

section

variable {cfg : Config} {env : Env} {s s' : Cm} {l r : Nat} {p q : CmIdPrivate} {t : TimewaitInfo}

/-! ## Messages -/

theorem cmRtuHandler_follows (h : CmInv s) (localCommId remoteCommId : Nat) :
    Follows s (cmRtuHandler s localCommId remoteCommId).1 := by
  unfold cmRtuHandler
  split
  case h_1 => exact .refl h
  case h_2 p hget =>
    obtain ⟨hp, -⟩ := cmGetId_some hget
    split
    case isTrue hst =>
      obtain hst | hst := hst
      all_goals exact h.move hp rfl rfl rfl (by rw [hst]; rfl) (by rw [hst]; rfl)
    case isFalse => exact .refl h

theorem cmMraHandler_follows (h : CmInv s) (localCommId remoteCommId : Nat) (mraed : MsgResponse) :
    Follows s (cmMraHandler env s localCommId remoteCommId mraed).1 := by
  unfold cmMraHandler
  dsimp only
  split
  case h_1 => exact .refl h
  case h_2 p hget =>
    have hp : s.ids remoteCommId = some p := by
      cases mraed <;> exact (cmGetId_some hget).1
    split
    case h_1 =>
      rename_i hst _
      exact h.move hp rfl rfl rfl (by rw [hst]; rfl) (by rw [hst]; rfl)
    case h_2 =>
      rename_i hst _
      exact h.move hp rfl rfl rfl (by rw [hst]; rfl) (by rw [hst]; rfl)
    case h_3 =>
      split
      case isTrue => exact h.move hp rfl rfl rfl rfl rfl
      case isFalse => exact .refl h
    case h_4 => exact .refl h

theorem cmAcquireRejectedId_some {localCommId remoteCommId ari : Nat} {rejected : MsgResponse}
    {reason : RejReason}
    (h : cmAcquireRejectedId s localCommId remoteCommId rejected reason ari = some (l, p)) :
    s.ids l = some p := by
  have hmap : ∀ l' remoteId, (cmGetId s l' remoteId).map (l', ·) = some (l, p) →
    s.ids l = some p := by
    intro l' remoteId hget
    obtain ⟨p', hp', heq⟩ := Option.map_eq_some_iff.mp hget
    cases heq
    exact (cmGetId_some hp').1
  unfold cmAcquireRejectedId at h
  split at h
  case isTrue =>
    obtain ⟨r, -, h⟩ := Option.bind_eq_some_iff.mp h
    obtain ⟨t, -, h⟩ := Option.bind_eq_some_iff.mp h
    exact hmap _ _ h
  case isFalse =>
    split at h
    case isTrue => exact hmap _ _ h
    case isFalse => exact hmap _ _ h

theorem cmRejHandler_follows (h : CmInv s) (localCommId remoteCommId : Nat)
    (rejected : MsgResponse) (reason : RejReason) (ari : Nat) :
    Follows s (cmRejHandler cfg env s localCommId remoteCommId rejected reason ari).1 := by
  unfold cmRejHandler
  split
  case h_1 => exact .refl h
  case h_2 l p hget =>
    have hp := cmAcquireRejectedId_some hget
    have henter : p.state.owns = true → Follows s (cmEnterTimewait cfg env s l p) :=
      fun howns => enter_follows h hp howns p.privateData
    have hreject : p.state.owns = true → Follows s (if reason = .staleConn then
        (cmEnterTimewait cfg env s l p, ([] : List Mad))
        else (cmResetToIdle cfg s l p, [])).1 := by
      intro howns
      split
      case isTrue => exact henter howns
      case isFalse => exact reset_follows h hp howns
    split
    case h_10 hst =>
      split
      case isTrue => exact henter (by rw [hst]; rfl)
      case isFalse => exact .refl h
    case h_11 => exact .refl h
    all_goals
      rename_i hst
      first
        | exact hreject (by rw [hst]; rfl)
        | exact henter (by rw [hst]; rfl)

theorem cmDreqHandler_follows (h : CmInv s) (m : Mad) (localCommId remoteCommId remoteQpn : Nat) :
    Follows s (cmDreqHandler env s m localCommId remoteCommId remoteQpn).1 := by
  unfold cmDreqHandler
  split
  case h_1 => exact .refl h
  case h_2 p hget =>
    obtain ⟨hp, -⟩ := cmGetId_some hget
    split
    case isTrue => exact .refl h
    case isFalse =>
      split <;> first
        | exact .refl h
        | skip
      all_goals
        rename_i hst
        exact h.move hp rfl rfl rfl (by rw [hst]; rfl) (by rw [hst]; rfl)

theorem cmDrepHandler_follows (h : CmInv s) (localCommId remoteCommId : Nat) :
    Follows s (cmDrepHandler cfg env s localCommId remoteCommId).1 := by
  unfold cmDrepHandler
  split
  case h_1 => exact .refl h
  case h_2 p hget =>
    obtain ⟨hp, -⟩ := cmGetId_some hget
    split
    case isTrue hst =>
      have howns : p.state.owns = true := by rcases hst with hst | hst <;> rw [hst] <;> rfl
      exact enter_follows h hp howns p.privateData
    case isFalse => exact .refl h

theorem cmLapHandler_follows (h : CmInv s) (m : Mad)
    (localCommId remoteCommId altLocalGid altRemoteGid : Nat) :
    Follows s (cmLapHandler cfg env s m localCommId remoteCommId altLocalGid altRemoteGid).1 := by
  unfold cmLapHandler
  split
  case h_1 => exact .refl h
  case h_2 p hget =>
    obtain ⟨hp, -⟩ := cmGetId_some hget
    have htake : Follows s (s.setId remoteCommId (
        let q := cmInitAvByPath cfg env { p with av := avForResponse env m } .alternate
          { sgid := altRemoteGid, dgid := altLocalGid }
        if q.2 then { q.1 with lapState := .rcvd } else q.1)) := by
      obtain ⟨hst, hptr, hwork, hqpn⟩ := cmInitAvByPath_same cfg env
        { p with av := avForResponse env m } .alternate
          { sgid := altRemoteGid, dgid := altLocalGid }
      dsimp only
      split
      case isTrue => exact h.move hp hwork hptr hqpn (by rw [hst]) (by rw [hst])
      case isFalse => exact h.move hp hwork hptr hqpn (by rw [hst]) (by rw [hst])
    have hport : Follows s (s.setId remoteCommId
      { p with av := { p.av with port := some env.port } }) :=
      h.move hp rfl rfl rfl rfl rfl
    split
    case isTrue => exact .refl h
    case isFalse =>
      split
      case h_3 => exact .refl h
      case h_4 => exact .refl h
      all_goals
        split
        case isTrue => exact htake
        case isFalse => exact hport

theorem cmAprHandler_follows (h : CmInv s) (localCommId remoteCommId : Nat) :
    Follows s (cmAprHandler env s localCommId remoteCommId).1 := by
  unfold cmAprHandler
  split
  case h_1 => exact .refl h
  case h_2 p hget =>
    split
    case isTrue => exact h.move (cmGetId_some hget).1 rfl rfl rfl rfl rfl
    case isFalse => exact .refl h

theorem cmSidrReqHandler_follows (h : CmInv s) (m : Mad) (requestId : Nat) :
    Follows s (cmSidrReqHandler env s m requestId).1 := by
  unfold cmSidrReqHandler
  split
  case h_1 => exact .refl h
  case h_2 l _ =>
    split
    case isTrue => exact .refl h
    case isFalse =>
      split
      case isTrue => exact h.newId rfl rfl
      case isFalse => split <;> exact .refl h

theorem cmSidrRepHandler_follows (h : CmInv s) (requestId : Nat) :
    Follows s (cmSidrRepHandler s requestId).1 := by
  unfold cmSidrRepHandler
  split
  case h_1 => exact .refl h
  case h_2 p hget =>
    split
    case isTrue hst =>
      exact h.move (cmGetId_some hget).1 rfl rfl rfl (by rw [hst]; rfl) (by rw [hst]; rfl)
    case isFalse => exact .refl h

theorem cmRecvHandler_steady (h : CmInv s) (m : Mad) : Steady s (cmRecvHandler cfg env s m).1 := by
  unfold cmRecvHandler
  cases m.body with
  | req req => exact (cmReqHandler_follows h m req).steady
  | rep rep => exact cmRepHandler_steady h m rep
  | rtu => exact (cmRtuHandler_follows h _ _).steady
  | mra => exact (cmMraHandler_follows h _ _ _).steady
  | rej => exact (cmRejHandler_follows h _ _ _ _ _).steady
  | dreq => exact (cmDreqHandler_follows h m _ _ _).steady
  | drep => exact (cmDrepHandler_follows h _ _).steady
  | lap => exact (cmLapHandler_follows h m _ _ _ _).steady
  | apr => exact (cmAprHandler_follows h _ _).steady
  | sidrReq => exact (cmSidrReqHandler_follows h m _).steady
  | sidrRep => exact (cmSidrRepHandler_follows h _).steady

theorem cmProcessSendError_follows (h : CmInv s) (current : Bool) (state : CmState) :
    Follows s (cmProcessSendError cfg env current state s l).1 := by
  refine onId_follows h fun p hp => ?_
  split
  case isTrue => exact .refl h
  case isFalse hst =>
    have hst : p.state = state := by
      simp only [Bool.or_eq_true, Bool.not_eq_true', decide_eq_true_eq, not_or, ne_eq,
        not_not] at hst
      exact hst.2.symm
    split
    case h_5 hst => exact enter_follows h hp (by rw [hst]; rfl) p.privateData
    case h_6 hst => exact h.move hp rfl rfl rfl (by rw [hst]; rfl) (by rw [hst]; rfl)
    case h_7 => exact .refl h
    all_goals
      rename_i hst
      exact reset_follows h hp (by rw [hst]; rfl)

theorem CmInv.not_uses_of_listed (h : CmInv s) (hr : r ∈ s.timewaitList) (hq : s.ids l = some q) :
    ¬ Uses q r := by
  rintro (⟨howns, hptr⟩ | hwork)
  · obtain ⟨r', t, hptr', -, hlist, -⟩ := (h.ids l q hq).owned howns
    rw [hptr] at hptr'
    cases hptr'
    exact hlist hr
  · exact ((h.ids l q hq).works r hwork).1 hr

theorem cmTimewaitHandler_follows (h : CmInv s) (r : Nat) :
    Follows s (cmTimewaitHandler env s r).1 := by
  unfold cmTimewaitHandler
  split
  case h_1 => exact .refl h
  case h_2 t hmem =>
    split
    case isTrue => exact .refl h
    case isFalse hq =>
      have hlisted : r ∈ s.timewaitList := h.store.queued r t hmem (by simpa using hq)
      obtain ⟨t', hmem', hloose⟩ := h.store.listed r hlisted
      obtain rfl : t = t' := by rw [hmem] at hmem'; exact Option.some.inj hmem'
      set t₁ : TimewaitInfo := { t with queued := false } with ht₁
      have hloose₁ : t₁.Loose := fun tb => by
        cases tb <;> [exact hloose .remoteId; exact hloose .remoteQp]
      dsimp only
      set s₁ : Cm := { s.setTw r t₁ with timewaitList := s.timewaitList.erase r } with hs₁
      have hstore : Store s₁ := h.store.delist hmem hloose
      have hmem₁ : s₁.mem r = some t₁ := Function.update_self ..
      have hlist₁ : r ∉ s₁.timewaitList := fun hr => (h.store.nodup.mem_erase_iff.mp hr).1 rfl
      have ht : Touches (· = r) s s₁ :=
        touches_write hmem (fun tb => by cases tb <;> rfl) fun _ hq => mem_erase_of_ne hq
      have hnot : ∀ l q, s.ids l = some q → ¬ Uses q r := fun l q hq =>
        h.not_uses_of_listed hlisted hq
      -- freed at once, with the cm_id idle or left as it is
      obtain ⟨hfree, htouch, -⟩ := hstore.kfree hmem₁ hloose₁ hlist₁
      have hgone : Follows s (s₁.kfree (.ref r)) := by
        refine h.touch hfree (ht.trans h.store htouch) ?_
        rintro l q _ hq rfl
        exact hnot l q hq
      split
      case h_1 => exact hgone
      case h_2 p hget =>
        have hp : s.ids t₁.localId = some p := (cmGetId_some hget).1
        split
        case isFalse => exact hgone
        case isTrue hst =>
          split
          case isTrue =>
            have hok := h.ids t₁.localId p hp
            refine h.update hstore ht ?_
              (some { p with state := .idle, workList := p.workList ++ [r] })
              ?_ ?_
            · rintro l' q _ - hq rfl
              exact hnot l' q hq
            · rintro _ ⟨⟩
              refine ⟨fun ho => (by cases ho), fun r' hr' => ?_, ?_⟩
              · rcases mem_append.mp hr' with hr' | hr'
                · have hne : r' ≠ r := fun heq => hnot _ p hp (.inr (heq ▸ hr'))
                  obtain ⟨hl, t', hm, hloose'⟩ := hok.works r' hr'
                  exact ⟨by rwa [ht.list r' hne], t', (ht.mem r' hne).trans hm, hloose'⟩
                · obtain rfl := mem_singleton.mp hr'
                  exact ⟨hlist₁, t₁, hmem₁, hloose₁⟩
              · refine nodup_append.mpr ⟨hok.nodup, pairwise_singleton _ r, ?_⟩
                rintro r' hr' q hq rfl
                exact hnot _ p hp (.inr (mem_singleton.mp hq ▸ hr'))
            · rintro _ r' ⟨⟩ (⟨ho, -⟩ | hr')
              · cases ho
              · rcases mem_append.mp hr' with hr' | hr'
                · exact .inr ⟨p, hp, .inr hr'⟩
                · exact .inl (mem_singleton.mp hr')
          case isFalse =>
            rw [Cm.kfree_setId]
            have hp' : (s₁.kfree (.ref r)).ids t₁.localId = some p := by
              rw [htouch.ids]
              exact hp
            exact hgone.trans h (hgone.inv.setId hp' rfl fun ho => absurd ho
              (by simp [CmState.owns]))

theorem cmProcessWork_follows (h : CmInv s) : Follows s (cmProcessWork s l).1 := by
  refine onId_follows h fun p hp => ?_
  split
  case h_1 => exact .refl h
  case h_2 r works hwork =>
    have hok := h.ids l p hp
    have hr : r ∈ p.workList := hwork ▸ mem_cons_self
    have hnodup : (r :: works).Nodup := hwork ▸ hok.nodup
    obtain ⟨hlist, t, hmem, hloose⟩ := hok.works r hr
    obtain ⟨hstore, ht, -⟩ := h.store.kfree hmem hloose hlist
    rw [Cm.kfree_setId]
    -- the works that are left were there before, and are not the one that is freed
    have hleft : ∀ r' ∈ works, r' ≠ r ∧ r' ∈ p.workList := fun r' hr' =>
      ⟨fun heq => (nodup_cons.mp hnodup).1 (heq ▸ hr'), hwork ▸ mem_cons_of_mem r hr'⟩
    refine h.update hstore ht ?_ (some { p with workList := works }) ?_ ?_
    · rintro l' q _ hl hq rfl hu
      exact hl (h.apart l' l q p _ hq hp hu (.inr hr))
    · rintro _ ⟨⟩
      refine ⟨fun ho => ?_, fun r' hr' => ?_, (nodup_cons.mp hnodup).2⟩
      · obtain ⟨r', t', hptr, hm, hl, hnot, htied⟩ := hok.owned ho
        have hne : r' ≠ r := fun heq => hnot (heq ▸ hr)
        exact ⟨r', t', hptr, (ht.mem r' hne).trans hm, by rwa [ht.list r' hne],
          fun hr' => hnot (hleft r' hr').2, htied.linked, htied.loose⟩
      · obtain ⟨hne, hr'⟩ := hleft r' hr'
        obtain ⟨hl, t', hm, hloose'⟩ := hok.works r' hr'
        exact ⟨by rwa [ht.list r' hne], t', (ht.mem r' hne).trans hm, hloose'⟩
    · rintro _ r' ⟨⟩ (hu | hr')
      · exact .inr ⟨p, hp, .inl hu⟩
      · exact .inr ⟨p, hp, .inr (hleft r' hr').2⟩

/-! ## Runs -/

theorem cmStep_steady (h : CmInv s) (e : Env × CmEvent) : Steady s (cmStep cfg s e) := by
  obtain ⟨env, e⟩ := e
  cases e with
  | recv m => exact cmRecvHandler_steady h m
  | create l caGuid => exact (ibCreateCmId_follows h caGuid).steady
  | listen l found => exact (ibCmListen_follows h found).steady
  | insertListen l => exact (ibCmInsertListen_follows h).steady
  | sendReq l param => exact (ibSendCmReq_follows h param).steady
  | sendRep l param => exact (ibSendCmRep_follows h param).steady
  | sendRtu l data => exact (ibSendCmRtu_follows h data).steady
  | sendMra l serviceTimeout data => exact (ibSendCmMra_follows h serviceTimeout data).steady
  | sendRej l reason ari => exact (ibSendCmRej_follows h reason ari).steady
  | sendDreq l => exact (ibSendCmDreq_follows h _).steady
  | sendDrep l data => exact (ibSendCmDrep_follows h data).steady
  | sendLap l path => exact (ibSendCmLap_follows h path).steady
  | sendApr l status => exact (ibSendCmApr_follows h status).steady
  | sendSidrReq l path serviceId => exact (ibSendCmSidrReq_follows h path serviceId).steady
  | sendSidrRep l status qpNum => exact (ibSendCmSidrRep_follows h status qpNum).steady
  | establish l => exact (cmEstablish_follows h).steady
  | migrate l => exact (cmMigrate_follows h).steady
  | destroy l nomem sends => exact (cmDestroyId_follows h nomem sends).steady
  | sendError l current state => exact (cmProcessSendError_follows h current state).steady
  | timewaitExit r => exact (cmTimewaitHandler_follows h r).steady
  | processWork l => exact (cmProcessWork_follows h).steady

theorem CmInv.empty : CmInv {} where
  store := {
    faults := rfl
    fresh := fun _ _ => rfl
    exact := fun tb r => by simp [SearchTree.toList]
    ordered := fun tb => List.Pairwise.nil
    nodup := nodup_nil
    listed := by simp
    queued := by simp }
  ids := by simp
  apart := by simp

/-- The tables are exact and have no key twice, nothing was misused, and every connection has
a live timewait_info of its own. -/
structure TimewaitSound (s : Cm) : Prop where
  faults : s.faults = []
  exact : ∀ tb r, r ∈ (s.tables tb).toList ↔ ∃ t, s.mem r = some t ∧ t.inserted tb = true
  distinct : ∀ tb r r', r ∈ (s.tables tb).toList → r' ∈ (s.tables tb).toList →
    s.key tb r = s.key tb r' → r = r'
  once : ∀ tb, (s.tables tb).toList.Nodup
  owned : ∀ l p, s.ids l = some p → p.state.owns = true → ∃ r t, p.timewaitInfo = .ref r ∧
    s.mem r = some t ∧ r ∉ s.timewaitList ∧
    ∀ l' p', s.ids l' = some p' → l' ≠ l → p'.state.owns = true → p'.timewaitInfo ≠ .ref r
  /-- No two cm_ids are bound to one remote QP. -/
  bound : ∀ l l' p p' r r' t t', s.ids l = some p → s.ids l' = some p' →
    p.state.bound = true → p'.state.bound = true →
    p.timewaitInfo = .ref r → p'.timewaitInfo = .ref r' → s.mem r = some t → s.mem r' = some t' →
    p.remoteQpn = p'.remoteQpn → t.remoteCaGuid = t'.remoteCaGuid → l = l'

theorem CmState.owns_of_bound {st : CmState} (h : st.bound = true) : st.owns = true := by
  cases st <;> first | rfl | cases h

theorem CmInv.sound (h : CmInv s) : TimewaitSound s where
  faults := h.store.faults
  exact := h.store.exact
  distinct tb _ _ hr hr' hkey := (h.store.ordered tb).injective hr hr' hkey
  once tb := (h.store.ordered tb).nodup
  owned l p hp howns := by
    obtain ⟨r, t, hh, -⟩ := h.holding hp howns
    refine ⟨r, t, hh.ptr, hh.mem, hh.list, ?_⟩
    exact fun l' p' hp' hl howns' hptr => hh.others l' p' hl hp' (.inl ⟨howns', hptr⟩)
  bound l l' p p' r r' t t' hp hp' hb hb' hptr hptr' hmem hmem' hqpn hguid := by
    have hentry : ∀ l p r t, s.ids l = some p → p.state.bound = true → p.timewaitInfo = .ref r →
        s.mem r = some t →
          r ∈ (s.tables .remoteQp).toList ∧
            s.key .remoteQp r = toLex (p.remoteQpn, t.remoteCaGuid) := by
      intro l p r t hp hb hptr hmem
      obtain ⟨r₀, t₀, hh, htied⟩ := h.holding hp (CmState.owns_of_bound hb)
      obtain rfl : r₀ = r := TwPtr.ref.inj (hh.ptr.symm.trans hptr)
      obtain rfl : t₀ = t := Option.some.inj (hh.mem.symm.trans hmem)
      obtain ⟨hins, hqpn⟩ := htied.linked hb
      refine ⟨(h.store.exact .remoteQp r₀).mpr ⟨t₀, hmem, hins .remoteQp⟩, ?_⟩
      rw [Cm.key_of_mem hmem, TimewaitInfo.key, hqpn]
    obtain ⟨hr, hkey⟩ := hentry l p r t hp hb hptr hmem
    obtain ⟨hr', hkey'⟩ := hentry l' p' r' t' hp' hb' hptr' hmem'
    have heq : r = r' := (h.store.ordered .remoteQp).injective hr hr' (by
      rw [hkey, hkey', hqpn, hguid])
    subst heq
    exact h.apart l l' p p' r hp hp' (.inl ⟨CmState.owns_of_bound hb, hptr⟩)
      (.inl ⟨CmState.owns_of_bound hb', hptr'⟩)

/-- In every state that a node reaches from no cm_ids, the tables are sound, and no linked
timewait_info gets another key. -/
theorem timewait_tables_every_run (cfg : Config) (es : List (Env × CmEvent)) :
    ∀ s ∈ Run.states (cmStep cfg) {} es, TimewaitSound s ∧
      ∀ e q t t', s.mem q = some t → ¬ t.Loose → (cmStep cfg s e).mem q = some t' →
        ∀ tb, t'.key tb = t.key tb := by
  have hstep : ∀ s e, CmInv s → True → CmInv (cmStep cfg s e) :=
    fun s e hs _ => (cmStep_steady hs e).inv
  have hrun : Run.Steps (cmStep cfg) (fun _ _ => True) {} es := Run.steps_true _ es
  have hinv := hrun.invariant hstep CmInv.empty
  intro s hs
  have h := hinv s hs
  exact ⟨h.sound, fun e => (cmStep_steady h e).keys⟩

end

/-- A tree library that does not rotate, and all GIDs those of one node. -/
def plainConfig : Config := ⟨SearchTree.Rebalance.plain Nat, fun _ => some 0⟩

/-- An id sends a REQ and gets the REP of its peer. -/
def repReceivedRun : List (Env × CmEvent) :=
  [({}, .create 1 7),
    ({}, .sendReq 1 { primaryPath := some { sgid := 1, dgid := 2 }, qpNum := 5 }),
    ({}, .recv ⟨2, 1, .rep ⟨9, 1, 8, 6, 0, 0, 0, 0, 0⟩⟩)]

theorem timewait_tables_every_run_rep :
    ((Run.final (cmStep plainConfig) {} repReceivedRun).tables .remoteQp).toList ≠ [] ∧
      TimewaitSound (Run.final (cmStep plainConfig) {} repReceivedRun) :=
  ⟨by decide,
    (timewait_tables_every_run plainConfig repReceivedRun _ (Run.final_mem_states _ _)).1⟩

end IbCm
