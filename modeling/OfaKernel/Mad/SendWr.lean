-- SUMMARY: One posted MAD of an agent without RMPP.
import Mathlib.Algebra.Order.Group.Int
import Mathlib.Algebra.Order.Group.Nat
import OfaKernel.Lib.Run

/-!
# Completing a MAD

A MAD is posted with a reference for its work request and, when it has a timeout, one for the
response. Each section under `mad_agent_priv->lock` is a step; a response takes two. A response
or the timer may find this MAD whenever it can be found.
-/

namespace Mad

/-- `enum ib_wc_status`, as far as the code names its values. -/
inductive WcStatus where
  | success
  | wrFlushErr
  | respTimeoutErr
  | other (code : Nat)
deriving DecidableEq, Repr

/-- The list of the agent that a MAD is on. -/
inductive Place where
  | none
  | sendList
  | waitList
  | doneList
  /-- `local_list`: the MAD is a directed-route SMP that the device has consumed. -/
  | localList
deriving DecidableEq, Repr

/-- A call of `send_handler`: the status, and how many work requests of the MAD have not
completed. -/
structure HandlerCall where
  status : WcStatus
  outstanding : Nat
deriving DecidableEq, Repr

/-- The tick rate of the kernel. -/
structure Ticks where
  hz : Nat
  hz_pos : 0 < hz

/-- `msecs_to_jiffies`: rounds up, and a negative time is for ever. -/
def Ticks.msecsToJiffies (t : Ticks) (m : Nat) : Nat :=
  if 2 ^ 31 ≤ m then 2 ^ 62 - 2 else (m * t.hz + 999) / 1000

/-- `struct ib_mad_send_wr_private`. The ghosts: whether `ib_send_mad` is still to be called, the
work requests the device has, the responses between `ib_mark_mad_done` and
`ib_mad_complete_send_wr`, and the calls of `send_handler`. -/
structure SendWr where
  refcount : Int
  timeout : Nat
  status : WcStatus := .success
  retriesLeft : Nat
  /-- `send_buf.timeout_ms` and `send_buf.retries` -/
  timeoutMs : Nat
  retries : Nat := 0
  place : Place
  posting : Bool
  inHw : Nat := 0
  marked : Nat := 0
  handled : List HandlerCall := []
deriving DecidableEq, Repr

/-- `ib_post_send_mad` up to `ib_send_mad`; `handledLocally` is the answer of
`handle_outgoing_dr_smp`. -/
def ibPostSendMad (t : Ticks) (timeoutMs retries : Nat) (handledLocally : Bool) : SendWr :=
  let timeout := t.msecsToJiffies timeoutMs
  { refcount := 1 + if 0 < timeout then 1 else 0
    timeout
    retriesLeft := retries
    timeoutMs
    place := if handledLocally then .localList else .sendList
    posting := !handledLocally }

namespace SendWr

variable (t : Ticks) (w : SendWr)

def outstanding : Nat := w.inHw + if w.posting then 1 else 0

/-- The call of `send_handler`, with the MAD on no list any more. -/
def handle (status : WcStatus) : SendWr :=
  { w with place := .none, handled := ⟨status, w.outstanding⟩ :: w.handled }

def waitForResponse (jiffies : Nat) : SendWr :=
  { w with timeout := (w.timeout + jiffies) % 2 ^ 64, place := .waitList }

/-- The drop of the response's reference when the timeout is set. -/
def dropResponse : Int := w.refcount - if 0 < w.timeout then 1 else 0

/-- `ib_mad_complete_send_wr`, for an agent without RMPP. -/
def ibMadCompleteSendWr (status : WcStatus) (jiffies : Nat) : SendWr :=
  let w :=
    if status ≠ .success ∧ w.status = .success then
      { w with status, refcount := w.dropResponse }
    else w
  let w := { w with refcount := w.refcount - 1 }
  if 0 < w.refcount then
    if w.refcount = 1 ∧ w.timeout ≠ 0 ∧ w.status = .success then w.waitForResponse jiffies
    else w
  else w.handle (if w.status ≠ .success then w.status else status)

/-- `ib_find_send_mad` returns this MAD for a response to it, unless it finds another first. -/
def Found : Prop :=
  w.status = .success ∧ (w.place = .waitList ∨ w.place = .sendList ∧ w.timeout ≠ 0)

instance : Decidable w.Found :=
  inferInstanceAs
    (Decidable (w.status = .success ∧ (w.place = .waitList ∨ w.place = .sendList ∧ w.timeout ≠ 0)))

def ibMarkMadDone : SendWr :=
  { w with timeout := 0, place := if w.refcount = 1 then .doneList else w.place }

/-- `timeout_sends`, when it takes this MAD from the wait list: `retry_send` posts it once more,
or the MAD fails. -/
def timeoutSends (sent : Bool) : SendWr :=
  if w.status = .success then
    if w.retriesLeft = 0 then w.handle .respTimeoutErr
    else
      let w :=
        { w with
          retriesLeft := w.retriesLeft - 1
          retries := w.retries + 1
          timeout := t.msecsToJiffies w.timeoutMs }
      if sent then { w with refcount := w.refcount + 1, place := .sendList, inHw := w.inHw + 1 }
      else w.handle .respTimeoutErr
  else w.handle w.status

/-- `ib_modify_mad`; `ib_cancel_mad` gives a timeout of 0. -/
def ibModifyMad (timeoutMs jiffies : Nat) : SendWr :=
  if (w.place = .waitList ∨ w.place = .sendList) ∧ w.status = .success then
    let active := w.timeout = 0 ∨ 1 < w.refcount
    let w' :=
      if timeoutMs = 0 then { w with status := .wrFlushErr, refcount := w.dropResponse } else w
    let w' := { w' with timeoutMs, timeout := t.msecsToJiffies timeoutMs }
    if active then w' else w'.waitForResponse jiffies
  else w

end SendWr

/-! ## Events -/

inductive Event where
  /-- `ib_send_mad`, called by `ib_post_send_mad`. -/
  | sendMad (sent : Bool)
  /-- `ib_mad_send_done`: a work request has completed. -/
  | sendDone (status : WcStatus) (jiffies : Nat)
  /-- A response: `ib_find_send_mad` and `ib_mark_mad_done`. -/
  | response
  /-- The same response, after `recv_handler`. -/
  | completeRecv (jiffies : Nat)
  /-- `timeout_sends`. -/
  | expire (sent : Bool)
  | modify (timeoutMs jiffies : Nat)
  | localDone
deriving DecidableEq, Repr

namespace SendWr

def step (t : Ticks) (w : SendWr) : Event → SendWr
  | .sendMad sent =>
    if sent then { w with posting := false, inHw := w.inHw + 1 }
    else { w with posting := false, place := .none }
  | .sendDone status jiffies =>
    { w with inHw := w.inHw - 1 }.ibMadCompleteSendWr status jiffies
  | .response => if w.Found then { w.ibMarkMadDone with marked := w.marked + 1 } else w
  | .completeRecv jiffies =>
    { w with marked := w.marked - 1 }.ibMadCompleteSendWr .success jiffies
  | .expire sent => if w.place = .waitList then w.timeoutSends t sent else w
  | .modify timeoutMs jiffies => w.ibModifyMad t timeoutMs jiffies
  | .localDone => w.handle .success

/-- What can happen at all: only a work request that was posted completes, and a response is
finished after it was begun. -/
def Valid (w : SendWr) : Event → Prop
  | .sendMad _ => w.posting = true
  | .sendDone _ _ => 0 < w.inHw
  | .completeRecv _ => 0 < w.marked
  | .localDone => w.place = .localList
  | .response | .expire _ | .modify _ _ => True

instance (w : SendWr) : ∀ e, Decidable (w.Valid e)
  | .sendMad _ => inferInstanceAs (Decidable (w.posting = true))
  | .sendDone _ _ => inferInstanceAs (Decidable (0 < w.inHw))
  | .completeRecv _ => inferInstanceAs (Decidable (0 < w.marked))
  | .localDone => inferInstanceAs (Decidable (w.place = .localList))
  | .response | .expire _ | .modify _ _ => inferInstanceAs (Decidable True)

/-- `ib_modify_mad` with a timeout other than 0 does not find a MAD on the send list that awaits
no response. -/
def AnswerAwaited (w : SendWr) : Event → Prop
  | .modify timeoutMs _ => timeoutMs ≠ 0 → w.place = .sendList → w.timeout ≠ 0
  | _ => True

instance (w : SendWr) : ∀ e, Decidable (w.AnswerAwaited e)
  | .modify timeoutMs _ =>
    inferInstanceAs (Decidable (timeoutMs ≠ 0 → w.place = .sendList → w.timeout ≠ 0))
  | .sendMad _ | .sendDone _ _ | .response | .completeRecv _ | .expire _ | .localDone =>
    inferInstanceAs (Decidable True)

/-- `send_handler` is called at most once, and not while a work request is with the device. -/
def HandledOnce (w : SendWr) : Prop :=
  w.handled.length ≤ 1 ∧ ∀ c ∈ w.handled, c.outstanding = 0

instance (w : SendWr) : Decidable w.HandledOnce :=
  inferInstanceAs (Decidable (w.handled.length ≤ 1 ∧ ∀ c ∈ w.handled, c.outstanding = 0))

/-! ## The invariant -/

/-- The references, by the list the MAD is on. A response that was begun holds the response's
reference, so the timeout is 0 then. -/
structure Inv (w : SendWr) : Prop where
  marked : w.marked ≤ 1
  quiet : w.marked = 1 → w.timeout = 0
  atLocal : w.place = .localList → w.outstanding = 0 ∧ w.marked = 0
  send : w.place = .sendList →
    w.outstanding ≤ 1 ∧ 0 < w.outstanding + w.marked ∧
    w.refcount = w.outstanding + w.marked + if 0 < w.timeout then 1 else 0
  awaiting : w.place = .sendList → 0 < w.timeout →
    w.outstanding = 1 ∧ w.status = .success ∧ w.timeoutMs ≠ 0
  wait : w.place = .waitList → w.outstanding = 0 ∧ w.marked = 0 ∧
    (w.status = .success → w.refcount = 1 ∧ w.timeoutMs ≠ 0)
  done : w.place = .doneList → w.outstanding = 0 ∧ w.marked = 1 ∧ w.refcount = 1
  /-- After a failed `ib_send_mad`, a response that is still going on has the last reference but
  one. -/
  failed : w.place = .none → w.outstanding = 0 ∧ (w.marked = 1 → w.refcount = 2)
  fresh : w.place ≠ .none → w.handled = []
  once : w.HandledOnce

variable {t : Ticks} {w : SendWr} {status : WcStatus} {jiffies : Nat}

theorem Inv.ofSend (hp : w.place = .sendList) (hm : w.marked ≤ 1)
    (hquiet : w.marked = 1 → w.timeout = 0)
    (hout : w.outstanding ≤ 1 ∧ 0 < w.outstanding + w.marked ∧
      w.refcount = w.outstanding + w.marked + if 0 < w.timeout then 1 else 0)
    (hawait : 0 < w.timeout → w.outstanding = 1 ∧ w.status = .success ∧ w.timeoutMs ≠ 0)
    (hfresh : w.handled = []) : w.Inv where
  marked := hm
  quiet := hquiet
  atLocal := by simp [hp]
  send _ := hout
  awaiting _ := hawait
  wait := by simp [hp]
  done := by simp [hp]
  failed := by simp [hp]
  fresh _ := hfresh
  once := by simp [HandledOnce, hfresh]

theorem Inv.ofWait (hp : w.place = .waitList) (hout : w.outstanding = 0) (hm : w.marked = 0)
    (hawait : w.status = .success → w.refcount = 1 ∧ w.timeoutMs ≠ 0) (hfresh : w.handled = []) :
    w.Inv where
  marked := by simp [hm]
  quiet := by simp [hm]
  atLocal := by simp [hp]
  send := by simp [hp]
  awaiting := by simp [hp]
  wait _ := ⟨hout, hm, hawait⟩
  done := by simp [hp]
  failed := by simp [hp]
  fresh _ := hfresh
  once := by simp [HandledOnce, hfresh]

/-- A MAD that is on no list: handled, or never sent. -/
theorem Inv.ofNone (hp : w.place = .none) (hout : w.outstanding = 0) (hm : w.marked ≤ 1)
    (hquiet : w.marked = 1 → w.timeout = 0 ∧ w.refcount = 2) (honce : w.HandledOnce) : w.Inv where
  marked := hm
  quiet h := (hquiet h).1
  atLocal := by simp [hp]
  send := by simp [hp]
  awaiting := by simp [hp]
  wait := by simp [hp]
  done := by simp [hp]
  failed _ := ⟨hout, fun h => (hquiet h).2⟩
  fresh := by simp [hp]
  once := honce

theorem Inv.handle (hout : w.outstanding = 0) (hm : w.marked = 0) (hfresh : w.handled = []) :
    (w.handle status).Inv := by
  refine Inv.ofNone rfl hout ?_ ?_ ?_
  · exact hm.le.trans zero_le_one
  · intro h
    exact absurd (hm.symm.trans h) zero_ne_one
  · simp [HandledOnce, SendWr.handle, hfresh, hout]

theorem msecsToJiffies_pos {m : Nat} (h : m ≠ 0) : 0 < t.msecsToJiffies m := by
  have hm : 1 ≤ m * t.hz := Nat.mul_pos (Nat.pos_of_ne_zero h) t.hz_pos
  unfold Ticks.msecsToJiffies
  split
  · decide
  · omega

theorem msecsToJiffies_zero : t.msecsToJiffies 0 = 0 := by
  unfold Ticks.msecsToJiffies
  simp

theorem ibPostSendMad_inv (timeoutMs retries : Nat) (handledLocally : Bool) :
    (ibPostSendMad t timeoutMs retries handledLocally).Inv := by
  cases handledLocally with
  | false =>
    refine Inv.ofSend rfl ?_ ?_ ?_ ?_ ?_
    · exact zero_le_one
    · intro h
      cases h
    · simp [ibPostSendMad, outstanding]
    · intro h
      refine ⟨rfl, rfl, ?_⟩
      rintro (rfl : timeoutMs = 0)
      rw [ibPostSendMad, msecsToJiffies_zero] at h
      exact lt_irrefl 0 h
    · rfl
  | true =>
    exact
      { marked := zero_le_one
        quiet := nofun
        atLocal := fun _ => ⟨rfl, rfl⟩
        send := nofun
        awaiting := nofun
        wait := nofun
        done := nofun
        failed := nofun
        fresh := fun _ => rfl
        once := ⟨zero_le_one, nofun⟩ }

/-! ## Steps -/

theorem Inv.sendMad (h : w.Inv) (hv : w.posting = true) (hp : w.place = .sendList) (sent : Bool) :
    (w.step t (.sendMad sent)).Inv := by
  obtain ⟨hle, hpos, href⟩ := h.send hp
  have hout : w.outstanding = w.inHw + 1 := by simp [outstanding, hv]
  have hhw : w.inHw = 0 := by omega
  cases sent with
  | true =>
    have hsame : (w.step t (.sendMad true)).outstanding = w.outstanding := by
      simp [step, outstanding, hv]
    refine Inv.ofSend hp h.marked h.quiet ?_ ?_ ?_
    · rw [hsame]
      exact ⟨hle, hpos, href⟩
    · rw [hsame]
      exact h.awaiting hp
    · exact h.fresh (by simp [hp])
  | false =>
    refine Inv.ofNone rfl ?_ ?_ ?_ ?_
    · simp [step, outstanding, hhw]
    · exact h.marked
    · intro hm
      have htimeout := h.quiet hm
      refine ⟨htimeout, ?_⟩
      show w.refcount = 2
      rw [href, hout, hhw, htimeout, show w.marked = 1 from hm]
      rfl
    · exact h.once

/-- The completion of a work request or of a response gives back one reference. -/
theorem Inv.complete {n : Nat} (hn : w.outstanding = n) (hp : w.place = .sendList)
    (hm : w.marked ≤ 1) (hquiet : w.marked = 1 → w.timeout = 0) (hle : n ≤ 1)
    (href : w.refcount = n + w.marked + 1 + if 0 < w.timeout then 1 else 0)
    (hawait : 0 < w.timeout → n = 0 ∧ w.status = .success ∧ w.timeoutMs ≠ 0)
    (hfresh : w.handled = []) : (w.ibMadCompleteSendWr status jiffies).Inv := by
  subst hn
  unfold ibMadCompleteSendWr
  by_cases ht : 0 < w.timeout
  · -- the work request has completed, and a response is awaited
    obtain ⟨hout, hok, hms⟩ := hawait ht
    have hm0 : w.marked = 0 := by
      omega
    rw [if_pos ht, hout, hm0] at href
    by_cases hst : status = .success
    · simp only [hst, ne_eq, not_true, false_and, if_false, href, hok]
      rw [if_pos (by decide), if_pos ⟨by decide, Nat.pos_iff_ne_zero.mp ht, trivial⟩]
      exact Inv.ofWait rfl hout hm0 (fun _ => ⟨by simp [waitForResponse], hms⟩) hfresh
    · simp only [hst, hok, ne_eq, not_false_eq_true, true_and, if_true, dropResponse, href, ht]
      exact Inv.handle hout hm0 hfresh
  · have htimeout : w.timeout = 0 := Nat.eq_zero_of_not_pos ht
    have hdrop : w.dropResponse = w.refcount := by simp [dropResponse, htimeout]
    generalize hw' : (if status ≠ .success ∧ w.status = .success then
      { w with status, refcount := w.dropResponse } else w) = w'
    obtain ⟨st, rfl⟩ : ∃ st, w' = { w with status := st } := by
      rw [← hw', hdrop]
      split
      · exact ⟨status, rfl⟩
      · exact ⟨w.status, rfl⟩
    have hcount : w.refcount - 1 = w.outstanding + w.marked := by omega
    simp only [hcount, htimeout, ne_eq, not_true, false_and, and_false, if_false]
    split
    · next hpos =>
        refine Inv.ofSend hp hm (fun _ => rfl) ?_ ?_ ?_
        · refine ⟨hle, by exact_mod_cast hpos, ?_⟩
          simp [outstanding]
        · intro h0
          exact absurd h0 (lt_irrefl 0)
        · exact hfresh
    · next hzero =>
        have hout : w.outstanding = 0 := by omega
        have hm0 : w.marked = 0 := by omega
        exact Inv.handle hout hm0 hfresh

theorem Inv.sendDone (h : w.Inv) (hv : 0 < w.inHw) (hp : w.place = .sendList) :
    (w.step t (.sendDone status jiffies)).Inv := by
  obtain ⟨hle, -, href⟩ := h.send hp
  have hone : w.outstanding = 1 := by
    have hge : w.inHw ≤ w.outstanding := Nat.le_add_right _ _
    omega
  have hnone : w.inHw - 1 + (if w.posting then 1 else 0) = 0 := by
    have hsum : w.inHw + (if w.posting then 1 else 0) = 1 := hone
    omega
  refine Inv.complete hnone hp h.marked h.quiet zero_le_one ?_ ?_ (h.fresh (by simp [hp]))
  · push_cast
    omega
  · intro ht
    exact ⟨rfl, (h.awaiting hp ht).2⟩

theorem Inv.response (h : w.Inv) : (w.step t .response).Inv := by
  show (if w.Found then _ else w).Inv
  split
  · next hfound =>
      obtain ⟨hok, hp | ⟨hp, ht⟩⟩ := hfound
      · obtain ⟨hout, hm, hawait⟩ := h.wait hp
        have href := (hawait hok).1
        have hfresh := h.fresh (by simp [hp])
        exact
          { marked := by simp [hm]
            quiet := fun _ => rfl
            atLocal := by simp [ibMarkMadDone, href]
            send := by simp [ibMarkMadDone, href]
            awaiting := by simp [ibMarkMadDone]
            wait := by simp [ibMarkMadDone, href]
            done := fun _ => ⟨hout, by simp [hm], href⟩
            failed := by simp [ibMarkMadDone, href]
            fresh := fun _ => hfresh
            once := h.once }
      · obtain ⟨hle, -, href⟩ := h.send hp
        have hpos := Nat.pos_of_ne_zero ht
        obtain ⟨hone, -, -⟩ := h.awaiting hp hpos
        have hm : w.marked = 0 := by
          have hne : w.marked ≠ 1 := fun h1 => ht (h.quiet h1)
          have hle := h.marked
          omega
        have htwo : w.refcount = 2 := by
          rw [href, hone, hm, if_pos hpos]
          rfl
        have hplace : w.ibMarkMadDone.place = .sendList := by simp [ibMarkMadDone, htwo, hp]
        refine Inv.ofSend hplace ?_ (fun _ => rfl) ?_ ?_ (h.fresh (by simp [hp]))
        · simp [hm]
        · show w.outstanding ≤ 1 ∧ 0 < w.outstanding + (w.marked + 1) ∧
            w.refcount = w.outstanding + (w.marked + 1 : Nat) + if 0 < 0 then 1 else 0
          rw [hone, hm, htwo]
          exact ⟨le_rfl, by decide, rfl⟩
        · intro h0
          exact absurd h0 (lt_irrefl 0)
  · exact h

theorem Inv.completeRecv (h : w.Inv) (hv : 0 < w.marked) :
    (w.step t (.completeRecv jiffies)).Inv := by
  have hm : w.marked = 1 := by
    have hle := h.marked
    omega
  have ht := h.quiet hm
  have hm' : ({ w with marked := w.marked - 1 } : SendWr).marked = 0 := by
    show w.marked - 1 = 0
    omega
  cases hp : w.place with
  | sendList =>
    obtain ⟨hle, -, href⟩ := h.send hp
    refine Inv.complete rfl hp (by omega) (by omega) hle ?_ ?_ (h.fresh (by simp [hp]))
    · rw [href, hm]
      rfl
    · intro h0
      exact absurd ht (Nat.pos_iff_ne_zero.mp h0)
  | doneList =>
    obtain ⟨hout, -, href⟩ := h.done hp
    have hfinal : (w.step t (.completeRecv jiffies)) =
        ({ w with marked := w.marked - 1, refcount := w.refcount - 1 } : SendWr).handle
          (if w.status ≠ .success then w.status else .success) := by
      simp [step, ibMadCompleteSendWr, href]
    rw [hfinal]
    exact Inv.handle hout hm' (h.fresh (by simp [hp]))
  | none =>
    obtain ⟨hout, href⟩ := h.failed hp
    have hfinal : (w.step t (.completeRecv jiffies)) =
        { w with marked := w.marked - 1, refcount := w.refcount - 1 } := by
      simp [step, ibMadCompleteSendWr, href hm, ht]
    rw [hfinal]
    refine Inv.ofNone hp hout (hm'.le.trans zero_le_one) ?_ h.once
    intro h1
    exact absurd (hm'.symm.trans h1) zero_ne_one
  | waitList => exact absurd (h.wait hp).2.1 (by omega)
  | localList => exact absurd (h.atLocal hp).2 (by omega)

theorem Inv.expire (h : w.Inv) (sent : Bool) : (w.step t (.expire sent)).Inv := by
  show (if w.place = .waitList then w.timeoutSends t sent else w).Inv
  split
  · next hp =>
      obtain ⟨hout, hm, hawait⟩ := h.wait hp
      have hfresh := h.fresh (by simp [hp])
      unfold timeoutSends
      split
      · next hok =>
          obtain ⟨href, hms⟩ := hawait hok
          split
          · exact Inv.handle hout hm hfresh
          · cases sent with
            | false => exact Inv.handle hout hm hfresh
            | true =>
              have hpos := msecsToJiffies_pos (t := t) hms
              have hout' : w.inHw + 1 + (if w.posting then 1 else 0) = 1 := by
                have h0 : w.inHw + (if w.posting then 1 else 0) = 0 := hout
                omega
              simp only [if_true]
              refine Inv.ofSend rfl (hm.le.trans zero_le_one) ?_ ?_ ?_ hfresh
              · intro h1
                exact absurd (hm.symm.trans h1) zero_ne_one
              · show w.inHw + 1 + _ ≤ 1 ∧ 0 < w.inHw + 1 + _ + w.marked ∧
                  w.refcount + 1 = (w.inHw + 1 + _ : Nat) + w.marked + if 0 < t.msecsToJiffies _
                    then 1 else 0
                rw [hout', if_pos hpos, hm, href]
                exact ⟨le_rfl, by decide, rfl⟩
              · intro _
                exact ⟨hout', hok, hms⟩
      · exact Inv.handle hout hm hfresh
  · exact h

theorem Inv.modify (h : w.Inv) {timeoutMs : Nat}
    (hawaited : w.AnswerAwaited (.modify timeoutMs jiffies)) :
    (w.step t (.modify timeoutMs jiffies)).Inv := by
  show (w.ibModifyMad t timeoutMs jiffies).Inv
  unfold ibModifyMad
  split
  · next hfound =>
      obtain ⟨hp | hp, hok⟩ := hfound
      · -- on the wait list it stays
        obtain ⟨hout, hm, hawait⟩ := h.wait hp
        have hfresh := h.fresh (by simp [hp])
        by_cases hms : timeoutMs = 0
        · simp only [hms, if_true]
          split
          · exact Inv.ofWait hp hout hm nofun hfresh
          · exact Inv.ofWait rfl hout hm nofun hfresh
        · simp only [hms, if_false]
          split
          · exact Inv.ofWait hp hout hm (fun _ => ⟨(hawait hok).1, hms⟩) hfresh
          · exact Inv.ofWait rfl hout hm (fun _ => ⟨(hawait hok).1, hms⟩) hfresh
      · obtain ⟨hle, hpos, href⟩ := h.send hp
        have hfresh := h.fresh (by simp [hp])
        have hactive : w.timeout = 0 ∨ 1 < w.refcount := by
          by_cases ht : w.timeout = 0
          · exact .inl ht
          · exact .inr (by omega)
        rw [if_pos hactive]
        by_cases hms : timeoutMs = 0
        · simp only [hms, if_true, msecsToJiffies_zero]
          refine Inv.ofSend hp h.marked (fun _ => rfl) ⟨hle, hpos, ?_⟩ ?_ hfresh
          · show w.dropResponse = w.outstanding + w.marked + 0
            rw [dropResponse, href, add_sub_cancel_right, add_zero]
          · intro h0
            exact absurd h0 (lt_irrefl 0)
        · have ht := Nat.pos_of_ne_zero (hawaited hms hp)
          have hnew := msecsToJiffies_pos (t := t) hms
          obtain ⟨hone, -, -⟩ := h.awaiting hp ht
          simp only [hms, if_false]
          refine Inv.ofSend hp h.marked ?_ ⟨hle, hpos, ?_⟩ (fun _ => ⟨hone, hok, hms⟩) hfresh
          · intro h1
            exact absurd (h.quiet h1) (hawaited hms hp)
          · show w.refcount = w.outstanding + w.marked + if 0 < t.msecsToJiffies timeoutMs
              then 1 else 0
            rw [href, if_pos ht, if_pos hnew]
  · exact h

/-- Where the hardware has, or is to get, a work request, the MAD is on the send list. -/
theorem Inv.onSendList (h : w.Inv) (hout : 0 < w.outstanding) : w.place = .sendList := by
  cases hp : w.place with
  | sendList => rfl
  | none => exact absurd (h.failed hp).1 (by omega)
  | waitList => exact absurd (h.wait hp).1 (by omega)
  | doneList => exact absurd (h.done hp).1 (by omega)
  | localList => exact absurd (h.atLocal hp).1 (by omega)

theorem Inv.step (h : w.Inv) {e : Event} (hv : w.Valid e) (hawaited : w.AnswerAwaited e) :
    (w.step t e).Inv := by
  cases e with
  | sendMad sent =>
    have hp := h.onSendList (by simp [outstanding, show w.posting = true from hv])
    exact h.sendMad hv hp sent
  | sendDone status jiffies =>
    have hp := h.onSendList (Nat.lt_of_lt_of_le hv (Nat.le_add_right _ _))
    exact h.sendDone hv hp
  | response => exact h.response
  | completeRecv jiffies => exact h.completeRecv hv
  | expire sent => exact h.expire sent
  | modify timeoutMs jiffies => exact h.modify hawaited
  | localDone =>
    obtain ⟨hout, hm⟩ := h.atLocal hv
    exact Inv.handle hout hm (h.fresh (by simp [show w.place = .localList from hv]))

end SendWr

/-- The `send_handler` of a MAD is called at most once, and only when no work request of it is
outstanding. -/
theorem send_handler_every_run (t : Ticks) (timeoutMs retries : Nat) (handledLocally : Bool)
    (events : List Event)
    (hvalid : Run.Steps (SendWr.step t) SendWr.Valid
      (ibPostSendMad t timeoutMs retries handledLocally) events)
    (hawaited : Run.Steps (SendWr.step t) SendWr.AnswerAwaited
      (ibPostSendMad t timeoutMs retries handledLocally) events) :
    ∀ w ∈ Run.states (SendWr.step t) (ibPostSendMad t timeoutMs retries handledLocally) events,
      w.HandledOnce := by
  have hsteps := Run.steps_and.mpr ⟨hvalid, hawaited⟩
  have hstep : ∀ w e, SendWr.Inv w → w.Valid e ∧ w.AnswerAwaited e → (w.step t e).Inv :=
    fun _ _ h hok => h.step hok.1 hok.2
  have hinv := hsteps.invariant hstep
    (SendWr.ibPostSendMad_inv timeoutMs retries handledLocally)
  intro w hw
  exact (hinv w hw).once

theorem milliTicks_pos : 0 < 1000 := by decide

def milliTicks : Ticks := ⟨1000, milliTicks_pos⟩

/-- A request whose response comes before the completion of the work request, is retried, and is
answered while it waits. -/
def retriedRun : List Event :=
  [.sendMad true, .sendDone .success 10, .modify 7 10, .expire true, .response, .completeRecv 20,
    .sendDone .success 30, .response]

theorem send_handler_every_run_retried :
    (Run.final (SendWr.step milliTicks) (ibPostSendMad milliTicks 5 1 false)
    retriedRun).HandledOnce :=
  send_handler_every_run milliTicks 5 1 false retriedRun (by decide) (by decide) _
    (Run.final_mem_states _ _)

/-- A MAD posted without a timeout, given one before its work request has completed, and then
answered: the response takes the reference of the work request. -/
def modifiedRun : List Event := [.sendMad true, .modify 5 0, .response, .completeRecv 0]

theorem modified_mad_handled_early :
    ¬∀ (t : Ticks) (timeoutMs retries : Nat) (handledLocally : Bool) (events : List Event),
      Run.Steps (SendWr.step t) SendWr.Valid
        (ibPostSendMad t timeoutMs retries handledLocally) events →
      ∀ w ∈ Run.states (SendWr.step t) (ibPostSendMad t timeoutMs retries handledLocally) events,
        w.HandledOnce := by
  intro h
  have hfinal := h milliTicks 0 0 false modifiedRun (by decide) _ (Run.final_mem_states _ _)
  revert hfinal
  decide

end Mad
