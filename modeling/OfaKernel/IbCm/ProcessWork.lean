-- SUMMARY: How the IB CM hands events to the user.
import OfaKernel.Lib.Run
import OfaKernel.Lib.Threads

/-!
# Event delivery

The increment of `work_count` that reaches zero makes its thread the processing thread; any other
event goes to `work_list`. A handler is a thread that may accept its event or not. Each atomic
operation, and each section under the lock that another thread can fall between, is a step.
-/

open List

namespace IbCm

/-! ## Threads -/

/-- The next operation of a thread that has found the cm_id. -/
inductive CmPc where
  /-- `spin_lock_irq(&cm_id_priv->lock)` of a handler. -/
  | lock
  /-- The state check, and `atomic_inc_and_test(&cm_id_priv->work_count)`. -/
  | check
  | listAdd
  | unlockDrop
  | deref
  | unlockOwn
  /-- `cm_process_work`: the callback for event `w` is about to be made. -/
  | call (w : Nat)
  | inCall (w : Nat)
  | freeWork (w : Nat) (ok : Bool)
  /-- `atomic_add_negative(-1, &cm_id_priv->work_count)`. -/
  | countDown
  | lockQueue
  | dequeue
  | unlockCall (w : Nat)
  /-- The list was empty: `cm_process_work` returns and keeps its reference. -/
  | unlockReturn
  | leaked
  /-- The callback failed: the reference is dropped, and `cm_destroy_id` follows. -/
  | derefFail
  | freeId
  | derefOwn
  | waitComp
  | drain
  | destroyed
  | done
  deriving Repr, DecidableEq

/-- A cm_id as far as events go, and their history: the events accepted, taken on by the
processing thread, given to the callback, freed after it, freed by the destroy, and those whose
reference was dropped. -/
structure CmWork where
  inTable : Bool := true
  refcount : Int := 1
  workCount : Int := -1
  workList : List Nat := []
  lock : Option Nat := none
  threads : List CmPc := []
  accepted : List Nat := []
  started : List Nat := []
  callbacks : List Nat := []
  freed : List Nat := []
  drained : List Nat := []
  dropped : List Nat := []
  finished : Nat := 0
  failedAt : Option Nat := none
  deriving Repr, DecidableEq

def CmWork.create : CmWork := {}

/-- A cm_id that `cm_match_req` has made for a REQ: its handler is about to process it. -/
def CmWork.request : CmWork :=
  { refcount := 2, workCount := 0, threads := [.call 0], accepted := [0], started := [0] }

def CmWork.goto (s : CmWork) (i : Nat) (pc : CmPc) : CmWork :=
  { s with threads := s.threads.set i pc }

/-- A step of thread `i`; `b` tells whether the state check accepts the event, or whether
the callback returns zero. -/
def pcStep (s : CmWork) (i : Nat) (b : Bool) : CmPc → CmWork
  | .lock => if s.lock = none then { s.goto i .check with lock := some i } else s
  | .check =>
    if b then
      { s.goto i (if s.workCount + 1 = 0 then .unlockOwn else .listAdd) with
        workCount := s.workCount + 1, accepted := s.accepted ++ [i]
        started := if s.workCount + 1 = 0 then s.started ++ [i] else s.started }
    else s.goto i .unlockDrop
  | .listAdd => { s.goto i .unlockDrop with workList := s.workList ++ [i] }
  | .unlockDrop => { s.goto i .deref with lock := none }
  | .deref => { s.goto i .done with refcount := s.refcount - 1, dropped := s.dropped ++ [i] }
  | .unlockOwn => { s.goto i (.call i) with lock := none }
  | .call w => { s.goto i (.inCall w) with callbacks := s.callbacks ++ [w] }
  | .inCall w =>
    { s.goto i (.freeWork w b) with
      failedAt := if b then s.failedAt else some s.callbacks.length }
  | .freeWork w ok =>
    { s.goto i (if ok then .countDown else .derefFail) with freed := s.freed ++ [w] }
  | .countDown =>
    { s.goto i (if s.workCount - 1 < 0 then .deref else .lockQueue) with
      workCount := s.workCount - 1, finished := s.finished + 1 }
  | .lockQueue => if s.lock = none then { s.goto i .dequeue with lock := some i } else s
  | .dequeue =>
    match s.workList with
    | [] => s.goto i .unlockReturn
    | w :: ws =>
      { s.goto i (.unlockCall w) with workList := ws, started := s.started ++ [w] }
  | .unlockCall w => { s.goto i (.call w) with lock := none }
  | .unlockReturn => { s.goto i .leaked with lock := none }
  | .derefFail =>
    { s.goto i .freeId with refcount := s.refcount - 1, dropped := s.dropped ++ [i] }
  | .freeId => { s.goto i .derefOwn with inTable := false }
  | .derefOwn => { s.goto i .waitComp with refcount := s.refcount - 1 }
  | .waitComp => if s.refcount = 0 then s.goto i .drain else s
  | .drain =>
    match s.workList with
    | [] => s.goto i .destroyed
    | w :: ws => { s with workList := ws, drained := s.drained ++ [w] }
  | .leaked | .destroyed | .done => s

/-- A handler finds the cm_id (`cm_acquire_id`), or a thread goes on. -/
inductive CmWorkAction where
  | acquire
  | step (i : Nat) (b : Bool)
  deriving Repr, DecidableEq

def workStep (s : CmWork) : CmWorkAction → CmWork
  | .acquire =>
    if s.inTable then { s with refcount := s.refcount + 1, threads := s.threads ++ [.lock] } else s
  | .step i b =>
    match s.threads[i]? with
    | none => s
    | some pc => pcStep s i b pc

/-! ## What a step does -/

/-- Places in a section under the lock. -/
def CmPc.holdsLock : CmPc → Bool
  | .check | .listAdd | .unlockDrop | .unlockOwn | .dequeue | .unlockCall _ | .unlockReturn => true
  | _ => false

/-- The references a thread stands for; the destroy drops the one of the user. -/
def CmPc.refs : CmPc → Int
  | .freeId | .derefOwn | .done => 0
  | .waitComp | .drain | .destroyed => -1
  | _ => 1

/-- The thread has dropped the reference of its event. -/
def CmPc.dropped : CmPc → Bool
  | .freeId | .derefOwn | .waitComp | .drain | .destroyed | .done => true
  | _ => false

/-- The thread has not yet decided about its event. -/
def CmPc.undecided : CmPc → Bool
  | .lock | .check => true
  | _ => false

/-- The cm_id is no longer in the table. -/
def CmPc.removed : CmPc → Bool
  | .derefOwn | .waitComp | .drain | .destroyed => true
  | _ => false

/-- What a move of thread `i` does to the lock, the references and the table, and which event is
accepted or dropped. -/
structure Moved (s s' : CmWork) (i : Nat) (pc pc' : CmPc) : Prop where
  threads : s'.threads = s.threads.set i pc'
  lock : s'.lock = Threads.whoAfter CmPc.holdsLock i pc pc' s.lock
  free : pc'.holdsLock → pc.holdsLock ∨ s.lock = none
  refcount : s'.refcount = s.refcount - pc.refs + pc'.refs
  inTable : s'.inTable = (s.inTable && !(pc'.removed && !pc.removed))
  dropped : s'.dropped = if pc'.dropped && !pc.dropped then s.dropped ++ [i] else s.dropped
  keeps : pc.dropped → pc'.dropped
  accepted : s'.accepted = s.accepted ∨ pc.undecided ∧ s'.accepted = s.accepted ++ [i]
  decided : pc'.undecided → pc.undecided ∧ s'.accepted = s.accepted
  ends : pc' = .drain ∨ pc' = .destroyed → pc = .drain ∨ pc = .waitComp ∧ s.refcount = 0
  notDone : pc ≠ .done

/-- No thread has moved. -/
structure Stayed (s s' : CmWork) : Prop where
  threads : s'.threads = s.threads
  lock : s'.lock = s.lock
  refcount : s'.refcount = s.refcount
  inTable : s'.inTable = s.inTable
  dropped : s'.dropped = s.dropped
  accepted : s'.accepted = s.accepted

variable {s s' : CmWork} {i : Nat} {pc pc' : CmPc}

/-- A move that neither drops, accepts nor removes anything, and ends no destroy. -/
theorem Moved.plain (hthreads : s'.threads = s.threads.set i pc')
    (hlock : s'.lock = Threads.whoAfter CmPc.holdsLock i pc pc' s.lock)
    (hfree : pc'.holdsLock → pc.holdsLock ∨ s.lock = none) (hr : s'.refcount = s.refcount)
    (hi : s'.inTable = s.inTable) (hd : s'.dropped = s.dropped) (ha : s'.accepted = s.accepted)
    (hrefs : pc'.refs = pc.refs) (hdrop : pc'.dropped = pc.dropped)
    (hrem : pc'.removed = pc.removed) (hund : pc'.undecided → pc.undecided)
    (hends : pc' = .drain ∨ pc' = .destroyed → pc = .drain ∨ pc = .waitComp ∧ s.refcount = 0)
    (hdone : pc ≠ .done) : Moved s s' i pc pc' where
  threads := hthreads
  lock := hlock
  free := hfree
  refcount := by rw [hr, hrefs]; omega
  inTable := by rw [hi, hrem]; cases pc.removed <;> simp
  dropped := by rw [hd, hdrop]; cases pc.dropped <;> simp
  keeps hp := by rw [hdrop]; exact hp
  accepted := .inl ha
  decided hu := ⟨hund hu, ha⟩
  ends := hends
  notDone := hdone

theorem pcStep_moved (b : Bool) (hlock : pc.holdsLock → s.lock = some i) :
    Stayed s (pcStep s i b pc) ∨ ∃ pc', Moved s (pcStep s i b pc) i pc pc' := by
  have hstay : Stayed s s := ⟨rfl, rfl, rfl, rfl, rfl, rfl⟩
  cases pc with
  | lock =>
    simp only [pcStep]
    split
    next hl =>
      exact .inr ⟨.check, .plain rfl rfl (fun _ => .inr hl) rfl rfl rfl rfl rfl rfl rfl
        (fun _ => rfl)
        (by simp) nofun⟩
    · exact .inl hstay
  | check =>
    have hl := hlock rfl
    simp only [pcStep]
    split
    · split
      · exact .inr ⟨.unlockOwn, rfl, hl, fun _ => .inl rfl, by simp [CmPc.refs, CmWork.goto],
          by simp [CmPc.removed, CmWork.goto], rfl, nofun, .inr ⟨rfl, rfl⟩, nofun, by simp, nofun⟩
      · exact .inr ⟨.listAdd, rfl, hl, fun _ => .inl rfl, by simp [CmPc.refs, CmWork.goto],
          by simp [CmPc.removed, CmWork.goto], rfl, nofun, .inr ⟨rfl, rfl⟩, nofun, by simp, nofun⟩
    · exact .inr ⟨.unlockDrop, .plain rfl hl (fun _ => .inl rfl) rfl rfl rfl rfl rfl rfl rfl nofun
        (by simp) nofun⟩
  | listAdd =>
    exact .inr ⟨.unlockDrop, .plain rfl (hlock rfl) (fun _ => .inl rfl) rfl rfl rfl rfl rfl rfl rfl
      nofun (by simp) nofun⟩
  | unlockDrop =>
    exact .inr ⟨.deref, .plain rfl rfl nofun rfl rfl rfl rfl rfl rfl rfl nofun (by simp) nofun⟩
  | deref =>
    exact .inr ⟨.done, rfl, rfl, nofun, by simp [pcStep, CmPc.refs],
      by simp [pcStep, CmPc.removed, CmWork.goto], rfl, fun _ => rfl, .inl rfl, nofun, by simp,
        nofun⟩
  | unlockOwn =>
    exact .inr ⟨.call i, .plain rfl rfl nofun rfl rfl rfl rfl rfl rfl rfl nofun (by simp) nofun⟩
  | call w =>
    exact .inr ⟨.inCall w, .plain rfl rfl nofun rfl rfl rfl rfl rfl rfl rfl nofun (by simp) nofun⟩
  | inCall w =>
    exact .inr ⟨.freeWork w b,
      .plain rfl rfl nofun rfl rfl rfl rfl rfl rfl rfl nofun (by simp) nofun⟩
  | freeWork w ok =>
    cases ok with
    | true =>
      exact .inr ⟨.countDown, .plain rfl rfl
        nofun rfl rfl rfl rfl rfl rfl rfl nofun (by simp) nofun⟩
    | false =>
      exact .inr ⟨.derefFail, .plain rfl rfl
        nofun rfl rfl rfl rfl rfl rfl rfl nofun (by simp) nofun⟩
  | countDown =>
    simp only [pcStep]
    split
    · exact .inr ⟨.deref, .plain rfl rfl nofun rfl rfl rfl rfl rfl rfl rfl nofun (by simp) nofun⟩
    · exact .inr ⟨.lockQueue,
        .plain rfl rfl nofun rfl rfl rfl rfl rfl rfl rfl nofun (by simp) nofun⟩
  | lockQueue =>
    simp only [pcStep]
    split
    next hl =>
      exact .inr ⟨.dequeue, .plain rfl rfl (fun _ => .inr hl) rfl rfl rfl rfl rfl rfl rfl nofun
        (by simp) nofun⟩
    · exact .inl hstay
  | dequeue =>
    have hl := hlock rfl
    simp only [pcStep]
    split
    · exact .inr ⟨.unlockReturn, .plain rfl hl (fun _ => .inl rfl) rfl rfl rfl rfl rfl rfl rfl nofun
        (by simp) nofun⟩
    next w ws _ =>
      exact .inr ⟨.unlockCall w, .plain rfl hl (fun _ => .inl rfl) rfl rfl rfl rfl rfl rfl rfl nofun
        (by simp) nofun⟩
  | unlockCall w =>
    exact .inr ⟨.call w, .plain rfl rfl nofun rfl rfl rfl rfl rfl rfl rfl nofun (by simp) nofun⟩
  | unlockReturn =>
    exact .inr ⟨.leaked, .plain rfl rfl nofun rfl rfl rfl rfl rfl rfl rfl nofun (by simp) nofun⟩
  | derefFail =>
    exact .inr ⟨.freeId, rfl, rfl, nofun, by simp [pcStep, CmPc.refs],
      by simp [pcStep, CmPc.removed, CmWork.goto], rfl, fun _ => rfl, .inl rfl, nofun, by simp,
        nofun⟩
  | freeId =>
    exact .inr ⟨.derefOwn, rfl, rfl, nofun, by simp [pcStep, CmPc.refs, CmWork.goto],
      by simp [pcStep, CmPc.removed], rfl, fun _ => rfl, .inl rfl, nofun, by simp, nofun⟩
  | derefOwn =>
    exact .inr ⟨.waitComp, rfl, rfl, nofun, by simp [pcStep, CmPc.refs]; omega,
      by simp [pcStep, CmPc.removed, CmWork.goto], rfl, fun _ => rfl, .inl rfl, nofun, by simp,
        nofun⟩
  | waitComp =>
    simp only [pcStep]
    split
    next hzero =>
      exact .inr ⟨.drain, .plain rfl rfl nofun rfl rfl rfl rfl rfl rfl rfl nofun
        (fun _ => .inr ⟨rfl, hzero⟩) nofun⟩
    · exact .inl hstay
  | drain =>
    simp only [pcStep]
    split
    · exact .inr ⟨.destroyed, .plain rfl rfl nofun rfl rfl rfl rfl rfl rfl rfl nofun
        (fun _ => .inl rfl) nofun⟩
    · exact .inl ⟨rfl, rfl, rfl, rfl, rfl, rfl⟩
  | leaked => exact .inl hstay
  | destroyed => exact .inl hstay
  | done => exact .inl hstay

/-- A thread is in a section under the lock exactly if it holds the lock. -/
structure LockInv (s : CmWork) : Prop where
  excl : Threads.Exclusive CmPc.holdsLock s.threads s.lock
  lt : ∀ i, s.lock = some i → i < s.threads.length

theorem LockInv.held (h : LockInv s) (hpc : s.threads[i]? = some pc) (hl : pc.holdsLock) :
    s.lock = some i :=
  (h.excl i pc hpc).mp hl

theorem pcStep_lockInv (h : LockInv s) (b : Bool) (hpc : s.threads[i]? = some pc) :
    LockInv (pcStep s i b pc) := by
  rcases pcStep_moved b (h.held hpc) with hs | ⟨pc', hm⟩
  · exact ⟨by rw [hs.threads, hs.lock]; exact h.excl, by rw [hs.threads, hs.lock]; exact h.lt⟩
  · refine ⟨by rw [hm.threads, hm.lock]; exact h.excl.set hpc pc' hm.free, fun j hj => ?_⟩
    have hi : i < s.threads.length := (List.getElem?_eq_some_iff.mp hpc).1
    rw [hm.threads, length_set]
    rw [hm.lock, Threads.whoAfter] at hj
    split at hj
    · cases hj; exact hi
    · split at hj
      · cases hj
      · exact h.lt j hj

/-! ## The processing thread -/

/-- From the increment that reached zero to the decrement that turned negative; a thread
whose callback failed never gets to that decrement. -/
def CmPc.owns : CmPc → Bool
  | .lock | .check | .listAdd | .unlockDrop | .deref | .done => false
  | _ => true

/-- The event taken for the next callback. -/
def CmPc.taken (i : Nat) : CmPc → List Nat
  | .unlockOwn => [i]
  | .call w | .unlockCall w => [w]
  | _ => []

def CmPc.failing : CmPc → Bool
  | .freeWork _ false | .derefFail | .freeId | .derefOwn | .waitComp | .drain | .destroyed => true
  | _ => false

/-- Events given to the callback and not yet counted down. -/
def CmPc.running : CmPc → Nat
  | .inCall _ | .freeWork _ _ | .countDown => 1
  | pc => if pc.failing then 1 else 0

/-- The event that `cm_process_work` has still to free. -/
def CmPc.unfreed : CmPc → List Nat
  | .inCall w | .freeWork w _ => [w]
  | _ => []

/-- The event that a handler has accepted and is about to put on the list. -/
def CmWork.adding (s : CmWork) : List Nat :=
  match s.lock with
  | some i => if s.threads[i]? = some .listAdd then [i] else []
  | none => []

/-- What the processing thread `o` has of the events. -/
def takenBy (o : Option (Nat × CmPc)) : List Nat := o.elim [] fun o => o.2.taken o.1

def runningOf (o : Option (Nat × CmPc)) : Nat := o.elim 0 fun o => o.2.running

def unfreedBy (o : Option (Nat × CmPc)) : List Nat := o.elim [] fun o => o.2.unfreed

/-- Where each accepted event is when `o` is the processing thread. -/
structure Account (s : CmWork) (o : Option (Nat × CmPc)) : Prop where
  accepted : s.accepted = s.callbacks ++ takenBy o ++ s.drained ++ s.workList ++ s.adding
  started : s.started = s.callbacks ++ takenBy o
  count : s.workCount = (takenBy o).length + runningOf o + s.drained.length + s.workList.length +
    s.adding.length - 1
  idle : o = none → s.workCount = -1
  queue : ∀ i pc, o = some (i, pc) → pc = .lockQueue ∨ pc = .dequeue → 0 ≤ s.workCount
  noReturn : ∀ i pc, o = some (i, pc) → pc ≠ .unlockReturn ∧ pc ≠ .leaked
  finished : s.callbacks.length = s.finished + runningOf o
  freed : s.callbacks = s.freed ++ unfreedBy o
  drained : s.drained ≠ [] → ∃ i pc, o = some (i, pc) ∧ (pc = .drain ∨ pc = .destroyed)
  failed : ∀ n, s.failedAt = some n ↔
    s.callbacks.length = n ∧ ∃ i pc, o = some (i, pc) ∧ pc.failing

/-- At most one thread is the processing thread, and the events are accounted for. -/
structure CountInv (s : CmWork) (o : Option (Nat × CmPc)) : Prop where
  excl : Threads.Exclusive CmPc.owns s.threads (o.map Prod.fst)
  pc : ∀ i pc, o = some (i, pc) → s.threads[i]? = some pc
  account : Account s o

variable {o : Option (Nat × CmPc)}

theorem CountInv.owner_eq (h : CountInv s o) (hpc : s.threads[i]? = some pc) (hown : pc.owns) :
    o = some (i, pc) := by
  have ho := (h.excl i pc hpc).mp hown
  obtain ⟨⟨j, pcj⟩, rfl, hj⟩ := Option.map_eq_some_iff.mp ho
  subst hj
  rw [Option.some.inj ((h.pc j pcj rfl).symm.trans hpc)]

/-- The processing thread after thread `i` has moved. -/
def ownerAfter (i : Nat) (pc pc' : CmPc) (o : Option (Nat × CmPc)) : Option (Nat × CmPc) :=
  if pc'.owns then some (i, pc') else if pc.owns then none else o

theorem CountInv.goto (h : CountInv s o) (hpc : s.threads[i]? = some pc) (pc' : CmPc)
    (hthreads : s'.threads = s.threads.set i pc') (hown : pc'.owns → pc.owns ∨ o = none)
    (haccount : Account s' (ownerAfter i pc pc' o)) : CountInv s' (ownerAfter i pc pc' o) where
  excl := by
    have hset := h.excl.set hpc pc' fun hb => (hown hb).imp_right fun ho => by rw [ho]; rfl
    have heq : (ownerAfter i pc pc' o).map Prod.fst =
        Threads.whoAfter CmPc.owns i pc pc' (o.map Prod.fst) := by
      unfold ownerAfter Threads.whoAfter
      split
      · rfl
      · split <;> rfl
    rw [hthreads, heq]
    exact hset
  pc := by
    intro j pcj hj
    rw [hthreads, Threads.getElem?_set_of_getElem? hpc]
    unfold ownerAfter at hj
    split at hj
    · cases hj
      exact if_pos rfl
    · split at hj
      · cases hj
      next hnot =>
        have hpcj := h.pc j pcj hj
        have hji : j ≠ i := by
          rintro rfl
          have hpp : pcj = pc := Option.some.inj (hpcj.symm.trans hpc)
          subst hpp
          exact hnot ((h.excl j pcj hpc).mpr (by rw [hj]; rfl))
        rw [if_neg hji]
        exact hpcj
  account := haccount

theorem adding_of_held (hlock : s.lock = some i) (hpc : s.threads[i]? = some pc) :
    s.adding = if pc = .listAdd then [i] else [] := by
  simp [CmWork.adding, hlock, hpc]

theorem adding_of_free (hlock : s.lock = none) : s.adding = [] := by
  simp [CmWork.adding, hlock]

/-- A thread without the lock does not change what is being added. -/
theorem adding_goto (hpc : s.threads[i]? = some pc) (pc' : CmPc)
    (hthreads : s'.threads = s.threads.set i pc') (hlock : s'.lock = s.lock)
    (hne : s.lock ≠ some i) : s'.adding = s.adding := by
  unfold CmWork.adding
  rw [hlock, hthreads]
  cases hl : s.lock with
  | none => rfl
  | some j =>
    have hji : j ≠ i := fun he => hne (by rw [hl, he])
    simp only [Threads.getElem?_set_of_getElem? hpc, if_neg hji]

/-- The events and the counter of two states are the same. -/
structure SameWork (s s' : CmWork) : Prop where
  workCount : s'.workCount = s.workCount
  workList : s'.workList = s.workList
  accepted : s'.accepted = s.accepted
  started : s'.started = s.started
  callbacks : s'.callbacks = s.callbacks
  freed : s'.freed = s.freed
  drained : s'.drained = s.drained
  finished : s'.finished = s.finished
  failedAt : s'.failedAt = s.failedAt

/-- A step of another thread that moves no event. -/
theorem Account.other (h : Account s o) (hs : SameWork s s') (hadd : s'.adding = s.adding) :
    Account s' o where
  accepted := by rw [hs.accepted, hs.callbacks, hs.drained, hs.workList, hadd]; exact h.accepted
  started := by rw [hs.started, hs.callbacks]; exact h.started
  count := by rw [hs.workCount, hs.drained, hs.workList, hadd]; exact h.count
  idle := by rw [hs.workCount]; exact h.idle
  queue := by rw [hs.workCount]; exact h.queue
  noReturn := h.noReturn
  finished := by rw [hs.callbacks, hs.finished]; exact h.finished
  freed := by rw [hs.callbacks, hs.freed]; exact h.freed
  drained := by rw [hs.drained]; exact h.drained
  failed := by rw [hs.callbacks, hs.failedAt]; exact h.failed

/-- A step of the processing thread that moves no event. -/
theorem Account.own (h : Account s (some (i, pc))) (hs : SameWork s s')
    (hadd : s'.adding = s.adding) (htaken : pc'.taken i = pc.taken i)
    (hrun : pc'.running = pc.running) (hfreed : pc'.unfreed = pc.unfreed)
    (hfail : pc'.failing = pc.failing)
    (hqueue : pc' = .lockQueue ∨ pc' = .dequeue → pc = .lockQueue ∨ pc = .dequeue)
    (hret : pc' ≠ .unlockReturn ∧ pc' ≠ .leaked)
    (hdrain : pc = .drain ∨ pc = .destroyed → pc' = .drain ∨ pc' = .destroyed) :
    Account s' (some (i, pc')) := by
  have h' := h.other hs hadd
  refine ⟨?_, ?_, ?_, nofun, ?_, ?_, ?_, ?_, ?_, ?_⟩
  · simpa [takenBy, htaken] using h'.accepted
  · simpa [takenBy, htaken] using h'.started
  · simpa [takenBy, runningOf, htaken, hrun] using h'.count
  · rintro _ _ ⟨⟩ hq
    exact h'.queue i pc rfl (hqueue hq)
  · rintro _ _ ⟨⟩
    exact hret
  · simpa [runningOf, hrun] using h'.finished
  · simpa [unfreedBy, hfreed] using h'.freed
  · intro hne
    obtain ⟨_, _, ⟨⟩, hd⟩ := h'.drained hne
    exact ⟨i, pc', rfl, hdrain hd⟩
  · intro n
    rw [h'.failed n]
    simp [hfail]

/-- Outside of the search for the next event the processing thread has one event. -/
theorem CmPc.has_one (i : Nat) (hown : pc.owns) (hret : pc ≠ .unlockReturn ∧ pc ≠ .leaked)
    (hqueue : ¬ (pc = .lockQueue ∨ pc = .dequeue)) : (pc.taken i).length + pc.running = 1 := by
  cases pc with
  | freeWork w ok => rfl
  | _ => simp_all [CmPc.owns, CmPc.taken, CmPc.running, CmPc.failing]

/-- With a processing thread the counter is not negative. -/
theorem Account.workCount_nonneg (h : Account s o) (ho : ∀ i pc, o = some (i, pc) → pc.owns)
    (hne : o ≠ none) : 0 ≤ s.workCount := by
  obtain ⟨⟨i, pc⟩, rfl⟩ := Option.ne_none_iff_exists'.mp hne
  by_cases hqueue : pc = .lockQueue ∨ pc = .dequeue
  · exact h.queue i pc rfl hqueue
  · have hone := CmPc.has_one i (ho i pc rfl) (h.noReturn i pc rfl) hqueue
    have hcount := h.count
    simp only [takenBy, runningOf, Option.elim_some] at hcount
    omega

/-- The event that makes its handler the processing thread. -/
theorem Account.acceptFirst (h : Account s o) (ho : ∀ i pc, o = some (i, pc) → pc.owns)
    (hzero : s.workCount + 1 = 0) (hadd : s'.adding = s.adding)
    (hs : s' = { s.goto i .unlockOwn with
      workCount := s.workCount + 1, accepted := s.accepted ++ [i], started := s.started ++ [i] }) :
    o = none ∧ Account s' (some (i, .unlockOwn)) := by
  have hnone : o = none := by
    by_contra hne
    have := h.workCount_nonneg ho hne
    omega
  subst hnone
  have hcount := h.count
  simp only [takenBy, runningOf, Option.elim_none, length_nil] at hcount
  have hdrained : s.drained = [] := eq_nil_of_length_eq_zero (by omega)
  have hlist : s.workList = [] := eq_nil_of_length_eq_zero (by omega)
  have hacc := h.accepted
  have hfailed := h.failed
  refine ⟨rfl, ?_, ?_, ?_, nofun, ?_, ?_, ?_, ?_, ?_, ?_⟩
  · simp_all [takenBy, CmPc.taken, CmWork.goto]
  · simpa [hs, takenBy, CmPc.taken, CmWork.goto] using h.started
  · simp_all [takenBy, runningOf, CmPc.taken, CmPc.running, CmPc.failing, CmWork.goto]
  · rintro _ _ ⟨⟩ hq
    rcases hq with hq | hq <;> cases hq
  · rintro _ _ ⟨⟩
    exact ⟨nofun, nofun⟩
  · simpa [hs, runningOf, CmPc.running, CmPc.failing, CmWork.goto] using h.finished
  · simpa [hs, unfreedBy, CmPc.unfreed, CmWork.goto] using h.freed
  · intro hne
    exact absurd hdrained (by simpa [hs, CmWork.goto] using hne)
  · simp_all [CmPc.failing, CmWork.goto]

/-- An event that is accepted while there is a processing thread. -/
theorem Account.acceptNext (h : Account s o) (hzero : s.workCount + 1 ≠ 0) (hadd : s.adding = [])
    (hadd' : s'.adding = [i]) (hs : s' = { s.goto i .listAdd with
      workCount := s.workCount + 1, accepted := s.accepted ++ [i] }) : Account s' o := by
  have hcount := h.count
  have hacc := h.accepted
  refine ⟨?_, ?_, ?_, ?_, ?_, h.noReturn, ?_, ?_, ?_, ?_⟩
  · simp_all [CmWork.goto]
  · simpa [hs, CmWork.goto] using h.started
  · rw [hadd']
    simp only [hs, CmWork.goto, hcount, hadd, length_nil, length_singleton]
    omega
  · intro ho
    exact absurd (h.idle ho) (by omega)
  · simp only [hs, CmWork.goto]
    omega
  · simpa [hs, CmWork.goto] using h.finished
  · simpa [hs, CmWork.goto] using h.freed
  · simpa [hs, CmWork.goto] using h.drained
  · simpa [hs, CmWork.goto] using h.failed

theorem Account.listAdd (h : Account s o) (hadd : s.adding = [i]) (hadd' : s'.adding = [])
    (hs : s' = { s.goto i .unlockDrop with workList := s.workList ++ [i] }) : Account s' o := by
  have hcount := h.count
  have hacc := h.accepted
  refine ⟨?_, ?_, ?_, ?_, ?_, h.noReturn, ?_, ?_, ?_, ?_⟩
  · simp_all [CmWork.goto]
  · simpa [hs, CmWork.goto] using h.started
  · rw [hadd']
    simp only [hs, CmWork.goto, hcount, hadd, length_nil, length_singleton,
      length_append]
    omega
  · simpa [hs, CmWork.goto] using h.idle
  · simpa [hs, CmWork.goto] using h.queue
  · simpa [hs, CmWork.goto] using h.finished
  · simpa [hs, CmWork.goto] using h.freed
  · simpa [hs, CmWork.goto] using h.drained
  · simpa [hs, CmWork.goto] using h.failed

variable {w : Nat}

theorem Account.drained_nil (h : Account s (some (i, pc))) (hd : pc ≠ .drain)
    (hd' : pc ≠ .destroyed) : s.drained = [] := by
  by_contra hne
  obtain ⟨_, _, ⟨⟩, h⟩ := h.drained hne
  exact h.elim hd hd'

/-- The callback for the event that was taken. -/
theorem Account.call (h : Account s (some (i, .call w))) (hadd : s'.adding = s.adding)
    (hs : s' = { s.goto i (.inCall w) with callbacks := s.callbacks ++ [w] }) :
    Account s' (some (i, .inCall w)) := by
  have hdrained := h.drained_nil nofun nofun
  have hcount := h.count
  have hacc := h.accepted
  have hfreed := h.freed
  have hfin := h.finished
  refine ⟨?_, ?_, ?_, nofun, ?_, ?_, ?_, ?_, ?_, ?_⟩
  · simp_all [takenBy, CmPc.taken, CmWork.goto]
  · simpa [hs, takenBy, CmPc.taken, CmWork.goto] using h.started
  · simp_all [takenBy, runningOf, CmPc.taken, CmPc.running, CmPc.failing, CmWork.goto]
  · rintro _ _ ⟨⟩ hq
    rcases hq with hq | hq <;> cases hq
  · rintro _ _ ⟨⟩
    exact ⟨nofun, nofun⟩
  · simp only [runningOf, Option.elim_some, CmPc.running, CmPc.failing] at hfin ⊢
    simp [hs, CmWork.goto] at hfin ⊢
    omega
  · simp_all [unfreedBy, CmPc.unfreed, CmWork.goto]
  · intro hne
    exact absurd hdrained (by simpa [hs, CmWork.goto] using hne)
  · intro n
    have := h.failed n
    simp_all [CmPc.failing, CmWork.goto]

/-- The callback returns. -/
theorem Account.inCall (h : Account s (some (i, .inCall w))) {b : Bool}
    (hadd : s'.adding = s.adding) (hs : s' = { s.goto i (.freeWork w b) with
      failedAt := if b then s.failedAt else some s.callbacks.length }) :
    Account s' (some (i, .freeWork w b)) := by
  have hdrained := h.drained_nil nofun nofun
  have hcount := h.count
  have hacc := h.accepted
  have hfreed := h.freed
  have hfin := h.finished
  refine ⟨?_, ?_, ?_, nofun, ?_, ?_, ?_, ?_, ?_, ?_⟩
  · simp_all [takenBy, CmPc.taken, CmWork.goto]
  · simpa [hs, takenBy, CmPc.taken, CmWork.goto] using h.started
  · simp_all [takenBy, runningOf, CmPc.taken, CmPc.running, CmWork.goto]
  · rintro _ _ ⟨⟩ hq
    rcases hq with hq | hq <;> cases hq
  · rintro _ _ ⟨⟩
    exact ⟨nofun, nofun⟩
  · simp_all [runningOf, CmPc.running, CmWork.goto]
  · simp_all [unfreedBy, CmPc.unfreed, CmWork.goto]
  · intro hne
    exact absurd hdrained (by simpa [hs, CmWork.goto] using hne)
  · intro n
    have hf := h.failed n
    cases b <;> simp_all [CmPc.failing, CmWork.goto]

theorem Account.freeWork {ok : Bool} (h : Account s (some (i, .freeWork w ok)))
    (hadd : s'.adding = s.adding)
    (hs : s' = { s.goto i (if ok then .countDown else .derefFail) with freed := s.freed ++ [w] }) :
    Account s' (some (i, if ok then .countDown else .derefFail)) := by
  have hdrained := h.drained_nil nofun nofun
  have hcount := h.count
  have hacc := h.accepted
  have hfreed := h.freed
  have hfin := h.finished
  have hfailed := h.failed
  refine ⟨?_, ?_, ?_, nofun, ?_, ?_, ?_, ?_, ?_, ?_⟩
  · rw [hadd]
    cases ok <;> simpa [hs, takenBy, CmPc.taken, CmWork.goto] using hacc
  · cases ok <;> simpa [hs, takenBy, CmPc.taken, CmWork.goto] using h.started
  · rw [hadd]
    cases ok <;> simpa [hs, takenBy, runningOf, CmPc.taken, CmPc.running, CmPc.failing, CmWork.goto]
      using hcount
  · rintro _ _ ⟨⟩ hq
    cases ok <;> rcases hq with hq | hq <;> cases hq
  · rintro _ _ ⟨⟩
    cases ok <;> exact ⟨nofun, nofun⟩
  · cases ok <;> simpa [hs, runningOf, CmPc.running, CmPc.failing, CmWork.goto] using hfin
  · cases ok <;> simpa [hs, unfreedBy, CmPc.unfreed, CmWork.goto] using hfreed
  · intro hne
    exact absurd hdrained (by simpa [hs, CmWork.goto] using hne)
  · intro n
    have hf := hfailed n
    cases ok <;> simpa [hs, CmPc.failing, CmWork.goto] using hf

/-- The counter goes down: no event is left, or the next one is on the list. -/
theorem Account.countDown (h : Account s (some (i, .countDown)))
    (hpc' : pc' = if s.workCount - 1 < 0 then .deref else .lockQueue) (hadd : s'.adding = s.adding)
    (hs : s' = { s.goto i pc' with workCount := s.workCount - 1, finished := s.finished + 1 }) :
    Account s' (ownerAfter i .countDown pc' (some (i, .countDown))) := by
  have hdrained := h.drained_nil nofun nofun
  have hcount := h.count
  have hacc := h.accepted
  have hfreed := h.freed
  have hfin := h.finished
  have hfailed := h.failed
  simp only [takenBy, runningOf, Option.elim_some, CmPc.taken, CmPc.running, length_nil]
    at hcount hfin
  have hnew : takenBy (ownerAfter i .countDown pc' (some (i, .countDown))) = [] ∧
      runningOf (ownerAfter i .countDown pc' (some (i, .countDown))) = 0 ∧
      unfreedBy (ownerAfter i .countDown pc' (some (i, .countDown))) = [] := by
    subst hpc'
    split <;> exact ⟨rfl, rfl, rfl⟩
  refine ⟨?_, ?_, ?_, ?_, ?_, ?_, ?_, ?_, ?_, ?_⟩
  · rw [hadd, hnew.1]
    simpa [hs, takenBy, CmPc.taken, CmWork.goto] using hacc
  · rw [hnew.1]
    simpa [hs, takenBy, CmPc.taken, CmWork.goto] using h.started
  · rw [hadd, hnew.1, hnew.2.1]
    simp only [hs, CmWork.goto, length_nil]
    omega
  · intro hnone
    have hneg : s.workCount - 1 < 0 := by
      by_contra hge
      rw [if_neg hge] at hpc'
      subst hpc'
      cases hnone
    simp only [hs, CmWork.goto]
    omega
  · intro j pc hj hq
    by_cases hneg : s.workCount - 1 < 0
    · rw [if_pos hneg] at hpc'
      subst hpc'
      cases hj
    · simp only [hs, CmWork.goto]
      omega
  · intro j pc hj
    by_cases hneg : s.workCount - 1 < 0
    · rw [if_pos hneg] at hpc'
      subst hpc'
      cases hj
    · rw [if_neg hneg] at hpc'
      subst hpc'
      cases hj
      exact ⟨nofun, nofun⟩
  · simp only [hs, CmWork.goto]
    omega
  · rw [hnew.2.2]
    simpa [hs, unfreedBy, CmPc.unfreed, CmWork.goto] using hfreed
  · intro hne
    exact absurd hdrained (by simpa [hs, CmWork.goto] using hne)
  · intro n
    have hf := hfailed n
    by_cases hneg : s.workCount - 1 < 0
    · rw [if_pos hneg] at hpc'
      subst hpc'
      simpa [hs, ownerAfter, CmPc.owns, CmPc.failing, CmWork.goto] using hf
    · rw [if_neg hneg] at hpc'
      subst hpc'
      simpa [hs, ownerAfter, CmPc.owns, CmPc.failing, CmWork.goto] using hf

/-- The list cannot be empty when the processing thread looks at it. -/
theorem Account.dequeue (h : Account s (some (i, .dequeue))) (hadd : s.adding = []) {ws : List Nat}
    (hlist : s.workList = w :: ws) (hadd' : s'.adding = [])
    (hs : s' = { s.goto i (.unlockCall w) with
      workList := ws, started := s.started ++ [w] }) :
    Account s' (some (i, .unlockCall w)) := by
  have hdrained := h.drained_nil nofun nofun
  have hcount := h.count
  have hacc := h.accepted
  have hfreed := h.freed
  have hfin := h.finished
  have hfailed := h.failed
  refine ⟨?_, ?_, ?_, nofun, ?_, ?_, ?_, ?_, ?_, ?_⟩
  · rw [hadd']
    simpa [hs, hadd, hdrained, hlist, takenBy, CmPc.taken, CmWork.goto] using hacc
  · simpa [hs, takenBy, CmPc.taken, CmWork.goto] using h.started
  · rw [hadd']
    simp only [takenBy, runningOf, Option.elim_some, CmPc.taken, CmPc.running, CmPc.failing, hlist,
      hadd, hs, CmWork.goto, length_nil, length_cons] at hcount ⊢
    simp at hcount ⊢
    omega
  · rintro _ _ ⟨⟩ hq
    rcases hq with hq | hq <;> cases hq
  · rintro _ _ ⟨⟩
    exact ⟨nofun, nofun⟩
  · simpa [hs, runningOf, CmPc.running, CmPc.failing, CmWork.goto] using hfin
  · simpa [hs, unfreedBy, CmPc.unfreed, CmWork.goto] using hfreed
  · intro hne
    exact absurd hdrained (by simpa [hs, CmWork.goto] using hne)
  · intro n
    have hf := hfailed n
    simpa [hs, CmPc.failing, CmWork.goto] using hf

theorem Account.dequeue_ne_nil (h : Account s (some (i, .dequeue))) (hadd : s.adding = []) :
    s.workList ≠ [] := by
  intro hnil
  have hdrained := h.drained_nil nofun nofun
  have hcount := h.count
  have hnonneg := h.queue i _ rfl (.inr rfl)
  simp only [takenBy, runningOf, Option.elim_some, CmPc.taken, CmPc.running, CmPc.failing, hnil,
    hdrained, hadd, length_nil] at hcount
  simp at hcount
  omega

/-- The destroy frees an event that is still on the list. -/
theorem Account.drain (h : Account s (some (i, .drain))) {ws : List Nat}
    (hlist : s.workList = w :: ws) (hadd : s'.adding = s.adding)
    (hs : s' = { s with workList := ws, drained := s.drained ++ [w] }) :
    Account s' (some (i, .drain)) := by
  have hcount := h.count
  have hacc := h.accepted
  refine ⟨?_, ?_, ?_, nofun, ?_, h.noReturn, ?_, ?_, fun _ => ⟨i, _, rfl, .inl rfl⟩, ?_⟩
  · rw [hadd]
    simpa [hs, hlist] using hacc
  · simpa [hs] using h.started
  · rw [hadd]
    simp only [hs, hlist, length_cons, length_append, length_nil] at hcount ⊢
    omega
  · rintro _ _ ⟨⟩ hq
    rcases hq with hq | hq <;> cases hq
  · simpa [hs] using h.finished
  · simpa [hs] using h.freed
  · simpa [hs] using h.failed

theorem CountInv.owns (h : CountInv s o) (ho : o = some (i, pc)) : pc.owns :=
  (h.excl i pc (h.pc i pc ho)).mpr (by rw [ho]; rfl)

theorem pcStep_countInv (hl : LockInv s) (h : CountInv s o) (b : Bool)
    (hpc : s.threads[i]? = some pc) :
    ∃ o', CountInv (pcStep s i b pc) o' := by
  have hlt : i < s.threads.length := (List.getElem?_eq_some_iff.mp hpc).1
  have hheld (pc' : CmPc) {s' : CmWork} (ht : s'.threads = s.threads.set i pc')
      (hlock : s'.lock = some i) : s'.adding = if pc' = .listAdd then [i] else [] :=
    adding_of_held hlock (by rw [ht]; exact List.getElem?_set_self hlt)
  -- a thread outside of the lock leaves what is being added
  have hadd (pc' : CmPc) {s' : CmWork} (hn : pc.holdsLock = false)
      (ht : s'.threads = s.threads.set i pc') (hlock : s'.lock = s.lock) : s'.adding =
        s.adding := by
    refine adding_goto hpc pc' ht hlock fun he => ?_
    rw [(hl.excl i pc hpc).mpr he] at hn
    cases hn
  cases pc with
  | lock =>
    simp only [pcStep]
    split
    next hfree =>
      refine ⟨_, h.goto hpc .check rfl
        nofun (h.account.other ⟨rfl, rfl, rfl, rfl, rfl, rfl, rfl, rfl, rfl⟩ ?_)⟩
      rw [adding_of_free hfree]
      exact hheld .check rfl rfl
    · exact ⟨o, h⟩
  | check =>
    have hlock := hl.held hpc rfl
    have hnone : s.adding = [] := adding_of_held hlock hpc
    simp only [pcStep]
    split
    · split
      next hzero =>
        have hadd' : (pcStep s i true .check).adding = s.adding := by
          rw [hnone]
          exact hheld .unlockOwn (by simp [pcStep, hzero, CmWork.goto]) hlock
        simp only [pcStep, if_true, if_pos hzero] at hadd'
        obtain ⟨rfl, hacc⟩ := h.account.acceptFirst (fun _ _ => h.owns) hzero hadd' rfl
        exact ⟨_, h.goto hpc .unlockOwn rfl (fun _ => .inr rfl) hacc⟩
      next hzero =>
        exact ⟨_, h.goto hpc .listAdd rfl nofun
          (h.account.acceptNext hzero hnone (hheld .listAdd rfl hlock) rfl)⟩
    · refine ⟨_, h.goto hpc .unlockDrop rfl nofun
        (h.account.other ⟨rfl, rfl, rfl, rfl, rfl, rfl, rfl, rfl, rfl⟩ ?_)⟩
      rw [hnone]
      exact hheld .unlockDrop rfl hlock
  | listAdd =>
    have hlock := hl.held hpc rfl
    exact ⟨_, h.goto hpc .unlockDrop rfl nofun (h.account.listAdd (adding_of_held hlock hpc)
      (hheld .unlockDrop rfl hlock) rfl)⟩
  | unlockDrop =>
    have hnone : s.adding = [] := adding_of_held (hl.held hpc rfl) hpc
    exact ⟨_, h.goto hpc .deref rfl
      nofun (h.account.other ⟨rfl, rfl, rfl, rfl, rfl, rfl, rfl, rfl, rfl⟩
      ((adding_of_free rfl).trans hnone.symm))⟩
  | deref =>
    exact ⟨_, h.goto hpc .done rfl
      nofun (h.account.other ⟨rfl, rfl, rfl, rfl, rfl, rfl, rfl, rfl, rfl⟩
      (hadd .done rfl rfl rfl))⟩
  | unlockOwn =>
    obtain rfl := h.owner_eq hpc rfl
    have hnone : s.adding = [] := adding_of_held (hl.held hpc rfl) hpc
    exact ⟨_, h.goto hpc (.call i) rfl (fun _ => .inl rfl)
      (h.account.own ⟨rfl, rfl, rfl, rfl, rfl, rfl, rfl, rfl, rfl⟩
        ((adding_of_free rfl).trans hnone.symm)
        rfl rfl rfl rfl (by simp) ⟨nofun, nofun⟩ (by simp))⟩
  | call w =>
    obtain rfl := h.owner_eq hpc rfl
    exact ⟨_, h.goto hpc (.inCall w) rfl (fun _ => .inl rfl)
      (h.account.call (hadd (.inCall w) rfl rfl rfl) rfl)⟩
  | inCall w =>
    obtain rfl := h.owner_eq hpc rfl
    exact ⟨_, h.goto hpc (.freeWork w b) rfl (fun _ => .inl rfl)
      (h.account.inCall (hadd (.freeWork w b) rfl rfl rfl) rfl)⟩
  | freeWork w ok =>
    obtain rfl := h.owner_eq hpc rfl
    cases ok with
    | true =>
      exact ⟨_, h.goto hpc .countDown rfl (fun _ => .inl rfl)
        (h.account.freeWork (hadd .countDown rfl rfl rfl) rfl)⟩
    | false =>
      exact ⟨_, h.goto hpc .derefFail rfl (fun _ => .inl rfl)
        (h.account.freeWork (hadd .derefFail rfl rfl rfl) rfl)⟩
  | countDown =>
    obtain rfl := h.owner_eq hpc rfl
    exact ⟨_, h.goto hpc _ rfl (fun _ => .inl rfl)
      (h.account.countDown rfl (hadd _ rfl rfl rfl) rfl)⟩
  | lockQueue =>
    simp only [pcStep]
    split
    next hfree =>
      obtain rfl := h.owner_eq hpc rfl
      refine ⟨_, h.goto hpc .dequeue rfl (fun _ => .inl rfl)
        (h.account.own ⟨rfl, rfl, rfl, rfl, rfl, rfl, rfl, rfl, rfl⟩ ?_
          rfl rfl rfl rfl (by simp) ⟨nofun, nofun⟩ (by simp))⟩
      rw [adding_of_free hfree]
      exact hheld .dequeue rfl rfl
    · exact ⟨o, h⟩
  | dequeue =>
    obtain rfl := h.owner_eq hpc rfl
    have hlock := hl.held hpc rfl
    have hnone : s.adding = [] := adding_of_held hlock hpc
    simp only [pcStep]
    split
    next hnil => exact absurd hnil (h.account.dequeue_ne_nil hnone)
    next w ws hlist =>
      exact ⟨_, h.goto hpc (.unlockCall w) rfl (fun _ => .inl rfl)
        (h.account.dequeue hnone hlist (hheld (.unlockCall w) rfl hlock) rfl)⟩
  | unlockCall w =>
    obtain rfl := h.owner_eq hpc rfl
    have hnone : s.adding = [] := adding_of_held (hl.held hpc rfl) hpc
    exact ⟨_, h.goto hpc (.call w) rfl (fun _ => .inl rfl)
      (h.account.own ⟨rfl, rfl, rfl, rfl, rfl, rfl, rfl, rfl, rfl⟩
        ((adding_of_free rfl).trans hnone.symm)
        rfl rfl rfl rfl (by simp) ⟨nofun, nofun⟩ (by simp))⟩
  | unlockReturn =>
    obtain rfl := h.owner_eq hpc rfl
    exact absurd rfl (h.account.noReturn i _ rfl).1
  | derefFail =>
    obtain rfl := h.owner_eq hpc rfl
    exact ⟨_, h.goto hpc .freeId rfl (fun _ => .inl rfl)
      (h.account.own ⟨rfl, rfl, rfl, rfl, rfl, rfl, rfl, rfl, rfl⟩ (hadd .freeId rfl rfl rfl)
        rfl rfl rfl rfl (by simp) ⟨nofun, nofun⟩ (by simp))⟩
  | freeId =>
    obtain rfl := h.owner_eq hpc rfl
    exact ⟨_, h.goto hpc .derefOwn rfl (fun _ => .inl rfl)
      (h.account.own ⟨rfl, rfl, rfl, rfl, rfl, rfl, rfl, rfl, rfl⟩ (hadd .derefOwn rfl rfl rfl)
        rfl rfl rfl rfl (by simp) ⟨nofun, nofun⟩ (by simp))⟩
  | derefOwn =>
    obtain rfl := h.owner_eq hpc rfl
    exact ⟨_, h.goto hpc .waitComp rfl (fun _ => .inl rfl)
      (h.account.own ⟨rfl, rfl, rfl, rfl, rfl, rfl, rfl, rfl, rfl⟩ (hadd .waitComp rfl rfl rfl)
        rfl rfl rfl rfl (by simp) ⟨nofun, nofun⟩ (by simp))⟩
  | waitComp =>
    simp only [pcStep]
    split
    · obtain rfl := h.owner_eq hpc rfl
      exact ⟨_, h.goto hpc .drain rfl (fun _ => .inl rfl)
        (h.account.own ⟨rfl, rfl, rfl, rfl, rfl, rfl, rfl, rfl, rfl⟩ (hadd .drain rfl rfl rfl)
          rfl rfl rfl rfl (by simp) ⟨nofun, nofun⟩ (by simp))⟩
    · exact ⟨o, h⟩
  | drain =>
    obtain rfl := h.owner_eq hpc rfl
    simp only [pcStep]
    split
    · exact ⟨_, h.goto hpc .destroyed rfl (fun _ => .inl rfl)
        (h.account.own ⟨rfl, rfl, rfl, rfl, rfl, rfl, rfl, rfl, rfl⟩ (hadd .destroyed rfl rfl rfl)
          rfl rfl rfl rfl (by simp) ⟨nofun, nofun⟩ (by simp))⟩
    next w ws hlist => exact ⟨_, h.excl, h.pc, h.account.drain hlist rfl rfl⟩
  | leaked => exact ⟨o, h⟩
  | destroyed => exact ⟨o, h⟩
  | done => exact ⟨o, h⟩

/-- References, and which events were accepted and dropped. -/
structure RefInv (s : CmWork) : Prop where
  refcount : s.refcount = 1 + (s.threads.map CmPc.refs).sum
  inTable : ∀ pc ∈ s.threads, pc.removed → s.inTable = false
  dropped : ∀ i pc, s.threads[i]? = some pc → (i ∈ s.dropped ↔ pc.dropped)
  dropped_lt : ∀ i ∈ s.dropped, i < s.threads.length
  dropped_nodup : s.dropped.Nodup
  accepted : ∀ i pc, s.threads[i]? = some pc → pc.undecided → i ∉ s.accepted
  accepted_lt : ∀ i ∈ s.accepted, i < s.threads.length
  accepted_nodup : s.accepted.Nodup

theorem RefInv.moved (h : RefInv s) (hpc : s.threads[i]? = some pc) (hm : Moved s s' i pc pc') :
    RefInv s' := by
  have hlt : i < s.threads.length := (List.getElem?_eq_some_iff.mp hpc).1
  have hget := Threads.getElem?_set_of_getElem? hpc pc'
  have hi := h.dropped i pc hpc
  constructor
  · have hsum := Threads.sum_map_set CmPc.refs pc' hpc
    rw [hm.threads, hm.refcount, h.refcount]
    omega
  · intro pcj hj hrem
    rw [hm.threads] at hj
    rw [hm.inTable]
    rcases mem_or_eq_of_mem_set hj with hj | rfl
    · simp [h.inTable pcj hj hrem]
    · by_cases hr : pc.removed
      · simp [h.inTable pc (mem_of_getElem? hpc) hr]
      · simp [hrem, hr]
  · intro j pcj hj
    rw [hm.threads, hget] at hj
    rw [hm.dropped]
    by_cases hji : j = i
    · subst hji
      rw [if_pos rfl, Option.some.injEq] at hj
      subst hj
      by_cases hd : pc.dropped
      · simp [hd, hi.mpr hd, hm.keeps hd]
      · by_cases hd' : pc'.dropped
        · simp [hd, hd']
        · have hnot : j ∉ s.dropped := fun hmem => hd (hi.mp hmem)
          simp [hd', hnot]
    · rw [if_neg hji] at hj
      rw [← h.dropped j pcj hj]
      split
      · simp [hji]
      · exact Iff.rfl
  · intro j hj
    rw [hm.threads, length_set]
    rw [hm.dropped] at hj
    split at hj
    · rcases mem_append.mp hj with hj | hj
      · exact h.dropped_lt j hj
      · rw [mem_singleton.mp hj]
        exact hlt
    · exact h.dropped_lt j hj
  · rw [hm.dropped]
    split
    next hd =>
      have hnot : i ∉ s.dropped := fun hmem => by
        simp [hi.mp hmem] at hd
      exact nodup_append.mpr ⟨h.dropped_nodup, by simp, fun a ha b hb he =>
        hnot (by rw [← mem_singleton.mp hb, ← he]; exact ha)⟩
    · exact h.dropped_nodup
  · intro j pcj hj hu
    rw [hm.threads, hget] at hj
    by_cases hji : j = i
    · subst hji
      rw [if_pos rfl, Option.some.injEq] at hj
      subst hj
      obtain ⟨hu', heq⟩ := hm.decided hu
      rw [heq]
      exact h.accepted j pc hpc hu'
    · rw [if_neg hji] at hj
      have hnot := h.accepted j pcj hj hu
      rcases hm.accepted with heq | ⟨-, heq⟩ <;> rw [heq]
      · exact hnot
      · simp [hnot, hji]
  · intro j hj
    rw [hm.threads, length_set]
    rcases hm.accepted with heq | ⟨-, heq⟩ <;> rw [heq] at hj
    · exact h.accepted_lt j hj
    · rcases mem_append.mp hj with hj | hj
      · exact h.accepted_lt j hj
      · rw [mem_singleton.mp hj]
        exact hlt
  · rcases hm.accepted with heq | ⟨hu, heq⟩ <;> rw [heq]
    · exact h.accepted_nodup
    · have hnot := h.accepted i pc hpc hu
      exact nodup_append.mpr ⟨h.accepted_nodup, by simp, fun a ha b hb he =>
        hnot (by rw [← mem_singleton.mp hb, ← he]; exact ha)⟩

theorem pcStep_refInv (hl : LockInv s) (h : RefInv s) (b : Bool) (hpc : s.threads[i]? = some pc) :
    RefInv (pcStep s i b pc) := by
  rcases pcStep_moved b (hl.held hpc) with hs | ⟨pc', hm⟩
  · refine ⟨?_, ?_, ?_, ?_, ?_, ?_, ?_, ?_⟩ <;>
      simp only [hs.threads, hs.refcount, hs.inTable, hs.dropped, hs.accepted]
    exacts [h.refcount, h.inTable, h.dropped, h.dropped_lt, h.dropped_nodup, h.accepted,
      h.accepted_lt, h.accepted_nodup]
  · exact h.moved hpc hm

/-- Once the destroy has waited for the last reference, every other thread has returned. -/
def QuietInv (s : CmWork) : Prop :=
  ∀ (j : Nat) (pc : CmPc), s.threads[j]? = some pc → pc = .drain ∨ pc = .destroyed →
    ∀ (k : Nat) (pc' : CmPc), k ≠ j → s.threads[k]? = some pc' → pc' = .done

/-- Only the processing thread counts for less than nothing. -/
theorem done_of_refs (howns : pc.owns = false) :
    0 ≤ pc.refs ∧ (pc.refs = 0 → pc = .done) := by
  cases pc <;> simp_all [CmPc.owns, CmPc.refs]

theorem quiet_of_refcount (hc : CountInv s o) (hr : RefInv s) (hpc : s.threads[i]? = some .waitComp)
    (hzero : s.refcount = 0) :
    ∀ k pc', k ≠ i → s.threads[k]? = some pc' → pc' = .done := by
  obtain rfl := hc.owner_eq hpc rfl
  -- the threads with the destroying one replaced
  have hsum : ((s.threads.set i .done).map CmPc.refs).sum = 0 := by
    have hset := Threads.sum_map_set CmPc.refs .done hpc
    have := hr.refcount
    simp only [CmPc.refs] at hset
    omega
  have hother : ∀ k pc', k ≠ i → s.threads[k]? = some pc' → pc'.owns = false := by
    intro k pc' hk hpc'
    by_contra hown
    have := hc.owner_eq hpc' (by simpa using hown)
    simp only [Option.some.injEq, Prod.mk.injEq] at this
    exact hk this.1.symm
  have hnonneg : ∀ pc' ∈ s.threads.set i .done, 0 ≤ pc'.refs := by
    intro pc' hmem
    obtain ⟨k, hk⟩ := List.getElem?_of_mem hmem
    rw [Threads.getElem?_set_of_getElem? hpc] at hk
    split at hk
    · cases hk
      exact le_refl _
    next hki => exact (done_of_refs (hother k pc' hki hk)).1
  intro k pc' hk hpc'
  refine (done_of_refs (hother k pc' hk hpc')).2 ?_
  refine Threads.eq_zero_of_sum_map_eq_zero hnonneg hsum pc'
    (mem_of_getElem? (?_ : (s.threads.set i .done)[k]? = some pc'))
  rw [Threads.getElem?_set_of_getElem? hpc, if_neg hk]
  exact hpc'

theorem pcStep_quietInv (hl : LockInv s) (h : QuietInv s) (hc : CountInv s o) (hr : RefInv s)
    (b : Bool) (hpc : s.threads[i]? = some pc) : QuietInv (pcStep s i b pc) := by
  rcases pcStep_moved b (hl.held hpc) with hs | ⟨pc', hm⟩
  · intro j pcj hj hpcj k pck hk hpck
    rw [hs.threads] at hj hpck
    exact h j pcj hj hpcj k pck hk hpck
  · intro j pcj hj hpcj k pck hk hpck
    rw [hm.threads, Threads.getElem?_set_of_getElem? hpc] at hj hpck
    by_cases hji : j = i
    · -- the thread that moves is destroying the cm_id
      subst hji
      rw [if_pos rfl, Option.some.injEq] at hj
      subst hj
      rw [if_neg hk] at hpck
      rcases hm.ends hpcj with rfl | ⟨rfl, hzero⟩
      · exact h j .drain hpc (.inl rfl) k pck hk hpck
      · exact quiet_of_refcount hc hr hpc hzero k pck hk hpck
    · -- another thread is, so the one that moves would have returned
      rw [if_neg hji] at hj
      exact absurd (h j pcj hj hpcj i pc (Ne.symm hji) hpc) hm.notDone

/-- A destroy returns when it has emptied the list, and nothing is added any more. -/
def EmptyInv (s : CmWork) : Prop :=
  ∀ j : Nat, s.threads[j]? = some .destroyed → s.workList = []

theorem pcStep_emptyInv (hl : LockInv s) (hq : QuietInv s) (h : EmptyInv s) (b : Bool)
    (hpc : s.threads[i]? = some pc) : EmptyInv (pcStep s i b pc) := by
  -- a destroy that has returned leaves no other thread to move
  have hbefore (j : Nat) (hj : s.threads[j]? = some .destroyed) : pcStep s i b pc = s := by
    by_cases hji : i = j
    · rw [← hji, hpc, Option.some.injEq] at hj
      rw [hj]
      rfl
    · rw [hq j .destroyed hj (.inr rfl) i pc hji hpc]
      rfl
  rcases pcStep_moved b (hl.held hpc) with hs | ⟨pc', hm⟩
  · intro j hj
    rw [hs.threads] at hj
    rw [hbefore j hj]
    exact h j hj
  · intro j hj
    rw [hm.threads, Threads.getElem?_set_of_getElem? hpc] at hj
    by_cases hji : j = i
    · rw [if_pos hji, Option.some.injEq] at hj
      subst hj
      rcases hm.ends (.inr rfl) with rfl | ⟨rfl, hzero⟩
      · have hthreads := hm.threads
        have hlt : i < s.threads.length := (List.getElem?_eq_some_iff.mp hpc).1
        simp only [pcStep] at hthreads ⊢
        split at hthreads
        next hnil => exact hnil
        · -- one more event was freed, and the thread has not moved
          have hsame := congrArg (·[i]?) hthreads
          simp only [hpc, List.getElem?_set_self hlt] at hsame
          cases hsame
      · have hthreads := congrArg (·[i]?) hm.threads
        have hlt : i < s.threads.length := (List.getElem?_eq_some_iff.mp hpc).1
        simp [pcStep, hzero, CmWork.goto, hlt] at hthreads
    · rw [if_neg hji] at hj
      rw [hbefore j hj]
      exact h j hj

/-- More than the steps a thread has ahead, the handling of one event counted in full. -/
def CmPc.ahead : CmPc → Nat
  | .lock => 12
  | .check => 11
  | .listAdd => 10
  | .unlockOwn | .unlockCall _ => 9
  | .call _ => 8
  | .inCall _ => 7
  | .freeWork _ _ => 6
  | .countDown | .derefFail => 5
  | .lockQueue | .freeId => 4
  | .dequeue | .derefOwn => 3
  | .unlockDrop | .waitComp => 2
  | .deref | .unlockReturn | .drain => 1
  | .leaked | .destroyed | .done => 0

/-- A bound on the steps to come if no other handler finds the cm_id. -/
def CmWork.ahead (s : CmWork) : Nat :=
  (s.threads.map CmPc.ahead).sum + 7 * s.workList.length

/-- A thread has to wait, or has returned. -/
def CmWork.waits (s : CmWork) : CmPc → Prop
  | .lock | .lockQueue => s.lock ≠ none
  | .waitComp => s.refcount ≠ 0
  | .leaked | .destroyed | .done => True
  | _ => False

theorem ahead_goto (hpc : s.threads[i]? = some pc) (hs : s'.threads = s.threads.set i pc')
    (hlt : pc'.ahead + 7 * s'.workList.length < pc.ahead + 7 * s.workList.length) :
    s'.ahead < s.ahead := by
  have hsum := Threads.sum_map_set CmPc.ahead pc' hpc
  unfold CmWork.ahead
  rw [hs]
  omega

theorem pcStep_ahead (b : Bool) (hpc : s.threads[i]? = some pc) :
    pcStep s i b pc = s ∧ s.waits pc ∨ (pcStep s i b pc).ahead < s.ahead := by
  have hgo {s' : CmWork} (pc' : CmPc) := @ahead_goto s s' i _ pc' hpc
  cases pc with
  | lock | lockQueue =>
    simp only [pcStep]
    split
    · exact .inr (hgo _ rfl (by simp [CmPc.ahead, CmWork.goto]))
    next hl => exact .inl ⟨rfl, hl⟩
  | waitComp =>
    simp only [pcStep]
    split
    · exact .inr (hgo _ rfl (by simp [CmPc.ahead, CmWork.goto]))
    next hr => exact .inl ⟨rfl, hr⟩
  | leaked | destroyed | done => exact .inl ⟨rfl, trivial⟩
  | check =>
    simp only [pcStep]
    refine .inr ?_
    split
    · split <;> exact hgo _ rfl (by simp [CmPc.ahead, CmWork.goto])
    · exact hgo _ rfl (by simp [CmPc.ahead, CmWork.goto])
  | listAdd => exact .inr (hgo _ rfl (by simp [pcStep, CmPc.ahead]; omega))
  | freeWork w ok =>
    cases ok <;> exact .inr (hgo _ rfl (by simp [pcStep, CmPc.ahead, CmWork.goto]))
  | countDown =>
    simp only [pcStep]
    refine .inr ?_
    split <;> exact hgo _ rfl (by simp [CmPc.ahead, CmWork.goto])
  | dequeue =>
    simp only [pcStep]
    refine .inr ?_
    split
    · exact hgo _ rfl (by simp [CmPc.ahead, CmWork.goto])
    next hl => exact hgo _ rfl (by simp [CmPc.ahead, hl]; omega)
  | drain =>
    simp only [pcStep]
    refine .inr ?_
    split
    · exact hgo _ rfl (by simp [CmPc.ahead, CmWork.goto])
    next hl => simp [CmWork.ahead, hl]
  | unlockDrop | deref | unlockOwn | call | inCall | unlockCall | unlockReturn | derefFail | freeId
  | derefOwn =>
    exact .inr (hgo _ rfl (by simp [pcStep, CmPc.ahead, CmWork.goto]))

theorem not_waits_of_holdsLock (h : pc.holdsLock) : ¬ s.waits pc := by
  cases pc <;> simp_all [CmPc.holdsLock, CmWork.waits]

/-- The threads do not wait for each other for ever: if all wait, all have returned. -/
theorem returned_of_waits (hl : LockInv s) (hc : CountInv s o) (hr : RefInv s)
    (hwaits : ∀ pc ∈ s.threads, s.waits pc) :
    ∀ pc ∈ s.threads, pc = .done ∨ pc = .destroyed := by
  -- a thread with the lock does not wait
  have hlock : s.lock = none := by
    by_contra hsome
    obtain ⟨i, hi⟩ := Option.ne_none_iff_exists'.mp hsome
    have hpc := List.getElem?_eq_getElem (hl.lt i hi)
    have hhold := (hl.excl i _ hpc).mpr hi
    exact not_waits_of_holdsLock hhold (hwaits _ (mem_of_getElem? hpc))
  have hleak : CmPc.leaked ∉ s.threads := fun hmem => by
    obtain ⟨i, hi⟩ := List.getElem?_of_mem hmem
    exact (hc.account.noReturn i _ (hc.owner_eq hi rfl)).2 rfl
  have hcases (pc : CmPc) (hpc : pc ∈ s.threads) : pc = .done ∨ pc = .destroyed ∨
    pc = .waitComp := by
    have hw := hwaits pc hpc
    cases pc with
    | done => exact .inl rfl
    | destroyed => exact .inr (.inl rfl)
    | waitComp => exact .inr (.inr rfl)
    | leaked => exact absurd hpc hleak
    | lock | lockQueue => exact absurd hlock hw
    | _ => exact hw.elim
  intro pc hpc
  rcases hcases pc hpc with h | h | rfl
  · exact .inl h
  · exact .inr h
  · -- the destroy is the only thread that counts, so the last reference is gone
    exfalso
    obtain ⟨i, hi⟩ := List.getElem?_of_mem hpc
    obtain rfl := hc.owner_eq hi rfl
    have hzero : ((s.threads.set i .done).map CmPc.refs).sum = 0 := by
      refine sum_eq_zero fun r hr => ?_
      obtain ⟨pc', hpc', rfl⟩ := mem_map.mp hr
      obtain ⟨k, hk⟩ := List.getElem?_of_mem hpc'
      rw [Threads.getElem?_set_of_getElem? hi] at hk
      split at hk
      · cases hk
        rfl
      next hki =>
        rcases hcases pc' (mem_of_getElem? hk) with rfl | rfl | rfl
        · rfl
        · have := hc.owner_eq hk rfl
          simp only [Option.some.injEq, Prod.mk.injEq] at this
          exact absurd this.1.symm hki
        · have := hc.owner_eq hk rfl
          simp only [Option.some.injEq, Prod.mk.injEq] at this
          exact absurd this.1.symm hki
    have hsum := Threads.sum_map_set CmPc.refs .done hi
    have hcount := hr.refcount
    simp only [CmPc.refs] at hsum
    exact hwaits _ hpc (by omega)

/-! ## Every interleaving -/

/-- The invariant of all steps. -/
structure WorkInv (s : CmWork) : Prop where
  lock : LockInv s
  count : ∃ o, CountInv s o
  refs : RefInv s
  quiet : QuietInv s
  empty : EmptyInv s

theorem create_workInv : WorkInv .create where
  lock := ⟨nofun, nofun⟩
  count := ⟨none, nofun, nofun, rfl, rfl, rfl, fun _ => rfl, nofun, nofun, rfl, rfl,
    fun h => absurd rfl h, by simp [CmWork.create]⟩
  refs := ⟨rfl, nofun, nofun, nofun, .nil, nofun, nofun, .nil⟩
  quiet := nofun
  empty := nofun

theorem request_workInv : WorkInv .request where
  lock := by
    refine ⟨fun i pc hpc => ?_, nofun⟩
    cases i with
    | zero => cases hpc; simp [CmPc.holdsLock, CmWork.request]
    | succ i => simp [CmWork.request] at hpc
  count := by
    refine ⟨some (0, .call 0), fun i pc hpc => ?_, ?_, rfl, rfl, rfl, nofun, ?_, ?_, rfl, rfl,
      fun h => absurd rfl h, ?_⟩
    · cases i with
      | zero => cases hpc; simp [CmPc.owns]
      | succ i => simp [CmWork.request] at hpc
    · rintro _ _ ⟨⟩
      rfl
    · rintro _ _ ⟨⟩ hq
      rcases hq with hq | hq <;> cases hq
    · rintro _ _ ⟨⟩
      exact ⟨nofun, nofun⟩
    · simp [CmWork.request, CmPc.failing]
  refs := by
    refine ⟨rfl, ?_, fun i pc hpc => ?_, nofun, .nil, fun i pc hpc hu => ?_, ?_, ?_⟩
    · simp [CmWork.request, CmPc.removed]
    · cases i with
      | zero => cases hpc; simp [CmPc.dropped, CmWork.request]
      | succ i => simp [CmWork.request] at hpc
    · cases i with
      | zero => cases hpc; cases hu
      | succ i => simp [CmWork.request] at hpc
    · simp [CmWork.request]
    · simp [CmWork.request]
  quiet := by
    intro j pc hj hpc
    cases j with
    | zero => cases hj; rcases hpc with h | h <;> cases h
    | succ j => simp [CmWork.request] at hj
  empty := fun _ _ => rfl

/-- A handler finds the cm_id. -/
theorem acquire_workInv (h : WorkInv s) (hin : s.inTable = true) :
    WorkInv { s with refcount := s.refcount + 1, threads := s.threads ++ [.lock] } := by
  -- the threads that were there, and the new one
  have hget {j : Nat} {pc : CmPc} (hj : (s.threads ++ [CmPc.lock])[j]? = some pc) :
      s.threads[j]? = some pc ∨ j = s.threads.length ∧ pc = .lock := by
    by_cases hlt : j < s.threads.length
    · rw [List.getElem?_append_left hlt] at hj
      exact .inl hj
    · rw [List.getElem?_append_right (by omega)] at hj
      have hlen := (List.getElem?_eq_some_iff.mp hj).1
      exact .inr ⟨by simp at hlen; omega, mem_singleton.mp (mem_of_getElem? hj)⟩
  have hold {j : Nat} {pc : CmPc} (hj : s.threads[j]? = some pc) :
      (s.threads ++ [CmPc.lock])[j]? = some pc := by
    rw [List.getElem?_append_left (List.getElem?_eq_some_iff.mp hj).1]
    exact hj
  obtain ⟨o, hc⟩ := h.count
  have hadding : CmWork.adding
      { s with refcount := s.refcount + 1, threads := s.threads ++ [.lock] } = s.adding := by
    unfold CmWork.adding
    cases hlk : s.lock with
    | none => rfl
    | some i =>
      simp only
      rw [List.getElem?_append_left (h.lock.lt i hlk)]
  refine ⟨⟨h.lock.excl.append h.lock.lt rfl, fun i hi => ?_⟩,
    ⟨o, ?_, fun i pc ho => hold (hc.pc i pc ho),
    hc.account.other ⟨rfl, rfl, rfl, rfl, rfl, rfl, rfl, rfl, rfl⟩ hadding⟩, ?_, ?_, fun j hj => ?_⟩
  · exact Nat.lt_of_lt_of_le (h.lock.lt i hi) (by simp)
  · refine hc.excl.append (fun i hi => ?_) rfl
    obtain ⟨⟨j, pc⟩, rfl, rfl⟩ := Option.map_eq_some_iff.mp hi
    exact (List.getElem?_eq_some_iff.mp (hc.pc j pc rfl)).1
  · have hr := h.refs
    refine ⟨?_, ?_, ?_, ?_, hr.dropped_nodup, ?_, ?_, hr.accepted_nodup⟩
    · simp [hr.refcount, CmPc.refs]
      omega
    · intro pc hpc hrem
      rcases mem_append.mp hpc with hpc | hpc
      · exact hr.inTable pc hpc hrem
      · rw [mem_singleton.mp hpc] at hrem
        cases hrem
    · intro j pc hj
      rcases hget hj with hj | ⟨rfl, rfl⟩
      · exact hr.dropped j pc hj
      · have hnot : s.threads.length ∉ s.dropped := fun hm => absurd (hr.dropped_lt _ hm) (by omega)
        simp [hnot, CmPc.dropped]
    · exact fun i hi => Nat.lt_of_lt_of_le (hr.dropped_lt i hi) (by simp)
    · intro j pc hj hu
      rcases hget hj with hj | ⟨rfl, rfl⟩
      · exact hr.accepted j pc hj hu
      · exact fun hm => absurd (hr.accepted_lt _ hm) (by omega)
    · exact fun i hi => Nat.lt_of_lt_of_le (hr.accepted_lt i hi) (by simp)
  · intro j pc hj hpc
    rcases hget hj with hj | ⟨-, rfl⟩
    · -- a thread that is destroying has taken the cm_id out of the table
      have hrem : pc.removed := by rcases hpc with rfl | rfl <;> rfl
      rw [h.refs.inTable pc (mem_of_getElem? hj) hrem] at hin
      cases hin
    · rcases hpc with h | h <;> cases h
  · rcases hget hj with hj | ⟨-, hj⟩
    · exact h.empty j hj
    · cases hj

theorem workStep_inv {a : CmWorkAction} (h : WorkInv s) : WorkInv (workStep s a) := by
  cases a with
  | acquire =>
    simp only [workStep]
    split
    next hin => exact acquire_workInv h hin
    · exact h
  | step i b =>
    simp only [workStep]
    split
    · exact h
    next pc hpc =>
      obtain ⟨o, hc⟩ := h.count
      exact ⟨pcStep_lockInv h.lock b hpc, pcStep_countInv h.lock hc b hpc,
        pcStep_refInv h.lock h.refs b hpc, pcStep_quietInv h.lock h.quiet hc h.refs b hpc,
        pcStep_emptyInv h.lock h.quiet h.empty b hpc⟩

/-- What a user of the CM relies on. -/
structure Delivery (s : CmWork) : Prop where
  /-- Each event is accepted once, and callbacks are made in the order of acceptance. -/
  once : s.accepted.Nodup
  inOrder : s.callbacks <+: s.accepted
  /-- No event is left when all threads have returned. -/
  complete : s.failedAt = none → (∀ pc ∈ s.threads, pc = .done) → s.callbacks = s.accepted
  /-- Two threads are never in a callback. -/
  alone : ∀ i j v w : Nat, s.threads[i]? = some (CmPc.inCall v) →
    s.threads[j]? = some (CmPc.inCall w) → i = j
  workCount : s.workCount = s.accepted.length - s.finished - 1
  /-- The list has the events that were not started, but for one about to be added under the lock
and those that a destroy has freed. -/
  workList : s.accepted = s.started ++ s.drained ++ s.workList ++ s.adding
  notDrained : s.failedAt = none → s.drained = []
  /-- The reference of an event is dropped once, by the time its handler returns. -/
  dropOnce : s.dropped.Nodup
  dropped : ∀ i ∈ s.accepted, s.threads[i]? = some CmPc.done ∨ s.threads[i]? = some CmPc.destroyed →
    i ∈ s.dropped
  noLeak : CmPc.leaked ∉ s.threads
  /-- After a callback has failed there is no other, and the destroy frees the rest. -/
  noMore : ∀ n, s.failedAt = some n → s.callbacks.length = n
  freedOnce : (s.freed ++ s.drained).Nodup
  freed : CmPc.destroyed ∈ s.threads → s.freed ++ s.drained = s.accepted
  /-- The threads return: each step that does something leaves fewer to do, and when none
  does anything all have returned. -/
  fewer : ∀ i b, workStep s (.step i b) = s ∨ (workStep s (.step i b)).ahead < s.ahead
  returned : (∀ i b, workStep s (.step i b) = s) → ∀ pc ∈ s.threads, pc = .done ∨ pc = .destroyed

theorem WorkInv.delivery (h : WorkInv s) : Delivery s := by
  obtain ⟨o, hc⟩ := h.count
  have hacc := hc.account
  have hfreed : s.accepted = s.freed ++ unfreedBy o ++ takenBy o ++ s.drained ++ s.workList ++
      s.adding := by
    rw [← hacc.freed]
    exact hacc.accepted
  constructor
  · exact h.refs.accepted_nodup
  · rw [hacc.accepted]
    simp only [append_assoc]
    exact prefix_append _ _
  · intro hfail hdone
    -- without a processing thread nothing is waiting
    have hnone : o = none := by
      cases ho : o with
      | none => rfl
      | some op =>
        have hown := hc.owns ho
        rw [hdone _ (mem_of_getElem? (hc.pc op.1 op.2 ho))] at hown
        cases hown
    subst hnone
    have hidle := hacc.idle rfl
    have hcount := hacc.count
    have hdrained : s.drained = [] := eq_nil_of_length_eq_zero (by omega)
    have hlist : s.workList = [] := eq_nil_of_length_eq_zero (by omega)
    have hadding : s.adding = [] := eq_nil_of_length_eq_zero (by omega)
    rw [hacc.accepted, hdrained, hlist, hadding]
    simp [takenBy]
  · intro i j v w hi hj
    have := (hc.owner_eq hi rfl).symm.trans (hc.owner_eq hj rfl)
    simp only [Option.some.injEq, Prod.mk.injEq] at this
    exact this.1
  · have hcount := hacc.count
    have hfin := hacc.finished
    have hlen := congrArg List.length hacc.accepted
    simp only [length_append] at hlen
    omega
  · rw [hacc.started]
    exact hacc.accepted
  · intro hfail
    by_contra hne
    obtain ⟨i, pc, rfl, hpc⟩ := hacc.drained hne
    have hsome := (hacc.failed s.callbacks.length).mpr
      ⟨rfl, i, pc, rfl, by rcases hpc with rfl | rfl <;> rfl⟩
    rw [hfail] at hsome
    cases hsome
  · exact h.refs.dropped_nodup
  · rintro i - (hi | hi)
    all_goals exact (h.refs.dropped i _ hi).mpr rfl
  · intro hmem
    obtain ⟨i, hi⟩ := List.getElem?_of_mem hmem
    exact (hacc.noReturn i _ (hc.owner_eq hi rfl)).2 rfl
  · exact fun n hn => ((hacc.failed n).mp hn).1
  · have hsub : (s.freed ++ s.drained).Sublist s.accepted := by
      rw [hfreed]
      simp only [append_assoc]
      refine (List.Sublist.refl _).append ?_
      refine List.Sublist.trans ?_ (sublist_append_right _ _)
      exact List.Sublist.trans (sublist_append_left _ _) (sublist_append_right _ _)
    exact h.refs.accepted_nodup.sublist hsub
  · intro hmem
    obtain ⟨i, hi⟩ := List.getElem?_of_mem hmem
    obtain rfl := hc.owner_eq hi rfl
    have hadding : s.adding = [] := by
      cases hlk : s.lock with
      | none => simp [CmWork.adding, hlk]
      | some k =>
        -- a thread with the lock has not returned, and the destroy does not hold it
        obtain ⟨pc, hk⟩ : ∃ pc, s.threads[k]? = some pc :=
          ⟨_, List.getElem?_eq_getElem (h.lock.lt k hlk)⟩
        have hhold := (h.lock.excl k pc hk).mpr hlk
        by_cases hki : k = i
        · rw [hki, hi, Option.some.injEq] at hk
          rw [← hk] at hhold
          cases hhold
        · rw [h.quiet i .destroyed hi (.inr rfl) k _ hki hk] at hhold
          cases hhold
    rw [hfreed, h.empty i hi, hadding]
    simp [unfreedBy, takenBy, CmPc.unfreed, CmPc.taken]
  · intro i b
    simp only [workStep]
    split
    · exact .inl rfl
    next pc hpc =>
      rcases pcStep_ahead b hpc with ⟨hsame, -⟩ | hlt
      · exact .inl hsame
      · exact .inr hlt
  · intro hstuck
    refine returned_of_waits h.lock hc h.refs fun pc hmem => ?_
    obtain ⟨i, hpc⟩ := List.getElem?_of_mem hmem
    rcases pcStep_ahead true hpc with ⟨-, hw⟩ | hlt
    · exact hw
    · have hsame := hstuck i true
      simp only [workStep, hpc] at hsame
      rw [hsame] at hlt
      exact absurd hlt (Nat.lt_irrefl _)

/-- In every interleaving of the handlers of a cm_id, events are delivered once, in order and by
one thread at a time. -/
theorem event_delivery_every_run (as : List CmWorkAction) :
    (∀ s ∈ Run.states workStep .create as, Delivery s) ∧
      ∀ s ∈ Run.states workStep .request as, Delivery s := by
  have hinv {start : CmWork} (hstart : WorkInv start) :
      ∀ s ∈ Run.states workStep start as, Delivery s := by
    intro s hs
    exact (Run.Steps.invariant (fun _ _ h _ => workStep_inv h) hstart (Run.steps_true _ _)
      s hs).delivery
  exact ⟨hinv create_workInv, hinv request_workInv⟩

end IbCm
