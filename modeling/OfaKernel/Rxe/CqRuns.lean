-- SUMMARY: The completion queue of rxe over every run.
import OfaKernel.Rxe.QueueResize

/-!
# Completion queues

`rxe_cq.c` and the verbs on a completion queue. What is posted comes out in order and once,
also when the queue is resized in between.
-/

open List

namespace Rxe

/-- `struct rxe_cq`, with the elements that have gone in and those that have come out. -/
structure RxeCq where
  queue : Ring
  cqe : Int
  posted : List (List UInt8)
  polled : List (List UInt8)

def rxeCqFromInit (cacheLineSize elemSize : Nat) (cqe : Int) (vmallocUser : Bool)
    (doMmapInfo : Int) : Option RxeCq :=
  if rxeCqChkAttr rxeMaxCqe cqe none ≠ 0 ∨ doMmapInfo ≠ 0 then none
  else (Ring.init cacheLineSize cqe elemSize vmallocUser).map fun (r, n) => ⟨r, n, [], []⟩

/-- `rxe_poll_cq`; `none` is an access outside of the queue. -/
def rxePollCq : Nat → Ring → Option (List (List UInt8) × Ring)
  | 0, r => some ([], r)
  | numEntries + 1, r =>
    match r.pop with
    | none => none
    | some (none, r) => some ([], r)
    | some (some x, r) => (rxePollCq numEntries r).map fun p => (x :: p.1, p.2)

/-- `rxe_resize_cq` and `rxe_cq_resize_queue`: the queue, `ibcq.cqe` and the value returned. -/
def rxeResizeCq (cacheLineSize : Nat) (cq : RxeCq) (cqe : Int) (vmallocUser : Bool)
    (doMmapInfo : Int) : Option (Ring × Int × Int) :=
  let q := cq.queue
  let err := rxeCqChkAttr rxeMaxCqe cqe (some (queueCount q.queue q.buf).toNat)
  if err ≠ 0 then some (q, cq.cqe, err)
  else
    (Ring.resize cacheLineSize vmallocUser doMmapInfo q (.ofNat cqe.toNat) q.queue.elemSize).map
      fun (q, n, err) => (q, if err = 0 then n else cq.cqe, err)

inductive CqCall (elemSize : Nat) where
  | post (x : { x : List UInt8 // x.length = elemSize })
  | poll (numEntries : Nat)
  | resize (cqe : Int) (vmallocUser : Bool) (doMmapInfo : Int)

def RxeCq.step {elemSize : Nat} (cacheLineSize : Nat) (cq : RxeCq) : CqCall elemSize → Option RxeCq
  | .post x =>
    (cq.queue.push x).map fun (ok, q) =>
      { cq with queue := q, posted := if ok then cq.posted ++ [x.1] else cq.posted }
  | .poll numEntries =>
    (rxePollCq numEntries cq.queue).map fun (xs, q) =>
      { cq with queue := q, polled := cq.polled ++ xs }
  | .resize cqe vmallocUser doMmapInfo =>
    (rxeResizeCq cacheLineSize cq cqe vmallocUser doMmapInfo).map fun (q, cqe, _) =>
      { cq with queue := q, cqe := cqe }

/-- `xs` is what has been posted and not polled. -/
structure RxeCq.Intact (cacheLineSize : Nat) (cq : RxeCq) (xs : List (List UInt8)) : Prop where
  posted : cq.posted = cq.polled ++ xs
  read : ∀ fuel, xs.length ≤ fuel → Ring.readAll fuel cq.queue = some xs
  /-- A completion is lost exactly when as many as `ibcq.cqe` are there. -/
  full : queueFull cq.queue.queue cq.queue.buf = true ↔ (xs.length : Int) = cq.cqe
  /-- A resize fails exactly when it is refused or there is no memory. -/
  resizes : ∀ cqe vmallocUser doMmapInfo, ∃ q n err,
    rxeResizeCq cacheLineSize cq cqe vmallocUser doMmapInfo = some (q, n, err) ∧
      (err = 0 ↔ 0 < cqe ∧ cqe ≤ rxeMaxCqe ∧ xs.length ≤ cqe ∧ vmallocUser = true ∧ doMmapInfo = 0)

/-- What every call keeps. -/
structure RxeCq.Inv (elemSize : Nat) (cq : RxeCq) (xs : List (List UInt8)) : Prop where
  posted : cq.posted = cq.polled ++ xs
  elemSize : cq.queue.queue.elemSize = elemSize
  holds : ∃ a b, cq.queue.Holds a b xs ∧ cq.cqe + 1 = 2 ^ a

theorem Ring.Holds.pollCq {r : Ring} {a b : Nat} {xs : List (List UInt8)} (h : r.Holds a b xs)
    (n : Nat) : ∃ r', rxePollCq n r = some (xs.take n, r') ∧ r'.queue = r.queue ∧
      r'.Holds a b (xs.drop n) := by
  induction n generalizing r xs with
  | zero => exact ⟨r, rfl, rfl, h⟩
  | succ n ih =>
    cases xs with
    | nil => exact ⟨r, by rw [rxePollCq, h.pop_nil]; rfl, rfl, h⟩
    | cons x xs =>
      obtain ⟨r', hpoll, hqueue, hr'⟩ := ih h.advanceConsumer
      refine ⟨r', ?_, hqueue, hr'⟩
      rw [rxePollCq, h.pop_cons]
      simp only [hpoll]
      rfl

section

variable {cacheLineSize elemSize : Nat} {cq : RxeCq} {xs : List (List UInt8)}

theorem rxeCqChkAttr_eq_zero {cqe : Int} {count : Nat} :
    rxeCqChkAttr rxeMaxCqe cqe (some count) = 0 ↔ 0 < cqe ∧ cqe ≤ rxeMaxCqe ∧ count ≤ cqe := by
  have heinval : Ring.einval = -22 := rfl
  unfold rxeCqChkAttr
  dsimp only
  split_ifs <;> omega

/-- A resize does nothing and fails, or moves the elements over and succeeds. -/
theorem RxeCq.Inv.resize (h : cq.Inv elemSize xs) (hcache : cacheLineSize ≤ 2 ^ 12)
    (helem : elemSize ≤ 2 ^ 12) (cqe : Int) (vmallocUser : Bool) (doMmapInfo : Int) :
    ∃ q n err, rxeResizeCq cacheLineSize cq cqe vmallocUser doMmapInfo = some (q, n, err) ∧
      (err = 0 ↔ 0 < cqe ∧ cqe ≤ rxeMaxCqe ∧ xs.length ≤ cqe ∧ vmallocUser = true ∧
        doMmapInfo = 0) ∧
      { cq with queue := q, cqe := n : RxeCq }.Inv elemSize xs := by
  obtain ⟨a, b, hh, ha⟩ := h.holds
  unfold rxeResizeCq
  simp only [hh.queueCount]
  by_cases hchk : rxeCqChkAttr rxeMaxCqe cqe (some xs.length) = 0
  · have hattr := rxeCqChkAttr_eq_zero.mp hchk
    have hmax : rxeMaxCqe = 32767 := rfl
    have hnum : (UInt32.ofNat cqe.toNat).toNat = cqe.toNat :=
      UInt32.toNat_ofNat_of_lt (by simp only [UInt32.size]; omega)
    have hwrap : I32.wrap cqe.toNat = (cqe.toNat : Int) := by
      unfold I32.wrap
      omega
    rw [if_neg (not_not.mpr hchk)]
    unfold Ring.resize
    rw [hnum, hwrap]
    cases hinit : Ring.init cacheLineSize cqe.toNat cq.queue.queue.elemSize vmallocUser with
    | none =>
      have hvm : vmallocUser = false := by
        by_contra hvm
        rw [Bool.not_eq_false] at hvm
        subst hvm
        unfold Ring.init rxeQueueInit at hinit
        simp at hinit
      exact ⟨_, _, _, rfl, iff_of_false (show Ring.enomem ≠ 0 by decide) (by simp [hvm]), h⟩
    | some p =>
      obtain ⟨newQ, n⟩ := p
      have hvm : vmallocUser = true := by
        by_contra hvm
        rw [Bool.not_eq_true] at hvm
        subst hvm
        cases hinit
      obtain ⟨a', b', hnew, hsize, hn, hle⟩ :=
        Ring.init_holds (areaFits_of_cq hcache (h.elemSize.trans_le helem) hchk) hinit
      unfold Ring.resizeWith
      dsimp only
      by_cases hmmap : doMmapInfo ≠ 0
      · rw [if_pos hmmap]
        refine ⟨_, _, _, rfl, iff_of_false hmmap fun h => hmmap h.2.2.2.2, ?_⟩
        rw [if_neg hmmap]
        exact h
      · have hfew : ¬n < xs.length := by
          clear hmax hnum hwrap hn
          omega
        obtain ⟨q', newQ', hloop, hqueue, hall⟩ :=
          hh.copyLoop hnew hsize (by rw [length_nil]; omega) (Nat.le_refl xs.length)
        have hfin : Ring.resizeFinish cq.queue newQ n = some ((newQ', q'), 0) := by
          unfold Ring.resizeFinish
          rw [hh.queueCount, decide_eq_false hfew, Bool.and_false, hloop]
          rfl
        rw [if_neg hmmap, hfin]
        refine ⟨_, _, _, rfl,
          iff_of_true rfl ⟨hattr.1, hattr.2.1, hattr.2.2, hvm, not_not.mp hmmap⟩,
          h.posted, ?_, a', b', hall, ?_⟩
        · exact (congrArg RxeQueue.elemSize hqueue).trans (hsize.trans h.elemSize)
        · simp only [if_true]
          exact_mod_cast hn
  · rw [if_pos hchk]
    refine ⟨_, _, _, rfl, iff_of_false hchk fun hattr => hchk ?_, h⟩
    exact rxeCqChkAttr_eq_zero.mpr ⟨hattr.1, hattr.2.1, hattr.2.2.1⟩

theorem RxeCq.Inv.step (h : cq.Inv elemSize xs) (hcache : cacheLineSize ≤ 2 ^ 12)
    (helem : elemSize ≤ 2 ^ 12) (call : CqCall elemSize) :
    ∃ cq' xs', cq.step cacheLineSize call = some cq' ∧ cq'.Inv elemSize xs' := by
  obtain ⟨a, b, hh, ha⟩ := h.holds
  cases call with
  | post x =>
    by_cases hfull : xs.length + 1 = 2 ^ a
    · exact ⟨_, xs, by rw [RxeCq.step, hh.push_full hfull]; rfl, h⟩
    · have hlt := hh.length_lt
      obtain ⟨q, hpush, hqueue, hq⟩ := hh.push_room (by omega) (x.2.trans h.elemSize.symm)
      refine ⟨{ cq with queue := q, posted := cq.posted ++ [x.1] }, xs ++ [x.1],
        by rw [RxeCq.step, hpush]; rfl, ?_,
        (congrArg RxeQueue.elemSize hqueue).trans h.elemSize, a, b, hq, ha⟩
      simp only [h.posted, append_assoc]
  | poll numEntries =>
    obtain ⟨q, hpoll, hqueue, hq⟩ := hh.pollCq numEntries
    refine ⟨{ cq with queue := q, polled := cq.polled ++ xs.take numEntries }, xs.drop numEntries,
      by rw [RxeCq.step, hpoll]; rfl, ?_,
      (congrArg RxeQueue.elemSize hqueue).trans h.elemSize, a, b, hq, ha⟩
    simp only [h.posted, append_assoc, take_append_drop]
  | resize cqe vmallocUser doMmapInfo =>
    obtain ⟨q, n, err, hres, -, hinv⟩ := h.resize hcache helem cqe vmallocUser doMmapInfo
    exact ⟨_, xs, by rw [RxeCq.step, hres]; rfl, hinv⟩

theorem RxeCq.Inv.intact (h : cq.Inv elemSize xs) (hcache : cacheLineSize ≤ 2 ^ 12)
    (helem : elemSize ≤ 2 ^ 12) : cq.Intact cacheLineSize xs := by
  obtain ⟨a, b, hh, ha⟩ := h.holds
  refine ⟨h.posted, fun _ => hh.readAll, ?_, fun cqe vmallocUser doMmapInfo => ?_⟩
  · rw [hh.queueFull_iff, ← Nat.cast_inj (R := Int), Nat.cast_pow, Nat.cast_succ, Nat.cast_ofNat,
      ← ha]
    omega
  · obtain ⟨q, n, err, hres, herr, -⟩ := h.resize hcache helem cqe vmallocUser doMmapInfo
    exact ⟨q, n, err, hres, herr⟩

end

/-- In every run of posts, polls and resizes of a completion queue, with any failures of its
allocations, no access leaves the queue, and what has been posted has been polled or is there. -/
theorem cq_every_run {cacheLineSize elemSize : Nat} (hcache : cacheLineSize ≤ 2 ^ 12)
    (helem : elemSize ≤ 2 ^ 12) {cqe : Int} {vmallocUser : Bool} {doMmapInfo : Int} {cq₀ : RxeCq}
    (hinit : rxeCqFromInit cacheLineSize elemSize cqe vmallocUser doMmapInfo = some cq₀)
    (calls : List (CqCall elemSize)) :
    ∃ cq xs, calls.foldlM (RxeCq.step cacheLineSize) cq₀ = some cq ∧
      cq.Intact cacheLineSize xs := by
  have hrun : ∀ (cq : RxeCq) (xs : List (List UInt8)), cq.Inv elemSize xs →
      ∃ cq' xs', calls.foldlM (RxeCq.step cacheLineSize) cq = some cq' ∧ cq'.Inv elemSize xs' := by
    induction calls with
    | nil => exact fun cq xs h => ⟨cq, xs, rfl, h⟩
    | cons call calls ih =>
      intro cq xs h
      obtain ⟨cq', xs', hstep, h'⟩ := h.step hcache helem call
      rw [foldlM_cons, hstep]
      exact ih cq' xs' h'
  unfold rxeCqFromInit at hinit
  split at hinit
  next => cases hinit
  next hok =>
    rw [not_or, not_not] at hok
    obtain ⟨⟨r, n⟩, hr, rfl⟩ := Option.map_eq_some_iff.mp hinit
    have hpos : 0 ≤ cqe := by
      by_contra hneg
      rw [Ring.init_neg (Int.not_le.mp hneg)] at hr
      cases hr
    rw [← Int.toNat_of_nonneg hpos] at hr
    obtain ⟨a, b, hnew, hsize, hn, -⟩ := Ring.init_holds (areaFits_of_cq hcache helem hok.1) hr
    have hcqe : (n : Int) + 1 = 2 ^ a := by exact_mod_cast hn
    obtain ⟨cq, xs, hfold, hinv⟩ := hrun ⟨r, n, [], []⟩ [] ⟨rfl, hsize, a, b, hnew, hcqe⟩
    exact ⟨cq, xs, hfold, hinv.intact hcache helem⟩

/-- A queue of one element is resized to hold three between two posts. -/
theorem cq_every_run_resized : ∃ cq₀, rxeCqFromInit 64 1 1 true 0 = some cq₀ ∧
    ∃ cq xs, [.post ⟨[1], rfl⟩, .resize 3 true 0, .post ⟨[2], rfl⟩, .poll 2].foldlM
      (@RxeCq.step 1 64) cq₀ = some cq ∧ cq.Intact 64 xs :=
  ⟨_, rfl, cq_every_run (by decide) (by decide)
    (show rxeCqFromInit 64 1 1 true 0 = _ from rfl) _⟩

end Rxe
