-- SUMMARY: The send queue of a server connection.
import OfaKernel.Lib.Run
import OfaKernel.Lib.Threads

/-!
# Send queue accounting

`svc_rdma_send` and `svc_rdma_post_chunk_ctxt` reserve entries by an atomic subtraction from
`sc_sq_avail`, give them back if that took too many, and wait. Each call is a thread whose next
atomic operation is its `Pc`. `ib_post_send` succeeds. `sc_sq_avail` is an integer without a
bound.
-/

namespace Svcrdma

/-! ## Calls -/

/-- Which function a call is in, and for a chunk its `cc_sqecount`. -/
inductive PostPath where
  | send
  | chunk (sqecount : Nat)
  deriving Repr, DecidableEq

/-- Work requests that one `ib_post_send` of the call posts. -/
def PostPath.wrs : PostPath → Nat
  | .send => 1
  | .chunk sqecount => sqecount

/-- The atomic operation a call is about to do, or how it returned. -/
inductive PostPc where
  | reserve
  | post
  | giveBack
  | wait
  | posted
  | einval
  | enotconn
  deriving Repr, DecidableEq

structure PostCall where
  path : PostPath
  pc : PostPc
  deriving Repr, DecidableEq

def PostCall.toPost (c : PostCall) : Nat :=
  if c.pc = .post then c.path.wrs else 0

def PostCall.toGiveBack (c : PostCall) : Nat :=
  if c.pc = .giveBack then c.path.wrs else 0

/-- The call is between its subtraction and its post or give-back. -/
def PostCall.holds (c : PostCall) : Bool :=
  c.pc = .post ∨ c.pc = .giveBack

/-! ## The connection -/

/-- `struct svcxprt_rdma`, with the calls on it and the posted requests that have not
completed yet. -/
structure SqState where
  sqDepth : Nat
  sqAvail : Int
  close : Bool
  calls : List PostCall
  pending : List PostPath
  deriving Repr, DecidableEq

def SqState.init (depth : Nat) : SqState :=
  { sqDepth := depth, sqAvail := depth, close := false, calls := [], pending := [] }

def SqState.setCall (s : SqState) (i : Nat) (path : PostPath) (pc : PostPc) : SqState :=
  { s with calls := s.calls.set i ⟨path, pc⟩ }

@[simp] theorem SqState.setCall_sqAvail (s : SqState) (i : Nat) (path : PostPath) (pc : PostPc) :
    (s.setCall i path pc).sqAvail = s.sqAvail := rfl

@[simp] theorem SqState.setCall_pending (s : SqState) (i : Nat) (path : PostPath) (pc : PostPc) :
    (s.setCall i path pc).pending = s.pending := rfl

/-- The reservation: `atomic_dec_return(..) < 0` fails in `svc_rdma_send`,
`atomic_sub_return(..) > 0` succeeds in `svc_rdma_post_chunk_ctxt`. -/
def reserved : PostPath → Int → Bool
  | .send, avail => !(avail < 0)
  | .chunk _, avail => avail > 0

/-- The condition of `wait_event`. -/
def wakes : PostPath → Int → Bool
  | .send, avail => avail > 1
  | .chunk sqecount, avail => avail > sqecount

/-- The next atomic operation of a call. -/
def callStep (s : SqState) (i : Nat) (c : PostCall) : SqState :=
  match c.pc with
  | .reserve =>
    let avail := s.sqAvail - c.path.wrs
    { s.setCall i c.path (if reserved c.path avail then .post else .giveBack) with
      sqAvail := avail }
  | .post => { s.setCall i c.path .posted with pending := s.pending ++ [c.path] }
  | .giveBack => { s.setCall i c.path .wait with sqAvail := s.sqAvail + c.path.wrs }
  | .wait =>
    if wakes c.path s.sqAvail then
      -- only svc_rdma_send looks at XPT_CLOSE after the wait
      if c.path = .send ∧ s.close then s.setCall i c.path .enotconn
      else s.setCall i c.path .reserve
    else s
  | .posted | .einval | .enotconn => s

/-- A thread enters one of the two functions, a call does its next operation, or a
posted request completes, with success or not. -/
inductive SqAction where
  | enter (path : PostPath)
  | step (i : Nat)
  | complete (k : Nat) (success : Bool)
  deriving Repr, DecidableEq

/-- The first operation: a chunk larger than the queue is rejected. -/
def PostPath.entry (s : SqState) : PostPath → PostPc
  | .send => .reserve
  | .chunk sqecount => if sqecount > s.sqDepth then .einval else .reserve

def sqStep (s : SqState) : SqAction → SqState
  | .enter path => { s with calls := s.calls ++ [⟨path, path.entry s⟩] }
  | .step i =>
    match s.calls[i]? with
    | none => s
    | some c => callStep s i c
  | .complete k success =>
    match s.pending[k]? with
    | none => s
    | some path =>
      { s with
        sqAvail := s.sqAvail + path.wrs
        close := s.close || !success
        pending := s.pending.eraseIdx k }

/-- Work requests posted and not yet completed. -/
def SqState.outstanding (s : SqState) : Nat :=
  (s.pending.map PostPath.wrs).sum

def SqState.toPost (s : SqState) : Nat :=
  (s.calls.map PostCall.toPost).sum

def SqState.toGiveBack (s : SqState) : Nat :=
  (s.calls.map PostCall.toGiveBack).sum

/-- Every entry is available, posted, or held by a call; what is posted and what will be
posted fits in the queue. -/
structure SqInv (s : SqState) : Prop where
  avail : s.sqAvail = s.sqDepth - s.outstanding - s.toPost - s.toGiveBack
  fits : s.outstanding + s.toPost ≤ s.sqDepth

theorem init_sqInv (depth : Nat) : SqInv (SqState.init depth) where
  avail := by simp [SqState.init, SqState.outstanding, SqState.toPost, SqState.toGiveBack]
  fits := by simp [SqState.init, SqState.outstanding, SqState.toPost]

/-- A reservation that succeeds leaves at least nothing. -/
theorem nonneg_of_reserved {path : PostPath} {avail : Int} (h : reserved path avail) :
    0 ≤ avail := by
  cases path with
  | send => simpa [reserved] using h
  | chunk n =>
    have : avail > 0 := by simpa [reserved] using h
    omega

/-- A call that moves on: nothing may get lost, and either no more will be posted than before or
the rest is not negative. -/
theorem SqInv.move {s : SqState} {i : Nat} {c : PostCall} (hi : SqInv s)
    (hc : s.calls[i]? = some c) (pc : PostPc) {avail : Int} {pending : List PostPath}
    (hsum : avail + (pending.map PostPath.wrs).sum + PostCall.toPost ⟨c.path, pc⟩ +
      PostCall.toGiveBack ⟨c.path, pc⟩ = s.sqAvail + s.outstanding + c.toPost + c.toGiveBack)
    (hfits : (pending.map PostPath.wrs).sum + PostCall.toPost ⟨c.path, pc⟩ ≤
      s.outstanding + c.toPost ∨ 0 ≤ avail) :
    SqInv { s.setCall i c.path pc with sqAvail := avail, pending := pending } := by
  have hpost : (s.setCall i c.path pc).toPost + c.toPost =
      s.toPost + PostCall.toPost ⟨c.path, pc⟩ := Threads.sum_map_set _ _ hc
  have hback : (s.setCall i c.path pc).toGiveBack + c.toGiveBack =
      s.toGiveBack + PostCall.toGiveBack ⟨c.path, pc⟩ := Threads.sum_map_set _ _ hc
  have havail := hi.avail
  have hold := hi.fits
  constructor
  · show avail = s.sqDepth - (pending.map PostPath.wrs).sum -
      (s.setCall i c.path pc).toPost - (s.setCall i c.path pc).toGiveBack
    omega
  · show (pending.map PostPath.wrs).sum + (s.setCall i c.path pc).toPost ≤ s.sqDepth
    omega

theorem callStep_inv {s : SqState} {i : Nat} {c : PostCall} (hi : SqInv s)
    (hc : s.calls[i]? = some c) : SqInv (callStep s i c) := by
  obtain ⟨path, pc⟩ := c
  have hout : (s.pending.map PostPath.wrs).sum = s.outstanding := rfl
  cases pc with
  | reserve =>
    by_cases hr : reserved path (s.sqAvail - path.wrs)
    · have hnonneg := nonneg_of_reserved hr
      simp only [callStep, if_pos hr]
      refine hi.move hc .post ?_ (.inr hnonneg)
      simp [PostCall.toPost, PostCall.toGiveBack, hout]
      omega
    · simp only [callStep, if_neg hr]
      refine hi.move hc .giveBack ?_ (.inl ?_)
      · simp [PostCall.toPost, PostCall.toGiveBack, hout]
        omega
      · simp [PostCall.toPost, hout]
  | post =>
    refine hi.move hc .posted ?_ (.inl ?_)
    · simp [PostCall.toPost, PostCall.toGiveBack, hout]
      omega
    · simp [PostCall.toPost, hout]
  | giveBack =>
    refine hi.move hc .wait ?_ (.inl ?_)
    · simp [PostCall.toPost, PostCall.toGiveBack, hout]
      omega
    · simp [PostCall.toPost, hout]
  | wait =>
    -- neither waiting nor what follows it holds anything
    have hmove (pc : PostPc) (hp : pc ≠ .post) (hg : pc ≠ .giveBack) :
        SqInv (s.setCall i path pc) := by
      refine hi.move hc pc ?_ (.inl ?_)
      · simp [PostCall.toPost, PostCall.toGiveBack, hout, hp, hg]
      · simp [PostCall.toPost, hout, hp]
    simp only [callStep]
    split
    · split
      · exact hmove .enotconn (by decide) (by decide)
      · exact hmove .reserve (by decide) (by decide)
    · exact hi
  | posted => exact hi
  | einval => exact hi
  | enotconn => exact hi

theorem sqStep_inv {s : SqState} {a : SqAction} (hi : SqInv s) : SqInv (sqStep s a) := by
  have havail := hi.avail
  have hfits := hi.fits
  cases a with
  | enter path =>
    have hentry : path.entry s = .reserve ∨ path.entry s = .einval := by
      cases path with
      | send => exact .inl rfl
      | chunk n => by_cases hn : n > s.sqDepth <;> simp [PostPath.entry, hn]
    have hpost : (sqStep s (.enter path)).toPost = s.toPost := by
      rcases hentry with h | h <;> simp [sqStep, SqState.toPost, PostCall.toPost, h]
    have hback : (sqStep s (.enter path)).toGiveBack = s.toGiveBack := by
      rcases hentry with h | h <;> simp [sqStep, SqState.toGiveBack, PostCall.toGiveBack, h]
    constructor
    · rw [hpost, hback]
      exact havail
    · rw [hpost]
      exact hfits
  | step i =>
    simp only [sqStep]
    split
    · exact hi
    next c hc => exact callStep_inv hi hc
  | complete k success =>
    simp only [sqStep]
    split
    · exact hi
    next path hp =>
      have hsum : ((s.pending.eraseIdx k).map PostPath.wrs).sum + path.wrs = s.outstanding :=
        Threads.sum_map_eraseIdx _ hp
      constructor
      · show s.sqAvail + path.wrs = s.sqDepth -
          ((s.pending.eraseIdx k).map PostPath.wrs).sum - s.toPost - s.toGiveBack
        omega
      · show ((s.pending.eraseIdx k).map PostPath.wrs).sum + s.toPost ≤ s.sqDepth
        omega

theorem sqStep_sqDepth (s : SqState) (a : SqAction) : (sqStep s a).sqDepth = s.sqDepth := by
  cases a with
  | enter path => rfl
  | step i =>
    simp only [sqStep]
    split
    · rfl
    next c _ =>
      unfold callStep
      repeat' split
      all_goals rfl
  | complete k success =>
    simp only [sqStep]
    split <;> rfl

/-! ## Accounting over runs -/

/-- No call is between its subtraction and its post or give-back. -/
def SqState.quiet (s : SqState) : Prop :=
  ∀ c ∈ s.calls, c.holds = false

theorem SqState.quiet.held {s : SqState} (h : s.quiet) : s.toPost = 0 ∧ s.toGiveBack = 0 := by
  constructor
  · refine List.sum_eq_zero fun n hn => ?_
    obtain ⟨c, hc, rfl⟩ := List.mem_map.mp hn
    have := h c hc
    simp_all [PostCall.holds, PostCall.toPost]
  · refine List.sum_eq_zero fun n hn => ?_
    obtain ⟨c, hc, rfl⟩ := List.mem_map.mp hn
    have := h c hc
    simp_all [PostCall.holds, PostCall.toGiveBack]

/-- The queue does not overflow, and nothing is lost. -/
structure SqBalanced (depth : Nat) (s : SqState) : Prop where
  bound : s.outstanding ≤ depth
  balance : s.quiet → s.sqAvail + s.outstanding = depth

/-- A chunk that is tried while the send queue is empty gets its entries; the next
operation of its call is the post. -/
def TryPosts (s : SqState) : SqAction → Prop
  | .step i => ∀ n, s.calls[i]? = some ⟨.chunk n, .reserve⟩ → s.pending = [] →
      (sqStep s (.step i)).calls[i]? = some ⟨.chunk n, .post⟩
  | _ => True

/-- A chunk that is tried while the send queue is empty leaves an entry, after what other
calls hold at that moment. -/
def TryLeavesOne (s : SqState) : SqAction → Prop
  | .step i => ∀ n, s.calls[i]? = some ⟨.chunk n, .reserve⟩ → s.pending = [] →
      n + s.toPost + s.toGiveBack < s.sqDepth
  | _ => True

theorem tryPosts_iff {s : SqState} (hi : SqInv s) (a : SqAction) :
    TryPosts s a ↔ TryLeavesOne s a := by
  cases a with
  | enter path => exact Iff.rfl
  | complete k success => exact Iff.rfl
  | step i =>
    refine forall_congr' fun n => forall_congr' fun hc => forall_congr' fun hempty => ?_
    have hlt : i < s.calls.length := (List.getElem?_eq_some_iff.mp hc).1
    have havail := hi.avail
    have hout : s.outstanding = 0 := by simp [SqState.outstanding, hempty]
    have hiff : reserved (.chunk n) (s.sqAvail - n) ↔
        n + s.toPost + s.toGiveBack < s.sqDepth := by
      simp only [reserved, gt_iff_lt, decide_eq_true_eq]
      omega
    rw [← hiff]
    simp only [sqStep, hc, callStep, PostPath.wrs, SqState.setCall, List.getElem?_set_self hlt]
    by_cases hr : reserved (.chunk n) (s.sqAvail - n) <;> simp [hr]

/-- Over every interleaving the queue never overflows and its entries balance, and every chunk
tried with an empty queue is posted exactly if each leaves an entry. -/
theorem send_queue_every_run (depth : Nat) (as : List SqAction) :
    ((∀ s ∈ Run.states sqStep (.init depth) as, SqBalanced depth s) ∧
      Run.Steps sqStep TryPosts (.init depth) as) ↔
    Run.Steps sqStep TryLeavesOne (.init depth) as := by
  have hstep (s : SqState) (a : SqAction) (h : SqInv s ∧ s.sqDepth = depth) (_ : True) :
      SqInv (sqStep s a) ∧ (sqStep s a).sqDepth = depth :=
    ⟨sqStep_inv h.1, (sqStep_sqDepth s a).trans h.2⟩
  have hrun : Run.Steps sqStep (fun _ _ => True) (.init depth) as := Run.steps_true _ as
  have hbal : ∀ s ∈ Run.states sqStep (.init depth) as, SqBalanced depth s := by
    intro s hs
    obtain ⟨hi, rfl⟩ := hrun.invariant hstep ⟨init_sqInv depth, rfl⟩ s hs
    refine ⟨Nat.le_of_add_right_le hi.fits, fun hq => ?_⟩
    have havail := hi.avail
    obtain ⟨hp, hg⟩ := hq.held
    omega
  have hiff : Run.Steps sqStep TryPosts (.init depth) as ↔
      Run.Steps sqStep TryLeavesOne (.init depth) as :=
    Run.steps_congr hstep (fun s a h _ => tryPosts_iff h.1 a) ⟨init_sqInv depth, rfl⟩ hrun
  exact ⟨fun h => hiff.mp h.2, fun h => ⟨hbal, hiff.mpr h⟩⟩

/-- A chunk as large as the queue is not rejected and does not fit in the empty queue. -/
theorem chunk_of_depth_not_posted :
    ¬ ((∀ s ∈ Run.states sqStep (.init 4) [.enter (.chunk 4), .step 0], SqBalanced 4 s) ∧
      Run.Steps sqStep TryPosts (.init 4) [.enter (.chunk 4), .step 0]) := by
  rintro ⟨-, -, hpost, -⟩
  exact absurd (hpost 4 rfl rfl) (by decide)

end Svcrdma
