-- SUMMARY: The mlx5 memory-key cache under any interleaving.
import OfaKernel.Lib.CInt
import OfaKernel.Lib.Run
import OfaKernel.Lib.Threads

/-!
# The memory-key cache

A bucket keeps the free keys of one order. Each critical section under `ent->lock`, each device
command and each operation on memory that another thread can fall between is a step. `queue_work`
is left out: the work of a bucket may start at any time.
-/

namespace MrCache

/-! ## Keys and buckets -/

/-- `struct mlx5_ib_mr`, as far as the cache goes; `id` stands for its address. -/
structure Mr where
  id : Nat
  order : Nat
  allocatedFromCache : Bool
deriving DecidableEq, Repr

def maxEntries : Nat := 23

def maxPendingRegMr : Int := 8

/-- `ent->order`, as `mlx5_mr_cache_init` sets it. -/
def entOrder (c : Nat) : Nat := c + 2

/-- `order2idx`; the comparison is one of unsigned values. -/
def order2idx (order : Int) : Int :=
  if order % 2 ^ 32 < entOrder 0 then 0 else I32.wrap (order - entOrder 0)

structure CacheEnt where
  head : List Mr := []
  size : Int := 0
  cur : Int := 0
  limit : Nat := 0
  pending : Int := 0
  doComplete : Int := 0
  compl : Nat := 0
deriving DecidableEq, Repr

def CacheEnt.belowTwice (e : CacheEnt) : Bool := decide (e.cur < U32.wrap (2 * e.limit))

def CacheEnt.aboveTwice (e : CacheEnt) : Bool := decide (U32.wrap (2 * e.limit) < e.cur)

/-- What `add_keys` returns. -/
inductive AddErr where
  | ok
  | again
  | noMem
  | failed
deriving DecidableEq, Repr

/-- Who calls `add_keys` or `remove_keys`. -/
inductive Caller where
  /-- `__cache_work_func`. -/
  | work
  | cacheAlloc
  /-- `alloc_mr_from_cache` or a write to sysfs. -/
  | user
deriving DecidableEq, Repr

/-- The next operation of a thread. -/
inductive MrPc where
  /-- `add_keys(dev, c, num)`: the command buffer is about to be allocated. -/
  | addKeys (c num : Nat) (ret : Caller)
  | addLoop (c num : Nat) (ret : Caller)
  /-- `ent->pending++` for a new key. -/
  | addPending (c num : Nat) (mr : Mr) (ret : Caller)
  | createMkey (c num : Nat) (mr : Mr) (ret : Caller)
  | createFailed (c : Nat) (mr : Mr) (ret : Caller)
  | addDone (c : Nat) (err : AddErr) (ret : Caller)
  /-- The command is in flight: its completion runs `reg_mr_callback`. -/
  | regMrCallback (mr : Mr)
  | regMrFile (mr : Mr)
  | regMrComplete (c : Nat)
  /-- `mlx5_cmd_exec_cb_handler` after the callback. -/
  | execCbDone
  /-- `remove_keys(dev, c, num)`. -/
  | removeKeys (c num : Nat) (ret : Caller)
  /-- `mlx5_core_destroy_mkey` for a key taken off the list. -/
  | destroyMkey (c num : Nat) (mr : Mr) (ret : Caller)
  | cacheWork (c : Nat)
  /-- `mlx5_mr_cache_alloc`: the start of the loop. -/
  | cacheAlloc (c : Nat)
  | cacheAllocAdd (c : Nat)
  | cacheAllocFail (c : Nat)
  | waitCompletion (c : Nat)
  /-- `alloc_cached_mr(dev, order)` at bucket `j`. -/
  | allocCached (order : Int) (j : Nat)
  | allocMissed (order : Int)
  /-- A key for the user; `order` is what it asked `alloc_cached_mr` for. -/
  | gotMr (order : Option Int) (mr : Mr)
  /-- `mlx5_mr_cache_free`: `unreg_umr` up to the posting. -/
  | cacheFree (mr : Mr)
  | postSendWait (c : Nat) (mr : Mr)
  | putBack (c : Nat) (mr : Mr)
  /-- `mlx5_mr_cache_cleanup`. -/
  | flushWorkqueue
  | cleanupAsyncCtx
  | waitInflight
  /-- `clean_keys(dev, c)`. -/
  | cleanKeys (c : Nat)
  | cleanDestroy (c : Nat) (mr : Mr)
  | cleaned
  | done
deriving DecidableEq, Repr

/-- What a thread runs for: a user, the work queue, the completion of a command, or the clean-up
in one of its phases. -/
inductive Kind where
  | idle
  | user
  | work
  | callback
  | cleanup (phase : Nat)
deriving DecidableEq, Repr

def Caller.kind : Caller → Kind
  | .work => .work
  | .cacheAlloc | .user => .user

def MrPc.kind : MrPc → Kind
  | .addKeys _ _ ret | .addLoop _ _ ret | .addPending _ _ _ ret | .createMkey _ _ _ ret
  | .createFailed _ _ ret | .addDone _ _ ret | .removeKeys _ _ ret | .destroyMkey _ _ _ ret =>
    ret.kind
  | .regMrCallback _ | .regMrFile _ | .regMrComplete _ | .execCbDone => .callback
  | .cacheAlloc _ | .cacheAllocAdd _ | .cacheAllocFail _ | .waitCompletion _ | .allocCached _ _
  | .allocMissed _ | .gotMr _ _ | .cacheFree _ | .postSendWait _ _ | .putBack _ _ => .user
  | .flushWorkqueue => .cleanup 0
  | .cleanupAsyncCtx => .cleanup 1
  | .waitInflight => .cleanup 2
  | .cleanKeys _ | .cleanDestroy _ _ | .cleaned => .cleanup 3
  | .cacheWork _ | .done => .idle

/-! ## State -/

/-- The cache, the keys in the hands of users, and the keys that there are: those allocated and
neither freed after a failed creation nor destroyed. -/
structure State where
  ents : List CacheEnt
  /-- `order2idx(dev, mr_cache_max_order(dev))` -/
  lastEntry : Nat
  stopped : Bool := false
  fillDelay : Bool := false
  relImm : Bool := false
  relTimeout : Int := 300
  numInflight : Int := 1
  internalError : Bool := false
  threads : List MrPc := []
  free : Nat → Bool := fun _ => false
  held : List Mr := []
  keys : List Mr := []
  nextId : Nat := 0

def mrCacheMaxOrder (extendedTranslationOffset : Bool) : Int :=
  if extendedTranslationOffset then 22 else 16

/-- `mlx5_mr_cache_init`, with the limits of the profile. -/
def mrCacheInit (extendedTranslationOffset : Bool) (limit : Nat → Nat) : State where
  ents := (List.range maxEntries).map fun c => { limit := limit c }
  lastEntry := (order2idx (mrCacheMaxOrder extendedTranslationOffset)).toNat

namespace State

def ent (s : State) (c : Nat) : CacheEnt := s.ents.getD c {}

def setEnt (s : State) (c : Nat) (e : CacheEnt) : State := { s with ents := s.ents.set c e }

def goto (s : State) (i : Nat) (pc : MrPc) : State := { s with threads := s.threads.set i pc }

def someoneAdding (s : State) : Bool := s.ents.any fun e => decide (e.cur < e.limit)

def someoneReleasing (s : State) : Bool := s.ents.any CacheEnt.aboveTwice

/-- A step of thread `i`. `b` tells whether the allocation, the device command or the posting of
the step succeeds; in `__cache_work_func`, whether the time to release keys has come. -/
def pcStep (s : State) (i : Nat) (b : Bool) : MrPc → State
  | .addKeys c num ret =>
    s.goto i (if b then .addLoop c num ret else .addDone c .noMem ret)
  | .addLoop c num ret =>
    match num with
    | 0 => s.goto i (.addDone c .ok ret)
    | num + 1 =>
      if maxPendingRegMr ≤ (s.ent c).pending then s.goto i (.addDone c .again ret)
      else if b then
        let mr : Mr := ⟨s.nextId, entOrder c, true⟩
        { s.goto i (.addPending c num mr ret) with
          keys := s.keys ++ [mr]
          nextId := s.nextId + 1
          free := Function.update s.free mr.id true }
      else s.goto i (.addDone c .noMem ret)
  | .addPending c num mr ret =>
    (s.setEnt c { s.ent c with pending := (s.ent c).pending + 1 }).goto i
      (.createMkey c num mr ret)
  | .createMkey c num mr ret =>
    if b ∧ s.numInflight ≠ 0 then
      { s with
        threads := s.threads.set i (.addLoop c num ret) ++ [.regMrCallback mr]
        numInflight := s.numInflight + 1 }
    else s.goto i (.createFailed c mr ret)
  | .createFailed c mr ret =>
    { (s.setEnt c { s.ent c with pending := (s.ent c).pending - 1 }).goto i
        (.addDone c .failed ret) with keys := s.keys.erase mr }
  | .addDone c err ret =>
    match ret with
    | .cacheAlloc =>
      match err with
      | .ok => s.goto i (.waitCompletion c)
      | .again => s.goto i (.cacheAlloc c)
      | _ => s.goto i (.cacheAllocFail c)
    | _ => s.goto i .done
  | .regMrCallback mr =>
    let c := (order2idx mr.order).toNat
    let s := s.setEnt c { s.ent c with pending := (s.ent c).pending - 1 }
    if b then s.goto i (.regMrFile mr)
    else { s.goto i (.regMrComplete c) with keys := s.keys.erase mr, fillDelay := true }
  | .regMrFile mr =>
    let c := (order2idx mr.order).toNat
    let e := s.ent c
    (s.setEnt c { e with head := e.head ++ [mr], cur := e.cur + 1, size := e.size + 1 }).goto i
      (.regMrComplete c)
  | .regMrComplete c =>
    let e := s.ent c
    let s :=
      if e.doComplete ≠ 0 then
        s.setEnt c { e with compl := e.compl + 1, doComplete := e.doComplete - 1 }
      else s
    s.goto i .execCbDone
  | .execCbDone => { s.goto i .done with numInflight := s.numInflight - 1 }
  | .removeKeys c num ret =>
    let e := s.ent c
    match num, e.head with
    | 0, _ => s.goto i .done
    | _, [] => s.goto i .done
    | num + 1, mr :: head =>
      (s.setEnt c { e with head, cur := e.cur - 1, size := e.size - 1 }).goto i
        (.destroyMkey c num mr ret)
  | .destroyMkey c num mr ret =>
    { s.goto i (.removeKeys c num ret) with keys := s.keys.erase mr }
  | .cacheWork c =>
    let e := s.ent c
    if s.stopped then s.goto i .done
    else if e.belowTwice ∧ ¬s.fillDelay then s.goto i (.addKeys c 1 .work)
    else if e.aboveTwice then
      if s.relImm ∨ (b ∧ 0 ≤ s.relTimeout ∧ ¬s.someoneAdding) then
        s.goto i (.removeKeys c 1 .work)
      else s.goto i .done
    else { s.goto i .done with relImm := s.relImm && s.someoneReleasing }
  | .cacheAlloc c =>
    let e := s.ent c
    match e.head with
    | [] => s.goto i (.cacheAllocAdd c)
    | mr :: head => (s.setEnt c { e with head, cur := e.cur - 1 }).goto i (.gotMr none mr)
  | .cacheAllocAdd c =>
    (s.setEnt c { s.ent c with doComplete := (s.ent c).doComplete + 1 }).goto i
      (.addKeys c 1 .cacheAlloc)
  | .cacheAllocFail c =>
    (s.setEnt c { s.ent c with doComplete := (s.ent c).doComplete - 1 }).goto i .done
  | .waitCompletion c =>
    if 0 < (s.ent c).compl then
      (s.setEnt c { s.ent c with compl := (s.ent c).compl - 1 }).goto i (.cacheAlloc c)
    else s
  | .allocCached order j =>
    let e := s.ent j
    if s.lastEntry < j then s.goto i (.allocMissed order)
    else
      match e.head with
      | [] => s.goto i (.allocCached order (j + 1))
      | mr :: head =>
        (s.setEnt j { e with head, cur := e.cur - 1 }).goto i (.gotMr (some order) mr)
  -- `alloc_mr_from_cache` goes on to `add_keys`, the other callers give up.
  | .allocMissed order =>
    s.goto i (if b then .addKeys (order2idx order).toNat 1 .user else .done)
  | .gotMr _ mr => { s.goto i .done with held := mr :: s.held }
  | .cacheFree mr =>
    let c := order2idx mr.order
    if ¬mr.allocatedFromCache then s.goto i .done
    else if c < 0 ∨ maxEntries ≤ c then s.goto i .done
    else if s.internalError ∨ s.free mr.id then s.goto i (.putBack c.toNat mr)
    else
      { s.goto i (.postSendWait c.toNat mr) with free := Function.update s.free mr.id true }
  -- A failed `unreg_umr` ends `mlx5_mr_cache_free`.
  | .postSendWait c mr => s.goto i (if b then .putBack c mr else .done)
  | .putBack c mr =>
    let e := s.ent c
    (s.setEnt c { e with head := e.head ++ [mr], cur := e.cur + 1 }).goto i .done
  | .flushWorkqueue =>
    if ∃ pc ∈ s.threads, pc.kind = .work then s else s.goto i .cleanupAsyncCtx
  | .cleanupAsyncCtx => { s.goto i .waitInflight with numInflight := s.numInflight - 1 }
  | .waitInflight => if s.numInflight = 0 then s.goto i (.cleanKeys 0) else s
  | .cleanKeys c =>
    let e := s.ent c
    if maxEntries ≤ c then s.goto i .cleaned
    else
      match e.head with
      | [] => s.goto i (.cleanKeys (c + 1))
      | mr :: head =>
        (s.setEnt c { e with head, cur := e.cur - 1, size := e.size - 1 }).goto i
          (.cleanDestroy c mr)
  | .cleanDestroy c mr => { s.goto i (.cleanKeys c) with keys := s.keys.erase mr }
  | .cleaned => s
  | .done => s

end State

inductive Act where
  /-- Thread `i` takes its next step. -/
  | step (i : Nat) (b : Bool)
  /-- The work of bucket `c` starts. -/
  | work (c : Nat)
  | allocCached (order : Int)
  /-- A user calls `mlx5_mr_cache_alloc`. -/
  | cacheAlloc (entry : Int)
  /-- A user has registered memory with the key it holds. -/
  | register (mr : Mr)
  /-- `dereg_mr` has called `unreg_umr` for the key, and ignored its result. -/
  | unregister (mr : Mr)
  /-- A user gives up its key to `mlx5_mr_cache_free`. -/
  | cacheFree (mr : Mr)
  /-- Writes to sysfs: `size_store` calls `add_keys` or `remove_keys`. -/
  | addKeys (c num : Nat)
  | removeKeys (c num : Nat)
  | setLimit (c limit : Nat)
  | setRelease (imm : Bool) (timeout : Int)
  /-- `delay_time_func`. -/
  | delayTimer
  | deviceError
  /-- `mlx5_mr_cache_cleanup` up to `flush_workqueue`. -/
  | cleanup
deriving DecidableEq, Repr

def State.start (s : State) (pc : MrPc) : State := { s with threads := s.threads ++ [pc] }

def step (s : State) : Act → State
  | .step i b =>
    match s.threads[i]? with
    | some pc => s.pcStep i b pc
    | none => s
  | .work c => s.start (.cacheWork c)
  | .allocCached order =>
    let c := order2idx order
    if c < 0 ∨ s.lastEntry < c then s else s.start (.allocCached order c.toNat)
  | .cacheAlloc entry =>
    if entry < 0 ∨ maxEntries ≤ entry then s else s.start (.cacheAlloc entry.toNat)
  | .register mr => { s with free := Function.update s.free mr.id false }
  | .unregister mr => { s with free := Function.update s.free mr.id true }
  | .cacheFree mr => { s.start (.cacheFree mr) with held := s.held.erase mr }
  | .addKeys c num => s.start (.addKeys c num .user)
  | .removeKeys c num => s.start (.removeKeys c num .user)
  | .setLimit c limit => s.setEnt c { s.ent c with limit }
  | .setRelease imm timeout => { s with relImm := imm, relTimeout := timeout }
  | .delayTimer => { s with fillDelay := false }
  | .deviceError => { s with internalError := true }
  | .cleanup => { s.start .flushWorkqueue with stopped := true }

/-- The device is unregistered before its cache is cleaned up: every call of a user has ended and
every key has been given back. A user gives back only a key that it holds. An order is an `int`.
-/
def Valid (s : State) : Act → Prop
  | .step _ _ | .register _ | .unregister _ | .setRelease _ _ | .delayTimer | .deviceError => True
  | .work c | .setLimit c _ => c < maxEntries
  | .allocCached order => s.stopped = false ∧ -2 ^ 31 ≤ order ∧ order < 2 ^ 31
  | .cacheAlloc _ => s.stopped = false
  | .cacheFree mr => s.stopped = false ∧ mr ∈ s.held
  | .addKeys c _ | .removeKeys c _ => s.stopped = false ∧ c < maxEntries
  | .cleanup => s.stopped = false ∧ s.held = [] ∧ ∀ pc ∈ s.threads, pc.kind ≠ .user

instance (s : State) : ∀ a, Decidable (Valid s a)
  | .step _ _ | .register _ | .unregister _ | .setRelease _ _ | .delayTimer | .deviceError =>
    inferInstanceAs (Decidable True)
  | .work c | .setLimit c _ => inferInstanceAs (Decidable (c < maxEntries))
  | .allocCached order =>
    inferInstanceAs (Decidable (s.stopped = false ∧ -2 ^ 31 ≤ order ∧ order < 2 ^ 31))
  | .cacheAlloc _ => inferInstanceAs (Decidable (s.stopped = false))
  | .cacheFree mr => inferInstanceAs (Decidable (s.stopped = false ∧ mr ∈ s.held))
  | .addKeys c _ | .removeKeys c _ =>
    inferInstanceAs (Decidable (s.stopped = false ∧ c < maxEntries))
  | .cleanup =>
    inferInstanceAs
      (Decidable (s.stopped = false ∧ s.held = [] ∧ ∀ pc ∈ s.threads, pc.kind ≠ .user))

end MrCache
