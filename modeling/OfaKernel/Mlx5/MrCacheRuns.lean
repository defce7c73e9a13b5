-- SUMMARY: Every key of the mlx5 cache is in one place and counted there.
import OfaKernel.Mlx5.MrCache
import Mathlib.Algebra.Order.Group.Nat
import Mathlib.Data.List.Nodup

/-!
# Conservation of memory keys

`Accounted` says that a key is in one place only, with a thread, on the list of a bucket or with
a user, and that the counters of a bucket count them.
-/

open List

namespace MrCache

/-! ## Where a key is -/

/-- The key a thread has in its hands. -/
def MrPc.key : MrPc → Option Mr
  | .addPending _ _ mr _ | .createMkey _ _ mr _ | .createFailed _ mr _ | .regMrCallback mr
  | .regMrFile mr | .destroyMkey _ _ mr _ | .cleanDestroy _ mr | .gotMr _ mr | .cacheFree mr
      | .postSendWait _ mr
  | .putBack _ mr => some mr
  | _ => none

/-- The key whose creation the thread has in flight. -/
def MrPc.inFlight : MrPc → Option Mr
  | .createMkey _ _ mr _ | .createFailed _ mr _ | .regMrCallback mr => some mr
  | _ => none

/-- The key on its way from the list to a user or back. -/
def MrPc.inHands : MrPc → Option Mr
  | .gotMr _ mr | .cacheFree mr | .postSendWait _ mr | .putBack _ mr => some mr
  | _ => none

/-- How often a thread has the key. -/
def MrPc.has (mr : Mr) (pc : MrPc) : Nat := if pc.key = some mr then 1 else 0

/-- Whether a key counts for an order. -/
def ofOrder (order : Nat) : Option Mr → Int
  | some mr => if mr.order = order then 1 else 0
  | none => 0

namespace State

variable (s : State)

/-- The number of places where the key is: with a thread, on a list, with a user. -/
def places (mr : Mr) : Nat :=
  (s.threads.map (MrPc.has mr)).sum + (s.ents.map fun e => e.head.count mr).sum +
    s.held.count mr

/-- The creations of an order that are in flight. -/
def creations (order : Nat) : Int := (s.threads.map fun pc => ofOrder order pc.inFlight).sum

/-- The keys of an order that users hold. -/
def inUse (order : Nat) : Int :=
  (s.held.map fun mr => ofOrder order (some mr)).sum +
    (s.threads.map fun pc => ofOrder order pc.inHands).sum

end State

/-- Every key is in one place, and in its own bucket if on a list; the counters say what there is;
a user gets a key that is large enough; and the clean-up leaves no key. -/
structure Accounted (s : State) : Prop where
  onePlace : ∀ mr ∈ s.keys, s.places mr = 1
  ownBucket : ∀ c, ∀ mr ∈ (s.ent c).head, mr.order = entOrder c
  cur : ∀ c < maxEntries, (s.ent c).cur = (s.ent c).head.length
  pending : ∀ c < maxEntries, (s.ent c).pending = s.creations (entOrder c)
  size : ∀ c < maxEntries,
    (s.ent c).size = (s.ent c).head.length + s.inUse (entOrder c)
  served : ∀ order mr, .gotMr (some order) mr ∈ s.threads → order ≤ mr.order
  cleaned : .cleaned ∈ s.threads → s.keys = []

theorem order2idx_entOrder {c : Nat} (hc : c < maxEntries) : order2idx (entOrder c) = c := by
  unfold maxEntries at hc
  have hmod : ((entOrder c : Nat) : Int) % 2 ^ 32 = c + 2 := by
    unfold entOrder
    omega
  rw [order2idx, hmod]
  by_cases hzero : c = 0
  · subst hzero
    rfl
  · rw [if_neg (by unfold entOrder; omega), I32.wrap_of_range (by unfold entOrder; omega)
      (by unfold entOrder; omega)]
    unfold entOrder
    omega

/-- The bucket for an order has keys that are large enough. -/
theorem le_entOrder_order2idx {order : Int} (hlo : -2 ^ 31 ≤ order) (hhi : order < 2 ^ 31)
    (h : 0 ≤ order2idx order) : order ≤ entOrder (order2idx order).toNat := by
  unfold order2idx at h ⊢
  split at h
  · next hmod =>
    unfold entOrder at hmod ⊢
    omega
  · next hmod =>
    unfold entOrder I32.wrap at *
    omega

/-- A key as `add_keys` makes it. -/
def Cached (mr : Mr) : Prop :=
  mr.allocatedFromCache = true ∧ ∃ c < maxEntries, mr.order = entOrder c

theorem Cached.order2idx {mr : Mr} (h : Cached mr) :
    ∃ c < maxEntries, mr.order = entOrder c ∧ order2idx mr.order = c := by
  obtain ⟨-, c, hc, horder⟩ := h
  refine ⟨c, hc, horder, ?_⟩
  rw [horder]
  exact order2idx_entOrder hc

/-- A program point makes sense: its bucket exists, and its key is of that bucket. -/
def MrPc.Ok (lastEntry : Nat) : MrPc → Prop
  | .addPending c _ mr _ | .createMkey c _ mr _ | .createFailed c mr _ =>
    c < maxEntries ∧ mr.allocatedFromCache = true ∧ mr.order = entOrder c
  | .regMrCallback mr | .regMrFile mr => Cached mr
  | .addKeys c _ _ | .addLoop c _ _ | .addDone c _ _ | .regMrComplete c | .removeKeys c _ _
  | .destroyMkey c _ _ _ | .cacheWork c | .cacheAlloc c | .cacheAllocAdd c | .cacheAllocFail c
  | .waitCompletion c | .cleanDestroy c _ => c < maxEntries
  | .allocCached order j => order ≤ entOrder j ∧ (order2idx order).toNat ≤ lastEntry
  | .allocMissed order => (order2idx order).toNat ≤ lastEntry
  | .gotMr order mr => (∀ o, order = some o → o ≤ mr.order) ∧ Cached mr
  | .cacheFree mr => Cached mr
  | .postSendWait c mr | .putBack c mr =>
    c < maxEntries ∧ mr.allocatedFromCache = true ∧ mr.order = entOrder c
  | _ => True

/-! ## The books -/

/-- What the cache keeps at every step: each key in one place, in its own bucket, and counted. -/
structure Books (s : State) : Prop where
  length : s.ents.length = maxEntries
  last : s.lastEntry < maxEntries
  places : ∀ mr, s.places mr = s.keys.count mr
  nodup : s.keys.Nodup
  fresh : ∀ mr ∈ s.keys, mr.id < s.nextId
  own : ∀ c, ∀ mr ∈ (s.ent c).head, mr.allocatedFromCache = true ∧ mr.order = entOrder c
  held : ∀ mr ∈ s.held, Cached mr
  cur : ∀ c < maxEntries, (s.ent c).cur = (s.ent c).head.length
  pending : ∀ c < maxEntries, (s.ent c).pending = s.creations (entOrder c)
  size : ∀ c < maxEntries, (s.ent c).size = (s.ent c).head.length + s.inUse (entOrder c)
  ok : ∀ pc ∈ s.threads, pc.Ok s.lastEntry

/-- The program points `out` give way to `new` and bucket `c` becomes `e`, with every key still
where it is counted. -/
structure Moved (s s' : State) (out new : List MrPc) (c : Nat) (e : CacheEnt) : Prop where
  threads : (s'.threads ++ out).Perm (s.threads ++ new)
  ents : s'.ents = s.ents.set c e
  last : s'.lastEntry = s.lastEntry
  key : ∀ mr,
    (new.map (MrPc.has mr)).sum + e.head.count mr + s'.held.count mr + s.keys.count mr =
      (out.map (MrPc.has mr)).sum + (s.ent c).head.count mr + s.held.count mr +
        s'.keys.count mr
  nodup : s'.keys.Nodup
  fresh : ∀ mr ∈ s'.keys, mr.id < s'.nextId
  own : ∀ mr ∈ e.head, mr.allocatedFromCache = true ∧ mr.order = entOrder c
  held : ∀ mr ∈ s'.held, Cached mr
  cur : e.cur = e.head.length
  pending : ∀ d < maxEntries,
    (new.map fun pc => ofOrder (entOrder d) pc.inFlight).sum =
      (out.map fun pc => ofOrder (entOrder d) pc.inFlight).sum +
        if d = c then e.pending - (s.ent c).pending else 0
  size : ∀ d < maxEntries,
    (s'.held.map fun mr => ofOrder (entOrder d) (some mr)).sum +
        (new.map fun pc => ofOrder (entOrder d) pc.inHands).sum =
      (s.held.map fun mr => ofOrder (entOrder d) (some mr)).sum +
        (out.map fun pc => ofOrder (entOrder d) pc.inHands).sum +
        if d = c then (e.size - e.head.length) - ((s.ent c).size - (s.ent c).head.length) else 0
  ok : ∀ pc ∈ new, pc.Ok s.lastEntry

section

variable {s s' : State} {c : Nat} {out new : List MrPc} {e : CacheEnt}

theorem ent_of_set (hlen : c < s.ents.length) (hents : s'.ents = s.ents.set c e) (d : Nat) :
    s'.ent d = if d = c then e else s.ent d := by
  unfold State.ent
  rw [hents, getD_eq_getElem?_getD, List.getElem?_set]
  by_cases hd : d = c
  · subst hd
    simp [hlen]
  · simp [hd, Ne.symm hd]

theorem getElem?_ent (hlen : c < s.ents.length) : s.ents[c]? = some (s.ent c) := by
  unfold State.ent
  rw [getD_eq_getElem?_getD, List.getElem?_eq_getElem hlen, Option.getD_some]

theorem set_ent_self (hlen : c < s.ents.length) : s.ents.set c (s.ent c) = s.ents := by
  apply ext_getElem?
  intro d
  rw [Threads.getElem?_set_of_getElem? (getElem?_ent hlen)]
  split
  · next hd => rw [hd, getElem?_ent hlen]
  · rfl

theorem Books.moved {o n : List MrPc} (h : Books s) (hc : c < maxEntries)
    (m : Moved s s' o n c e) :
    Books s' := by
  have hlen : c < s.ents.length := by rw [h.length]; exact hc
  have hent := ent_of_set hlen m.ents
  have hsum {M : Type} [AddCommMonoid M] (f : MrPc → M) :
      (s'.threads.map f).sum + (o.map f).sum = (s.threads.map f).sum + (n.map f).sum := by
    rw [← sum_append, ← map_append, ← sum_append, ← map_append]
    exact (m.threads.map f).sum_eq
  refine
    { length := by rw [m.ents, length_set, h.length]
      last := by rw [m.last]; exact h.last
      nodup := m.nodup
      fresh := m.fresh
      held := m.held
      places := ?places
      own := ?own
      cur := ?cur
      pending := ?pending
      size := ?size
      ok := ?ok }
  case places =>
    intro mr
    have hold := h.places mr
    have hents := Threads.sum_map_set (fun e : CacheEnt => e.head.count mr) e (getElem?_ent hlen)
    have hthreads := hsum (MrPc.has mr)
    have hkey := m.key mr
    unfold State.places at hold ⊢
    rw [m.ents]
    omega
  case own =>
    intro d mr hmr
    rw [hent d] at hmr
    split at hmr
    · next hd => rw [hd]; exact m.own mr hmr
    · exact h.own d mr hmr
  case cur =>
    intro d hd
    rw [hent d]
    split
    · exact m.cur
    · exact h.cur d hd
  case pending =>
    intro d hd
    have hold := h.pending d hd
    have hthreads := hsum fun pc => ofOrder (entOrder d) pc.inFlight
    have hmoved := m.pending d hd
    unfold State.creations at hold ⊢
    rw [hent d]
    split
    · next hdc =>
      subst hdc
      omega
    · next hdc =>
      omega
  case size =>
    intro d hd
    have hold := h.size d hd
    have hthreads := hsum fun pc => ofOrder (entOrder d) pc.inHands
    have hmoved := m.size d hd
    unfold State.inUse at hold ⊢
    rw [hent d]
    split
    · next hdc =>
      subst hdc
      omega
    · next hdc =>
      omega
  case ok =>
    intro pc hpc
    rw [m.last]
    have hmem := m.threads.mem_iff.mp (mem_append_left o hpc)
    obtain hpc | hpc := mem_append.mp hmem
    · exact h.ok pc hpc
    · exact m.ok pc hpc

/-- A step that moves no key. -/
theorem Books.control {i : Nat} {a b : MrPc} (h : Books s) (ha : s.threads[i]? = some a)
    (hthreads : s'.threads = s.threads.set i b) (hents : s'.ents = s.ents)
    (hlast : s'.lastEntry = s.lastEntry) (hheld : s'.held = s.held) (hkeys : s'.keys = s.keys)
    (hnext : s'.nextId = s.nextId) (hkey : b.key = a.key) (hflight : b.inFlight = a.inFlight)
    (hhands : b.inHands = a.inHands) (hok : b.Ok s.lastEntry) : Books s' := by
  have hc : 0 < maxEntries := by decide
  have hlen : 0 < s.ents.length := by rw [h.length]; exact hc
  apply h.moved (o := [a]) (n := [b]) hc
  exact
    { threads := by rw [hthreads]; exact Threads.perm_set ha b
      ents := by rw [hents, set_ent_self hlen]
      last := hlast
      key := by
        intro mr
        rw [hheld, hkeys]
        simp [MrPc.has, hkey]
      nodup := by rw [hkeys]; exact h.nodup
      fresh := by rw [hkeys, hnext]; exact h.fresh
      own := h.own 0
      held := by rw [hheld]; exact h.held
      cur := h.cur 0 hc
      pending := by
        intro d _
        simp [hflight]
      size := by
        intro d _
        rw [hheld]
        simp [hhands]
      ok := by
        intro pc hpc
        rw [mem_singleton.mp hpc]
        exact hok }

/-- A step of thread `i` that changes bucket `c`. -/
theorem Books.atBucket {i : Nat} {a b : MrPc} (h : Books s) (ha : s.threads[i]? = some a)
    (hc : c < maxEntries) (hthreads : s'.threads = s.threads.set i b)
    (hents : s'.ents = s.ents.set c e) (hlast : s'.lastEntry = s.lastEntry)
    (hheld : s'.held = s.held) (hnodup : s'.keys.Nodup) (hfresh : ∀ mr ∈ s'.keys, mr.id < s'.nextId)
    (hkey : ∀ mr, b.has mr + e.head.count mr + s.keys.count mr =
      a.has mr + (s.ent c).head.count mr + s'.keys.count mr)
    (hown : ∀ mr ∈ e.head, mr.allocatedFromCache = true ∧ mr.order = entOrder c)
    (hcur : e.cur = e.head.length)
    (hpending : ∀ d < maxEntries, ofOrder (entOrder d) b.inFlight =
      ofOrder (entOrder d) a.inFlight + if d = c then e.pending - (s.ent c).pending else 0)
    (hsize : ∀ d < maxEntries, ofOrder (entOrder d) b.inHands = ofOrder (entOrder d) a.inHands +
      if d = c then (e.size - e.head.length) - ((s.ent c).size - (s.ent c).head.length) else 0)
    (hok : b.Ok s.lastEntry) : Books s' := by
  apply h.moved (o := [a]) (n := [b]) hc
  exact
    { threads := by rw [hthreads]; exact Threads.perm_set ha b
      ents := hents
      last := hlast
      key := by
        intro mr
        have hmr := hkey mr
        rw [hheld]
        simp only [map_cons, map_nil, sum_cons, sum_nil]
        omega
      nodup := hnodup
      fresh := hfresh
      own := hown
      held := by rw [hheld]; exact h.held
      cur := hcur
      pending := by
        intro d hd
        simp only [map_cons, map_nil, sum_cons, sum_nil, add_zero]
        exact hpending d hd
      size := by
        intro d hd
        have hdsize := hsize d hd
        rw [hheld]
        simp only [map_cons, map_nil, sum_cons, sum_nil, add_zero]
        omega
      ok := by
        intro pc hpc
        rw [mem_singleton.mp hpc]
        exact hok }

end

/-! ## Steps -/

theorem ofOrder_entOrder {mr : Mr} {c : Nat} (h : mr.order = entOrder c) (d : Nat) :
    ofOrder (entOrder d) (some mr) = if d = c then 1 else 0 := by
  have hiff : mr.order = entOrder d ↔ d = c := by
    rw [h]
    unfold entOrder
    omega
  simp only [ofOrder, hiff]

theorem has_of_key {p : MrPc} {k : Mr} (h : p.key = some k) (mr : Mr) :
    p.has mr = [k].count mr := by
  rw [MrPc.has, h, count_singleton]
  simp

theorem has_of_none {p : MrPc} (h : p.key = none) (mr : Mr) : p.has mr = 0 := by
  rw [MrPc.has, h]
  rfl

section

variable {s : State} {i c num : Nat} {mr : Mr} {ret : Caller} {b : Bool}

theorem Books.addLoop (h : Books s) (ha : s.threads[i]? = some (.addLoop c num ret)) :
    Books (s.pcStep i b (.addLoop c num ret)) := by
  have hc : c < maxEntries := h.ok _ (mem_of_getElem? ha)
  have hlen : c < s.ents.length := by rw [h.length]; exact hc
  have hdone : ∀ err, Books (s.goto i (.addDone c err ret)) := fun err =>
    h.control ha rfl rfl rfl rfl rfl rfl rfl rfl rfl hc
  cases num with
  | zero => exact hdone .ok
  | succ num =>
    simp only [State.pcStep]
    split
    · exact hdone .again
    split
    · have hnew : (⟨s.nextId, entOrder c, true⟩ : Mr) ∉ s.keys := fun hmem =>
        absurd (h.fresh _ hmem) (lt_irrefl _)
      refine h.atBucket (e := s.ent c) ha hc rfl (set_ent_self hlen).symm rfl rfl ?_ ?_ ?_
        (h.own c) (h.cur c hc) ?_ ?_ ⟨hc, rfl, rfl⟩
      · exact nodup_append.mpr ⟨h.nodup, nodup_singleton _, by
          intro k hk k' hk' heq
          rw [mem_singleton.mp hk'] at heq
          exact hnew (heq ▸ hk)⟩
      · intro k hk
        obtain hk | hk := mem_append.mp hk
        · exact Nat.lt_succ_of_lt (h.fresh k hk)
        · rw [mem_singleton.mp hk]
          exact Nat.lt_succ_self _
      · intro k
        rw [has_of_key rfl, has_of_none rfl, count_append]
        omega
      · intro d _
        simp [MrPc.inFlight]
      · intro d _
        simp [MrPc.inHands]
    · exact hdone .noMem

theorem Books.addPending (h : Books s) (ha : s.threads[i]? = some (.addPending c num mr ret)) :
    Books (s.pcStep i b (.addPending c num mr ret)) := by
  obtain ⟨hc, halloc, horder⟩ := h.ok _ (mem_of_getElem? ha)
  refine h.atBucket (e := { s.ent c with pending := (s.ent c).pending + 1 }) ha hc rfl rfl rfl rfl
    h.nodup h.fresh ?_ (h.own c) (h.cur c hc) ?_ ?_ ⟨hc, halloc, horder⟩
  · intro k
    rfl
  · intro d _
    simp only [MrPc.inFlight, ofOrder_entOrder horder]
    split
    all_goals simp [ofOrder]
  · intro d _
    simp [MrPc.inHands]

/-- The command goes out, and its completion runs as a thread of its own. -/
theorem Books.createMkey (h : Books s) (ha : s.threads[i]? = some (.createMkey c num mr ret)) :
    Books (s.pcStep i b (.createMkey c num mr ret)) := by
  obtain ⟨hc, halloc, horder⟩ := h.ok _ (mem_of_getElem? ha)
  have hlen : c < s.ents.length := by rw [h.length]; exact hc
  simp only [State.pcStep]
  split
  · refine h.moved (o := [.createMkey c num mr ret])
      (n := [.addLoop c num ret, .regMrCallback mr]) (e := s.ent c) hc ?_
    exact
      { threads := by
          have hperm := (Threads.perm_set ha (.addLoop c num ret)).append_right [.regMrCallback mr]
          refine (List.Perm.trans ?_ hperm).trans (by simp)
          rw [append_assoc, append_assoc]
          exact List.Perm.append_left _ perm_append_comm
        ents := (set_ent_self hlen).symm
        last := rfl
        key := by
          simp only [map_cons, map_nil, sum_cons, sum_nil, MrPc.has,
            MrPc.key]
          simp
        nodup := h.nodup
        fresh := h.fresh
        own := h.own c
        held := h.held
        cur := h.cur c hc
        pending := by
          simp [MrPc.inFlight, ofOrder]
        size := by
          simp [MrPc.inHands, ofOrder]
        ok := by
          intro pc hpc
          obtain rfl | hpc := mem_cons.mp hpc
          · exact hc
          · rw [mem_singleton.mp hpc]
            exact ⟨halloc, c, hc, horder⟩ }
  · exact h.control ha rfl rfl rfl rfl rfl rfl rfl rfl rfl ⟨hc, halloc, horder⟩

variable {pc : MrPc}

/-- A key that a thread has is one of the cache's. -/
theorem Books.mem_of_key (h : Books s) (ha : s.threads[i]? = some pc) (hkey : pc.key = some mr) :
    mr ∈ s.keys := by
  have hplaces := h.places mr
  have hhas : pc.has mr = 1 := by
    rw [MrPc.has, if_pos hkey]
  have hle := le_sum_of_mem (mem_map_of_mem (f := MrPc.has mr) (mem_of_getElem? ha))
  unfold State.places at hplaces
  exact count_pos_iff.mp (by omega)

/-- A thread that destroys the key it has, or frees it after its creation has failed. -/
theorem Books.erase_key (h : Books s) (ha : s.threads[i]? = some pc) (hkey : pc.key = some mr)
    (k : Mr) :
    s.keys.count k = [mr].count k + (s.keys.erase mr).count k := by
  have hmem := h.mem_of_key ha hkey
  have hperm := perm_cons_erase hmem
  rw [hperm.count_eq, count_cons, count_singleton]
  omega

theorem Books.nodup_erase (h : Books s) : (s.keys.erase mr).Nodup :=
  h.nodup.sublist erase_sublist

theorem Books.fresh_erase (h : Books s) : ∀ k ∈ s.keys.erase mr, k.id < s.nextId := fun k hk =>
  h.fresh k (mem_of_mem_erase hk)

theorem Books.createFailed (h : Books s) (ha : s.threads[i]? = some (.createFailed c mr ret)) :
    Books (s.pcStep i b (.createFailed c mr ret)) := by
  obtain ⟨hc, halloc, horder⟩ := h.ok _ (mem_of_getElem? ha)
  refine h.atBucket (e := { s.ent c with pending := (s.ent c).pending - 1 }) ha hc rfl rfl rfl rfl
    h.nodup_erase h.fresh_erase ?_ (h.own c) (h.cur c hc) ?_ ?_ hc
  · intro k
    have hcount := h.erase_key ha rfl k
    rw [has_of_none rfl, has_of_key rfl]
    simp only [State.pcStep]
    omega
  · intro d _
    simp only [MrPc.inFlight, ofOrder_entOrder horder]
    split
    all_goals simp [ofOrder]
  · intro d _
    simp [MrPc.inHands]

theorem Books.regMrCallback (h : Books s) (ha : s.threads[i]? = some (.regMrCallback mr)) :
    Books (s.pcStep i b (.regMrCallback mr)) := by
  have hok : Cached mr := h.ok _ (mem_of_getElem? ha)
  obtain ⟨c, hc, horder, hidx⟩ := hok.order2idx
  have hpending : ∀ pc : MrPc, pc.inFlight = none → ∀ d < maxEntries,
      ofOrder (entOrder d) pc.inFlight = ofOrder (entOrder d) (MrPc.regMrCallback mr).inFlight +
        if d = c then (s.ent c).pending - 1 - (s.ent c).pending else 0 := by
    intro pc hpc d _
    rw [hpc]
    simp only [MrPc.inFlight, ofOrder_entOrder horder]
    split
    all_goals simp [ofOrder]
  simp only [State.pcStep, hidx, Int.toNat_natCast]
  split
  · refine h.atBucket (e := { s.ent c with pending := (s.ent c).pending - 1 }) ha hc rfl rfl rfl
      rfl h.nodup h.fresh ?_ (h.own c) (h.cur c hc) (hpending _ rfl) ?_ hok
    · intro k
      rfl
    · intro d _
      simp [MrPc.inHands]
  · refine h.atBucket (e := { s.ent c with pending := (s.ent c).pending - 1 }) ha hc rfl rfl rfl
      rfl h.nodup_erase h.fresh_erase ?_ (h.own c) (h.cur c hc) (hpending _ rfl) ?_ hc
    · intro k
      have hcount := h.erase_key ha rfl k
      rw [has_of_none rfl, has_of_key rfl]
      show 0 + (s.ent c).head.count k + s.keys.count k =
        [mr].count k + (s.ent c).head.count k + (s.keys.erase mr).count k
      omega
    · intro d _
      simp [MrPc.inHands]

theorem Books.regMrFile (h : Books s) (ha : s.threads[i]? = some (.regMrFile mr)) :
    Books (s.pcStep i b (.regMrFile mr)) := by
  have hok : Cached mr := h.ok _ (mem_of_getElem? ha)
  obtain ⟨c, hc, horder, hidx⟩ := hok.order2idx
  simp only [State.pcStep, hidx, Int.toNat_natCast]
  refine h.atBucket ha hc rfl rfl rfl rfl h.nodup h.fresh ?_ ?_ ?_ ?_ ?_ hc
  · intro k
    rw [has_of_none rfl, has_of_key rfl, count_append]
    show _ = _ + s.keys.count k
    omega
  · intro k hk
    obtain hk | hk := mem_append.mp hk
    · exact h.own c k hk
    · rw [mem_singleton.mp hk]
      exact ⟨hok.1, horder⟩
  · have hcur := h.cur c hc
    rw [length_append, length_singleton]
    push_cast
    omega
  · intro d _
    simp [MrPc.inFlight]
  · intro d _
    simp only [MrPc.inHands, length_append, length_singleton]
    split
    · omega
    · rfl

/-- A step that changes in a bucket no more than who waits for it. -/
theorem Books.waiters {a b' : MrPc} {e : CacheEnt} (h : Books s) (ha : s.threads[i]? = some a)
    (hc : c < maxEntries) (hhead : e.head = (s.ent c).head) (hcur : e.cur = (s.ent c).cur)
    (hsize : e.size = (s.ent c).size) (hpending : e.pending = (s.ent c).pending)
    (hkey : b'.key = a.key) (hflight : b'.inFlight = a.inFlight)
    (hhands : b'.inHands = a.inHands) (hok : b'.Ok s.lastEntry) :
    Books ((s.setEnt c e).goto i b') := by
  refine h.atBucket ha hc rfl rfl rfl rfl h.nodup h.fresh ?_ ?_ ?_ ?_ ?_ hok
  · intro k
    rw [MrPc.has, MrPc.has, hkey, hhead]
    rfl
  · rw [hhead]
    exact h.own c
  · rw [hcur, hhead]
    exact h.cur c hc
  · intro d _
    rw [hflight, hpending, sub_self, ite_self, add_zero]
  · intro d _
    rw [hhands, hsize, hhead, sub_self, ite_self, add_zero]

theorem Books.regMrComplete (h : Books s) (ha : s.threads[i]? = some (.regMrComplete c)) :
    Books (s.pcStep i b (.regMrComplete c)) := by
  have hc : c < maxEntries := h.ok _ (mem_of_getElem? ha)
  simp only [State.pcStep]
  split
  · exact h.waiters ha hc rfl rfl rfl rfl rfl rfl rfl trivial
  · exact h.control ha rfl rfl rfl rfl rfl rfl rfl rfl rfl trivial

/-- A key that leaves its list goes to the thread that took it. -/
theorem Books.take {a b' : MrPc} {head : List Mr} {size : Int} (h : Books s)
    (ha : s.threads[i]? = some a) (hc : c < maxEntries) (hhead : (s.ent c).head = mr :: head)
    (ha' : a.key = none) (hb : b'.key = some mr) (hfl : a.inFlight = none)
    (hfl' : b'.inFlight = none) (hhands : a.inHands = none)
    (hsize : b'.inHands = some mr ∧ size = (s.ent c).size ∨
      b'.inHands = none ∧ size = (s.ent c).size - 1)
    (hok : b'.Ok s.lastEntry) :
    Books ((s.setEnt c { s.ent c with head, cur := (s.ent c).cur - 1, size }).goto i b') := by
  have hown := h.own c
  rw [hhead] at hown
  refine h.atBucket ha hc rfl rfl rfl rfl h.nodup h.fresh ?_ ?_ ?_ ?_ ?_ hok
  · intro k
    have hcons : (mr :: head).count k = [mr].count k + head.count k :=
      @count_append _ _ k [mr] _
    rw [has_of_key hb, has_of_none ha', hhead]
    show [mr].count k + head.count k + s.keys.count k = 0 + (mr :: head).count k + s.keys.count k
    omega
  · exact fun k hk => hown k (mem_cons_of_mem _ hk)
  · have hcur := h.cur c hc
    rw [hhead, length_cons] at hcur
    simp only
    omega
  · rw [hfl, hfl']
    simp
  · intro d _
    have horder := ofOrder_entOrder (hown mr mem_cons_self).2 d
    rw [hhands, hhead, length_cons]
    push_cast
    obtain ⟨hb', rfl⟩ | ⟨hb', rfl⟩ := hsize
    · rw [hb', horder]
      split
      · simp only [ofOrder]
        omega
      · rfl
    · rw [hb']
      split
      · omega
      · rfl

theorem Books.removeKeys (h : Books s) (ha : s.threads[i]? = some (.removeKeys c num ret)) :
    Books (s.pcStep i b (.removeKeys c num ret)) := by
  have hc : c < maxEntries := h.ok _ (mem_of_getElem? ha)
  have hdone : Books (s.goto i .done) :=
    h.control ha rfl rfl rfl rfl rfl rfl rfl rfl rfl trivial
  simp only [State.pcStep]
  split
  · exact hdone
  · exact hdone
  · next hhead => exact h.take ha hc hhead rfl rfl rfl rfl rfl (.inr ⟨rfl, rfl⟩) hc

/-- A thread that has destroyed the key it had. -/
theorem Books.destroyed {a b' : MrPc} (h : Books s) (ha : s.threads[i]? = some a)
    (hkey : a.key = some mr) (hkey' : b'.key = none) (hflight : a.inFlight = none)
    (hflight' : b'.inFlight = none) (hhands : a.inHands = none) (hhands' : b'.inHands = none)
    (hok : b'.Ok s.lastEntry) : Books { s.goto i b' with keys := s.keys.erase mr } := by
  have hc : 0 < maxEntries := by decide
  have hlen : 0 < s.ents.length := by rw [h.length]; exact hc
  refine h.atBucket (e := s.ent 0) ha hc rfl (set_ent_self hlen).symm rfl rfl h.nodup_erase
    h.fresh_erase ?_ (h.own 0) (h.cur 0 hc) ?_ ?_ hok
  · intro k
    have hcount := h.erase_key ha hkey k
    rw [has_of_none hkey', has_of_key hkey]
    simp only
    omega
  · intro d _
    rw [hflight, hflight', sub_self, ite_self, add_zero]
  · intro d _
    rw [hhands, hhands', sub_self, ite_self, add_zero]

theorem Books.cleanKeys (h : Books s) (ha : s.threads[i]? = some (.cleanKeys c)) :
    Books (s.pcStep i b (.cleanKeys c)) := by
  simp only [State.pcStep]
  split
  · exact h.control ha rfl rfl rfl rfl rfl rfl rfl rfl rfl trivial
  · next hc =>
    have hc : c < maxEntries := Nat.lt_of_not_le hc
    split
    · exact h.control ha rfl rfl rfl rfl rfl rfl rfl rfl rfl trivial
    · next hhead => exact h.take ha hc hhead rfl rfl rfl rfl rfl (.inr ⟨rfl, rfl⟩) hc

theorem Books.cacheWork (h : Books s) (ha : s.threads[i]? = some (.cacheWork c)) :
    Books (s.pcStep i b (.cacheWork c)) := by
  have hc : c < maxEntries := h.ok _ (mem_of_getElem? ha)
  simp only [State.pcStep]
  split
  · exact h.control ha rfl rfl rfl rfl rfl rfl rfl rfl rfl trivial
  split
  · exact h.control ha rfl rfl rfl rfl rfl rfl rfl rfl rfl hc
  split
  · split
    · exact h.control ha rfl rfl rfl rfl rfl rfl rfl rfl rfl hc
    · exact h.control ha rfl rfl rfl rfl rfl rfl rfl rfl rfl trivial
  · exact h.control ha rfl rfl rfl rfl rfl rfl rfl rfl rfl trivial

theorem Books.cacheAlloc (h : Books s) (ha : s.threads[i]? = some (.cacheAlloc c)) :
    Books (s.pcStep i b (.cacheAlloc c)) := by
  have hc : c < maxEntries := h.ok _ (mem_of_getElem? ha)
  simp only [State.pcStep]
  split
  · exact h.control ha rfl rfl rfl rfl rfl rfl rfl rfl rfl hc
  · next mr head hhead =>
    have hmr := h.own c mr (hhead ▸ mem_cons_self)
    exact h.take ha hc hhead rfl rfl rfl rfl rfl (.inl ⟨rfl, rfl⟩)
      ⟨nofun, hmr.1, c, hc, hmr.2⟩

theorem Books.allocCached {order : Int} {j : Nat} (h : Books s)
    (ha : s.threads[i]? = some (.allocCached order j)) :
    Books (s.pcStep i b (.allocCached order j)) := by
  obtain ⟨hle, hidx⟩ := h.ok _ (mem_of_getElem? ha)
  have hlast := h.last
  simp only [State.pcStep]
  split
  · exact h.control ha rfl rfl rfl rfl rfl rfl rfl rfl rfl hidx
  split
  · refine h.control ha rfl rfl rfl rfl rfl rfl rfl rfl rfl ⟨hle.trans ?_, hidx⟩
    unfold entOrder
    omega
  · next hj mr head hhead =>
    have hj : j < maxEntries := by omega
    have hmr := h.own j mr (hhead ▸ mem_cons_self)
    refine h.take ha hj hhead rfl rfl rfl rfl rfl (.inl ⟨rfl, rfl⟩) ⟨?_, hmr.1, j, hj, hmr.2⟩
    intro o ho
    rw [← Option.some.inj ho, hmr.2]
    exact hle

theorem Books.gotMr {order : Option Int} (h : Books s)
    (ha : s.threads[i]? = some (.gotMr order mr)) : Books (s.pcStep i b (.gotMr order mr)) := by
  obtain ⟨-, hok⟩ := h.ok _ (mem_of_getElem? ha)
  have hc : 0 < maxEntries := by decide
  have hlen : 0 < s.ents.length := by rw [h.length]; exact hc
  refine h.moved (o := [.gotMr order mr]) (n := [.done]) (e := s.ent 0) hc ?_
  exact
    { threads := Threads.perm_set ha _
      ents := (set_ent_self hlen).symm
      last := rfl
      key := by
        intro k
        have hcons : (mr :: s.held).count k = [mr].count k + s.held.count k :=
          @count_append _ _ k [mr] _
        simp only [map_cons, map_nil, sum_cons, sum_nil, State.pcStep,
          has_of_key (p := .gotMr order mr) rfl, has_of_none (p := .done) rfl, hcons]
        show _ = _ + s.keys.count k
        omega
      nodup := h.nodup
      fresh := h.fresh
      own := h.own 0
      held := by
        intro k hk
        obtain rfl | hk := mem_cons.mp hk
        · exact hok
        · exact h.held k hk
      cur := h.cur 0 hc
      pending := by
        simp [MrPc.inFlight]
      size := by
        simp only [State.pcStep, map_cons, map_nil, sum_cons, sum_nil,
          MrPc.inHands, sub_self, ite_self]
        simp only [ofOrder]
        omega
      ok := by
        intro pc hpc
        rw [mem_singleton.mp hpc]
        trivial }

theorem Books.cacheFree (h : Books s) (ha : s.threads[i]? = some (.cacheFree mr)) :
    Books (s.pcStep i b (.cacheFree mr)) := by
  have hok : Cached mr := h.ok _ (mem_of_getElem? ha)
  obtain ⟨c, hc, horder, hidx⟩ := hok.order2idx
  simp only [State.pcStep, hidx, hok.1, not_true_eq_false, if_false]
  rw [if_neg (by omega)]
  split
  all_goals exact h.control ha rfl rfl rfl rfl rfl rfl rfl rfl rfl ⟨hc, hok.1, horder⟩

theorem Books.putBack (h : Books s) (ha : s.threads[i]? = some (.putBack c mr)) :
    Books (s.pcStep i b (.putBack c mr)) := by
  obtain ⟨hc, halloc, horder⟩ := h.ok _ (mem_of_getElem? ha)
  refine h.atBucket ha hc rfl rfl rfl rfl h.nodup h.fresh ?_ ?_ ?_ ?_ ?_ trivial
  · intro k
    rw [has_of_none rfl, has_of_key rfl, count_append]
    show _ = _ + s.keys.count k
    omega
  · intro k hk
    obtain hk | hk := mem_append.mp hk
    · exact h.own c k hk
    · rw [mem_singleton.mp hk]
      exact ⟨halloc, horder⟩
  · have hcur := h.cur c hc
    rw [length_append, length_singleton]
    push_cast
    omega
  · intro d _
    simp [MrPc.inFlight]
  · intro d _
    simp only [MrPc.inHands, ofOrder_entOrder horder, length_append, length_singleton]
    split
    · simp only [ofOrder]
      omega
    · rfl

/-- `mlx5_mr_cache_free` waits for the request that its `unreg_umr` has posted. -/
def MrPc.posting : MrPc → Bool
  | .postSendWait _ _ => true
  | _ => false

/-- No such request fails. -/
def NoUnregFailure (s : State) : Act → Prop
  | .step i b => ∀ pc ∈ s.threads[i]?, pc.posting = true → b = true
  | _ => True

instance (s : State) : ∀ a, Decidable (NoUnregFailure s a)
  | .step i b => inferInstanceAs (Decidable (∀ pc ∈ s.threads[i]?, pc.posting = true → b = true))
  | .work _ | .allocCached _ | .cacheAlloc _ | .register _ | .unregister _ | .cacheFree _
  | .addKeys _ _ | .removeKeys _ _ | .setLimit _ _ | .setRelease _ _ | .delayTimer | .deviceError
  | .cleanup => .isTrue trivial

theorem Books.pcStep (h : Books s) (ha : s.threads[i]? = some pc)
    (hpost : pc.posting = true → b = true) : Books (s.pcStep i b pc) := by
  have hok := h.ok _ (mem_of_getElem? ha)
  cases pc with
  | addKeys c num ret =>
    refine h.control ha rfl rfl rfl rfl rfl rfl ?_ ?_ ?_ ?_
    all_goals split <;> first | rfl | exact hok
  | addLoop => exact h.addLoop ha
  | addPending => exact h.addPending ha
  | createMkey => exact h.createMkey ha
  | createFailed => exact h.createFailed ha
  | addDone c err ret =>
    have hdone : Books (s.goto i .done) :=
      h.control ha rfl rfl rfl rfl rfl rfl rfl rfl rfl trivial
    cases ret with
    | work | user => exact hdone
    | cacheAlloc =>
      cases err with
      | ok | again | noMem | failed =>
        exact h.control ha rfl rfl rfl rfl rfl rfl rfl rfl rfl hok
  | regMrCallback => exact h.regMrCallback ha
  | regMrFile => exact h.regMrFile ha
  | regMrComplete => exact h.regMrComplete ha
  | execCbDone => exact h.control ha rfl rfl rfl rfl rfl rfl rfl rfl rfl trivial
  | removeKeys => exact h.removeKeys ha
  | destroyMkey => exact h.destroyed ha rfl rfl rfl rfl rfl rfl hok
  | cacheWork => exact h.cacheWork ha
  | cacheAlloc => exact h.cacheAlloc ha
  | cacheAllocAdd c =>
    exact h.waiters ha hok rfl rfl rfl rfl rfl rfl rfl hok
  | cacheAllocFail c => exact h.waiters ha hok rfl rfl rfl rfl rfl rfl rfl trivial
  | waitCompletion c =>
    simp only [State.pcStep]
    split
    · exact h.waiters ha hok rfl rfl rfl rfl rfl rfl rfl hok
    · exact h
  | allocCached => exact h.allocCached ha
  | allocMissed order =>
    have hc := lt_of_le_of_lt hok h.last
    refine h.control ha rfl rfl rfl rfl rfl rfl ?_ ?_ ?_ ?_
    all_goals split <;> first | rfl | exact hc | trivial
  | gotMr => exact h.gotMr ha
  | cacheFree => exact h.cacheFree ha
  | postSendWait c mr =>
    simp only [State.pcStep, hpost rfl, if_true]
    exact h.control ha rfl rfl rfl rfl rfl rfl rfl rfl rfl hok
  | putBack => exact h.putBack ha
  | flushWorkqueue =>
    simp only [State.pcStep]
    split
    · exact h
    · exact h.control ha rfl rfl rfl rfl rfl rfl rfl rfl rfl trivial
  | cleanupAsyncCtx => exact h.control ha rfl rfl rfl rfl rfl rfl rfl rfl rfl trivial
  | waitInflight =>
    simp only [State.pcStep]
    split
    · exact h.control ha rfl rfl rfl rfl rfl rfl rfl rfl rfl trivial
    · exact h
  | cleanKeys => exact h.cleanKeys ha
  | cleanDestroy => exact h.destroyed ha rfl rfl rfl rfl rfl rfl trivial
  | cleaned => exact h
  | done => exact h

end

/-- A thread that starts, with the key that its user has given up for it. -/
theorem Books.start {s s' : State} {pc : MrPc} (h : Books s)
    (hthreads : s'.threads = s.threads ++ [pc])
    (hents : s'.ents = s.ents) (hlast : s'.lastEntry = s.lastEntry) (hkeys : s'.keys = s.keys)
    (hnext : s'.nextId = s.nextId) (hflight : pc.inFlight = none)
    (hhands : pc.inHands = pc.key) (hok : pc.Ok s.lastEntry)
    (hheld : s.held.Perm (pc.key.toList ++ s'.held)) : Books s' := by
  have hc : 0 < maxEntries := by decide
  have hlen : 0 < s.ents.length := by rw [h.length]; exact hc
  apply h.moved (o := []) (n := [pc]) (e := s.ent 0) hc
  exact
    { threads := by rw [hthreads, append_nil]
      ents := by rw [hents, set_ent_self hlen]
      last := hlast
      key := by
        intro k
        rw [hheld.count_eq, count_append, hkeys]
        simp only [map_cons, map_nil, sum_cons, sum_nil]
        have hhas : pc.has k = pc.key.toList.count k := by
          cases hkey : pc.key with
          | none => exact has_of_none hkey k
          | some mr => exact has_of_key hkey k
        omega
      nodup := by rw [hkeys]; exact h.nodup
      fresh := by rw [hkeys, hnext]; exact h.fresh
      own := h.own 0
      held := fun k hk => h.held k (hheld.mem_iff.mpr (mem_append_right _ hk))
      cur := h.cur 0 hc
      pending := by
        simp [hflight, ofOrder]
      size := by
        intro d _
        have hsum := (hheld.map fun mr => ofOrder (entOrder d) (some mr)).sum_eq
        rw [map_append, sum_append] at hsum
        simp only [map_cons, map_nil, sum_cons, sum_nil, sub_self, ite_self,
          hsum, hhands]
        cases pc.key with
        | none => simp [ofOrder]
        | some mr =>
          simp only [Option.toList, map_cons, map_nil, sum_cons, sum_nil]
          omega
      ok := by
        intro pc' hpc'
        rw [mem_singleton.mp hpc']
        exact hok }

theorem Books.other {s s' : State} (h : Books s) (hthreads : s'.threads = s.threads)
    (hents : s'.ents = s.ents) (hlast : s'.lastEntry = s.lastEntry) (hheld : s'.held = s.held)
    (hkeys : s'.keys = s.keys) (hnext : s'.nextId = s.nextId) : Books s' := by
  obtain ⟨ents, last⟩ := s
  subst hthreads hents hlast hheld hkeys hnext
  exact
    { length := h.length, last := h.last, places := h.places, nodup := h.nodup, fresh := h.fresh
      own := h.own, held := h.held, cur := h.cur, pending := h.pending, size := h.size
      ok := h.ok }

theorem Books.setLimit {s : State} {c limit : Nat} (h : Books s) (hc : c < maxEntries) :
    Books (s.setEnt c { s.ent c with limit }) := by
  apply h.moved (o := []) (n := []) (e := { s.ent c with limit }) hc
  exact
    { threads := List.Perm.refl _
      ents := rfl
      last := rfl
      key := fun _ => rfl
      nodup := h.nodup
      fresh := h.fresh
      own := h.own c
      held := h.held
      cur := h.cur c hc
      pending := by simp
      size := by simp [State.setEnt]
      ok := by simp }

theorem Books.step {s : State} {a : Act} (h : Books s) (hvalid : Valid s a)
    (hpost : NoUnregFailure s a) : Books (step s a) := by
  cases a with
  | step i b =>
    simp only [MrCache.step]
    cases ha : s.threads[i]? with
    | none => exact h
    | some pc => exact h.pcStep ha (hpost pc ha)
  | work c => exact h.start rfl rfl rfl rfl rfl rfl rfl hvalid (List.Perm.refl _)
  | allocCached order =>
    obtain ⟨-, hlo, hhi⟩ := hvalid
    simp only [MrCache.step]
    split
    · exact h
    · next hc =>
      refine h.start rfl rfl rfl rfl rfl rfl rfl ⟨?_, ?_⟩ (List.Perm.refl _)
      · exact le_entOrder_order2idx hlo hhi (by omega)
      · omega
  | cacheAlloc entry =>
    simp only [MrCache.step]
    split
    · exact h
    · next hc =>
      refine h.start rfl rfl rfl rfl rfl rfl rfl ?_ (List.Perm.refl _)
      show entry.toNat < maxEntries
      omega
  | register mr => exact h.other rfl rfl rfl rfl rfl rfl
  | unregister mr => exact h.other rfl rfl rfl rfl rfl rfl
  | cacheFree mr =>
    exact h.start rfl rfl rfl rfl rfl rfl rfl (h.held mr hvalid.2) (perm_cons_erase hvalid.2)
  | addKeys c num =>
    exact h.start rfl rfl rfl rfl rfl rfl rfl hvalid.2 (List.Perm.refl _)
  | removeKeys c num => exact h.start rfl rfl rfl rfl rfl rfl rfl hvalid.2 (List.Perm.refl _)
  | setLimit c limit => exact h.setLimit hvalid
  | setRelease imm timeout => exact h.other rfl rfl rfl rfl rfl rfl
  | delayTimer => exact h.other rfl rfl rfl rfl rfl rfl
  | deviceError => exact h.other rfl rfl rfl rfl rfl rfl
  | cleanup => exact h.start rfl rfl rfl rfl rfl rfl rfl trivial (List.Perm.refl _)

/-! ## The clean-up -/

/-- The kinds of threads there may be beside the clean-up in a phase. -/
def Kind.allowed (phase : Nat) : Kind → Bool
  | .idle => true
  | .work => decide (phase = 0)
  | .callback => decide (phase < 3)
  | .user | .cleanup _ => false

/-- What a thread counts for in `num_inflight`. -/
def Kind.weight : Kind → Int
  | .callback => 1
  | .cleanup phase => if 2 ≤ phase then -1 else 0
  | _ => 0

/-- The buckets that the clean-up has emptied. -/
def MrPc.swept : MrPc → Nat
  | .cleanKeys c | .cleanDestroy c _ => c
  | .cleaned => maxEntries
  | _ => 0

/-- Thread `j` cleans up: what the others may do, and what it has left behind. -/
structure Closed (s : State) (j : Nat) (pc : MrPc) (phase : Nat) : Prop where
  stopped : s.stopped = true
  held : s.held = []
  others : ∀ i pc', i ≠ j → s.threads[i]? = some pc' → pc'.kind.allowed phase = true
  swept : ∀ d < pc.swept, (s.ent d).head = []

structure Quiet (s : State) : Prop where
  closed : ∀ j pc phase, s.threads[j]? = some pc → pc.kind = .cleanup phase → Closed s j pc phase
  inflight : s.numInflight = 1 + (s.threads.map fun pc => pc.kind.weight).sum

/-- How the kind of a thread goes on. -/
def Kind.Next (stopped : Bool) : Kind → Kind → Prop
  | .idle, b => b = .idle ∨ stopped = false ∧ b = .work
  | .cleanup _, b => ∃ phase, b = .cleanup phase
  | a, b => b = .idle ∨ b = a

/-- What a step of thread `i` does to the threads, and which threads may touch what. -/
structure Stepped (s s' : State) (i : Nat) (a b : MrPc) (l : List MrPc) : Prop where
  threads : s'.threads = s.threads.set i b ++ l
  started : ∀ pc ∈ l, pc.kind = .callback
  starts : a.kind = .idle ∨ (∃ phase, a.kind = .cleanup phase) → l = []
  next : a.kind.Next s.stopped b.kind
  inflight : s'.numInflight =
    s.numInflight + b.kind.weight + (l.map fun pc => pc.kind.weight).sum - a.kind.weight
  stopped : s'.stopped = s.stopped
  held : a.kind ≠ .user → s'.held = s.held
  ents : a.kind = .idle → s'.ents = s.ents

section

variable {s s' : State} {i : Nat} {a : MrPc}

theorem set_self (ha : s.threads[i]? = some a) : s.threads.set i a = s.threads := by
  apply ext_getElem?
  intro j
  rw [Threads.getElem?_set_of_getElem? ha]
  split
  · next hj => rw [hj, ha]
  · rfl

/-- A step without effect on what the clean-up looks at, but for the thread itself. -/
theorem Stepped.goto {b : MrPc} (hthreads : s'.threads = s.threads.set i b)
    (hinflight : s'.numInflight = s.numInflight) (hstopped : s'.stopped = s.stopped)
    (hheld : a.kind ≠ .user → s'.held = s.held) (hents : a.kind = .idle → s'.ents = s.ents)
    (hnext : a.kind.Next s.stopped b.kind) (hweight : b.kind.weight = a.kind.weight) :
    Stepped s s' i a b [] where
  threads := by rw [hthreads, append_nil]
  started := by simp
  starts _ := rfl
  next := hnext
  inflight := by rw [hinflight, hweight]; simp
  stopped := hstopped
  held := hheld
  ents := hents

theorem Caller.next_self (ret : Caller) (stopped : Bool) : ret.kind.Next stopped ret.kind := by
  cases ret with
  | work | cacheAlloc | user => exact .inr rfl

theorem Caller.next_idle (ret : Caller) (stopped : Bool) : ret.kind.Next stopped .idle := by
  cases ret with
  | work | cacheAlloc | user => exact .inl rfl

theorem Caller.weight_kind (ret : Caller) : ret.kind.weight = 0 := by
  cases ret with
  | work | cacheAlloc | user => rfl

theorem Caller.kind_ne_idle (ret : Caller) : ret.kind ≠ .idle := by
  cases ret with
  | work | cacheAlloc | user => exact nofun

theorem Caller.kind_ne_cleanup (ret : Caller) (phase : Nat) : ret.kind ≠ .cleanup phase := by
  cases ret with
  | work | cacheAlloc | user => exact nofun

/-- A thread that waits. -/
theorem Stepped.stay (ha : s.threads[i]? = some a) (hnext : a.kind.Next s.stopped a.kind) :
    Stepped s s i a a [] :=
  .goto (set_self ha).symm rfl rfl (fun _ => rfl) (fun _ => rfl) hnext rfl

theorem stepped_pcStep {b : Bool} (ha : s.threads[i]? = some a) :
    ∃ a' l, Stepped s (s.pcStep i b a) i a a' l := by
  cases a with
  | addKeys c num ret =>
    refine ⟨_, [], .goto rfl rfl rfl (fun _ => rfl) (fun _ => rfl) ?_ ?_⟩
    all_goals split <;> first | exact ret.next_self _ | rfl
  | addLoop c num ret =>
    have hdone : ∀ err, Stepped s (s.goto i (.addDone c err ret)) i (.addLoop c num ret)
        (.addDone c err ret) [] := fun err =>
      .goto rfl rfl rfl (fun _ => rfl) (fun _ => rfl) (ret.next_self _) rfl
    cases num with
    | zero => exact ⟨_, _, hdone .ok⟩
    | succ num =>
      simp only [State.pcStep]
      split
      · exact ⟨_, _, hdone .again⟩
      split
      · exact ⟨.addPending c num ⟨s.nextId, entOrder c, true⟩ ret, [],
          .goto rfl rfl rfl (fun _ => rfl) (fun _ => rfl) (ret.next_self _) rfl⟩
      · exact ⟨_, _, hdone .noMem⟩
  | addPending c num mr ret =>
    exact ⟨_, [], .goto rfl rfl rfl (fun _ => rfl) (fun h => absurd h ret.kind_ne_idle)
      (ret.next_self _) rfl⟩
  | createMkey c num mr ret =>
    simp only [State.pcStep]
    split
    · exact ⟨.addLoop c num ret, [.regMrCallback mr],
        { threads := rfl
          started := by simp [MrPc.kind]
          starts := by
            rintro (h | ⟨phase, h⟩)
            · exact absurd h ret.kind_ne_idle
            · exact absurd h (ret.kind_ne_cleanup phase)
          next := ret.next_self _
          inflight := by
            show _ = s.numInflight + ret.kind.weight + (1 + 0) - ret.kind.weight
            simp only
            omega
          stopped := rfl
          held := fun _ => rfl
          ents := fun _ => rfl }⟩
    · exact ⟨_, [], .goto rfl rfl rfl (fun _ => rfl) (fun _ => rfl) (ret.next_self _) rfl⟩
  | createFailed c mr ret =>
    exact ⟨.addDone c .failed ret, [], .goto rfl rfl rfl (fun _ => rfl)
      (fun h => absurd h ret.kind_ne_idle) (ret.next_self _) rfl⟩
  | addDone c err ret =>
    have hdone : Stepped s (s.goto i .done) i (.addDone c err ret) .done [] :=
      .goto rfl rfl rfl (fun _ => rfl) (fun _ => rfl) (ret.next_idle _) ret.weight_kind.symm
    cases ret with
    | work | user => exact ⟨_, _, hdone⟩
    | cacheAlloc =>
      cases err with
      | ok | again | noMem | failed =>
        exact ⟨_, [], .goto rfl rfl rfl (fun _ => rfl) (fun _ => rfl) (.inr rfl) rfl⟩
  | regMrCallback mr =>
    simp only [State.pcStep]
    split
    · exact ⟨_, [], .goto rfl rfl rfl (fun _ => rfl) nofun (.inr rfl) rfl⟩
    · exact ⟨.regMrComplete (order2idx mr.order).toNat, [],
        .goto rfl rfl rfl (fun _ => rfl) nofun (.inr rfl) rfl⟩
  | regMrFile mr => exact ⟨_, [], .goto rfl rfl rfl (fun _ => rfl) nofun (.inr rfl) rfl⟩
  | regMrComplete c =>
    simp only [State.pcStep]
    split
    all_goals exact ⟨_, [], .goto rfl rfl rfl (fun _ => rfl) nofun (.inr rfl) rfl⟩
  | execCbDone =>
    exact ⟨.done, [],
      { threads := by rw [append_nil]; rfl
        started := by simp
        starts := fun _ => rfl
        next := .inl rfl
        inflight := by simp [State.pcStep, MrPc.kind, Kind.weight]
        stopped := rfl
        held := fun _ => rfl
        ents := fun _ => rfl }⟩
  | removeKeys c num ret =>
    have hdone : Stepped s (s.goto i .done) i (.removeKeys c num ret) .done [] :=
      .goto rfl rfl rfl (fun _ => rfl) (fun _ => rfl) (ret.next_idle _) ret.weight_kind.symm
    simp only [State.pcStep]
    split
    · exact ⟨_, _, hdone⟩
    · exact ⟨_, _, hdone⟩
    · exact ⟨_, [], .goto rfl rfl rfl (fun _ => rfl) (fun h => absurd h ret.kind_ne_idle)
        (ret.next_self _) rfl⟩
  | destroyMkey c num mr ret =>
    exact ⟨.removeKeys c num ret, [],
      .goto rfl rfl rfl (fun _ => rfl) (fun _ => rfl) (ret.next_self _) rfl⟩
  | cacheWork c =>
    simp only [State.pcStep]
    split
    · exact ⟨_, [], .goto rfl rfl rfl (fun _ => rfl) (fun _ => rfl) (.inl rfl) rfl⟩
    next hstopped =>
    have hrun : Kind.Next s.stopped .idle .work := .inr ⟨Bool.eq_false_iff.mpr hstopped, rfl⟩
    split
    · exact ⟨_, [], .goto rfl rfl rfl (fun _ => rfl) (fun _ => rfl) hrun rfl⟩
    split
    · split
      · exact ⟨_, [], .goto rfl rfl rfl (fun _ => rfl) (fun _ => rfl) hrun rfl⟩
      · exact ⟨_, [], .goto rfl rfl rfl (fun _ => rfl) (fun _ => rfl) (.inl rfl) rfl⟩
    · exact ⟨.done, [], .goto rfl rfl rfl (fun _ => rfl) (fun _ => rfl) (.inl rfl) rfl⟩
  | cacheAlloc c =>
    simp only [State.pcStep]
    split
    all_goals exact ⟨_, [], .goto rfl rfl rfl (fun _ => rfl) nofun (.inr rfl) rfl⟩
  | cacheAllocAdd c => exact ⟨_, [], .goto rfl rfl rfl (fun _ => rfl) nofun (.inr rfl) rfl⟩
  | cacheAllocFail c => exact ⟨_, [], .goto rfl rfl rfl (fun _ => rfl) nofun (.inl rfl) rfl⟩
  | waitCompletion c =>
    simp only [State.pcStep]
    split
    · exact ⟨_, [], .goto rfl rfl rfl (fun _ => rfl) nofun (.inr rfl) rfl⟩
    · exact ⟨_, [], .stay ha (.inr rfl)⟩
  | allocCached order j =>
    simp only [State.pcStep]
    split
    · exact ⟨_, [], .goto rfl rfl rfl (fun _ => rfl) nofun (.inr rfl) rfl⟩
    split
    all_goals exact ⟨_, [], .goto rfl rfl rfl (fun _ => rfl) nofun (.inr rfl) rfl⟩
  | allocMissed order =>
    refine ⟨_, [], .goto rfl rfl rfl (fun _ => rfl) nofun ?_ ?_⟩
    · split
      · exact .inr rfl
      · exact .inl rfl
    · split <;> rfl
  | gotMr order mr =>
    exact ⟨.done, [], .goto rfl rfl rfl (fun h => absurd rfl h) nofun (.inl rfl) rfl⟩
  | cacheFree mr =>
    simp only [State.pcStep]
    split
    · exact ⟨_, [], .goto rfl rfl rfl (fun _ => rfl) nofun (.inl rfl) rfl⟩
    split
    · exact ⟨_, [], .goto rfl rfl rfl (fun _ => rfl) nofun (.inl rfl) rfl⟩
    split
    · exact ⟨_, [], .goto rfl rfl rfl (fun _ => rfl) nofun (.inr rfl) rfl⟩
    · exact ⟨.postSendWait (order2idx mr.order).toNat mr, [],
        .goto rfl rfl rfl (fun _ => rfl) nofun (.inr rfl) rfl⟩
  | postSendWait c mr =>
    refine ⟨_, [], .goto rfl rfl rfl (fun _ => rfl) nofun ?_ ?_⟩
    · split
      · exact .inr rfl
      · exact .inl rfl
    · split <;> rfl
  | putBack c mr => exact ⟨_, [], .goto rfl rfl rfl (fun _ => rfl) nofun (.inl rfl) rfl⟩
  | flushWorkqueue =>
    simp only [State.pcStep]
    split
    · exact ⟨_, [], .stay ha ⟨0, rfl⟩⟩
    · exact ⟨_, [], .goto rfl rfl rfl (fun _ => rfl) nofun ⟨1, rfl⟩ rfl⟩
  | cleanupAsyncCtx =>
    exact ⟨.waitInflight, [],
      { threads := by rw [append_nil]; rfl
        started := by simp
        starts := fun _ => rfl
        next := ⟨2, rfl⟩
        inflight := by
          simp only [State.pcStep, MrPc.kind, Kind.weight, map_nil, sum_nil]
          omega
        stopped := rfl
        held := fun _ => rfl
        ents := nofun }⟩
  | waitInflight =>
    simp only [State.pcStep]
    split
    · exact ⟨_, [], .goto rfl rfl rfl (fun _ => rfl) nofun ⟨3, rfl⟩ rfl⟩
    · exact ⟨_, [], .stay ha ⟨2, rfl⟩⟩
  | cleanKeys c =>
    simp only [State.pcStep]
    split
    · exact ⟨_, [], .goto rfl rfl rfl (fun _ => rfl) nofun ⟨3, rfl⟩ rfl⟩
    split
    all_goals exact ⟨_, [], .goto rfl rfl rfl (fun _ => rfl) nofun ⟨3, rfl⟩ rfl⟩
  | cleanDestroy c mr =>
    exact ⟨.cleanKeys c, [], .goto rfl rfl rfl (fun _ => rfl) nofun ⟨3, rfl⟩ rfl⟩
  | cleaned => exact ⟨_, [], .stay ha ⟨3, rfl⟩⟩
  | done => exact ⟨_, [], .stay ha (.inl rfl)⟩

variable {pc : MrPc} {phase : Nat}

theorem swept_of_phase (h : pc.kind = .cleanup phase) (hphase : phase < 3) : pc.swept = 0 := by
  cases pc with
  | addKeys _ _ ret | addLoop _ _ ret | addPending _ _ _ ret | createMkey _ _ _ ret
  | createFailed _ _ ret | addDone _ _ ret | removeKeys _ _ ret | destroyMkey _ _ _ ret => rfl
  | cleanKeys | cleanDestroy | cleaned =>
    have hthree : phase = 3 := (Kind.cleanup.inj h).symm
    omega
  | _ => rfl

variable {j : Nat} {a' : MrPc}

/-- What the clean-up of thread `j` relies on outlives a step of another thread. -/
theorem Closed.other {l : List MrPc} (h : Closed s j pc phase) (hpc : pc.kind = .cleanup phase)
    (hji : i ≠ j) (ha : s.threads[i]? = some a) (hs : Stepped s s' i a a' l) : Closed s' j
    pc phase := by
  have hallowed := h.others i a hji ha
  have huser : a.kind ≠ .user := fun hk => by
    rw [hk] at hallowed
    cases hallowed
  have hnext := hs.next
  rw [h.stopped] at hnext
  have hallowed' : a'.kind.allowed phase = true := by
    cases hk : a.kind with
    | idle =>
      rw [hk] at hnext
      obtain hidle | ⟨hfalse, -⟩ := hnext
      · rw [hidle]
        rfl
      · cases hfalse
    | user => exact absurd hk huser
    | work | callback =>
      rw [hk] at hnext hallowed
      obtain hidle | hsame := hnext
      · rw [hidle]
        rfl
      · rw [hsame]
        exact hallowed
    | cleanup p =>
      rw [hk] at hallowed
      cases hallowed
  exact
    { stopped := by rw [hs.stopped, h.stopped]
      held := by rw [hs.held huser, h.held]
      others := by
        intro m pc' hm hmpc
        rw [hs.threads] at hmpc
        by_cases hlen : m < (s.threads.set i a').length
        · rw [List.getElem?_append_left hlen, Threads.getElem?_set_of_getElem? ha] at hmpc
          split at hmpc
          · rw [← Option.some.inj hmpc]
            exact hallowed'
          · exact h.others m pc' hm hmpc
        · rw [List.getElem?_append_right (Nat.le_of_not_lt hlen)] at hmpc
          have hmem := mem_of_getElem? hmpc
          have hcallback := hs.started pc' hmem
          have hlne : l ≠ [] := ne_nil_of_mem hmem
          rw [hcallback]
          cases hk : a.kind with
          | idle => exact absurd (hs.starts (.inl hk)) hlne
          | cleanup p => exact absurd (hs.starts (.inr ⟨p, hk⟩)) hlne
          | user => exact absurd hk huser
          | work =>
            rw [hk] at hallowed
            have hzero : phase = 0 := of_decide_eq_true hallowed
            exact decide_eq_true (by omega)
          | callback =>
            rw [hk] at hallowed
            exact hallowed
      swept := by
        intro d hd
        by_cases hphase : phase < 3
        · rw [swept_of_phase hpc hphase] at hd
          exact absurd hd (Nat.not_lt_zero d)
        · have hidle : a.kind = .idle := by
            cases hk : a.kind with
            | idle => rfl
            | user => exact absurd hk huser
            | work =>
              rw [hk] at hallowed
              have hzero : phase = 0 := of_decide_eq_true hallowed
              omega
            | callback =>
              rw [hk] at hallowed
              exact absurd (of_decide_eq_true hallowed) hphase
            | cleanup p =>
              rw [hk] at hallowed
              cases hallowed
          unfold State.ent
          rw [hs.ents hidle]
          exact h.swept d hd }

/-- The thread of the clean-up goes on to a phase in which the others may do what they do. -/
theorem Closed.goto {phase phase' : Nat} (h : Closed s i a phase) (ha : s.threads[i]? = some a)
    (hthreads : s'.threads = s.threads.set i a') (hstopped : s'.stopped = s.stopped)
    (hheld : s'.held = s.held)
    (hallowed : ∀ j pc, j ≠ i → s.threads[j]? = some pc → pc.kind.allowed phase = true →
      pc.kind.allowed phase' = true) (hswept : ∀ d < a'.swept, (s'.ent d).head = []) : Closed s' i
        a' phase' where
  stopped := by rw [hstopped, h.stopped]
  held := by rw [hheld, h.held]
  others := by
    intro j pc hj hpc
    rw [hthreads, Threads.getElem?_set_of_getElem? ha, if_neg hj] at hpc
    exact hallowed j pc hj hpc (h.others j pc hj hpc)
  swept := hswept

/-- No command is in flight when the clean-up has found `num_inflight` at 0. -/
theorem Quiet.no_callback (hq : Quiet s) (ha : s.threads[i]? = some .waitInflight)
    (hzero : s.numInflight = 0) (hj : j ≠ i) (hpc : s.threads[j]? = some pc) : pc.kind
    ≠ .callback := by
  have hclosed := hq.closed i _ 2 ha rfl
  have hinflight := hq.inflight
  have hset := Threads.sum_map_set (fun pc : MrPc => pc.kind.weight) .done ha
  have hsum : ((s.threads.set i .done).map fun pc : MrPc => pc.kind.weight).sum = 0 := by
    simp only [MrPc.kind, Kind.weight] at hset hinflight ⊢
    omega
  have hnonneg : ∀ pc ∈ s.threads.set i .done, 0 ≤ pc.kind.weight := by
    intro pc hpc
    obtain ⟨m, hm⟩ := mem_iff_getElem?.mp hpc
    rw [Threads.getElem?_set_of_getElem? ha] at hm
    split at hm
    · rw [← Option.some.inj hm]
      decide
    · next hmi =>
      have hallowed := hclosed.others m pc hmi hm
      cases hk : pc.kind with
      | idle | user | work | callback => decide
      | cleanup p =>
        rw [hk] at hallowed
        cases hallowed
  have hmem : pc ∈ s.threads.set i .done := by
    apply mem_of_getElem? (i := j)
    rw [Threads.getElem?_set_of_getElem? ha, if_neg hj, hpc]
  intro hcallback
  have hweight := Threads.eq_zero_of_sum_map_eq_zero hnonneg hsum pc hmem
  rw [hcallback] at hweight
  cases hweight

theorem Closed.self {b : Bool} (hq : Quiet s) (hlen : s.ents.length = maxEntries)
    (ha : s.threads[i]? = some a) (hkind : a.kind = .cleanup phase) {phase' : Nat}
    (ha' : (s.pcStep i b a).threads[i]? = some a') (hkind' : a'.kind = .cleanup phase') : Closed
    (s.pcStep i b a) i a' phase' := by
  have hclosed := hq.closed i a phase ha hkind
  have hself : ∀ pc, (s.threads.set i pc)[i]? = some a' → a' = pc := by
    intro pc hpc
    rw [Threads.getElem?_set_of_getElem? ha, if_pos rfl] at hpc
    exact (Option.some.inj hpc).symm
  have hstay : s.threads[i]? = some a' → Closed s i a' phase' := fun h =>
    hq.closed i a' phase' h hkind'
  cases a with
  | flushWorkqueue =>
    simp only [State.pcStep] at ha' ⊢
    split at ha'
    · next hwork =>
      rw [if_pos hwork]
      exact hstay ha'
    · next hwork =>
      rw [if_neg hwork]
      obtain rfl := hself _ ha'
      obtain rfl : 1 = phase' := Kind.cleanup.inj hkind'
      refine hclosed.goto ha rfl rfl rfl ?_ (fun d hd => absurd hd (Nat.not_lt_zero d))
      intro j pc _ hpc hallowed
      cases hk : pc.kind with
      | idle | callback => rfl
      | work => exact absurd ⟨pc, mem_of_getElem? hpc, hk⟩ hwork
      | user | cleanup =>
        rw [hk] at hallowed
        cases hallowed
  | cleanupAsyncCtx =>
    obtain rfl : 1 = phase := Kind.cleanup.inj hkind
    obtain rfl := hself _ ha'
    obtain rfl : 2 = phase' := Kind.cleanup.inj hkind'
    refine hclosed.goto ha rfl rfl rfl ?_ (fun d hd => absurd hd (Nat.not_lt_zero d))
    intro j pc _ _ hallowed
    cases hk : pc.kind with
    | idle | callback => rfl
    | work | user | cleanup =>
      rw [hk] at hallowed
      cases hallowed
  | waitInflight =>
    obtain rfl : 2 = phase := Kind.cleanup.inj hkind
    simp only [State.pcStep] at ha' ⊢
    split at ha'
    · next hzero =>
      rw [if_pos hzero]
      obtain rfl := hself _ ha'
      refine hclosed.goto ha rfl rfl rfl ?_ (fun d hd => absurd hd (Nat.not_lt_zero d))
      intro j pc hj hpc hallowed
      cases hk : pc.kind with
      | idle => rfl
      | callback => exact absurd hk (hq.no_callback ha hzero hj hpc)
      | work | user | cleanup =>
        rw [hk] at hallowed
        cases hallowed
    · next hzero =>
      rw [if_neg hzero]
      exact hstay ha'
  | cleanKeys c =>
    obtain rfl : 3 = phase := Kind.cleanup.inj hkind
    simp only [State.pcStep] at ha' ⊢
    split at ha'
    · next hc =>
      rw [if_pos hc]
      obtain rfl := hself _ ha'
      obtain rfl : 3 = phase' := Kind.cleanup.inj hkind'
      exact hclosed.goto ha rfl rfl rfl (fun _ _ _ _ h => h)
        fun d hd => hclosed.swept d (lt_of_lt_of_le hd hc)
    · next hc =>
      rw [if_neg hc]
      cases hhead : (s.ent c).head with
      | nil =>
        simp only [hhead] at ha' ⊢
        obtain rfl := hself _ ha'
        obtain rfl : 3 = phase' := Kind.cleanup.inj hkind'
        refine hclosed.goto ha rfl rfl rfl (fun _ _ _ _ h => h) ?_
        intro d hd
        obtain hd | rfl := Nat.lt_succ_iff_lt_or_eq.mp hd
        · exact hclosed.swept d hd
        · exact hhead
      | cons mr head =>
        simp only [hhead] at ha' ⊢
        obtain rfl := hself _ ha'
        obtain rfl : 3 = phase' := Kind.cleanup.inj hkind'
        refine hclosed.goto ha rfl rfl rfl (fun _ _ _ _ h => h) ?_
        intro d hd
        have hdc : d ≠ c := Nat.ne_of_lt hd
        rw [ent_of_set (by omega) rfl d, if_neg hdc]
        exact hclosed.swept d hd
  | cleanDestroy c mr =>
    obtain rfl : 3 = phase := Kind.cleanup.inj hkind
    obtain rfl := hself _ ha'
    obtain rfl : 3 = phase' := Kind.cleanup.inj hkind'
    exact hclosed.goto ha rfl rfl rfl (fun _ _ _ _ h => h) hclosed.swept
  | cleaned => exact hstay ha'
  | addKeys _ _ ret | addLoop _ _ ret | addPending _ _ _ ret | createMkey _ _ _ ret
  | createFailed _ _ ret | addDone _ _ ret | removeKeys _ _ ret | destroyMkey _ _ _ ret =>
    exact absurd hkind (ret.kind_ne_cleanup phase)
  | _ => cases hkind

theorem Quiet.pcStep {b : Bool} (hq : Quiet s) (hlen : s.ents.length = maxEntries)
    (ha : s.threads[i]? = some a) : Quiet (s.pcStep i b a) := by
  obtain ⟨a', l, hs⟩ := stepped_pcStep (b := b) ha
  constructor
  · intro j pc phase hpc hkind
    by_cases hji : j = i
    · subst hji
      have ha' : (s.pcStep j b a).threads[j]? = some a' := by
        have hlt : j < (s.threads.set j a').length := by
          rw [length_set]
          exact (List.getElem?_eq_some_iff.mp ha).1
        rw [hs.threads, List.getElem?_append_left hlt, Threads.getElem?_set_of_getElem? ha,
          if_pos rfl]
      obtain rfl : a' = pc := Option.some.inj (ha'.symm.trans hpc)
      have hcleanup : ∃ p, a.kind = .cleanup p := by
        have hnext := hs.next
        cases hk : a.kind with
        | cleanup p => exact ⟨p, rfl⟩
        | idle =>
          rw [hk, hkind] at hnext
          obtain h | ⟨-, h⟩ := hnext
          all_goals cases h
        | user | work | callback =>
          rw [hk, hkind] at hnext
          obtain h | h := hnext
          all_goals cases h
      obtain ⟨p, hp⟩ := hcleanup
      exact Closed.self hq hlen ha hp ha' hkind
    · have hold : s.threads[j]? = some pc := by
        rw [hs.threads] at hpc
        by_cases hlt : j < (s.threads.set i a').length
        · rwa [List.getElem?_append_left hlt, Threads.getElem?_set_of_getElem? ha,
            if_neg hji] at hpc
        · rw [List.getElem?_append_right (Nat.le_of_not_lt hlt)] at hpc
          have hcallback := hs.started pc (mem_of_getElem? hpc)
          rw [hkind] at hcallback
          cases hcallback
      exact (hq.closed j pc phase hold hkind).other hkind (Ne.symm hji) ha hs
  · have hset := Threads.sum_map_set (fun pc : MrPc => pc.kind.weight) a' ha
    have hinflight := hq.inflight
    rw [hs.inflight, hs.threads, map_append, sum_append]
    omega

/-- Nobody cleans up before `stopped` is set. -/
theorem Quiet.not_cleanup (hq : Quiet s) (hstopped : s.stopped = false)
    (hpc : s.threads[j]? = some pc) (phase : Nat) : pc.kind ≠ .cleanup phase := by
  intro hkind
  have hclosed := (hq.closed j pc phase hpc hkind).stopped
  rw [hstopped] at hclosed
  cases hclosed

theorem getElem?_start {pc pc' : MrPc} (hthreads : s'.threads = s.threads ++ [pc])
    (hj : s'.threads[j]? = some pc') :
    s.threads[j]? = some pc' ∨ j = s.threads.length ∧ pc' = pc := by
  rw [hthreads] at hj
  by_cases hlt : j < s.threads.length
  · rw [List.getElem?_append_left hlt] at hj
    exact .inl hj
  · rw [List.getElem?_append_right (Nat.le_of_not_lt hlt)] at hj
    have hzero : j - s.threads.length = 0 := by
      have hlt' := (List.getElem?_eq_some_iff.mp hj).1
      rw [length_singleton] at hlt'
      omega
    rw [hzero] at hj
    exact .inr ⟨by omega, (Option.some.inj hj).symm⟩

/-- A thread of a user starts, which it does only before the clean-up. -/
theorem Quiet.start_user (hq : Quiet s) (hthreads : s'.threads = s.threads ++ [pc])
    (hnum : s'.numInflight = s.numInflight) (hstopped : s.stopped = false)
    (hkind : pc.kind = .user) : Quiet s' := by
  constructor
  · intro j pc' phase hpc' hkind'
    obtain hold | ⟨-, rfl⟩ := getElem?_start hthreads hpc'
    · exact absurd hkind' (hq.not_cleanup hstopped hold phase)
    · rw [hkind] at hkind'
      cases hkind'
  · rw [hnum, hq.inflight, hthreads, map_append, sum_append]
    simp [hkind, Kind.weight]

theorem Quiet.start_work {c : Nat} (hq : Quiet s) : Quiet (s.start (.cacheWork c)) := by
  constructor
  · intro j pc phase hpc hkind
    obtain hold | ⟨-, rfl⟩ := getElem?_start rfl hpc
    · have hclosed := hq.closed j pc phase hold hkind
      refine ⟨hclosed.stopped, hclosed.held, ?_, hclosed.swept⟩
      intro m pc' hm hpc'
      obtain hold' | ⟨-, rfl⟩ := getElem?_start rfl hpc'
      · exact hclosed.others m pc' hm hold'
      · rfl
    · cases hkind
  · have hinflight := hq.inflight
    show s.numInflight =
      1 + ((s.threads ++ [MrPc.cacheWork c]).map fun pc : MrPc => pc.kind.weight).sum
    rw [hinflight, map_append, sum_append]
    simp [MrPc.kind, Kind.weight]

theorem Quiet.start_cleanup (hq : Quiet s) (hvalid : Valid s .cleanup) :
    Quiet (step s .cleanup) := by
  obtain ⟨hstopped, hheld, huser⟩ := hvalid
  constructor
  · intro j pc phase hpc hkind
    obtain hold | ⟨rfl, rfl⟩ := getElem?_start rfl hpc
    · exact absurd hkind (hq.not_cleanup hstopped hold phase)
    · obtain rfl : 0 = phase := Kind.cleanup.inj hkind
      refine ⟨rfl, hheld, ?_, fun d hd => absurd hd (Nat.not_lt_zero d)⟩
      intro m pc' hm hpc'
      obtain hold' | ⟨hm', -⟩ := getElem?_start rfl hpc'
      · cases hk : pc'.kind with
        | idle | work | callback => rfl
        | user => exact absurd hk (huser pc' (mem_of_getElem? hold'))
        | cleanup p => exact absurd hk (hq.not_cleanup hstopped hold' p)
      · exact absurd hm' hm
  · have hinflight := hq.inflight
    show s.numInflight =
      1 + ((s.threads ++ [MrPc.flushWorkqueue]).map fun pc : MrPc => pc.kind.weight).sum
    rw [hinflight, map_append, sum_append]
    simp [MrPc.kind, Kind.weight]

/-- A change to what the clean-up does not look at. -/
theorem Quiet.other (hq : Quiet s) (hthreads : s'.threads = s.threads)
    (hheads : ∀ c, (s'.ent c).head = (s.ent c).head) (hheld : s'.held = s.held)
    (hnum : s'.numInflight = s.numInflight) (hstopped : s'.stopped = s.stopped) : Quiet s' where
  closed j pc phase hpc hkind := by
    rw [hthreads] at hpc
    have hclosed := hq.closed j pc phase hpc hkind
    exact
      { stopped := by rw [hstopped, hclosed.stopped]
        held := by rw [hheld, hclosed.held]
        others := by rw [hthreads]; exact hclosed.others
        swept := fun d hd => by rw [hheads, hclosed.swept d hd] }
  inflight := by rw [hnum, hthreads, hq.inflight]

theorem Quiet.step {a : Act} (hq : Quiet s) (hlen : s.ents.length = maxEntries)
    (hvalid : Valid s a) : Quiet (step s a) := by
  cases a with
  | step i b =>
    simp only [MrCache.step]
    cases ha : s.threads[i]? with
    | none => exact hq
    | some pc => exact hq.pcStep hlen ha
  | work c => exact hq.start_work
  | allocCached order =>
    simp only [MrCache.step]
    split
    · exact hq
    · exact hq.start_user rfl rfl hvalid.1 rfl
  | cacheAlloc entry =>
    simp only [MrCache.step]
    split
    · exact hq
    · exact hq.start_user rfl rfl hvalid rfl
  | register mr => exact hq.other rfl (fun _ => rfl) rfl rfl rfl
  | unregister mr => exact hq.other rfl (fun _ => rfl) rfl rfl rfl
  | cacheFree mr => exact hq.start_user rfl rfl hvalid.1 rfl
  | addKeys c num => exact hq.start_user rfl rfl hvalid.1 rfl
  | removeKeys c num => exact hq.start_user rfl rfl hvalid.1 rfl
  | setLimit c limit =>
    refine hq.other rfl (fun d => ?_) rfl rfl rfl
    have hc : c < s.ents.length := by rw [hlen]; exact hvalid
    rw [ent_of_set hc rfl d]
    split
    · next hd => rw [hd]
    · rfl
  | setRelease imm timeout => exact hq.other rfl (fun _ => rfl) rfl rfl rfl
  | delayTimer => exact hq.other rfl (fun _ => rfl) rfl rfl rfl
  | deviceError => exact hq.other rfl (fun _ => rfl) rfl rfl rfl
  | cleanup => exact hq.start_cleanup hvalid

/-- When the clean-up is through, no key is left. -/
theorem Quiet.cleaned (hq : Quiet s) (hb : Books s) (hmem : .cleaned ∈ s.threads) :
    s.keys = [] := by
  obtain ⟨j, hj⟩ := mem_iff_getElem?.mp hmem
  have hclosed := hq.closed j _ 3 hj rfl
  have hthreads : ∀ mr, (s.threads.map (MrPc.has mr)).sum = 0 := by
    intro mr
    apply sum_eq_zero
    intro n hn
    obtain ⟨pc, hpc, rfl⟩ := mem_map.mp hn
    obtain ⟨m, hm⟩ := mem_iff_getElem?.mp hpc
    have hkey : pc.key = none := by
      by_cases hmj : m = j
      · subst hmj
        rw [← Option.some.inj (hj.symm.trans hm)]
        rfl
      · have hallowed := hclosed.others m pc hmj hm
        cases pc with
        | addKeys _ _ ret | addLoop _ _ ret | addPending _ _ _ ret | createMkey _ _ _ ret
        | createFailed _ _ ret | addDone _ _ ret | removeKeys _ _ ret
        | destroyMkey _ _ _ ret =>
          cases ret with
          | work | cacheAlloc | user => cases hallowed
        | done | cacheWork => rfl
        | _ => cases hallowed
    exact has_of_none hkey mr
  have hlists : ∀ mr, (s.ents.map fun e => e.head.count mr).sum = 0 := by
    intro mr
    apply sum_eq_zero
    intro n hn
    obtain ⟨e, he, rfl⟩ := mem_map.mp hn
    obtain ⟨c, hc⟩ := mem_iff_getElem?.mp he
    have hlt : c < s.ents.length := (List.getElem?_eq_some_iff.mp hc).1
    have hent : s.ent c = e := Option.some.inj ((getElem?_ent hlt).symm.trans hc)
    rw [hb.length] at hlt
    rw [← hent, hclosed.swept c hlt, count_nil]
  apply eq_nil_iff_forall_not_mem.mpr
  intro mr hmr
  have hplaces := hb.places mr
  have hpos := count_pos_iff.mpr hmr
  unfold State.places at hplaces
  rw [hthreads, hlists, hclosed.held, count_nil] at hplaces
  omega

end

theorem Books.init (extended : Bool) (limit : Nat → Nat) : Books (mrCacheInit extended limit) := by
  have hlast : (mrCacheInit extended limit).lastEntry < maxEntries := by
    cases extended with
    | false =>
      show (order2idx (mrCacheMaxOrder false)).toNat < maxEntries
      decide
    | true =>
      show (order2idx (mrCacheMaxOrder true)).toNat < maxEntries
      decide
  have hheads : ∀ e ∈ (mrCacheInit extended limit).ents,
      e.head = [] ∧ e.cur = 0 ∧ e.pending = 0 ∧ e.size = 0 := by
    intro e he
    obtain ⟨c, -, rfl⟩ := mem_map.mp he
    exact ⟨rfl, rfl, rfl, rfl⟩
  have hent : ∀ c, ((mrCacheInit extended limit).ent c).head = [] ∧
      ((mrCacheInit extended limit).ent c).cur = 0 ∧
      ((mrCacheInit extended limit).ent c).pending = 0 ∧
      ((mrCacheInit extended limit).ent c).size = 0 := by
    intro c
    unfold State.ent
    rw [getD_eq_getElem?_getD]
    cases hc : (mrCacheInit extended limit).ents[c]? with
    | none => exact ⟨rfl, rfl, rfl, rfl⟩
    | some e => exact hheads e (mem_of_getElem? hc)
  exact
    { length := by simp [mrCacheInit]
      last := hlast
      places := by
        intro mr
        have hlists : ((mrCacheInit extended limit).ents.map fun e => e.head.count mr).sum = 0 := by
          apply sum_eq_zero
          intro n hn
          obtain ⟨e, he, rfl⟩ := mem_map.mp hn
          rw [(hheads e he).1, count_nil]
        unfold State.places
        rw [hlists]
        rfl
      nodup := nodup_nil
      fresh := nofun
      own := by
        intro c mr hmr
        rw [(hent c).1] at hmr
        cases hmr
      held := nofun
      cur := by
        intro c _
        rw [(hent c).2.1, (hent c).1]
        rfl
      pending := by
        intro c _
        rw [(hent c).2.2.1]
        rfl
      size := by
        intro c _
        rw [(hent c).2.2.2, (hent c).1]
        rfl
      ok := nofun }

theorem Quiet.init (extended : Bool) (limit : Nat → Nat) : Quiet (mrCacheInit extended limit) where
  closed j pc phase hpc := by cases hpc
  inflight := rfl

theorem Books.accounted {s : State} (h : Books s) (hq : Quiet s) : Accounted s where
  onePlace mr hmr := by
    rw [h.places mr, count_eq_one_of_mem h.nodup hmr]
  ownBucket c mr hmr := (h.own c mr hmr).2
  cur := h.cur
  pending := h.pending
  size := h.size
  served order mr hmem := (h.ok _ hmem).1 order rfl
  cleaned hmem := hq.cleaned h hmem

/-- In every run in which the posting of `mlx5_mr_cache_free` never fails, every key is accounted
for in every state. -/
theorem mr_cache_every_run (extended : Bool) (limit : Nat → Nat) (as : List Act)
    (hvalid : Run.Steps step Valid (mrCacheInit extended limit) as)
    (hpost : Run.Steps step NoUnregFailure (mrCacheInit extended limit) as) :
    ∀ t ∈ Run.states step (mrCacheInit extended limit) as, Accounted t := by
  have hsteps := Run.steps_and.mpr ⟨hvalid, hpost⟩
  have hstep : ∀ s a, Books s ∧ Quiet s → Valid s a ∧ NoUnregFailure s a →
      Books (step s a) ∧ Quiet (step s a) := by
    rintro s a ⟨hb, hq⟩ ⟨hv, hp⟩
    exact ⟨hb.step hv hp, hq.step hb.length hv⟩
  have hinv := hsteps.invariant hstep ⟨Books.init extended limit, Quiet.init extended limit⟩
  intro t ht
  exact (hinv t ht).1.accounted (hinv t ht).2

/-- A user allocates a key from bucket 21, registers memory with it and gives it back; `b` tells
how the posting of `unreg_umr` ends. -/
def allocFreeRun (b : Bool) : List Act :=
  [.cacheAlloc 21, .step 0 true, .step 0 true, .step 0 true, .step 0 true, .step 0 true,
    .step 0 true, .step 0 true, .step 0 true, .step 1 true, .step 1 true, .step 1 true,
    .step 1 true, .step 0 true, .step 0 true, .step 0 true,
    .register ⟨0, 23, true⟩, .cacheFree ⟨0, 23, true⟩, .step 2 true, .step 2 b, .step 2 true]

theorem mr_cache_every_run_alloc_free :
    Accounted (Run.final step (mrCacheInit false fun _ => 0) (allocFreeRun true)) :=
  mr_cache_every_run false (fun _ => 0) (allocFreeRun true) (by decide +kernel)
    (by decide +kernel) _ (Run.final_mem_states _ _)

/-- After a failed posting the key is in no place any more, and was not destroyed. -/
theorem failed_unreg_drops_key :
    ¬∀ (extended : Bool) (limit : Nat → Nat) (as : List Act),
      Run.Steps step Valid (mrCacheInit extended limit) as →
      ∀ t ∈ Run.states step (mrCacheInit extended limit) as, Accounted t := by
  intro h
  have hfinal := h false (fun _ => 0) (allocFreeRun false) (by decide +kernel) _
    (Run.final_mem_states _ _)
  have hplace := hfinal.onePlace ⟨0, 23, true⟩ (by decide +kernel)
  revert hplace
  decide +kernel

end MrCache
