-- SUMMARY: ICM tables of mlx4 (`icm.c`).
import Mathlib.Algebra.Order.Ring.Int
import Mathlib.Data.Nat.Prime.Basic
import OfaKernel.Lib.CInt

/-!
# ICM tables

A chunk of 256 KB is allocated and mapped by the first reference to an object in it, and unmapped
and freed with the last. References to a range are taken with a stride of one chunk.
-/

open Function

namespace Mlx4

/-! ## Data -/

def tableChunkSize : Nat := 1 <<< 18

/-- `struct scatterlist`, with the address of its page in low memory. -/
structure Sg where
  page : Nat
  length : Nat
  dmaAddress : Nat
  dmaLength : Nat
  deriving Repr, DecidableEq

structure IcmBuf where
  addr : Nat
  size : Nat
  dmaAddr : Nat
  deriving Repr, DecidableEq

/-- `struct mlx4_icm_chunk`: its union is `sg` or `buf`, with `npages` entries. -/
inductive IcmChunk where
  | sg (sg : List Sg) (nsg : Nat)
  | buf (buf : List IcmBuf)
  deriving Repr, DecidableEq

structure Icm where
  chunkList : List IcmChunk
  refcount : Int
  deriving Repr, DecidableEq

/-- What `mlx4_init_icm_table` fixes: a power of two of objects, whose size divides a chunk. -/
structure IcmShape where
  numObj : Nat
  objSize : Nat
  lowmem : Bool
  coherent : Bool
  numObj_lt : numObj < 2 ^ 32
  numObj_pow : ∃ k, numObj = 2 ^ k
  objSize_dvd : objSize ∣ tableChunkSize

/-- The chunks of a table, and which of them the device has mapped. -/
structure IcmTable where
  icm : Nat → Option Icm
  mapped : Nat → Bool

/-- The outcomes of `mlx4_alloc_icm` and of `MAP_ICM` for each chunk of the table. -/
structure IcmEnv where
  allocIcm : Nat → Option (List IcmChunk)
  mapIcm : Nat → Bool

/-- `MLX4_TABLE_CHUNK_SIZE / table->obj_size`. -/
def IcmShape.objPerChunk (p : IcmShape) : Nat := tableChunkSize / p.objSize

def IcmShape.numIcm (p : IcmShape) : Nat := (p.numObj + p.objPerChunk - 1) / p.objPerChunk

def IcmShape.chunkIndex (p : IcmShape) (obj : Nat) : Nat := (obj &&& (p.numObj - 1)) / p.objPerChunk

/-! ## References -/

def tableGet (p : IcmShape) (env : IcmEnv) (t : IcmTable) (obj : Nat) : IcmTable × Bool :=
  let i := p.chunkIndex obj
  match t.icm i with
  | some icm =>
    ({ t with icm := update t.icm i (some { icm with refcount := icm.refcount + 1 }) }, true)
  | none =>
    match env.allocIcm i with
    | none => (t, false)
    | some chunkList =>
      if env.mapIcm i then
        ({ icm := update t.icm i (some { chunkList := chunkList, refcount := 0 + 1 })
           mapped := update t.mapped i true }, true)
      else (t, false)

/-- `mlx4_table_put`; `none` is a null pointer dereference. -/
def tablePut (p : IcmShape) (t : IcmTable) (obj : Nat) : Option IcmTable :=
  let i := p.chunkIndex obj
  match t.icm i with
  | none => none
  | some icm =>
    if icm.refcount - 1 = 0 then
      some { icm := update t.icm i none, mapped := update t.mapped i false }
    else
      some { t with icm := update t.icm i (some { icm with refcount := icm.refcount - 1 }) }

/-- The loop at `fail` of `mlx4_table_get_range`; `none` also when it has not ended. -/
def unwindLoop (p : IcmShape) (start : Nat) : Nat → IcmTable → Nat → Option IcmTable
  | 0, _, _ => none
  | fuel + 1, t, i =>
    if i > start then
      let i := U32.sub i p.objPerChunk
      match tablePut p t i with
      | none => none
      | some t => unwindLoop p start fuel t i
    else some t

/-- The loop of `mlx4_table_get_range`, with whether all references have been taken. -/
def getRangeLoop (p : IcmShape) (env : IcmEnv) (start stop : Nat) :
    Nat → IcmTable → Nat → Option (IcmTable × Bool)
  | 0, _, _ => none
  | fuel + 1, t, i =>
    if i ≤ stop then
      match tableGet p env t i with
      | (t, true) => getRangeLoop p env start stop fuel t (U32.wrap (i + p.objPerChunk))
      | (t, false) => (unwindLoop p start (i + 1) t i).map fun t => (t, false)
    else some (t, true)

def tableGetRange (p : IcmShape) (env : IcmEnv) (t : IcmTable) (start stop : Nat) :
    Option (IcmTable × Bool) :=
  getRangeLoop p env start stop (stop + 2) t start

def putRangeLoop (p : IcmShape) (stop : Nat) : Nat → IcmTable → Nat → Option IcmTable
  | 0, _, _ => none
  | fuel + 1, t, i =>
    if i ≤ stop then
      match tablePut p t i with
      | none => none
      | some t => putRangeLoop p stop fuel t (U32.wrap (i + p.objPerChunk))
    else some t

def tablePutRange (p : IcmShape) (t : IcmTable) (start stop : Nat) : Option IcmTable :=
  putRangeLoop p stop (stop + 2) t start

/-- The loop of `mlx4_init_icm_table` over the chunks with reserved objects; `none` also when it
leaves the array `icm`. -/
def initReservedLoop (p : IcmShape) (env : IcmEnv) (reserved : Nat) :
    Nat → IcmTable → Nat → Option IcmTable
  | 0, _, _ => none
  | fuel + 1, t, i =>
    if i * tableChunkSize < reserved * p.objSize then
      match env.allocIcm i with
      | none => none
      | some chunkList =>
        if env.mapIcm i then
          initReservedLoop p env reserved fuel
            { icm := update t.icm i (some { chunkList := chunkList, refcount := 0 + 1 })
              mapped := update t.mapped i true } (i + 1)
        else none
    else some t

/-- `mlx4_init_icm_table`; a failure frees the table again. -/
def initIcmTable (p : IcmShape) (env : IcmEnv) (reserved : Nat) : Option IcmTable :=
  initReservedLoop p env reserved (p.numIcm + 1)
    { icm := fun _ => none, mapped := fun _ => false } 0

namespace IcmShape

variable (p : IcmShape)

/-- The stride is a power of two. -/
theorem objPerChunk_pow : ∃ e ≤ 18, p.objPerChunk = 2 ^ e := by
  have hdvd : p.objSize ∣ 2 ^ 18 := p.objSize_dvd
  obtain ⟨j, hj, hsize⟩ := (Nat.dvd_prime_pow Nat.prime_two).mp hdvd
  refine ⟨18 - j, Nat.sub_le _ _, ?_⟩
  unfold objPerChunk
  rw [hsize]
  exact Nat.pow_div hj Nat.two_pos

theorem objPerChunk_pos : 0 < p.objPerChunk := by
  obtain ⟨e, -, he⟩ := p.objPerChunk_pow
  rw [he]
  exact Nat.two_pow_pos e

theorem chunkIndex_of_lt {obj : Nat} (h : obj < p.numObj) :
    p.chunkIndex obj = obj / p.objPerChunk := by
  obtain ⟨k, hk⟩ := p.numObj_pow
  unfold chunkIndex
  rw [hk] at h ⊢
  rw [Nat.and_two_pow_sub_one_eq_mod, Nat.mod_eq_of_lt h]

end IcmShape

/-! ## One reference -/

/-- The references to a chunk that may be missing. -/
def Icm.refs : Option Icm → Int
  | none => 0
  | some icm => icm.refcount

namespace IcmTable

/-- The references to a chunk. -/
def refs (t : IcmTable) (c : Nat) : Int := Icm.refs (t.icm c)

/-- Exactly the chunks that are there are mapped, and they have references. -/
structure Ok (t : IcmTable) : Prop where
  pos : ∀ c icm, t.icm c = some icm → 0 < icm.refcount
  mapped : ∀ c, t.mapped c = (t.icm c).isSome

variable {t : IcmTable}

theorem Ok.mapped_iff (h : t.Ok) (c : Nat) : t.mapped c = true ↔ 0 < t.refs c := by
  rw [h.mapped]
  unfold refs
  cases hc : t.icm c with
  | none => simp [Icm.refs]
  | some icm => simpa [Icm.refs] using h.pos c icm hc

/-- One chunk is replaced. -/
def put (t : IcmTable) (i : Nat) (x : Option Icm) : IcmTable where
  icm := update t.icm i x
  mapped := update t.mapped i x.isSome

theorem Ok.put (h : t.Ok) (i : Nat) {x : Option Icm}
    (hpos : ∀ icm, x = some icm → 0 < icm.refcount) :
    (t.put i x).Ok := by
  unfold IcmTable.put
  refine ⟨fun c icm hc => ?_, fun c => ?_⟩
  · dsimp only at hc
    by_cases he : c = i
    · subst he
      rw [update_self] at hc
      exact hpos icm hc
    · rw [update_of_ne he] at hc
      exact h.pos c icm hc
  · dsimp only
    by_cases he : c = i
    · subst he
      rw [update_self, update_self]
    · rw [update_of_ne he, update_of_ne he, h.mapped]

theorem refs_put (t : IcmTable) (i : Nat) (x : Option Icm) (c : Nat) :
    (t.put i x).refs c = if c = i then Icm.refs x else t.refs c := by
  unfold refs IcmTable.put
  dsimp only
  split
  next he => rw [he, update_self]
  next he => rw [update_of_ne he]

theorem put_put (t : IcmTable) (i : Nat) (x y : Option Icm) : (t.put i x).put i y = t.put i y := by
  unfold IcmTable.put
  rw [update_idem, update_idem]

theorem Ok.put_self (h : t.Ok) (i : Nat) : t.put i (t.icm i) = t := by
  unfold IcmTable.put
  rw [← h.mapped, update_eq_self, update_eq_self]

/-- A chunk that is there stays mapped. -/
theorem Ok.update_icm (h : t.Ok) {i : Nat} {icm : Icm} (hi : t.icm i = some icm) (icm' : Icm) :
    ({ t with icm := update t.icm i (some icm') } : IcmTable) = t.put i (some icm') := by
  have hmapped : t.mapped i = true := by
    rw [h.mapped, hi]
    rfl
  unfold IcmTable.put
  rw [Option.isSome_some, ← hmapped, update_eq_self]

end IcmTable

variable {p : IcmShape} {t : IcmTable}

theorem tablePut_some (h : t.Ok) {obj : Nat} {icm : Icm}
    (hi : t.icm (p.chunkIndex obj) = some icm) :
    tablePut p t obj = some (t.put (p.chunkIndex obj)
      (if icm.refcount - 1 = 0 then none else some { icm with refcount := icm.refcount - 1 })) := by
  unfold tablePut
  dsimp only
  rw [hi]
  dsimp only
  split
  next => rfl
  next => rw [h.update_icm hi]

/-- A reference is refused and nothing has changed, or it is there and a put takes it back. -/
theorem tableGet_spec (h : t.Ok) (env : IcmEnv) (obj : Nat) :
    tableGet p env t obj = (t, false) ∨
      ∃ t', tableGet p env t obj = (t', true) ∧ t'.Ok ∧
        (∀ c, t'.refs c = t.refs c + if c = p.chunkIndex obj then 1 else 0) ∧
        tablePut p t' obj = some t := by
  -- the chunk has one reference more, from zero on when it is new
  have hgot (icm : Icm) (hpos : 0 ≤ icm.refcount) (hrefs : t.refs (p.chunkIndex obj) = icm.refcount)
      (hback : t.icm (p.chunkIndex obj) = if icm.refcount = 0 then none else some icm) :
      let t' := t.put (p.chunkIndex obj) (some { icm with refcount := icm.refcount + 1 })
      t'.Ok ∧ (∀ c, t'.refs c = t.refs c + if c = p.chunkIndex obj then 1 else 0) ∧
        tablePut p t' obj = some t := by
    intro t'
    have hok : t'.Ok := h.put _ fun icm' he => by
      cases he
      exact Int.lt_add_one_of_le hpos
    refine ⟨hok, fun c => ?_, ?_⟩
    · rw [IcmTable.refs_put]
      split
      next he =>
        rw [he, hrefs]
        rfl
      next => exact (Int.add_zero _).symm
    · rw [tablePut_some hok (update_self _ _ _), IcmTable.put_put]
      rw [Int.add_sub_cancel, ← hback, h.put_self]
  unfold tableGet
  dsimp only
  cases hi : t.icm (p.chunkIndex obj) with
  | some icm =>
    have hpos := h.pos _ _ hi
    dsimp only
    rw [h.update_icm hi]
    refine .inr ⟨_, rfl, hgot icm hpos.le ?_ ?_⟩
    · unfold IcmTable.refs
      rw [hi]
      rfl
    · rw [hi, if_neg hpos.ne']
  | none =>
    cases env.allocIcm (p.chunkIndex obj) with
    | none => exact .inl rfl
    | some chunkList =>
      cases env.mapIcm (p.chunkIndex obj) with
      | false => exact .inl rfl
      | true =>
        refine .inr ⟨_, rfl, hgot { chunkList := chunkList, refcount := 0 } (Int.le_refl 0) ?_ hi⟩
        unfold IcmTable.refs
        rw [hi]
        rfl

theorem tablePut_spec (h : t.Ok) {obj : Nat} (hpos : 0 < t.refs (p.chunkIndex obj)) :
    ∃ t', tablePut p t obj = some t' ∧ t'.Ok ∧
      ∀ c, t'.refs c = t.refs c - if c = p.chunkIndex obj then 1 else 0 := by
  cases hi : t.icm (p.chunkIndex obj) with
  | none =>
    unfold IcmTable.refs at hpos
    rw [hi] at hpos
    exact absurd hpos (Int.lt_irrefl 0)
  | some icm =>
    have hrefs : t.refs (p.chunkIndex obj) = icm.refcount := by
      unfold IcmTable.refs
      rw [hi]
      rfl
    refine ⟨_, tablePut_some h hi, h.put _ fun icm' he => ?_, fun c => ?_⟩
    · split at he
      next => cases he
      next hmore =>
        cases he
        change 0 < icm.refcount - 1
        omega
    · rw [IcmTable.refs_put]
      split
      next he =>
        rw [he, hrefs]
        split
        next hlast => exact hlast.symm
        next => rfl
      next => exact (Int.sub_zero _).symm

/-! ## Ranges of references -/

/-- The objects that the loops over a range name: `m` of them, one stride apart and in the
table, and the next one is beyond the range. -/
structure Strides (p : IcmShape) (start stop m : Nat) : Prop where
  inside : ∀ k < m, start + k * p.objPerChunk ≤ stop
  beyond : stop < start + m * p.objPerChunk
  bound : stop < p.numObj
  small : stop + p.objPerChunk < 2 ^ 32

namespace Strides

variable {start stop m : Nat}

theorem chunkIndex_eq (h : Strides p start stop m) {k : Nat} (hk : k < m) :
    p.chunkIndex (start + k * p.objPerChunk) = start / p.objPerChunk + k := by
  rw [p.chunkIndex_of_lt (Nat.lt_of_le_of_lt (h.inside k hk) h.bound),
    Nat.add_mul_div_right _ _ p.objPerChunk_pos]

theorem next (h : Strides p start stop m) {k : Nat} (hk : k < m) :
    U32.wrap (start + k * p.objPerChunk + p.objPerChunk) = start + (k + 1) * p.objPerChunk := by
  have hin := h.inside k hk
  have hsmall := h.small
  rw [U32.wrap_of_lt (by omega), Nat.succ_mul, Nat.add_assoc]

/-- The object number `k` is more than `k`, so the loops have fuel for it. -/
theorem le_object (_ : Strides p start stop m) (k : Nat) : k ≤ start + k * p.objPerChunk :=
  (Nat.le_mul_of_pos_right k p.objPerChunk_pos).trans (Nat.le_add_left _ _)

theorem le_stop (h : Strides p start stop m) : m ≤ stop + 1 := by
  cases m with
  | zero => exact Nat.zero_le _
  | succ k => exact Nat.succ_le_succ ((h.le_object k).trans (h.inside k (Nat.lt_succ_self k)))

end Strides

/-- One of the first `k` chunks from `first` on. -/
def inChunks (first k c : Nat) : Int := if first ≤ c ∧ c < first + k then 1 else 0

theorem inChunks_zero (first c : Nat) : inChunks first 0 c = 0 :=
  if_neg fun h => by omega

theorem inChunks_succ (first k c : Nat) :
    inChunks first (k + 1) c = inChunks first k c + if c = first + k then 1 else 0 := by
  unfold inChunks
  split_ifs <;> omega

variable {start stop m : Nat}

theorem unwindLoop_start {fuel : Nat} (hf : 0 < fuel) (t : IcmTable) :
    unwindLoop p start fuel t start = some t := by
  obtain ⟨n, rfl⟩ := Nat.exists_eq_succ_of_ne_zero hf.ne'
  unfold unwindLoop
  rw [if_neg (Nat.lt_irrefl _)]

theorem unwindLoop_step (h : Strides p start stop m) {k fuel : Nat} (hk : k < m) {t t' : IcmTable}
    (hput : tablePut p t' (start + k * p.objPerChunk) = some t) :
    unwindLoop p start (fuel + 1) t' (start + (k + 1) * p.objPerChunk) =
      unwindLoop p start fuel t (start + k * p.objPerChunk) := by
  have hin := h.inside k hk
  have hsmall := h.small
  have hpos := p.objPerChunk_pos
  have hsucc : (k + 1) * p.objPerChunk = k * p.objPerChunk + p.objPerChunk := Nat.succ_mul _ _
  have hback : U32.sub (start + (k + 1) * p.objPerChunk) p.objPerChunk =
      start + k * p.objPerChunk := by
    rw [U32.sub_of_le (by omega) (by omega)]
    omega
  conv => lhs; unfold unwindLoop
  rw [if_pos (by omega)]
  dsimp only
  rw [hback, hput]

/-- The loop from its step number `k` on, when unwinding would lead back to `t₀`. -/
theorem getRangeLoop_spec (h : Strides p start stop m) (env : IcmEnv) {t₀ : IcmTable}
    {k fuel : Nat} (hk : k ≤ m) (hfuel : m - k < fuel) {t : IcmTable} (hok : t.Ok)
    (hunwind : ∀ n, k < n → unwindLoop p start n t (start + k * p.objPerChunk) = some t₀)
    (hrefs : ∀ c, t.refs c = t₀.refs c + inChunks (start / p.objPerChunk) k c) :
    getRangeLoop p env start stop fuel t (start + k * p.objPerChunk) = some (t₀, false) ∨
      ∃ t', getRangeLoop p env start stop fuel t (start + k * p.objPerChunk) =
        some (t', true) ∧ t'.Ok ∧
        ∀ c, t'.refs c = t₀.refs c + inChunks (start / p.objPerChunk) m c := by
  induction fuel generalizing k t with
  | zero => exact absurd hfuel (Nat.not_lt_zero _)
  | succ fuel ih =>
    unfold getRangeLoop
    rcases Nat.lt_or_ge k m with hlt | hge
    · rw [if_pos (h.inside k hlt)]
      rcases tableGet_spec hok env (start + k * p.objPerChunk) with hget
        | ⟨t', hget, hok', hrefs', hput⟩
      · rw [hget]
        dsimp only
        rw [hunwind _ (Nat.lt_succ_of_le (h.le_object k))]
        exact .inl rfl
      · rw [hget]
        rw [h.next hlt]
        refine ih hlt (by omega) hok' (fun n hn => ?_) fun c => ?_
        · obtain ⟨n, rfl⟩ := Nat.exists_eq_succ_of_ne_zero (Nat.ne_of_gt (Nat.zero_lt_of_lt hn))
          rw [Nat.succ_eq_add_one, unwindLoop_step h hlt hput]
          exact hunwind n (by omega)
        · rw [hrefs', hrefs, h.chunkIndex_eq hlt, inChunks_succ, Int.add_assoc]
    · obtain rfl : k = m := Nat.le_antisymm hk hge
      rw [if_neg (Nat.not_le.mpr h.beyond)]
      exact .inr ⟨t, rfl, hok, hrefs⟩

/-- References to a range are refused and nothing has changed, or each of its chunks has one more.
-/
theorem tableGetRange_spec (h : Strides p start stop m) (env : IcmEnv) (hok : t.Ok) :
    tableGetRange p env t start stop = some (t, false) ∨
      ∃ t', tableGetRange p env t start stop = some (t', true) ∧ t'.Ok ∧
        ∀ c, t'.refs c = t.refs c + inChunks (start / p.objPerChunk) m c := by
  have hle := h.le_stop
  have hspec := @getRangeLoop_spec p start stop m h env t 0 (stop + 2) (Nat.zero_le m)
    (by omega) t hok
    (fun n hn => by rw [Nat.zero_mul, Nat.add_zero]; exact unwindLoop_start hn t)
    (fun c => by rw [inChunks_zero, Int.add_zero])
  rwa [Nat.zero_mul, Nat.add_zero] at hspec

theorem putRangeLoop_spec (h : Strides p start stop m) {t₀ : IcmTable} {k fuel : Nat} (hk : k ≤ m)
    (hfuel : m - k < fuel) {t : IcmTable} (hok : t.Ok)
    (hrefs : ∀ c, t.refs c = t₀.refs c - inChunks (start / p.objPerChunk) k c)
    (hheld : ∀ c, inChunks (start / p.objPerChunk) m c ≤ t₀.refs c) :
    ∃ t', putRangeLoop p stop fuel t (start + k * p.objPerChunk) = some t' ∧ t'.Ok ∧
      ∀ c, t'.refs c = t₀.refs c - inChunks (start / p.objPerChunk) m c := by
  induction fuel generalizing k t with
  | zero => exact absurd hfuel (Nat.not_lt_zero _)
  | succ fuel ih =>
    unfold putRangeLoop
    rcases Nat.lt_or_ge k m with hlt | hge
    · rw [if_pos (h.inside k hlt)]
      have hidx := h.chunkIndex_eq hlt
      -- the range still holds its reference to this chunk
      have hpos : 0 < t.refs (p.chunkIndex (start + k * p.objPerChunk)) := by
        have hone : inChunks (start / p.objPerChunk) m (start / p.objPerChunk + k) = 1 :=
          if_pos ⟨Nat.le_add_right _ _, Nat.add_lt_add_left hlt _⟩
        have hnone : inChunks (start / p.objPerChunk) k (start / p.objPerChunk + k) = 0 :=
          if_neg fun hc => Nat.lt_irrefl _ hc.2
        have hle := hheld (start / p.objPerChunk + k)
        rw [hidx, hrefs, hnone]
        omega
      obtain ⟨t', hput, hok', hrefs'⟩ := tablePut_spec hok hpos
      rw [hput]
      rw [h.next hlt]
      refine ih hlt (by omega) hok' fun c => ?_
      rw [hrefs', hrefs, hidx, inChunks_succ]
      omega
    · obtain rfl : k = m := Nat.le_antisymm hk hge
      rw [if_neg (Nat.not_le.mpr h.beyond)]
      exact ⟨t, rfl, hok, hrefs⟩

theorem tablePutRange_spec (h : Strides p start stop m) (hok : t.Ok)
    (hheld : ∀ c, inChunks (start / p.objPerChunk) m c ≤ t.refs c) :
    ∃ t', tablePutRange p t start stop = some t' ∧ t'.Ok ∧
      ∀ c, t'.refs c = t.refs c - inChunks (start / p.objPerChunk) m c := by
  have hle := h.le_stop
  have hspec := @putRangeLoop_spec p start stop m h t 0 (stop + 2) (Nat.zero_le m) (by omega) t hok
    (fun c => by rw [inChunks_zero, Int.sub_zero]) hheld
  rwa [Nat.zero_mul, Nat.add_zero] at hspec

/-- The chunk has an object below `reserved`. -/
def IcmShape.Reserved (p : IcmShape) (reserved c : Nat) : Prop :=
    c * tableChunkSize < reserved * p.objSize

instance (p : IcmShape) (reserved c : Nat) : Decidable (p.Reserved reserved c) :=
  inferInstanceAs (Decidable (_ < _))

theorem initReservedLoop_spec {env : IcmEnv} {reserved fuel i : Nat} (hok : t.Ok)
    (hrefs : ∀ c, t.refs c = if c < i then 1 else 0) (hbelow : ∀ c < i, p.Reserved reserved c)
    {t' : IcmTable} (h : initReservedLoop p env reserved fuel t i = some t') :
    t'.Ok ∧ ∀ c, t'.refs c = if p.Reserved reserved c then 1 else 0 := by
  induction fuel generalizing t i with
  | zero => cases h
  | succ fuel ih =>
    unfold initReservedLoop at h
    split at h
    next hres =>
      cases halloc : env.allocIcm i with
      | none =>
        rw [halloc] at h
        cases h
      | some chunkList =>
        rw [halloc] at h
        dsimp only at h
        split at h
        next =>
          refine ih (hok.put i (x := some { chunkList := chunkList, refcount := 0 + 1 })
            fun icm hi => ?_) (fun c => ?_) (fun c hc => ?_) h
          · cases hi
            exact Int.zero_lt_one
          · rw [IcmTable.refs_put, hrefs]
            split_ifs <;> first | rfl | omega
          · rcases Nat.lt_succ_iff_lt_or_eq.mp hc with hc | rfl
            · exact hbelow c hc
            · exact hres
        next => cases h
    next hend =>
      obtain rfl := Option.some.inj h
      refine ⟨hok, fun c => (hrefs c).trans ?_⟩
      refine if_congr ⟨hbelow c, fun hc => ?_⟩ rfl rfl
      by_contra hge
      exact hend (Nat.lt_of_le_of_lt (Nat.mul_le_mul_right _ (Nat.not_lt.mp hge)) hc)

theorem initIcmTable_spec {env : IcmEnv} {reserved : Nat}
    (h : initIcmTable p env reserved = some t) :
    t.Ok ∧ ∀ c, t.refs c = if p.Reserved reserved c then 1 else 0 :=
  initReservedLoop_spec ⟨fun _ _ hc => (Option.some_ne_none _ hc.symm).elim, fun _ => rfl⟩
    (fun c => (if_neg (Nat.not_lt_zero c)).symm)
    (fun c hc => absurd hc (Nat.not_lt_zero c)) h

end Mlx4
