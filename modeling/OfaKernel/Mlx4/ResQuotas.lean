-- SUMMARY: The initial quotas and guarantees of the mlx4 resource allocators.
import Mathlib.Tactic.Ring
import OfaKernel.Mlx4.ResGuarantee

/-!
# Quotas of the resource allocators

`InitUpTo` says what the first `k` functions have by then; from all of them, an allocator whose
reserve its pool covers is sound.
-/

open List

namespace Mlx4

section

variable (dev : SriovDev)

/-- The share of a function, and half of all with it. -/
def share (type : ResType) : Int := (numInstances dev type).tdiv (2 * (dev.numVfs + 1))

def slaveGuaranteed (type : ResType) (t : Nat) : Int :=
  match type with
  | .mac => 2
  | .vlan => if t = dev.function then 64 else 0
  | .counter =>
    if t = dev.function then 4
    else if (t : Int) ≤ getMaxGauranteedVfsCounter dev then 2
    else 0
  | .mtt =>
    if t = dev.function then I32.wrap (share dev .mtt + dev.reservedMtts) else share dev .mtt
  | _ => share dev type

def slaveQuota (type : ResType) (t : Nat) : Int :=
  match type with
  | .mac => if t = dev.function then I32.wrap (128 - I32.wrap (2 * maxVfsPport dev)) else 128
  | .vlan => if t = dev.function then 128 else 64
  | .counter => I32.wrap dev.maxCounters
  | .mtt =>
    if t = dev.function then
      I32.wrap (I32.wrap ((numInstances dev .mtt).tdiv 2 + share dev .mtt) + dev.reservedMtts)
    else I32.wrap ((numInstances dev .mtt).tdiv 2 + share dev .mtt)
  | _ => I32.wrap ((numInstances dev type).tdiv 2 + share dev type)

/-- The size of a pool. -/
def initialFree (type : ResType) : Int :=
  match type with
  | .mac | .vlan => 128
  | .counter => I32.wrap (dev.maxCounters - 1)
  | .mtt => I32.wrap (numInstances dev .mtt + dev.reservedMtts)
  | _ => numInstances dev type

/-- What the first `k` functions add to the reserve of a pool. -/
def reserveUpTo (type : ResType) (port k : Nat) : Int :=
  ∑ t ∈ Finset.range k,
    if port = 0 ∨ dev.activePort t (port - 1) = true then slaveGuaranteed dev type t else 0

structure InitUpTo (type : ResType) (k : Nat) (a : ResAllocator) : Prop where
  guaranteed : ∀ t < k, a.guaranteed t = slaveGuaranteed dev type t
  quota : ∀ t < k, a.quota t = slaveQuota dev type t
  allocated : a.allocated = fun _ => 0
  free : ∀ port, dev.HasPool type port → type = .counter ∨ dev.function < k →
    a.free port = initialFree dev type
  reserved : ∀ port, dev.HasPool type port →
    a.reserved port = uintWrap (reserveUpTo dev type port k)

end

section

variable {dev : SriovDev} {type : ResType} {a : ResAllocator} {t k port : Nat}

/-! ## One function -/

theorem initQuotas_terms (dev : SriovDev) (hg : type.granted = true) (t : Nat) (a : ResAllocator) :
    (initQuotas dev type t a).guaranteed =
    Function.update a.guaranteed t (slaveGuaranteed dev type t) ∧
    (initQuotas dev type t a).quota = Function.update a.quota t (slaveQuota dev type t) ∧
    (initQuotas dev type t a).allocated = a.allocated := by
  cases type <;> try cases hg
  case mac =>
    by_cases h : t = dev.function <;>
      simp [initQuotas, initMacQuotas, slaveGuaranteed, slaveQuota, h]
  case vlan =>
    by_cases h : t = dev.function <;>
      simp [initQuotas, initVlanQuotas, slaveGuaranteed, slaveQuota, h]
  case counter => simp [initQuotas, initCounterResourceTracker, slaveGuaranteed, slaveQuota]
  all_goals
    by_cases h : t = dev.function <;>
      simp [initQuotas, initializeResQuotas, slaveGuaranteed, slaveQuota, share, h]

theorem initQuotas_free (hg : type.granted = true) (hport : dev.HasPool type port) (t : Nat)
    (a : ResAllocator) :
    (initQuotas dev type t a).free port =
      if type ≠ .counter ∧ t = dev.function then initialFree dev type else a.free port := by
  have hports := dev.numPorts_le
  cases type <;> try cases hg
  case mac =>
    obtain ⟨hpos, hle⟩ : 0 < port ∧ port ≤ dev.numPorts := hport
    have hrow : port - 1 < 2 := by omega
    by_cases h : t = dev.function <;>
      simp only [initQuotas, initMacQuotas, initialFree, ResAllocator.free, h, hpos, hrow, if_true,
        if_false, and_self, ne_eq, reduceCtorEq, not_false_eq_true, and_false]
  case vlan =>
    obtain ⟨hpos, hle⟩ : 0 < port ∧ port ≤ dev.numPorts := hport
    have hrow : port - 1 < 2 := by omega
    by_cases h : t = dev.function <;>
      simp only [initQuotas, initVlanQuotas, initialFree, ResAllocator.free, h, hpos, hrow, if_true,
        if_false, and_self, ne_eq, reduceCtorEq, not_false_eq_true, and_false]
  case counter => simp [initQuotas, initCounterResourceTracker, ResAllocator.free]
  all_goals
    obtain rfl : port = 0 := hport
    by_cases h : t = dev.function <;>
      simp [initQuotas, initializeResQuotas, initialFree, ResAllocator.free, h]

theorem uintWrap_add (m n : Int) : uintWrap (uintWrap m + n) = uintWrap (m + n) := by
  unfold uintWrap
  omega

/-- A function adds its guarantee to the reserves of its ports. -/
theorem initStep_reserved (hg : type.granted = true) (hport : dev.HasPool type port) (t : Nat)
    {x : Int} (ha : a.reserved port = uintWrap x) :
    (reserveGuaranteed dev type t (initQuotas dev type t a)).reserved port =
      uintWrap (x + if port = 0 ∨ dev.activePort t (port - 1) = true then
        slaveGuaranteed dev type t else 0) := by
  have hterm : (initQuotas dev type t a).guaranteed t = slaveGuaranteed dev type t := by
    rw [(initQuotas_terms dev hg t a).1, Function.update_self]
  have hsame : type ≠ .counter → (initQuotas dev type t a).reserved port = uintWrap x := by
    intro hne
    rw [← ha]
    cases type <;> try cases hg
    case counter => exact absurd rfl hne
    case mac =>
      unfold initQuotas initMacQuotas
      dsimp only
      split <;> rfl
    case vlan =>
      unfold initQuotas initVlanQuotas
      dsimp only
      split <;> rfl
    all_goals
      unfold initQuotas initializeResQuotas
      dsimp only
      split <;> try split
      all_goals rfl
  have hshared : ∀ y : Int, (initQuotas dev type t a).resReserved = uintWrap x → y =
      slaveGuaranteed dev type t → uintWrap ((initQuotas dev type t a).resReserved +
        (initQuotas dev type t a).guaranteed t) = uintWrap (x + y) := by
    rintro y hres rfl
    rw [hres, hterm, uintWrap_add]
  have hports : ∀ type' : ResType, type'.perPort = true → dev.HasPool type' port →
      (initQuotas dev type t a).reserved port = uintWrap x →
      (if port - 1 < dev.numPorts && dev.activePort t (port - 1) then
        uintWrap ((initQuotas dev type t a).resPortRsvd (port - 1) +
          (initQuotas dev type t a).guaranteed t)
        else (initQuotas dev type t a).resPortRsvd (port - 1)) =
      uintWrap (x + if port = 0 ∨ dev.activePort t (port - 1) = true then
        slaveGuaranteed dev type t else 0) := by
    intro type' hper hpool hres
    obtain ⟨hpos, hle⟩ : 0 < port ∧ port ≤ dev.numPorts := by
      simpa [SriovDev.HasPool, hper] using hpool
    have hrow : (initQuotas dev type t a).resPortRsvd (port - 1) = uintWrap x := by
      rw [← hres, ResAllocator.reserved, if_pos hpos]
    have hlt : port - 1 < dev.numPorts := by omega
    rw [hrow, hterm]
    by_cases hact : dev.activePort t (port - 1) = true
    · rw [if_pos (by simp [hlt, hact]), if_pos (.inr hact), uintWrap_add]
    · rw [if_neg (by simp [hact]), if_neg fun h => h.elim hpos.ne' hact, Int.add_zero]
  cases type <;> try cases hg
  case mac =>
    have hpos : 0 < port := (show 0 < port ∧ port ≤ dev.numPorts from hport).1
    rw [← hports .mac rfl hport (hsame (by decide)), ResAllocator.reserved, if_pos hpos]
    rfl
  case vlan =>
    have hpos : 0 < port := (show 0 < port ∧ port ≤ dev.numPorts from hport).1
    rw [← hports .vlan rfl hport (hsame (by decide)), ResAllocator.reserved, if_pos hpos]
    rfl
  case counter =>
    obtain rfl : port = 0 := hport
    have hres : a.resReserved = uintWrap x := ha
    rw [if_pos (.inl rfl), ← uintWrap_add, ← hres]
    rfl
  all_goals
    obtain rfl : port = 0 := hport
    exact hshared _ (hsame (by decide)) rfl

theorem InitUpTo.step (hg : type.granted = true) (h : InitUpTo dev type k a) :
    InitUpTo dev type (k + 1) (reserveGuaranteed dev type k (initQuotas dev type k a)) := by
  obtain ⟨hguar, hquota, halloc⟩ := initQuotas_terms dev hg k a
  have hkeep : (reserveGuaranteed dev type k (initQuotas dev type k a)).guaranteed =
        (initQuotas dev type k a).guaranteed ∧
      (reserveGuaranteed dev type k (initQuotas dev type k a)).quota =
        (initQuotas dev type k a).quota ∧
      (reserveGuaranteed dev type k (initQuotas dev type k a)).allocated =
        (initQuotas dev type k a).allocated ∧
      ∀ port, (reserveGuaranteed dev type k (initQuotas dev type k a)).free port =
        (initQuotas dev type k a).free port := by
    cases type <;> exact ⟨rfl, rfl, rfl, fun _ => rfl⟩
  refine ⟨fun t ht => ?_, fun t ht => ?_, ?_, fun port hport hset => ?_, fun port hport => ?_⟩
  · rw [hkeep.1, hguar]
    by_cases htk : t = k
    · rw [htk, Function.update_self]
    · rw [Function.update_of_ne htk, h.guaranteed t (by omega)]
  · rw [hkeep.2.1, hquota]
    by_cases htk : t = k
    · rw [htk, Function.update_self]
    · rw [Function.update_of_ne htk, h.quota t (by omega)]
  · rw [hkeep.2.2.1, halloc, h.allocated]
  · rw [hkeep.2.2.2, initQuotas_free hg hport]
    split
    case isTrue => rfl
    case isFalse hnot =>
      refine h.free port hport ?_
      by_cases hc : type = .counter
      · exact .inl hc
      · have hne : dev.function ≠ k := fun heq => hnot ⟨hc, heq.symm⟩
        have hlt := hset.resolve_left hc
        exact .inr (by omega)
  · rw [initStep_reserved hg hport k (h.reserved port hport), reserveUpTo, reserveUpTo,
      Finset.sum_range_succ]

theorem initUpTo_all (dev : SriovDev) (hg : type.granted = true) (quota guaranteed : Nat → Int) :
    InitUpTo dev type (dev.numVfs + 1) (initResAllocator dev type quota guaranteed) := by
  have hfold : ∀ k, InitUpTo dev type k ((List.range k).foldl
      (fun a t => reserveGuaranteed dev type t (initQuotas dev type t a))
      { quota, guaranteed,
        resFree := if type = .counter then I32.wrap (dev.maxCounters - 1) else 0 }) := by
    intro k
    induction k with
    | zero =>
      refine ⟨fun t ht => (by omega), fun t ht => (by omega), rfl, fun port hport hset => ?_,
        fun port hport => ?_⟩
      · obtain rfl : type = .counter := hset.resolve_right (by omega)
        obtain rfl : port = 0 := hport
        rfl
      · unfold ResAllocator.reserved
        split <;> rfl
    | succ k ih =>
      rw [range_succ, foldl_append]
      exact ih.step hg
  exact hfold _

/-! ## Soundness of the start -/

theorem reserveUpTo_bounds (dev : SriovDev) (type : ResType) (port : Nat) {b : Int}
    (hb : ∀ t < k, 0 ≤ slaveGuaranteed dev type t ∧
    slaveGuaranteed dev type t ≤ b) :
    0 ≤ reserveUpTo dev type port k ∧ reserveUpTo dev type port k ≤ k * b := by
  induction k with
  | zero => simp [reserveUpTo]
  | succ k ih =>
    obtain ⟨hlo, hhi⟩ := ih fun t ht => hb t (by omega)
    obtain ⟨hk, hk'⟩ := hb k (by omega)
    have hmul : ((k + 1 : Nat) : Int) * b = k * b + b := by push_cast; ring
    rw [reserveUpTo, Finset.sum_range_succ, ← reserveUpTo, hmul]
    split <;> omega

/-- The pools of an initialized allocator, when its terms are C integers and its reserve does
not wrap. -/
theorem InitUpTo.sound (h : InitUpTo dev type (dev.numVfs + 1) a)
    (hterms : ∀ t ≤ dev.numVfs, 0 ≤ slaveGuaranteed dev type t ∧
      slaveGuaranteed dev type t ≤ slaveQuota dev type t ∧ slaveQuota dev type t < 2 ^ 31)
    (hfree : initialFree dev type < 2 ^ 31)
    (hreserve : ∀ port, dev.HasPool type port → a.reserved port ≤ a.free port)
    (hwrap : ∀ port, dev.HasPool type port →
      0 ≤ reserveUpTo dev type port (dev.numVfs + 1) ∧
        reserveUpTo dev type port (dev.numVfs + 1) < 2 ^ 32) : PoolsSound dev type a where
  sound port hport := by
    refine ⟨?_, hreserve port hport, fun i _ => ?_⟩
    · have hlack : ∀ i : Fin (dev.numVfs + 1),
          GuaranteePool.lack (a.terms dev) i ((a.pool dev port).allocated i) =
            slaveGuaranteed dev type i := by
        intro i
        have hnonneg := (hterms i (Nat.lt_succ_iff.mp i.isLt)).1
        simp only [GuaranteePool.lack, ResAllocator.terms, ResAllocator.pool, h.allocated,
          h.guaranteed i i.isLt]
        omega
      have hsum : ∑ i ∈ dev.clients port, slaveGuaranteed dev type i =
          reserveUpTo dev type port (dev.numVfs + 1) := by
        rw [SriovDev.clients, Finset.sum_filter, reserveUpTo]
        exact Fin.sum_univ_eq_sum_range (fun t => if port = 0 ∨ dev.activePort t (port - 1) = true
          then slaveGuaranteed dev type t else 0) (dev.numVfs + 1)
      have hres : (a.pool dev port).reserved =
        uintWrap (reserveUpTo dev type port (dev.numVfs + 1)) :=
        h.reserved port hport
      obtain ⟨hlo, hhi⟩ := hwrap port hport
      simp only [hlack]
      rw [hsum, hres]
      unfold uintWrap
      omega
    · have hzero : (a.pool dev port).allocated i = 0 := by
        simp only [ResAllocator.pool, h.allocated]
      have hquota : (a.terms dev).quota i = slaveQuota dev type i := h.quota i i.isLt
      obtain ⟨hg, hgq, -⟩ := hterms i (Nat.lt_succ_iff.mp i.isLt)
      omega
  total_lt port hport := by
    have hzero : ∑ i ∈ dev.clients port, (a.pool dev port).allocated i = 0 :=
      Finset.sum_eq_zero fun i _ => by simp only [ResAllocator.pool, h.allocated]
    have hpool : (a.pool dev port).free = initialFree dev type :=
      h.free port hport (.inr (Nat.lt_succ_of_le dev.function_le))
    rw [GuaranteePool.total, hzero, hpool]
    omega
  terms t ht := by
    rw [h.guaranteed t (Nat.lt_succ_of_le ht), h.quota t (Nat.lt_succ_of_le ht)]
    exact hterms t ht

/-- A quotient that is rounded towards zero does not exceed its dividend. -/
theorem mul_tdiv_bounds (n : Int) {d : Int} (hd : 0 < d) :
    (0 ≤ n → 0 ≤ n.tdiv d ∧ d * n.tdiv d ≤ n) ∧ (n < 0 → n.tdiv d ≤ 0 ∧ n ≤ d * n.tdiv d) := by
  have hnonneg : ∀ m : Int, 0 ≤ m → 0 ≤ m.tdiv d ∧ d * m.tdiv d ≤ m := by
    intro m hm
    rw [Int.tdiv_eq_ediv_of_nonneg hm]
    exact ⟨Int.ediv_nonneg hm hd.le, Int.mul_ediv_self_le hd.ne'⟩
  refine ⟨hnonneg n, fun hn => ?_⟩
  obtain ⟨hlo, hhi⟩ := hnonneg (-n) (by omega)
  rw [Int.neg_tdiv] at hlo hhi
  rw [Int.mul_neg] at hhi
  omega

/-- The shares of all functions are at most half of what there is. -/
theorem share_bounds (dev : SriovDev) (type : ResType) :
    (0 ≤ numInstances dev type → 0 ≤ share dev type ∧
      share dev type ≤ (dev.numVfs + 1) * share dev type ∧
      2 * ((dev.numVfs + 1) * share dev type) ≤ numInstances dev type) ∧
    (numInstances dev type < 0 → numInstances dev type ≤ 2 * ((dev.numVfs + 1) * share dev type) ∧
      (dev.numVfs + 1) * share dev type ≤ 0) := by
  have hd : (0 : Int) < 2 * (dev.numVfs + 1) := by omega
  obtain ⟨hpos, hneg⟩ := mul_tdiv_bounds (numInstances dev type) hd
  have hmul : 2 * (dev.numVfs + 1) * share dev type = 2 * ((dev.numVfs + 1) * share dev type) :=
    Int.mul_assoc ..
  rw [← share, hmul] at hpos hneg
  refine ⟨fun hn => ?_, fun hn => ?_⟩
  · obtain ⟨hlo, hhi⟩ := hpos hn
    have hle : 0 ≤ (dev.numVfs : Int) * share dev type := Int.mul_nonneg (by omega) hlo
    have hsplit : ((dev.numVfs : Int) + 1) * share dev type =
        dev.numVfs * share dev type + share dev type := by ring
    omega
  · obtain ⟨hhi, hlo⟩ := hneg hn
    exact ⟨hlo, Int.mul_nonpos_of_nonneg_of_nonpos (by omega) hhi⟩

theorem numInstances_range (dev : SriovDev) (type : ResType) :
    -2 ^ 31 ≤ numInstances dev type ∧ numInstances dev type < 2 ^ 31 := by
  cases type <;>
    first
    | exact I32.wrap_range _
    | exact ⟨by simp [numInstances], by simp [numInstances]⟩

/-- What the functions lack at the start of an allocator without ports is their shares, and
what the firmware keeps of the MTTs. -/
theorem reserveUpTo_share (dev : SriovDev) (htype : type ∈ [ResType.qp, .cq, .srq, .mpt]) :
    reserveUpTo dev type 0 (dev.numVfs + 1) = (dev.numVfs + 1) * share dev type := by
  have hconst : ∀ t, slaveGuaranteed dev type t = share dev type := by
    intro t
    simp only [mem_cons, not_mem_nil, or_false] at htype
    rcases htype with rfl | rfl | rfl | rfl <;> rfl
  simp [reserveUpTo, hconst]

theorem reserveUpTo_mtt :
    reserveUpTo dev .mtt 0 (dev.numVfs + 1) = (dev.numVfs + 1) * share dev .mtt +
      (I32.wrap (share dev .mtt + dev.reservedMtts) - share dev .mtt) := by
  have hsplit : ∀ t, slaveGuaranteed dev .mtt t = share dev .mtt +
      if t = dev.function then I32.wrap (share dev .mtt + dev.reservedMtts) - share dev .mtt
      else 0 := by
    intro t
    unfold slaveGuaranteed
    dsimp only
    split <;> omega
  have hfun : dev.function ∈ Finset.range (dev.numVfs + 1) :=
    Finset.mem_range.mpr (Nat.lt_succ_of_le dev.function_le)
  simp only [reserveUpTo, true_or, if_true, hsplit, Finset.sum_add_distrib, Finset.sum_const,
    Finset.card_range, Finset.sum_ite_eq', hfun]
  simp

/-- The PF is active on every port, so that the count of a port is of one or two slaves. -/
theorem currentSlaves_bounds {j : Nat} (hj : j < dev.numPorts) :
    0 ≤ currentSlaves dev j ∧ currentSlaves dev j ≤ 1 := by
  have hports := dev.numPorts_le
  have hle : (List.range dev.numPorts).countP (fun i => i ≤ dev.numVfs && dev.activePort i j) ≤ 2 :=
    countP_le_length.trans (by simpa using hports)
  have hpos : 0 < (List.range dev.numPorts).countP fun i => i ≤ dev.numVfs &&
    dev.activePort i j := by
    rw [countP_pos_iff]
    exact ⟨0, mem_range.mpr (by omega), by simp [SriovDev.activePort, hj]⟩
  unfold currentSlaves uintWrap
  omega

theorem maxVfsPport_bounds (dev : SriovDev) : 0 ≤ maxVfsPport dev ∧ maxVfsPport dev ≤ 1 := by
  have hfold : ∀ (js : List Nat) (n : Int), (∀ j ∈ js, j < dev.numPorts) → 0 ≤ n → n ≤ 1 →
      0 ≤ js.foldl (fun n j => if uintWrap n < currentSlaves dev j then
        I32.wrap (currentSlaves dev j) else n) n ∧
      js.foldl (fun n j => if uintWrap n < currentSlaves dev j then
        I32.wrap (currentSlaves dev j) else n) n ≤ 1 := by
    intro js
    induction js with
    | nil => exact fun n _ hlo hhi => ⟨hlo, hhi⟩
    | cons j js ih =>
      intro n hjs hlo hhi
      obtain ⟨hc, hc'⟩ := currentSlaves_bounds (hjs j mem_cons_self)
      rw [foldl_cons]
      refine ih _ (fun j' hj' => hjs j' (mem_cons_of_mem j hj')) ?_ ?_
      · split
        case isTrue => rw [I32.wrap_of_range (by omega) (by omega)]; exact hc
        case isFalse => exact hlo
      · split
        case isTrue => rw [I32.wrap_of_range (by omega) (by omega)]; exact hc'
        case isFalse => exact hhi
  exact hfold _ 0 (fun j hj => mem_range.mp hj) (Int.le_refl 0) (by omega)

/-- Pools whose guarantees are small numbers. -/
theorem InitUpTo.sound_of_small (h : InitUpTo dev type (dev.numVfs + 1) a)
    (hterms : ∀ t ≤ dev.numVfs, 0 ≤ slaveGuaranteed dev type t ∧
      slaveGuaranteed dev type t ≤ slaveQuota dev type t ∧ slaveQuota dev type t < 2 ^ 31)
    (hsmall : ∀ t, slaveGuaranteed dev type t ≤ 64)
    (hfree : initialFree dev type < 2 ^ 31)
    (hreserve : ∀ port, dev.HasPool type port → a.reserved port ≤ a.free port) :
    PoolsSound dev type a := by
  have hvfs := dev.numVfs_le
  refine h.sound hterms hfree hreserve fun port _ => ?_
  obtain ⟨hlo, hhi⟩ := reserveUpTo_bounds dev type port
    (k := dev.numVfs + 1) (b := 64) fun t ht => ⟨(hterms t (by omega)).1, hsmall t⟩
  omega

/-- The counters. A guarantee is part of the reserve, and so of the pool. -/
theorem InitUpTo.sound_counter (h : InitUpTo dev .counter (dev.numVfs + 1) a)
    (hmax : dev.maxCounters < 2 ^ 31)
    (hreserve : ∀ port, dev.HasPool .counter port → a.reserved port ≤ a.free port) :
    PoolsSound dev .counter a := by
  have hvfs := dev.numVfs_le
  have hpool : dev.HasPool .counter 0 := rfl
  have hsmall : ∀ t, 0 ≤ slaveGuaranteed dev .counter t ∧ slaveGuaranteed dev .counter t ≤ 4 := by
    intro t
    unfold slaveGuaranteed
    dsimp only
    split <;> [omega; split <;> omega]
  have hquota : ∀ t, slaveQuota dev .counter t = dev.maxCounters := fun t =>
    I32.wrap_of_range (by omega) (by omega)
  have hcover := hreserve 0 hpool
  rw [h.reserved 0 hpool, h.free 0 hpool (.inl rfl), initialFree,
    I32.wrap_of_range (by omega) (by omega)] at hcover
  obtain ⟨hlo, hhi⟩ := reserveUpTo_bounds dev .counter 0 (b := 4)
    (k := dev.numVfs + 1) fun t _ => hsmall t
  refine h.sound_of_small (fun t ht => ?_) (fun t => ?_) ?_ hreserve
  · have hone : slaveGuaranteed dev .counter t ≤ reserveUpTo dev .counter 0 (dev.numVfs + 1) := by
      have hmem : t ∈ Finset.range (dev.numVfs + 1) := Finset.mem_range.mpr (by omega)
      have := Finset.single_le_sum (f := fun t => slaveGuaranteed dev .counter t)
        (fun t _ => (hsmall t).1) hmem
      simpa [reserveUpTo] using this
    rw [hquota]
    have := hsmall t
    unfold uintWrap at hcover
    omega
  · have := hsmall t
    omega
  · exact (I32.wrap_range _).2

/-- The initial reserve of the functions, where their pool covers it, makes a sound allocator. -/
theorem initResAllocator_sound (hg : type.granted = true) (quota guaranteed : Nat → Int)
    (hcounter : type = .counter → dev.maxCounters < 2 ^ 31)
    (hreserve : ∀ port, dev.HasPool type port →
      (initResAllocator dev type quota guaranteed).reserved port ≤
        (initResAllocator dev type quota guaranteed).free port) :
    PoolsSound dev type (initResAllocator dev type quota guaranteed) := by
  have h := initUpTo_all dev hg quota guaranteed
  have hrm := dev.reservedMtts_lt
  obtain ⟨hn, hn'⟩ := numInstances_range dev type
  obtain ⟨hpos, hneg⟩ := share_bounds dev type
  obtain ⟨hhalf, -⟩ := mul_tdiv_bounds (numInstances dev type) (by omega : (0 : Int) < 2)
  -- equal shares of what there is
  have hshares : type ∈ [ResType.qp, .cq, .srq, .mpt] →
      PoolsSound dev type (initResAllocator dev type quota guaranteed) := by
    intro htype
    have hsum := reserveUpTo_share dev htype
    have hclosed : dev.HasPool type 0 ∧ (∀ port, dev.HasPool type port → port = 0) ∧
        initialFree dev type = numInstances dev type ∧
        (∀ t, slaveGuaranteed dev type t = share dev type) ∧
        ∀ t, slaveQuota dev type t =
          I32.wrap ((numInstances dev type).tdiv 2 + share dev type) := by
      simp only [mem_cons, not_mem_nil, or_false] at htype
      rcases htype with rfl | rfl | rfl | rfl <;>
        exact ⟨rfl, fun _ hport => hport, rfl, fun _ => rfl, fun _ => rfl⟩
    obtain ⟨hpool, honly, hfree, hguar, hquota⟩ := hclosed
    have hcover := hreserve 0 hpool
    rw [h.reserved 0 hpool, h.free 0 hpool (.inr (Nat.lt_succ_of_le dev.function_le)), hsum,
      hfree] at hcover
    have hnonneg : 0 ≤ numInstances dev type := by
      unfold uintWrap at hcover
      omega
    refine h.sound (fun t _ => ?_) (by omega) hreserve fun port hport => ?_
    · rw [hguar, hquota, I32.wrap_of_range (by omega) (by omega)]
      omega
    · rw [honly port hport, hsum]
      omega
  cases type <;> try cases hg
  case mtt =>
    have hpool : dev.HasPool .mtt 0 := rfl
    have hcover := hreserve 0 hpool
    rw [h.reserved 0 hpool, h.free 0 hpool (.inr (Nat.lt_succ_of_le dev.function_le)),
      reserveUpTo_mtt] at hcover
    have hnonneg : 0 ≤ numInstances dev .mtt ∧ numInstances dev .mtt + dev.reservedMtts
      < 2 ^ 31 := by
      unfold initialFree uintWrap I32.wrap at hcover
      dsimp only at hcover
      omega
    have hpf : I32.wrap (share dev .mtt + dev.reservedMtts) = share dev .mtt + dev.reservedMtts :=
      I32.wrap_of_range (by omega) (by omega)
    have hvf : I32.wrap ((numInstances dev .mtt).tdiv 2 + share dev .mtt) =
        (numInstances dev .mtt).tdiv 2 + share dev .mtt := I32.wrap_of_range (by omega) (by omega)
    refine h.sound (fun t _ => ?_) ?_ hreserve fun port hport => ?_
    · unfold slaveGuaranteed slaveQuota
      dsimp only
      rw [hvf, hpf]
      by_cases ht : t = dev.function
      · rw [if_pos ht, if_pos ht, I32.wrap_of_range (by omega) (by omega)]
        omega
      · omega
    · exact (I32.wrap_range _).2
    · obtain rfl : port = 0 := hport
      rw [reserveUpTo_mtt, hpf]
      omega
  case mac =>
    obtain ⟨hlo, hhi⟩ := maxVfsPport_bounds dev
    have hquota : ∀ t, slaveQuota dev .mac t = 128 ∨
        slaveQuota dev .mac t = 128 - 2 * maxVfsPport dev := by
      intro t
      unfold slaveQuota
      dsimp only
      split
      case isTrue =>
        rw [I32.wrap_of_range (n := 2 * maxVfsPport dev) (by omega) (by omega),
          I32.wrap_of_range (by omega) (by omega)]
        exact .inr rfl
      case isFalse => exact .inl rfl
    refine h.sound_of_small (fun t _ => ?_) (fun t => ?_) (by simp [initialFree]) hreserve
    · have := hquota t
      have hguar : slaveGuaranteed dev .mac t = 2 := rfl
      omega
    · have hguar : slaveGuaranteed dev .mac t = 2 := rfl
      omega
  case vlan =>
    have hterms : ∀ t, (slaveGuaranteed dev .vlan t = 64 ∧ slaveQuota dev .vlan t = 128) ∨
        (slaveGuaranteed dev .vlan t = 0 ∧ slaveQuota dev .vlan t = 64) := by
      intro t
      by_cases ht : t = dev.function
      · exact .inl ⟨if_pos ht, if_pos ht⟩
      · exact .inr ⟨if_neg ht, if_neg ht⟩
    refine h.sound_of_small (fun t _ => ?_) (fun t => ?_) (by simp [initialFree]) hreserve
    · have := hterms t
      omega
    · have := hterms t
      omega
  case counter => exact h.sound_counter (hcounter rfl) hreserve
  all_goals exact hshares (by simp)

/-- From an initial reserve that its pool covers, every resource keeps its guarantees, as long as
no request overflows. -/
theorem guarantees_every_run (dev : SriovDev) (type : ResType) {allocs : ResType → ResAllocator}
    {slaveList : Bool}
    {kalloc : ResType → Bool} {quota guaranteed : ResType → Nat → Int}
    (hinit : initResourceTracker dev slaveList kalloc quota guaranteed = .ok allocs)
    (hg : type.granted = true)
    (hreserve : ∀ port, dev.HasPool type port →
      (allocs type).reserved port ≤ (allocs type).free port)
    (hcounter : type = .counter → dev.maxCounters < 2 ^ 31) (calls : List AllocCall)
    (hvalid : Run.Steps (allocStep dev) (fun a call => call.Valid dev type a) (allocs type) calls)
    (hfits : Run.Steps (allocStep dev) (fun a call => call.Fits dev a) (allocs type) calls) :
    ∀ a ∈ Run.states (allocStep dev) (allocs type) calls, Guarantees dev type a := by
  have hstart : allocs type = initResAllocator dev type (quota type) (guaranteed type) := by
    unfold initResourceTracker at hinit
    dsimp only at hinit
    split at hinit
    case isTrue => rw [← Except.ok.inj hinit]
    case isFalse => cases hinit
  have h0 : PoolsSound dev type (allocs type) := by
    rw [hstart] at hreserve ⊢
    exact initResAllocator_sound hg _ _ hcounter hreserve
  have hstep : ∀ a call, PoolsSound dev type a → (call.Valid dev type a ∧ call.Fits dev a) →
      PoolsSound dev type (allocStep dev a call) := fun a call h hok => h.step call hok.1 hok.2
  have hrun := (Run.steps_and.mpr ⟨hvalid, hfits⟩).invariant hstep h0
  exact fun a ha => (hrun a ha).guarantees

/-- One VF, and as many MTTs as an `int` can count. -/
def mttDev : SriovDev where
  numVfs := 1
  numVfs_le := by decide
  function := 0
  function_le := by decide
  numPorts := 1
  numPorts_le := by decide
  minPort _ := 1
  nPorts _ := 1
  numQps := 0
  reservedQps := 0
  baseSqpn := 0
  numCqs := 0
  reservedCqs := 0
  numSrqs := 0
  reservedSrqs := 0
  numMpts := 0
  reservedMrws := 0
  numMtts := 2 ^ 31 - 1
  reservedMtts := 0
  reservedMtts_lt := by decide
  maxCounters := 128
  maxCounters_lt := by decide

/-- Its allocators, where the arrays of quotas happened to be zero. -/
def mttAllocs (type : ResType) : ResAllocator :=
  initResAllocator mttDev type (fun _ => 0) (fun _ => 0)

/-- The VF takes eight MTTs and gives them back. -/
theorem guarantees_every_run_mtt :
    initResourceTracker mttDev true (fun _ => true) (fun _ _ => 0) (fun _ _ => 0) =
      .ok mttAllocs ∧
    ∀ a ∈ Run.states (allocStep mttDev) (mttAllocs .mtt) [.grant 1 8 0, .release 1 8 0],
      Guarantees mttDev .mtt a :=
  ⟨rfl,
    guarantees_every_run mttDev .mtt (show initResourceTracker mttDev true (fun _ => true)
      (fun _ _ => 0) (fun _ _ => 0) = .ok mttAllocs from rfl) rfl
      (fun port hport => by
        obtain rfl : port = 0 := hport
        decide +kernel) (fun h => by cases h) _ (by decide +kernel) (by decide +kernel)⟩

/-- A second request for `2 ^ 30` MTTs overflows the check of the quota: it is granted, and
the pool is overdrawn. -/
theorem guarantees_lost_by_overflow :
    initResourceTracker mttDev true (fun _ => true) (fun _ _ => 0) (fun _ _ => 0) =
      .ok mttAllocs ∧
    (mttAllocs .mtt).reserved 0 ≤ (mttAllocs .mtt).free 0 ∧
    Run.Steps (allocStep mttDev) (fun a call => call.Valid mttDev .mtt a) (mttAllocs .mtt)
      [.grant 1 (2 ^ 30) 0, .grant 1 (2 ^ 30) 0] ∧
    ¬ ∀ a ∈ Run.states (allocStep mttDev) (mttAllocs .mtt)
      [.grant 1 (2 ^ 30) 0, .grant 1 (2 ^ 30) 0], Guarantees mttDev .mtt a := by
  refine ⟨rfl, ?_, ?_, fun h => ?_⟩
  · decide +kernel
  · decide +kernel
  have hlast := h _ (Run.final_mem_states _ _)
  have hcovered := hlast.covered 0 rfl
  revert hcovered
  decide +kernel

end

end Mlx4
