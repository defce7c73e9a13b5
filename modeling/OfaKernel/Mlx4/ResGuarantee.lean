-- SUMMARY: The guarantees of the mlx4 resource allocators over all runs.
import Mathlib.Algebra.BigOperators.Fin
import OfaKernel.Mlx4.ResAlloc

/-!
# Guarantees of the resource allocators

As long as no sum of a count and a request overflows, a grant is a transfer in a `GuaranteePool`
and a release the transfer back.
-/

namespace Mlx4

def ResType.perPort : ResType → Bool
  | .mac | .vlan => true
  | _ => false

/-- The resources that functions are granted. -/
def ResType.granted : ResType → Bool
  | .qp | .cq | .srq | .mpt | .mtt | .mac | .vlan | .counter => true
  | _ => false

/-- The pools of a resource, by the port they are for. -/
def SriovDev.HasPool (dev : SriovDev) (type : ResType) (port : Nat) : Prop :=
  if type.perPort then 0 < port ∧ port ≤ dev.numPorts else port = 0

/-- The functions that share a pool. -/
def SriovDev.clients (dev : SriovDev) (port : Nat) : Finset (Fin (dev.numVfs + 1)) :=
  Finset.univ.filter fun i => port = 0 ∨ dev.activePort i (port - 1) = true

namespace ResAllocator

def terms (dev : SriovDev) (a : ResAllocator) : GuaranteeTerms (Fin (dev.numVfs + 1)) where
  guaranteed i := a.guaranteed i
  quota i := a.quota i

def pool (dev : SriovDev) (a : ResAllocator) (port : Nat) :
    GuaranteePool (Fin (dev.numVfs + 1)) where
  allocated i := a.allocated (allocatedIndex dev i port)
  free := a.free port
  reserved := a.reserved port

end ResAllocator

structure PoolsSound (dev : SriovDev) (type : ResType) (a : ResAllocator) : Prop where
  sound : ∀ port, dev.HasPool type port →
    (a.pool dev port).Sound (a.terms dev) (dev.clients port)
  total_lt : ∀ port, dev.HasPool type port → (a.pool dev port).total (dev.clients port) < 2 ^ 31
  terms : ∀ i ≤ dev.numVfs, 0 ≤ a.guaranteed i ∧ a.guaranteed i ≤ a.quota i ∧ a.quota i < 2 ^ 31

section

variable {dev : SriovDev} {type : ResType} {a a' : ResAllocator} {i : Fin (dev.numVfs + 1)}
  {port : Nat} {c : Int}

/-! ## One pool -/

theorem allocatedIndex_inj {i j : Fin (dev.numVfs + 1)} {port port' : Nat}
    (hports : 0 < port ↔ 0 < port') (h : allocatedIndex dev i port = allocatedIndex dev j port') :
    i = j ∧ port = port' := by
  have hi := i.isLt
  have hj := j.isLt
  unfold allocatedIndex at h
  split at h
  case isTrue hpos =>
    rw [if_pos (hports.mp hpos), Nat.mul_comm, Nat.mul_comm (port' - 1)] at h
    have hrow : port - 1 = port' - 1 := by
      have := congrArg (· / (dev.numVfs + 1)) h
      simpa [Nat.mul_add_div, Nat.div_eq_of_lt hi, Nat.div_eq_of_lt hj] using this
    have hslave : (i : Nat) = j := by rw [hrow] at h; omega
    exact ⟨Fin.ext hslave, by have := hports.mp hpos; omega⟩
  case isFalse hpos =>
    rw [if_neg fun hpos' => hpos (hports.mpr hpos')] at h
    exact ⟨Fin.ext h, by have := mt hports.mpr hpos; omega⟩

theorem SriovDev.HasPool.pos_iff {port' : Nat} (h : dev.HasPool type port)
    (h' : dev.HasPool type port') : 0 < port ↔ 0 < port' := by
  unfold SriovDev.HasPool at h h'
  split at h <;> simp_all

theorem ResAllocator.move_pool (r : Int) :
    (a.move dev i port c r).pool dev port =
      { allocated := Function.update (a.pool dev port).allocated i
          (I32.wrap ((a.pool dev port).allocated i + c))
        free := I32.wrap (a.free port - c)
        reserved := uintWrap (a.reserved port - r) } := by
  have hupdate : ∀ v, (fun j : Fin (dev.numVfs + 1) => Function.update a.allocated
      (allocatedIndex dev i port) v (allocatedIndex dev j port)) =
        Function.update (a.pool dev port).allocated i v := by
    intro v
    funext j
    by_cases hij : j = i
    · subst hij
      simp
    · have hne : allocatedIndex dev j port ≠ allocatedIndex dev i port :=
        fun h => hij (allocatedIndex_inj Iff.rfl h).1
      simp [hij, hne, ResAllocator.pool]
  unfold ResAllocator.move ResAllocator.pool ResAllocator.free ResAllocator.reserved
  split
  case isTrue => simp [hupdate, ResAllocator.pool]
  case isFalse => simp [hupdate, ResAllocator.pool]

/-- The pools of the other ports do not change. -/
theorem ResAllocator.move_pool_of_ne {port' : Nat} (hports : 0 < port ↔ 0 < port')
    (hne : port' ≠ port) (r : Int) :
    (a.move dev i port c r).pool dev port' = a.pool dev port' := by
  have hindex : ∀ j : Fin (dev.numVfs + 1),
      allocatedIndex dev j port' ≠ allocatedIndex dev i port :=
    fun j h => hne (allocatedIndex_inj hports.symm h).2
  have hpos : 0 < port := by omega
  have hpos' : 0 < port' := hports.mp hpos
  have hrow : port' - 1 ≠ port - 1 := by omega
  unfold ResAllocator.move ResAllocator.pool ResAllocator.free ResAllocator.reserved
  simp [hpos, hindex, hrow]

@[simp]
theorem ResAllocator.move_terms (r : Int) : (a.move dev i port c r).terms dev = a.terms dev := by
  unfold ResAllocator.move
  split <;> rfl

/-- The part of a transfer that is taken out of the reserve. -/
def ResAllocator.fromRsvd (dev : SriovDev) (a : ResAllocator) (i : Fin (dev.numVfs + 1))
    (port : Nat) (c : Int) : Int :=
  GuaranteePool.lack (a.terms dev) i ((a.pool dev port).allocated i) -
    GuaranteePool.lack (a.terms dev) i ((a.pool dev port).allocated i + c)

/-- All values of a sound pool, and what they make of a request, are C integers. -/
structure PoolRange (dev : SriovDev) (a : ResAllocator) (i : Fin (dev.numVfs + 1)) (port : Nat) :
    Prop where
  allocated : 0 ≤ (a.pool dev port).allocated i ∧ (a.pool dev port).allocated i ≤ a.quota i
  terms : 0 ≤ a.guaranteed i ∧ a.guaranteed i ≤ a.quota i ∧ a.quota i < 2 ^ 31
  reserved : 0 ≤ a.reserved port ∧ a.reserved port ≤ a.free port ∧ a.free port < 2 ^ 31
  lack : GuaranteePool.lack (a.terms dev) i ((a.pool dev port).allocated i) ≤ a.reserved port

theorem PoolsSound.range (h : PoolsSound dev type a) (hport : dev.HasPool type port)
    (hi : i ∈ dev.clients port) : PoolRange dev a i port where
  allocated := (h.sound port hport).bounds i hi
  terms := h.terms i (Nat.lt_succ_iff.mp i.isLt)
  reserved := by
    have hfree : a.free port + (a.pool dev port).allocated i ≤ (a.pool dev port).total _ :=
      (h.sound port hport).free_add_le_total hi
    have hnonneg := ((h.sound port hport).bounds i hi).1
    have hlt := h.total_lt port hport
    exact ⟨(h.sound port hport).reserved_nonneg, (h.sound port hport).covered, by omega⟩
  lack := (h.sound port hport).lack_le_reserved hi

theorem PoolRange.move_pool (h : PoolRange dev a i port)
    (hsum : 0 ≤ (a.pool dev port).allocated i + c ∧ (a.pool dev port).allocated i + c < 2 ^ 31)
    (hfree : -2 ^ 31 ≤ a.free port - c ∧ a.free port - c < 2 ^ 31) :
    (a.move dev i port c (a.fromRsvd dev i port c)).pool dev port =
      (a.pool dev port).transfer (a.terms dev) i c := by
  have hterms := h.terms
  have hrsvd := h.reserved
  have hlack := h.lack
  have hlack' := GuaranteePool.lack_nonneg (a.terms dev) i
    ((a.pool dev port).allocated i + c)
  have hnonneg := GuaranteePool.lack_nonneg (a.terms dev) i ((a.pool dev port).allocated i)
  have hle : GuaranteePool.lack (a.terms dev) i ((a.pool dev port).allocated i + c) ≤
      a.guaranteed i := by
    simp only [GuaranteePool.lack, ResAllocator.terms]
    omega
  rw [ResAllocator.move_pool, I32.wrap_of_range (by omega) (by omega),
    I32.wrap_of_range (by omega) (by omega)]
  have hu : uintWrap (a.reserved port - a.fromRsvd dev i port c) =
      a.reserved port - a.fromRsvd dev i port c := by
    unfold uintWrap ResAllocator.fromRsvd
    omega
  rw [hu]
  rfl

/-- A request is granted if it is within the quota and leaves the reserve covered. -/
theorem PoolRange.grantResource_eq (h : PoolRange dev a i port) (hc : 0 ≤ c)
    (hfit : (a.pool dev port).allocated i + c < 2 ^ 31) :
    grantResource dev a i c port =
      if (a.pool dev port).allocated i + c ≤ a.quota i ∧
          a.reserved port - a.fromRsvd dev i port c ≤ a.free port - c then
        .ok (a.move dev i port c (a.fromRsvd dev i port c))
      else .error .edquot := by
  obtain ⟨hg, hgq, hq⟩ := h.terms
  obtain ⟨hr, hrf, hf⟩ := h.reserved
  have hlack := h.lack
  have hslave : ¬ dev.numVfs < (i : Nat) := by have := i.isLt; omega
  have halloc : a.allocated (allocatedIndex dev i port) = (a.pool dev port).allocated i := rfl
  have hguar : (a.terms dev).guaranteed i = a.guaranteed i := rfl
  unfold grantResource
  rw [if_neg hslave]
  simp only [halloc, ResAllocator.fromRsvd, GuaranteePool.lack, hguar] at hlack ⊢
  generalize (a.pool dev port).allocated i = n at *
  rw [I32.wrap_of_range (n := n + c) (by omega) (by omega)]
  by_cases hquota : a.quota i < n + c
  · rw [if_pos hquota, if_neg (by omega)]
  rw [if_neg hquota, I32.wrap_of_range (n := a.reserved port) (by omega) (by omega),
    I32.wrap_of_range (n := a.guaranteed i - n) (by omega) (by omega)]
  -- within the guarantee, across its end, and beyond it
  by_cases hwithin : n + c ≤ a.guaranteed i
  · have hall : max (a.guaranteed i - n) 0 - max (a.guaranteed i - (n + c)) 0 = c := by omega
    rw [if_pos hwithin, hall, if_pos (by omega)]
  rw [if_neg hwithin]
  by_cases hacross : 0 < a.guaranteed i - n
  · have hpart : max (a.guaranteed i - n) 0 - max (a.guaranteed i - (n + c)) 0 =
        c - (c - (a.guaranteed i - n)) := by omega
    rw [if_pos hacross, I32.wrap_of_range (n := c - (a.guaranteed i - n)) (by omega) (by omega),
      I32.wrap_of_range (n := c - (c - (a.guaranteed i - n))) (by omega) (by omega),
      I32.wrap_of_range (n := a.free port - (c - (a.guaranteed i - n))) (by omega) (by omega),
      hpart]
    exact if_congr (by omega) rfl rfl
  · have hnone : max (a.guaranteed i - n) 0 - max (a.guaranteed i - (n + c)) 0 = c - c := by
      omega
    rw [if_neg hacross, I32.wrap_of_range (n := c - c) (by omega) (by omega),
      I32.wrap_of_range (n := a.free port - c) (by omega) (by omega), hnone]
    exact if_congr (by omega) rfl rfl

theorem PoolRange.grantResource_ok (h : PoolRange dev a i port) (hc : 0 ≤ c)
    (hquota : (a.pool dev port).allocated i + c ≤ a.quota i)
    (hcovered : a.reserved port - a.fromRsvd dev i port c ≤ a.free port - c) :
    grantResource dev a i c port = .ok (a.move dev i port c (a.fromRsvd dev i port c)) := by
  obtain ⟨-, -, hq⟩ := h.terms
  rw [h.grantResource_eq hc (by omega), if_pos ⟨hquota, hcovered⟩]

/-- All other requests are refused. -/
theorem PoolRange.grantResource_error (h : PoolRange dev a i port) (hc : 0 ≤ c)
    (hfit : (a.pool dev port).allocated i + c < 2 ^ 31)
    (hnot : (a.pool dev port).allocated i + c ≤ a.quota i →
      ¬ a.reserved port - a.fromRsvd dev i port c ≤ a.free port - c) :
    grantResource dev a i c port = .error .edquot := by
  rw [h.grantResource_eq hc hfit, if_neg (not_and.mpr hnot)]

/-- A release of what a function has is the move back. -/
theorem PoolRange.releaseResource_eq (h : PoolRange dev a i port) (hc : 0 ≤ c)
    (hle : c ≤ (a.pool dev port).allocated i) :
    releaseResource dev a i c port = a.move dev i port (-c) (a.fromRsvd dev i port (-c)) := by
  obtain ⟨hnonneg, hquota⟩ := h.allocated
  obtain ⟨hg, hgq, hq⟩ := h.terms
  have hslave : ¬ dev.numVfs < (i : Nat) := by have := i.isLt; omega
  have halloc : a.allocated (allocatedIndex dev i port) = (a.pool dev port).allocated i := rfl
  have hguar : (a.terms dev).guaranteed i = a.guaranteed i := rfl
  unfold releaseResource
  rw [if_neg hslave]
  simp only [halloc, ResAllocator.fromRsvd, GuaranteePool.lack, hguar]
  set n := (a.pool dev port).allocated i
  congr 1
  rw [I32.wrap_of_range (n := n - c) (by omega) (by omega),
    I32.wrap_of_range (n := n - a.guaranteed i) (by omega) (by omega)]
  split
  case isTrue => omega
  case isFalse =>
    split
    case isTrue =>
      rw [I32.wrap_of_range (by omega) (by omega)]
      omega
    case isFalse => omega

/-- Moving units there and back changes nothing, whatever wraps on the way. -/
theorem PoolRange.move_move_neg (h : PoolRange dev a i port) (c r : Int) :
    (a.move dev i port c r).move dev i port (-c) (-r) = a := by
  obtain ⟨hr, hrf, hf⟩ := h.reserved
  have halloc : 0 ≤ a.allocated (allocatedIndex dev i port) ∧
      a.allocated (allocatedIndex dev i port) < 2 ^ 31 :=
    ⟨h.allocated.1, h.allocated.2.trans_lt h.terms.2.2⟩
  have hback : ∀ x : Int, -2 ^ 31 ≤ x → x < 2 ^ 31 → ∀ c : Int,
      I32.wrap (I32.wrap (x + c) + -c) = x := by
    unfold I32.wrap
    omega
  have hfree : ∀ x : Int, -2 ^ 31 ≤ x → x < 2 ^ 31 → I32.wrap (I32.wrap (x - c) - -c) = x := by
    unfold I32.wrap
    omega
  have hrsvd : ∀ x : Int, 0 ≤ x → x < 2 ^ 32 → uintWrap (uintWrap (x - r) - -r) = x := by
    unfold uintWrap
    omega
  simp only [ResAllocator.reserved, ResAllocator.free] at hr hrf hf halloc
  unfold ResAllocator.move
  by_cases hpos : 0 < port
  · simp only [hpos, if_true] at hr hrf hf ⊢
    simp only [Function.update_self, Function.update_idem]
    rw [hback _ (by omega) (by omega), hfree _ (by omega) (by omega),
      hrsvd _ (by omega) (by omega)]
    simp
  · simp only [hpos, if_false] at hr hrf hf ⊢
    simp only [Function.update_self, Function.update_idem]
    rw [hback _ (by omega) (by omega), hfree _ (by omega) (by omega),
      hrsvd _ (by omega) (by omega)]
    simp

theorem PoolsSound.of_move {r : Int} (h : PoolsSound dev type a) (hport : dev.HasPool type port)
    (hsound : ((a.move dev i port c r).pool dev port).Sound (a.terms dev) (dev.clients port))
    (htotal : ((a.move dev i port c r).pool dev port).total (dev.clients port) < 2 ^ 31) :
    PoolsSound dev type (a.move dev i port c r) where
  sound port' hport' := by
    rw [ResAllocator.move_terms]
    by_cases hne : port' = port
    · rw [hne]
      exact hsound
    · rw [ResAllocator.move_pool_of_ne (hport.pos_iff hport') hne]
      exact h.sound port' hport'
  total_lt port' hport' := by
    by_cases hne : port' = port
    · rw [hne]
      exact htotal
    · rw [ResAllocator.move_pool_of_ne (hport.pos_iff hport') hne]
      exact h.total_lt port' hport'
  terms j hj := by
    have hterms : (a.move dev i port c r).terms dev = a.terms dev := ResAllocator.move_terms r
    have hg : (a.move dev i port c r).guaranteed j = a.guaranteed j :=
      congrFun (congrArg GuaranteeTerms.guaranteed hterms) ⟨j, Nat.lt_succ_of_le hj⟩
    have hq : (a.move dev i port c r).quota j = a.quota j :=
      congrFun (congrArg GuaranteeTerms.quota hterms) ⟨j, Nat.lt_succ_of_le hj⟩
    rw [hg, hq]
    exact h.terms j hj

theorem PoolsSound.grant (h : PoolsSound dev type a) (hport : dev.HasPool type port)
    (hi : i ∈ dev.clients port) (hc : 0 ≤ c)
    (hquota : (a.pool dev port).allocated i + c ≤ a.quota i)
    (hcovered : a.reserved port - a.fromRsvd dev i port c ≤ a.free port - c) :
    PoolsSound dev type (a.move dev i port c (a.fromRsvd dev i port c)) := by
  have hrange := h.range hport hi
  have hnonneg := hrange.allocated.1
  have hq := hrange.terms.2.2
  have hf := hrange.reserved
  have hpool := hrange.move_pool (c := c) ⟨by omega, by omega⟩ ⟨by omega, by omega⟩
  refine h.of_move hport ?_ ?_
  · rw [hpool]
    exact (h.sound port hport).transfer hi (by omega) hquota hcovered
  · rw [hpool, GuaranteePool.total_transfer hi]
    exact h.total_lt port hport

theorem PoolsSound.release (h : PoolsSound dev type a) (hport : dev.HasPool type port)
    (hi : i ∈ dev.clients port) (hc : 0 ≤ c) (hle : c ≤ (a.pool dev port).allocated i) :
    PoolsSound dev type (a.move dev i port (-c) (a.fromRsvd dev i port (-c))) := by
  have hrange := h.range hport hi
  have hf := hrange.reserved
  have htotal : a.free port + (a.pool dev port).allocated i ≤ (a.pool dev port).total _ :=
    (h.sound port hport).free_add_le_total hi
  have hlt := h.total_lt port hport
  have hpool := hrange.move_pool (c := -c) ⟨by omega, by omega⟩ ⟨by omega, by omega⟩
  refine h.of_move hport ?_ ?_
  · rw [hpool]
    exact (h.sound port hport).giveBack hi hc hle
  · rw [hpool, GuaranteePool.total_transfer hi]
    exact hlt

theorem PoolsSound.grantResource_cases (h : PoolsSound dev type a)
    (hport : dev.HasPool type port) (hi : i ∈ dev.clients port) (hc : 0 ≤ c)
    (hfit : (a.pool dev port).allocated i + c < 2 ^ 31) :
    (grantResource dev a i c port = .ok (a.move dev i port c (a.fromRsvd dev i port c)) ∧
      PoolsSound dev type (a.move dev i port c (a.fromRsvd dev i port c))) ∨
    grantResource dev a i c port = .error .edquot := by
  have hrange := h.range hport hi
  by_cases hok : (a.pool dev port).allocated i + c ≤ a.quota i ∧
      a.reserved port - a.fromRsvd dev i port c ≤ a.free port - c
  · exact .inl ⟨hrange.grantResource_ok hc hok.1 hok.2, h.grant hport hi hc hok.1 hok.2⟩
  · exact .inr (hrange.grantResource_error hc hfit fun hquota hcov => hok ⟨hquota, hcov⟩)

theorem PoolsSound.grants_guaranteed (h : PoolsSound dev type a) (hport : dev.HasPool type port)
    (hi : i ∈ dev.clients port) (hc : 0 ≤ c)
    (hwithin : (a.pool dev port).allocated i + c ≤ a.guaranteed i) :
    ∃ a', grantResource dev a i c port = .ok a' := by
  have hrange := h.range hport hi
  have hgq := hrange.terms.2.1
  exact ⟨_, hrange.grantResource_ok hc (hwithin.trans hgq)
    ((h.sound port hport).covered_of_guaranteed hc hwithin)⟩

theorem PoolsSound.release_grant (h : PoolsSound dev type a) (hport : dev.HasPool type port)
    (hi : i ∈ dev.clients port) (hc : 0 ≤ c)
    (hfit : (a.pool dev port).allocated i + c < 2 ^ 31)
    (hgrant : grantResource dev a i c port = .ok a') : releaseResource dev a' i c port = a := by
  have hrange := h.range hport hi
  rcases h.grantResource_cases hport hi hc hfit with ⟨hok, hsound⟩ | herr
  · obtain rfl := Except.ok.inj (hok.symm.trans hgrant)
    have hnonneg := hrange.allocated.1
    set r := a.fromRsvd dev i port c with hr
    have hhas : ((a.move dev i port c r).pool dev port).allocated i =
        (a.pool dev port).allocated i + c := by
      rw [ResAllocator.move_pool]
      dsimp only
      rw [Function.update_self, I32.wrap_of_range (by omega) hfit]
    rw [(hsound.range hport hi).releaseResource_eq hc (by omega)]
    -- what came out of the reserve goes back into it
    have hback : (a.move dev i port c r).fromRsvd dev i port (-c) = -r := by
      rw [ResAllocator.fromRsvd, hhas, ResAllocator.move_terms, Int.add_neg_cancel_right, hr,
        ResAllocator.fromRsvd]
      omega
    rw [hback, hrange.move_move_neg]
  · rw [herr] at hgrant
    cases hgrant

/-! ## Runs -/

/-- A grant to a function or a release by it, at a port (0 if the resource has none). -/
inductive AllocCall where
  | grant (slave : Nat) (count : Int) (port : Nat)
  | release (slave : Nat) (count : Int) (port : Nat)

def allocStep (dev : SriovDev) (a : ResAllocator) : AllocCall → ResAllocator
  | .grant slave count port =>
    match grantResource dev a slave count port with
    | .ok a => a
    | .error _ => a
  | .release slave count port => releaseResource dev a slave count port

/-- The ports at which a function may draw from a pool. -/
def SriovDev.Serves (dev : SriovDev) (type : ResType) (slave port : Nat) : Prop :=
  dev.HasPool type port ∧ (port = 0 ∨ dev.activePort slave (port - 1) = true)

/-- Counts are not negative, a port is one of the function, and what is released was granted. -/
def AllocCall.Valid (dev : SriovDev) (type : ResType) (a : ResAllocator) : AllocCall → Prop
  | .grant slave count port => 0 ≤ count ∧ dev.Serves type slave port
  | .release slave count port =>
    0 ≤ count ∧ dev.Serves type slave port ∧ count ≤ a.allocated (allocatedIndex dev slave port)

/-- The sum of what a function has and what it asks for is an `int`. -/
def AllocCall.Fits (dev : SriovDev) (a : ResAllocator) : AllocCall → Prop
  | .grant slave count port => a.allocated (allocatedIndex dev slave port) + count < 2 ^ 31
  | .release .. => True

instance (dev : SriovDev) (type : ResType) (port : Nat) : Decidable (dev.HasPool type port) :=
  inferInstanceAs (Decidable (if type.perPort then _ else _))

instance (dev : SriovDev) (type : ResType) (slave port : Nat) :
    Decidable (dev.Serves type slave port) :=
  inferInstanceAs (Decidable (_ ∧ _))

instance (dev : SriovDev) (type : ResType) (a : ResAllocator) :
    (call : AllocCall) → Decidable (call.Valid dev type a)
  | .grant .. => inferInstanceAs (Decidable (_ ∧ _))
  | .release .. => inferInstanceAs (Decidable (_ ∧ _))

instance (dev : SriovDev) (a : ResAllocator) : (call : AllocCall) → Decidable (call.Fits dev a)
  | .grant .. => inferInstanceAs (Decidable (_ < _))
  | .release .. => inferInstanceAs (Decidable True)

theorem SriovDev.Serves.mem_clients (h : dev.Serves type i port) : i ∈ dev.clients port := by
  simpa [SriovDev.clients] using h.2

theorem PoolsSound.step (h : PoolsSound dev type a) (call : AllocCall)
    (hv : call.Valid dev type a) (hfits : call.Fits dev a) :
    PoolsSound dev type (allocStep dev a call) := by
  cases call with
  | grant slave count port =>
    obtain ⟨hc, hserves⟩ := hv
    unfold allocStep
    by_cases hslave : dev.numVfs < slave
    · simpa only [grantResource, if_pos hslave] using h
    · obtain ⟨i, rfl⟩ : ∃ i : Fin (dev.numVfs + 1), (i : Nat) = slave := ⟨⟨slave, by omega⟩, rfl⟩
      rcases h.grantResource_cases hserves.1 hserves.mem_clients hc hfits with ⟨hok, hsound⟩ | herr
      · simpa only [hok] using hsound
      · simpa only [herr] using h
  | release slave count port =>
    obtain ⟨hc, hserves, hle⟩ := hv
    unfold allocStep
    by_cases hslave : dev.numVfs < slave
    · simpa only [releaseResource, if_pos hslave] using h
    · obtain ⟨i, rfl⟩ : ∃ i : Fin (dev.numVfs + 1), (i : Nat) = slave := ⟨⟨slave, by omega⟩, rfl⟩
      have hrange := h.range hserves.1 hserves.mem_clients
      dsimp only
      rw [hrange.releaseResource_eq hc hle]
      exact h.release hserves.1 hserves.mem_clients hc hle

/-- What the pools of an allocator promise. -/
structure Guarantees (dev : SriovDev) (type : ResType) (a : ResAllocator) : Prop where
  reserved : ∀ port, dev.HasPool type port → a.reserved port = ∑ i ∈ dev.clients port,
    max (a.guaranteed i - a.allocated (allocatedIndex dev i port)) 0
  covered : ∀ port, dev.HasPool type port → 0 ≤ a.reserved port ∧ a.reserved port ≤ a.free port
  quota : ∀ port, dev.HasPool type port → ∀ i ∈ dev.clients port,
    a.allocated (allocatedIndex dev i port) ≤ a.quota i
  granted : ∀ port, dev.HasPool type port → ∀ i ∈ dev.clients port, ∀ c : Int, 0 ≤ c →
    a.allocated (allocatedIndex dev i port) + c ≤ a.guaranteed i →
      ∃ a', grantResource dev a i c port = .ok a'
  undone : ∀ port, dev.HasPool type port → ∀ i ∈ dev.clients port, ∀ c : Int, 0 ≤ c →
    a.allocated (allocatedIndex dev i port) + c < 2 ^ 31 →
      ∀ a', grantResource dev a i c port = .ok a' → releaseResource dev a' i c port = a

theorem PoolsSound.guarantees (h : PoolsSound dev type a) : Guarantees dev type a where
  reserved port hport := (h.sound port hport).reserved
  covered port hport := ⟨(h.sound port hport).reserved_nonneg, (h.sound port hport).covered⟩
  quota port hport i hi := ((h.sound port hport).bounds i hi).2
  granted _ hport _ hi _ hc hwithin := h.grants_guaranteed hport hi hc hwithin
  undone _ hport _ hi _ hc hfit _ hgrant := h.release_grant hport hi hc hfit hgrant

end

end Mlx4
