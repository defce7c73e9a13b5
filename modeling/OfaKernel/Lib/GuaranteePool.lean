-- SUMMARY: A pool that clients with guarantees draw from.
import Mathlib.Algebra.BigOperators.Group.Finset.Piecewise
import Mathlib.Algebra.Order.BigOperators.Group.Finset
import Mathlib.Tactic.Abel
import Mathlib.Tactic.Linarith

/-!
# Pools with guarantees

Clients draw units from one pool. `reserved` is what they together still lack of their
guarantees. `transfer` moves units to a client, or back for a negative count.
-/

/-- What a pool owes to its clients. -/
structure GuaranteeTerms (ι : Type*) where
  guaranteed : ι → ℤ
  quota : ι → ℤ

structure GuaranteePool (ι : Type*) where
  allocated : ι → ℤ
  free : ℤ
  reserved : ℤ

namespace GuaranteePool

variable {ι : Type*} [DecidableEq ι] (terms : GuaranteeTerms ι)

/-- What a client that has `n` units still lacks of its guarantee. -/
def lack (i : ι) (n : ℤ) : ℤ := max (terms.guaranteed i - n) 0

/-- `c` units go to the client `i`. -/
def transfer (p : GuaranteePool ι) (i : ι) (c : ℤ) : GuaranteePool ι where
  allocated := Function.update p.allocated i (p.allocated i + c)
  free := p.free - c
  reserved := p.reserved - (lack terms i (p.allocated i) - lack terms i (p.allocated i + c))

structure Sound (clients : Finset ι) (p : GuaranteePool ι) : Prop where
  reserved : p.reserved = ∑ i ∈ clients, lack terms i (p.allocated i)
  covered : p.reserved ≤ p.free
  bounds : ∀ i ∈ clients, 0 ≤ p.allocated i ∧ p.allocated i ≤ terms.quota i

variable {terms} {clients : Finset ι} {p : GuaranteePool ι} {i : ι} {c : ℤ}

omit [DecidableEq ι] in
theorem lack_nonneg (terms : GuaranteeTerms ι) (i : ι) (n : ℤ) :
    0 ≤ lack terms i n := le_max_right _ _

omit [DecidableEq ι] in
/-- One unit more is at most one unit lacked less. -/
theorem lack_le_add (terms : GuaranteeTerms ι) (i : ι) (n : ℤ) (hc : 0 ≤ c) :
    lack terms i n ≤ lack terms i (n + c) + c := by
  unfold lack
  omega

omit [DecidableEq ι] in
theorem Sound.reserved_nonneg (h : Sound terms clients p) : 0 ≤ p.reserved := by
  rw [h.reserved]
  exact Finset.sum_nonneg fun i _ => lack_nonneg terms i _

omit [DecidableEq ι] in
theorem Sound.lack_le_reserved (h : Sound terms clients p) (hi : i ∈ clients) :
    lack terms i (p.allocated i) ≤ p.reserved := by
  rw [h.reserved]
  exact Finset.single_le_sum (fun j _ => lack_nonneg terms j (p.allocated j)) hi

theorem sum_lack_update (hi : i ∈ clients) (n : ℤ) :
    ∑ j ∈ clients, lack terms j (Function.update p.allocated i n j) =
      ∑ j ∈ clients, lack terms j (p.allocated j) - lack terms i (p.allocated i) +
        lack terms i n := by
  rw [← Finset.add_sum_erase clients _ hi,
    ← Finset.add_sum_erase clients (fun j => lack terms j (p.allocated j)) hi, Function.update_self]
  have hrest : ∑ j ∈ clients.erase i, lack terms j (Function.update p.allocated i n j) =
      ∑ j ∈ clients.erase i, lack terms j (p.allocated j) :=
    Finset.sum_congr rfl fun j hj => by rw [Function.update_of_ne (Finset.ne_of_mem_erase hj)]
  rw [hrest]
  abel

/-- What is free and what the clients have. -/
def total (clients : Finset ι) (p : GuaranteePool ι) : ℤ :=
  p.free + ∑ j ∈ clients, p.allocated j

theorem total_transfer (hi : i ∈ clients) :
    (p.transfer terms i c).total clients = p.total clients := by
  have hrest : ∑ j ∈ clients.erase i, Function.update p.allocated i (p.allocated i + c) j =
      ∑ j ∈ clients.erase i, p.allocated j :=
    Finset.sum_congr rfl fun j hj => Function.update_of_ne (Finset.ne_of_mem_erase hj) _ _
  simp only [total, transfer]
  rw [← Finset.add_sum_erase clients _ hi, ← Finset.add_sum_erase clients p.allocated hi,
    Function.update_self, hrest]
  abel

omit [DecidableEq ι] in
/-- The pool holds at least what is free and what one client has. -/
theorem Sound.free_add_le_total (h : Sound terms clients p) (hi : i ∈ clients) :
    p.free + p.allocated i ≤ p.total clients :=
  add_le_add_right (Finset.single_le_sum (fun j hj => (h.bounds j hj).1) hi) p.free

/-- A covered transfer that stays within the quota keeps the pool sound. -/
theorem Sound.transfer (h : Sound terms clients p) (hi : i ∈ clients)
    (hpos : 0 ≤ p.allocated i + c) (hquota : p.allocated i + c ≤ terms.quota i)
    (hcovered : (p.transfer terms i c).reserved ≤ (p.transfer terms i c).free) :
    Sound terms clients (p.transfer terms i c) where
  reserved := by
    simp only [GuaranteePool.transfer, sum_lack_update hi, h.reserved]
    abel
  covered := hcovered
  bounds j hj := by
    by_cases hij : j = i
    · subst hij
      simpa [GuaranteePool.transfer] using ⟨hpos, hquota⟩
    · simpa [GuaranteePool.transfer, hij] using h.bounds j hj

theorem Sound.covered_of_guaranteed (h : Sound terms clients p) (hc : 0 ≤ c)
    (hwithin : p.allocated i + c ≤ terms.guaranteed i) :
    (p.transfer terms i c).reserved ≤ (p.transfer terms i c).free := by
  have := h.covered
  simp only [GuaranteePool.transfer, lack]
  omega

/-- Units may always come back. -/
theorem Sound.giveBack (h : Sound terms clients p) (hi : i ∈ clients) (hc : 0 ≤ c)
    (hle : c ≤ p.allocated i) : Sound terms clients (p.transfer terms i (-c)) := by
  have hquota := (h.bounds i hi).2
  refine h.transfer hi (by omega) (by omega) ?_
  have hlack := lack_le_add terms i (p.allocated i - c) hc
  have hcov := h.covered
  rw [Int.sub_add_cancel] at hlack
  simp only [GuaranteePool.transfer, ← Int.sub_eq_add_neg]
  omega

end GuaranteePool
