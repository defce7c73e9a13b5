-- SUMMARY: Tables that hold the owner of each key.
import Mathlib.Data.List.Nodup

/-!
# Route tables

Owners register with a request that covers keys, or with none. `Tabulates` says that a table has
the owner at each key of a domain.
-/

namespace RouteTable

variable {κ α ρ : Type*}

/-- At each key of the domain the table has the owner whose request covers the key. -/
def Tabulates (dom : κ → Prop) (covers : ρ → κ → Prop) (regs : List (α × Option ρ))
    (table : κ → Option α) : Prop :=
  ∀ key owner, dom key →
    (table key = some owner ↔ ∃ r, (owner, some r) ∈ regs ∧ covers r key)

variable {dom : κ → Prop} {covers : ρ → κ → Prop} {regs : List (α × Option ρ)}
  {table table' : κ → Option α} {owner : α}

theorem tabulates_nil (h : ∀ key, table key = none) : Tabulates dom covers [] table := by
  intro key owner _
  simp [h key]

/-- A request for free keys is entered. -/
theorem Tabulates.add (h : Tabulates dom covers regs table) {r : ρ}
    (hfree : ∀ key, covers r key → table key = none)
    (hnew : ∀ key a, dom key → (table' key = some a ↔
      covers r key ∧ owner = a ∨ ¬covers r key ∧ table key = some a)) :
    Tabulates dom covers ((owner, some r) :: regs) table' := by
  intro key a hkey
  rw [hnew key a hkey]
  constructor
  · rintro (⟨hcov, rfl⟩ | ⟨-, hold⟩)
    · exact ⟨r, List.mem_cons_self, hcov⟩
    · obtain ⟨r', hmem, hcov⟩ := (h key a hkey).mp hold
      exact ⟨r', List.mem_cons_of_mem _ hmem, hcov⟩
  · rintro ⟨r', hmem, hcov⟩
    rcases List.mem_cons.mp hmem with heq | hmem
    · cases heq
      exact .inl ⟨hcov, rfl⟩
    · have hold : table key = some a := (h key a hkey).mpr ⟨r', hmem, hcov⟩
      refine .inr ⟨fun hcov' => ?_, hold⟩
      rw [hfree key hcov'] at hold
      cases hold

/-- A registration that covers no key of the domain. -/
theorem Tabulates.skip (h : Tabulates dom covers regs table) {r : Option ρ}
    (hskip : ∀ r', r = some r' → ∀ key, dom key → ¬covers r' key)
    (hsame : ∀ key, dom key → table' key = table key) :
    Tabulates dom covers ((owner, r) :: regs) table' := by
  intro key a hkey
  rw [hsame key hkey, h key a hkey]
  constructor
  · rintro ⟨r', hmem, hcov⟩
    exact ⟨r', List.mem_cons_of_mem _ hmem, hcov⟩
  · rintro ⟨r', hmem, hcov⟩
    rcases List.mem_cons.mp hmem with heq | hmem
    · exact absurd hcov (hskip r' (congrArg Prod.snd heq).symm key hkey)
    · exact ⟨r', hmem, hcov⟩

theorem request_unique (hnodup : (regs.map Prod.fst).Nodup) {r r' : Option ρ}
    (h : (owner, r) ∈ regs) (h' : (owner, r') ∈ regs) : r = r' :=
  congrArg Prod.snd (List.inj_on_of_nodup_map hnodup h h' rfl)

/-- An owner is taken out of the keys its request covers, and of no other owner's. -/
theorem Tabulates.remove [DecidableEq α] (h : Tabulates dom covers regs table)
    (hnodup : (regs.map Prod.fst).Nodup) {r : Option ρ} (hmem : (owner, r) ∈ regs)
    (gone : κ → Prop) (hgone : ∀ r', r = some r' → ∀ key, dom key → covers r' key → gone key)
    (hnew : ∀ key a, dom key →
      (table' key = some a ↔ table key = some a ∧ ¬(gone key ∧ a = owner))) :
    Tabulates dom covers (regs.filter (·.1 ≠ owner)) table' := by
  intro key a hkey
  rw [hnew key a hkey, h key a hkey]
  constructor
  · rintro ⟨⟨r', hr', hcov⟩, hnot⟩
    have hne : a ≠ owner := by
      rintro rfl
      exact hnot ⟨hgone r' (request_unique hnodup hmem hr') key hkey hcov, rfl⟩
    exact ⟨r', List.mem_filter.mpr ⟨hr', by simpa using hne⟩, hcov⟩
  · rintro ⟨r', hr', hcov⟩
    obtain ⟨hr', hne⟩ := List.mem_filter.mp hr'
    exact ⟨⟨r', hr', hcov⟩, fun hboth => by simp [hboth.2] at hne⟩

theorem lookup_eq_some [BEq α] [LawfulBEq α] (hnodup : (regs.map Prod.fst).Nodup) {r : Option ρ}
    (hmem : (owner, r) ∈ regs) : regs.lookup owner = some r := by
  cases hlook : regs.lookup owner with
  | none => exact absurd (List.lookup_eq_none_iff.mp hlook _ hmem) (by simp)
  | some r' =>
    obtain ⟨l₁, l₂, heq, -⟩ := List.lookup_eq_some_iff.mp hlook
    have hr' : (owner, r') ∈ regs := by simp [heq]
    rw [request_unique hnodup hmem hr']

end RouteTable
