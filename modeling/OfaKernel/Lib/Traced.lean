-- SUMMARY: Computations that log what they hand out and may stop.
import Mathlib.Tactic.Common

/-!
# Traced computations

A computation logs the items it hands out. It is safe when it stops for no bad reason and every
item is good.
-/

/-- A run: what was handed out, and how it ended. -/
structure Traced (ε ρ α : Type) where
  log : List ρ
  out : Except ε α

namespace Traced

variable {ε ρ α β : Type}

instance : Monad (Traced ε ρ) where
  pure a := ⟨[], .ok a⟩
  bind x f :=
    match x.out with
    | .error e => ⟨x.log, .error e⟩
    | .ok a => ⟨x.log ++ (f a).log, (f a).out⟩

instance : LawfulMonad (Traced ε ρ) := LawfulMonad.mk' _
  (by
    rintro α ⟨log, out⟩
    cases out with
    | error e => rfl
    | ok a => exact congrArg (Traced.mk · (.ok a)) (List.append_nil log))
  (fun _ _ => rfl)
  (by
    rintro α β γ ⟨log, out⟩ f g
    cases out with
    | error e => rfl
    | ok a =>
      show (match (_ : Except ε β) with | .error e => _ | .ok b => _) = _
      cases hf : (f a).out with
      | error e => simp [Bind.bind, hf]
      | ok b => simp [Bind.bind, hf])

def stop (e : ε) : Traced ε ρ α := ⟨[], .error e⟩

/-- Hand an item out. -/
def emit (r : ρ) : Traced ε ρ Unit := ⟨[r], .ok ()⟩

/-- The computation ends with the value. -/
def Runs (x : Traced ε ρ α) (a : α) : Prop := x.out = .ok a

instance [DecidableEq ε] [DecidableEq α] (x : Traced ε ρ α) (a : α) : Decidable (x.Runs a) :=
  inferInstanceAs (Decidable (x.out = .ok a))

/-- No bad reason to stop, and good items only. -/
def Safe (bad : ε → Prop) (good : ρ → Prop) (x : Traced ε ρ α) : Prop :=
  (∀ r ∈ x.log, good r) ∧ ∀ e, x.out = .error e → ¬bad e

variable {bad : ε → Prop} {good : ρ → Prop}

@[simp] theorem runs_pure {a b : α} : Runs (pure a : Traced ε ρ α) b ↔ a = b :=
  ⟨fun h => Except.ok.inj h, fun h => congrArg Except.ok h⟩

@[simp] theorem runs_stop {e : ε} {a : α} : ¬Runs (stop e : Traced ε ρ α) a := by
  rintro ⟨⟩

@[simp] theorem runs_emit {r : ρ} : Runs (emit r : Traced ε ρ Unit) () := rfl

theorem Runs.unique {x : Traced ε ρ α} {a b : α} (ha : x.Runs a) (hb : x.Runs b) : a = b :=
  Except.ok.inj (ha.symm.trans hb)

theorem runs_bind {x : Traced ε ρ α} {f : α → Traced ε ρ β} {b : β} :
    (x >>= f).Runs b ↔ ∃ a, x.Runs a ∧ (f a).Runs b := by
  obtain ⟨log, out⟩ := x
  cases out with
  | error e =>
    constructor
    · rintro ⟨⟩
    · rintro ⟨a, ⟨⟩, -⟩
  | ok a =>
    constructor
    · exact fun h => ⟨a, rfl, h⟩
    · rintro ⟨_, ⟨⟩, h⟩
      exact h

@[simp] theorem safe_pure {a : α} : Safe bad good (pure a : Traced ε ρ α) :=
  ⟨fun _ h => absurd h List.not_mem_nil, fun _ h => by cases h⟩

@[simp] theorem safe_stop {e : ε} : Safe bad good (stop e : Traced ε ρ α) ↔ ¬bad e := by
  constructor
  · exact fun h => h.2 e rfl
  · refine fun h => ⟨fun _ hr => absurd hr List.not_mem_nil, fun e' he => ?_⟩
    cases he
    exact h

@[simp] theorem safe_emit {r : ρ} : Safe bad good (emit r : Traced ε ρ Unit) ↔ good r := by
  constructor
  · exact fun h => h.1 r List.mem_cons_self
  · refine fun h => ⟨fun r' hr => ?_, fun _ he => by cases he⟩
    rw [List.mem_singleton.mp hr]
    exact h

theorem safe_bind {x : Traced ε ρ α} {f : α → Traced ε ρ β} :
    Safe bad good (x >>= f) ↔ Safe bad good x ∧ ∀ a, x.Runs a → Safe bad good (f a) := by
  obtain ⟨log, out⟩ := x
  cases out with
  | error e =>
    constructor
    · intro h
      refine ⟨⟨h.1, fun e' he => h.2 e' ?_⟩, ?_⟩
      · cases he
        rfl
      · rintro a ⟨⟩
    · rintro ⟨h, -⟩
      refine ⟨h.1, fun e' he => h.2 e' ?_⟩
      cases he
      rfl
  | ok a =>
    constructor
    · intro h
      refine ⟨⟨fun r hr => h.1 r (List.mem_append_left _ hr), fun e he => by cases he⟩, ?_⟩
      rintro _ ⟨⟩
      exact ⟨fun r hr => h.1 r (List.mem_append_right _ hr), h.2⟩
    · rintro ⟨h, hf⟩
      have hfa := hf a rfl
      refine ⟨fun r hr => ?_, hfa.2⟩
      rcases List.mem_append.mp hr with hr | hr
      · exact h.1 r hr
      · exact hfa.1 r hr

/-- A first step with a known value. -/
theorem runs_bind_of {x : Traced ε ρ α} {a : α} (hx : x.Runs a) {f : α → Traced ε ρ β} {b : β} :
    (x >>= f).Runs b ↔ (f a).Runs b := by
  rw [runs_bind]
  constructor
  · rintro ⟨a', ha', h⟩
    rwa [hx.unique ha']
  · exact fun h => ⟨a, hx, h⟩

theorem safe_bind_of {x : Traced ε ρ α} {a : α} (hx : x.Runs a) {f : α → Traced ε ρ β} :
    Safe bad good (x >>= f) ↔ Safe bad good x ∧ Safe bad good (f a) := by
  rw [safe_bind]
  refine and_congr_right fun _ => ⟨fun h => h a hx, fun h a' ha' => ?_⟩
  rwa [← hx.unique ha']

end Traced
