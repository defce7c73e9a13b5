-- SUMMARY: Runs of a step function.
import Mathlib.Data.List.Basic

/-!
# Runs

A run is a list of actions from a start state. `Run.states` lists the states it visits,
`Run.Steps` says that every action is taken in a state that meets a condition.
-/

namespace Run

variable {σ α : Type*} (step : σ → α → σ)

/-- The state at the end of a run. -/
def final (s : σ) (as : List α) : σ :=
  as.foldl step s

/-- The states a run visits, the start state first. -/
def states : σ → List α → List σ
  | s, [] => [s]
  | s, a :: as => s :: states (step s a) as

/-- Every action of the run is taken in a state where `ok` allows it. -/
def Steps (ok : σ → α → Prop) : σ → List α → Prop
  | _, [] => True
  | s, a :: as => ok s a ∧ Steps ok (step s a) as

variable {step}

instance Steps.decidable {ok : σ → α → Prop} [∀ s a, Decidable (ok s a)] :
    ∀ (s : σ) (as : List α), Decidable (Steps step ok s as)
  | _, [] => .isTrue trivial
  | s, a :: as => @instDecidableAnd _ _ _ (Steps.decidable (step s a) as)

@[simp] theorem steps_nil {ok : σ → α → Prop} {s : σ} : Steps step ok s [] := trivial

@[simp] theorem steps_cons {ok : σ → α → Prop} {s : σ} {a : α} {as : List α} :
    Steps step ok s (a :: as) ↔ ok s a ∧ Steps step ok (step s a) as := Iff.rfl

@[simp] theorem mem_states_nil {s t : σ} : t ∈ states step s [] ↔ t = s := by
  simp [states]

@[simp] theorem mem_states_cons {s t : σ} {a : α} {as : List α} :
    t ∈ states step s (a :: as) ↔ t = s ∨ t ∈ states step (step s a) as := by
  simp [states]

theorem start_mem_states (s : σ) (as : List α) : s ∈ states step s as := by
  cases as <;> simp

theorem final_mem_states (s : σ) (as : List α) : final step s as ∈ states step s as := by
  induction as generalizing s with
  | nil => simp [final]
  | cons a as ih => exact mem_states_cons.mpr (.inr (ih (step s a)))

theorem steps_true (s : σ) (as : List α) : Steps step (fun _ _ => True) s as := by
  induction as generalizing s with
  | nil => trivial
  | cons a as ih => exact ⟨trivial, ih _⟩

/-- A condition on the actions alone. -/
theorem steps_of_forall {ok : α → Prop} {as : List α} (h : ∀ a ∈ as, ok a) (s : σ) :
    Steps step (fun _ a => ok a) s as := by
  induction as generalizing s with
  | nil => trivial
  | cons a as ih =>
    exact ⟨h a List.mem_cons_self, ih (fun b hb => h b (List.mem_cons_of_mem _ hb)) _⟩

theorem steps_and {ok ok' : σ → α → Prop} {s : σ} {as : List α} :
    Steps step (fun s a => ok s a ∧ ok' s a) s as ↔
      Steps step ok s as ∧ Steps step ok' s as := by
  induction as generalizing s with
  | nil => simp
  | cons a as ih => simp only [steps_cons, ih]; tauto

/-- The invariant rule: what holds at the start and is kept by every allowed
step holds in every state of an allowed run. -/
theorem Steps.invariant {ok : σ → α → Prop} {Inv : σ → Prop}
    (hstep : ∀ s a, Inv s → ok s a → Inv (step s a)) {s : σ} {as : List α}
    (h0 : Inv s) (hs : Steps step ok s as) : ∀ t ∈ states step s as, Inv t := by
  induction as generalizing s with
  | nil => intro t ht; rw [mem_states_nil.mp ht]; exact h0
  | cons a as ih =>
    intro t ht
    rcases mem_states_cons.mp ht with rfl | ht
    · exact h0
    · exact ih (hstep _ _ h0 hs.1) hs.2 t ht

/-- The invariant rule for what a step does: under an invariant, every step of
an allowed run has the property `P`. -/
theorem Steps.each {ok P : σ → α → Prop} {Inv : σ → Prop}
    (hstep : ∀ s a, Inv s → ok s a → Inv (step s a))
    (hP : ∀ s a, Inv s → ok s a → P s a) {s : σ} {as : List α}
    (h0 : Inv s) (hs : Steps step ok s as) : Steps step P s as := by
  induction as generalizing s with
  | nil => trivial
  | cons a as ih => exact ⟨hP _ _ h0 hs.1, ih (hstep _ _ h0 hs.1) hs.2⟩

/-- Two conditions that agree on every step from a state with the invariant agree on runs. -/
theorem steps_congr {valid ok ok' : σ → α → Prop} {Inv : σ → Prop}
    (hinv : ∀ s a, Inv s → valid s a → Inv (step s a))
    (hstep : ∀ s a, Inv s → valid s a → (ok s a ↔ ok' s a))
    {s : σ} {as : List α} (hi : Inv s) (hv : Steps step valid s as) :
    Steps step ok s as ↔ Steps step ok' s as := by
  induction as generalizing s with
  | nil => exact Iff.rfl
  | cons a as ih =>
    rw [steps_cons, steps_cons, hstep s a hi hv.1, ih (hinv s a hi hv.1) hv.2]

/-- When a step from a good state leads to a good state exactly if it meets `ok`, all states of a
run are good exactly if all steps meet `ok`. `Inv` is what the steps keep in any case. -/
theorem forall_states_iff {valid ok : σ → α → Prop} {Inv Good : σ → Prop}
    (hinv : ∀ s a, Inv s → valid s a → Inv (step s a))
    (hstep : ∀ s a, Inv s → valid s a → Good s → (Good (step s a) ↔ ok s a))
    {s : σ} {as : List α} (hi : Inv s) (hg : Good s) (hv : Steps step valid s as) :
    (∀ t ∈ states step s as, Good t) ↔ Steps step ok s as := by
  induction as generalizing s with
  | nil => simp [hg]
  | cons a as ih =>
    have hi' := hinv s a hi hv.1
    constructor
    · intro h
      have hg' : Good (step s a) := h _ (mem_states_cons.mpr (.inr (start_mem_states _ _)))
      exact ⟨(hstep s a hi hv.1 hg).mp hg',
        (ih hi' hg' hv.2).mp fun t ht => h t (mem_states_cons.mpr (.inr ht))⟩
    · rintro ⟨hok, hoks⟩ t ht
      rcases mem_states_cons.mp ht with rfl | ht
      · exact hg
      · exact (ih hi' ((hstep s a hi hv.1 hg).mpr hok) hv.2).mpr hoks t ht

end Run
