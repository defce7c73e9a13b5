-- SUMMARY: Bounded first-in first-out queues.
import Mathlib.Data.List.Basic

/-!
# Bounded queues

A queue hands its elements out in the order in which it took them. A machine implements it when
it gives the same answers in every run; `outputs_eq` reduces that to one operation.
-/

/-- A queue that holds no more than its capacity. -/
structure BoundedFifo (α : Type*) where
  capacity : Nat
  elems : List α
  length_le : elems.length ≤ capacity

namespace BoundedFifo

variable {α σ : Type*}

inductive Op (α : Type*) where
  | push (x : α)
  | pop

/-- What an operation answers: a push whether it found room, a pop the oldest element. -/
inductive Out (α : Type*) where
  | pushed (ok : Bool)
  | popped (x : Option α)

def step (f : BoundedFifo α) : Op α → Out α × BoundedFifo α
  | .push x =>
    if h : f.elems.length < f.capacity then
      (.pushed true,
        { f with
          elems := f.elems ++ [x]
          length_le := by rw [List.length_append]; exact h })
    else (.pushed false, f)
  | .pop =>
    (.popped f.elems.head?,
      { f with
        elems := f.elems.tail
        length_le := by rw [List.length_tail]; exact Nat.le_trans (Nat.sub_le _ _) f.length_le })

/-- The answers of a run. -/
def outputs : BoundedFifo α → List (Op α) → List (Out α)
  | _, [] => []
  | f, op :: ops => (f.step op).1 :: outputs (f.step op).2 ops

/-- The answers of a machine, which may fault. -/
def machineOutputs (step : σ → Op α → Option (Out α × σ)) : σ → List (Op α) → Option (List (Out α))
  | _, [] => some []
  | s, op :: ops =>
    match step s op with
    | none => none
    | some (o, s') => (machineOutputs step s' ops).map (o :: ·)

/-- A machine that answers as the queue in every operation gives the queue's answers in every run.
-/
theorem outputs_eq {step : σ → Op α → Option (Out α × σ)} {ok : Op α → Prop}
    {R : σ → BoundedFifo α → Prop}
    (hstep : ∀ s f op, R s f → ok op → ∃ s', step s op = some ((f.step op).1, s') ∧
      R s' (f.step op).2)
    {s : σ} {f : BoundedFifo α} (h : R s f) {ops : List (Op α)} (hops : ∀ op ∈ ops, ok op) :
    machineOutputs step s ops = some (f.outputs ops) := by
  induction ops generalizing s f with
  | nil => rfl
  | cons op ops ih =>
    obtain ⟨s', hs, h'⟩ := hstep s f op h (hops op List.mem_cons_self)
    have hrest := ih h' fun o ho => hops o (List.mem_cons_of_mem _ ho)
    rw [machineOutputs, hs]
    dsimp only
    rw [hrest]
    rfl

end BoundedFifo
