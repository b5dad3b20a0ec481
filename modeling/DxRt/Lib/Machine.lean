import Mathlib

/-! Machines that answer: a step from a state and an input to a state and an answer.

    A machine refines another one when a relation between their states is kept by every step and
    makes the answers equal; the answers of all runs are then equal. -/

namespace Machine
variable {σ τ ι ω : Type*}

/-- The answers of a run, in order. -/
def answers (step : σ → ι → σ × ω) : σ → List ι → List ω
  | _, [] => []
  | s, i :: inputs => (step s i).2 :: answers step (step s i).1 inputs

/-- The state after a run. -/
def final (step : σ → ι → σ × ω) (s : σ) (inputs : List ι) : σ :=
  inputs.foldl (fun s i => (step s i).1) s

theorem final_append_one (step : σ → ι → σ × ω) (s : σ) (inputs : List ι) (i : ι) :
    final step s (inputs ++ [i]) = (step (final step s inputs) i).1 := by
  rw [final, final, List.foldl_append, List.foldl_cons, List.foldl_nil]

/-- Every step keeps the relation and gives the same answer. -/
def Refines (step : σ → ι → σ × ω) (spec : τ → ι → τ × ω) (R : σ → τ → Prop) : Prop :=
  ∀ s t i, R s t → R (step s i).1 (spec t i).1 ∧ (step s i).2 = (spec t i).2

variable {step : σ → ι → σ × ω} {spec : τ → ι → τ × ω} {R : σ → τ → Prop} {s : σ} {t : τ}

theorem Refines.answers (h : Refines step spec R) (hst : R s t) (inputs : List ι) :
    answers step s inputs = Machine.answers spec t inputs := by
  induction inputs generalizing s t with
  | nil => rfl
  | cons i inputs ih =>
    obtain ⟨hnext, hanswer⟩ := h s t i hst
    rw [Machine.answers, Machine.answers, hanswer, ih hnext]

theorem Refines.final (h : Refines step spec R) (hst : R s t) (inputs : List ι) :
    R (final step s inputs) (Machine.final spec t inputs) := by
  induction inputs generalizing s t with
  | nil => exact hst
  | cons i inputs ih => exact ih (h s t i hst).1

end Machine
