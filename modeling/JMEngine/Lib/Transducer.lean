import Mathlib.Data.List.Basic

/-!
# Machines that read a list and write one

A step takes the state and one input to the next state and one output.

* `run step s as`   the outputs on `as` from the state `s`;
* `run_inverse`     a machine that undoes one step of another, and moves with it, undoes its runs.
-/

set_option linter.unusedSectionVars false

namespace Transducer

section
variable {σ α β : Type}

def run (step : σ → α → σ × β) : σ → List α → List β
  | _, [] => []
  | s, a :: as => (step s a).2 :: run step (step s a).1 as

theorem length_run (step : σ → α → σ × β) (s : σ) (as : List α) :
    (run step s as).length = as.length := by
  induction as generalizing s with
  | nil => rfl
  | cons a as ih =>
    show (run step (step s a).1 as).length + 1 = as.length + 1
    rw [ih]

/-- **Undoing one step, in the same state and with the same next state, undoes every run.** -/
theorem run_inverse (enc : σ → α → σ × β) (dec : σ → β → σ × α)
    (h : ∀ s a, dec s (enc s a).2 = ((enc s a).1, a)) (s : σ) (as : List α) :
    run dec s (run enc s as) = as := by
  induction as generalizing s with
  | nil => rfl
  | cons a as ih =>
    show (dec s (enc s a).2).2 :: run dec (dec s (enc s a).2).1 (run enc (enc s a).1 as) = a :: as
    rw [h, ih]

end

end Transducer
