import Mathlib.Data.Fin.Basic

/-!
# Counting loops

`Fin.foldl n f a` is the loop `for (i = 0; i < n; i++)` with the body `f`.

* `loop_invariant`   what holds after `i` passes and is kept by a pass holds after all of them.
-/

namespace Loops

/-- **The rule for a counting loop.** -/
theorem loop_invariant {α : Type} {n : Nat} (f : α → Fin n → α) (I : Nat → α → Prop) (a : α)
    (h0 : I 0 a) (hstep : ∀ (i : Fin n) (a : α), I i a → I (i + 1) (f a i)) :
    I n (Fin.foldl n f a) := by
  induction n with
  | zero => exact h0
  | succ n ih =>
    rw [Fin.foldl_succ_last]
    exact hstep (Fin.last n) _
      (ih (fun a i => f a i.castSucc) fun i a h => hstep i.castSucc a h)

end Loops
