import JMEngine.Lib.Runs

/-!
# Simulation between two step functions

* `exec_simulates`   a concrete step that several abstract steps explain, for every run: what the
                     concrete system does, the abstract one can do;
* `exec_agrees`      two systems that can take the same events;
* `exec_refines`     a concrete step that follows a function of the abstract state.
-/

namespace Runs

section
variable {σ ε τ δ : Type} (step : σ → ε → Option σ) (step' : τ → δ → Option τ)

theorem exec_one {t t' : τ} {f : δ} (h : step' t f = some t') : exec step' t [f] = some t' := by
  rw [exec_cons step' [] h]
  rfl

/-- **A forward simulation.** Related states stay related when the abstract system answers every event
of the concrete one with some run of its own. -/
theorem exec_simulates {C : σ → ε → Prop} {R : σ → τ → Prop}
    (hstep : ∀ s e s' t, R s t → C s e → step s e = some s' →
      ∃ fs t', exec step' t fs = some t' ∧ R s' t') (es : List ε) :
    ∀ s t s', R s t → Guarded step C s es → exec step s es = some s' →
      ∃ fs t', exec step' t fs = some t' ∧ R s' t' := by
  induction es with
  | nil =>
    intro s t s' hR _ h
    have e : s = s' := Option.some.inj h
    exact ⟨[], t, rfl, e ▸ hR⟩
  | cons e es ih =>
    intro s t s' hR hG h
    obtain ⟨s1, h1, h2⟩ := exec_cons_some step h
    obtain ⟨fs, t1, h3, hR1⟩ := hstep s e s1 t hR hG.1 h1
    obtain ⟨gs, t', h4, hR'⟩ := ih s1 t1 s' hR1 (hG.2 s1 h1) h2
    exact ⟨fs ++ gs, t', (exec_append step' gs h3).trans h4, hR'⟩

section
variable {R : σ → τ → Prop} {x : Option σ} {y : Option τ} (h : Option.Rel R x y)
include h

theorem rel_left {s : σ} (hx : x = some s) : ∃ t, y = some t ∧ R s t := by
  cases h with
  | none => cases hx
  | some h => exact ⟨_, rfl, Option.some.inj hx ▸ h⟩

theorem rel_right {t : τ} (hy : y = some t) : ∃ s, x = some s ∧ R s t := by
  cases h with
  | none => cases hy
  | some h => exact ⟨_, rfl, Option.some.inj hy ▸ h⟩

theorem rel_none_right (hy : y = none) : x = none := by
  cases h with
  | none => rfl
  | some h => cases hy

theorem rel_map {f : σ → τ} (hf : ∀ s t, R s t → f s = t) : x.map f = y := by
  cases h with
  | none => rfl
  | some h => exact congrArg some (hf _ _ h)

end

/-- **Two partial systems that agree.**  Related states can take the same events, and stay related. -/
theorem exec_agrees {step' : τ → ε → Option τ} {C : τ → ε → Prop} {R : σ → τ → Prop}
    (hstep : ∀ s e t, R s t → C t e → Option.Rel R (step s e) (step' t e)) (es : List ε) :
    ∀ s t, R s t → Guarded step' C t es → Option.Rel R (exec step s es) (exec step' t es) := by
  induction es with
  | nil => exact fun s t hR _ => .some hR
  | cons e es ih =>
    intro s t hR hG
    have h1 := hstep s e t hR hG.1
    rw [exec, exec]
    cases ht : step' t e with
    | none =>
      rw [rel_none_right h1 ht]
      exact .none
    | some t' =>
      obtain ⟨s', hs, hR'⟩ := rel_right h1 ht
      rw [hs]
      exact ih s' t' hR' (hG.2 t' ht)

theorem exec_foldl (f : τ → ε → τ) (es : List ε) (t : τ) :
    exec (fun t e => some (f t e)) t es = some (es.foldl f t) := by
  induction es generalizing t with
  | nil => rfl
  | cons e es ih => exact ih (f t e)

/-- **A functional refinement.**  The abstract system is a function, its state says which events may
come, and the concrete system takes each of them. -/
theorem exec_refines {C : τ → ε → Prop} {R : σ → τ → Prop} {f : τ → ε → τ}
    (hstep : ∀ s e t, R s t → C t e → ∃ s', step s e = some s' ∧ R s' (f t e)) (es : List ε)
    (s : σ) (t : τ) (hR : R s t) (hG : Guarded (fun t e => some (f t e)) C t es) :
    ∃ s', exec step s es = some s' ∧ R s' (es.foldl f t) := by
  have h := exec_agrees step (C := C) (R := R) (fun s e t hR hC => by
    obtain ⟨s', hs, hR'⟩ := hstep s e t hR hC
    rw [hs]
    exact .some hR') es s t hR hG
  exact rel_right h (exec_foldl f es t)

end

end Runs
