import Mathlib.Data.List.Basic
import Mathlib.Data.List.Induction

/-!
# Runs of a partial step function

`step s e = none` says that the event `e` cannot happen in the state `s`.

* `exec step s es`      the state after the events `es`, taken one after the other;
* `exec_invariant`      what every step keeps, every run keeps;
* `exec_guarded`        the same for runs whose events all meet a condition on the state in which
                        they are taken (`Guarded`);
* `exec_history`        an invariant of the events taken so far;
* `exec_observed`       an invariant of the state and of what an observer has seen (`observe`);
* `exec_total`          events that can be taken in every state with the invariant;
* `exec_split`          when such a condition decides how a run ends;
* `along_iff_guarded`   when such a condition is exactly what a property of all states of a run needs.
-/

set_option linter.unusedSectionVars false

namespace Runs

section
variable {σ ε : Type} (step : σ → ε → Option σ)

def exec : σ → List ε → Option σ
  | s, [] => some s
  | s, e :: es =>
    match step s e with
    | some s' => exec s' es
    | none => none

theorem exec_nil (s : σ) : exec step s [] = some s := rfl

theorem exec_cons {s s' : σ} {e : ε} (es : List ε) (h : step s e = some s') :
    exec step s (e :: es) = exec step s' es := by
  rw [exec, h]

theorem exec_cons_some {s t : σ} {e : ε} {es : List ε} (h : exec step s (e :: es) = some t) :
    ∃ s', step s e = some s' ∧ exec step s' es = some t := by
  rw [exec] at h
  cases hs : step s e with
  | none => rw [hs] at h; cases h
  | some s' => rw [hs] at h; exact ⟨s', rfl, h⟩

theorem exec_append {s s' : σ} {es : List ε} (fs : List ε) (h : exec step s es = some s') :
    exec step s (es ++ fs) = exec step s' fs := by
  induction es generalizing s with
  | nil =>
    have e : s = s' := Option.some.inj h
    rw [e]; rfl
  | cons e es ih =>
    obtain ⟨s1, h1, h2⟩ := exec_cons_some step h
    rw [List.cons_append, exec_cons step _ h1]
    exact ih h2

/-- every event of the run meets `C` in the state in which it is taken -/
def Guarded (C : σ → ε → Prop) : σ → List ε → Prop
  | _, [] => True
  | s, e :: es => C s e ∧ ∀ s', step s e = some s' → Guarded C s' es

theorem guarded_append {C : σ → ε → Prop} {s s' : σ} {es fs : List ε} (h : Guarded step C s es)
    (hs : exec step s es = some s') (h' : Guarded step C s' fs) : Guarded step C s (es ++ fs) := by
  induction es generalizing s with
  | nil =>
    have e : s = s' := Option.some.inj hs
    rw [e]
    exact h'
  | cons e es ih =>
    obtain ⟨s1, h1, h2⟩ := exec_cons_some step hs
    refine ⟨h.1, fun t ht => ?_⟩
    have e : t = s1 := Option.some.inj (ht.symm.trans h1)
    rw [e]
    exact ih (h.2 s1 h1) h2

theorem guarded_append_right {C : σ → ε → Prop} {s s' : σ} {es fs : List ε}
    (h : Guarded step C s (es ++ fs)) (hs : exec step s es = some s') : Guarded step C s' fs := by
  induction es generalizing s with
  | nil =>
    have e : s = s' := Option.some.inj hs
    rw [← e]
    exact h
  | cons e es ih =>
    obtain ⟨s1, h1, h2⟩ := exec_cons_some step hs
    exact ih (h.2 s1 h1) h2

theorem guarded_and {C D : σ → ε → Prop} {s : σ} {es : List ε} (h : Guarded step C s es)
    (h' : Guarded step D s es) : Guarded step (fun s e => C s e ∧ D s e) s es := by
  induction es generalizing s with
  | nil => exact trivial
  | cons e es ih => exact ⟨⟨h.1, h'.1⟩, fun s' hs => ih (h.2 s' hs) (h'.2 s' hs)⟩

theorem guarded_of_mem {C : σ → ε → Prop} (es : List ε) (h : ∀ e ∈ es, ∀ s, C s e) :
    ∀ s, Guarded step C s es := by
  induction es with
  | nil => exact fun _ => trivial
  | cons e es ih =>
    intro s
    exact ⟨h e List.mem_cons_self s, fun s' _ => ih (fun a ha => h a (List.mem_cons_of_mem _ ha)) s'⟩

/-- `Guarded` for a condition that can be computed -/
def guardedBy (C : σ → ε → Bool) : σ → List ε → Bool
  | _, [] => true
  | s, e :: es => C s e &&
    match step s e with
    | some s' => guardedBy C s' es
    | none => true

theorem guarded_of_guardedBy {B : σ → ε → Bool} {C : σ → ε → Prop}
    (hB : ∀ s e, B s e = true → C s e) (es : List ε) :
    ∀ s, guardedBy step B s es = true → Guarded step C s es := by
  induction es with
  | nil => exact fun _ _ => trivial
  | cons e es ih =>
    intro s h
    rw [guardedBy, Bool.and_eq_true] at h
    refine ⟨hB s e h.1, fun s' hs => ih s' ?_⟩
    have h2 := h.2
    rw [hs] at h2
    exact h2

theorem exec_guarded {C : σ → ε → Prop} {I : σ → Prop}
    (hstep : ∀ s e s', I s → C s e → step s e = some s' → I s')
    (es : List ε) : ∀ s t, I s → Guarded step C s es → exec step s es = some t → I t := by
  induction es with
  | nil =>
    intro s t hI _ h
    have e : s = t := Option.some.inj h
    exact e ▸ hI
  | cons e es ih =>
    intro s t hI hG h
    obtain ⟨s1, h1, h2⟩ := exec_cons_some step h
    exact ih s1 t (hstep s e s1 hI hG.1 h1) (hG.2 s1 h1) h2

theorem exec_invariant {I : σ → Prop} (hstep : ∀ s e s', I s → step s e = some s' → I s')
    (es : List ε) : ∀ s t, I s → exec step s es = some t → I t := by
  induction es with
  | nil =>
    intro s t hI h
    have e : s = t := Option.some.inj h
    exact e ▸ hI
  | cons e es ih =>
    intro s t hI h
    obtain ⟨s1, h1, h2⟩ := exec_cons_some step h
    exact ih s1 t (hstep s e s1 hI h1) h2

theorem exec_history {I : List ε → σ → Prop}
    (hstep : ∀ past s e s', I past s → step s e = some s' → I (past ++ [e]) s') (es : List ε) :
    ∀ past s t, I past s → exec step s es = some t → I (past ++ es) t := by
  induction es with
  | nil =>
    intro past s t hI h
    have e : s = t := Option.some.inj h
    rw [List.append_nil]
    exact e ▸ hI
  | cons e es ih =>
    intro past s t hI h
    obtain ⟨s1, h1, h2⟩ := exec_cons_some step h
    have h3 := ih (past ++ [e]) s1 t (hstep past s e s1 hI h1) h2
    rwa [List.append_assoc] at h3

/-- what an observer knows at the end of a run, who sees every event and the state in which it is taken -/
def observe {τ : Type} (see : τ → σ → ε → τ) : τ → σ → List ε → τ
  | x, _, [] => x
  | x, s, e :: es =>
    match step s e with
    | some s' => observe see (see x s e) s' es
    | none => see x s e

/-- an invariant of the state and of what the observer knows -/
theorem exec_observed {τ : Type} {see : τ → σ → ε → τ} {C : σ → ε → Prop} {I : τ → σ → Prop}
    (hstep : ∀ x s e s', I x s → C s e → step s e = some s' → I (see x s e) s') (es : List ε) :
    ∀ x s t, I x s → Guarded step C s es → exec step s es = some t →
      I (observe step see x s es) t := by
  induction es with
  | nil =>
    intro x s t hI _ h
    have e : s = t := Option.some.inj h
    exact e ▸ hI
  | cons e es ih =>
    intro x s t hI hG h
    obtain ⟨s1, h1, h2⟩ := exec_cons_some step h
    rw [observe, h1]
    exact ih (see x s e) s1 t (hstep x s e s1 hI hG.1 h1) (hG.2 s1 h1) h2

theorem exec_counted {I : Nat → σ → Prop} (hstep : ∀ n s e s', I n s → step s e = some s' → I (n + 1) s')
    (es : List ε) : ∀ n s t, I n s → exec step s es = some t → I (n + es.length) t := by
  induction es with
  | nil =>
    intro n s t hI h
    have e : s = t := Option.some.inj h
    exact e ▸ hI
  | cons e es ih =>
    intro n s t hI h
    obtain ⟨s1, h1, h2⟩ := exec_cons_some step h
    have h3 := ih (n + 1) s1 t (hstep n s e s1 hI h1) h2
    rwa [List.length_cons, Nat.add_comm es.length 1, ← Nat.add_assoc]

theorem exec_total {C : ε → Prop} {I : σ → Prop}
    (hstep : ∀ s e, I s → C e → ∃ s', step s e = some s' ∧ I s') (es : List ε)
    (hes : ∀ e ∈ es, C e) : ∀ s, I s → ∃ t, exec step s es = some t ∧ I t := by
  induction es with
  | nil => exact fun s hs => ⟨s, rfl, hs⟩
  | cons e es ih =>
    intro s hs
    obtain ⟨s1, h1, hs1⟩ := hstep s e hs (hes e List.mem_cons_self)
    obtain ⟨t, ht, hI⟩ := ih (fun a ha => hes a (List.mem_cons_of_mem _ ha)) s1 hs1
    exact ⟨t, (exec_cons step es h1).trans ht, hI⟩

theorem guarded_iff {C D : σ → ε → Prop} {I : σ → Prop}
    (hstep : ∀ s e s', I s → step s e = some s' → I s') (hCD : ∀ s e, I s → (C s e ↔ D s e))
    (es : List ε) : ∀ s, I s → (Guarded step C s es ↔ Guarded step D s es) := by
  induction es with
  | nil => exact fun _ _ => Iff.rfl
  | cons e es ih =>
    intro s hI
    refine and_congr (hCD s e hI) (forall_congr' fun s' => forall_congr' fun hs => ?_)
    exact ih s' (hstep s e s' hI hs)

theorem guarded_of_le {C : σ → ε → Prop} {I : σ → Prop} {f : σ → Nat} {n : Nat}
    (hstep : ∀ s e s', I s → step s e = some s' → I s')
    (hf : ∀ s e s', step s e = some s' → f s ≤ f s')
    (hC : ∀ s e s', I s → step s e = some s' → f s' ≤ n → C s e) (es : List ε) :
    ∀ s t, I s → exec step s es = some t → f t ≤ n → Guarded step C s es := by
  induction es with
  | nil => exact fun _ _ _ _ _ => trivial
  | cons e es ih =>
    intro s t hI h hn
    obtain ⟨s1, h1, h2⟩ := exec_cons_some step h
    have hle : f s1 ≤ f t := exec_invariant step (I := fun s => f s1 ≤ f s)
      (fun a b c h hs => Nat.le_trans h (hf a b c hs)) es s1 t (Nat.le_refl (f s1)) h2
    refine ⟨hC s e s1 hI h1 (Nat.le_trans hle hn), fun s' hs => ?_⟩
    rw [← Option.some.inj (h1.symm.trans hs)]
    exact ih s1 t (hstep s e s1 hI h1) h2 hn

/-- **A condition that decides a run.**  As long as the events meet `C` the run stays in `I`; the
first one that does not leads to `J`, for good. -/
theorem exec_split {C : σ → ε → Prop} {I J : σ → Prop}
    (hI : ∀ s e s', I s → step s e = some s' → C s e → I s')
    (hJ : ∀ s e s', I s → step s e = some s' → ¬ C s e → J s')
    (hK : ∀ s e s', J s → step s e = some s' → J s') (es : List ε) :
    ∀ s t, I s → exec step s es = some t →
      (Guarded step C s es ∧ I t) ∨ (¬ Guarded step C s es ∧ J t) := by
  induction es with
  | nil =>
    intro s t hs h
    have e : s = t := Option.some.inj h
    exact Or.inl ⟨trivial, e ▸ hs⟩
  | cons e es ih =>
    intro s t hs h
    obtain ⟨s1, h1, h2⟩ := exec_cons_some step h
    by_cases hc : C s e
    · rcases ih s1 t (hI s e s1 hs h1 hc) h2 with ⟨hg, ht⟩ | ⟨hg, ht⟩
      · refine Or.inl ⟨⟨hc, fun s2 h3 => ?_⟩, ht⟩
        rw [← Option.some.inj (h1.symm.trans h3)]
        exact hg
      · exact Or.inr ⟨fun hx => hg (hx.2 s1 h1), ht⟩
    · exact Or.inr ⟨fun hx => hc hx.1,
        exec_invariant step hK es s1 t (hJ s e s1 hs h1 hc) h2⟩

/-- every state of the run meets `P` -/
def Along (P : σ → Prop) : σ → List ε → Prop
  | s, [] => P s
  | s, e :: es => P s ∧ ∀ s', step s e = some s' → Along P s' es

theorem along_head {P : σ → Prop} {s : σ} {es : List ε} (h : Along step P s es) : P s := by
  cases es with
  | nil => exact h
  | cons e es => exact h.1

theorem along_last {P : σ → Prop} (es : List ε) : ∀ s t, Along step P s es →
    exec step s es = some t → P t := by
  induction es with
  | nil =>
    intro s t h hs
    exact Option.some.inj hs ▸ h
  | cons e es ih =>
    intro s t h hs
    obtain ⟨s1, h1, h2⟩ := exec_cons_some step hs
    exact ih s1 t (h.2 s1 h1) h2

/-- **A condition that a property needs.**  The invariant `I` implies `P` and is kept by the events
that meet `C`; an event that does not meet `C` leads out of `P`. -/
theorem along_iff_guarded {C : σ → ε → Prop} {I P : σ → Prop} (hP : ∀ s, I s → P s)
    (hC : ∀ s e s', I s → step s e = some s' → C s e → I s')
    (hN : ∀ s e s', I s → step s e = some s' → ¬ C s e → ¬ P s') (es : List ε) :
    ∀ s t, I s → exec step s es = some t → (Along step P s es ↔ Guarded step C s es) := by
  induction es with
  | nil => exact fun s _ hs _ => ⟨fun _ => trivial, fun _ => hP s hs⟩
  | cons e es ih =>
    intro s t hs h
    obtain ⟨s1, h1, h2⟩ := exec_cons_some step h
    have only : ∀ s2, step s e = some s2 → s2 = s1 := fun s2 h3 =>
      Option.some.inj (h3.symm.trans h1)
    by_cases hc : C s e
    · have hi := ih s1 t (hC s e s1 hs h1 hc) h2
      refine ⟨fun ha => ⟨hc, fun s2 h3 => ?_⟩, fun hg => ⟨hP s hs, fun s2 h3 => ?_⟩⟩
      · rw [only s2 h3]
        exact hi.mp (ha.2 s1 h1)
      · rw [only s2 h3]
        exact hi.mpr (hg.2 s1 h1)
    · refine ⟨fun ha => ?_, fun hg => absurd hg.1 hc⟩
      exact absurd (along_head step (ha.2 s1 h1)) (hN s e s1 hs h1 hc)

end

end Runs
