import Mathlib.Data.List.Basic

/-!
# Machines that read tokens

A lexer `next` takes one token off a text. A machine moves from state to state with every token
and ends with a verdict; it keeps its own stack in its state, so that a recursive parser can be
compared with it.

* `Goes`          from a state and a text, to a state or a verdict and the text left;
* `Goes.trans`, `Goes.verdict_unique`   runs compose, and a text has one verdict;
* `Goes.follow`   a second text whose tokens agree, as far as the run reads, has the same run;
* `Goes.cut`      a second text that agrees up to a token and then ends has its verdict from there.
-/

set_option linter.unusedSectionVars false

namespace TokenMachine

variable {α τ σ ρ : Type} (next : List α → τ × List α) (step : σ → τ → σ ⊕ ρ)

def after : Nat → List α → List α
  | 0, l => l
  | k + 1, l => after k (next l).2

/-- one token or more, up to a state or a verdict -/
inductive Goes : σ → List α → σ ⊕ ρ → List α → Prop
  | last (s : σ) (l : List α) : Goes s l (step s (next l).1) (next l).2
  | more {s s' : σ} {l r : List α} {x : σ ⊕ ρ} (h : step s (next l).1 = .inl s')
      (hr : Goes s' (next l).2 x r) : Goes s l x r

variable {next step} {s s' : σ} {l l' m r r' : List α} {x : σ ⊕ ρ}

theorem Goes.one (h : step s (next l).1 = x) : Goes next step s l x (next l).2 :=
  h ▸ Goes.last s l

theorem Goes.head (h : Goes next step s l x r) :
    step s (next l).1 = x ∨ ∃ t, step s (next l).1 = .inl t := by
  cases h with
  | last => exact Or.inl rfl
  | more hs _ => exact Or.inr ⟨_, hs⟩

theorem Goes.trans (h : Goes next step s l (.inl s') m) (hr : Goes next step s' m x r) :
    Goes next step s l x r := by
  generalize hy : (Sum.inl s' : σ ⊕ ρ) = y at h
  induction h with
  | last s l => exact Goes.more hy.symm hr
  | more hs _ ih => exact Goes.more hs (ih hr hy)

theorem Goes.congr {t : σ} (h : Goes next step s l x r)
    (hs : step t (next m).1 = step s (next l).1) (hm : (next m).2 = (next l).2) :
    Goes next step t m x r := by
  cases h with
  | last =>
    rw [← hm]
    exact Goes.one hs
  | more he hr => exact Goes.more (hs.trans he) (hm ▸ hr)

theorem Goes.verdict_unique {a b : ρ} (h : Goes next step s l (.inr a) r)
    (h' : Goes next step s l (.inr b) r') : a = b ∧ r = r' := by
  generalize hy : (Sum.inr a : σ ⊕ ρ) = y at h
  induction h with
  | last s l =>
    generalize hz : (Sum.inr b : σ ⊕ ρ) = z at h'
    cases h' with
    | last => exact ⟨Sum.inr.inj (hy.trans hz.symm), rfl⟩
    | more hs _ => cases hy.trans hs
  | more hs _ ih =>
    generalize hz : (Sum.inr b : σ ⊕ ρ) = z at h'
    cases h' with
    | last => cases hz.trans hs
    | more hs' hr' =>
      cases hs.symm.trans hs'
      exact ih (hz ▸ hr') hy

theorem after_add (j k : Nat) (l : List α) : after next (j + k) l = after next k (after next j l) := by
  induction j generalizing l with
  | zero => rw [Nat.zero_add]; rfl
  | succ j ih => rw [Nat.succ_add]; exact ih (next l).2

theorem after_nil (h : (next []).2 = []) (k : Nat) : after next k [] = [] := by
  induction k with
  | zero => rfl
  | succ k ih =>
    show after next k (next []).2 = []
    rw [h]
    exact ih

section Texts

variable (hsuf : ∀ l, (next l).2 <:+ l)
  (hlast : ∀ s l, step s (next l).1 = x → (next l).2.length < l.length)

include hsuf

theorem after_suffix (k : Nat) (l : List α) : after next k l <:+ l := by
  induction k generalizing l with
  | zero => exact List.suffix_rfl
  | succ k ih => exact (ih (next l).2).trans (hsuf l)

include hlast

theorem Goes.length_lt (h : Goes next step s l x r) : r.length < l.length := by
  induction h with
  | last s l => exact hlast s l rfl
  | @more _ _ l _ _ _ _ ih => exact Nat.lt_of_lt_of_le (ih hlast) (hsuf l).length_le

variable {R : List α → List α → Prop} {P : List α → Prop}
  (hstep : ∀ s l l', R l l' → P l → R (next l).2 (next l').2 ∧
    ∀ y, step s (next l).1 = y → (y = x ∨ ∃ t, y = .inl t) → step s (next l').1 = y)

include hstep

/-- **The same run on a second text.** -/
theorem Goes.follow (h : Goes next step s l x r) (hR : R l l')
    (hP : ∀ k, r.length < (after next k l).length → P (after next k l)) :
    ∃ r', Goes next step s l' x r' ∧ R r r' := by
  induction h generalizing l' with
  | last s l =>
    obtain ⟨hR', hs⟩ := hstep s l l' hR (hP 0 (hlast s l rfl))
    exact ⟨_, Goes.one (hs _ rfl (Or.inl rfl)), hR'⟩
  | @more s t l r x ht hr ih =>
    have hlt := Nat.lt_of_lt_of_le (hr.length_lt hsuf hlast) (hsuf l).length_le
    obtain ⟨hR', hs⟩ := hstep s l l' hR (hP 0 hlt)
    obtain ⟨r', hr', hRr⟩ := ih hlast hstep hR' fun k hk => hP (k + 1) hk
    exact ⟨r', Goes.more (hs _ ht (Or.inr ⟨t, rfl⟩)) hr', hRr⟩

theorem Goes.cut {C : List α → Prop} {Q : ρ → Prop}
    (hmid : ∀ s l, C l → step s (next l).1 ≠ x)
    (hcut : ∀ s t l l', R l l' → C l → step s (next l).1 = .inl t →
      ∃ a r', Goes next step s l' (.inr a) r' ∧ Q a)
    (h : Goes next step s l x r) (hR : R l l') (k : Nat) (hk : r.length < (after next k l).length)
    (hP : ∀ j, j < k → P (after next j l)) (hC : C (after next k l)) :
    ∃ a r', Goes next step s l' (.inr a) r' ∧ Q a := by
  induction h generalizing l' k with
  | last s l =>
    cases k with
    | zero => exact absurd rfl (hmid s l hC)
    | succ k => exact absurd hk (Nat.not_lt.mpr (after_suffix hsuf k _).length_le)
  | @more s t l r x ht hr ih =>
    cases k with
    | zero => exact hcut s t l l' hR hC ht
    | succ k =>
      obtain ⟨hR', hs⟩ := hstep s l l' hR (hP 0 (Nat.succ_pos k))
      obtain ⟨a, r', hr', hQ⟩ := ih hlast hstep hmid hR' k hk
        (fun j hj => hP (j + 1) (Nat.succ_lt_succ hj)) hC
      exact ⟨a, r', Goes.more (hs _ ht (Or.inr ⟨t, rfl⟩)) hr', hQ⟩

end Texts

end TokenMachine
