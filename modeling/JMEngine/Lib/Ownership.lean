import Mathlib.Data.List.Basic

/-!
# Everything has one owner

`R p a` says that `p` owns `a`, and `S a` that `a` exists.

* `Owned R S`        what exists has exactly one owner;
* `Owned.give`       something old or new goes to an owner;
* `Owned.remove`     things cease to exist, and their owners lose them.
-/

namespace Ownership

section
variable {P A : Type} {R R' : P → A → Prop} {S S' : A → Prop}

structure Owned (R : P → A → Prop) (S : A → Prop) : Prop where
  one : ∀ p q a, R p a → R q a → p = q
  all : ∀ a, S a ↔ ∃ p, R p a

theorem Owned.give (h : Owned R S) {b : A} {q : P}
    (hR : ∀ p a, R' p a ↔ a = b ∧ p = q ∨ a ≠ b ∧ R p a) (hS : ∀ a, S' a ↔ a = b ∨ S a) :
    Owned R' S' := by
  refine ⟨fun p p' a hp hp' => ?_, fun a => ?_⟩
  · rcases (hR p a).mp hp with ⟨e, rfl⟩ | ⟨hne, hp⟩
    · rcases (hR p' a).mp hp' with ⟨_, rfl⟩ | ⟨hne, _⟩
      · rfl
      · exact absurd e hne
    · rcases (hR p' a).mp hp' with ⟨e, _⟩ | ⟨_, hp'⟩
      · exact absurd e hne
      · exact h.one p p' a hp hp'
  · rw [hS]
    by_cases ha : a = b
    · exact ⟨fun _ => ⟨q, (hR q a).mpr (.inl ⟨ha, rfl⟩)⟩, fun _ => .inl ha⟩
    · constructor
      · rintro (e | hs)
        · exact absurd e ha
        · obtain ⟨p, hp⟩ := (h.all a).mp hs
          exact ⟨p, (hR p a).mpr (.inr ⟨ha, hp⟩)⟩
      · rintro ⟨p, hp⟩
        rcases (hR p a).mp hp with ⟨e, _⟩ | ⟨_, hp⟩
        · exact .inl e
        · exact .inr ((h.all a).mpr ⟨p, hp⟩)

theorem Owned.remove (h : Owned R S) {T : A → Prop} (hR : ∀ p a, R' p a ↔ ¬ T a ∧ R p a)
    (hS : ∀ a, S' a ↔ ¬ T a ∧ S a) : Owned R' S' := by
  refine ⟨fun p p' a hp hp' => h.one p p' a ((hR p a).mp hp).2 ((hR p' a).mp hp').2, fun a => ?_⟩
  rw [hS, h.all]
  constructor
  · rintro ⟨hT, p, hp⟩
    exact ⟨p, (hR p a).mpr ⟨hT, hp⟩⟩
  · rintro ⟨p, hp⟩
    obtain ⟨hT, hp⟩ := (hR p a).mp hp
    exact ⟨hT, p, hp⟩

theorem Owned.congr (h : Owned R S) (hR : ∀ p a, R' p a ↔ R p a) (hS : ∀ a, S' a ↔ S a) : Owned R' S' :=
  ⟨fun p q a hp hq => h.one p q a ((hR p a).mp hp) ((hR q a).mp hq),
    fun a => (hS a).trans ((h.all a).trans (exists_congr fun p => (hR p a).symm))⟩

end

end Ownership
