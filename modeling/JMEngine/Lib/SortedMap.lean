import Mathlib.Data.List.Basic

/-!
# Sorted maps

A map is the list of its entries in the order of their keys, as an ordered map goes through them.

* `find`, `alter`, `erase`     look a key up, change what is there or put something in, take it out;
* `Sorted`                     the keys are in strict order;
* `find_alter_self`, `find_alter_of_ne`, `find_erase_self`, `find_erase_of_ne`
-/

set_option linter.unusedSectionVars false

namespace SortedMap

section
variable {K V : Type} (cmp : K → K → Ordering)

def find (k : K) : List (K × V) → Option V
  | [] => none
  | (j, v) :: m => if cmp k j = .eq then some v else find k m

/-- what is at `k` changes by `f`; if nothing is there, `f none` is put in at its place -/
def alter (k : K) (f : Option V → V) : List (K × V) → List (K × V)
  | [] => [(k, f none)]
  | (j, v) :: m =>
    match cmp k j with
    | .eq => (j, f (some v)) :: m
    | .lt => (k, f none) :: (j, v) :: m
    | .gt => (j, v) :: alter k f m

def erase (k : K) : List (K × V) → List (K × V)
  | [] => []
  | (j, v) :: m => if cmp k j = .eq then m else (j, v) :: erase k m

def Sorted (m : List (K × V)) : Prop := m.Pairwise fun a b => cmp a.1 b.1 = .lt

end

section
variable {K V : Type} {cmp : K → K → Ordering} [Std.TransCmp cmp] [Std.LawfulEqCmp cmp]
  {j k : K} {m : List (K × V)} {f : Option V → V}

theorem cmp_eq_iff : cmp j k = .eq ↔ j = k :=
  ⟨Std.LawfulEqCmp.eq_of_compare, fun e => e ▸ Std.ReflCmp.compare_self⟩

theorem not_lt_self : cmp k k ≠ .lt := by
  rw [show cmp k k = .eq from Std.ReflCmp.compare_self]
  nofun

theorem lt_of_gt (h : cmp j k = .gt) : cmp k j = .lt := by
  have hs : cmp k j = (cmp j k).swap := Std.OrientedCmp.eq_swap
  rw [hs, h]
  rfl

theorem find_eq_none (h : ∀ p ∈ m, p.1 ≠ k) : find cmp k m = none := by
  induction m with
  | nil => rfl
  | cons p m ih =>
    have hp : ¬ cmp k p.1 = .eq := fun e => h p List.mem_cons_self (cmp_eq_iff.mp e).symm
    rw [find, if_neg hp, ih fun q hq => h q (List.mem_cons_of_mem p hq)]

theorem find_isSome_iff : (find cmp k m).isSome = true ↔ ∃ p ∈ m, p.1 = k := by
  induction m with
  | nil => exact ⟨nofun, nofun⟩
  | cons p m ih =>
    rw [find]
    by_cases hp : cmp k p.1 = .eq
    · rw [if_pos hp]
      exact ⟨fun _ => ⟨p, List.mem_cons_self, (cmp_eq_iff.mp hp).symm⟩, fun _ => rfl⟩
    · rw [if_neg hp, ih]
      constructor
      · rintro ⟨q, hq, e⟩
        exact ⟨q, List.mem_cons_of_mem p hq, e⟩
      · rintro ⟨q, hq, e⟩
        rcases List.mem_cons.mp hq with rfl | hq
        · exact absurd (cmp_eq_iff.mpr e.symm) hp
        · exact ⟨q, hq, e⟩

theorem mem_of_find {v : V} (h : find cmp k m = some v) : ∃ p ∈ m, p.2 = v := by
  induction m with
  | nil => cases h
  | cons q m ih =>
    rw [find] at h
    split at h
    · exact ⟨q, List.mem_cons_self, Option.some.inj h⟩
    · obtain ⟨p, hp, e⟩ := ih h
      exact ⟨p, List.mem_cons_of_mem q hp, e⟩

theorem find_of_lt {p : K × V} (h : Sorted cmp (p :: m)) (hk : cmp k p.1 = .lt) :
    find cmp k (p :: m) = none := by
  refine find_eq_none fun q hq e => ?_
  have hlt : cmp k q.1 = .lt := by
    rcases List.mem_cons.mp hq with rfl | hq
    · exact hk
    · exact Std.TransCmp.lt_trans hk ((List.pairwise_cons.mp h).1 q hq)
  exact not_lt_self (e ▸ hlt)

theorem find_alter_self (h : Sorted cmp m) : find cmp k (alter cmp k f m) = some (f (find cmp k m)) := by
  induction m with
  | nil => exact if_pos Std.ReflCmp.compare_self
  | cons p m ih =>
    rw [alter]
    cases hc : cmp k p.1 with
    | lt =>
      rw [find_of_lt h hc]
      exact if_pos Std.ReflCmp.compare_self
    | eq =>
      show (if cmp k p.1 = .eq then some (f (some p.2)) else _) = some (f (if cmp k p.1 = .eq then _ else _))
      rw [if_pos hc, if_pos hc]
    | gt =>
      have hne : ¬ cmp k p.1 = .eq := by rw [hc]; nofun
      show (if cmp k p.1 = .eq then _ else find cmp k (alter cmp k f m)) =
        some (f (if cmp k p.1 = .eq then _ else find cmp k m))
      rw [if_neg hne, if_neg hne]
      exact ih (List.pairwise_cons.mp h).2

theorem find_alter_of_ne (hne : j ≠ k) : find cmp j (alter cmp k f m) = find cmp j m := by
  have hjk : ¬ cmp j k = .eq := fun e => hne (cmp_eq_iff.mp e)
  induction m with
  | nil => exact if_neg hjk
  | cons p m ih =>
    rw [alter]
    cases hc : cmp k p.1 with
    | lt => exact if_neg hjk
    | eq =>
      have hjp : ¬ cmp j p.1 = .eq := by rwa [← cmp_eq_iff.mp hc]
      exact (if_neg hjp).trans (if_neg hjp).symm
    | gt =>
      show (if cmp j p.1 = .eq then _ else find cmp j (alter cmp k f m)) = _
      rw [ih]
      rfl

theorem mem_alter {p : K × V} (hp : p ∈ alter cmp k f m) : p.1 = k ∨ ∃ q ∈ m, q.1 = p.1 := by
  induction m with
  | nil => exact .inl (by rw [List.mem_singleton.mp hp])
  | cons q m ih =>
    rw [alter] at hp
    cases hc : cmp k q.1 with
    | lt =>
      rw [hc] at hp
      rcases List.mem_cons.mp hp with rfl | hp
      · exact .inl rfl
      · exact .inr ⟨p, hp, rfl⟩
    | eq =>
      rw [hc] at hp
      rcases List.mem_cons.mp hp with rfl | hp
      · exact .inl (cmp_eq_iff.mp hc).symm
      · exact .inr ⟨p, List.mem_cons_of_mem q hp, rfl⟩
    | gt =>
      rw [hc] at hp
      rcases List.mem_cons.mp hp with rfl | hp
      · exact .inr ⟨_, List.mem_cons_self, rfl⟩
      · rcases ih hp with e | ⟨r, hr, e⟩
        · exact .inl e
        · exact .inr ⟨r, List.mem_cons_of_mem q hr, e⟩

theorem sorted_alter (h : Sorted cmp m) : Sorted cmp (alter cmp k f m) := by
  induction m with
  | nil => exact List.pairwise_singleton _ _
  | cons q m ih =>
    obtain ⟨hq, hm⟩ := List.pairwise_cons.mp h
    rw [alter]
    cases hc : cmp k q.1 with
    | lt =>
      refine List.pairwise_cons.mpr ⟨fun r hr => ?_, h⟩
      rcases List.mem_cons.mp hr with rfl | hr
      · exact hc
      · exact Std.TransCmp.lt_trans hc (hq r hr)
    | eq => exact List.pairwise_cons.mpr ⟨hq, hm⟩
    | gt =>
      refine List.pairwise_cons.mpr ⟨fun r hr => ?_, ih hm⟩
      rcases mem_alter hr with e | ⟨s, hs, e⟩
      · show cmp q.1 r.1 = .lt
        rw [e]
        exact lt_of_gt hc
      · show cmp q.1 r.1 = .lt
        rw [← e]
        exact hq s hs

theorem le_last {p q : K × V} (h : Sorted cmp m) (hq : m.getLast? = some q) (hp : p ∈ m) :
    p = q ∨ cmp p.1 q.1 = .lt := by
  obtain ⟨l, rfl⟩ := List.getLast?_eq_some_iff.mp hq
  rcases List.mem_append.mp hp with hp | hp
  · exact .inr ((List.pairwise_append.mp h).2.2 p hp q (List.mem_singleton.mpr rfl))
  · exact .inl (List.mem_singleton.mp hp)

theorem erase_sublist (k : K) (m : List (K × V)) : List.Sublist (erase cmp k m) m := by
  induction m with
  | nil => exact List.Sublist.refl []
  | cons q m ih =>
    rw [erase]
    split
    · exact List.sublist_cons_self q m
    · exact ih.cons_cons q

theorem sorted_erase (h : Sorted cmp m) : Sorted cmp (erase cmp k m) := h.sublist (erase_sublist k m)

theorem find_erase_self (h : Sorted cmp m) : find cmp k (erase cmp k m) = none := by
  induction m with
  | nil => rfl
  | cons q m ih =>
    obtain ⟨hq, hm⟩ := List.pairwise_cons.mp h
    rw [erase]
    split
    · next hc =>
      refine find_eq_none fun r hr e => ?_
      have hlt := hq r hr
      rw [e, ← cmp_eq_iff.mp hc] at hlt
      exact not_lt_self hlt
    · next hc => exact (if_neg hc).trans (ih hm)

theorem find_erase_of_ne (hne : j ≠ k) : find cmp j (erase cmp k m) = find cmp j m := by
  induction m with
  | nil => rfl
  | cons q m ih =>
    rw [erase]
    split
    · next hc =>
      have hjq : ¬ cmp j q.1 = .eq := fun e => hne ((cmp_eq_iff.mp e).trans (cmp_eq_iff.mp hc).symm)
      exact (if_neg hjq).symm
    · show (if cmp j q.1 = .eq then _ else find cmp j (erase cmp k m)) = _
      rw [ih]
      rfl

end

end SortedMap
