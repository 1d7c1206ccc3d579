import Mathlib.Data.List.Basic

/-!
# Three-way comparisons

* `Composes x y z`    `x` compares `a` with `b`, `y` compares `b` with `c`, and `z` is then what they
                      say of `a` and `c`: transitivity, with the equal cases told apart;
* `Composes.then`     it goes through a lexicographic comparison;
* `composes_cmp`      a transitive comparison composes.
-/

namespace ThreeWay

def Composes (x y z : Ordering) : Prop := x ≠ .gt → y ≠ .gt → z = x.then y

theorem Composes.then {x y z p q r : Ordering} (h : Composes x y z)
    (h' : x = .eq → y = .eq → Composes p q r) :
    Composes (x.then p) (y.then q) (z.then r) := by
  intro hx hy
  cases x with
  | gt => exact absurd rfl hx
  | lt =>
    cases y with
    | gt => exact absurd rfl hy
    | lt => rw [h nofun nofun]; rfl
    | eq => rw [h nofun nofun]; rfl
  | eq =>
    cases y with
    | gt => exact absurd rfl hy
    | lt =>
      rw [h nofun nofun]
      cases p <;> first | rfl | exact absurd rfl hx
    | eq =>
      rw [h nofun nofun]
      exact h' rfl rfl hx hy

theorem composes_cmp {α : Type} (cmp : α → α → Ordering) [Std.TransCmp cmp] (a b c : α) :
    Composes (cmp a b) (cmp b c) (cmp a c) := by
  intro hx hy
  cases h1 : cmp a b with
  | gt => exact absurd h1 hx
  | lt =>
    cases h2 : cmp b c with
    | gt => exact absurd h2 hy
    | lt => exact Std.TransCmp.lt_trans h1 h2
    | eq => exact Std.TransCmp.lt_of_lt_of_eq h1 h2
  | eq =>
    cases h2 : cmp b c with
    | gt => exact absurd h2 hy
    | lt => exact Std.TransCmp.lt_of_eq_of_lt h1 h2
    | eq => exact Std.TransCmp.eq_trans h1 h2

theorem composes_compare {α : Type} [Ord α] [Std.TransOrd α] (a b c : α) :
    Composes (compare a b) (compare b c) (compare a c) := composes_cmp compare a b c

theorem compare_swap {α : Type} [Ord α] [Std.OrientedOrd α] (a b : α) :
    compare a b = (compare b a).swap := Std.OrientedCmp.eq_swap

end ThreeWay
