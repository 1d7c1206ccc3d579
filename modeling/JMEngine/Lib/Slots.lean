import Mathlib.Data.List.Basic

/-!
# Lists with empty places

A row of places some of which are empty, as far as the last place that is taken.

* `slot`      what is at a place; past the end there is nothing;
* `Ends`      the row ends in a place that is taken;
* `put`       something is put at a place, past the end too;
* `trim`      the empty places at the end go;
* `ext`       a row that `Ends` is given by what is at its places.
-/

namespace Slots

section
variable {α : Type}

def slot (l : List (Option α)) (i : Nat) : Option α := (l[i]?).join

def Ends (l : List (Option α)) : Prop := l = [] ∨ (slot l (l.length - 1)).isSome = true

def put (i : Nat) (x : α) (l : List (Option α)) : List (Option α) :=
  if i < l.length then l.set i (some x)
  else l ++ (List.replicate (i - l.length) none ++ [some x])

def trim : List (Option α) → List (Option α)
  | [] => []
  | x :: l => if x.isNone ∧ trim l = [] then [] else x :: trim l

end

section
variable {α : Type} {l m : List (Option α)} {i j : Nat} {x : α}

theorem slot_of_le (h : l.length ≤ i) : slot l i = none := by
  rw [slot, List.getElem?_eq_none h]
  rfl

theorem lt_of_slot (h : (slot l i).isSome = true) : i < l.length := by
  by_contra hn
  rw [slot_of_le (Nat.not_lt.mp hn)] at h
  cases h

theorem ext (hl : Ends l) (hm : Ends m) (h : ∀ i, slot l i = slot m i) : l = m := by
  -- whichever row ends later has its last place taken, and so has the other
  have hle : ∀ {l m : List (Option α)}, Ends l → (∀ i, slot l i = slot m i) → l.length ≤ m.length := by
    intro l m hl h
    rcases hl with rfl | hl
    · exact Nat.zero_le _
    · rw [h] at hl
      have := lt_of_slot hl
      omega
  have hlen : l.length = m.length := Nat.le_antisymm (hle hl h) (hle hm fun i => (h i).symm)
  refine List.ext_getElem hlen fun i h1 h2 => ?_
  have hi := h i
  rw [slot, slot, List.getElem?_eq_getElem h1, List.getElem?_eq_getElem h2] at hi
  exact hi

theorem length_put : (put i x l).length = max l.length (i + 1) := by
  rw [put]
  split
  · rw [List.length_set]
    omega
  · rw [List.length_append, List.length_append, List.length_replicate, List.length_singleton]
    omega

theorem slot_put : slot (put i x l) j = if j = i then some x else slot l j := by
  rw [put, slot]
  by_cases hi : i < l.length
  · rw [if_pos hi, List.getElem?_set]
    by_cases hj : i = j
    · rw [if_pos hj, if_pos hi, if_pos hj.symm]
      rfl
    · rw [if_neg hj, if_neg (Ne.symm hj), slot]
  · rw [if_neg hi]
    by_cases hj : j < l.length
    · rw [List.getElem?_append_left hj, if_neg (by omega), slot]
    · rw [List.getElem?_append_right (by omega), slot_of_le (by omega)]
      by_cases hji : j - l.length < i - l.length
      · rw [List.getElem?_append_left (by rwa [List.length_replicate]),
          List.getElem?_replicate, if_pos hji, if_neg (by omega)]
        rfl
      · rw [List.getElem?_append_right (by rw [List.length_replicate]; omega), List.length_replicate]
        by_cases hje : j = i
        · rw [hje, Nat.sub_self, if_pos rfl]
          rfl
        · rw [if_neg hje, List.getElem?_eq_none (by rw [List.length_singleton]; omega)]
          rfl

theorem ends_put (h : Ends l) : Ends (put i x l) := by
  refine .inr ?_
  rw [slot_put, length_put]
  split
  · rfl
  · next hne =>
    rcases h with rfl | h
    · exact absurd (show max 0 (i + 1) - 1 = i by omega) hne
    · rwa [show max l.length (i + 1) - 1 = l.length - 1 by omega]

theorem slot_take {n : Nat} : slot (l.take n) i = if i < n then slot l i else none := by
  rw [slot, List.getElem?_take]
  split
  · rfl
  · rfl

theorem slot_cons_succ {y : Option α} : slot (y :: l) (i + 1) = slot l i := rfl

theorem slot_trim : slot (trim l) i = slot l i := by
  induction l generalizing i with
  | nil => rfl
  | cons y l ih =>
    rw [trim]
    split
    · next h =>
      cases i with
      | zero => exact (Option.isNone_iff_eq_none.mp h.1).symm
      | succ i =>
        rw [slot_cons_succ, ← ih, h.2]
        rfl
    · cases i with
      | zero => rfl
      | succ i => exact ih

theorem ends_trim : Ends (trim l) := by
  induction l with
  | nil => exact .inl rfl
  | cons y l ih =>
    rw [trim]
    split
    · exact .inl rfl
    · next h =>
      refine .inr ?_
      rcases ih with he | he
      · rw [he] at h ⊢
        cases y with
        | none => exact absurd ⟨rfl, rfl⟩ h
        | some a => rfl
      · have hlt := lt_of_slot he
        rw [List.length_cons, show (trim l).length + 1 - 1 = (trim l).length - 1 + 1 by omega]
        exact he

theorem length_trim_le : (trim l).length ≤ l.length := by
  induction l with
  | nil => exact Nat.le_refl 0
  | cons y l ih =>
    rw [trim]
    split
    · exact Nat.zero_le _
    · exact Nat.succ_le_succ ih

end

end Slots
