import Mathlib.Data.List.Dedup
import Mathlib.Order.Lattice

/-!
# Lists whose keys come in order

A list of entries whose keys never fall, read key by key.

* `group k xs`      the entries of `xs` under the key `k`, in order;
* `flatMap_group`   an ascending list of keys that has them all reads the whole list, in order;
* `keys`            there is such a list.
-/

set_option linter.unusedSectionVars false

namespace Groups

section
variable {κ α : Type} [LinearOrder κ]

def group (k : κ) (xs : List (κ × α)) : List α := (xs.filter fun x => x.1 = k).map Prod.snd

def Ascending (xs : List (κ × α)) : Prop := xs.Pairwise fun x y => x.1 ≤ y.1

theorem Ascending.concat {xs : List (κ × α)} (h : Ascending xs) {y : κ × α}
    (hy : ∀ x ∈ xs, x.1 ≤ y.1) : Ascending (xs ++ [y]) := by
  refine List.pairwise_append.mpr ⟨h, List.pairwise_singleton _ _, fun x hx z hz => ?_⟩
  rw [List.mem_singleton.mp hz]
  exact hy x hx

theorem Ascending.split {k : κ} {xs : List (κ × α)} (h : Ascending xs) (hk : ∀ x ∈ xs, k ≤ x.1) :
    xs = xs.filter (fun x => x.1 = k) ++ xs.filter fun x => x.1 ≠ k := by
  induction xs with
  | nil => rfl
  | cons x xs ih =>
    obtain ⟨hx, hxs⟩ := List.pairwise_cons.mp h
    by_cases e : x.1 = k
    · rw [List.filter_cons_of_pos (by simpa using e), List.filter_cons_of_neg (by simpa using e),
        List.cons_append, ← ih hxs fun y hy => hk y (List.mem_cons_of_mem _ hy)]
    · have hlt : k < x.1 := lt_of_le_of_ne (hk x List.mem_cons_self) (Ne.symm e)
      have hnone : (x :: xs).filter (fun x => x.1 = k) = [] := by
        refine List.filter_eq_nil_iff.mpr fun y hy => ?_
        have : k < y.1 := by
          rcases List.mem_cons.mp hy with rfl | hy
          · exact hlt
          · exact lt_of_lt_of_le hlt (hx y hy)
        simpa using this.ne'
      have hall : (x :: xs).filter (fun x => x.1 ≠ k) = x :: xs := by
        refine List.filter_eq_self.mpr fun y hy => ?_
        have := List.filter_eq_nil_iff.mp hnone y hy
        simpa using this
      rw [hnone, hall, List.nil_append]

theorem flatMap_group (ks : List κ) (hks : ks.Pairwise (· < ·)) (xs : List (κ × α))
    (h : Ascending xs) (hin : ∀ x ∈ xs, x.1 ∈ ks) :
    (ks.flatMap fun k => group k xs) = xs.map Prod.snd := by
  induction ks generalizing xs with
  | nil =>
    cases xs with
    | nil => rfl
    | cons x xs => cases hin x List.mem_cons_self
  | cons k ks ih =>
    obtain ⟨hk, hks'⟩ := List.pairwise_cons.mp hks
    have hleast : ∀ x ∈ xs, k ≤ x.1 := by
      intro x hx
      rcases List.mem_cons.mp (hin x hx) with e | hm
      · exact e.ge
      · exact (hk _ hm).le
    have hrest := ih hks' (xs.filter fun x => x.1 ≠ k) (h.filter _) (fun x hx => by
      obtain ⟨hx, hne⟩ := List.mem_filter.mp hx
      exact (List.mem_cons.mp (hin x hx)).resolve_left (of_decide_eq_true hne))
    have hgroup : ∀ k' ∈ ks, group k' (xs.filter fun x => x.1 ≠ k) = group k' xs := by
      intro k' hk'
      unfold group
      rw [List.filter_filter]
      congr 1
      refine List.filter_congr fun x _ => ?_
      have hne : k' ≠ k := (hk k' hk').ne'
      by_cases e : x.1 = k'
      · simp [e, hne]
      · simp [e]
    rw [List.flatMap_cons, ← List.flatMap_congr hgroup, hrest]
    conv_rhs => rw [h.split hleast, List.map_append]
    rfl

def keys (xs : List (κ × α)) : List κ := (xs.map Prod.fst).dedup

theorem mem_keys (xs : List (κ × α)) : ∀ x ∈ xs, x.1 ∈ keys xs := by
  intro x hx
  exact List.mem_dedup.mpr (List.mem_map_of_mem hx)

theorem Ascending.keys {xs : List (κ × α)} (h : Ascending xs) : (keys xs).Pairwise (· < ·) := by
  have hle : (Groups.keys xs).Pairwise (· ≤ ·) :=
    (List.pairwise_map.mpr h).sublist (List.dedup_sublist _)
  have hne : (Groups.keys xs).Pairwise (· ≠ ·) := List.nodup_dedup _
  exact hle.imp₂ (fun _ _ h1 h2 => lt_of_le_of_ne h1 h2) hne

end

end Groups
