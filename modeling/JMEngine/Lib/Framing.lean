import Mathlib.Data.List.Basic
import Mathlib.Tactic.Ring

/-!
# Cutting a stream into frames, however it arrives

A `Framer` looks at the front of a stream and says one of three things: it needs more symbols,
the front can never become a frame, or the first `k` symbols are a frame.  The last two verdicts
do not change when more symbols arrive.

* `Framer.frames xs`, `Framer.rest xs`   the maximal decoding of `xs`: the frames it starts with
                                         and what follows the last of them;
* `frames_append`, `rest_append`         decoding a longer stream resumes at the rest, so the
                                         frames do not depend on where the stream was cut.
-/

set_option linter.unusedSectionVars false

namespace Framing

inductive Verdict where
  | more
  | bad
  | frame (k : Nat)
  deriving DecidableEq, Repr

structure Framer (α : Type) where
  scan : List α → Verdict
  scan_nil : scan [] = .more
  scan_pos : ∀ xs k, scan xs = .frame k → 0 < k ∧ k ≤ xs.length
  frame_append : ∀ xs ys k, scan xs = .frame k → scan (xs ++ ys) = .frame k
  bad_append : ∀ xs ys, scan xs = .bad → scan (xs ++ ys) = .bad

section
variable {α : Type} (F : Framer α)

/-- frames at the front of `xs`, looking for at most `fuel` of them -/
def Framer.cut : Nat → List α → List (List α)
  | 0, _ => []
  | fuel+1, xs =>
    match F.scan xs with
    | .frame k => xs.take k :: Framer.cut fuel (xs.drop k)
    | _ => []

def Framer.frames (xs : List α) : List (List α) := F.cut xs.length xs

def Framer.rest (xs : List α) : List α := xs.drop (F.frames xs).flatten.length

def Framer.Stuck (xs : List α) : Prop := ∀ k, F.scan xs ≠ .frame k

theorem Framer.cut_fuel (fuel : Nat) (xs : List α) (h : xs.length ≤ fuel) :
    F.cut fuel xs = F.cut xs.length xs := by
  induction fuel using Nat.strong_induction_on generalizing xs with
  | _ fuel ih =>
    cases fuel with
    | zero =>
      have e : xs.length = 0 := by omega
      rw [e]
    | succ f =>
      cases hl : xs.length with
      | zero =>
        have e : xs = [] := List.length_eq_zero_iff.mp hl
        cases hs : F.scan xs with
        | frame k =>
          have := F.scan_pos xs k hs
          omega
        | more => simp only [Framer.cut, hs]
        | bad => simp only [Framer.cut, hs]
      | succ l =>
        cases hs : F.scan xs with
        | frame k =>
          obtain ⟨h0, h1⟩ := F.scan_pos xs k hs
          have hd : (xs.drop k).length = xs.length - k := List.length_drop
          rw [Framer.cut, hs, Framer.cut, hs]
          simp only
          rw [ih f (by omega) (xs.drop k) (by omega)]
          by_cases hf : l = f
          · rw [hf, ih f (by omega) (xs.drop k) (by omega)]
          · rw [ih l (by omega) (xs.drop k) (by omega)]
        | more => rw [Framer.cut, hs, Framer.cut, hs]
        | bad => rw [Framer.cut, hs, Framer.cut, hs]

theorem Framer.frames_cons (xs : List α) (k : Nat) (h : F.scan xs = .frame k) :
    F.frames xs = xs.take k :: F.frames (xs.drop k) := by
  obtain ⟨h0, h1⟩ := F.scan_pos xs k h
  have hd : (xs.drop k).length = xs.length - k := List.length_drop
  unfold Framer.frames
  obtain ⟨l, hl⟩ : ∃ l, xs.length = l + 1 := ⟨xs.length - 1, by omega⟩
  rw [hl, Framer.cut, h]
  simp only
  rw [F.cut_fuel l (xs.drop k) (by omega)]

theorem Framer.frames_stuck (xs : List α) (h : F.Stuck xs) : F.frames xs = [] := by
  unfold Framer.frames
  cases hl : xs.length with
  | zero => rfl
  | succ l =>
    rw [Framer.cut]
    cases hs : F.scan xs with
    | frame k => exact absurd hs (h k)
    | more => rfl
    | bad => rfl

theorem Framer.rest_stuck (xs : List α) (h : F.Stuck xs) : F.rest xs = xs := by
  unfold Framer.rest
  rw [F.frames_stuck xs h]
  rfl

theorem Framer.rest_cons (xs : List α) (k : Nat) (h : F.scan xs = .frame k) :
    F.rest xs = F.rest (xs.drop k) := by
  obtain ⟨h0, h1⟩ := F.scan_pos xs k h
  unfold Framer.rest
  rw [F.frames_cons xs k h, List.flatten_cons, List.length_append, List.length_take,
    Nat.min_eq_left h1, List.drop_drop]

/-- induction along the frames of a stream -/
theorem Framer.decode_induction {P : List α → Prop} (stuck : ∀ xs, F.Stuck xs → P xs)
    (cons : ∀ xs k, F.scan xs = .frame k → P (xs.drop k) → P xs) (xs : List α) : P xs := by
  induction hn : xs.length using Nat.strong_induction_on generalizing xs with
  | _ n ih =>
    cases hs : F.scan xs with
    | frame k =>
      obtain ⟨h0, h1⟩ := F.scan_pos xs k hs
      have hd : (xs.drop k).length = xs.length - k := List.length_drop
      exact cons xs k hs (ih _ (by omega) (xs.drop k) rfl)
    | more => exact stuck xs (fun k hk => by rw [hs] at hk; cases hk)
    | bad => exact stuck xs (fun k hk => by rw [hs] at hk; cases hk)

theorem Framer.flatten_rest (xs : List α) : (F.frames xs).flatten ++ F.rest xs = xs := by
  induction xs using F.decode_induction with
  | stuck xs h => rw [F.frames_stuck xs h, F.rest_stuck xs h]; rfl
  | cons xs k h ih =>
    rw [F.frames_cons xs k h, F.rest_cons xs k h, List.flatten_cons, List.append_assoc, ih,
      List.take_append_drop]

theorem Framer.stuck_rest (xs : List α) : F.Stuck (F.rest xs) := by
  induction xs using F.decode_induction with
  | stuck xs h => rw [F.rest_stuck xs h]; exact h
  | cons xs k h ih => rw [F.rest_cons xs k h]; exact ih

theorem Framer.decode_append (xs ys : List α) :
    F.frames (xs ++ ys) = F.frames xs ++ F.frames (F.rest xs ++ ys) ∧
      F.rest (xs ++ ys) = F.rest (F.rest xs ++ ys) := by
  induction xs using F.decode_induction with
  | stuck xs h =>
    rw [F.rest_stuck xs h, F.frames_stuck xs h]
    exact ⟨rfl, rfl⟩
  | cons xs k h ih =>
    obtain ⟨h0, h1⟩ := F.scan_pos xs k h
    have h' := F.frame_append xs ys k h
    rw [F.frames_cons _ k h', F.rest_cons _ k h', F.frames_cons xs k h, F.rest_cons xs k h,
      List.take_append_of_le_length h1, List.drop_append_of_le_length h1, ih.1, ih.2]
    exact ⟨rfl, rfl⟩

theorem Framer.frames_append (xs ys : List α) :
    F.frames (xs ++ ys) = F.frames xs ++ F.frames (F.rest xs ++ ys) := (F.decode_append xs ys).1

theorem Framer.rest_append (xs ys : List α) : F.rest (xs ++ ys) = F.rest (F.rest xs ++ ys) :=
  (F.decode_append xs ys).2

/-! ## streams that are made of frames -/

/-- `f` is exactly one frame -/
def Framer.Whole (f : List α) : Prop := F.scan f = .frame f.length

theorem Framer.scan_whole_append (f ys : List α) (h : F.Whole f) :
    F.scan (f ++ ys) = .frame f.length := F.frame_append f ys f.length h

theorem Framer.decode_flatten (fs : List (List α)) (hf : ∀ f ∈ fs, F.Whole f) (t : List α)
    (ht : F.Stuck t) : F.frames (fs.flatten ++ t) = fs ∧ F.rest (fs.flatten ++ t) = t := by
  induction fs with
  | nil =>
    rw [List.flatten_nil, List.nil_append, F.frames_stuck t ht, F.rest_stuck t ht]
    exact ⟨rfl, rfl⟩
  | cons f fs ih =>
    obtain ⟨i1, i2⟩ := ih (fun g hg => hf g (List.mem_cons_of_mem _ hg))
    have hs := F.scan_whole_append f (fs.flatten ++ t) (hf f List.mem_cons_self)
    rw [List.flatten_cons, List.append_assoc, F.frames_cons _ _ hs, F.rest_cons _ _ hs,
      List.take_left, List.drop_left, i1, i2]
    exact ⟨rfl, rfl⟩

theorem Framer.scan_part (f t : List α) (u : List α) (h : F.Whole f) (he : f = t ++ u) (hu : u ≠ []) :
    F.scan t = .more := by
  have hl : f.length = t.length + u.length := by rw [he, List.length_append]
  have hu' : 0 < u.length := List.length_pos_iff.mpr hu
  cases hs : F.scan t with
  | more => rfl
  | bad =>
    have := F.bad_append t u hs
    rw [← he, h] at this
    cases this
  | frame k =>
    have h1 := F.frame_append t u k hs
    rw [← he, h] at h1
    have e : f.length = k := by injection h1
    have := (F.scan_pos t k hs).2
    omega

theorem Framer.split_part (fs : List (List α)) (hf : ∀ f ∈ fs, F.Whole f) (xs zs : List α)
    (h : xs ++ zs = fs.flatten) :
    ∃ gs hs t, fs = gs ++ hs ∧ xs = gs.flatten ++ t ∧ F.scan t = .more ∧ t ++ zs = hs.flatten := by
  induction fs generalizing xs with
  | nil =>
    have hx : xs = [] := (List.append_eq_nil_iff.mp h).1
    exact ⟨[], [], [], rfl, by rw [hx]; rfl, F.scan_nil, by rw [← h, hx]⟩
  | cons f fs ih =>
    rw [List.flatten_cons] at h
    by_cases hl : f.length ≤ xs.length
    · have hx : xs = f ++ xs.drop f.length := by
        have e : (xs ++ zs).take f.length = f := by rw [h, List.take_left]
        rw [List.take_append_of_le_length hl] at e
        conv_lhs => rw [← List.take_append_drop f.length xs, e]
      have hz : xs.drop f.length ++ zs = fs.flatten := by
        rw [hx, List.append_assoc] at h
        exact List.append_cancel_left h
      obtain ⟨gs, hs, t, e1, e2, e3, e4⟩ := ih (fun g hg => hf g (List.mem_cons_of_mem _ hg)) _ hz
      refine ⟨f :: gs, hs, t, by rw [e1]; rfl, ?_, e3, e4⟩
      rw [List.flatten_cons, List.append_assoc, ← e2]
      exact hx
    · have hx : f = xs ++ f.drop xs.length := by
        have e : (f ++ fs.flatten).take xs.length = xs := by rw [← h, List.take_left]
        rw [List.take_append_of_le_length (by omega)] at e
        conv_lhs => rw [← List.take_append_drop xs.length f, e]
      have hne : f.drop xs.length ≠ [] := by
        intro e
        have := congrArg List.length e
        rw [List.length_drop, List.length_nil] at this
        omega
      exact ⟨[], f :: fs, xs, rfl, rfl, F.scan_part f xs _ (hf f List.mem_cons_self) hx hne,
        by rw [h, List.flatten_cons]⟩

theorem Framer.frames_part (fs : List (List α)) (hf : ∀ f ∈ fs, F.Whole f) (xs zs : List α)
    (h : xs ++ zs = fs.flatten) :
    F.frames xs <+: fs ∧ F.scan (F.rest xs) = .more ∧ (zs = [] → F.frames xs = fs) := by
  obtain ⟨gs, hs, t, e1, e2, e3, e4⟩ := F.split_part fs hf xs zs h
  have ht : F.Stuck t := fun k hk => by rw [e3] at hk; cases hk
  have hg : ∀ f ∈ gs, F.Whole f := fun f hf' => hf f (by rw [e1]; exact List.mem_append_left _ hf')
  obtain ⟨d1, d2⟩ := F.decode_flatten gs hg t ht
  rw [e2, d1, d2]
  refine ⟨⟨hs, e1.symm⟩, e3, fun hz => ?_⟩
  -- nothing is missing: `t` is a concatenation of whole frames and undecided, so there are none
  cases hs with
  | nil => rw [e1, List.append_nil]
  | cons f hs =>
    rw [hz, List.append_nil, List.flatten_cons] at e4
    have hw := F.scan_whole_append f hs.flatten (hf f (by rw [e1]; simp))
    rw [← e4, e3] at hw
    cases hw

end

end Framing
