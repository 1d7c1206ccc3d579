import JMEngine.Lib.Bytes
import Mathlib.Algebra.Order.BigOperators.Group.List
import Mathlib.Data.Int.Interval
import Mathlib.Data.Int.ConditionallyCompleteOrder
import Mathlib.Order.ConditionallyCompleteLattice.Basic

/-!
# The weighted choice (backup/include/game/JME_Random.h)

`randomBySeeds` lays the weights end to end from 1 on, draws a number below the end of the last, and
returns the index of the seed in whose interval the draw lies.  `none` is a failed assertion, an `int`
that overflows or a division by zero.

* `setRanges`, `pick`      the two loops, with the draw between them;
* `ranges`                 what the first loop leaves, whatever `_begin` and `_end` held before;
* `pick_ranges`            the draw lies in exactly one interval;
* `choice_proportional`    **each index is returned for as many draws as its weight says**.
-/

set_option linter.unusedSectionVars false

namespace JMEngine.Game
open Bytes

/-- a value of an `int` computation; overflow is undefined -/
def checked (x : Int) : Option Int := if -2147483648 ≤ x ∧ x < 2147483648 then some x else none

theorem checked_of_range {x : Int} (h1 : -2147483648 ≤ x) (h2 : x < 2147483648) : checked x = some x :=
  if_pos ⟨h1, h2⟩

structure JME_RandSeed where
  _prob : Int
  _bindId : Int
  _begin : Int
  _end : Int
  deriving DecidableEq, Repr

/-- `_randomSeed` is a `time_t` -/
structure JME_Random where
  _randomSeed : Int
  deriving DecidableEq, Repr

namespace JME_Random

/-- `rand seed` is what `rand()` returns first after `srand(seed)` -/
def randomInt (rand : BitVec 32 → Int) (r : JME_Random) : Int × JME_Random :=
  let ra := max 1 (rand (BitVec.ofInt 32 r._randomSeed))
  (ra, ⟨r._randomSeed + ra⟩)

/-- `randomInt(int start, int end)` -/
def randomInt_between (rand : BitVec 32 → Int) (r : JME_Random) (start end_ : Int) :
    Option (Int × JME_Random) :=
  if start ≤ end_ then
    (checked (end_ - start)).bind fun d =>
    (checked (d + 1)).bind fun n =>
    if n = 0 then none
    else
      let ra := r.randomInt rand
      (checked ((ra.1).tmod n + start)).map fun x => (x, ra.2)
  else none

end JME_Random

/-- the first loop of `randomBySeeds`; `last` is the `_end` of the seed before, if there is one -/
def setRanges : Option Int → List JME_RandSeed → Option (List JME_RandSeed)
  | _, [] => some []
  | last, seed :: seeds =>
    let _begin := last.getD 1
    (checked (_begin + seed._prob)).bind fun _end =>
      (setRanges (some _end) seeds).map ({ seed with _begin, _end } :: ·)

/-- the second loop; `it - seeds.begin()` is returned as an `int` -/
def pickFrom (ra : Int) : Nat → List JME_RandSeed → Int
  | _, [] => -1
  | i, seed :: seeds =>
    if ra ≥ seed._begin ∧ ra < seed._end then int32 i else pickFrom ra (i + 1) seeds

def pick (ra : Int) (seeds : List JME_RandSeed) : Int := pickFrom ra 0 seeds

/-- the index that is returned, and what the call leaves in `_randomSeed` and in the seeds -/
def JME_Random.randomBySeeds (rand : BitVec 32 → Int) (r : JME_Random) (seeds : List JME_RandSeed) :
    Option (Int × JME_Random × List JME_RandSeed) :=
  if seeds.isEmpty then none
  else
    (setRanges none seeds).bind fun seeds =>
    (seeds.getLast?).bind fun last =>
    (checked (last._end - 1)).bind fun end_ =>
    (r.randomInt_between rand 1 end_).map fun ra => (pick ra.1 seeds, ra.2, seeds)

/-! ## the intervals -/

def total (seeds : List JME_RandSeed) : Int := (seeds.map JME_RandSeed._prob).sum

/-- the seeds with their intervals laid from `b` on -/
def ranges : Int → List JME_RandSeed → List JME_RandSeed
  | _, [] => []
  | b, seed :: seeds =>
    { seed with _begin := b, _end := b + seed._prob } :: ranges (b + seed._prob) seeds

theorem total_cons (seed : JME_RandSeed) (seeds : List JME_RandSeed) :
    total (seed :: seeds) = seed._prob + total seeds := by
  unfold total
  rw [List.map_cons, List.sum_cons]

section
variable {seeds : List JME_RandSeed} (h : ∀ s ∈ seeds, 0 ≤ s._prob)
include h

theorem total_nonneg : 0 ≤ total seeds := by
  refine List.sum_nonneg fun x hx => ?_
  obtain ⟨s, hs, rfl⟩ := List.mem_map.mp hx
  exact h s hs

theorem total_take_le (i : Nat) : total (seeds.take i) ≤ total (seeds.take (i + 1)) := by
  induction seeds generalizing i with
  | nil => simp [total]
  | cons s seeds ih =>
    have hs := h s List.mem_cons_self
    cases i with
    | zero =>
      rw [List.take_zero, List.take_succ_cons, total_cons, List.take_zero]
      show (0 : Int) ≤ s._prob + 0
      omega
    | succ i =>
      have := ih (fun t ht => h t (List.mem_cons_of_mem _ ht)) i
      rw [List.take_succ_cons, List.take_succ_cons, total_cons, total_cons]
      omega

theorem total_take_mono {i j : Nat} (hij : i ≤ j) : total (seeds.take i) ≤ total (seeds.take j) := by
  induction hij with
  | refl => exact le_refl _
  | step _ ih => exact ih.trans (total_take_le h _)

end

theorem total_take_succ (seeds : List JME_RandSeed) {i : Nat} (hi : i < seeds.length) :
    total (seeds.take (i + 1)) = total (seeds.take i) + seeds[i]._prob := by
  unfold total
  rw [List.take_add_one, List.getElem?_eq_getElem hi, List.map_append, List.sum_append]
  simp

theorem setRanges_eq (seeds : List JME_RandSeed) : ∀ (last : Option Int) (b : Int), last.getD 1 = b →
    (∀ s ∈ seeds, 0 ≤ s._prob) → 0 ≤ b → b + total seeds < 2147483648 →
    setRanges last seeds = some (ranges b seeds) := by
  induction seeds with
  | nil => exact fun _ _ _ _ _ _ => rfl
  | cons s seeds ih =>
    intro last b hb h h0 hmax
    have hs := h s List.mem_cons_self
    have htail := fun t ht => h t (List.mem_cons_of_mem s ht)
    have hpos := total_nonneg htail
    rw [total_cons] at hmax
    rw [setRanges, hb, checked_of_range (by omega) (by omega), Option.bind_some,
      ih (some (b + s._prob)) (b + s._prob) rfl htail (by omega) (by omega)]
    rfl

theorem getLast?_ranges (seeds : List JME_RandSeed) (hne : seeds ≠ []) : ∀ b,
    ∃ last, (ranges b seeds).getLast? = some last ∧ last._end = b + total seeds := by
  induction seeds with
  | nil => exact absurd rfl hne
  | cons s seeds ih =>
    intro b
    cases seeds with
    | nil =>
      refine ⟨_, rfl, ?_⟩
      show b + s._prob = b + (s._prob + 0)
      omega
    | cons t seeds =>
      obtain ⟨last, h1, h2⟩ := ih (by simp) (b + s._prob)
      refine ⟨last, ?_, ?_⟩
      · rw [ranges, ranges, List.getLast?_cons_cons]
        exact h1
      · rw [h2, total_cons s]
        omega

/-- **A draw lies in one of the intervals**, whose index is returned. -/
theorem pick_ranges (seeds : List JME_RandSeed) (ra : Int) : ∀ (b : Int) (k : Nat), b ≤ ra →
    ra < b + total seeds → ∃ i < seeds.length, pickFrom ra k (ranges b seeds) = int32 (k + i : Nat) ∧
      b + total (seeds.take i) ≤ ra ∧ ra < b + total (seeds.take (i + 1)) := by
  induction seeds with
  | nil =>
    intro b k h1 h2
    exfalso
    have : total [] = 0 := rfl
    omega
  | cons s seeds ih =>
    intro b k h1 h2
    rw [total_cons] at h2
    rw [ranges, pickFrom]
    dsimp only
    by_cases hin : ra < b + s._prob
    · rw [if_pos ⟨h1, hin⟩]
      refine ⟨0, Nat.succ_pos _, rfl, ?_, ?_⟩
      · show b + 0 ≤ ra
        omega
      · rw [List.take_succ_cons, total_cons]
        show ra < b + (s._prob + 0)
        omega
    · rw [if_neg (fun h => hin h.2)]
      obtain ⟨i, hi, hp, hb, he⟩ := ih (b + s._prob) (k + 1) (by omega) (by omega)
      refine ⟨i + 1, Nat.succ_lt_succ hi, ?_, ?_, ?_⟩
      · rw [hp]
        congr 2
        omega
      · rw [List.take_succ_cons, total_cons]
        omega
      · rw [List.take_succ_cons, total_cons]
        omega

theorem randomInt_between_spec (rand : BitVec 32 → Int) (r : JME_Random) {end_ : Int} (h1 : 1 ≤ end_)
    (h2 : end_ < 2147483647) :
    ∃ ra r', r.randomInt_between rand 1 end_ = some (ra, r') ∧ 1 ≤ ra ∧ ra ≤ end_ := by
  have hpos : 0 ≤ (r.randomInt rand).1 := by
    show 0 ≤ max 1 _
    omega
  have hmod1 := Int.tmod_nonneg end_ hpos
  have hmod2 := Int.tmod_lt_of_pos (r.randomInt rand).1 (show 0 < end_ by omega)
  unfold JME_Random.randomInt_between
  rw [if_pos h1, checked_of_range (by omega) (by omega), Option.bind_some,
    checked_of_range (by omega) (by omega), Option.bind_some, Int.sub_add_cancel, if_neg (by omega)]
  dsimp only
  rw [checked_of_range (by omega) (by omega)]
  exact ⟨_, _, rfl, by omega, by omega⟩

section
variable {seeds : List JME_RandSeed} (h : ∀ s ∈ seeds, 0 ≤ s._prob)
include h

theorem pick_eq_iff (hsize : seeds.length ≤ 2147483648) {i : Nat} (hi : i < seeds.length) {ra : Int}
    (h1 : 1 ≤ ra) (h2 : ra ≤ total seeds) :
    pick ra (ranges 1 seeds) = i ↔
      1 + total (seeds.take i) ≤ ra ∧ ra < 1 + total (seeds.take (i + 1)) := by
  obtain ⟨j, hj, hp, hb, he⟩ := pick_ranges seeds ra 1 0 h1 (by omega)
  have hpick : pick ra (ranges 1 seeds) = j := by
    unfold pick
    rw [hp, Nat.zero_add, int32_of_range _ (by omega) (by omega)]
  rw [hpick]
  constructor
  · intro e
    have e' : j = i := by exact_mod_cast e
    subst e'
    exact ⟨hb, he⟩
  · rintro ⟨hb', he'⟩
    rcases Nat.lt_trichotomy j i with hlt | heq | hgt
    · have := total_take_mono h (show j + 1 ≤ i from hlt)
      omega
    · rw [heq]
    · have := total_take_mono h (show i + 1 ≤ j from hgt)
      omega

theorem card_pick (hsize : seeds.length ≤ 2147483648) {i : Nat} (hi : i < seeds.length) :
    (((Finset.Icc 1 (total seeds)).filter fun ra => pick ra (ranges 1 seeds) = i).card : Int)
      = seeds[i]._prob := by
  have h0 := total_take_mono h (Nat.zero_le i)
  have hle := total_take_le h i
  have hall := total_take_mono h (show i + 1 ≤ seeds.length from hi)
  rw [List.take_length] at hall
  rw [List.take_zero, show total [] = 0 from rfl] at h0
  have hset : (Finset.Icc 1 (total seeds)).filter (fun ra => pick ra (ranges 1 seeds) = i)
      = Finset.Ico (1 + total (seeds.take i)) (1 + total (seeds.take (i + 1))) := by
    ext ra
    rw [Finset.mem_filter, Finset.mem_Icc, Finset.mem_Ico]
    constructor
    · exact fun hra => (pick_eq_iff h hsize hi hra.1.1 hra.1.2).mp hra.2
    · intro hra
      have h1 : 1 ≤ ra := by omega
      have h2 : ra ≤ total seeds := by omega
      exact ⟨⟨h1, h2⟩, (pick_eq_iff h hsize hi h1 h2).mpr hra⟩
  have hsucc := total_take_succ seeds hi
  rw [hset, Int.card_Ico]
  omega

end

/-- **The weighted choice is exactly proportional.**  No interval computation overflows, whatever
`_begin` and `_end` held before; a call draws from `1..S`, a draw never gives `-1`, and each index is
returned for as many of the `S` draws as its weight says. -/
theorem choice_proportional (seeds : List JME_RandSeed) (hne : seeds ≠ [])
    (hprob : ∀ s ∈ seeds, 0 ≤ s._prob) (h1 : 1 ≤ total seeds) (h2 : total seeds < 2147483647)
    (hsize : seeds.length ≤ 2147483648) :
    ∃ seeds', setRanges none seeds = some seeds' ∧
      (∀ (rand : BitVec 32 → Int) (r : JME_Random), ∃ ra r',
        r.randomBySeeds rand seeds = some (pick ra seeds', r', seeds') ∧ 1 ≤ ra ∧ ra ≤ total seeds) ∧
      (∀ ra, 1 ≤ ra → ra ≤ total seeds → pick ra seeds' ≠ -1) ∧
      ∀ (i : Nat) (hi : i < seeds.length),
        (((Finset.Icc 1 (total seeds)).filter fun ra => pick ra seeds' = i).card : Int) = seeds[i]._prob ∧
        (seeds[i]._prob = 0 → ∀ ra, 1 ≤ ra → ra ≤ total seeds → pick ra seeds' ≠ i) := by
  have hset : setRanges none seeds = some (ranges 1 seeds) :=
    setRanges_eq seeds none 1 rfl hprob (by omega) (by omega)
  refine ⟨ranges 1 seeds, hset, fun rand r => ?_, fun ra hra1 hra2 => ?_,
    fun i hi => ⟨card_pick hprob hsize hi, fun hzero ra hra1 hra2 hpick => ?_⟩⟩
  · obtain ⟨last, hlast, hend⟩ := getLast?_ranges seeds hne 1
    obtain ⟨ra, r', hra, hra1, hra2⟩ := randomInt_between_spec rand r h1 h2
    refine ⟨ra, r', ?_, hra1, hra2⟩
    have hempty : seeds.isEmpty = false := by
      cases seeds with
      | nil => exact absurd rfl hne
      | cons _ _ => rfl
    unfold JME_Random.randomBySeeds
    rw [hempty, hset, Option.bind_some, hlast, Option.bind_some, hend,
      checked_of_range (by omega) (by omega), Option.bind_some,
      show 1 + total seeds - 1 = total seeds by omega, hra]
    rfl
  · obtain ⟨j, hj, hp, _⟩ := pick_ranges seeds ra 1 0 hra1 (by omega)
    unfold pick
    rw [hp, Nat.zero_add, int32_of_range _ (by omega) (by omega)]
    omega
  · have hin := (pick_eq_iff hprob hsize hi hra1 hra2).mp hpick
    rw [total_take_succ seeds hi] at hin
    omega

/-- weights 2, 0 and 3, the second seed with the interval of an earlier call -/
def threeSeeds : List JME_RandSeed := [⟨2, 7, 0, 0⟩, ⟨0, 8, 1, 6⟩, ⟨3, 9, 0, 0⟩]

theorem choice_proportional_three :
    ∃ seeds', setRanges none threeSeeds = some seeds' ∧
      (∀ (rand : BitVec 32 → Int) (r : JME_Random), ∃ ra r',
        r.randomBySeeds rand threeSeeds = some (pick ra seeds', r', seeds') ∧
          1 ≤ ra ∧ ra ≤ total threeSeeds) ∧
      (∀ ra, 1 ≤ ra → ra ≤ total threeSeeds → pick ra seeds' ≠ -1) ∧
      ∀ (i : Nat) (hi : i < threeSeeds.length),
        (((Finset.Icc 1 (total threeSeeds)).filter fun ra => pick ra seeds' = i).card : Int)
          = threeSeeds[i]._prob ∧
        (threeSeeds[i]._prob = 0 → ∀ ra, 1 ≤ ra → ra ≤ total threeSeeds → pick ra seeds' ≠ i) :=
  choice_proportional threeSeeds (by decide) (by decide) (by decide) (by decide) (by decide)

/-! ## indices beyond `int` -/

section
variable {seeds : List JME_RandSeed} (hlen : seeds.length = 2147483648)
  (hzero : ∀ s ∈ seeds, s._prob = 0) {last : JME_RandSeed} (hlast : last._prob = 1)
include hlen hzero

theorem total_zeros {i : Nat} (hi : i ≤ 2147483648) : total ((seeds ++ [last]).take i) = 0 := by
  rw [List.take_append_of_le_length (by omega)]
  refine List.sum_eq_zero fun x hx => ?_
  obtain ⟨s, hs, rfl⟩ := List.mem_map.mp hx
  exact hzero s (List.mem_of_mem_take hs)

include hlast

theorem total_long : total (seeds ++ [last]) = 1 := by
  have h0 : total ((seeds ++ [last]).take 2147483648) = 0 := total_zeros hlen hzero (le_refl _)
  rw [List.take_append_of_le_length (by omega), ← hlen, List.take_length] at h0
  unfold total at h0 ⊢
  rw [List.map_append, List.sum_append, h0, List.map_singleton, List.sum_singleton, hlast]
  rfl

theorem pick_long : pick 1 (ranges 1 (seeds ++ [last])) = -2147483648 := by
  have htotal := total_long hlen hzero hlast
  obtain ⟨i, hi, hp, _, he⟩ := pick_ranges (seeds ++ [last]) 1 1 0 (le_refl _) (by omega)
  rw [List.length_append, hlen, List.length_singleton] at hi
  have hi' : i = 2147483648 := by
    by_contra hne
    rw [total_zeros hlen hzero (show i + 1 ≤ 2147483648 by omega)] at he
    omega
  unfold pick
  rw [hp, hi']
  rfl

end

/-- **An index is returned as an `int`**, so that an index of `2^31` never is. -/
theorem not_proportional :
    ¬ ∀ seeds : List JME_RandSeed, seeds ≠ [] → (∀ s ∈ seeds, 0 ≤ s._prob) → 1 ≤ total seeds →
      total seeds < 2147483647 → ∃ seeds', setRanges none seeds = some seeds' ∧
        ∀ (i : Nat) (hi : i < seeds.length),
          (((Finset.Icc 1 (total seeds)).filter fun ra => pick ra seeds' = i).card : Int)
            = seeds[i]._prob := by
  intro h
  obtain ⟨seeds, hlen, hzero⟩ : ∃ seeds : List JME_RandSeed, seeds.length = 2147483648 ∧
      ∀ s ∈ seeds, s._prob = 0 :=
    ⟨List.replicate 2147483648 ⟨0, 0, 0, 0⟩, List.length_replicate, fun s hs => by
      rw [(List.mem_replicate.mp hs).2]⟩
  obtain ⟨last, hlast⟩ : ∃ last : JME_RandSeed, last._prob = 1 := ⟨⟨1, 0, 0, 0⟩, rfl⟩
  have htotal := total_long hlen hzero hlast
  have hprob : ∀ s ∈ seeds ++ [last], 0 ≤ s._prob := by
    intro s hs
    rcases List.mem_append.mp hs with hs | hs
    · rw [hzero s hs]
    · rw [List.mem_singleton.mp hs, hlast]
      omega
  obtain ⟨seeds', hset, hcard⟩ := h (seeds ++ [last]) (by simp) hprob (by omega) (by omega)
  rw [setRanges_eq _ none 1 rfl hprob (by omega) (by omega)] at hset
  rw [← Option.some.inj hset] at hcard
  have hc := hcard 2147483648 (by rw [List.length_append, hlen, List.length_singleton]; omega)
  have hlast' : (seeds ++ [last])[2147483648]? = some last := by
    rw [List.getElem?_append_right hlen.le, hlen, Nat.sub_self]
    rfl
  rw [(List.getElem?_eq_some_iff.mp hlast').2, hlast, Finset.card_eq_zero.mpr] at hc
  · cases hc
  · rw [Finset.filter_eq_empty_iff]
    intro ra hra hpick
    rw [htotal, Finset.mem_Icc] at hra
    rw [show ra = 1 by omega, pick_long hlen hzero hlast] at hpick
    omega

end JMEngine.Game
