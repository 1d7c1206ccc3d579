import Mathlib.Data.List.Basic

/-!
# Feistel networks on words

Two halves of `w` bits, any function `f` from one to the other, one key per round.

* `half f k`         the round of an unrolled cipher: mix `f l` and the key into the other half,
                     exchange the halves; `halves` runs one for each key;
* `halves_reverse`   the same rounds with the keys backwards, on exchanged halves, undo them;
* `round f k`        the round of the textbook: the key goes into the left half first; `rounds`;
* `halves_whiten`    an unrolled cipher runs the textbook's rounds, one key ahead of them.
-/

set_option linter.unusedSectionVars false

namespace Feistel

section
variable {w : Nat}

/-- `r ^= f(l) ^ k`, then the halves change places -/
def half (f : BitVec w → BitVec w) (k : BitVec w) (x : BitVec w × BitVec w) :
    BitVec w × BitVec w :=
  (x.2 ^^^ (f x.1 ^^^ k), x.1)

def halves (f : BitVec w → BitVec w) (ks : List (BitVec w)) (x : BitVec w × BitVec w) :
    BitVec w × BitVec w :=
  ks.foldl (fun x k => half f k x) x

/-- `l ^= k; r ^= f(l)`, then the halves change places -/
def round (f : BitVec w → BitVec w) (k : BitVec w) (x : BitVec w × BitVec w) :
    BitVec w × BitVec w :=
  (x.2 ^^^ f (x.1 ^^^ k), x.1 ^^^ k)

def rounds (f : BitVec w → BitVec w) (ks : List (BitVec w)) (x : BitVec w × BitVec w) :
    BitVec w × BitVec w :=
  ks.foldl (fun x k => round f k x) x

def whiten (k : BitVec w) (x : BitVec w × BitVec w) : BitVec w × BitVec w := (x.1 ^^^ k, x.2)

theorem xor_xor_self (a b : BitVec w) : (a ^^^ b) ^^^ b = a := by
  rw [BitVec.xor_assoc, BitVec.xor_self, BitVec.xor_zero]

variable (f : BitVec w → BitVec w)

theorem half_swap_half (k : BitVec w) (x : BitVec w × BitVec w) :
    half f k (half f k x).swap = x.swap := by
  show ((x.2 ^^^ (f x.1 ^^^ k)) ^^^ (f x.1 ^^^ k), x.1) = (x.2, x.1)
  rw [xor_xor_self]

theorem halves_append (ks ls : List (BitVec w)) (x : BitVec w × BitVec w) :
    halves f (ks ++ ls) x = halves f ls (halves f ks x) :=
  List.foldl_append

theorem halves_cons (k : BitVec w) (ks : List (BitVec w)) (x : BitVec w × BitVec w) :
    halves f (k :: ks) x = halves f ks (half f k x) :=
  rfl

/-- **The rounds with the keys backwards undo the rounds.** -/
theorem halves_reverse (ks : List (BitVec w)) (x : BitVec w × BitVec w) :
    halves f ks.reverse (halves f ks x).swap = x.swap := by
  induction ks generalizing x with
  | nil => rfl
  | cons k ks ih =>
    rw [List.reverse_cons, halves_append, halves_cons f k ks, ih]
    exact half_swap_half f k x

theorem half_whiten (k l : BitVec w) (x : BitVec w × BitVec w) :
    half f l (whiten k x) = whiten l (round f k x) := by
  show (x.2 ^^^ (f (x.1 ^^^ k) ^^^ l), x.1 ^^^ k) = ((x.2 ^^^ f (x.1 ^^^ k)) ^^^ l, x.1 ^^^ k)
  rw [BitVec.xor_assoc]

/-- **With the first key mixed in beforehand the unrolled rounds are the textbook's**: each of
them already mixes in the key of the round behind it. -/
theorem halves_whiten (k : BitVec w) (ks : List (BitVec w)) (x : BitVec w × BitVec w) :
    halves f ks (whiten k x) =
      whiten ((k :: ks).getLast (List.cons_ne_nil k ks)) (rounds f (k :: ks).dropLast x) := by
  induction ks generalizing k x with
  | nil => rfl
  | cons l ks ih =>
    rw [halves_cons, half_whiten, ih, List.getLast_cons (List.cons_ne_nil l ks)]
    rfl

end

end Feistel
