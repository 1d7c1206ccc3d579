import Mathlib.Data.List.Basic

/-!
# Words of four bytes, the most significant first

* `word a b c d`   the word with these bytes;
* `or_shifts`, `shift_or`   the two ways to pack it: each byte to its place, or one after the other;
* `low`            the low byte of a word; `word_low`: a word is made of its bytes.
-/

namespace BigEndian

def word (a b c d : BitVec 8) : BitVec 32 := a ++ b ++ c ++ d

def low (x : BitVec 32) : BitVec 8 := (x &&& 0xff#32).setWidth 8

theorem getLsbD_word (a b c d : BitVec 8) (i : Nat) :
    (word a b c d).getLsbD i =
      if i < 8 then d.getLsbD i
      else if i - 8 < 8 then c.getLsbD (i - 8)
      else if i - 8 - 8 < 8 then b.getLsbD (i - 8 - 8)
      else a.getLsbD (i - 8 - 8 - 8) := by
  unfold word
  rw [BitVec.getLsbD_append, BitVec.getLsbD_append, BitVec.getLsbD_append]

theorem getLsbD_low (x : BitVec 32) (i : Nat) (h : i < 8) : (low x).getLsbD i = x.getLsbD i := by
  have hmask : ∀ i < 8, (0xff#32).getLsbD i = true := by decide
  unfold low
  rw [BitVec.getLsbD_setWidth, BitVec.getLsbD_and, hmask i h, Bool.and_true, decide_eq_true h,
    Bool.true_and]

theorem byte_cases (i : Nat) (h : i < 32) :
    i < 8 ∨ (8 ≤ i ∧ i < 16) ∨ (16 ≤ i ∧ i < 24) ∨ (24 ≤ i ∧ i < 32) := by
  omega

theorem or_shifts (a b c d : BitVec 8) :
    ((a.setWidth 32 <<< 24 ||| b.setWidth 32 <<< 16) ||| c.setWidth 32 <<< 8) ||| d.setWidth 32 =
      word a b c d := by
  have hz : ∀ (x : BitVec 8) (n : Nat), 8 ≤ n → x.getLsbD n = false :=
    fun x n hn => BitVec.getLsbD_of_ge x n hn
  apply BitVec.eq_of_getLsbD_eq
  intro i hi
  rw [getLsbD_word]
  simp only [BitVec.getLsbD_or, BitVec.getLsbD_shiftLeft, BitVec.getLsbD_setWidth]
  rcases byte_cases i hi with h | ⟨h1, h2⟩ | ⟨h1, h2⟩ | ⟨h1, h2⟩
  · simp [h, hi, show i < 16 by omega, show i < 24 by omega]
  · simp [hi, h2, hz d i h1, show ¬ i < 8 by omega, show i < 24 by omega,
      show i - 8 < 8 by omega, show i - 8 < 32 by omega]
  · simp [hi, h2, hz d i (by omega), hz c (i - 8) (by omega), show ¬ i < 8 by omega,
      show ¬ i < 16 by omega, show ¬ i - 8 < 8 by omega, show i - 8 - 8 = i - 16 by omega,
      show i - 16 < 8 by omega, show i - 16 < 32 by omega]
  · simp [hi, hz d i (by omega), hz c (i - 8) (by omega), hz b (i - 16) (by omega),
      show ¬ i < 8 by omega, show ¬ i < 16 by omega, show ¬ i < 24 by omega,
      show ¬ i - 8 < 8 by omega, show ¬ i - 8 - 8 < 8 by omega,
      show i - 8 - 8 - 8 = i - 24 by omega, show i - 24 < 32 by omega]

theorem shift_or (a b c d : BitVec 8) :
    ((((0#32 <<< 8 ||| a.setWidth 32) <<< 8 ||| b.setWidth 32) <<< 8 ||| c.setWidth 32) <<< 8 |||
      d.setWidth 32) = word a b c d := by
  rw [← or_shifts, BitVec.zero_shiftLeft, BitVec.zero_or]
  simp only [BitVec.shiftLeft_or_distrib, ← BitVec.shiftLeft_add]

section
variable (a b c d : BitVec 8)

theorem getLsbD_low_shift (x : BitVec 32) (s i : Nat) (h : i < 8) :
    (low (x >>> s)).getLsbD i = x.getLsbD (s + i) := by
  rw [getLsbD_low _ i h, BitVec.getLsbD_ushiftRight]

theorem low_word_0 : low (word a b c d) = d := by
  apply BitVec.eq_of_getLsbD_eq
  intro i hi
  rw [getLsbD_low _ i hi, getLsbD_word, if_pos hi]

theorem low_word_8 : low (word a b c d >>> 8) = c := by
  apply BitVec.eq_of_getLsbD_eq
  intro i hi
  rw [getLsbD_low_shift _ 8 i hi, getLsbD_word, Nat.add_sub_cancel_left, if_neg (by omega),
    if_pos hi]

theorem low_word_16 : low (word a b c d >>> 16) = b := by
  apply BitVec.eq_of_getLsbD_eq
  intro i hi
  have e : 16 + i - 8 - 8 = i := by omega
  rw [getLsbD_low_shift _ 16 i hi, getLsbD_word, e, if_neg (by omega), if_neg (by omega),
    if_pos hi]

theorem low_word_24 : low (word a b c d >>> 24) = a := by
  apply BitVec.eq_of_getLsbD_eq
  intro i hi
  have e : 24 + i - 8 - 8 - 8 = i := by omega
  rw [getLsbD_low_shift _ 24 i hi, getLsbD_word, e, if_neg (by omega), if_neg (by omega),
    if_neg (by omega)]

end

theorem word_low (x : BitVec 32) :
    word (low (x >>> 24)) (low (x >>> 16)) (low (x >>> 8)) (low x) = x := by
  apply BitVec.eq_of_getLsbD_eq
  intro i hi
  rw [getLsbD_word]
  split
  · rename_i h
    exact getLsbD_low x i h
  · split
    · rename_i h0 h
      rw [getLsbD_low_shift x 8 _ h, show 8 + (i - 8) = i by omega]
    · split
      · rename_i h0 h1 h
        rw [getLsbD_low_shift x 16 _ h, show 16 + (i - 8 - 8) = i by omega]
      · rw [getLsbD_low_shift x 24 _ (by omega), show 24 + (i - 8 - 8 - 8) = i by omega]

end BigEndian
