import Mathlib.Data.List.Basic
import Mathlib.Data.List.TakeWhile

/-!
# Double-byte character sets over ASCII

A character is written as its ASCII byte or as two bytes of the upper half.

* `Charset`               the codes of the repertoire;
* `Charset.encode`        a row of characters;
* `Charset.encode_ascii`, `Charset.encode_double`   what the first byte tells about the first character;
* `cstr`                  what a C string that starts with these bytes is.
-/

set_option linter.unusedSectionVars false

namespace DoubleByte

def cstr (bs : List UInt8) : List UInt8 := bs.takeWhile (· ≠ 0)

theorem cstr_append_zero {bs : List UInt8} (h : ∀ b ∈ bs, b ≠ 0) (cs : List UInt8) :
    cstr (bs ++ 0 :: cs) = bs := by
  unfold cstr
  rw [List.takeWhile_append_of_pos (fun b hb => decide_eq_true (h b hb)),
    List.takeWhile_cons_of_neg (by decide), List.append_nil]

theorem cstr_cons {b : UInt8} (h : b ≠ 0) (bs : List UInt8) : cstr (b :: bs) = b :: cstr bs :=
  List.takeWhile_cons_of_pos (by simpa using h)

theorem cstr_eq_self {bs : List UInt8} (h : ∀ b ∈ bs, b ≠ 0) : cstr bs = bs :=
  List.takeWhile_eq_self_iff.mpr fun b hb => decide_eq_true (h b hb)

structure Charset where
  code : Char → Option (UInt8 × UInt8)
  injective : ∀ c d p, code c = some p → code d = some p → c = d
  high : ∀ c x y, code c = some (x, y) → 0xa1 ≤ x.toNat ∧ 0xa1 ≤ y.toNat
  wide : ∀ c p, code c = some p → 0x80 ≤ c.toNat ∧ c.toNat < 0x10000

namespace Charset

section
variable (S : Charset)

/-- ASCII without NUL, or a character of the repertoire -/
def Has (c : Char) : Prop := (0 < c.toNat ∧ c.toNat < 128) ∨ (S.code c).isSome

instance (c : Char) : Decidable (S.Has c) := inferInstanceAs (Decidable (_ ∨ _))

def bytes (c : Char) : List UInt8 :=
  match S.code c with
  | some (x, y) => [x, y]
  | none => [UInt8.ofNat c.toNat]

def encode (cs : List Char) : List UInt8 := cs.flatMap S.bytes

theorem encode_cons (c : Char) (cs : List Char) : S.encode (c :: cs) = S.bytes c ++ S.encode cs :=
  List.flatMap_cons

theorem bytes_ne_nil (c : Char) : S.bytes c ≠ [] := by
  unfold bytes
  split <;> exact List.cons_ne_nil _ _

theorem encode_eq_nil {cs : List Char} (h : S.encode cs = []) : cs = [] := by
  cases cs with
  | nil => rfl
  | cons c cs =>
    rw [encode_cons] at h
    exact absurd (List.append_eq_nil_iff.mp h).1 (S.bytes_ne_nil c)

end

section
variable {S : Charset} {c : Char}

theorem bytes_some {x y : UInt8} (h : S.code c = some (x, y)) : S.bytes c = [x, y] := by
  unfold bytes
  rw [h]

theorem code_ascii (h : c.toNat < 128) : S.code c = none := by
  cases hc : S.code c with
  | none => rfl
  | some p =>
    have := (S.wide c p hc).1
    omega

theorem bytes_ascii (h : c.toNat < 128) : S.bytes c = [UInt8.ofNat c.toNat] := by
  unfold bytes
  rw [code_ascii h]

theorem toNat_ascii (h : c.toNat < 128) : (UInt8.ofNat c.toNat).toNat = c.toNat := by
  rw [UInt8.toNat_ofNat']
  omega

/-- the two ways in which a character is written -/
inductive Written (S : Charset) (c : Char) : Prop
  | ascii (h0 : 0 < c.toNat) (h : c.toNat < 128)
  | double (x y : UInt8) (h : S.code c = some (x, y))

theorem Has.written (h : S.Has c) : Written S c := by
  rcases h with h | h
  · exact .ascii h.1 h.2
  · obtain ⟨⟨x, y⟩, hc⟩ := Option.isSome_iff_exists.mp h
    exact .double x y hc

theorem Has.bytes_ne_zero (h : S.Has c) : ∀ b ∈ S.bytes c, b ≠ 0 := by
  intro b hb hz
  have hzero : b.toNat = 0 := by rw [hz]; rfl
  cases h.written with
  | ascii h0 h =>
    rw [bytes_ascii h] at hb
    rw [List.mem_singleton.mp hb, toNat_ascii h] at hzero
    omega
  | double x y h =>
    have hhigh := S.high c x y h
    rw [bytes_some h] at hb
    rcases List.mem_cons.mp hb with hb | hb
    · rw [hb] at hzero
      omega
    · rw [List.mem_singleton.mp hb] at hzero
      omega

end

section
variable {S : Charset} {cs : List Char} (hcs : ∀ c ∈ cs, S.Has c)
include hcs

theorem encode_ne_zero : ∀ b ∈ S.encode cs, b ≠ 0 := by
  intro b hb
  obtain ⟨c, hc, hb⟩ := List.mem_flatMap.mp hb
  exact (hcs c hc).bytes_ne_zero b hb

theorem encode_cases {b : UInt8} {bs : List UInt8} (h : S.encode cs = b :: bs) :
    ∃ c cs', cs = c :: cs' ∧ (b.toNat < 128 ∧ c.toNat = b.toNat ∧ S.encode cs' = bs ∨
      128 ≤ b.toNat ∧ ∃ y, S.code c = some (b, y) ∧ bs = y :: S.encode cs') := by
  cases cs with
  | nil => cases h
  | cons c cs =>
    rw [encode_cons] at h
    refine ⟨c, cs, rfl, ?_⟩
    cases (hcs c List.mem_cons_self).written with
    | ascii _ hlt =>
      rw [bytes_ascii hlt] at h
      obtain ⟨rfl, h2⟩ := List.cons.inj h
      rw [toNat_ascii hlt]
      exact Or.inl ⟨hlt, rfl, h2⟩
    | double x y hc =>
      rw [bytes_some hc] at h
      obtain ⟨rfl, h2⟩ := List.cons.inj h
      have hhigh := (S.high c x y hc).1
      exact Or.inr ⟨by omega, y, hc, h2.symm⟩

theorem encode_ascii {b : UInt8} {bs : List UInt8} (hb : b.toNat < 128) (h : S.encode cs = b :: bs) :
    ∃ c cs', cs = c :: cs' ∧ c.toNat = b.toNat ∧ S.encode cs' = bs := by
  obtain ⟨c, cs', hcons, ⟨_, hc⟩ | ⟨hge, _⟩⟩ := encode_cases hcs h
  · exact ⟨c, cs', hcons, hc⟩
  · omega

theorem encode_double {b : UInt8} {bs : List UInt8} (hb : 128 ≤ b.toNat) (h : S.encode cs = b :: bs) :
    ∃ c cs' y, cs = c :: cs' ∧ S.code c = some (b, y) ∧ bs = y :: S.encode cs' := by
  obtain ⟨c, cs', hcons, ⟨hlt, _⟩ | ⟨_, y, hc⟩⟩ := encode_cases hcs h
  · omega
  · exact ⟨c, cs', y, hcons, hc⟩

end

end Charset

end DoubleByte
