import Mathlib.Data.List.Basic

/-!
# The shape of UTF-8

* `Cont x`            a byte that continues a sequence;
* `Encoded bs`        the bytes of one character, by the class of the first one;
* `encoded c`         every character is encoded in one of the four ways;
* `encode_two`, `encode_three`   the bytes of a character as numbers;
* `encode cs`         a row of characters.
-/

namespace Utf8

def Cont (x : UInt8) : Prop := 128 ≤ x.toNat ∧ x.toNat < 192

inductive Encoded : List UInt8 → Prop
  | one (a : UInt8) (ha : a.toNat < 128) : Encoded [a]
  | two (l x : UInt8) (hl : 192 ≤ l.toNat ∧ l.toNat < 224) (hx : Cont x) : Encoded [l, x]
  | three (l x y : UInt8) (hl : 224 ≤ l.toNat ∧ l.toNat < 240) (hx : Cont x) (hy : Cont y) :
      Encoded [l, x, y]
  | four (l x y z : UInt8) (hl : 240 ≤ l.toNat ∧ l.toNat < 248) (hx : Cont x) (hy : Cont y)
      (hz : Cont z) : Encoded [l, x, y, z]

theorem marked : ∀ p ∈ [(63, 128), (31, 192), (15, 224), (7, 240)], ∀ n < 256,
    (n &&& p.1 ||| p.2) = p.2 + n % (p.1 + 1) := by
  decide +kernel

theorem toNat_marked_eq (x m q : UInt8)
    (h : (m.toNat, q.toNat) ∈ [(63, 128), (31, 192), (15, 224), (7, 240)]) :
    (x &&& m ||| q).toNat = q.toNat + x.toNat % (m.toNat + 1) := by
  rw [UInt8.toNat_or, UInt8.toNat_and]
  exact marked (m.toNat, q.toNat) h x.toNat x.toNat_lt

theorem toNat_marked (x m q : UInt8)
    (h : (m.toNat, q.toNat) ∈ [(63, 128), (31, 192), (15, 224), (7, 240)]) :
    q.toNat ≤ (x &&& m ||| q).toNat ∧ (x &&& m ||| q).toNat < m.toNat + q.toNat + 1 := by
  have hlt : x.toNat % (m.toNat + 1) < m.toNat + 1 := Nat.mod_lt _ (Nat.succ_pos _)
  rw [toNat_marked_eq x m q h]
  exact ⟨Nat.le_add_right _ _, by omega⟩

theorem cont_or (x : UInt8) : Cont (x &&& 0x3f ||| 0x80) := toNat_marked x 0x3f 0x80 (by decide)

theorem size_cases (c : Char) :
    c.utf8Size = 1 ∧ c.val.toNat < 128 ∨ c.utf8Size = 2 ∨ c.utf8Size = 3 ∨ c.utf8Size = 4 := by
  have hle : c.utf8Size ≤ 4 := c.utf8Size_le_four
  have hpos : 0 < c.utf8Size := c.utf8Size_pos
  by_cases h1 : c.utf8Size = 1
  · have hv : c.val ≤ 0x7f := Char.utf8Size_eq_one_iff.mp h1
    have : c.val.toNat ≤ 127 := hv
    exact Or.inl ⟨h1, by omega⟩
  · omega

/-- **Every character is encoded in one of the four ways.** -/
theorem encoded (c : Char) : Encoded (String.utf8EncodeChar c) := by
  rcases size_cases c with ⟨h, hv⟩ | h | h | h
  · rw [String.utf8EncodeChar_eq_singleton h]
    refine .one _ ?_
    rw [UInt32.toNat_toUInt8]
    omega
  · rw [String.utf8EncodeChar_eq_cons_cons h]
    exact .two _ _ (toNat_marked _ 0x1f 0xc0 (by decide)) (cont_or _)
  · rw [String.utf8EncodeChar_eq_cons_cons_cons h]
    exact .three _ _ _ (toNat_marked _ 0x0f 0xe0 (by decide)) (cont_or _) (cont_or _)
  · rw [String.utf8EncodeChar_eq_cons_cons_cons_cons h]
    exact .four _ _ _ _ (toNat_marked _ 0x07 0xf0 (by decide)) (cont_or _) (cont_or _) (cont_or _)

theorem size_two_iff {c : Char} : c.utf8Size = 2 ↔ 128 ≤ c.toNat ∧ c.toNat < 2048 := by
  rw [Char.utf8Size_eq_two_iff, UInt32.lt_iff_toNat_lt, UInt32.le_iff_toNat_le]
  show 127 < c.toNat ∧ c.toNat ≤ 2047 ↔ _
  omega

theorem size_three_iff {c : Char} : c.utf8Size = 3 ↔ 2048 ≤ c.toNat ∧ c.toNat < 65536 := by
  rw [Char.utf8Size_eq_three_iff, UInt32.lt_iff_toNat_lt, UInt32.le_iff_toNat_le]
  show 2047 < c.toNat ∧ c.toNat ≤ 65535 ↔ _
  omega

theorem size_one_iff {c : Char} : c.utf8Size = 1 ↔ c.toNat < 128 := by
  rw [Char.utf8Size_eq_one_iff, UInt32.le_iff_toNat_le]
  show c.toNat ≤ 127 ↔ _
  omega

/-! ## the bytes as numbers -/

theorem encode_one {c : Char} (h : c.toNat < 128) :
    String.utf8EncodeChar c = [UInt8.ofNat c.toNat] := by
  rw [String.utf8EncodeChar_eq_singleton (size_one_iff.mpr h)]
  rfl

theorem toNat_shifted (c : Char) (k : UInt32) (hk : k.toNat < 32) :
    (c.val >>> k).toUInt8.toNat = c.toNat >>> k.toNat % 256 := by
  rw [UInt32.toNat_toUInt8, UInt32.toNat_shiftRight, Nat.mod_eq_of_lt hk]
  rfl

theorem encode_two {c : Char} (h : c.utf8Size = 2) : ∃ l x, String.utf8EncodeChar c = [l, x] ∧
    l.toNat = 192 + c.toNat / 64 ∧ x.toNat = 128 + c.toNat % 64 := by
  have hr := size_two_iff.mp h
  refine ⟨_, _, String.utf8EncodeChar_eq_cons_cons h, ?_, ?_⟩
  · rw [toNat_marked_eq _ 31 192 (by decide), toNat_shifted c 6 (by decide)]
    show 192 + c.toNat >>> 6 % 256 % 32 = _
    omega
  · rw [toNat_marked_eq _ 63 128 (by decide), UInt32.toNat_toUInt8]
    show 128 + c.toNat % 256 % 64 = _
    omega

theorem encode_three {c : Char} (h : c.utf8Size = 3) : ∃ l x y, String.utf8EncodeChar c = [l, x, y] ∧
    l.toNat = 224 + c.toNat / 4096 ∧ x.toNat = 128 + c.toNat / 64 % 64 ∧ y.toNat = 128 + c.toNat % 64 := by
  have hr := size_three_iff.mp h
  refine ⟨_, _, _, String.utf8EncodeChar_eq_cons_cons_cons h, ?_, ?_, ?_⟩
  · rw [toNat_marked_eq _ 15 224 (by decide), toNat_shifted c 12 (by decide)]
    show 224 + c.toNat >>> 12 % 256 % 16 = _
    omega
  · rw [toNat_marked_eq _ 63 128 (by decide), toNat_shifted c 6 (by decide)]
    show 128 + c.toNat >>> 6 % 256 % 64 = _
    omega
  · rw [toNat_marked_eq _ 63 128 (by decide), UInt32.toNat_toUInt8]
    show 128 + c.toNat % 256 % 64 = _
    omega

/-! ## rows of characters -/

def encode (cs : List Char) : List UInt8 := cs.flatMap String.utf8EncodeChar

theorem encode_cons (c : Char) (cs : List Char) :
    encode (c :: cs) = String.utf8EncodeChar c ++ encode cs :=
  List.flatMap_cons

theorem length_encode_cons (c : Char) (cs : List Char) :
    (encode (c :: cs)).length = c.utf8Size + (encode cs).length := by
  rw [encode_cons, List.length_append, String.length_utf8EncodeChar]

end Utf8
