import JMEngine.Lib.DoubleByte
import JMEngine.Lib.Utf8
import Mathlib.Algebra.GroupWithZero.Nat

/-!
# Conversions between GB2312 and UTF-8 on WIN32 (source/util/JME_String.cpp)

A pointer is the list of the bytes that can be read from it on; `none` is an access outside the memory,
an `int` that overflows, or an allocation of a negative size.  `char` is signed, `wchar_t` has 16 bits
with the low byte first.

* `WinApi`                         the two calls of the system, as they are used here;
* `UnicodeToUTF_8`, `UTF_8ToUnicode`   one character of three bytes;
* `GB2312ToUTF_8`, `UTF_8ToGB2312`     the loops, and how the result is finished.
-/

set_option linter.unusedSectionVars false

namespace JMEngine.Tools
open DoubleByte Utf8

/-- `MultiByteToWideChar(CP_ACP, MB_PRECOMPOSED, gbBuffer, 2, pOut, 1)`, and the bytes (at most two) that
`WideCharToMultiByte(CP_ACP, NULL, &uData, 1, pOut, 2, NULL, NULL)` writes -/
structure WinApi where
  MultiByteToWideChar : UInt8 → UInt8 → UInt16
  WideCharToMultiByte : UInt16 → List UInt8

/-- the active code page gives the code point of each double-byte character -/
def WinApi.Widens (api : WinApi) (S : Charset) : Prop :=
  ∀ c x y, S.code c = some (x, y) → (api.MultiByteToWideChar x y).toNat = c.toNat

def WinApi.Narrows (api : WinApi) (S : Charset) : Prop :=
  ∀ c x y w, S.code c = some (x, y) → w.toNat = c.toNat → api.WideCharToMultiByte w = [x, y]

/-! ## one character -/

/-- the low and the high byte of a `wchar_t` -/
def lowByte (w : UInt16) : UInt8 := w.toUInt8
def highByte (w : UInt16) : UInt8 := (w >>> 8).toUInt8

def UnicodeToUTF_8 (pText : UInt16) : List UInt8 :=
  [(0xe0 : UInt8) ||| ((highByte pText &&& 0xf0) >>> 4),
    ((0x80 : UInt8) ||| ((highByte pText &&& 0x0f) <<< 2)) + ((lowByte pText &&& 0xc0) >>> 6),
    0x80 ||| (lowByte pText &&& 0x3f)]

/-- of the sign that `>>` shifts in, `& 0x0F` leaves nothing -/
def UTF_8ToUnicode (b0 b1 b2 : UInt8) : UInt16 :=
  let high := ((b0 &&& 0x0f) <<< 4) + ((b1 >>> 2) &&& 0x0f)
  let low := ((b1 &&& 0x03) <<< 6) + (b2 &&& 0x3f)
  high.toUInt16 <<< 8 ||| low.toUInt16

/-! ## the loops -/

/-- the loop of `GB2312ToUTF_8`: what it writes to `rst`, with `left` bytes of the text in front of it -/
def gbLoop (api : WinApi) : Nat → List UInt8 → Int → Option (List UInt8)
  | 0, _, _ => none
  | fuel + 1, pText, left =>
    if 0 < left then
      match pText with
      | [] => none
      | a :: rest =>
        -- `*(pText + i) >= 0`
        if a.toNat < 128 then (gbLoop api fuel rest (left - 1)).map (a :: ·)
        else
          match rest with
          | [] => none
          | b :: rest =>
            (gbLoop api fuel rest (left - 2)).map (UnicodeToUTF_8 (api.MultiByteToWideChar a b) ++ ·)
    else some []

/-- `GB2312ToUTF_8`: what `pOut` holds afterwards; `rst` has `pLen * 3` bytes -/
def GB2312ToUTF_8 (api : WinApi) (pOut pText : List UInt8) (pLen : Int) : Option (List UInt8) :=
  if pLen = 0 then some pOut
  else if 0 ≤ pLen ∧ pLen * 3 < 2147483648 then
    match gbLoop api (pLen.toNat + 1) pText pLen with
    | none => none
    | some written =>
      if written.length < (pLen * 3).toNat then
        let rst := written ++ [0x20] ++ List.replicate ((pLen * 3).toNat - written.length - 1) 0
        if 0 ∈ rst then some (cstr rst) else none
      else none
  else none

/-- `Ctemp` after `UnicodeToGB2312` has written to it -/
def UnicodeToGB2312 (api : WinApi) (ctemp : UInt8 × UInt8) (uData : UInt16) : UInt8 × UInt8 :=
  match api.WideCharToMultiByte uData with
  | [] => ctemp
  | [x] => (x, ctemp.2)
  | x :: y :: _ => (x, y)

/-- the loop of `UTF_8ToGB2312`: what it writes to `newBuf` -/
def utf8Loop (api : WinApi) : Nat → List UInt8 → Int → UInt8 × UInt8 → Option (List UInt8)
  | 0, _, _, _ => none
  | fuel + 1, pText, left, ctemp =>
    if 0 < left then
      match pText with
      | [] => none
      | a :: rest =>
        if a.toNat < 128 then (utf8Loop api fuel rest (left - 1) ctemp).map (a :: ·)
        else
          match rest with
          | b :: c :: rest =>
            let ctemp := UnicodeToGB2312 api ctemp (UTF_8ToUnicode a b c)
            (utf8Loop api fuel rest (left - 3) ctemp).map fun out => ctemp.1 :: ctemp.2 :: out
          | _ => none
    else some []

/-- `UTF_8ToGB2312`: what `pOut` holds afterwards; `newBuf` has `pLen + 1` bytes, the last of them for the
NUL -/
def UTF_8ToGB2312 (api : WinApi) (pText : List UInt8) (pLen : Int) : Option (List UInt8) :=
  if 0 ≤ pLen ∧ pLen + 1 < 2147483648 then
    match utf8Loop api (pLen.toNat + 1) pText pLen (0, 0) with
    | none => none
    | some written => if (written.length : Int) ≤ pLen then some (cstr written) else none
  else none

section
variable (api : WinApi) (fuel : Nat) {left : Int}

theorem gbLoop_stop (pText : List UInt8) (hl : left ≤ 0) : gbLoop api (fuel + 1) pText left = some [] := by
  unfold gbLoop
  exact if_neg (by omega)

theorem gbLoop_ascii {a : UInt8} (rest : List UInt8) (hl : 0 < left) (ha : a.toNat < 128) :
    gbLoop api (fuel + 1) (a :: rest) left = (gbLoop api fuel rest (left - 1)).map (a :: ·) := by
  rw [gbLoop.eq_def]
  dsimp only
  rw [if_pos hl, if_pos ha]

theorem gbLoop_double {a : UInt8} (b : UInt8) (rest : List UInt8) (hl : 0 < left) (ha : 128 ≤ a.toNat) :
    gbLoop api (fuel + 1) (a :: b :: rest) left
      = (gbLoop api fuel rest (left - 2)).map (UnicodeToUTF_8 (api.MultiByteToWideChar a b) ++ ·) := by
  rw [gbLoop.eq_def]
  dsimp only
  rw [if_pos hl, if_neg (by omega)]

variable (ctemp : UInt8 × UInt8)

theorem utf8Loop_stop (pText : List UInt8) (hl : left ≤ 0) :
    utf8Loop api (fuel + 1) pText left ctemp = some [] := by
  unfold utf8Loop
  exact if_neg (by omega)

omit fuel in
theorem utf8Loop_end {fuel : Nat} {pText out : List UInt8} (hl : left ≤ 0)
    (h : utf8Loop api fuel pText left ctemp = some out) : out = [] := by
  cases fuel with
  | zero => cases h
  | succ fuel =>
    rw [utf8Loop_stop api fuel ctemp pText hl] at h
    exact (Option.some.inj h).symm

theorem utf8Loop_ascii {a : UInt8} (rest : List UInt8) (hl : 0 < left) (ha : a.toNat < 128) :
    utf8Loop api (fuel + 1) (a :: rest) left ctemp
      = (utf8Loop api fuel rest (left - 1) ctemp).map (a :: ·) := by
  rw [utf8Loop.eq_def]
  dsimp only
  rw [if_pos hl, if_pos ha]

theorem utf8Loop_three {a : UInt8} (b c : UInt8) (rest : List UInt8) (hl : 0 < left) (ha : 128 ≤ a.toNat)
    {x y : UInt8} (hxy : UnicodeToGB2312 api ctemp (UTF_8ToUnicode a b c) = (x, y)) :
    utf8Loop api (fuel + 1) (a :: b :: c :: rest) left ctemp
      = (utf8Loop api fuel rest (left - 3) (x, y)).map fun out => x :: y :: out := by
  rw [utf8Loop.eq_def]
  dsimp only
  rw [if_pos hl, if_neg (by omega), hxy]

end

/-! ## characters as numbers -/

theorem toNat_byte (f : UInt8 → UInt8) (g : Nat → Nat)
    (h : ∀ n < 256, (f (UInt8.ofNat n)).toNat = g n) (b : UInt8) : (f b).toNat = g b.toNat := by
  have hb := h b.toNat b.toNat_lt
  rwa [UInt8.ofNat_toNat] at hb

theorem toNat_lowByte (w : UInt16) : (lowByte w).toNat = w.toNat % 256 := UInt16.toNat_toUInt8 w

theorem toNat_highByte (w : UInt16) : (highByte w).toNat = w.toNat / 256 := by
  have hw := w.toNat_lt
  unfold highByte
  rw [UInt16.toNat_toUInt8, UInt16.toNat_shiftRight]
  show (w.toNat >>> 8) % 2 ^ 8 = _
  rw [Nat.shiftRight_eq_div_pow]
  omega

theorem UnicodeToUTF_8_spec (w : UInt16) : ∃ l x y, UnicodeToUTF_8 w = [l, x, y] ∧
    l.toNat = 224 + w.toNat / 4096 ∧ x.toNat = 128 + w.toNat / 64 % 64 ∧
    y.toNat = 128 + w.toNat % 64 := by
  have hhigh := toNat_highByte w
  have hlow := toNat_lowByte w
  have hw := w.toNat_lt
  have h0 := toNat_byte (fun b => (0xe0 : UInt8) ||| ((b &&& 0xf0) >>> 4)) (fun n => 224 + n / 16)
    (by decide +kernel) (highByte w)
  have h1 := toNat_byte (fun b => (0x80 : UInt8) ||| ((b &&& 0x0f) <<< 2)) (fun n => 128 + n % 16 * 4)
    (by decide +kernel) (highByte w)
  have h1' := toNat_byte (fun b => (b &&& 0xc0) >>> 6) (fun n => n / 64) (by decide +kernel) (lowByte w)
  have h2 := toNat_byte (fun b => (0x80 : UInt8) ||| (b &&& 0x3f)) (fun n => 128 + n % 64)
    (by decide +kernel) (lowByte w)
  refine ⟨_, _, _, rfl, ?_, ?_, ?_⟩
  · omega
  · rw [UInt8.toNat_add, h1, h1', hhigh, hlow]
    omega
  · omega

theorem UnicodeToUTF_8_three {c : Char} (h : c.utf8Size = 3) {w : UInt16} (hw : w.toNat = c.toNat) :
    UnicodeToUTF_8 w = String.utf8EncodeChar c := by
  obtain ⟨l, x, y, he, hl, hx, hy⟩ := UnicodeToUTF_8_spec w
  obtain ⟨l', x', y', he', hl', hx', hy'⟩ := encode_three h
  rw [he, he', UInt8.toNat_inj.mp (show l.toNat = l'.toNat by omega),
    UInt8.toNat_inj.mp (show x.toNat = x'.toNat by omega),
    UInt8.toNat_inj.mp (show y.toNat = y'.toNat by omega)]

theorem UnicodeToUTF_8_ne_zero (w : UInt16) : ∀ b ∈ UnicodeToUTF_8 w, b ≠ 0 := by
  obtain ⟨l, x, y, he, hl, hx, hy⟩ := UnicodeToUTF_8_spec w
  rw [he]
  intro b hb hz
  have hzero : b.toNat = 0 := by rw [hz]; rfl
  simp only [List.mem_cons, List.not_mem_nil, or_false] at hb
  rcases hb with rfl | rfl | rfl <;> omega

theorem toNat_UTF_8ToUnicode (b0 b1 b2 : UInt8) : (UTF_8ToUnicode b0 b1 b2).toNat
    = b0.toNat % 16 * 4096 + b1.toNat % 64 * 64 + b2.toNat % 64 := by
  have h0 := toNat_byte (fun b => (b &&& 0x0f) <<< 4) (fun n => n % 16 * 16) (by decide +kernel) b0
  have h1 := toNat_byte (fun b => (b >>> 2) &&& 0x0f) (fun n => n / 4 % 16) (by decide +kernel) b1
  have h1' := toNat_byte (fun b => (b &&& 0x03) <<< 6) (fun n => n % 4 * 64) (by decide +kernel) b1
  have h2 := toNat_byte (fun b => b &&& 0x3f) (fun n => n % 64) (by decide +kernel) b2
  have hb := b1.toNat_lt
  unfold UTF_8ToUnicode
  dsimp only
  rw [UInt16.toNat_or, UInt16.toNat_shiftLeft, UInt8.toNat_toUInt16, UInt8.toNat_toUInt16, UInt8.toNat_add,
    UInt8.toNat_add, h0, h1, h1', h2]
  generalize hA : (b0.toNat % 16 * 16 + b1.toNat / 4 % 16) % 2 ^ 8 = A
  generalize hB : (b1.toNat % 4 * 64 + b2.toNat % 64) % 2 ^ 8 = B
  have hshift : A <<< ((8 : UInt16).toNat % 16) % 2 ^ 16 = A <<< 8 := by
    show A <<< 8 % 65536 = A <<< 8
    rw [Nat.shiftLeft_eq]
    omega
  rw [hshift, ← Nat.shiftLeft_add_eq_or_of_lt (show B < 2 ^ 8 by omega), Nat.shiftLeft_eq]
  omega

/-! ## one byte or three -/

/-- the bytes that both loops have for a character in UTF-8 -/
def taken (c : Char) : Nat := if c.toNat < 128 then 1 else 3

theorem size_three_of_code {S : Charset} {c : Char} {p : UInt8 × UInt8} (hc : S.code c = some p)
    (h2 : c.utf8Size ≠ 2) : c.utf8Size = 3 := by
  have hw := S.wide c p hc
  have h2' := size_two_iff.not.mp h2
  exact size_three_iff.mpr ⟨by omega, hw.2⟩

theorem taken_eq {S : Charset} {c : Char} (h : S.Has c) :
    taken c = c.utf8Size + (if c.utf8Size = 2 then 1 else 0) := by
  cases h.written with
  | ascii h0 hlt =>
    rw [taken, if_pos hlt, size_one_iff.mpr hlt]
    rfl
  | double x y hc =>
    rw [taken, if_neg (Nat.not_lt.mpr (S.wide c _ hc).1)]
    by_cases h2 : c.utf8Size = 2
    · rw [if_pos h2, h2]
    · rw [if_neg h2, size_three_of_code hc h2]

theorem sum_taken {S : Charset} {cs : List Char} (hcs : ∀ c ∈ cs, S.Has c) :
    (cs.map taken).sum = (encode cs).length + cs.countP (fun c => c.utf8Size = 2) := by
  induction cs with
  | nil => rfl
  | cons c cs ih =>
    have htail := ih fun d hd => hcs d (List.mem_cons_of_mem c hd)
    rw [List.map_cons, List.sum_cons, length_encode_cons, taken_eq (hcs c List.mem_cons_self), htail,
      List.countP_cons]
    by_cases h2 : c.utf8Size = 2
    · rw [if_pos h2, if_pos (decide_eq_true h2)]
      omega
    · rw [if_neg h2, if_neg (by simpa using h2)]
      omega

/-! ## three characters -/

/-- of GB2312: the section sign, a Cyrillic and a Chinese character -/
def sampleCodes : List (Char × UInt8 × UInt8) :=
  [('\u00a7', 0xa1, 0xec), ('\u0410', 0xa7, 0xa1), ('\u4e00', 0xd2, 0xbb)]

theorem mem_sampleCodes {c : Char} {p : UInt8 × UInt8} (h : sampleCodes.lookup c = some p) :
    (c, p) ∈ sampleCodes := by
  obtain ⟨l, r, e, _⟩ := List.lookup_eq_some_iff.mp h
  rw [e]
  exact List.mem_append_right _ List.mem_cons_self

def sampleCharset : Charset where
  code c := sampleCodes.lookup c
  injective c d p hc hd :=
    (show ∀ e ∈ sampleCodes, ∀ f ∈ sampleCodes, e.2 = f.2 → e.1 = f.1 by decide +kernel)
      (c, p) (mem_sampleCodes hc) (d, p) (mem_sampleCodes hd) rfl
  high c x y h :=
    (show ∀ e ∈ sampleCodes, 0xa1 ≤ e.2.1.toNat ∧ 0xa1 ≤ e.2.2.toNat by decide +kernel)
      (c, x, y) (mem_sampleCodes h)
  wide c p h :=
    (show ∀ e ∈ sampleCodes, 0x80 ≤ e.1.toNat ∧ e.1.toNat < 0x10000 by decide +kernel)
      (c, p) (mem_sampleCodes h)

theorem sampleCharset_has (cs : List Char) (h : (cs.all fun c => decide (sampleCharset.Has c)) = true) :
    ∀ c ∈ cs, sampleCharset.Has c :=
  fun c hc => of_decide_eq_true (List.all_eq_true.mp h c hc)

/-- a code page with these characters; any other gives a question mark -/
def sampleApi : WinApi where
  MultiByteToWideChar x y :=
    ((sampleCodes.find? fun e => e.2 = (x, y)).map fun e => UInt16.ofNat e.1.toNat).getD 0x3f
  WideCharToMultiByte w :=
    ((sampleCodes.find? fun e => e.1.toNat = w.toNat).map fun e => [e.2.1, e.2.2]).getD [0x3f]

theorem sampleApi_widens : sampleApi.Widens sampleCharset := fun c x y h =>
  (show ∀ e ∈ sampleCodes, (sampleApi.MultiByteToWideChar e.2.1 e.2.2).toNat = e.1.toNat by decide +kernel)
    (c, x, y) (mem_sampleCodes h)

theorem sampleApi_narrows : sampleApi.Narrows sampleCharset := by
  intro c x y w h hw
  have hfind : ∀ e ∈ sampleCodes, ((sampleCodes.find? fun f => f.1.toNat = e.1.toNat).map
      fun f => [f.2.1, f.2.2]).getD [0x3f] = [e.2.1, e.2.2] := by decide +kernel
  have e := hfind (c, x, y) (mem_sampleCodes h)
  show ((sampleCodes.find? fun f => f.1.toNat = w.toNat).map fun f => [f.2.1, f.2.2]).getD [0x3f] = [x, y]
  rw [hw]
  exact e

end JMEngine.Tools
