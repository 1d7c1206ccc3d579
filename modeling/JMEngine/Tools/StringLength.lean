import JMEngine.Lib.Bytes
import JMEngine.Lib.Utf8

/-!
# `stringLength`: how many characters a string has

A pointer into the string is the list of the bytes from it on, the terminating NUL included.

* `advance`              how far a pass of the loop moves: by the class of the byte, or by two for a
                         pair that looks like GB2312;
* `stringLengthLoop`, `stringLength_n`, `stringLength`   the loop and the two overloads;
* `Next`, `Moves`, `loop_step`   the five ways in which a pass moves over well-formed UTF-8: it may stand
                         between two characters or on the bytes that continue one;
* `loop_whole`, `loop_part`   what follows for the number of passes;
* `stringLength_iff`     **the characters are counted iff none of them takes four bytes** and the length
                         of the string fits an `int`.
-/

set_option linter.unusedSectionVars false

namespace JMEngine.Tools
open Bytes Utf8

/-- how far `pChar` moves, from the byte under it and the one behind; `none` when that one lies
outside the string -/
def advance (value : Nat) (value2 : Option Nat) : Option Nat :=
  if value ≤ 0xfd ∧ value ≥ 0xc0 then
    if value &&& 0xe0 = 0xe0 then some 3
    else if value &&& 0xc0 = 0xc0 then some 2
    -- `pChar` would stay where it is for ever
    else none
  -- the two ranges of first bytes have nothing in common
  else if value ≥ 0xa1 ∧ value ≤ 0xa9 then
    value2.map fun value2 => if value2 > 0xa1 ∧ value2 ≤ 0xef then 2 else 1
  else if value ≥ 0xb0 ∧ value ≤ 0xf7 then
    value2.map fun value2 => if value2 > 0xa0 ∧ value2 < 0xff then 2 else 1
  else some 1

/-- the loop: `pChar`, what is left of `str + len - pChar`, and `nlen`; the byte under `pChar` is
read before the condition is tested -/
def stringLengthLoop : Nat → List UInt8 → Int → Nat → Option Nat
  | 0, _, _, _ => none
  | _ + 1, [], _, _ => none
  | fuel + 1, value :: rest, left, nlen =>
    if 0 < left then
      (advance value.toNat (rest.head?.map UInt8.toNat)).bind fun k =>
        stringLengthLoop fuel ((value :: rest).drop k) (left - k) (nlen + 1)
    else some nlen

/-- `stringLength(const char* str, int len)`; a pass moves on by a byte at least, so that there
are at most `len` of them -/
def stringLength_n (str : List UInt8) (len : Int) : Option Nat :=
  stringLengthLoop (len.toNat + 1) (str ++ [0]) len 0

/-- `stringLength(const string& inStr)`; `length()` becomes an `int` -/
def stringLength (inStr : List UInt8) : Option Nat := stringLength_n inStr (int32 inStr.length)

/-! ## One pass -/

theorem advance_ascii (v : Nat) (hv : v < 128) (v2 : Option Nat) : advance v v2 = some 1 := by
  unfold advance
  rw [if_neg (by omega), if_neg (by omega), if_neg (by omega)]

theorem advance_two (v : Nat) (hv : 192 ≤ v ∧ v < 224) (v2 : Option Nat) : advance v v2 = some 2 := by
  have hbits : ∀ v < 224, 192 ≤ v → v &&& 0xe0 ≠ 0xe0 ∧ v &&& 0xc0 = 0xc0 := by decide +kernel
  obtain ⟨h1, h2⟩ := hbits v hv.2 hv.1
  unfold advance
  rw [if_pos (by omega), if_neg h1, if_pos h2]

theorem advance_three (v : Nat) (hv : 224 ≤ v ∧ v < 248) (v2 : Option Nat) :
    advance v v2 = some 3 := by
  have hbits : ∀ v < 248, 224 ≤ v → v &&& 0xe0 = 0xe0 := by decide +kernel
  unfold advance
  rw [if_pos (by omega), if_pos (hbits v hv.2 hv.1)]

theorem advance_cont (v v2 : Nat) (hv : 128 ≤ v ∧ v < 192) :
    advance v (some v2) = some 1 ∨ (advance v (some v2) = some 2 ∧ 128 ≤ v2) := by
  unfold advance
  rw [if_neg (by omega)]
  split
  · rw [Option.map_some]
    split
    · exact Or.inr ⟨rfl, by omega⟩
    · exact Or.inl rfl
  · split
    · rw [Option.map_some]
      split
      · exact Or.inr ⟨rfl, by omega⟩
      · exact Or.inl rfl
    · exact Or.inl rfl

theorem loop_pass (fuel : Nat) (v : UInt8) (rest : List UInt8) (left : Int) (nlen k : Nat)
    (hl : 0 < left) (hk : advance v.toNat (rest.head?.map UInt8.toNat) = some k) :
    stringLengthLoop (fuel + 1) (v :: rest) left nlen =
      stringLengthLoop fuel ((v :: rest).drop k) (left - k) (nlen + 1) := by
  rw [stringLengthLoop, if_pos hl, hk, Option.bind_some]

/-! ## The passes over well-formed UTF-8 -/

/-- `pChar` has `n` bytes that continue a character in front of the characters `cs` -/
def Stands (p : List UInt8) (n : Nat) (cs : List Char) : Prop :=
  ∃ conts, (∀ x ∈ conts, Cont x) ∧ conts.length = n ∧ p = conts ++ (encode cs ++ [0])

theorem stands_encode (cs : List Char) : Stands (encode cs ++ [0]) 0 cs :=
  ⟨[], fun _ hx => (nomatch hx), rfl, rfl⟩

/-- the ways in which a pass moves, by `k` bytes -/
inductive Next : Nat → List Char → Nat → Nat → List Char → Prop
  /-- over one byte that continues a character -/
  | one (n : Nat) (cs : List Char) : Next (n + 1) cs 1 n cs
  /-- over two of them -/
  | pair (n : Nat) (cs : List Char) : Next (n + 2) cs 2 n cs
  /-- over the last of them and the first byte of the next character -/
  | cross (c : Char) (cs : List Char) (h : 2 ≤ c.utf8Size) : Next 1 (c :: cs) 2 (c.utf8Size - 1) cs
  /-- over a whole character -/
  | char (c : Char) (cs : List Char) (h : c.utf8Size ≤ 3) : Next 0 (c :: cs) c.utf8Size 0 cs
  /-- over three bytes of a character of four -/
  | lead (c : Char) (cs : List Char) (h : c.utf8Size = 4) : Next 0 (c :: cs) 3 1 cs

/-- a pass from `p` moves in one of these ways -/
def Moves (fuel : Nat) (left : Int) (nlen : Nat) (p : List UInt8) (n : Nat) (cs : List Char) : Prop :=
  ∃ k n' cs' p', Next n cs k n' cs' ∧ Stands p' n' cs' ∧
    stringLengthLoop (fuel + 1) p left nlen = stringLengthLoop fuel p' (left - k) (nlen + 1)

section
variable (fuel : Nat) {left : Int} (hl : 0 < left) (nlen : Nat)
include hl

theorem moves_of_advance {v : UInt8} {rest : List UInt8} {k n n' : Nat} {cs cs' : List Char}
    (hk : advance v.toNat (rest.head?.map UInt8.toNat) = some k) (hnext : Next n cs k n' cs')
    (hs : Stands ((v :: rest).drop k) n' cs') : Moves fuel left nlen (v :: rest) n cs :=
  ⟨k, n', cs', _, hnext, hs, loop_pass fuel v rest left nlen k hl hk⟩

theorem loop_step_char (c : Char) (cs : List Char) :
    Moves fuel left nlen (encode (c :: cs) ++ [0]) 0 (c :: cs) := by
  have hs := String.length_utf8EncodeChar c
  have hall := encoded c
  have hchar := Next.char c cs
  rw [encode_cons, List.append_assoc]
  generalize String.utf8EncodeChar c = bs at hs hall
  cases hall with
  | one a ha =>
    rw [show c.utf8Size = 1 from hs.symm] at hchar
    exact moves_of_advance fuel hl nlen (advance_ascii _ ha _) (hchar (by decide)) (stands_encode cs)
  | two l x hlead hx =>
    rw [show c.utf8Size = 2 from hs.symm] at hchar
    exact moves_of_advance fuel hl nlen (advance_two _ hlead _) (hchar (by decide)) (stands_encode cs)
  | three l x y hlead hx hy =>
    rw [show c.utf8Size = 3 from hs.symm] at hchar
    exact moves_of_advance fuel hl nlen (advance_three _ (by omega) _) (hchar (by decide))
      (stands_encode cs)
  | four l x y z hlead hx hy hz =>
    refine moves_of_advance fuel hl nlen (advance_three _ (by omega) _) (.lead c cs hs.symm)
      ⟨[z], fun w hw => ?_, rfl, rfl⟩
    exact List.mem_singleton.mp hw ▸ hz

theorem loop_step_last (x : UInt8) (hx : Cont x) (cs : List Char) :
    Moves fuel left nlen (x :: (encode cs ++ [0])) 1 cs := by
  have hone (v : Nat) (hhead : (encode cs ++ [0]).head?.map UInt8.toNat = some v)
      (h : advance x.toNat (some v) = some 1) :
      Moves fuel left nlen (x :: (encode cs ++ [0])) 1 cs :=
    moves_of_advance fuel hl nlen (by rw [hhead, h]) (.one 0 cs) (stands_encode cs)
  cases cs with
  | nil =>
    rcases advance_cont x.toNat 0 hx with h | ⟨_, hge⟩
    · exact hone 0 rfl h
    · exact absurd hge (by decide)
  | cons c cs =>
    have hs := String.length_utf8EncodeChar c
    have hall := encoded c
    rw [encode_cons, List.append_assoc] at hone ⊢
    generalize String.utf8EncodeChar c = bs at hs hall hone
    have hcross (l : UInt8) (tail : List UInt8) (htail : ∀ y ∈ tail, Cont y) (e : bs = l :: tail)
        (hne : tail ≠ []) :
        Moves fuel left nlen (x :: (bs ++ (encode cs ++ [0]))) 1 (c :: cs) := by
      have hpos := List.length_pos_of_ne_nil hne
      subst e
      rw [List.length_cons] at hs
      rcases advance_cont x.toNat l.toNat hx with h | ⟨h, _⟩
      · exact hone _ rfl h
      · exact moves_of_advance fuel hl nlen h (.cross c cs (by omega)) ⟨tail, htail, by omega, rfl⟩
    cases hall with
    | one a ha =>
      rcases advance_cont x.toNat a.toNat hx with h | ⟨_, hge⟩
      · exact hone _ rfl h
      · omega
    | two l y hlead hy => exact hcross l [y] (by simpa using hy) rfl (by simp)
    | three l y z hlead hy hz =>
      exact hcross l [y, z] (by simpa using ⟨hy, hz⟩) rfl (by simp)
    | four l y z u hlead hy hz hu =>
      exact hcross l [y, z, u] (by simpa using ⟨hy, hz, hu⟩) rfl (by simp)

theorem loop_step {p : List UInt8} {n : Nat} {cs : List Char} (h : Stands p n cs)
    (hne : 0 < n + (encode cs).length) : Moves fuel left nlen p n cs := by
  obtain ⟨conts, hconts, rfl, rfl⟩ := h
  match conts, hconts with
  | [], _ =>
    cases cs with
    | nil => exact absurd hne (by decide)
    | cons c cs => exact loop_step_char fuel hl nlen c cs
  | [x], hx => exact loop_step_last fuel hl nlen x (hx x List.mem_cons_self) cs
  | x :: y :: conts, hx =>
    have hrest : ∀ z ∈ conts, Cont z := fun z hz =>
      hx z (List.mem_cons_of_mem _ (List.mem_cons_of_mem _ hz))
    rcases advance_cont x.toNat y.toNat (hx x List.mem_cons_self) with h | ⟨h, _⟩
    · exact moves_of_advance fuel hl nlen h (.one _ cs)
        ⟨y :: conts, fun z hz => hx z (List.mem_cons_of_mem _ hz), rfl, rfl⟩
    · exact moves_of_advance fuel hl nlen h (.pair _ cs) ⟨conts, hrest, rfl, rfl⟩

end

/-! ## The number of passes -/

/-- the characters of four bytes, those above `U+FFFF` -/
def fours (cs : List Char) : Nat := cs.countP fun c => c.utf8Size = 4

theorem fours_cons (c : Char) (cs : List Char) :
    fours (c :: cs) = fours cs + if c.utf8Size = 4 then 1 else 0 := by
  unfold fours
  rw [List.countP_cons]
  by_cases h : c.utf8Size = 4 <;> simp [h]

theorem fours_eq_zero_iff (cs : List Char) : fours cs = 0 ↔ ∀ c ∈ cs, c.utf8Size ≠ 4 := by
  unfold fours
  rw [List.countP_eq_zero]
  simp

theorem length_encode_le (cs : List Char) : (encode cs).length ≤ 4 * cs.length := by
  induction cs with
  | nil => exact Nat.le_refl 0
  | cons c cs ih =>
    have := c.utf8Size_le_four
    rw [length_encode_cons, List.length_cons]
    omega

theorem loop_done {p : List UInt8} {n : Nat} {cs : List Char} (h : Stands p n cs) (fuel : Nat)
    {left : Int} (hl : left ≤ 0) (nlen : Nat) :
    stringLengthLoop (fuel + 1) p left nlen = some nlen := by
  obtain ⟨conts, -, -, rfl⟩ := h
  obtain ⟨v, rest, e⟩ : ∃ v rest, conts ++ (encode cs ++ [0]) = v :: rest :=
    List.exists_cons_of_ne_nil (by simp)
  rw [e, stringLengthLoop, if_neg (by omega)]

section
variable {n k n' : Nat} {cs cs' : List Char} (h : Next n cs k n' cs')
include h

theorem Next.bytes : 1 ≤ k ∧ k + (n' + (encode cs').length) = n + (encode cs).length := by
  cases h with
  | one | pair => omega
  | cross c _ h2 =>
    rw [length_encode_cons]
    omega
  | char c _ h3 =>
    have := c.utf8Size_pos
    rw [length_encode_cons]
    omega
  | lead c _ h4 =>
    rw [length_encode_cons]
    omega

/-- no character is passed over, and one of four bytes takes two passes -/
theorem Next.lower : cs.length + fours cs + (n + 1) / 2 ≤
    1 + (cs'.length + fours cs' + (n' + 1) / 2) := by
  cases h with
  | one | pair => omega
  | cross c _ h2 =>
    have := c.utf8Size_le_four
    rw [fours_cons, List.length_cons]
    split <;> omega
  | char c _ h3 =>
    rw [fours_cons, List.length_cons, if_neg (by omega)]
    omega
  | lead c _ h4 =>
    rw [fours_cons, List.length_cons, if_pos h4]
    omega

theorem Next.exact (hn : n = 0) (h4 : fours cs = 0) :
    n' = 0 ∧ fours cs' = 0 ∧ cs.length = cs'.length + 1 := by
  cases h with
  | one | pair | cross => omega
  | char c =>
    rw [fours_cons] at h4
    exact ⟨rfl, by omega, rfl⟩
  | lead c _ hc =>
    rw [fours_cons, if_pos hc] at h4
    omega

/-- what a pass can gain over the characters, against the bytes that it moves -/
theorem Next.upper : 4 + (encode cs).length + 4 * cs'.length + n' ≤
    (encode cs').length + 4 * cs.length + 3 * k + n := by
  cases h with
  | one | pair => omega
  | cross c _ h2 =>
    have := c.utf8Size_le_four
    rw [length_encode_cons, List.length_cons]
    omega
  | char c _ h3 =>
    have := c.utf8Size_pos
    rw [length_encode_cons, List.length_cons]
    omega
  | lead c _ h4 =>
    rw [length_encode_cons, List.length_cons]
    omega

end

/-- **A loop over the whole string** returns; its passes are at least the characters, once more
those of four bytes, and no more than the characters when there are none of four. -/
theorem loop_whole (fuel : Nat) {p : List UInt8} {n : Nat} {cs : List Char} (h : Stands p n cs)
    (nlen : Nat) (hfuel : n + (encode cs).length < fuel) :
    ∃ k, stringLengthLoop fuel p (n + (encode cs).length : Nat) nlen = some (nlen + k) ∧
      cs.length + fours cs + (n + 1) / 2 ≤ k ∧ (n = 0 → fours cs = 0 → k = cs.length) := by
  induction fuel generalizing p n cs nlen with
  | zero => omega
  | succ fuel ih =>
    by_cases hne : 0 < n + (encode cs).length
    · have hl : (0 : Int) < (n + (encode cs).length : Nat) := by omega
      obtain ⟨k, n', cs', p', hnext, hp', hstep⟩ := loop_step fuel hl nlen h hne
      have hbytes := hnext.bytes
      obtain ⟨j, hj, hlow, hex⟩ := ih hp' (nlen + 1) (by omega)
      refine ⟨1 + j, ?_, ?_, ?_⟩
      · rw [hstep, show ((n + (encode cs).length : Nat) : Int) - k =
          (n' + (encode cs').length : Nat) by omega, hj, Nat.add_assoc]
      · have := hnext.lower
        omega
      · intro hn h4
        obtain ⟨h1, h2, h3⟩ := hnext.exact hn h4
        rw [hex h1 h2, h3]
        omega
    · have hcs : cs = [] := by
        cases cs with
        | nil => rfl
        | cons c cs =>
          have := c.utf8Size_pos
          rw [length_encode_cons] at hne
          omega
      subst hcs
      refine ⟨0, loop_done h fuel (by omega) nlen, ?_, fun _ _ => rfl⟩
      have hn : n = 0 := by omega
      rw [hn]
      decide

/-- **A loop that stops early**, with a multiple of four bytes in front of it, has fewer passes
than there are characters, by a quarter of those bytes at least when it saw few. -/
theorem loop_part (fuel : Nat) {p : List UInt8} {n : Nat} {cs : List Char} (h : Stands p n cs)
    (nlen : Nat) {left : Int} (hl : 0 < left) (hfuel : left < fuel)
    (hgap : left < n + (encode cs).length) (h4 : (n + (encode cs).length - left) % 4 = 0) :
    ∃ k, stringLengthLoop fuel p left nlen = some (nlen + k) ∧
      4 * k + (encode cs).length ≤ 4 * cs.length + 3 * left + n := by
  induction fuel generalizing p n cs nlen left with
  | zero => omega
  | succ fuel ih =>
    obtain ⟨k, n', cs', p', hnext, hp', hstep⟩ := loop_step fuel hl nlen h (by omega)
    have hbytes := hnext.bytes
    have hupper := hnext.upper
    have hle := length_encode_le cs'
    by_cases hl' : 0 < left - k
    · obtain ⟨j, hj, hj'⟩ := ih hp' (nlen + 1) hl' (by omega) (by omega) (by omega)
      refine ⟨1 + j, ?_, by omega⟩
      rw [hstep, hj, Nat.add_assoc]
    · refine ⟨1, ?_, ?_⟩
      · obtain ⟨f, rfl⟩ : ∃ f, fuel = f + 1 := ⟨fuel - 1, by omega⟩
        rw [hstep, loop_done hp' f (by omega)]
      · have hle := length_encode_le cs
        cases hnext with
        | one | pair | cross => omega
        | char c _ h3 =>
          rw [length_encode_cons, List.length_cons] at *
          omega
        | lead c _ hc =>
          rw [length_encode_cons, List.length_cons] at *
          omega

/-! ## `stringLength` -/

theorem stringLength_short (cs : List Char) (h31 : (encode cs).length < 2147483648) :
    stringLength (encode cs) = some cs.length ↔ fours cs = 0 := by
  have hlen : int32 (encode cs).length = ((0 + (encode cs).length : Nat) : Int) := by
    rw [int32_of_range _ (by omega) (by omega), Nat.zero_add]
  obtain ⟨k, hk, hlow, hex⟩ :=
    loop_whole (int32 (encode cs).length).toNat.succ (stands_encode cs) 0 (by omega)
  have hrun : stringLength (encode cs) = some k := by
    rw [← hlen, Nat.zero_add k] at hk
    exact hk
  rw [hrun, Option.some.injEq]
  constructor
  · intro hkm
    omega
  · exact hex rfl

theorem stringLength_long (cs : List Char) (h31 : 2147483648 ≤ (encode cs).length) :
    stringLength (encode cs) ≠ some cs.length := by
  have hr := int32_range (encode cs).length
  have hle := length_encode_le cs
  by_cases hl : 0 < int32 (encode cs).length
  · have hgap : ((encode cs).length - int32 (encode cs).length) % 4294967296 = 0 := by
      unfold int32
      omega
    have hlt : int32 (encode cs).length ≠ (encode cs).length := by omega
    have hle' := int32_le (encode cs).length (by omega)
    obtain ⟨k, hk, hup⟩ := loop_part (int32 (encode cs).length).toNat.succ (stands_encode cs) 0 hl
      (by omega) (by omega) (by omega)
    have hrun : stringLength (encode cs) = some k := by
      rw [Nat.zero_add k] at hk
      exact hk
    rw [hrun, Ne, Option.some.injEq]
    omega
  · have hrun : stringLength (encode cs) = some 0 :=
      loop_done (stands_encode cs) _ (by omega) 0
    rw [hrun, Ne, Option.some.injEq]
    omega

/-- **`stringLength` counts the characters of a well-formed UTF-8 string iff** none of them takes
four bytes and the length of the string fits an `int`. -/
theorem stringLength_iff (cs : List Char) :
    stringLength (encode cs) = some cs.length ↔
      (∀ c ∈ cs, c.utf8Size ≠ 4) ∧ (encode cs).length < 2147483648 := by
  rw [← fours_eq_zero_iff]
  by_cases h31 : (encode cs).length < 2147483648
  · rw [stringLength_short cs h31]
    exact (and_iff_left h31).symm
  · exact iff_of_false (stringLength_long cs (by omega)) fun h => h31 h.2

/-- `U+1F600` is counted as two -/
theorem stringLength_emoji :
    ¬ ∀ cs : List Char, stringLength (encode cs) = some cs.length := by
  intro hall
  have h := hall [Char.ofNat 0x1F600]
  revert h
  decide +kernel

end JMEngine.Tools
