import JMEngine.Json.Layout
import JMEngine.Json.Writer

/-!
# What the reader makes of a scalar that was written

* `quotes_quotedString`     a quoted string is one token, which decodes to the string;
* `Digits`, `numberLoop_digits`   the digits of a number, and where the reader gives up on them;
* `truncateZeroes_decimal`  a number without its zeros is a number.
-/

namespace JMEngine.Json
open DoubleByte (cstr)

/-! ## Strings -/

theorem escaped_of_escapes : ∀ e ∈ escapes, escaped e.2 = some e.1 ∧ e.2 ≠ 0x0a := by
  have h : escapes.all (fun e => decide (escaped e.2 = some e.1 ∧ e.2 ≠ 0x0a)) = true := by decide
  exact fun e he => of_decide_eq_true (List.all_eq_true.mp h e he)

theorem lookup_escapes {c letter : UInt8} (h : escapes.lookup c = some letter) :
    (c, letter) ∈ escapes := by
  obtain ⟨l, r, e, _⟩ := List.lookup_eq_some_iff.mp h
  rw [e]
  exact List.mem_append_right _ List.mem_cons_self

/-- what a byte is written as: a letter behind a backslash, four digits, or itself -/
inductive Escape (c : UInt8) : Prop
  | letter (d : UInt8) (he : escape c = [0x5c, d]) (hd : escaped d = some c) (hn : d ≠ 0x0a)
  | control (he : escape c = 0x5c :: 0x75 :: hexFour c.toNat) (hc : c.toNat < 0x20)
  | plain (he : escape c = [c]) (hq : c ≠ 0x22) (hb : c ≠ 0x5c) (hn : c ≠ 0x0a)

theorem escape_cases (c : UInt8) : Escape c := by
  cases hl : escapes.lookup c with
  | some letter =>
    obtain ⟨h1, h2⟩ := escaped_of_escapes _ (lookup_escapes hl)
    exact .letter letter (by unfold escape; rw [hl]) h1 h2
  | none =>
    by_cases hc : isControlCharacter c = true
    · refine .control (by unfold escape; rw [hl]; exact if_pos hc) ?_
      unfold isControlCharacter at hc
      rw [Bool.and_eq_true, decide_eq_true_eq, decide_eq_true_eq] at hc
      have := UInt8.le_iff_toNat_le.mp hc.2
      exact Nat.lt_succ_of_le this
    · have hne : ∀ d, escapes.lookup d ≠ none → c ≠ d := by
        rintro d hd rfl
        exact hd hl
      exact .plain (by unfold escape; rw [hl]; exact if_neg hc) (hne _ (by decide)) (hne _ (by decide))
        (hne _ (by decide))

theorem hexUpper_digit : ∀ d < 16, hexDigit (hexUpper d) = some d ∧ hexUpper d ≠ 0x22 ∧
    hexUpper d ≠ 0x5c ∧ hexUpper d ≠ 0x0a := by decide

theorem readString_escape (b c : UInt8) (l : List UInt8) :
    ∃ d, readString b (escape c ++ l) = readString d l := by
  cases escape_cases c with
  | letter d he _ _ =>
    rw [he]
    exact ⟨0x5c, rfl⟩
  | control he _ =>
    have hd := fun n : Nat => hexUpper_digit (n % 16) (Nat.mod_lt n (by decide))
    refine ⟨hexUpper (c.toNat % 16), ?_⟩
    rw [he]
    show readString 0x5c (hexUpper _ :: hexUpper _ :: hexUpper _ :: hexUpper _ :: l) = _
    rw [readString_cons _ _ _ (hd _).2.2.1 (hd _).2.1, readString_cons _ _ _ (hd _).2.2.1 (hd _).2.1,
      readString_cons _ _ _ (hd _).2.2.1 (hd _).2.1, readString_cons _ _ _ (hd _).2.2.1 (hd _).2.1]
  | plain he hq hb _ =>
    rw [he]
    exact ⟨c, readString_cons b c l hb hq⟩

theorem readString_quote (b : UInt8) (rest : List UInt8) : readString b (0x22 :: rest) = (true, rest) := by
  cases rest with
  | nil => rfl
  | cons c rest => rfl

theorem readString_escapes (b : UInt8) (s rest : List UInt8) :
    readString b (s.flatMap escape ++ 0x22 :: rest) = (true, rest) := by
  induction s generalizing b with
  | nil => exact readString_quote b rest
  | cons c s ih =>
    rw [List.flatMap_cons, List.append_assoc]
    obtain ⟨d, hd⟩ := readString_escape b c (s.flatMap escape ++ 0x22 :: rest)
    rw [hd]
    exact ih d

theorem decodeUnicode_control (token : Token) {n : Nat} (hn : n < 0x20) (l : List UInt8) :
    decodeUnicodeCodePoint token (hexFour n ++ l) = .done (n, l) := by
  have hloop : hexLoop token 0 (hexFour n) = .done n := by
    have hd := fun k : Nat => (hexUpper_digit (k % 16) (Nat.mod_lt k (by decide))).1
    unfold hexFour
    simp only [hexLoop, hd]
    congr 1
    omega
  have hescape : decodeUnicodeEscapeSequence token (hexFour n ++ l) = .done (n, l) := by
    unfold decodeUnicodeEscapeSequence
    have hlen : ¬ (hexFour n ++ l).length < 4 := by
      rw [List.length_append]
      exact Nat.not_lt.mpr (Nat.le_add_right 4 _)
    rw [if_neg hlen, show (hexFour n ++ l).take 4 = hexFour n from List.take_left' rfl, hloop]
    show Verdict.done (n, (hexFour n ++ l).drop 4) = _
    rw [show (hexFour n ++ l).drop 4 = l from List.drop_left' rfl]
  unfold decodeUnicodeCodePoint
  rw [hescape]
  exact if_neg (by omega)

theorem codePointToUTF8_control {c : UInt8} (h : c.toNat < 0x20) : codePointToUTF8 c.toNat = [c] := by
  unfold codePointToUTF8
  rw [if_pos (by omega), UInt8.ofNat_toNat]

theorem decodeLoop_escape (token : Token) (c : UInt8) (n : Nat) (decoded l : List UInt8) :
    decodeLoop token (n + 1) decoded (escape c ++ l) = decodeLoop token n (decoded ++ [c]) l := by
  cases escape_cases c with
  | letter d he hd _ =>
    rw [he]
    show decodeLoop token (n + 1) decoded (0x5c :: d :: l) = _
    rw [decodeLoop, if_neg (by decide), if_pos rfl]
    dsimp only
    rw [hd]
  | control he hc =>
    rw [he]
    show (decodeUnicodeCodePoint token (hexFour c.toNat ++ l)).bind _ = _
    rw [decodeUnicode_control token hc]
    show decodeLoop token n (decoded ++ codePointToUTF8 c.toNat) l = _
    rw [codePointToUTF8_control hc]
  | plain he hq hb _ =>
    rw [he]
    show (if c = 0x22 then _ else if c = 0x5c then _ else _) = _
    rw [if_neg hq, if_neg hb]
    rfl

theorem escape_ne_nil (c : UInt8) : escape c ≠ [] := by
  cases escape_cases c with
  | letter d he _ _ => rw [he]; exact List.cons_ne_nil _ _
  | control he _ => rw [he]; exact List.cons_ne_nil _ _
  | plain he _ _ _ => rw [he]; exact List.cons_ne_nil _ _

theorem decodeLoop_escapes (token : Token) (s decoded : List UInt8) (n : Nat)
    (hn : (s.flatMap escape).length ≤ n) :
    decodeLoop token n decoded (s.flatMap escape) = .done (decoded ++ s) := by
  induction s generalizing n decoded with
  | nil =>
    rw [List.append_nil]
    cases n with
    | zero => rfl
    | succ n => rfl
  | cons c s ih =>
    rw [List.flatMap_cons, List.length_append] at hn
    have hpos := List.length_pos_iff.mpr (escape_ne_nil c)
    obtain ⟨m, rfl⟩ : ∃ m, n = m + 1 := ⟨n - 1, by omega⟩
    rw [List.flatMap_cons, decodeLoop_escape, ih _ _ (by omega), List.append_assoc, List.singleton_append]

/-- **The shortcut for texts without anything to escape changes nothing.** -/
theorem quotedString_eq (s : List UInt8) :
    quotedString s = 0x22 :: ((cstr s).flatMap escape ++ [0x22]) := by
  unfold quotedString
  dsimp only
  split
  · next h =>
    have hself : ∀ c ∈ cstr s, escape c = [c] := by
      intro c hc
      have hl := List.all_eq_true.mp h.1 c hc
      have hcontrol : isControlCharacter c = false := by
        have hany : containsControlCharacter (cstr s) = false := by simpa using h.2
        unfold containsControlCharacter at hany
        rw [show cstr (cstr s) = cstr s from List.takeWhile_idem .., List.any_eq_false] at hany
        exact Bool.eq_false_iff.mpr (hany c hc)
      unfold escape
      rw [Option.isNone_iff_eq_none.mp hl]
      exact if_neg (by rw [hcontrol]; decide)
    have hmap : (cstr s).flatMap escape = cstr s := by
      rw [List.flatMap_congr hself]
      exact List.flatMap_singleton' _
    rw [hmap]
    rfl
  · rfl

theorem line_escape (c : UInt8) : 0x0a ∉ escape c := by
  cases escape_cases c with
  | letter d he _ hn =>
    rw [he]
    simp only [List.mem_cons, List.not_mem_nil, or_false, not_or]
    exact ⟨by decide, fun h => hn h.symm⟩
  | control he _ =>
    have hd := fun k : Nat => (hexUpper_digit (k % 16) (Nat.mod_lt k (by decide))).2.2.2
    rw [he]
    unfold hexFour
    simp only [List.mem_cons, List.not_mem_nil, or_false, not_or]
    exact ⟨by decide, by decide, fun h => hd _ h.symm, fun h => hd _ h.symm, fun h => hd _ h.symm,
      fun h => hd _ h.symm⟩
  | plain he _ _ hn =>
    rw [he]
    exact fun h => hn (List.mem_singleton.mp h).symm

/-- **A quoted string is one token, and decodes to the string up to its NUL.** -/
theorem quotes_quotedString (s : List UInt8) : Quotes (quotedString s) (cstr s) := by
  rw [quotedString_eq]
  refine ⟨?_, fun rest => ?_, ?_⟩
  · rw [List.mem_cons, List.mem_append, List.mem_flatMap]
    rintro (h | ⟨c, _, hc⟩ | h)
    · cases h
    · exact line_escape c hc
    · cases List.mem_singleton.mp h
  · have hread : (lead 0x22).read ((cstr s).flatMap escape ++ [0x22] ++ rest) = (.tokenString, rest) := by
      show typed .tokenString (readString 0 _) = _
      rw [List.append_assoc, List.singleton_append, readString_escapes]
      rfl
    obtain ⟨text, ht, hm⟩ := readToken_eq
      (show skipSpaces (0x22 :: ((cstr s).flatMap escape ++ [0x22] ++ rest)) = _ from rfl)
    rw [hread] at ht hm
    rw [List.cons_append, ht, List.append_cancel_right hm]
  · unfold decodeString
    dsimp only
    rw [List.drop_one, List.tail_cons, List.dropLast_concat]
    exact decodeLoop_escapes _ _ [] _ (Nat.le_refl _)

/-! ## Digits -/

def digit (d : Nat) : UInt8 := UInt8.ofNat (d % 10 + 0x30)

theorem digit_facts : ∀ d < 10, isDigit (digit d) = true ∧ (digit d).toNat - 0x30 = d ∧
    ¬ (digit d < 0x30 ∨ 0x39 < digit d) := by decide

theorem digit_mod (v : Nat) : digit (v % 10) = digit v := by
  unfold digit
  rw [Nat.mod_mod]

inductive Digits : Nat → List UInt8 → Prop
  | one {v : Nat} (h : v < 10) : Digits v [digit v]
  | more {v : Nat} {ds : List UInt8} (h : 10 ≤ v) (hd : Digits (v / 10) ds) : Digits v (ds ++ [digit v])

theorem Digits.isDigit {v : Nat} {ds : List UInt8} (h : Digits v ds) : ∀ c ∈ ds, Json.isDigit c = true := by
  induction h with
  | @one v h =>
    intro c hc
    rw [List.mem_singleton.mp hc]
    exact (digit_facts v h).1
  | @more v ds _ _ ih =>
    intro c hc
    rcases List.mem_append.mp hc with hc | hc
    · exact ih c hc
    · rw [List.mem_singleton.mp hc, ← digit_mod]
      exact (digit_facts _ (Nat.mod_lt v (by decide))).1

theorem Digits.ne_nil {v : Nat} {ds : List UInt8} (h : Digits v ds) : ds ≠ [] := by
  cases h with
  | one => exact List.cons_ne_nil _ _
  | more => exact List.append_ne_nil_of_right_ne_nil _ (List.cons_ne_nil _ _)

/-- `n` divisions by ten leave one digit -/
def Enough : Nat → Nat → Prop
  | 0, v => v < 10
  | n + 1, v => v < 10 ∨ Enough n (v / 10)

theorem uintLoop_digits (n v : Nat) (h : Enough n v) :
    ∃ ds, Digits v ds ∧ ds.length ≤ n + 1 ∧ ∀ m current, uintLoop (m + (n + 1)) v current = ds ++ current := by
  induction n generalizing v with
  | zero =>
    refine ⟨[digit v], .one h, Nat.le_refl 1, fun m current => ?_⟩
    show (if v / 10 = 0 then _ else _) = _
    exact if_pos (Nat.div_eq_of_lt h)
  | succ n ih =>
    by_cases hv : v < 10
    · refine ⟨[digit v], .one hv, Nat.succ_le_succ (Nat.zero_le _), fun m current => ?_⟩
      show (if v / 10 = 0 then _ else _) = _
      exact if_pos (Nat.div_eq_of_lt hv)
    · obtain ⟨ds, hds, hlen, hloop⟩ := ih (v / 10) (h.resolve_left hv)
      refine ⟨ds ++ [digit v], .more (Nat.not_lt.mp hv) hds, ?_, fun m current => ?_⟩
      · rw [List.length_append]
        exact Nat.succ_le_succ hlen
      · show (if v / 10 = 0 then _ else uintLoop (m + (n + 1)) (v / 10) (digit v :: current)) = _
        rw [if_neg (by omega), hloop, List.append_assoc, List.singleton_append]

theorem uintToString_digits {v : Nat} (h : v < 4294967296) :
    Digits v (uintToString v) ∧ (uintToString v).length ≤ 10 := by
  obtain ⟨ds, hds, hlen, hloop⟩ := uintLoop_digits 9 v (by
    simp only [Enough]
    omega)
  have he : uintToString v = ds := by
    have := hloop 21 []
    rwa [List.append_nil] at this
  rw [he]
  exact ⟨hds, hlen⟩

theorem numberLoop_append (token : Token) (t value : Nat) (a b : List UInt8) :
    numberLoop token t value (a ++ b) = (numberLoop token t value a).bind fun
      | none => .done none
      | some value => numberLoop token t value b := by
  induction a generalizing value with
  | nil => rfl
  | cons c a ih =>
    rw [List.cons_append, numberLoop, numberLoop]
    split
    · rfl
    · split
      · rfl
      · exact ih _

theorem numberLoop_digit (token : Token) (t value d : Nat) (h : d < 10) :
    numberLoop token t value [digit d] = .done (if t ≤ value then none else some (value * 10 + d)) := by
  obtain ⟨_, hd, hr⟩ := digit_facts d h
  unfold numberLoop
  rw [if_neg hr, hd]
  split
  · rfl
  · rfl

/-- the reader gives up on an integer when all but its last digit come to the threshold -/
theorem numberLoop_digits (token : Token) (t : Nat) {v : Nat} {ds : List UInt8} (h : Digits v ds) :
    numberLoop token t 0 ds = .done (if t ≤ v / 10 then none else some v) := by
  induction h with
  | @one v h =>
    rw [numberLoop_digit token t 0 v h, Nat.div_eq_of_lt h, Nat.zero_mul, Nat.zero_add]
  | @more v ds h _ ih =>
    rw [numberLoop_append, ih, ← digit_mod]
    by_cases hlow : t ≤ v / 10 / 10
    · rw [if_pos hlow, if_pos (by omega)]
      rfl
    · rw [if_neg hlow]
      show numberLoop token t (v / 10) [digit (v % 10)] = _
      rw [numberLoop_digit token t _ _ (Nat.mod_lt v (by decide)), Nat.div_add_mod' v 10]

/-! ## Numbers -/

theorem isNumeric_digit {c : UInt8} (h : isDigit c = true) : isNumeric c = true := by
  unfold isNumeric
  unfold isDigit at h
  rw [h]
  rfl

theorem lead_digit {c : UInt8} (h : isDigit c = true) : lead c = .number := by
  unfold isDigit at h
  rw [Bool.and_eq_true, decide_eq_true_eq, decide_eq_true_eq] at h
  exact if_pos h

theorem isSpace_numeric {c : UInt8} (h : isNumeric c = true) : isSpace c = false := by
  cases hs : isSpace c with
  | false => rfl
  | true =>
    have := stop_space hs []
    unfold Stop at this
    rw [List.headD_cons, h] at this
    cases this

section
variable {Double : Type} {sscanf : List UInt8 → Option Double}

theorem spells_number {c : UInt8} {text : List UInt8} {value : Value Double} (hc : lead c = .number)
    (hall : ∀ d ∈ c :: text, isNumeric d = true)
    (hd : decodeNumber sscanf ⟨.tokenNumber, c :: text⟩ = .done value) :
    Spells sscanf ⟨.tokenNumber, c :: text⟩ value := by
  refine ⟨fun h => numeric_ne (hall _ h) rfl, fun rest hr => ?_, fun stack => ?_, rfl⟩
  · have hs : skipSpaces (c :: text ++ rest) = c :: (text ++ rest) :=
      List.dropWhile_cons_of_neg (by rw [isSpace_numeric (hall c List.mem_cons_self)]; decide)
    have hstop : readNumber rest = rest := by
      cases rest with
      | nil => rfl
      | cons e rest => exact List.dropWhile_cons_of_neg (by rw [show isNumeric e = false from hr]; decide)
    have hread : (lead c).read (text ++ rest) = (.tokenNumber, rest) := by
      rw [hc]
      show (TokenType.tokenNumber, readNumber (text ++ rest)) = _
      unfold readNumber
      rw [List.dropWhile_append_of_pos fun d h => hall d (List.mem_cons_of_mem c h)]
      exact congrArg _ hstop
    obtain ⟨body, ht, hm⟩ := readToken_eq hs
    rw [hread] at ht hm
    show readToken (c :: text ++ rest) = _
    rw [ht, List.append_cancel_right hm]
  · show conclude (decodeNumber sscanf _) _ = _
    rw [hd]
    rfl

end

section
variable {Double : Type} (lib : Library Double)

def scanned (text : List UInt8) : Value Double :=
  match lib.sscanf text with
  | some value => .realValue value
  | none => .nullValue

variable {lib}

theorem decodeDouble_decimal (d : Decimal) (h : d.text.length < 32) :
    decodeDouble lib.sscanf ⟨.tokenNumber, d.text⟩ = .done (scanned lib d.text) := by
  obtain ⟨value, hv⟩ := Option.isSome_iff_exists.mp (lib.sscanf_decimal d)
  unfold decodeDouble scanned
  rw [if_neg (Nat.ne_of_lt h)]
  dsimp only
  rw [hv]

def Decimal.ofDigits (negative : Bool) (ds : List UInt8) (hne : ds ≠ [])
    (hd : ∀ c ∈ ds, isDigit c = true) : Decimal where
  negative := negative
  whole := ds
  fraction := none
  exponent := none
  whole_ne := hne
  whole_digits := hd
  fraction_digits := fun _ h => by cases h
  exponent_digits := fun _ _ h => by cases h

theorem Decimal.text_ofDigits (negative : Bool) (ds : List UInt8) (hne : ds ≠ [])
    (hd : ∀ c ∈ ds, isDigit c = true) :
    (Decimal.ofDigits negative ds hne hd).text = (if negative then [0x2d] else []) ++ ds := by
  unfold Decimal.ofDigits Decimal.text
  simp only [List.append_nil]

theorem isDouble_digits {ds : List UInt8} (h : ∀ c ∈ ds, isDigit c = true) :
    isDouble ds = false ∧ isDouble (0x2d :: ds) = false := by
  have hd : ∀ c, isDigit c = true → ¬ (c = 0x2e ∨ c = 0x65 ∨ c = 0x45 ∨ c = 0x2b) ∧ c ≠ 0x2d := by
    intro c hc
    refine ⟨?_, ?_⟩
    · rintro (rfl | rfl | rfl | rfl) <;> cases hc
    · rintro rfl
      cases hc
  have hany : ds.any (fun c => c = 0x2e || c = 0x65 || c = 0x45 || c = 0x2b) = false := by
    rw [List.any_eq_false]
    intro c hc
    simpa [or_assoc] using (hd c (h c hc)).1
  have hminus : ∀ {l : List UInt8}, (∀ c ∈ l, isDigit c = true) → l.any (· = 0x2d) = false := by
    intro l hl
    rw [List.any_eq_false]
    intro c hc
    simpa using (hd c (hl c hc)).2
  refine ⟨?_, ?_⟩
  · unfold isDouble
    rw [hany, hminus fun c hc => h c (List.mem_of_mem_tail hc)]
    rfl
  · unfold isDouble
    rw [List.any_cons, hany, List.tail_cons, hminus h]
    rfl

theorem decodeNumber_digits (lib : Library Double) {v : Nat} {ds : List UInt8} (h : Digits v ds) :
    decodeNumber lib.sscanf ⟨.tokenNumber, ds⟩ =
      if 429496729 ≤ v / 10 then decodeDouble lib.sscanf ⟨.tokenNumber, ds⟩
      else if v ≤ 2147483647 then .done (.intValue v) else .done (.uintValue v) := by
  have hhead : ds.headD 0 ≠ 0x2d := by
    cases ds with
    | nil => exact absurd rfl h.ne_nil
    | cons c ds =>
      rintro rfl
      cases h.isDigit _ List.mem_cons_self
  unfold decodeNumber
  rw [(isDouble_digits h.isDigit).1, if_neg (by decide)]
  simp only [hhead, if_false]
  rw [numberLoop_digits _ _ h]
  split
  · rfl
  · rfl

theorem decodeNumber_negative (lib : Library Double) {v : Nat} {ds : List UInt8} (h : Digits v ds) :
    decodeNumber lib.sscanf ⟨.tokenNumber, 0x2d :: ds⟩ =
      if 214748364 ≤ v / 10 then decodeDouble lib.sscanf ⟨.tokenNumber, 0x2d :: ds⟩
      else .done (.intValue (-v)) := by
  unfold decodeNumber
  rw [(isDouble_digits h.isDigit).2, if_neg (by decide)]
  simp only [List.headD_cons, if_true, List.drop_one, List.tail_cons]
  rw [numberLoop_digits _ _ h]
  split
  · rfl
  · rfl

theorem Decimal.numeric (d : Decimal) : ∀ c ∈ d.text, isNumeric c = true := by
  intro c hc
  unfold Decimal.text at hc
  simp only [List.mem_append] at hc
  rcases hc with hc | hc | hc | hc
  · cases hn : d.negative with
    | false => rw [hn] at hc; cases hc
    | true =>
      rw [hn] at hc
      rw [List.mem_singleton.mp hc]
      rfl
  · exact isNumeric_digit (d.whole_digits c hc)
  · cases hf : d.fraction with
    | none => rw [hf] at hc; cases hc
    | some f =>
      rw [hf] at hc
      rcases List.mem_cons.mp hc with rfl | hc
      · rfl
      · exact isNumeric_digit (d.fraction_digits f hf c hc)
  · cases he : d.exponent with
    | none => rw [he] at hc; cases hc
    | some e =>
      obtain ⟨s, ds⟩ := e
      obtain ⟨hs, _, hds⟩ := d.exponent_digits s ds he
      rw [he] at hc
      rcases List.mem_cons.mp hc with rfl | hc
      · rfl
      · rcases List.mem_cons.mp hc with rfl | hc
        · rcases hs with rfl | rfl <;> rfl
        · exact isNumeric_digit (hds c hc)

theorem Decimal.head (d : Decimal) : ∃ c text, d.text = c :: text ∧ lead c = .number := by
  unfold Decimal.text
  cases hn : d.negative with
  | true => exact ⟨0x2d, _, rfl, rfl⟩
  | false =>
    cases hw : d.whole with
    | nil => exact absurd hw d.whole_ne
    | cons c whole =>
      have hc := d.whole_digits c (by rw [hw]; exact List.mem_cons_self)
      exact ⟨c, _, rfl, lead_digit hc⟩

theorem Decimal.isDouble_text (d : Decimal) (h : d.fraction.isSome) : isDouble d.text = true := by
  obtain ⟨f, hf⟩ := Option.isSome_iff_exists.mp h
  have hmem : 0x2e ∈ d.text := by
    unfold Decimal.text
    rw [hf]
    simp
  unfold isDouble
  rw [Bool.or_eq_true, List.any_eq_true]
  exact Or.inl ⟨0x2e, hmem, rfl⟩

theorem spells_decimal (d : Decimal) (hlen : d.text.length < 32)
    (hdec : decodeNumber lib.sscanf ⟨.tokenNumber, d.text⟩ = decodeDouble lib.sscanf ⟨.tokenNumber, d.text⟩) :
    Spells lib.sscanf ⟨.tokenNumber, d.text⟩ (scanned lib d.text) := by
  rw [decodeDouble_decimal d hlen] at hdec
  obtain ⟨c, text, he, hc⟩ := d.head
  have hall := d.numeric
  rw [he] at hdec hall ⊢
  exact spells_number hc hall hdec

/-! ## Zeros at the end -/

theorem dropWhile_digits (l : List UInt8) :
    (l.dropWhile (· = 0x30)).dropWhile isDigit = l.dropWhile isDigit := by
  induction l with
  | nil => rfl
  | cons c l ih =>
    by_cases hc : c = 0x30
    · rw [hc, List.dropWhile_cons_of_pos (by decide), List.dropWhile_cons_of_pos (by decide)]
      exact ih
    · rw [List.dropWhile_cons_of_neg (by simpa using hc)]

theorem truncateZeroes_point {buffer l : List UInt8} (hz : buffer.getLast? = some 0x30)
    (h : buffer.reverse.dropWhile isDigit = 0x2e :: l) :
    truncateZeroes buffer = (buffer.reverse.dropWhile (· = 0x30)).reverse ++ [0x30] := by
  unfold truncateZeroes
  rw [if_neg (not_not.mpr hz)]
  dsimp only
  rw [dropWhile_digits, h]
  rfl

theorem truncateZeroes_other {buffer l : List UInt8} {c : UInt8} (hc : c ≠ 0x2e)
    (h : buffer.reverse.dropWhile isDigit = c :: l) : truncateZeroes buffer = buffer := by
  unfold truncateZeroes
  split
  · rfl
  · dsimp only
    rw [dropWhile_digits, h]
    split
    · next he => exact absurd (List.cons.inj he).1 hc
    · rfl

def Decimal.front (d : Decimal) : List UInt8 := (if d.negative then [0x2d] else []) ++ d.whole

theorem Decimal.text_fraction {d : Decimal} {f : List UInt8} (he : d.exponent = none)
    (hf : d.fraction = some f) : d.text = d.front ++ 0x2e :: f := by
  unfold Decimal.text Decimal.front
  rw [he, hf]
  simp only [List.append_nil, List.append_assoc]

/-- the number with another fraction, and without an exponent -/
def Decimal.withFraction (d : Decimal) (f : List UInt8) (hf : ∀ c ∈ f, isDigit c = true) : Decimal where
  negative := d.negative
  whole := d.whole
  fraction := some f
  exponent := none
  whole_ne := d.whole_ne
  whole_digits := d.whole_digits
  fraction_digits := fun g hg c hc => hf c (by rw [Option.some.inj hg]; exact hc)
  exponent_digits := fun _ _ h => by cases h

theorem eq_concat_zero {front f : List UInt8} (h : (front ++ 0x2e :: f).getLast? = some 0x30) :
    ∃ g, f = g ++ [0x30] := by
  rcases List.eq_nil_or_concat f with rfl | ⟨g, c, rfl⟩
  · rw [List.getLast?_concat] at h
    cases h
  · rw [List.concat_eq_append] at h ⊢
    rw [← List.cons_append, ← List.append_assoc, List.getLast?_concat] at h
    exact ⟨g, by rw [Option.some.inj h]⟩

theorem dropWhile_zeros_point (g l : List UInt8) :
    (g ++ 0x2e :: l).dropWhile (· = 0x30) = g.dropWhile (· = 0x30) ++ 0x2e :: l := by
  rw [List.dropWhile_append]
  split
  · next h =>
    rw [List.isEmpty_iff.mp h, List.dropWhile_cons_of_neg (by decide)]
    rfl
  · rfl

/-- zeros at the end of an exponent stay -/
theorem truncateZeroes_exponent {d : Decimal} {s : UInt8} {ds : List UInt8}
    (he : d.exponent = some (s, ds)) : truncateZeroes d.text = d.text := by
  obtain ⟨hs, _, hds⟩ := d.exponent_digits s ds he
  have hrev : ∃ l, d.text.reverse = ds.reverse ++ s :: l := by
    unfold Decimal.text
    rw [he]
    simp only [List.reverse_append, List.reverse_cons, List.append_assoc, List.singleton_append]
    exact ⟨_, rfl⟩
  obtain ⟨l, hl⟩ := hrev
  have hsd : isDigit s = false ∧ s ≠ 0x2e := by rcases hs with rfl | rfl <;> exact ⟨rfl, by decide⟩
  refine truncateZeroes_other (l := l) hsd.2 ?_
  rw [hl, List.dropWhile_append_of_pos (fun c hc => hds c (List.mem_reverse.mp hc)),
    List.dropWhile_cons_of_neg (by rw [hsd.1]; decide)]

theorem truncateZeroes_fraction {d : Decimal} {g : List UInt8} (he : d.exponent = none)
    (hf : d.fraction = some (g ++ [0x30])) :
    truncateZeroes d.text = d.front ++ 0x2e :: ((g.reverse.dropWhile (· = 0x30)).reverse ++ [0x30]) := by
  have hd := d.fraction_digits _ hf
  have hrev : d.text.reverse = 0x30 :: (g.reverse ++ 0x2e :: d.front.reverse) := by
    rw [Decimal.text_fraction he hf]
    simp only [List.reverse_append, List.reverse_cons, List.append_assoc, List.nil_append,
      List.reverse_nil, List.cons_append]
  have hlast : d.text.getLast? = some 0x30 := by
    rw [List.getLast?_eq_head?_reverse, hrev]
    rfl
  have hpoint : d.text.reverse.dropWhile isDigit = 0x2e :: d.front.reverse := by
    rw [hrev, List.dropWhile_cons_of_pos (by decide), List.dropWhile_append_of_pos
      (fun c hc => hd c (List.mem_append_left _ (List.mem_reverse.mp hc))),
      List.dropWhile_cons_of_neg (by decide)]
  rw [truncateZeroes_point hlast hpoint, hrev, List.dropWhile_cons_of_pos (by decide),
    dropWhile_zeros_point]
  simp only [List.reverse_append, List.reverse_cons, List.reverse_reverse, List.append_assoc,
    List.nil_append, List.cons_append]

/-- **Cutting off zeros leaves a decimal number with a point.** -/
theorem truncateZeroes_decimal (d : Decimal) (hf : d.fraction.isSome) :
    ∃ e : Decimal, truncateZeroes d.text = e.text ∧ e.fraction.isSome ∧ e.text.length ≤ d.text.length := by
  obtain ⟨f, hf'⟩ := Option.isSome_iff_exists.mp hf
  by_cases hz : d.text.getLast? ≠ some 0x30
  · exact ⟨d, if_pos hz, hf, Nat.le_refl _⟩
  cases he : d.exponent with
  | some e => exact ⟨d, truncateZeroes_exponent he, hf, Nat.le_refl _⟩
  | none =>
    have htext := Decimal.text_fraction he hf'
    obtain ⟨g, rfl⟩ := eq_concat_zero (htext ▸ not_not.mp hz)
    have hsuf := List.dropWhile_suffix (l := g.reverse) (fun c : UInt8 => decide (c = 0x30))
    have hdigits : ∀ c ∈ (g.reverse.dropWhile (· = 0x30)).reverse ++ [0x30], isDigit c = true := by
      intro c hc
      refine d.fraction_digits _ hf' c (List.mem_append.mpr ((List.mem_append.mp hc).imp ?_ id))
      exact fun hc => List.mem_reverse.mp (hsuf.subset (List.mem_reverse.mp hc))
    have hcut : (d.withFraction _ hdigits).text
        = d.front ++ 0x2e :: ((g.reverse.dropWhile (· = 0x30)).reverse ++ [0x30]) :=
      Decimal.text_fraction rfl rfl
    refine ⟨d.withFraction _ hdigits, (truncateZeroes_fraction he hf').trans hcut.symm, rfl, ?_⟩
    rw [hcut, htext]
    have hlen := hsuf.length_le
    rw [List.length_reverse] at hlen
    simp only [List.length_append, List.length_cons, List.length_nil, List.length_reverse]
    omega

end

end JMEngine.Json
