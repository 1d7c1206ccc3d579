import JMEngine.Json.Compare
import JMEngine.Json.Spell

/-!
# Values that are written and read back

* `Value.Sound`             a value as the program can build it;
* `reread`                  **what a written value is read as**;
* `Stable`, `reread_eq_iff` the values that come back as they were;
* `FastWriter.parse_fastWrite` the document of the fast writer has the value `reread`.

An integer near the limits of its type comes back as a real, and a small unsigned integer as a signed
one; a real comes back as what sixteen digits say of it.
-/

namespace JMEngine.Json
open DoubleByte (cstr)

section
variable {Double : Type} (lib : Library Double)

mutual

/-- integers of 32 bits but for `minInt`, finite reals, and the members of a map -/
def Value.Sound : Value Double → Prop
  | .intValue value => -2147483648 < value ∧ value ≤ 2147483647
  | .uintValue value => value < 4294967296
  | .realValue value => lib.finite value = true
  | .arrayValue values => SoundList values
  | .objectValue members => Sorted members ∧ SoundMembers members
  | _ => True

def SoundList : List (Value Double) → Prop
  | [] => True
  | value :: values => value.Sound ∧ SoundList values

def SoundMembers : List (List UInt8 × Value Double) → Prop
  | [] => True
  | (name, value) :: members => (∀ c ∈ name, c ≠ 0) ∧ value.Sound ∧ SoundMembers members

end

/-- all but the last digit come to the tenth part of the limit: the number is read as a real -/
def rereadInt (value : Int) : Value Double :=
  if value ≤ -2147483640 then scanned lib (valueToStringInt value) else .intValue value

def rereadUInt (value : Nat) : Value Double :=
  if 4294967290 ≤ value then scanned lib (valueToStringUInt value)
  else if value ≤ 2147483647 then .intValue value else .uintValue value

mutual

/-- **What the reader makes of the value when it was written.** -/
def reread : Value Double → Value Double
  | .nullValue => .nullValue
  | .intValue value => rereadInt lib value
  | .uintValue value => rereadUInt lib value
  | .realValue value => scanned lib (valueToStringDouble lib value)
  | .stringValue value => .stringValue (cstr value)
  | .booleanValue value => .booleanValue value
  | .arrayValue values => .arrayValue (rereadList values)
  | .objectValue members => .objectValue (rereadMembers members)

def rereadList : List (Value Double) → List (Value Double)
  | [] => []
  | value :: values => reread value :: rereadList values

def rereadMembers : List (List UInt8 × Value Double) → List (List UInt8 × Value Double)
  | [] => []
  | (name, value) :: members => (name, reread value) :: rereadMembers members

end

mutual

/-- a value that comes back -/
def Stable : Value Double → Prop
  | .intValue value => -2147483640 < value
  | .uintValue value => 2147483647 < value ∧ value < 4294967290
  | .realValue value => lib.sscanf (valueToStringDouble lib value) = some value
  | .stringValue value => 0 ∉ value
  | .arrayValue values => StableList values
  | .objectValue members => StableMembers members
  | _ => True

def StableList : List (Value Double) → Prop
  | [] => True
  | value :: values => Stable value ∧ StableList values

def StableMembers : List (List UInt8 × Value Double) → Prop
  | [] => True
  | (_, value) :: members => Stable value ∧ StableMembers members

end

end

section
variable {Double : Type} {lib : Library Double}

/-! ## Values that come back -/

theorem scanned_ne_intValue (text : List UInt8) (value : Int) : scanned lib text ≠ .intValue value := by
  unfold scanned
  split <;> exact fun h => by cases h

theorem scanned_ne_uintValue (text : List UInt8) (value : Nat) : scanned lib text ≠ .uintValue value := by
  unfold scanned
  split <;> exact fun h => by cases h

theorem scanned_eq_realValue (text : List UInt8) (value : Double) :
    scanned lib text = .realValue value ↔ lib.sscanf text = some value := by
  unfold scanned
  split
  · next r hr =>
    rw [hr]
    exact ⟨fun h => congrArg some (Value.realValue.inj h), fun h => by rw [Option.some.inj h]⟩
  · next hr =>
    rw [hr]
    exact ⟨nofun, nofun⟩

theorem rereadInt_eq_iff (value : Int) : rereadInt lib value = .intValue value ↔ -2147483640 < value := by
  unfold rereadInt
  split
  · exact ⟨fun h => absurd h (scanned_ne_intValue _ _), fun h => by omega⟩
  · exact ⟨fun _ => by omega, fun _ => rfl⟩

theorem rereadUInt_eq_iff (value : Nat) :
    rereadUInt lib value = .uintValue value ↔ 2147483647 < value ∧ value < 4294967290 := by
  unfold rereadUInt
  split
  · exact ⟨fun h => absurd h (scanned_ne_uintValue _ _), fun h => by omega⟩
  · split
    · exact ⟨nofun, fun h => by omega⟩
    · exact ⟨fun _ => by omega, fun _ => rfl⟩

theorem cstr_eq_iff (s : List UInt8) : cstr s = s ↔ 0 ∉ s := by
  refine ⟨fun h hz => ?_, fun h => DoubleByte.cstr_eq_self fun b hb hz => h (hz ▸ hb)⟩
  rw [← h] at hz
  exact absurd (List.mem_takeWhile_imp hz) (by decide)

mutual

/-- **A value comes back exactly when it is stable.** -/
theorem reread_eq_iff : ∀ value : Value Double, reread lib value = value ↔ Stable lib value
  | .nullValue => iff_of_true rfl trivial
  | .intValue value => rereadInt_eq_iff value
  | .uintValue value => rereadUInt_eq_iff value
  | .realValue value => scanned_eq_realValue _ value
  | .stringValue value => by
    rw [reread, Stable, Value.stringValue.injEq]
    exact cstr_eq_iff value
  | .booleanValue _ => iff_of_true rfl trivial
  | .arrayValue values => by
    rw [reread, Stable, Value.arrayValue.injEq]
    exact rereadList_eq_iff values
  | .objectValue members => by
    rw [reread, Stable, Value.objectValue.injEq]
    exact rereadMembers_eq_iff members

theorem rereadList_eq_iff : ∀ values : List (Value Double),
    rereadList lib values = values ↔ StableList lib values
  | [] => iff_of_true rfl trivial
  | value :: values => by
    rw [rereadList, StableList, List.cons.injEq]
    exact and_congr (reread_eq_iff value) (rereadList_eq_iff values)

theorem rereadMembers_eq_iff : ∀ members : List (List UInt8 × Value Double),
    rereadMembers lib members = members ↔ StableMembers lib members
  | [] => iff_of_true rfl trivial
  | (name, value) :: members => by
    rw [rereadMembers, StableMembers, List.cons.injEq, Prod.mk.injEq, eq_self, true_and]
    exact and_congr (reread_eq_iff value) (rereadMembers_eq_iff members)

end

/-! ## Scalars -/

theorem spells_digits {n : Nat} (negative : Bool) (h : n < 4294967296)
    (hdec : decodeNumber lib.sscanf ⟨.tokenNumber, (if negative then [0x2d] else []) ++ uintToString n⟩
      = decodeDouble lib.sscanf ⟨.tokenNumber, (if negative then [0x2d] else []) ++ uintToString n⟩) :
    Spells lib.sscanf ⟨.tokenNumber, (if negative then [0x2d] else []) ++ uintToString n⟩
      (scanned lib ((if negative then [0x2d] else []) ++ uintToString n)) := by
  obtain ⟨hd, hlen⟩ := uintToString_digits h
  have ht := Decimal.text_ofDigits negative _ hd.ne_nil hd.isDigit
  rw [← ht] at hdec ⊢
  refine spells_decimal _ ?_ hdec
  rw [ht, List.length_append]
  cases negative with
  | false => exact Nat.lt_of_le_of_lt (Nat.add_le_add_left hlen 0) (by decide)
  | true => exact Nat.lt_of_le_of_lt (Nat.add_le_add_left hlen 1) (by decide)

theorem spells_uint {n : Nat} (h : n < 4294967296) :
    Spells lib.sscanf ⟨.tokenNumber, uintToString n⟩ (rereadUInt lib n) := by
  obtain ⟨hd, _⟩ := uintToString_digits h
  have hdec := decodeNumber_digits lib hd
  unfold rereadUInt
  by_cases hbig : 429496729 ≤ n / 10
  · rw [if_pos hbig] at hdec
    rw [if_pos (by omega)]
    exact spells_digits false h hdec
  · rw [if_neg hbig] at hdec
    rw [if_neg (by omega)]
    have hnum : ∀ value, decodeNumber lib.sscanf ⟨.tokenNumber, uintToString n⟩ = .done value →
        Spells lib.sscanf ⟨.tokenNumber, uintToString n⟩ value := by
      intro value hv
      have hne := hd.ne_nil
      have hall := fun c hc => isNumeric_digit (hd.isDigit c hc)
      have hhead := hd.isDigit
      revert hv hne hall hhead
      generalize uintToString n = text
      intro hv hne hall hhead
      cases text with
      | nil => exact absurd rfl hne
      | cons c text => exact spells_number (lead_digit (hhead c List.mem_cons_self)) hall hv
    split
    · next hs =>
      rw [if_pos hs] at hdec
      exact hnum _ hdec
    · next hs =>
      rw [if_neg hs] at hdec
      exact hnum _ hdec

theorem spells_int {value : Int} (h1 : -2147483648 < value) (h2 : value ≤ 2147483647) :
    Spells lib.sscanf ⟨.tokenNumber, valueToStringInt value⟩ (rereadInt lib value) := by
  by_cases hneg : value < 0
  · obtain ⟨n, rfl⟩ : ∃ n : Nat, value = -(n : Int) := ⟨value.natAbs, by omega⟩
    have htext : valueToStringInt (-(n : Int)) = 0x2d :: uintToString n := by
      unfold valueToStringInt
      rw [if_pos hneg, Int.neg_neg, Int.toNat_natCast]
    obtain ⟨hd, _⟩ := uintToString_digits (show n < 4294967296 by omega)
    have hdec := decodeNumber_negative lib hd
    unfold rereadInt
    rw [htext]
    by_cases hbig : 214748364 ≤ n / 10
    · rw [if_pos hbig] at hdec
      rw [if_pos (by omega)]
      exact spells_digits true (by omega) hdec
    · rw [if_neg hbig] at hdec
      rw [if_neg (by omega)]
      refine spells_number rfl (fun c hc => ?_) hdec
      rcases List.mem_cons.mp hc with rfl | hc
      · rfl
      · exact isNumeric_digit (hd.isDigit c hc)
  · obtain ⟨n, rfl⟩ : ∃ n : Nat, value = n := ⟨value.toNat, by omega⟩
    have htext : valueToStringInt (n : Int) = uintToString n := by
      unfold valueToStringInt
      rw [if_neg hneg, Int.toNat_natCast]
    have hval : rereadInt lib (n : Int) = rereadUInt lib n := by
      unfold rereadInt rereadUInt
      rw [if_neg (by omega), if_neg (by omega), if_pos (by omega)]
    rw [htext, hval]
    exact spells_uint (by omega)

theorem spells_real {value : Double} (h : lib.finite value = true) :
    Spells lib.sscanf ⟨.tokenNumber, valueToStringDouble lib value⟩
      (scanned lib (valueToStringDouble lib value)) := by
  obtain ⟨d, hd, hpoint, hlen⟩ := lib.sprintf_finite value h
  obtain ⟨e, he, hpoint', hle⟩ := truncateZeroes_decimal d hpoint
  have htext : valueToStringDouble lib value = e.text := by
    unfold valueToStringDouble
    rw [hd, he]
  rw [htext]
  refine spells_decimal e (Nat.lt_of_le_of_lt hle hlen) ?_
  unfold decodeNumber
  rw [e.isDouble_text hpoint']
  rfl

theorem spells_string (s : List UInt8) :
    Spells lib.sscanf ⟨.tokenString, quotedString s⟩ (.stringValue (cstr s)) := by
  have hq := quotes_quotedString s
  refine ⟨hq.line, fun rest _ => hq.read rest, fun stack => ?_, rfl⟩
  show conclude (decodeString _) _ = _
  rw [hq.decode]
  show close (.stringValue (cstr (cstr s))) stack = _
  rw [show cstr (cstr s) = cstr s from List.takeWhile_idem ..]

theorem spells_word {c : UInt8} {type_ : TokenType} {pattern : List UInt8} {value : Value Double}
    (hl : lead c = .word type_ pattern) (hc : isSpace c = false) (hline : 0x0a ∉ c :: pattern)
    (hb : type_.begins = true)
    (hv : ∀ stack, stepValue lib.sscanf stack ⟨type_, c :: pattern⟩ = close value stack) :
    Spells lib.sscanf ⟨type_, c :: pattern⟩ value := by
  refine ⟨hline, fun rest _ => ?_, hv, hb⟩
  have hread : (lead c).read (pattern ++ rest) = (type_, rest) := by
    rw [hl]
    show typed type_ (matchPattern pattern (pattern ++ rest)) = _
    unfold matchPattern
    rw [if_pos List.take_left, List.drop_left]
    rfl
  obtain ⟨body, ht, hm⟩ := readToken_eq (show skipSpaces (c :: (pattern ++ rest)) = _ from
    List.dropWhile_cons_of_neg (by rw [hc]; decide))
  rw [hread] at ht hm
  show readToken (c :: (pattern ++ rest)) = _
  rw [ht, List.append_cancel_right hm]

theorem spells_null : Spells lib.sscanf ⟨.tokenNull, nullText⟩ .nullValue :=
  spells_word rfl rfl (by decide) rfl fun _ => rfl

theorem spells_bool (value : Bool) : ∃ type_,
    Spells lib.sscanf ⟨type_, valueToStringBool value⟩ (.booleanValue value) := by
  cases value with
  | true => exact ⟨.tokenTrue, spells_word rfl rfl (by decide) rfl fun _ => rfl⟩
  | false => exact ⟨.tokenFalse, spells_word rfl rfl (by decide) rfl fun _ => rfl⟩

/-- **A scalar that is written is one token, which stands for what it is read as.** -/
theorem spells_scalar {value : Scalar Double} (h : value.value.Sound lib) :
    ∃ type_, Spells lib.sscanf ⟨type_, value.text lib quotedString⟩ (reread lib value.value) := by
  cases value with
  | nullValue => exact ⟨_, spells_null⟩
  | intValue value => exact ⟨_, spells_int h.1 h.2⟩
  | uintValue value => exact ⟨_, spells_uint h⟩
  | realValue value => exact ⟨_, spells_real h⟩
  | stringValue value => exact ⟨_, spells_string value⟩
  | booleanValue value => exact spells_bool value

/-! ## The fast writer -/

theorem rereadMembers_eq_map (members : List (List UInt8 × Value Double)) :
    rereadMembers lib members = members.map fun m => (m.1, reread lib m.2) := by
  induction members with
  | nil => rfl
  | cons m members ih =>
    obtain ⟨name, value⟩ := m
    rw [rereadMembers, ih]
    rfl

theorem setMembers_append {before members : List (List UInt8 × Value Double)}
    (hs : Sorted (before ++ members)) (hn : ∀ m ∈ members, cstr m.1 = m.1) :
    setMembers before members = before ++ members := by
  induction members generalizing before with
  | nil => rw [List.append_nil]; rfl
  | cons m members ih =>
    have hlt : ∀ b ∈ before, strcmp b.1 m.1 = .lt := fun b hb =>
      (List.pairwise_append.mp hs).2.2 b hb m List.mem_cons_self
    have hstep : setMembers before (m :: members) = setMembers (before ++ [m]) members := by
      show setMembers (setMember (cstr m.1) m.2 before) members = _
      rw [hn m List.mem_cons_self, setMember_concat hlt]
    rw [hstep, ih (by rwa [List.append_assoc]) fun n hm => hn n (List.mem_cons_of_mem m hm),
      List.append_assoc]
    rfl

theorem soundMembers_iff (members : List (List UInt8 × Value Double)) :
    SoundMembers lib members ↔ ∀ m ∈ members, (∀ c ∈ m.1, c ≠ 0) ∧ m.2.Sound lib := by
  induction members with
  | nil => exact iff_of_true trivial fun _ h => by cases h
  | cons m members ih =>
    obtain ⟨name, value⟩ := m
    rw [SoundMembers, ih, List.forall_mem_cons, and_assoc]

theorem setMembers_reread {members : List (List UInt8 × Value Double)} (hs : Sorted members)
    (hm : SoundMembers lib members) :
    setMembers [] (rereadMembers lib members) = rereadMembers lib members := by
  rw [rereadMembers_eq_map]
  have hmap : Sorted ([] ++ members.map fun m => (m.1, reread lib m.2)) := List.pairwise_map.mpr hs
  refine setMembers_append hmap fun m h => ?_
  obtain ⟨n, hn, rfl⟩ := List.mem_map.mp h
  exact DoubleByte.cstr_eq_self (((soundMembers_iff members).mp hm) n hn).1

section
variable {G : List UInt8 → Prop}

theorem lays_scalar (hG : Gaps G) (value : Scalar Double) (h : value.value.Sound lib) :
    Lays lib.sscanf G (reread lib value.value) (value.text lib quotedString) := by
  obtain ⟨_, ht⟩ := spells_scalar h
  exact Lays.scalar hG.nil ht

theorem blanks_nil : ∀ c ∈ ([] : List UInt8), isSpace c = true := fun _ h => by cases h

theorem quotes_name {name : List UInt8} (hn : ∀ c ∈ name, c ≠ 0) : Quotes (quotedString name) name := by
  have h := quotes_quotedString name
  rwa [DoubleByte.cstr_eq_self hn] at h

namespace FastWriter

theorem lays_yaml (hG : Gaps G) (yaml : Bool) {value : Value Double} {text : List UInt8}
    (h : Lays lib.sscanf G value text) : ∃ spaced, Lays lib.sscanf G value spaced ∧
      ∀ rest, (if yaml then [0x3a, 0x20] else [0x3a]) ++ (text ++ rest) = 0x3a :: (spaced ++ rest) := by
  cases yaml with
  | true => exact ⟨[0x20] ++ text, h.gap hG (hG.blanks (blanks_of_all rfl)), fun _ => rfl⟩
  | false => exact ⟨text, h, fun _ => rfl⟩

mutual

theorem lays_valueText (hG : Gaps G) (yaml : Bool) : ∀ value : Value Double, value.Sound lib →
    Lays lib.sscanf G (reread lib value) (valueText lib quotedString yaml value)
  | .nullValue, h => lays_scalar hG .nullValue h
  | .intValue value, h => lays_scalar hG (.intValue value) h
  | .uintValue value, h => lays_scalar hG (.uintValue value) h
  | .realValue value, h => lays_scalar hG (.realValue value) h
  | .stringValue value, h => lays_scalar hG (.stringValue value) h
  | .booleanValue value, h => lays_scalar hG (.booleanValue value) h
  | .arrayValue [], _ => Lays.emptyArray hG.nil blanks_nil
  | .arrayValue (value :: values), h => by
    have he := lays_elementsText hG yaml values h.2 (lays_valueText hG yaml value h.1)
    rw [valueText, elementsText, reread, rereadList]
    simpa only [List.append_assoc, List.cons_append, List.nil_append, if_true] using
      Lays.array hG.nil he
  | .objectValue [], _ => Lays.emptyObject hG.nil hG.nil
  | .objectValue ((name, value) :: members), h => by
    obtain ⟨spaced, hv, he⟩ := lays_yaml hG yaml (lays_valueText hG yaml value h.2.2.1)
    have hm := Lays.object hG.nil (lays_membersText hG yaml members h.2.2.2 h.2.1 hv)
    rw [show setMembers [] ((name, reread lib value) :: rereadMembers lib members) =
      rereadMembers lib ((name, value) :: members) from setMembers_reread h.1 h.2] at hm
    rw [valueText, membersText, reread]
    simpa only [List.append_assoc, List.cons_append, List.nil_append, if_true, he] using hm

theorem lays_elementsText (hG : Gaps G) (yaml : Bool) : ∀ values : List (Value Double),
    SoundList lib values → ∀ {value : Value Double} {text : List UInt8},
    Lays lib.sscanf G value text → LaysElements lib.sscanf G (value :: rereadList lib values)
      (text ++ (elementsText lib quotedString yaml values false ++ [0x5d]))
  | [], _, _, _, h => LaysElements.last h hG.nil
  | value :: values, hs, _, _, h => by
    have hr := lays_elementsText hG yaml values hs.2 (lays_valueText hG yaml value hs.1)
    rw [elementsText, rereadList]
    simpa only [List.append_assoc, List.cons_append, List.nil_append, Bool.false_eq_true,
      if_false] using LaysElements.cons h hG.nil hr

theorem lays_membersText (hG : Gaps G) (yaml : Bool) :
    ∀ members : List (List UInt8 × Value Double), SoundMembers lib members →
    ∀ {name : List UInt8} {value : Value Double} {text : List UInt8}, (∀ c ∈ name, c ≠ 0) →
    Lays lib.sscanf G value text →
    LaysMembers lib.sscanf G ((name, value) :: rereadMembers lib members)
      (quotedString name ++ (0x3a :: (text ++
        (membersText lib quotedString yaml members false ++ [0x7d]))))
  | [], _, _, _, _, hn, h => LaysMembers.last hG.nil (quotes_name hn) blanks_nil h hG.nil
  | (name, value) :: members, hs, _, _, _, hn, h => by
    obtain ⟨spaced, hv, he⟩ := lays_yaml hG yaml (lays_valueText hG yaml value hs.2.1)
    have hr := lays_membersText hG yaml members hs.2.2 hs.1 hv
    rw [membersText, rereadMembers]
    simpa only [List.append_assoc, List.cons_append, List.nil_append, Bool.false_eq_true,
      if_false, he] using LaysMembers.cons hG.nil (quotes_name hn) blanks_nil h hG.nil hr

end

end FastWriter

end

end

end JMEngine.Json
