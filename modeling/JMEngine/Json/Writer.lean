import JMEngine.Json.Reader

/-!
# The JSON writers

`FastWriter`, `StyledWriter` (`write` and `writeSimple`) and `StyledStreamWriter`. The styled writers
are one program in three styles: they break lines and put comments in the same places, and differ in
how a line begins and in the blanks around the signs.

* `valueToStringInt`, `valueToStringDouble`, `valueToQuotedString`   scalars;
* `FastWriter.write`                     a document on one line;
* `StyledWriter.writeValue`              the styled writers, with the state they keep;
* `toStyledString`, `toSimpleString`, `StyledStreamWriter.write`   documents.

`sprintf` with `%#.16g` and `sscanf` with `%lf` belong to the C library; `Library` has what the
standard says of their texts. The elements of an array are those from 0 to `size() - 1`; an element
that was never set reads as null.
-/

namespace JMEngine.Json
open DoubleByte (cstr)

/-! ## Numbers as the C library writes them -/

def isDigit (c : UInt8) : Bool := 0x30 ≤ c && c ≤ 0x39

/-- a decimal number: sign, digits, a fraction and an exponent with its own sign -/
structure Decimal where
  negative : Bool
  whole : List UInt8
  fraction : Option (List UInt8)
  exponent : Option (UInt8 × List UInt8)
  whole_ne : whole ≠ []
  whole_digits : ∀ c ∈ whole, isDigit c = true
  fraction_digits : ∀ f, fraction = some f → ∀ c ∈ f, isDigit c = true
  exponent_digits : ∀ s ds, exponent = some (s, ds) →
    (s = 0x2b ∨ s = 0x2d) ∧ ds ≠ [] ∧ ∀ c ∈ ds, isDigit c = true

def Decimal.text (d : Decimal) : List UInt8 :=
  (if d.negative then [0x2d] else []) ++ (d.whole ++ ((match d.fraction with
    | some f => 0x2e :: f
    | none => []) ++ (match d.exponent with
    | some (s, ds) => 0x65 :: s :: ds
    | none => [])))

/-- the two functions of the C library: a finite number is written with a point, in fewer than the
32 bytes of the buffers, and every decimal number is read -/
structure Library (Double : Type) where
  sprintf : Double → List UInt8
  sscanf : List UInt8 → Option Double
  finite : Double → Bool
  sprintf_finite : ∀ r, finite r = true →
    ∃ d : Decimal, sprintf r = d.text ∧ d.fraction.isSome ∧ d.text.length < 32
  sscanf_decimal : ∀ d : Decimal, (sscanf d.text).isSome

def isControlCharacter (ch : UInt8) : Bool := 0 < ch && ch ≤ 0x1f

def containsControlCharacter (str : List UInt8) : Bool := (cstr str).any isControlCharacter

/-- the digits of `value` in front of `current`; the buffers have room for 31 -/
def uintLoop : Nat → Nat → List UInt8 → List UInt8
  | 0, _, current => current
  | n + 1, value, current =>
    let current := UInt8.ofNat (value % 10 + 0x30) :: current
    if value / 10 = 0 then current else uintLoop n (value / 10) current

def uintToString (value : Nat) : List UInt8 := uintLoop 31 value []

/-- the negation of `minInt` overflows: that value is no argument -/
def valueToStringInt (value : Int) : List UInt8 :=
  if value < 0 then 0x2d :: uintToString (-value).toNat else uintToString value.toNat

def valueToStringUInt (value : Nat) : List UInt8 := uintToString value

/-- zeros at the end of a fraction are cut off but for one; an exponent stops the search for the
point -/
def truncateZeroes (buffer : List UInt8) : List UInt8 :=
  if buffer.getLast? ≠ some 0x30 then buffer
  else
    let upToNonzero := buffer.reverse.dropWhile (· = 0x30)
    match upToNonzero.dropWhile isDigit with
    | 0x2e :: _ => upToNonzero.reverse ++ [0x30]
    | _ => buffer

def valueToStringDouble {Double : Type} (lib : Library Double) (value : Double) : List UInt8 :=
  truncateZeroes (lib.sprintf value)

def valueToStringBool (value : Bool) : List UInt8 :=
  if value then [0x74, 0x72, 0x75, 0x65] else [0x66, 0x61, 0x6c, 0x73, 0x65]

/-- the bytes of `strpbrk`, with the letters of their escapes -/
def escapes : List (UInt8 × UInt8) := [
  (0x22, 0x22),
  (0x5c, 0x5c),
  (0x08, 0x62),
  (0x0c, 0x66),
  (0x0a, 0x6e),
  (0x0d, 0x72),
  (0x09, 0x74)]

/-- `std::hex << std::uppercase`, one digit -/
def hexUpper (d : Nat) : UInt8 := if d < 10 then UInt8.ofNat (d + 0x30) else UInt8.ofNat (d + 0x37)

def hexFour (n : Nat) : List UInt8 :=
  [hexUpper (n / 4096 % 16), hexUpper (n / 256 % 16), hexUpper (n / 16 % 16), hexUpper (n % 16)]

def escape (c : UInt8) : List UInt8 :=
  match escapes.lookup c with
  | some letter => [0x5c, letter]
  | none => if isControlCharacter c then 0x5c :: 0x75 :: hexFour c.toNat else [c]

/-- a text without anything to escape is copied as it is -/
def quotedString (value : List UInt8) : List UInt8 :=
  let value := cstr value
  if value.all (fun c => (escapes.lookup c).isNone) ∧ !containsControlCharacter value then
    [0x22] ++ value ++ [0x22]
  else [0x22] ++ value.flatMap escape ++ [0x22]

def valueToQuotedString (value : List UInt8) : List UInt8 := quotedString value

def valueToQuotedStringSimple (value : List UInt8) : List UInt8 := quotedString value

def nullText : List UInt8 := [0x6e, 0x75, 0x6c, 0x6c]

/-! ## FastWriter -/

namespace FastWriter

section
variable {Double : Type} (lib : Library Double) (quote : List UInt8 → List UInt8)
  (yamlCompatiblityEnabled_ : Bool)

mutual

/-- what `writeValue` appends to `document_` -/
def valueText : Value Double → List UInt8
  | .nullValue => nullText
  | .intValue value => valueToStringInt value
  | .uintValue value => valueToStringUInt value
  | .realValue value => valueToStringDouble lib value
  | .stringValue value => quote value
  | .booleanValue value => valueToStringBool value
  | .arrayValue values => [0x5b] ++ elementsText values true ++ [0x5d]
  | .objectValue members => [0x7b] ++ membersText members true ++ [0x7d]

def elementsText : List (Value Double) → Bool → List UInt8
  | [], _ => []
  | value :: values, first =>
    (if first then [] else [0x2c]) ++ valueText value ++ elementsText values false

def membersText : List (List UInt8 × Value Double) → Bool → List UInt8
  | [], _ => []
  | (name, value) :: members, first =>
    (if first then [] else [0x2c]) ++ quote name ++
      (if yamlCompatiblityEnabled_ then [0x3a, 0x20] else [0x3a]) ++ valueText value ++
      membersText members false

end

end

section
variable {Double : Type} (lib : Library Double) (yamlCompatiblityEnabled_ : Bool)

def writeValue (value : Value Double) : List UInt8 :=
  valueText lib valueToQuotedString yamlCompatiblityEnabled_ value

def writeValueSimple (value : Value Double) : List UInt8 :=
  valueText lib valueToQuotedStringSimple yamlCompatiblityEnabled_ value

def write (root : Value Double) : List UInt8 := writeValue lib yamlCompatiblityEnabled_ root ++ [0x0a]

end

end FastWriter

/-! ## Values with comments -/

/-- `comments_`, by placement -/
structure Comments where
  commentBefore : Option (List UInt8)
  commentAfterOnSameLine : Option (List UInt8)
  commentAfter : Option (List UInt8)
  deriving DecidableEq, Repr

inductive Scalar (Double : Type) where
  | nullValue
  | intValue (value : Int)
  | uintValue (value : Nat)
  | realValue (value : Double)
  | stringValue (value : List UInt8)
  | booleanValue (value : Bool)

/-- a value with the comments of every value in it -/
inductive Commented (Double : Type) where
  | scalar (comments : Comments) (value : Scalar Double)
  | arrayValue (comments : Comments) (values : List (Commented Double))
  | objectValue (comments : Comments) (members : List (List UInt8 × Commented Double))

section
variable {Double : Type}

def Scalar.value : Scalar Double → Value Double
  | .nullValue => .nullValue
  | .intValue value => .intValue value
  | .uintValue value => .uintValue value
  | .realValue value => .realValue value
  | .stringValue value => .stringValue value
  | .booleanValue value => .booleanValue value

def Scalar.text (lib : Library Double) (quote : List UInt8 → List UInt8) : Scalar Double → List UInt8
  | .nullValue => nullText
  | .intValue value => valueToStringInt value
  | .uintValue value => valueToStringUInt value
  | .realValue value => valueToStringDouble lib value
  | .stringValue value => quote value
  | .booleanValue value => valueToStringBool value

namespace Commented

def comments : Commented Double → Comments
  | scalar comments _ => comments
  | arrayValue comments _ => comments
  | objectValue comments _ => comments

mutual

def value : Commented Double → Value Double
  | scalar _ v => v.value
  | arrayValue _ values => .arrayValue (valueList values)
  | objectValue _ members => .objectValue (valueMembers members)

def valueList : List (Commented Double) → List (Value Double)
  | [] => []
  | v :: values => value v :: valueList values

def valueMembers : List (List UInt8 × Commented Double) → List (List UInt8 × Value Double)
  | [] => []
  | (name, v) :: members => (name, value v) :: valueMembers members

end

/-- `(isArray() || isObject()) && size() > 0` -/
def hasElements : Commented Double → Bool
  | scalar _ _ => false
  | arrayValue _ values => !values.isEmpty
  | objectValue _ members => !members.isEmpty

end Commented

end

/-- carriage returns, alone or before a line feed, become line feeds -/
def normalizeEOL : List UInt8 → List UInt8
  | [] => []
  | 0x0d :: 0x0a :: text => 0x0a :: normalizeEOL text
  | c :: text => (if c = 0x0d then 0x0a else c) :: normalizeEOL text

/-! ## The styled writers -/

/-- `StyledWriter::write`, `StyledWriter::writeSimple`, and `StyledStreamWriter` with its indentation -/
inductive Style where
  | styled
  | simple
  | stream (indentation_ : List UInt8)
  deriving DecidableEq, Repr

namespace Style

def quote : Style → List UInt8 → List UInt8
  | simple => valueToQuotedStringSimple
  | _ => valueToQuotedString

/-- `indentSize_` blanks, or the indentation given -/
def indentation : Style → List UInt8
  | styled => [0x20, 0x20, 0x20]
  | simple => []
  | stream indentation_ => indentation_

def colon : Style → List UInt8
  | simple => [0x3a]
  | _ => [0x20, 0x3a, 0x20]

def lineBegin : Style → List UInt8
  | simple => [0x5b]
  | _ => [0x5b, 0x20]

def lineSeparator : Style → List UInt8
  | simple => [0x2c]
  | _ => [0x2c, 0x20]

def lineEnd : Style → List UInt8
  | simple => [0x5d]
  | _ => [0x20, 0x5d]

/-- what stands around a comment on lines of its own -/
def newline : Style → List UInt8
  | simple => []
  | _ => [0x0a]

/-- `isMultineArray` writes with `writeValue`, for `writeSimple` too -/
def measured : Style → Style
  | simple => styled
  | style => style

end Style

structure StyledWriter where
  document_ : List UInt8
  childValues_ : List (List UInt8)
  addChildValues_ : Bool
  indentString_ : List UInt8
  deriving DecidableEq, Repr

namespace StyledWriter

def rightMargin_ : Nat := 74

def out (w : StyledWriter) (text : List UInt8) : StyledWriter :=
  { w with document_ := w.document_ ++ text }

def pushValue (w : StyledWriter) (value : List UInt8) : StyledWriter :=
  if w.addChildValues_ then { w with childValues_ := w.childValues_ ++ [value] } else w.out value

/-- a blank at the end of the document says that the line is indented already -/
def writeIndent (style : Style) (w : StyledWriter) : StyledWriter :=
  match style with
  | .styled =>
    match w.document_.getLast? with
    | none => w.out w.indentString_
    | some last =>
      if last = 0x20 then w
      else if last ≠ 0x0a then (w.out [0x0a]).out w.indentString_
      else w.out w.indentString_
  | .simple => w
  | .stream _ => w.out (0x0a :: w.indentString_)

def writeWithIndent (style : Style) (w : StyledWriter) (value : List UInt8) : StyledWriter :=
  (w.writeIndent style).out value

def indent (style : Style) (w : StyledWriter) : StyledWriter :=
  { w with indentString_ := w.indentString_ ++ style.indentation }

def unindent (style : Style) (w : StyledWriter) : StyledWriter :=
  { w with
    indentString_ := w.indentString_.take (w.indentString_.length - style.indentation.length) }

def writeCommentBeforeValue (style : Style) (comments : Comments) (w : StyledWriter) : StyledWriter :=
  match comments.commentBefore with
  | none => w
  | some text => w.out (normalizeEOL text ++ style.newline)

def writeCommentAfterValueOnSameLine (style : Style) (comments : Comments) (w : StyledWriter) :
    StyledWriter :=
  let w := match comments.commentAfterOnSameLine with
    | none => w
    | some text => w.out (0x20 :: normalizeEOL text)
  match comments.commentAfter with
  | none => w
  | some text => w.out (style.newline ++ (normalizeEOL text ++ style.newline))

/-- the elements from `index` on, of `n` that are left on the line -/
def writeLine (style : Style) : Nat → Nat → StyledWriter → StyledWriter
  | 0, _, w => w
  | n + 1, index, w =>
    writeLine style n (index + 1) (w.out ((if index > 0 then style.lineSeparator else []) ++
      w.childValues_.getD index []))

section
variable {Double : Type} (lib : Library Double)

mutual

def writeValue (style : Style) : Commented Double → StyledWriter → StyledWriter
  | .scalar _ value, w => w.pushValue (value.text lib style.quote)
  | .arrayValue _ values, w =>
    if values.isEmpty then w.pushValue [0x5b, 0x5d]
    else
      -- isMultineArray
      let size := values.length
      let w := { w with childValues_ := [] }
      let isMultiLine := decide (rightMargin_ ≤ size * 3) || values.any Commented.hasElements
      let (isMultiLine, w) :=
        if isMultiLine then (true, w)
        else
          let (lineLength, w) := measureElements style.measured values 0 (4 + (size - 1) * 2)
            { w with addChildValues_ := true }
          (decide (rightMargin_ ≤ lineLength), { w with addChildValues_ := false })
      -- writeArrayValue
      if isMultiLine then
        let w := indent style (w.writeWithIndent style [0x5b])
        let w := writeElements style (!w.childValues_.isEmpty) values 0 w
        (unindent style w).writeWithIndent style [0x5d]
      else (writeLine style size 0 (w.out style.lineBegin)).out style.lineEnd
  | .objectValue _ members, w =>
    if members.isEmpty then w.pushValue [0x7b, 0x7d]
    else
      let w := indent style (w.writeWithIndent style [0x7b])
      let w := writeMembers style members w
      (unindent style w).writeWithIndent style [0x7d]

/-- the second loop of `isMultineArray` -/
def measureElements (style : Style) : List (Commented Double) → Nat → Nat → StyledWriter →
    Nat × StyledWriter
  | [], _, lineLength, w => (lineLength, w)
  | value :: values, index, lineLength, w =>
    let w := writeValue style value w
    measureElements style values (index + 1) (lineLength + (w.childValues_.getD index []).length) w

/-- the loop of `writeArrayValue`, one element a line -/
def writeElements (style : Style) (hasChildValue : Bool) : List (Commented Double) → Nat →
    StyledWriter → StyledWriter
  | [], _, w => w
  | value :: values, index, w =>
    let w := writeCommentBeforeValue style value.comments w
    let w :=
      if hasChildValue then w.writeWithIndent style (w.childValues_.getD index [])
      else writeValue style value (w.writeIndent style)
    if values.isEmpty then writeCommentAfterValueOnSameLine style value.comments w
    else
      writeElements style hasChildValue values (index + 1)
        (writeCommentAfterValueOnSameLine style value.comments (w.out [0x2c]))

/-- the loop of `writeValue` over the members of an object -/
def writeMembers (style : Style) : List (List UInt8 × Commented Double) → StyledWriter → StyledWriter
  | [], w => w
  | (name, value) :: members, w =>
    let w := writeCommentBeforeValue style value.comments w
    let w := (w.writeWithIndent style (style.quote name)).out style.colon
    let w := writeValue style value w
    if members.isEmpty then writeCommentAfterValueOnSameLine style value.comments w
    else writeMembers style members
      (writeCommentAfterValueOnSameLine style value.comments (w.out [0x2c]))

end

def write (style : Style) (w : StyledWriter) (root : Commented Double) : StyledWriter :=
  let w := { w with document_ := [], addChildValues_ := false, indentString_ := [] }
  let w := writeCommentBeforeValue style root.comments w
  let w := writeValue lib style root w
  let w := writeCommentAfterValueOnSameLine style root.comments w
  w.out style.newline

def new : StyledWriter := ⟨[], [], false, []⟩

end

end StyledWriter

section
variable {Double : Type} (lib : Library Double)

def toStyledString (value : Commented Double) : List UInt8 :=
  (StyledWriter.new.write lib .styled value).document_

def toSimpleString (value : Commented Double) : List UInt8 :=
  (StyledWriter.new.write lib .simple value).document_

/-- what `StyledStreamWriter::write` puts on the stream -/
def StyledStreamWriter.write (indentation : List UInt8) (root : Commented Double) : List UInt8 :=
  (StyledWriter.new.write lib (.stream indentation) root).document_

end

end JMEngine.Json
