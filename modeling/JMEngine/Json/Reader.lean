import JMEngine.Lib.DoubleByte

/-!
# The JSON reader

`Json::Reader` as it is built by default (comments allowed, any value as the root), and the
loading of a configuration file over it. What is left of the document between `current_` and
`end_` is a list of bytes; behind it stands the NUL of `c_str`, which `*current_` may read.

* `readToken`                  the lexer;
* `decodeNumber`, `decodeString`   what a token means;
* `readValue`, `readElements`, `readMembers`   the recursive descent;
* `parse`, `load_jsonfile`, `load_jsonfile_val`   a document, and a file.

`none` of the descent says that its fuel is spent; `overrun` is the write behind the buffer of
`decodeDouble`, which leaves the behaviour undefined. A rejection carries the one entry that
`errors_` has then: the recovery after it reads on, and adds and changes nothing.
-/

namespace JMEngine.Json
open DoubleByte (cstr)

/-! ## Values -/

/-- `Json::Value`, without the comments that are kept for writing it back -/
inductive Value (Double : Type) where
  | nullValue
  | intValue (value : Int)
  | uintValue (value : Nat)
  | realValue (value : Double)
  | stringValue (value : List UInt8)
  | booleanValue (value : Bool)
  | arrayValue (values : List (Value Double))
  | objectValue (members : List (List UInt8 × Value Double))

def strcmp : List UInt8 → List UInt8 → Ordering
  | [], [] => .eq
  | [], _ :: _ => .lt
  | _ :: _, [] => .gt
  | a :: l, b :: m => if a = b then strcmp l m else if a.toNat < b.toNat then .lt else .gt

/-- `currentValue()[name] = value`: the map is kept in the order of `strcmp` -/
def setMember {Double : Type} (key : List UInt8) (value : Value Double) :
    List (List UInt8 × Value Double) → List (List UInt8 × Value Double)
  | [] => [(key, value)]
  | (k, v) :: members =>
    match strcmp key k with
    | .eq => (k, value) :: members
    | .lt => (key, value) :: (k, v) :: members
    | .gt => (k, v) :: setMember key value members

/-! ## Tokens -/

inductive TokenType where
  | tokenEndOfStream
  | tokenObjectBegin
  | tokenObjectEnd
  | tokenArrayBegin
  | tokenArrayEnd
  | tokenString
  | tokenNumber
  | tokenTrue
  | tokenFalse
  | tokenNull
  | tokenArraySeparator
  | tokenMemberSeparator
  | tokenComment
  | tokenError
  deriving DecidableEq, Repr

/-- a token with its text, from `start_` to `end_` -/
structure Token where
  type_ : TokenType
  text : List UInt8
  deriving DecidableEq, Repr

def getNextChar : List UInt8 → UInt8 × List UInt8
  | [] => (0, [])
  | c :: l => (c, l)

def isSpace (c : UInt8) : Bool := c = 0x20 || c = 0x09 || c = 0x0d || c = 0x0a

def skipSpaces (l : List UInt8) : List UInt8 := l.dropWhile isSpace

/-- `match`: the pattern stands next -/
def matchPattern (pattern l : List UInt8) : Bool × List UInt8 :=
  if l.take pattern.length = pattern then (true, l.drop pattern.length) else (false, l)

/-- up to and with the first star and slash -/
def readCStyleComment : List UInt8 → Bool × List UInt8
  | [] => ((getNextChar []).1 = 0x2f, [])
  | c :: l =>
    if c = 0x2a ∧ l.headD 0 = 0x2f then ((getNextChar l).1 = 0x2f, (getNextChar l).2)
    else readCStyleComment l

/-- up to and with the end of the line -/
def readCppStyleComment : List UInt8 → List UInt8
  | [] => []
  | c :: l => if c = 0x0d ∨ c = 0x0a then l else readCppStyleComment l

def readComment (l : List UInt8) : Bool × List UInt8 :=
  let (c, l) := getNextChar l
  if c = 0x2a then readCStyleComment l
  else if c = 0x2f then (true, readCppStyleComment l)
  else (false, l)

def isNumeric (c : UInt8) : Bool :=
  (0x30 ≤ c && c ≤ 0x39) || c = 0x2e || c = 0x65 || c = 0x45 || c = 0x2b || c = 0x2d

def readNumber (l : List UInt8) : List UInt8 := l.dropWhile isNumeric

/-- up to and with the closing quote; `c` is the byte read last, and a backslash takes the next
byte with it -/
def readString (c : UInt8) : List UInt8 → Bool × List UInt8
  | [] => (c = 0x22, [])
  | [d] => (d = 0x22, [])
  | d :: e :: l =>
    if d = 0x5c then readString d l
    else if d = 0x22 then (true, e :: l)
    else readString d (e :: l)

/-- how a token goes on behind its first byte -/
inductive Lead where
  | sign (type_ : TokenType)
  | string
  | comment
  | number
  | word (type_ : TokenType) (pattern : List UInt8)
  | other
  deriving DecidableEq, Repr

/-- the cases of the switch in `readToken`, but for the digits -/
def leads : List (UInt8 × Lead) := [
  (0x7b, .sign .tokenObjectBegin),
  (0x7d, .sign .tokenObjectEnd),
  (0x5b, .sign .tokenArrayBegin),
  (0x5d, .sign .tokenArrayEnd),
  (0x22, .string),
  (0x2f, .comment),
  (0x2d, .number),
  (0x74, .word .tokenTrue [0x72, 0x75, 0x65]),
  (0x66, .word .tokenFalse [0x61, 0x6c, 0x73, 0x65]),
  (0x6e, .word .tokenNull [0x75, 0x6c, 0x6c]),
  (0x2c, .sign .tokenArraySeparator),
  (0x3a, .sign .tokenMemberSeparator),
  (0, .sign .tokenEndOfStream)]

def lead (c : UInt8) : Lead :=
  if 0x30 ≤ c ∧ c ≤ 0x39 then .number else (leads.lookup c).getD .other

/-- `if ( !ok ) token.type_ = tokenError` -/
def typed (type_ : TokenType) (r : Bool × List UInt8) : TokenType × List UInt8 :=
  (if r.1 then type_ else .tokenError, r.2)

def Lead.read : Lead → List UInt8 → TokenType × List UInt8
  | .sign type_, l => (type_, l)
  | .string, l => typed .tokenString (readString 0 l)
  | .comment, l => typed .tokenComment (readComment l)
  | .number, l => (.tokenNumber, readNumber l)
  | .word type_ pattern, l => typed type_ (matchPattern pattern l)
  | .other, l => (.tokenError, l)

def readToken (l : List UInt8) : Token × List UInt8 :=
  let start := skipSpaces l
  let (c, current) := getNextChar start
  let (type_, current) := (lead c).read current
  (⟨type_, start.take (start.length - current.length)⟩, current)

/-! ## What tokens mean -/

structure ErrorInfo where
  message_ : String
  token_ : Token
  deriving DecidableEq, Repr

inductive Verdict (α : Type) where
  | done (a : α)
  | rejected (error : ErrorInfo)
  | overrun

def Verdict.bind {α β : Type} : Verdict α → (α → Verdict β) → Verdict β
  | .done a, f => f a
  | .rejected error, _ => .rejected error
  | .overrun, _ => .overrun

def reject {α : Type} (message : String) (token : Token) : Verdict α :=
  .rejected ⟨message, token⟩

def hexDigit (c : UInt8) : Option Nat :=
  if 0x30 ≤ c ∧ c ≤ 0x39 then some (c.toNat - 0x30)
  else if 0x61 ≤ c ∧ c ≤ 0x66 then some (c.toNat - 0x61 + 10)
  else if 0x41 ≤ c ∧ c ≤ 0x46 then some (c.toNat - 0x41 + 10)
  else none

def hexLoop (token : Token) (unicode : Nat) : List UInt8 → Verdict Nat
  | [] => .done unicode
  | c :: l =>
    match hexDigit c with
    | some d => hexLoop token (unicode * 16 + d) l
    | none => reject "Bad unicode escape sequence in string: hexadecimal digit expected." token

def decodeUnicodeEscapeSequence (token : Token) (l : List UInt8) : Verdict (Nat × List UInt8) :=
  if l.length < 4 then
    reject "Bad unicode escape sequence in string: four digits expected." token
  else (hexLoop token 0 (l.take 4)).bind fun unicode => .done (unicode, l.drop 4)

def decodeUnicodeCodePoint (token : Token) (l : List UInt8) : Verdict (Nat × List UInt8) :=
  (decodeUnicodeEscapeSequence token l).bind fun (unicode, l) =>
    if 0xd800 ≤ unicode ∧ unicode ≤ 0xdbff then
      if l.length < 6 then
        reject "additional six characters expected to parse unicode surrogate pair." token
      else if l.take 2 = [0x5c, 0x75] then
        (decodeUnicodeEscapeSequence token (l.drop 2)).bind fun (surrogatePair, l) =>
          .done (0x10000 + (unicode &&& 0x3ff) <<< 10 + (surrogatePair &&& 0x3ff), l)
      else
        reject "expecting another \\u token to begin the second half of a unicode surrogate pair" token
    else .done (unicode, l)

def codePointToUTF8 (cp : Nat) : List UInt8 :=
  if cp ≤ 0x7f then [UInt8.ofNat cp]
  else if cp ≤ 0x7ff then
    [UInt8.ofNat (0xc0 ||| (0x1f &&& cp >>> 6)), UInt8.ofNat (0x80 ||| (0x3f &&& cp))]
  else if cp ≤ 0xffff then
    [UInt8.ofNat (0xe0 ||| (0xf &&& cp >>> 12)), UInt8.ofNat (0x80 ||| (0x3f &&& cp >>> 6)),
      UInt8.ofNat (0x80 ||| (0x3f &&& cp))]
  else if cp ≤ 0x10ffff then
    [UInt8.ofNat (0xf0 ||| (0x7 &&& cp >>> 18)), UInt8.ofNat (0x80 ||| (0x3f &&& cp >>> 12)),
      UInt8.ofNat (0x80 ||| (0x3f &&& cp >>> 6)), UInt8.ofNat (0x80 ||| (0x3f &&& cp))]
  else []

def escaped (escape : UInt8) : Option UInt8 :=
  if escape = 0x22 ∨ escape = 0x2f ∨ escape = 0x5c then some escape
  else if escape = 0x62 then some 0x08
  else if escape = 0x66 then some 0x0c
  else if escape = 0x6e then some 0x0a
  else if escape = 0x72 then some 0x0d
  else if escape = 0x74 then some 0x09
  else none

/-- a pass takes a byte or more: with the length of the text as the fuel, none is left exactly
when the loop ends -/
def decodeLoop (token : Token) : Nat → List UInt8 → List UInt8 → Verdict (List UInt8)
  | 0, decoded, _ => .done decoded
  | _ + 1, decoded, [] => .done decoded
  | n + 1, decoded, c :: l =>
    if c = 0x22 then .done decoded
    else if c = 0x5c then
      match l with
      | [] => reject "Empty escape sequence in string" token
      | escape :: l =>
        match escaped escape with
        | some d => decodeLoop token n (decoded ++ [d]) l
        | none =>
          if escape = 0x75 then
            (decodeUnicodeCodePoint token l).bind fun (unicode, l) =>
              decodeLoop token n (decoded ++ codePointToUTF8 unicode) l
          else reject "Bad escape sequence in string" token
    else decodeLoop token n (decoded ++ [c]) l

def decodeString (token : Token) : Verdict (List UInt8) :=
  let inner := (token.text.drop 1).dropLast
  decodeLoop token inner.length [] inner

section
variable {Double : Type} (sscanf : List UInt8 → Option Double)

def notNumber {α : Type} (token : Token) : Verdict α :=
  reject ("'" ++ String.ofList (token.text.map fun c => Char.ofNat c.toNat) ++ "' is not a number.") token

/-- a text of 32 bytes takes the branch of the buffer, and its NUL goes behind it -/
def decodeDouble (token : Token) : Verdict (Value Double) :=
  if token.text.length = 32 then .overrun
  else
    match sscanf token.text with
    | some value => .done (.realValue value)
    | none => notNumber token

/-- the digits of an integer; `none` once the value has come to the threshold -/
def numberLoop (token : Token) (threshold value : Nat) : List UInt8 → Verdict (Option Nat)
  | [] => .done (some value)
  | c :: l =>
    if c < 0x30 ∨ 0x39 < c then notNumber token
    else if threshold ≤ value then .done none
    else numberLoop token threshold (value * 10 + (c.toNat - 0x30)) l

def isDouble (text : List UInt8) : Bool :=
  text.any (fun c => c = 0x2e || c = 0x65 || c = 0x45 || c = 0x2b) || text.tail.any (· = 0x2d)

def decodeNumber (token : Token) : Verdict (Value Double) :=
  if isDouble token.text then decodeDouble sscanf token
  else
    let isNegative := token.text.headD 0 = 0x2d
    let digits := if isNegative then token.text.drop 1 else token.text
    let threshold := (if isNegative then 2147483648 else 4294967295) / 10
    (numberLoop token threshold 0 digits).bind fun
      | none => decodeDouble sscanf token
      | some value =>
        if isNegative then .done (.intValue (-value))
        else if value ≤ 2147483647 then .done (.intValue value)
        else .done (.uintValue value)

/-! ## The descent -/

def andThen {α β : Type} (x : Option (Verdict α)) (f : α → Option (Verdict β)) : Option (Verdict β) :=
  match x with
  | none => none
  | some (.done a) => f a
  | some (.rejected error) => some (.rejected error)
  | some .overrun => some .overrun

def skipCommentTokens : Nat → List UInt8 → Option (Verdict (Token × List UInt8))
  | 0, _ => none
  | n + 1, l =>
    let (token, l) := readToken l
    if token.type_ = .tokenComment then skipCommentTokens n l else some (.done (token, l))

mutual

def readValue : Nat → List UInt8 → Option (Verdict (Value Double × List UInt8))
  | 0, _ => none
  | n + 1, l =>
    andThen (skipCommentTokens n l) fun (token, l) =>
      match token.type_ with
      | .tokenObjectBegin => readMembers n [] [] l
      | .tokenArrayBegin =>
        if (skipSpaces l).headD 0 = 0x5d then
          some (.done (.arrayValue [], (readToken (skipSpaces l)).2))
        else readElements n [] (skipSpaces l)
      | .tokenNumber => some ((decodeNumber sscanf token).bind fun value => .done (value, l))
      | .tokenString =>
        some ((decodeString token).bind fun decoded => .done (.stringValue (cstr decoded), l))
      | .tokenTrue => some (.done (.booleanValue true, l))
      | .tokenFalse => some (.done (.booleanValue false, l))
      | .tokenNull => some (.done (.nullValue, l))
      | _ => some (reject "Syntax error: value, object or array expected." token)

/-- the loop of `readArray`, with the elements so far; the test of the token after an element
asks for two types at once, and never fails -/
def readElements : Nat → List (Value Double) → List UInt8 → Option (Verdict (Value Double × List UInt8))
  | 0, _, _ => none
  | n + 1, values, l =>
    andThen (readValue n l) fun (value, l) =>
      andThen (skipCommentTokens n l) fun (token, l) =>
        if token.type_ = .tokenArraySeparator ∧ token.type_ = .tokenArrayEnd then
          some (reject "Missing ',' or ']' in array declaration" token)
        else if token.type_ = .tokenArrayEnd then some (.done (.arrayValue (values ++ [value]), l))
        else readElements n (values ++ [value]) l

/-- the loop of `readObject`, with the name read last and the members so far -/
def readMembers : Nat → List UInt8 → List (List UInt8 × Value Double) → List UInt8 →
    Option (Verdict (Value Double × List UInt8))
  | 0, _, _, _ => none
  | n + 1, name, members, l =>
    andThen (skipCommentTokens n l) fun (tokenName, l) =>
      if tokenName.type_ = .tokenObjectEnd ∧ name = [] then some (.done (.objectValue members, l))
      else if tokenName.type_ ≠ .tokenString then
        some (reject "Missing '\x7d' or object member name" tokenName)
      else
        andThen (some (decodeString tokenName)) fun name =>
          let (colon, l) := readToken l
          if colon.type_ ≠ .tokenMemberSeparator then
            some (reject "Missing ':' after object member name" colon)
          else
            andThen (readValue n l) fun (value, l) =>
              let (comma, l) := readToken l
              if comma.type_ ≠ .tokenObjectEnd ∧ comma.type_ ≠ .tokenArraySeparator ∧
                  comma.type_ ≠ .tokenComment then
                some (reject "Missing ',' or '\x7d' in object declaration" comma)
              else
                andThen (if comma.type_ = .tokenComment then skipCommentTokens n l
                    else some (.done (comma, l))) fun (comma, l) =>
                  if comma.type_ = .tokenObjectEnd then
                    some (.done (.objectValue (setMember (cstr name) value members), l))
                  else readMembers n name (setMember (cstr name) value members) l

end

def skipBOM (l : List UInt8) : List UInt8 :=
  if l.take 3 = [0xef, 0xbb, 0xbf] then l.drop 3 else l

/-- the root value, and what is left behind it -/
def readRoot (document : List UInt8) : Option (Verdict (Value Double × List UInt8)) :=
  let begin_ := skipBOM document
  readValue sscanf (2 * begin_.length + 2) begin_

/-- behind the root only comments are read -/
def parse (document : List UInt8) : Option (Verdict (Value Double)) :=
  andThen (readRoot sscanf document) fun (root, l) =>
    andThen (skipCommentTokens (l.length + 1) l) fun _ => some (.done root)

/-! ## Files -/

/-- `getline`: the next line without its end, and the rest of the file -/
def getline : List UInt8 → Option (List UInt8 × List UInt8)
  | [] => none
  | c :: l => some ((c :: l).takeWhile (· ≠ 0x0a), ((c :: l).dropWhile (· ≠ 0x0a)).drop 1)

/-- `while(getline(ifs,line)) json.append(line)` -/
def appendLines : Nat → List UInt8 → List UInt8 → List UInt8
  | 0, json, _ => json
  | n + 1, json, ifs =>
    match getline ifs with
    | none => json
    | some (line, ifs) => appendLines n (json ++ line) ifs

def load_jsonfile (file : List UInt8) : List UInt8 := appendLines (file.length + 1) [] file

def load_jsonfile_val (file : List UInt8) : Option (Value Double) :=
  match parse sscanf (load_jsonfile file) with
  | some (.done val) => some val
  | some (.rejected _) => some .nullValue
  | some .overrun => none
  | none => none

end

end JMEngine.Json
