import JMEngine.Json.Join
import JMEngine.Json.Machine

/-!
# Texts that lay out a value

Which texts the reader takes for a given value: its tokens in order, with blanks and comments in the
places where the reader skips them. A writer is right when what it writes lays out its value.

* `Gap`, `Gaps`          blanks and complete comments, and a kind of gaps;
* `Spells`, `Quotes`     a token that stands for a scalar, and for a name;
* `Lays`                 **a text lays out a value**, with gaps of some kind between its tokens;
* `Lays.goes`            the machine reads the value off the text, whatever follows;
* `parse_lays`           a document with nothing but a gap behind it has this value;
* `Lays.joined`          the text without its line ends lays out the same value.
-/

namespace JMEngine.Json
open DoubleByte (cstr)
open TokenMachine

/-! ## Gaps -/

/-- a comment that ends with the text, whatever stands behind it -/
def Complete (text : List UInt8) : Prop :=
  ∀ rest, readToken (text ++ rest) = (⟨.tokenComment, text⟩, rest)

inductive Gap : List UInt8 → Prop
  | nil : Gap []
  | space {c : UInt8} {gap : List UInt8} (hc : isSpace c = true) (hg : Gap gap) : Gap (c :: gap)
  | comment {text gap : List UInt8} (ht : Complete text) (hg : Gap gap) : Gap (text ++ gap)

theorem Gap.append {g h : List UInt8} (hg : Gap g) (hh : Gap h) : Gap (g ++ h) := by
  induction hg with
  | nil => exact hh
  | space hc _ ih => exact ih.space hc
  | comment ht _ ih =>
    rw [List.append_assoc]
    exact ih.comment ht

/-- a kind of gaps, in which blanks may stand anywhere -/
structure Gaps (G : List UInt8 → Prop) : Prop where
  gap : ∀ {g}, G g → Gap g
  blanks : ∀ {g}, (∀ c ∈ g, isSpace c = true) → G g
  append : ∀ {g h}, G g → G h → G (g ++ h)

theorem Gaps.nil {G : List UInt8 → Prop} (hG : Gaps G) : G [] := hG.blanks fun _ h => by cases h

def Blanks (g : List UInt8) : Prop := ∀ c ∈ g, isSpace c = true

theorem blanks_of_all {g : List UInt8} (h : g.all isSpace = true) : Blanks g := List.all_eq_true.mp h

theorem gap_blanks {l : List UInt8} (h : ∀ c ∈ l, isSpace c = true) : Gap l := by
  induction l with
  | nil => exact Gap.nil
  | cons c l ih =>
    exact Gap.space (h c List.mem_cons_self) (ih fun d hd => h d (List.mem_cons_of_mem c hd))

theorem gaps_blanks : Gaps Blanks :=
  ⟨gap_blanks, id, fun hg hh c hc => (List.mem_append.mp hc).elim (hg c) (hh c)⟩

def Stop (rest : List UInt8) : Prop := isNumeric (rest.headD 0) = false

theorem stop_space {c : UInt8} (h : isSpace c = true) (l : List UInt8) : Stop (c :: l) := by
  unfold isSpace at h
  simp only [Bool.or_eq_true, decide_eq_true_eq] at h
  rcases h with ((rfl | rfl) | rfl) | rfl <;> rfl

theorem stop_sign {c : UInt8} (h : isNumeric c = false) (rest : List UInt8) : Stop (c :: rest) := h

theorem Complete.head {text : List UInt8} (h : Complete text) : ∃ body, text = 0x2f :: body := by
  have hr := h []
  rw [List.append_nil] at hr
  have hs : skipSpaces text = text := by
    rw [token_text, hr, List.append_nil]
  cases text with
  | nil => exact absurd (congrArg (·.1.type_) hr) (by decide)
  | cons c body =>
    obtain ⟨_, he, _⟩ := readToken_eq hs
    have ht : ((lead c).read body).1 = .tokenComment := by
      rw [he] at hr
      exact congrArg (·.1.type_) hr
    obtain ⟨ht, hmem⟩ := lead_of_read (by decide) (by decide) ht
    have hc : c = 0x2f := (show ∀ e ∈ leads, e.2.type_ = .tokenComment → e.1 = 0x2f by decide) _ hmem ht
    exact ⟨body, by rw [hc]⟩

theorem Gap.stop {gap rest : List UInt8} (hg : Gap gap) (h : Stop rest) : Stop (gap ++ rest) := by
  cases hg with
  | nil => exact h
  | space hc _ => exact stop_space hc _
  | comment ht _ =>
    obtain ⟨body, rfl⟩ := ht.head
    rfl

theorem skipSpaces_append {blanks : List UInt8} (h : ∀ c ∈ blanks, isSpace c = true)
    (rest : List UInt8) : skipSpaces (blanks ++ rest) = skipSpaces rest := by
  unfold skipSpaces
  rw [List.dropWhile_append_of_pos h]

theorem skipSpaces_cons {c : UInt8} (h : isSpace c = true) (rest : List UInt8) :
    skipSpaces (c :: rest) = skipSpaces rest :=
  List.dropWhile_cons_of_pos h

section
variable {Double : Type} (sscanf : List UInt8 → Option Double) (G : List UInt8 → Prop)

/-- a token that may stand where a value is expected -/
def TokenType.begins : TokenType → Bool
  | .tokenComment | .tokenObjectBegin | .tokenArrayBegin | .tokenNumber | .tokenString => true
  | .tokenTrue | .tokenFalse | .tokenNull => true
  | _ => false

/-- the token stands for the value, on one line -/
structure Spells (token : Token) (value : Value Double) : Prop where
  line : 0x0a ∉ token.text
  read : ∀ rest, Stop rest → readToken (token.text ++ rest) = (token, rest)
  value : ∀ stack, stepValue sscanf stack token = close value stack
  first : token.type_.begins = true

/-- the text between and with the quotes stands for the name, on one line -/
structure Quotes (text name : List UInt8) : Prop where
  line : 0x0a ∉ text
  read : ∀ rest, readToken (text ++ rest) = (⟨.tokenString, text⟩, rest)
  decode : decodeString ⟨.tokenString, text⟩ = .done name

/-- `currentValue()[name] = value`, one member after another -/
def setMembers (members : List (List UInt8 × Value Double))
    (added : List (List UInt8 × Value Double)) : List (List UInt8 × Value Double) :=
  added.foldl (fun members m => setMember (cstr m.1) m.2 members) members

mutual

/-- **The text lays out the value.** -/
inductive Lays : Value Double → List UInt8 → Prop
  | scalar {gap : List UInt8} {token : Token} {value : Value Double} (hg : G gap)
      (ht : Spells sscanf token value) : Lays value (gap ++ token.text)
  | emptyArray {gap blanks : List UInt8} (hg : G gap) (hb : ∀ c ∈ blanks, isSpace c = true) :
      Lays (.arrayValue []) (gap ++ 0x5b :: (blanks ++ [0x5d]))
  | array {gap text : List UInt8} {values : List (Value Double)} (hg : G gap)
      (h : LaysElements values text) : Lays (.arrayValue values) (gap ++ 0x5b :: text)
  | emptyObject {gap inner : List UInt8} (hg : G gap) (hi : G inner) :
      Lays (.objectValue []) (gap ++ 0x7b :: (inner ++ [0x7d]))
  | object {gap text : List UInt8} {members : List (List UInt8 × Value Double)} (hg : G gap)
      (h : LaysMembers members text) : Lays (.objectValue (setMembers [] members)) (gap ++ 0x7b :: text)

/-- the elements of an array, up to and with its bracket -/
inductive LaysElements : List (Value Double) → List UInt8 → Prop
  | last {value : Value Double} {text tail : List UInt8} (h : Lays value text) (ht : G tail) :
      LaysElements [value] (text ++ (tail ++ [0x5d]))
  | cons {value : Value Double} {values : List (Value Double)} {text tail rest : List UInt8}
      (h : Lays value text) (ht : G tail) (hr : LaysElements values rest) :
      LaysElements (value :: values) (text ++ (tail ++ 0x2c :: rest))

/-- the members of an object, up to and with its brace -/
inductive LaysMembers : List (List UInt8 × Value Double) → List UInt8 → Prop
  | last {gap key name blanks text tail : List UInt8} {value : Value Double} (hg : G gap)
      (hk : Quotes key name) (hb : ∀ c ∈ blanks, isSpace c = true) (h : Lays value text) (ht : G tail) :
      LaysMembers [(name, value)] (gap ++ (key ++ (blanks ++ 0x3a :: (text ++ (tail ++ [0x7d])))))
  | cons {gap key name blanks text tail rest : List UInt8} {value : Value Double}
      {members : List (List UInt8 × Value Double)} (hg : G gap) (hk : Quotes key name)
      (hb : ∀ c ∈ blanks, isSpace c = true) (h : Lays value text) (ht : G tail)
      (hr : LaysMembers members rest) :
      LaysMembers ((name, value) :: members)
        (gap ++ (key ++ (blanks ++ 0x3a :: (text ++ (tail ++ 0x2c :: rest)))))

end

end

theorem Lays.gap {Double : Type} {sscanf : List UInt8 → Option Double} {G : List UInt8 → Prop}
    (hG : Gaps G) {value : Value Double} {g text : List UInt8} (hg : G g)
    (h : Lays sscanf G value text) : Lays sscanf G value (g ++ text) := by
  cases h with
  | scalar hg' ht =>
    rw [← List.append_assoc]
    exact .scalar (hG.append hg hg') ht
  | emptyArray hg' hb =>
    rw [← List.append_assoc]
    exact .emptyArray (hG.append hg hg') hb
  | array hg' h =>
    rw [← List.append_assoc]
    exact .array (hG.append hg hg') h
  | emptyObject hg' hi =>
    rw [← List.append_assoc]
    exact .emptyObject (hG.append hg hg') hi
  | object hg' h =>
    rw [← List.append_assoc]
    exact .object (hG.append hg hg') h

/-! ## Reading a layout -/

section
variable {Double : Type} {sscanf : List UInt8 → Option Double} {G : List UInt8 → Prop}
  {s s' : State Double}
  {l r : List UInt8} {x : State Double ⊕ Verdict (Value Double)}

theorem goes_token {token : Token} (h : readToken l = (token, r)) :
    Goes readToken (step sscanf) s l (step sscanf s token) r := by
  have hl : Goes readToken (step sscanf) s l (step sscanf s (readToken l).1) (readToken l).2 :=
    Goes.last s l
  rwa [h] at hl

theorem goes_sign {c : UInt8} (type_ : TokenType) (hl : lead c = .sign type_)
    (hc : isSpace c = false) {text : List UInt8}
    (h : ∀ token : Token, token.type_ = type_ → step sscanf s token = x) :
    Goes readToken (step sscanf) s (c :: text) x text := by
  obtain ⟨body, ht, _⟩ := readToken_eq
    (show skipSpaces (c :: text) = c :: text from List.dropWhile_cons_of_neg (by rw [hc]; decide))
  rw [hl] at ht
  rw [← h ⟨type_, c :: body⟩ rfl]
  exact goes_token ht

theorem goes_blanks {blanks : List UInt8} (hb : ∀ c ∈ blanks, isSpace c = true)
    (h : Goes readToken (step sscanf) s l x r) : Goes readToken (step sscanf) s (blanks ++ l) x r := by
  have he : readToken (blanks ++ l) = readToken l := readToken_congr (skipSpaces_append hb l)
  exact h.congr (by rw [he]) (by rw [he])

/-- from `s` a comment leads to `s'`, which stays at comments and sees the same next token -/
theorem goes_gap_to {gap : List UInt8} (hg : Gap gap)
    (hs : ∀ token : Token, token.type_ = .tokenComment → step sscanf s token = .inl s')
    (hs' : Skips sscanf s') (h : Goes readToken (step sscanf) s l x r)
    (h' : Goes readToken (step sscanf) s' l x r) :
    Goes readToken (step sscanf) s (gap ++ l) x r := by
  induction hg generalizing s with
  | nil => exact h
  | @space c gap hc _ ih =>
    have he : readToken (c :: (gap ++ l)) = readToken (gap ++ l) :=
      readToken_congr (skipSpaces_cons hc _)
    exact (ih hs h).congr (by rw [List.cons_append, he]) (by rw [List.cons_append, he])
  | @comment text gap ht _ ih =>
    have he := ht (gap ++ l)
    rw [List.append_assoc]
    refine Goes.more (show step sscanf s (readToken (text ++ (gap ++ l))).1 = .inl s' from ?_) ?_
    · rw [he]
      exact hs _ rfl
    · rw [he]
      exact ih hs' h'

theorem goes_gap {gap : List UInt8} (hg : Gap gap) (hs : Skips sscanf s)
    (h : Goes readToken (step sscanf) s l x r) : Goes readToken (step sscanf) s (gap ++ l) x r :=
  goes_gap_to hg hs hs h h

theorem skips_value (stack : List (Frame Double)) : Skips sscanf (.value stack) := by
  intro token h
  show stepValue sscanf stack token = _
  unfold stepValue
  rw [h]

theorem skips_separator (values : List (Value Double)) (stack : List (Frame Double)) :
    Skips sscanf (.separator values stack) := by
  intro token h
  exact if_pos h

theorem skips_name (name : List UInt8) (members : List (List UInt8 × Value Double))
    (stack : List (Frame Double)) : Skips sscanf (.name name members stack) := by
  intro token h
  exact if_pos h

theorem skips_commented (name : List UInt8) (members : List (List UInt8 × Value Double))
    (stack : List (Frame Double)) : Skips sscanf (.commented name members stack) := by
  intro token h
  exact if_pos h

theorem first_gap {gap : List UInt8} (hg : Gap gap) (h : (readToken l).1.type_.begins = true) :
    (readToken (gap ++ l)).1.type_.begins = true := by
  induction hg with
  | nil => exact h
  | space hc _ ih =>
    rw [List.cons_append, readToken_congr (skipSpaces_cons hc _)]
    exact ih
  | comment ht _ _ =>
    rw [List.append_assoc, ht]
    rfl

theorem first_sign {c : UInt8} {type_ : TokenType} (hl : lead c = .sign type_)
    (hc : isSpace c = false) (ht : type_.begins = true) (text : List UInt8) :
    (readToken (c :: text)).1.type_.begins = true := by
  obtain ⟨body, he, _⟩ := readToken_eq
    (show skipSpaces (c :: text) = c :: text from List.dropWhile_cons_of_neg (by rw [hc]; decide))
  rw [he, hl]
  exact ht

theorem Lays.first_token (hG : Gaps G) {value : Value Double} {text rest : List UInt8}
    (h : Lays sscanf G value text) (hr : Stop rest) :
    (readToken (text ++ rest)).1.type_.begins = true := by
  cases h with
  | scalar hg ht =>
    rw [List.append_assoc]
    refine first_gap (hG.gap hg) ?_
    rw [ht.read rest hr]
    exact ht.first
  | emptyArray hg _ =>
    rw [List.append_assoc]
    exact first_gap (hG.gap hg) (first_sign rfl rfl rfl _)
  | array hg _ =>
    rw [List.append_assoc]
    exact first_gap (hG.gap hg) (first_sign rfl rfl rfl _)
  | emptyObject hg _ =>
    rw [List.append_assoc]
    exact first_gap (hG.gap hg) (first_sign rfl rfl rfl _)
  | object hg _ =>
    rw [List.append_assoc]
    exact first_gap (hG.gap hg) (first_sign rfl rfl rfl _)

theorem LaysElements.first_token (hG : Gaps G) {values : List (Value Double)} {text : List UInt8}
    (h : LaysElements sscanf G values text) (rest : List UInt8) :
    (readToken (text ++ rest)).1.type_.begins = true := by
  cases h with
  | last h ht =>
    rw [List.append_assoc, List.append_assoc]
    exact h.first_token hG ((hG.gap ht).stop (stop_sign rfl rest))
  | cons h ht _ =>
    rw [List.append_assoc, List.append_assoc]
    exact h.first_token hG ((hG.gap ht).stop (stop_sign rfl _))

theorem goes_first {stack : List (Frame Double)} (h : (readToken l).1.type_.begins = true)
    (hl : Goes readToken (step sscanf) (.value (.element [] :: stack)) l x r) :
    Goes readToken (step sscanf) (.first stack) l x r := by
  have hne : (readToken l).1.type_ ≠ .tokenArrayEnd := by
    intro he
    rw [he] at h
    cases h
  exact hl.congr (if_neg hne) rfl

theorem goes_key {key name blanks : List UInt8} (hk : Quotes key name)
    (hb : ∀ c ∈ blanks, isSpace c = true) (before : List UInt8)
    (members : List (List UInt8 × Value Double)) (stack : List (Frame Double)) (rest : List UInt8) :
    Goes readToken (step sscanf) (.name before members stack) (key ++ (blanks ++ 0x3a :: rest))
      (.inl (.value (.member name members :: stack))) rest := by
  have hn : step sscanf (.name before members stack) ⟨.tokenString, key⟩
      = .inl (.colon name members stack) := by
    show conclude (decodeString ⟨.tokenString, key⟩) _ = _
    rw [hk.decode]
    rfl
  have h1 : Goes readToken (step sscanf) (.name before members stack) (key ++ (blanks ++ 0x3a :: rest))
      (.inl (.colon name members stack)) (blanks ++ 0x3a :: rest) := by
    rw [← hn]
    exact goes_token (hk.read _)
  refine h1.trans (goes_blanks hb (goes_sign .tokenMemberSeparator rfl rfl ?_))
  intro token ht
  exact if_neg (not_not.mpr ht)

theorem goes_comma {tail : List UInt8} (ht : Gap tail) {c : UInt8} (type_ : TokenType)
    (hl : lead c = .sign type_) (hc : isSpace c = false)
    {name : List UInt8} {members : List (List UInt8 × Value Double)} {stack : List (Frame Double)}
    (h : ∀ token : Token, token.type_ = type_ → step sscanf (.comma name members stack) token = x ∧
      step sscanf (.commented name members stack) token = x) (rest : List UInt8) :
    Goes readToken (step sscanf) (.comma name members stack) (tail ++ c :: rest) x rest :=
  goes_gap_to ht (fun _ h => if_pos h) (skips_commented name members stack)
    (goes_sign type_ hl hc fun token e => (h token e).1)
    (goes_sign type_ hl hc fun token e => (h token e).2)

theorem goes_spells {token : Token} {value : Value Double} (ht : Spells sscanf token value)
    (stack : List (Frame Double)) (hr : Stop r) :
    Goes readToken (step sscanf) (.value stack) (token.text ++ r) (close value stack) r := by
  rw [← ht.value stack]
  exact goes_token (ht.read r hr)

theorem goes_begin {c : UInt8} (type_ : TokenType) (hl : lead c = .sign type_) (hc : isSpace c = false)
    {stack : List (Frame Double)} {text : List UInt8}
    (hs : ∀ token : Token, token.type_ = type_ → step sscanf (.value stack) token = .inl s')
    (h : Goes readToken (step sscanf) s' text x r) :
    Goes readToken (step sscanf) (.value stack) (c :: text) x r :=
  (goes_sign type_ hl hc hs).trans h

theorem step_arrayBegin (stack : List (Frame Double)) (token : Token)
    (h : token.type_ = .tokenArrayBegin) : step sscanf (.value stack) token = .inl (.first stack) := by
  show stepValue sscanf stack token = _
  unfold stepValue
  rw [h]

theorem step_objectBegin (stack : List (Frame Double)) (token : Token)
    (h : token.type_ = .tokenObjectBegin) :
    step sscanf (.value stack) token = .inl (.name [] [] stack) := by
  show stepValue sscanf stack token = _
  unfold stepValue
  rw [h]

theorem step_arrayEnd (values : List (Value Double)) (stack : List (Frame Double)) (token : Token)
    (h : token.type_ = .tokenArrayEnd) :
    step sscanf (.separator values stack) token = close (.arrayValue values) stack := by
  unfold step
  dsimp only
  rw [h]
  rfl

theorem step_arraySeparator (values : List (Value Double)) (stack : List (Frame Double)) (token : Token)
    (h : token.type_ = .tokenArraySeparator) :
    step sscanf (.separator values stack) token = .inl (.value (.element values :: stack)) := by
  unfold step
  dsimp only
  rw [h]
  rfl

theorem step_objectEnd (name : List UInt8) (members : List (List UInt8 × Value Double))
    (stack : List (Frame Double)) (token : Token) (h : token.type_ = .tokenObjectEnd) :
    step sscanf (.comma name members stack) token = close (.objectValue members) stack ∧
      step sscanf (.commented name members stack) token = close (.objectValue members) stack := by
  unfold step
  dsimp only
  rw [h]
  exact ⟨rfl, rfl⟩

theorem step_memberSeparator (name : List UInt8) (members : List (List UInt8 × Value Double))
    (stack : List (Frame Double)) (token : Token) (h : token.type_ = .tokenArraySeparator) :
    step sscanf (.comma name members stack) token = .inl (.name name members stack) ∧
      step sscanf (.commented name members stack) token = .inl (.name name members stack) := by
  unfold step
  dsimp only
  rw [h]
  exact ⟨rfl, rfl⟩

mutual

/-- **The reader takes the value off its layout.** -/
theorem Lays.goes (hG : Gaps G) : ∀ {value : Value Double} {text : List UInt8}, Lays sscanf G value text →
    ∀ (stack : List (Frame Double)) (rest : List UInt8), Stop rest →
      Goes readToken (step sscanf) (.value stack) (text ++ rest) (close value stack) rest
  | _, _, .scalar hg ht, stack, rest, hr => by
    rw [List.append_assoc]
    exact goes_gap (hG.gap hg) (skips_value stack) (goes_spells ht stack hr)
  | _, _, .emptyArray hg hb, stack, rest, _ => by
    simp only [List.append_assoc, List.cons_append]
    refine goes_gap (hG.gap hg) (skips_value stack)
      (goes_begin .tokenArrayBegin rfl rfl (step_arrayBegin stack) ?_)
    exact goes_blanks hb (goes_sign .tokenArrayEnd rfl rfl fun _ h => if_pos h)
  | _, _, .array hg h, stack, rest, _ => by
    rw [List.append_assoc]
    refine goes_gap (hG.gap hg) (skips_value stack)
      (goes_begin .tokenArrayBegin rfl rfl (step_arrayBegin stack) ?_)
    exact goes_first (h.first_token hG rest) (h.goes hG [] stack rest)
  | _, _, .emptyObject hg hi, stack, rest, _ => by
    simp only [List.append_assoc, List.cons_append]
    refine goes_gap (hG.gap hg) (skips_value stack)
      (goes_begin .tokenObjectBegin rfl rfl (step_objectBegin stack) ?_)
    refine goes_gap (hG.gap hi) (skips_name [] [] stack) (goes_sign .tokenObjectEnd rfl rfl ?_)
    intro token h
    show (if token.type_ = _ then _ else if _ then _ else _) = _
    rw [h]
    rfl
  | _, _, .object hg h, stack, rest, _ => by
    rw [List.append_assoc]
    refine goes_gap (hG.gap hg) (skips_value stack)
      (goes_begin .tokenObjectBegin rfl rfl (step_objectBegin stack) ?_)
    exact h.goes hG [] [] stack rest

theorem LaysElements.goes (hG : Gaps G) : ∀ {values : List (Value Double)} {text : List UInt8},
    LaysElements sscanf G values text →
    ∀ (before : List (Value Double)) (stack : List (Frame Double)) (rest : List UInt8),
      Goes readToken (step sscanf) (.value (.element before :: stack)) (text ++ rest)
        (close (.arrayValue (before ++ values)) stack) rest
  | _, _, .last h ht, before, stack, rest => by
    rw [List.append_assoc, List.append_assoc]
    refine (h.goes hG (.element before :: stack) _ ((hG.gap ht).stop (stop_sign rfl rest))).trans ?_
    exact goes_gap (hG.gap ht) (skips_separator _ stack)
      (goes_sign .tokenArrayEnd rfl rfl (step_arrayEnd _ stack))
  | value :: _, _, .cons h ht hr, before, stack, rest => by
    simp only [List.append_assoc, List.cons_append]
    refine (h.goes hG (.element before :: stack) _ ((hG.gap ht).stop (stop_sign rfl _))).trans ?_
    refine goes_gap (hG.gap ht) (skips_separator _ stack)
      ((goes_sign .tokenArraySeparator rfl rfl (step_arraySeparator _ stack)).trans ?_)
    have hgo := hr.goes hG (before ++ [value]) stack rest
    rwa [List.append_assoc] at hgo

theorem LaysMembers.goes (hG : Gaps G) : ∀ {members : List (List UInt8 × Value Double)} {text : List UInt8},
    LaysMembers sscanf G members text →
    ∀ (name : List UInt8) (before : List (List UInt8 × Value Double)) (stack : List (Frame Double))
      (rest : List UInt8),
      Goes readToken (step sscanf) (.name name before stack) (text ++ rest)
        (close (.objectValue (setMembers before members)) stack) rest
  | _, _, .last hg hk hb h ht, name, before, stack, rest => by
    simp only [List.append_assoc, List.cons_append]
    refine goes_gap (hG.gap hg) (skips_name name before stack) ((goes_key hk hb name before stack _).trans ?_)
    refine (h.goes hG (.member _ before :: stack) _ ((hG.gap ht).stop (stop_sign rfl rest))).trans ?_
    exact goes_comma (hG.gap ht) .tokenObjectEnd rfl rfl (step_objectEnd _ _ stack) rest
  | _, _, .cons hg hk hb h ht hr, name, before, stack, rest => by
    simp only [List.append_assoc, List.cons_append]
    refine goes_gap (hG.gap hg) (skips_name name before stack) ((goes_key hk hb name before stack _).trans ?_)
    refine (h.goes hG (.member _ before :: stack) _ ((hG.gap ht).stop (stop_sign rfl _))).trans ?_
    refine (goes_comma (hG.gap ht) .tokenArraySeparator rfl rfl (step_memberSeparator _ _ stack) _).trans ?_
    exact hr.goes hG _ _ stack rest

end

theorem Spells.joined {token : Token} {value : Value Double} (h : Spells sscanf token value) :
    joined token.text = token.text :=
  joined_eq_self h.line

theorem Quotes.joined {key name : List UInt8} (h : Quotes key name) : joined key = key :=
  joined_eq_self h.line

theorem blanks_joined {blanks : List UInt8} (h : ∀ c ∈ blanks, isSpace c = true) :
    ∀ c ∈ joined blanks, isSpace c = true :=
  fun c hc => h c (List.mem_of_mem_filter hc)

mutual

/-- **Removing the line ends leaves a layout of the value.** -/
theorem Lays.joined (hj : ∀ g, G g → G (joined g)) : ∀ {value : Value Double} {text : List UInt8},
    Lays sscanf G value text → Lays sscanf G value (Json.joined text)
  | _, _, .scalar hg ht => by
    rw [joined_append, ht.joined]
    exact .scalar (hj _ hg) ht
  | _, _, .emptyArray hg hb => by
    rw [joined_append, joined_cons (by decide), joined_append]
    exact .emptyArray (hj _ hg) (blanks_joined hb)
  | _, _, .array hg h => by
    rw [joined_append, joined_cons (by decide)]
    exact .array (hj _ hg) (h.joined hj)
  | _, _, .emptyObject hg hi => by
    rw [joined_append, joined_cons (by decide), joined_append]
    exact .emptyObject (hj _ hg) (hj _ hi)
  | _, _, .object hg h => by
    rw [joined_append, joined_cons (by decide)]
    exact .object (hj _ hg) (h.joined hj)

theorem LaysElements.joined (hj : ∀ g, G g → G (joined g)) :
    ∀ {values : List (Value Double)} {text : List UInt8},
    LaysElements sscanf G values text → LaysElements sscanf G values (Json.joined text)
  | _, _, .last h ht => by
    rw [joined_append, joined_append]
    exact .last (h.joined hj) (hj _ ht)
  | _, _, .cons h ht hr => by
    rw [joined_append, joined_append, joined_cons (by decide)]
    exact .cons (h.joined hj) (hj _ ht) (hr.joined hj)

theorem LaysMembers.joined (hj : ∀ g, G g → G (joined g)) :
    ∀ {members : List (List UInt8 × Value Double)} {text : List UInt8},
    LaysMembers sscanf G members text → LaysMembers sscanf G members (Json.joined text)
  | _, _, .last hg hk hb h ht => by
    rw [joined_append, joined_append, joined_append, joined_cons (by decide), joined_append,
      joined_append, hk.joined]
    exact .last (hj _ hg) hk (blanks_joined hb) (h.joined hj) (hj _ ht)
  | _, _, .cons hg hk hb h ht hr => by
    rw [joined_append, joined_append, joined_append, joined_cons (by decide), joined_append,
      joined_append, joined_cons (by decide), hk.joined]
    exact .cons (hj _ hg) hk (blanks_joined hb) (h.joined hj) (hj _ ht) (hr.joined hj)

end

end

end JMEngine.Json
