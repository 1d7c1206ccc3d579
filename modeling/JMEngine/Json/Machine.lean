import JMEngine.Json.Lexer
import JMEngine.Lib.TokenMachine

/-!
# The reader as a machine over tokens

What the recursive descent keeps on the call stack is put into a state: the containers that are
open around the place being read, and what may come next there.

* `State`, `step`                 the machine;
* `leads_readValue`               **the descent does what the machine does**;
* `readRoot_isSome`               the fuel of the descent is enough;
* `goes_of_parse`, `parse_of_goes`   the verdict of a document is that of the machine.
-/

set_option linter.unusedSectionVars false

namespace JMEngine.Json
open DoubleByte (cstr)
open TokenMachine

/-! ## The machine -/

/-- a container that is open, with what it holds so far -/
inductive Frame (Double : Type) where
  | element (values : List (Value Double))
  | member (name : List UInt8) (members : List (List UInt8 × Value Double))

/-- what may come next: a value, the first element or a bracket, what stands behind an element,
a name or a brace, a colon, what stands behind a member, and there behind a comment -/
inductive State (Double : Type) where
  | value (stack : List (Frame Double))
  | first (stack : List (Frame Double))
  | separator (values : List (Value Double)) (stack : List (Frame Double))
  | name (name : List UInt8) (members : List (List UInt8 × Value Double)) (stack : List (Frame Double))
  | colon (name : List UInt8) (members : List (List UInt8 × Value Double)) (stack : List (Frame Double))
  | comma (name : List UInt8) (members : List (List UInt8 × Value Double)) (stack : List (Frame Double))
  | commented (name : List UInt8) (members : List (List UInt8 × Value Double))
      (stack : List (Frame Double))

section
variable {Double : Type} (sscanf : List UInt8 → Option Double)

def close (value : Value Double) : List (Frame Double) → State Double ⊕ Verdict (Value Double)
  | [] => .inr (.done value)
  | .element values :: stack => .inl (.separator (values ++ [value]) stack)
  | .member name members :: stack => .inl (.comma name (setMember (cstr name) value members) stack)

def conclude {α : Type} (w : Verdict α) (f : α → State Double ⊕ Verdict (Value Double)) :
    State Double ⊕ Verdict (Value Double) :=
  match w with
  | .done a => f a
  | .rejected error => .inr (.rejected error)
  | .overrun => .inr .overrun

def stepValue (stack : List (Frame Double)) (token : Token) : State Double ⊕ Verdict (Value Double) :=
  match token.type_ with
  | .tokenComment => .inl (.value stack)
  | .tokenObjectBegin => .inl (.name [] [] stack)
  | .tokenArrayBegin => .inl (.first stack)
  | .tokenNumber => conclude (decodeNumber sscanf token) fun value => close value stack
  | .tokenString => conclude (decodeString token) fun decoded => close (.stringValue (cstr decoded)) stack
  | .tokenTrue => close (.booleanValue true) stack
  | .tokenFalse => close (.booleanValue false) stack
  | .tokenNull => close .nullValue stack
  | _ => .inr (reject "Syntax error: value, object or array expected." token)

def step : State Double → Token → State Double ⊕ Verdict (Value Double)
  | .value stack, token => stepValue sscanf stack token
  | .first stack, token =>
    if token.type_ = .tokenArrayEnd then close (.arrayValue []) stack
    else stepValue sscanf (.element [] :: stack) token
  | .separator values stack, token =>
    if token.type_ = .tokenComment then .inl (.separator values stack)
    else if token.type_ = .tokenArrayEnd then close (.arrayValue values) stack
    else .inl (.value (.element values :: stack))
  | .name name members stack, token =>
    if token.type_ = .tokenComment then .inl (.name name members stack)
    else if token.type_ = .tokenObjectEnd ∧ name = [] then close (.objectValue members) stack
    else if token.type_ ≠ .tokenString then
      .inr (reject "Missing '\x7d' or object member name" token)
    else conclude (decodeString token) fun name => .inl (.colon name members stack)
  | .colon name members stack, token =>
    if token.type_ ≠ .tokenMemberSeparator then
      .inr (reject "Missing ':' after object member name" token)
    else .inl (.value (.member name members :: stack))
  | .comma name members stack, token =>
    if token.type_ = .tokenComment then .inl (.commented name members stack)
    else if token.type_ = .tokenObjectEnd then close (.objectValue members) stack
    else if token.type_ = .tokenArraySeparator then .inl (.name name members stack)
    else .inr (reject "Missing ',' or '\x7d' in object declaration" token)
  | .commented name members stack, token =>
    if token.type_ = .tokenComment then .inl (.commented name members stack)
    else if token.type_ = .tokenObjectEnd then close (.objectValue members) stack
    else .inl (.name name members stack)

/-! ## The descent and the machine -/

/-- the outcome `o` of reading on at the text `l` is where the machine goes from the state `s`;
`g` says where a result takes it -/
def Leads {α : Type} (s : State Double) (l : List UInt8) (g : α → State Double ⊕ Verdict (Value Double))
    (o : Option (Verdict (α × List UInt8))) : Prop :=
  match o with
  | none => True
  | some (.done (a, r)) => Goes readToken (step sscanf) s l (g a) r
  | some (.rejected error) => ∃ r, Goes readToken (step sscanf) s l (.inr (.rejected error)) r
  | some .overrun => ∃ r, Goes readToken (step sscanf) s l (.inr .overrun) r

variable {sscanf} {α β : Type} {s s' : State Double} {l m r : List UInt8}
  {g : β → State Double ⊕ Verdict (Value Double)}

theorem Leads.trans {o : Option (Verdict (β × List UInt8))}
    (h : Goes readToken (step sscanf) s l (.inl s') m) (ho : Leads sscanf s' m g o) :
    Leads sscanf s l g o := by
  rcases o with _ | ⟨a, r⟩ | error | _
  · trivial
  · exact h.trans ho
  · exact ho.imp fun _ hr => h.trans hr
  · exact ho.imp fun _ hr => h.trans hr

theorem leads_andThen {f : α × List UInt8 → Option (Verdict (β × List UInt8))} {h : α → State Double}
    {x : Option (Verdict (α × List UInt8))} (hx : Leads sscanf s l (fun a => .inl (h a)) x)
    (hf : ∀ a r, Leads sscanf (h a) r g (f (a, r))) : Leads sscanf s l g (andThen x f) := by
  rcases x with _ | ⟨a, r⟩ | error | _
  · trivial
  · exact Leads.trans hx (hf a r)
  · exact hx
  · exact hx

/-- a state that stays where it is at a comment -/
def Skips (sscanf : List UInt8 → Option Double) (s : State Double) : Prop :=
  ∀ token : Token, token.type_ = .tokenComment → step sscanf s token = .inl s

theorem skipCommentTokens_cases (sscanf : List UInt8 → Option Double) (n : Nat) (l : List UInt8) :
    skipCommentTokens n l = none ∨
    ∃ token r, skipCommentTokens n l = some (.done (token, r)) ∧ token.type_ ≠ .tokenComment ∧
      ∀ s, Skips sscanf s → Goes readToken (step sscanf) s l (step sscanf s token) r := by
  induction n generalizing l with
  | zero => exact Or.inl rfl
  | succ n ih =>
    unfold skipCommentTokens
    dsimp only
    by_cases hc : (readToken l).1.type_ = .tokenComment
    · rw [if_pos hc]
      refine (ih (readToken l).2).imp id ?_
      rintro ⟨token, r, he, ht, hs⟩
      exact ⟨token, r, he, ht, fun s hskip => Goes.more (hskip _ hc) (hs s hskip)⟩
    · rw [if_neg hc]
      exact Or.inr ⟨_, _, rfl, hc, fun s _ => Goes.last s l⟩

theorem leads_skip {f : Token × List UInt8 → Option (Verdict (β × List UInt8))} (n : Nat)
    (hs : Skips sscanf s)
    (hf : ∀ token r, token.type_ ≠ .tokenComment →
      Goes readToken (step sscanf) s l (step sscanf s token) r → Leads sscanf s l g (f (token, r))) :
    Leads sscanf s l g (andThen (skipCommentTokens n l) f) := by
  rcases skipCommentTokens_cases sscanf n l with he | ⟨token, r, he, ht, hgo⟩
  · rw [he]
    trivial
  · rw [he]
    exact hf token r ht (hgo s hs)

theorem Leads.congr {o : Option (Verdict (β × List UInt8))} (ho : Leads sscanf s l g o)
    (hs : step sscanf s' (readToken m).1 = step sscanf s (readToken l).1)
    (hm : (readToken m).2 = (readToken l).2) : Leads sscanf s' m g o := by
  rcases o with _ | ⟨a, r⟩ | error | _
  · trivial
  · exact Goes.congr ho hs hm
  · exact ho.imp fun _ hr => hr.congr hs hm
  · exact ho.imp fun _ hr => hr.congr hs hm

theorem leads_conclude {w : Verdict α} {f : α → β}
    (h : Goes readToken (step sscanf) s l (conclude w fun a => g (f a)) r) :
    Leads sscanf s l g (some (w.bind fun a => .done (f a, r))) := by
  cases w with
  | done a => exact h
  | rejected error => exact ⟨r, h⟩
  | overrun => exact ⟨r, h⟩

section Pass

variable {n : Nat} {stack : List (Frame Double)}

theorem leads_readValue_succ
    (hM : ∀ name members l stack, Leads sscanf (.name name members stack) l (fun v => close v stack)
      (readMembers sscanf n name members l))
    (hE : ∀ values l stack, Leads sscanf (.value (.element values :: stack)) l (fun v => close v stack)
      (readElements sscanf n values l)) :
    Leads sscanf (.value stack) l (fun v => close v stack) (readValue sscanf (n + 1) l) := by
  rw [readValue]
  refine leads_skip n (fun token h => by dsimp only [step, stepValue]; rw [h]) fun token r ht hgo => ?_
  dsimp only [step, stepValue] at hgo ⊢
  cases hk : token.type_ with
  | tokenComment => exact absurd hk ht
  | tokenObjectBegin =>
    rw [hk] at hgo
    exact Leads.trans hgo (hM [] [] r stack)
  | tokenArrayBegin =>
    rw [hk] at hgo
    refine Leads.trans hgo ?_
    dsimp only
    split
    · next hend =>
      show Goes readToken (step sscanf) _ _ _ _
      rw [readToken_skipSpaces]
      exact Goes.one (if_pos ((headD_eq_arrayEnd r).mp hend))
    · next hend =>
      refine Leads.congr (hE [] (skipSpaces r) stack) ?_ (by rw [readToken_skipSpaces])
      rw [readToken_skipSpaces]
      exact if_neg fun h => hend ((headD_eq_arrayEnd r).mpr h)
  | tokenNumber =>
    rw [hk] at hgo
    exact leads_conclude hgo
  | tokenString =>
    rw [hk] at hgo
    exact leads_conclude hgo
  | tokenTrue | tokenFalse | tokenNull =>
    rw [hk] at hgo
    exact hgo
  | tokenEndOfStream | tokenObjectEnd | tokenArrayEnd | tokenArraySeparator | tokenMemberSeparator
  | tokenError =>
    rw [hk] at hgo
    exact ⟨r, hgo⟩

theorem leads_readElements_succ {values : List (Value Double)}
    (hV : ∀ l stack, Leads sscanf (.value stack) l (fun v => close v stack) (readValue sscanf n l))
    (hE : ∀ values l stack, Leads sscanf (.value (.element values :: stack)) l (fun v => close v stack)
      (readElements sscanf n values l)) :
    Leads sscanf (.value (.element values :: stack)) l (fun v => close v stack)
      (readElements sscanf (n + 1) values l) := by
  rw [readElements]
  refine leads_andThen (h := fun value => .separator (values ++ [value]) stack)
    (hV l (.element values :: stack)) fun value r => ?_
  refine leads_skip n (fun token h => if_pos h) fun token r' ht hgo => ?_
  dsimp only [step] at hgo ⊢
  rw [if_neg ht] at hgo
  rw [if_neg (by rintro ⟨hs, he⟩; rw [hs] at he; cases he)]
  by_cases hend : token.type_ = .tokenArrayEnd
  · rw [if_pos hend] at hgo ⊢
    exact hgo
  · rw [if_neg hend] at hgo ⊢
    exact Leads.trans hgo (hE (values ++ [value]) r' stack)

theorem leads_comma {name : List UInt8} {members : List (List UInt8 × Value Double)}
    (hM : ∀ l, Leads sscanf (.name name members stack) l (fun v => close v stack)
      (readMembers sscanf n name members l)) (l : List UInt8) :
    Leads sscanf (.comma name members stack) l (fun v => close v stack)
      (if (readToken l).1.type_ ≠ .tokenObjectEnd ∧ (readToken l).1.type_ ≠ .tokenArraySeparator ∧
          (readToken l).1.type_ ≠ .tokenComment then
        some (reject "Missing ',' or '\x7d' in object declaration" (readToken l).1)
      else
        andThen (if (readToken l).1.type_ = .tokenComment then skipCommentTokens n (readToken l).2
            else some (.done (readToken l))) fun (comma, l) =>
          if comma.type_ = .tokenObjectEnd then some (.done (.objectValue members, l))
          else readMembers sscanf n name members l) := by
  have hgo : Goes readToken (step sscanf) (.comma name members stack) l _ _ := Goes.last _ _
  dsimp only [step] at hgo
  by_cases hc : (readToken l).1.type_ = .tokenComment
  · rw [if_pos hc] at hgo
    rw [if_neg (fun h => h.2.2 hc), if_pos hc]
    refine Leads.trans hgo ?_
    refine leads_skip n (fun token h => if_pos h) fun token r' ht hgo' => ?_
    dsimp only [step] at hgo' ⊢
    rw [if_neg ht] at hgo'
    split
    · next hend =>
      rw [if_pos hend] at hgo'
      exact hgo'
    · next hend =>
      rw [if_neg hend] at hgo'
      exact Leads.trans hgo' (hM r')
  · rw [if_neg hc] at hgo
    by_cases hend : (readToken l).1.type_ = .tokenObjectEnd
    · rw [if_pos hend] at hgo
      rw [if_neg (fun h => h.1 hend), if_neg hc]
      dsimp only [andThen]
      rw [if_pos hend]
      exact hgo
    · rw [if_neg hend] at hgo
      by_cases hsep : (readToken l).1.type_ = .tokenArraySeparator
      · rw [if_pos hsep] at hgo
        rw [if_neg (fun h => h.2.1 hsep), if_neg hc]
        dsimp only [andThen]
        rw [if_neg hend]
        exact Leads.trans hgo (hM _)
      · rw [if_neg hsep] at hgo
        rw [if_pos ⟨hend, hsep, hc⟩]
        exact ⟨_, hgo⟩

theorem leads_readMembers_succ {name : List UInt8} {members : List (List UInt8 × Value Double)}
    (hV : ∀ l stack, Leads sscanf (.value stack) l (fun v => close v stack) (readValue sscanf n l))
    (hM : ∀ name members l stack, Leads sscanf (.name name members stack) l (fun v => close v stack)
      (readMembers sscanf n name members l)) :
    Leads sscanf (.name name members stack) l (fun v => close v stack)
      (readMembers sscanf (n + 1) name members l) := by
  rw [readMembers]
  refine leads_skip n (fun token h => if_pos h) fun tokenName r ht hgo => ?_
  dsimp only [step] at hgo ⊢
  rw [if_neg ht] at hgo
  by_cases hend : tokenName.type_ = .tokenObjectEnd ∧ name = []
  · rw [if_pos hend] at hgo ⊢
    exact hgo
  rw [if_neg hend] at hgo ⊢
  by_cases hstr : tokenName.type_ = .tokenString
  · rw [if_neg (not_not_intro hstr)] at hgo ⊢
    cases hname : decodeString tokenName with
    | rejected error =>
      rw [hname] at hgo
      exact ⟨r, hgo⟩
    | overrun =>
      rw [hname] at hgo
      exact ⟨r, hgo⟩
    | done name' =>
      rw [hname] at hgo
      refine Leads.trans hgo ?_
      dsimp only [andThen]
      have hcol : Goes readToken (step sscanf) (.colon name' members stack) r _ _ := Goes.last _ _
      dsimp only [step] at hcol
      split
      · next hne =>
        rw [if_pos hne] at hcol
        exact ⟨_, hcol⟩
      · next hne =>
        rw [if_neg hne] at hcol
        refine Leads.trans hcol ?_
        exact leads_andThen (h := fun value => .comma name' (setMember (cstr name') value members) stack)
          (hV _ (.member name' members :: stack))
          fun value r' => leads_comma (fun l => hM name' _ l stack) r'
  · rw [if_pos hstr] at hgo ⊢
    exact ⟨r, hgo⟩

end Pass

theorem leads_reader (n : Nat) :
    (∀ l stack, Leads sscanf (.value stack) l (fun v => close v stack) (readValue sscanf n l)) ∧
    (∀ values l stack, Leads sscanf (.value (.element values :: stack)) l (fun v => close v stack)
      (readElements sscanf n values l)) ∧
    ∀ name members l stack, Leads sscanf (.name name members stack) l (fun v => close v stack)
      (readMembers sscanf n name members l) := by
  induction n with
  | zero =>
    refine ⟨fun l stack => ?_, fun values l stack => ?_, fun name members l stack => ?_⟩
    · rw [readValue]; trivial
    · rw [readElements]; trivial
    · rw [readMembers]; trivial
  | succ n ih =>
    obtain ⟨hV, hE, hM⟩ := ih
    exact ⟨fun l stack => leads_readValue_succ hM hE, fun values l stack => leads_readElements_succ hV hE,
      fun name members l stack => leads_readMembers_succ hV hM⟩

/-- **The descent does what the machine does.** -/
theorem leads_readValue (n : Nat) (l : List UInt8) (stack : List (Frame Double)) :
    Leads sscanf (.value stack) l (fun v => close v stack) (readValue sscanf n l) :=
  (leads_reader n).1 l stack

/-! ## Comments and the end of the text -/

theorem step_comment (sscanf : List UInt8 → Option Double) {token : Token}
    (h : token.type_ = .tokenComment) (s : State Double) :
    (∃ s', step sscanf s token = .inl s') ∨ ∃ error, step sscanf s token = .inr (.rejected error) := by
  cases s with
  | value stack => exact Or.inl ⟨_, by dsimp only [step, stepValue]; rw [h]⟩
  | first stack => exact Or.inl ⟨_, by dsimp only [step, stepValue]; rw [h, if_neg (by decide)]⟩
  | colon name members stack =>
    exact Or.inr ⟨_, if_pos (by rw [h]; decide)⟩
  | separator | name | comma | commented => exact Or.inl ⟨_, if_pos h⟩

theorem step_end (sscanf : List UInt8 → Option Double) {token : Token}
    (h : token.type_ = .tokenEndOfStream) (s : State Double) :
    (∃ error, step sscanf s token = .inr (.rejected error)) ∨
      ∃ s', step sscanf s token = .inl s' ∧ ∀ token' : Token, token'.type_ = .tokenEndOfStream →
        ∃ error, step sscanf s' token' = .inr (.rejected error) := by
  have hvalue : ∀ (stack : List (Frame Double)) (token : Token), token.type_ = .tokenEndOfStream →
      ∃ error, step sscanf (.value stack) token = .inr (.rejected error) := by
    intro stack token h
    exact ⟨_, by dsimp only [step, stepValue]; rw [h]; rfl⟩
  have hname : ∀ name members (stack : List (Frame Double)) (token : Token),
      token.type_ = .tokenEndOfStream →
      ∃ error, step sscanf (.name name members stack) token = .inr (.rejected error) := by
    intro name members stack token h
    have hne : ¬ (TokenType.tokenEndOfStream = .tokenObjectEnd ∧ name = []) := by
      rintro ⟨he, _⟩
      cases he
    exact ⟨_, by dsimp only [step]; rw [h, if_neg (by decide), if_neg hne, if_pos (by decide)]; rfl⟩
  cases s with
  | value stack => exact Or.inl (hvalue stack token h)
  | first stack =>
    refine Or.inl ((hvalue (.element [] :: stack) token h).imp fun e he => ?_)
    dsimp only [step] at he ⊢
    rw [h, if_neg (by decide)]
    exact he
  | name name members stack => exact Or.inl (hname name members stack token h)
  | colon name members stack => exact Or.inl ⟨_, if_pos (by rw [h]; decide)⟩
  | comma name members stack =>
    exact Or.inl ⟨_, by
      dsimp only [step]; rw [h, if_neg (by decide), if_neg (by decide), if_neg (by decide)]; rfl⟩
  | separator values stack =>
    exact Or.inr ⟨.value (.element values :: stack), by
      dsimp only [step]; rw [h, if_neg (by decide), if_neg (by decide)], hvalue _⟩
  | commented name members stack =>
    exact Or.inr ⟨.name name members stack, by
      dsimp only [step]; rw [h, if_neg (by decide), if_neg (by decide)], hname name members stack⟩

theorem step_done {token : Token} {v : Value Double} (h : step sscanf s token = .inr (.done v)) :
    token.type_ ≠ .tokenComment ∧ token.type_ ≠ .tokenEndOfStream := by
  constructor
  · intro ht
    rcases step_comment sscanf ht s with ⟨s', hs⟩ | ⟨error, hs⟩
    · cases h.symm.trans hs
    · cases h.symm.trans hs
  · intro ht
    rcases step_end sscanf ht s with ⟨error, hs⟩ | ⟨s', hs, _⟩
    · cases h.symm.trans hs
    · cases h.symm.trans hs

/-! ## The fuel is enough -/

theorem length_of_done {v : Value Double} (h : Goes readToken (step sscanf) s l (.inr (.done v)) r) :
    r.length < l.length :=
  h.length_lt readToken_suffix fun _ _ hs => length_readToken_lt (step_done hs).2

theorem length_readValue {n : Nat} {v : Value Double} (h : readValue sscanf n l = some (.done (v, r))) :
    r.length < l.length := by
  have hl : Leads sscanf _ _ _ _ := leads_readValue n l []
  rw [h] at hl
  exact length_of_done hl

theorem skipCommentTokens_some {n : Nat} (h : l.length < n) :
    ∃ token r, skipCommentTokens n l = some (.done (token, r)) ∧ r.length ≤ l.length ∧
      (token.type_ ≠ .tokenEndOfStream → r.length < l.length) := by
  induction n generalizing l with
  | zero => exact absurd h (Nat.not_lt_zero _)
  | succ n ih =>
    unfold skipCommentTokens
    dsimp only
    by_cases hc : (readToken l).1.type_ = .tokenComment
    · have hlt := length_readToken_lt (l := l) (by rw [hc]; decide)
      rw [if_pos hc]
      obtain ⟨token, r, he, hle, _⟩ := ih (l := (readToken l).2) (by omega)
      exact ⟨token, r, he, by omega, fun _ => by omega⟩
    · rw [if_neg hc]
      exact ⟨_, _, rfl, length_readToken_le l, length_readToken_lt⟩

theorem comma_some {n : Nat} (h : l.length < n) :
    ∃ token r, (if (readToken l).1.type_ = .tokenComment then skipCommentTokens n (readToken l).2
      else some (.done (readToken l))) = some (.done (token, r)) ∧ r.length ≤ l.length := by
  have hle := length_readToken_le l
  split
  · obtain ⟨token, r, he, hr, _⟩ := skipCommentTokens_some (l := (readToken l).2) (n := n) (by omega)
    exact ⟨token, r, he, by omega⟩
  · exact ⟨_, _, rfl, hle⟩

theorem andThen_isSome {x : Option (Verdict α)} {f : α → Option (Verdict β)} (hx : x.isSome)
    (hf : ∀ a, x = some (.done a) → (f a).isSome) : (andThen x f).isSome := by
  rcases x with _ | a | error | _
  · cases hx
  · exact hf a rfl
  · rfl
  · rfl

section Enough

variable {n : Nat}
  (hV : ∀ l, 2 * l.length + 2 ≤ n → (readValue sscanf n l).isSome)
  (hE : ∀ values l, 2 * l.length + 3 ≤ n → (readElements sscanf n values l).isSome)
  (hM : ∀ name members l, 2 * l.length + 3 ≤ n → (readMembers sscanf n name members l).isSome)

include hE hM in
theorem readValue_isSome_succ (h : 2 * l.length + 2 ≤ n + 1) : (readValue sscanf (n + 1) l).isSome := by
  rw [readValue]
  obtain ⟨token, r, he, hle, hlt⟩ := skipCommentTokens_some (l := l) (n := n) (by omega)
  rw [he]
  dsimp only [andThen]
  cases hk : token.type_ with
  | tokenObjectBegin =>
    have := hlt (by rw [hk]; decide)
    exact hM _ _ _ (by omega)
  | tokenArrayBegin =>
    have := hlt (by rw [hk]; decide)
    have := (skipSpaces_suffix r).length_le
    dsimp only
    split
    · rfl
    · exact hE _ _ (by omega)
  | _ => rfl

include hV hE in
theorem readElements_isSome_succ (values : List (Value Double)) (h : 2 * l.length + 3 ≤ n + 1) :
    (readElements sscanf (n + 1) values l).isSome := by
  rw [readElements]
  refine andThen_isSome (hV l (by omega)) fun (value, r) hv => ?_
  have := length_readValue hv
  obtain ⟨token, r', he, hle, _⟩ := skipCommentTokens_some (l := r) (n := n) (by omega)
  dsimp only
  rw [he]
  dsimp only [andThen]
  split
  · rfl
  · split
    · rfl
    · exact hE _ _ (by omega)

include hV hM in
theorem readMembers_isSome_succ (name : List UInt8) (members : List (List UInt8 × Value Double))
    (h : 2 * l.length + 3 ≤ n + 1) : (readMembers sscanf (n + 1) name members l).isSome := by
  rw [readMembers]
  obtain ⟨token, r, he, hle, hlt⟩ := skipCommentTokens_some (l := l) (n := n) (by omega)
  rw [he]
  dsimp only [andThen]
  split
  · rfl
  split
  · rfl
  next hstr =>
  have := hlt (by rw [not_not.mp hstr]; decide)
  have := length_readToken_le r
  cases decodeString token with
  | rejected error => rfl
  | overrun => rfl
  | done name' =>
    dsimp only
    split
    · rfl
    refine andThen_isSome (hV _ (by omega)) fun (value, r1) hv => ?_
    have := length_readValue hv
    dsimp only
    split
    · rfl
    obtain ⟨comma, r2, hcomma, hle2⟩ := comma_some (l := r1) (n := n) (by omega)
    rw [hcomma]
    dsimp only [andThen]
    split
    · rfl
    · exact hM _ _ _ (by omega)

end Enough

/-- every pass takes a token, and a value at least one byte -/
theorem reader_isSome (n : Nat) :
    (∀ l, 2 * l.length + 2 ≤ n → (readValue sscanf n l).isSome) ∧
    (∀ values l, 2 * l.length + 3 ≤ n → (readElements sscanf n values l).isSome) ∧
    ∀ name members l, 2 * l.length + 3 ≤ n → (readMembers sscanf n name members l).isSome := by
  induction n with
  | zero => exact ⟨fun l h => by omega, fun _ l h => by omega, fun _ _ l h => by omega⟩
  | succ n ih =>
    obtain ⟨hV, hE, hM⟩ := ih
    exact ⟨fun l => readValue_isSome_succ hE hM, fun values l => readElements_isSome_succ hV hE values,
      fun name members l => readMembers_isSome_succ hV hM name members⟩

/-! ## Documents -/

theorem readRoot_isSome (sscanf : List UInt8 → Option Double) (document : List UInt8) :
    (readRoot sscanf document).isSome :=
  (reader_isSome _).1 _ (Nat.le_refl _)

theorem parse_eq {document : List UInt8} {o : Verdict (Value Double × List UInt8)}
    (h : readRoot sscanf document = some o) :
    parse sscanf document = some (o.bind fun p => .done p.1) := by
  unfold parse
  rw [h]
  rcases o with ⟨v, r⟩ | error | _
  · obtain ⟨token, r', he, _⟩ := skipCommentTokens_some (l := r) (Nat.lt_succ_self _)
    dsimp only [andThen]
    rw [he]
    rfl
  · rfl
  · rfl

theorem goes_of_parse {document : List UInt8} {v : Value Double}
    (h : parse sscanf document = some (.done v)) :
    ∃ r, readRoot sscanf document = some (.done (v, r)) ∧
      Goes readToken (step sscanf) (.value []) (skipBOM document) (.inr (.done v)) r := by
  obtain ⟨o, ho⟩ := Option.isSome_iff_exists.mp (readRoot_isSome sscanf document)
  have hl : Leads sscanf _ _ _ (readRoot sscanf document) := leads_readValue _ (skipBOM document) []
  rw [parse_eq ho] at h
  rw [ho] at hl
  rcases o with ⟨v', r⟩ | error | _
  · cases h
    exact ⟨r, ho, hl⟩
  · cases h
  · cases h

/-- **The verdict of the machine is that of the reader.** -/
theorem parse_of_goes {document : List UInt8} {w : Verdict (Value Double)}
    (h : Goes readToken (step sscanf) (.value []) (skipBOM document) (.inr w) r) :
    parse sscanf document = some w := by
  obtain ⟨o, ho⟩ := Option.isSome_iff_exists.mp (readRoot_isSome sscanf document)
  have hl : Leads sscanf _ _ _ (readRoot sscanf document) := leads_readValue _ (skipBOM document) []
  rw [parse_eq ho]
  rw [ho] at hl
  rcases o with ⟨v, r'⟩ | error | _
  · exact congrArg some (hl.verdict_unique h).1
  · obtain ⟨r', hr⟩ := hl
    exact congrArg some (hr.verdict_unique h).1
  · obtain ⟨r', hr⟩ := hl
    exact congrArg some (hr.verdict_unique h).1

end

end JMEngine.Json
