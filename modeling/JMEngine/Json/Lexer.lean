import JMEngine.Json.Reader
import Mathlib.Data.List.DropRight

/-!
# The lexer of the JSON reader

A token is the text that is taken off; what kind it is shows in its first byte, and where it ends
depends on nothing behind it.

* `token_text`, `readToken_eq`   a token and what is left are what stands behind the spaces;
* `length_readToken_lt`          a token other than the end takes a byte;
* `Lead.read_type`, `lead_of_read`   the type that the first byte announces, or an error;
* `readString_local`, `readCStyleComment_local`, `readCppStyleComment_cases`   the ends of strings
                                 and comments.
-/

namespace JMEngine.Json

/-! ## Tokens take text -/

theorem readCStyleComment_suffix (l : List UInt8) : (readCStyleComment l).2 <:+ l := by
  induction l with
  | nil => exact List.suffix_rfl
  | cons c l ih =>
    unfold readCStyleComment
    split
    · cases l with
      | nil => exact List.suffix_cons c []
      | cons d l => exact (List.suffix_cons d l).trans (List.suffix_cons c _)
    · exact ih.trans (List.suffix_cons c l)

theorem readCppStyleComment_suffix (l : List UInt8) : readCppStyleComment l <:+ l := by
  induction l with
  | nil => exact List.suffix_rfl
  | cons c l ih =>
    unfold readCppStyleComment
    split
    · exact List.suffix_cons c l
    · exact ih.trans (List.suffix_cons c l)

theorem readComment_suffix (l : List UInt8) : (readComment l).2 <:+ l := by
  cases l with
  | nil => exact List.suffix_rfl
  | cons c l =>
    refine List.IsSuffix.trans ?_ (List.suffix_cons c l)
    unfold readComment
    dsimp only [getNextChar]
    split
    · exact readCStyleComment_suffix l
    · split
      · exact readCppStyleComment_suffix l
      · exact List.suffix_rfl

theorem readString_suffix (c : UInt8) (l : List UInt8) : (readString c l).2 <:+ l := by
  fun_induction readString c l with
  | case1 => exact List.suffix_rfl
  | case2 _ d => exact List.suffix_cons d []
  | case3 _ e l ih => exact ih.trans ((List.suffix_cons e l).trans (List.suffix_cons _ _))
  | case4 _ e l => exact List.suffix_cons _ _
  | case5 _ d e l _ _ ih => exact ih.trans (List.suffix_cons d _)

theorem matchPattern_suffix (pattern l : List UInt8) : (matchPattern pattern l).2 <:+ l := by
  unfold matchPattern
  split
  · exact List.drop_suffix _ _
  · exact List.suffix_rfl

theorem Lead.read_suffix (k : Lead) (l : List UInt8) : (k.read l).2 <:+ l := by
  cases k with
  | sign => exact List.suffix_rfl
  | string => exact readString_suffix 0 l
  | comment => exact readComment_suffix l
  | number => exact List.dropWhile_suffix _
  | word _ pattern => exact matchPattern_suffix pattern l
  | other => exact List.suffix_rfl

theorem getNextChar_suffix (l : List UInt8) : (getNextChar l).2 <:+ l := by
  cases l with
  | nil => exact List.suffix_rfl
  | cons c l => exact List.suffix_cons c l

theorem skipSpaces_suffix (l : List UInt8) : skipSpaces l <:+ l := List.dropWhile_suffix _

theorem readToken_suffix_skipSpaces (l : List UInt8) : (readToken l).2 <:+ skipSpaces l :=
  ((lead _).read_suffix _).trans (getNextChar_suffix _)

theorem readToken_suffix (l : List UInt8) : (readToken l).2 <:+ l :=
  (readToken_suffix_skipSpaces l).trans (skipSpaces_suffix l)

theorem token_text (l : List UInt8) : skipSpaces l = (readToken l).1.text ++ (readToken l).2 := by
  obtain ⟨x, hx⟩ := readToken_suffix_skipSpaces l
  have htext : (readToken l).1.text = x := by
    show (skipSpaces l).take ((skipSpaces l).length - (readToken l).2.length) = x
    rw [← hx, List.length_append, Nat.add_sub_cancel, List.take_left]
  rw [htext, hx]

theorem readToken_eq {l m : List UInt8} {c : UInt8} (h : skipSpaces l = c :: m) :
    ∃ body, readToken l = (⟨((lead c).read m).1, c :: body⟩, ((lead c).read m).2) ∧
      m = body ++ ((lead c).read m).2 := by
  obtain ⟨body, hbody⟩ := (lead c).read_suffix m
  have hrest : (readToken l).2 = ((lead c).read m).2 := by
    unfold readToken
    rw [h]
    rfl
  have htype : (readToken l).1.type_ = ((lead c).read m).1 := by
    unfold readToken
    rw [h]
    rfl
  have htext : (readToken l).1.text = c :: body := by
    have e : c :: body ++ ((lead c).read m).2 = (readToken l).1.text ++ ((lead c).read m).2 := by
      rw [List.cons_append, hbody, ← h, ← hrest]
      exact token_text l
    exact (List.append_cancel_right e).symm
  refine ⟨body, Prod.ext ?_ hrest, hbody.symm⟩
  show (readToken l).1 = _
  rw [← htype, ← htext]

theorem length_readToken_le (l : List UInt8) : (readToken l).2.length ≤ l.length :=
  (readToken_suffix l).length_le

theorem length_readToken_lt {l : List UInt8} (h : (readToken l).1.type_ ≠ .tokenEndOfStream) :
    (readToken l).2.length < l.length := by
  refine Nat.lt_of_lt_of_le ?_ (skipSpaces_suffix l).length_le
  unfold readToken at h ⊢
  cases hs : skipSpaces l with
  | nil =>
    rw [hs] at h
    exact absurd rfl h
  | cons c current => exact Nat.lt_succ_of_le ((lead c).read_suffix current).length_le

theorem skipSpaces_idem (l : List UInt8) : skipSpaces (skipSpaces l) = skipSpaces l :=
  List.dropWhile_idempotent _ _

theorem readToken_congr {l l' : List UInt8} (h : skipSpaces l = skipSpaces l') :
    readToken l = readToken l' := by
  unfold readToken
  rw [h]

theorem readToken_skipSpaces (l : List UInt8) : readToken (skipSpaces l) = readToken l :=
  readToken_congr (skipSpaces_idem l)

theorem length_skipSpaces_append {u : List UInt8} {c : UInt8} (hc : isSpace c = false) (m : List UInt8) :
    m.length < (skipSpaces (u ++ c :: m)).length := by
  induction u with
  | nil =>
    unfold skipSpaces
    rw [List.nil_append, List.dropWhile_cons_of_neg (by rw [hc]; decide)]
    exact Nat.lt_succ_self _
  | cons d u ih =>
    unfold skipSpaces at ih ⊢
    rw [List.cons_append]
    by_cases hd : isSpace d = true
    · rw [List.dropWhile_cons_of_pos hd]
      exact ih
    · rw [List.dropWhile_cons_of_neg hd, List.length_cons, List.length_append, List.length_cons]
      omega

/-! ## First bytes -/

def Lead.type_ : Lead → TokenType
  | .sign type_ => type_
  | .string => .tokenString
  | .comment => .tokenComment
  | .number => .tokenNumber
  | .word type_ _ => type_
  | .other => .tokenError

theorem typed_or (type_ : TokenType) (r : Bool × List UInt8) :
    (typed type_ r).1 = type_ ∨ (typed type_ r).1 = .tokenError := by
  unfold typed
  split
  · exact Or.inl rfl
  · exact Or.inr rfl

theorem typed_congr {type_ : TokenType} {r r' : Bool × List UInt8} (h : r'.1 = r.1) :
    (typed type_ r').1 = (typed type_ r).1 := by
  unfold typed
  rw [h]

theorem typed_ok {type_ : TokenType} {r : Bool × List UInt8} (h : (typed type_ r).1 ≠ .tokenError) :
    r.1 = true := by
  by_contra hok
  exact h (if_neg hok)

theorem Lead.read_type (k : Lead) (l : List UInt8) :
    (k.read l).1 = k.type_ ∨ (k.read l).1 = .tokenError := by
  cases k with
  | sign type_ => exact Or.inl rfl
  | string => exact typed_or _ _
  | comment => exact typed_or _ _
  | number => exact Or.inl rfl
  | word type_ pattern => exact typed_or _ _
  | other => exact Or.inl rfl

theorem lead_mem (c : UInt8) : lead c = .number ∨ lead c = .other ∨ (c, lead c) ∈ leads := by
  unfold lead
  split
  · exact Or.inl rfl
  · cases h : leads.lookup c with
    | none => exact Or.inr (Or.inl rfl)
    | some k =>
      obtain ⟨l, r, e, _⟩ := List.lookup_eq_some_iff.mp h
      refine Or.inr (Or.inr ?_)
      rw [e]
      exact List.mem_append_right _ List.mem_cons_self

theorem lead_of_read {c : UInt8} {l : List UInt8} {type_ : TokenType} (hn : type_ ≠ .tokenNumber)
    (he : type_ ≠ .tokenError) (h : ((lead c).read l).1 = type_) :
    (lead c).type_ = type_ ∧ (c, lead c) ∈ leads := by
  have ht : (lead c).type_ = type_ := by
    rcases (lead c).read_type l with e | e
    · exact e.symm.trans h
    · exact absurd (h.symm.trans e) he
  refine ⟨ht, ?_⟩
  rcases lead_mem c with hc | hc | hc
  · rw [hc] at ht
    exact absurd ht.symm hn
  · rw [hc] at ht
    exact absurd ht.symm he
  · exact hc

theorem headD_eq_arrayEnd (l : List UInt8) :
    (skipSpaces l).headD 0 = 0x5d ↔ (readToken l).1.type_ = .tokenArrayEnd := by
  have hhead : (getNextChar (skipSpaces l)).1 = (skipSpaces l).headD 0 := by
    cases skipSpaces l <;> rfl
  rw [← hhead]
  show _ ↔ ((lead (getNextChar (skipSpaces l)).1).read (getNextChar (skipSpaces l)).2).1 = _
  constructor
  · intro h
    rw [h]
    rfl
  · intro h
    obtain ⟨ht, hmem⟩ := lead_of_read (by decide) (by decide) h
    exact (show ∀ e ∈ leads, e.2.type_ = .tokenArrayEnd → e.1 = 0x5d by decide) _ hmem ht

theorem lead_of_comment {c : UInt8} {l : List UInt8} (h : ((lead c).read l).1 = .tokenComment) :
    lead c = .comment := by
  obtain ⟨ht, hmem⟩ := lead_of_read (by decide) (by decide) h
  exact (show ∀ e ∈ leads, e.2.type_ = .tokenComment → e.2 = .comment by decide) _ hmem ht

/-! ## Ends -/

theorem readString_cons (c d : UInt8) (m : List UInt8) (h1 : d ≠ 0x5c) (h2 : d ≠ 0x22) :
    readString c (d :: m) = readString d m := by
  cases m with
  | nil => rfl
  | cons e l => rw [readString, if_neg h1, if_neg h2]

theorem readString_local {c : UInt8} {l r : List UInt8} (hc : c ≠ 0x22)
    (h : readString c l = (true, r)) :
    ∃ body, l = body ++ r ∧ ∀ x, readString c (body ++ x) = (true, x) := by
  fun_induction readString c l with
  | case1 c => exact absurd (of_decide_eq_true (congrArg Prod.fst h)) hc
  | case2 c d =>
    obtain ⟨hd, rfl⟩ := Prod.mk.inj h
    obtain rfl : d = 0x22 := of_decide_eq_true hd
    refine ⟨[0x22], rfl, fun x => ?_⟩
    cases x with
    | nil => rfl
    | cons e l => rfl
  | case3 c e l ih =>
    obtain ⟨body, rfl, hb⟩ := ih (by decide) h
    refine ⟨0x5c :: e :: body, rfl, fun x => ?_⟩
    exact hb x
  | case4 c e l =>
    obtain ⟨_, rfl⟩ := Prod.mk.inj h
    refine ⟨[0x22], rfl, fun x => ?_⟩
    cases x with
    | nil => rfl
    | cons e l => rfl
  | case5 c d e l h1 h2 ih =>
    obtain ⟨body, hl, hb⟩ := ih h2 h
    refine ⟨d :: body, by rw [hl]; rfl, fun x => ?_⟩
    rw [List.cons_append, readString_cons c d _ h1 h2]
    exact hb x

theorem readString_open (c : UInt8) (l : List UInt8) (h : (readString c l).1 = false) :
    (readString c l).2 = [] := by
  fun_induction readString c l with
  | case1 => rfl
  | case2 => rfl
  | case3 _ _ _ ih => exact ih h
  | case4 => cases h
  | case5 _ _ _ _ _ _ ih => exact ih h

theorem readCStyleComment_local {l r : List UInt8} (h : readCStyleComment l = (true, r)) :
    (∃ u, l = u ++ 0x2a :: 0x2f :: r) ∧ ∀ x, readCStyleComment (l ++ x) = (true, r ++ x) := by
  induction l with
  | nil => cases h
  | cons c l ih =>
    cases l with
    | nil =>
      rw [readCStyleComment, if_neg (fun hc => absurd hc.2 (by decide))] at h
      cases h
    | cons d l =>
      rw [readCStyleComment, List.headD_cons] at h
      by_cases hc : c = 0x2a ∧ d = 0x2f
      · obtain ⟨rfl, rfl⟩ := hc
        cases h
        exact ⟨⟨[], rfl⟩, fun x => rfl⟩
      · rw [if_neg hc] at h
        obtain ⟨⟨u, hu⟩, hx⟩ := ih h
        refine ⟨⟨c :: u, congrArg (c :: ·) hu⟩, fun x => ?_⟩
        rw [List.cons_append, List.cons_append, readCStyleComment, List.headD_cons, if_neg hc]
        exact hx x

theorem readCStyleComment_open (l : List UInt8) (h : (readCStyleComment l).1 = false) :
    (readCStyleComment l).2 = [] := by
  induction l with
  | nil => rfl
  | cons c l ih =>
    unfold readCStyleComment at h ⊢
    split
    · next hc =>
      rw [if_pos hc] at h
      cases l with
      | nil => rfl
      | cons d l => exact absurd hc.2 (of_decide_eq_false h)
    · next hc =>
      rw [if_neg hc] at h
      exact ih h

theorem readCStyleComment_closed (u r : List UInt8) :
    (readCStyleComment (u ++ 0x2a :: 0x2f :: r)).1 = true := by
  induction u with
  | nil => rfl
  | cons c u ih =>
    rw [List.cons_append, readCStyleComment]
    split
    · next hc =>
      cases h : u ++ 0x2a :: 0x2f :: r with
      | nil => rw [h] at hc; exact absurd hc.2 (by decide)
      | cons d l => rw [h] at hc; exact decide_eq_true hc.2
    · exact ih

theorem readCppStyleComment_append {l : List UInt8} (h1 : 0x0d ∉ l) (h2 : 0x0a ∉ l) (m : List UInt8) :
    readCppStyleComment (l ++ m) = readCppStyleComment m := by
  induction l with
  | nil => rfl
  | cons c l ih =>
    rw [List.mem_cons, not_or] at h1 h2
    have hc : ¬ (c = 0x0d ∨ c = 0x0a) := by
      rintro (rfl | rfl)
      · exact h1.1 rfl
      · exact h2.1 rfl
    rw [List.cons_append, readCppStyleComment, if_neg hc]
    exact ih h1.2 h2.2

theorem readCppStyleComment_nil {l : List UInt8} (h1 : 0x0d ∉ l) (h2 : 0x0a ∉ l) :
    readCppStyleComment l = [] := by
  have h := readCppStyleComment_append h1 h2 []
  rwa [List.append_nil] at h

theorem readCppStyleComment_cases (l : List UInt8) :
    (0x0d ∉ l ∧ 0x0a ∉ l ∧ readCppStyleComment l = []) ∨
      ∃ b e, l = b ++ e :: readCppStyleComment l ∧ 0x0d ∉ b ∧ 0x0a ∉ b ∧ (e = 0x0d ∨ e = 0x0a) := by
  induction l with
  | nil => exact Or.inl ⟨List.not_mem_nil, List.not_mem_nil, rfl⟩
  | cons c l ih =>
    unfold readCppStyleComment
    split
    · next hc => exact Or.inr ⟨[], c, rfl, List.not_mem_nil, List.not_mem_nil, hc⟩
    · next hc =>
      obtain ⟨hr, hn⟩ := not_or.mp hc
      have hcons : ∀ d {b : List UInt8}, c ≠ d → d ∉ b → d ∉ c :: b := by
        intro d b hd hb
        rw [List.mem_cons, not_or]
        exact ⟨fun e => hd e.symm, hb⟩
      rcases ih with ⟨h1, h2, he⟩ | ⟨b, e, he, h1, h2, hend⟩
      · exact Or.inl ⟨hcons _ hr h1, hcons _ hn h2, he⟩
      · exact Or.inr ⟨c :: b, e, congrArg (c :: ·) he, hcons _ hr h1, hcons _ hn h2, hend⟩

theorem comment_body {d : UInt8} {b body : List UInt8} (hm : d :: b = body ++ (readComment (d :: b)).2) :
    ∃ body', body = d :: body' ∧ b = body' ++ (readComment (d :: b)).2 := by
  have hle : (readComment (d :: b)).2.length ≤ b.length := by
    unfold readComment
    dsimp only [getNextChar]
    split
    · exact (readCStyleComment_suffix b).length_le
    · split
      · exact (readCppStyleComment_suffix b).length_le
      · exact Nat.le_refl _
  cases body with
  | nil =>
    have := congrArg List.length hm
    rw [List.nil_append, List.length_cons] at this
    omega
  | cons d' body => exact ⟨body, by rw [(List.cons.inj hm).1], (List.cons.inj hm).2⟩

theorem numeric_headD (m : List UInt8) : isNumeric ((readNumber m).headD 0) = false := by
  unfold readNumber
  induction m with
  | nil => rfl
  | cons c m ih =>
    by_cases hc : isNumeric c = true
    · rw [List.dropWhile_cons_of_pos hc]
      exact ih
    · rw [List.dropWhile_cons_of_neg hc]
      exact Bool.eq_false_iff.mpr hc

end JMEngine.Json
