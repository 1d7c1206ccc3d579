import JMEngine.Json.Lexer

/-!
# Texts without line ends

To the reader a line end is a space, but it also ends a comment and a number, it can stand in a
string, and it can keep a star and a slash apart.

* `joined`             a text without its line ends;
* `joinsAt`            the token that stands next is the same one without line ends;
* `readToken_joined`, `joinsAt_iff`   so the lexer reads it, and only so;
* `cutsAt`, `readToken_cut`   a line comment that takes the rest of the joined text.
-/

namespace JMEngine.Json

def joined (l : List UInt8) : List UInt8 := l.filter (· ≠ 0x0a)

theorem joined_append (l m : List UInt8) : joined (l ++ m) = joined l ++ joined m :=
  List.filter_append _ _

theorem joined_cons {c : UInt8} (h : c ≠ 0x0a) (l : List UInt8) : joined (c :: l) = c :: joined l :=
  List.filter_cons_of_pos (decide_eq_true h)

theorem joined_eq_self {l : List UInt8} (h : 0x0a ∉ l) : joined l = l :=
  List.filter_eq_self.mpr fun _ hc => decide_eq_true fun e => h (e ▸ hc)

theorem not_mem_joined (l : List UInt8) : 0x0a ∉ joined l := by
  intro h
  exact absurd rfl (of_decide_eq_true (List.mem_filter.mp h).2)

/-! ## Spaces -/

theorem skipSpaces_joined (l : List UInt8) : skipSpaces (joined l) = joined (skipSpaces l) := by
  induction l with
  | nil => rfl
  | cons c l ih =>
    by_cases hc : c = 0x0a
    · subst hc
      exact ih
    · rw [joined_cons hc]
      unfold skipSpaces at ih ⊢
      by_cases hs : isSpace c = true
      · rw [List.dropWhile_cons_of_pos hs, List.dropWhile_cons_of_pos hs, ih]
      · rw [List.dropWhile_cons_of_neg hs, List.dropWhile_cons_of_neg hs, joined_cons hc]

/-- the second text reads like the first one without line ends -/
def Joins (l l' : List UInt8) : Prop := skipSpaces l' = skipSpaces (joined l)

theorem joins_refl (l : List UInt8) : Joins l (joined l) := rfl

theorem skipSpaces_head {l m : List UInt8} {c : UInt8} (h : skipSpaces l = c :: m) : c ≠ 0x0a := by
  rintro rfl
  have hne : skipSpaces l ≠ [] := by rw [h]; exact List.cons_ne_nil _ _
  have hs := List.head_dropWhile_not isSpace hne
  have hh : (skipSpaces l).head hne = 0x0a := by simp only [h, List.head_cons]
  exact absurd (hs.symm.trans (congrArg isSpace hh)) (by decide)

/-! ## What joins -/

def isBlank (c : UInt8) : Bool := c = 0x20 || c = 0x09

/-- a comment of the text is one of the joined text, and ends where it did: no star and slash come
together, and a line comment has its end in a carriage return (or nothing but blanks up to one) -/
def commentJoins (type_ : TokenType) (body r : List UInt8) : Bool :=
  match body with
  | [] => true
  | c :: body =>
    if c = 0x2a then readCStyleComment (joined body) = (decide (type_ = .tokenComment), [])
    else if c = 0x2f then
      body.getLast? ≠ some 0x0a ∨ ((joined r).dropWhile isBlank).headD 0x0d = 0x0d
    else c ≠ 0x0a

/-- the same for any token: a string has no line end, a number is not gone on with, and a word
that was broken off is not made whole -/
def Lead.joins : Lead → TokenType → List UInt8 → List UInt8 → Bool
  | .sign _, _, _, _ => true
  | .string, _, body, _ => 0x0a ∉ body
  | .comment, type_, body, r => commentJoins type_ body r
  | .number, _, _, r => !isNumeric ((joined r).headD 0)
  | .word _ pattern, type_, _, r => type_ ≠ .tokenError ∨ (joined r).take pattern.length ≠ pattern
  | .other, _, _, _ => true

/-- **The next token joins.** -/
def joinsAt (l : List UInt8) : Bool :=
  let (token, r) := readToken l
  (lead (token.text.headD 0)).joins token.type_ (token.text.drop 1) r

/-! ## Parts of tokens -/

theorem string_joined {m body : List UInt8} (hm : m = body ++ (readString 0 m).2) (h : 0x0a ∉ body) :
    readString 0 (joined m) = ((readString 0 m).1, joined (readString 0 m).2) := by
  cases hok : (readString 0 m).1 with
  | true =>
    obtain ⟨b, hb, hx⟩ := readString_local (c := 0) (by decide) (Prod.ext hok rfl)
    have hbody : b = body := List.append_cancel_right (hb.symm.trans hm)
    subst hbody
    rw [hb, joined_append, joined_eq_self h, hx, ← hb]
  | false =>
    have hr := readString_open 0 m hok
    rw [hr, List.append_nil] at hm
    rw [hr, joined_eq_self (hm ▸ h)]
    exact Prod.ext hok hr

theorem word_joined {pattern m : List UInt8} (hp : 0x0a ∉ pattern)
    (h : (matchPattern pattern m).1 = true ∨ (joined m).take pattern.length ≠ pattern) :
    matchPattern pattern (joined m) = ((matchPattern pattern m).1, joined (matchPattern pattern m).2) := by
  unfold matchPattern at h ⊢
  by_cases hm : m.take pattern.length = pattern
  · have hj : joined m = pattern ++ joined (m.drop pattern.length) := by
      conv_lhs => rw [← List.take_append_drop pattern.length m, hm]
      rw [joined_append, joined_eq_self hp]
    rw [if_pos hm, hj, if_pos (List.take_left), List.drop_left]
  · rw [if_neg hm] at h ⊢
    rw [if_neg (h.resolve_left Bool.false_ne_true)]

theorem numeric_ne {c : UInt8} (h : isNumeric c = true) : c ≠ 0x0a := by
  rintro rfl
  cases h

theorem readNumber_joined {m : List UInt8} (h : isNumeric ((joined (readNumber m)).headD 0) = false) :
    readNumber (joined m) = joined (readNumber m) := by
  induction m with
  | nil => rfl
  | cons c m ih =>
    unfold readNumber at ih h ⊢
    by_cases hc : isNumeric c = true
    · rw [List.dropWhile_cons_of_pos hc] at h ⊢
      rw [joined_cons (numeric_ne hc), List.dropWhile_cons_of_pos hc]
      exact ih h
    · rw [List.dropWhile_cons_of_neg hc] at h ⊢
      cases hj : joined (c :: m) with
      | nil => rfl
      | cons d l =>
        rw [hj] at h
        exact List.dropWhile_cons_of_neg (by rw [show isNumeric d = false from h]; decide)

theorem number_body {m body : List UInt8} (hm : m = body ++ readNumber m) : 0x0a ∉ body := by
  have hbody : body = m.takeWhile isNumeric :=
    List.append_cancel_right (hm.symm.trans List.takeWhile_append_dropWhile.symm)
  intro h
  rw [hbody] at h
  exact numeric_ne (List.mem_takeWhile_imp h) rfl

/-- blanks up to a carriage return, or up to the end of the text, are nothing to lose -/
theorem skipSpaces_blank {m : List UInt8}
    (h : (m.dropWhile isBlank).headD 0x0d = 0x0d) :
    skipSpaces (readCppStyleComment m) = skipSpaces m := by
  induction m with
  | nil => rfl
  | cons c m ih =>
    by_cases hc : isBlank c = true
    · rw [List.dropWhile_cons_of_pos hc] at h
      have hcases : c = 0x20 ∨ c = 0x09 := by simpa [isBlank] using hc
      rcases hcases with rfl | rfl
      · exact ih h
      · exact ih h
    · rw [List.dropWhile_cons_of_neg hc] at h
      obtain rfl : c = 0x0d := h
      rfl

theorem line_cases {b body : List UInt8} (hb : b = body ++ readCppStyleComment b) :
    (0x0a ∉ b ∧ readCppStyleComment b = []) ∨ ∃ b0 e, body = b0 ++ [e] ∧ (e = 0x0d ∨ e = 0x0a) ∧
      readCppStyleComment (joined b) = readCppStyleComment (joined (e :: readCppStyleComment b)) := by
  rcases readCppStyleComment_cases b with ⟨_, hn, he⟩ | ⟨b0, e, he, hr0, hn0, hend⟩
  · exact Or.inl ⟨hn, he⟩
  · refine Or.inr ⟨b0, e, ?_, hend, ?_⟩
    · exact List.append_cancel_right (hb.symm.trans (he.trans (List.append_cons b0 e _)))
    · conv_lhs => rw [he, joined_append, joined_eq_self hn0, readCppStyleComment_append hr0 hn0]

theorem line_cut {b body : List UInt8} (hb : b = body ++ readCppStyleComment b)
    (h : body.getLast? = some 0x0a) :
    readCppStyleComment (joined b) = readCppStyleComment (joined (readCppStyleComment b)) := by
  rcases line_cases hb with ⟨hn, _⟩ | ⟨b0, e, hbody, _, hj⟩
  · exact absurd (hb ▸ List.mem_append_left _ (List.mem_of_getLast? h)) hn
  · rw [hbody, List.getLast?_concat] at h
    obtain rfl : e = 0x0a := Option.some.inj h
    exact hj

theorem line_joined {b body : List UInt8} (hb : b = body ++ readCppStyleComment b)
    (h : body.getLast? ≠ some 0x0a ∨
      ((joined (readCppStyleComment b)).dropWhile isBlank).headD 0x0d = 0x0d) :
    skipSpaces (readCppStyleComment (joined b)) = skipSpaces (joined (readCppStyleComment b)) := by
  by_cases hlast : body.getLast? = some 0x0a
  · rw [line_cut hb hlast]
    exact skipSpaces_blank (h.resolve_left fun hne => hne hlast)
  · rcases line_cases hb with ⟨hn, he⟩ | ⟨b0, e, hbody, rfl | rfl, hj⟩
    · rw [joined_eq_self hn, he]
      rfl
    · rw [hj]
      rfl
    · exact absurd (hbody ▸ List.getLast?_concat) hlast

theorem block_joined {b body : List UInt8} (hb : b = body ++ (readCStyleComment b).2)
    (h : readCStyleComment (joined body)
      = (decide ((typed .tokenComment (readCStyleComment b)).1 = .tokenComment), [])) :
    (readCStyleComment (joined b)).1 = (readCStyleComment b).1 ∧
      skipSpaces (readCStyleComment (joined b)).2 = skipSpaces (joined (readCStyleComment b).2) := by
  have hj : joined b = joined body ++ joined (readCStyleComment b).2 := by
    conv_lhs => rw [hb, joined_append]
  cases hok : (readCStyleComment b).1 with
  | true =>
    have ht : (typed .tokenComment (readCStyleComment b)).1 = .tokenComment := if_pos hok
    rw [decide_eq_true ht] at h
    rw [hj, (readCStyleComment_local h).2]
    exact ⟨rfl, rfl⟩
  | false =>
    have ht : (typed .tokenComment (readCStyleComment b)).1 = .tokenError := if_neg (by rw [hok]; decide)
    rw [ht] at h
    rw [hj, readCStyleComment_open b hok]
    show (readCStyleComment (joined body ++ [])).1 = false ∧
      skipSpaces (readCStyleComment (joined body ++ [])).2 = []
    rw [List.append_nil, h]
    exact ⟨rfl, rfl⟩

theorem comment_joined {m body : List UInt8} (hm : m = body ++ (readComment m).2)
    (h : commentJoins (typed .tokenComment (readComment m)).1 body (readComment m).2 = true) :
    (readComment (joined m)).1 = (readComment m).1 ∧
      skipSpaces (readComment (joined m)).2 = skipSpaces (joined (readComment m).2) := by
  cases m with
  | nil => exact ⟨rfl, rfl⟩
  | cons d b =>
    obtain ⟨body, rfl, hb⟩ := comment_body hm
    unfold commentJoins at h
    dsimp only at h
    by_cases hstar : d = 0x2a
    · subst hstar
      rw [if_pos rfl] at h
      exact block_joined hb (of_decide_eq_true h)
    · rw [if_neg hstar] at h
      by_cases hslash : d = 0x2f
      · subst hslash
        rw [if_pos rfl] at h
        exact ⟨rfl, line_joined hb (of_decide_eq_true h)⟩
      · rw [if_neg hslash] at h
        rw [joined_cons (of_decide_eq_true h)]
        unfold readComment
        dsimp only [getNextChar]
        rw [if_neg hstar, if_neg hslash, if_neg hstar, if_neg hslash]
        exact ⟨rfl, rfl⟩

/-! ## Tokens of the joined text -/

def TokenType.decoded (type_ : TokenType) : Bool := type_ = .tokenString ∨ type_ = .tokenNumber

/-- words and signs have no line end, and nothing to decode -/
def Lead.sound : Lead → Bool
  | .sign type_ => ¬ type_.decoded
  | .word type_ pattern => ¬ type_.decoded ∧ 0x0a ∉ pattern
  | _ => true

theorem lead_sound (c : UInt8) : (lead c).sound = true := by
  rcases lead_mem c with h | h | h
  · rw [h]; rfl
  · rw [h]; rfl
  · exact (show ∀ e ∈ leads, e.2.sound = true by decide) _ h

theorem Lead.decoded_type {k : Lead} {m : List UInt8} (h : (k.read m).1.decoded = true) :
    k.type_.decoded = true := by
  rcases k.read_type m with e | e
  · rwa [e] at h
  · rw [e] at h
    exact absurd h (by decide)

theorem Lead.read_joined {k : Lead} {m body : List UInt8} (hk : k.sound = true)
    (hm : m = body ++ (k.read m).2) (h : k.joins (k.read m).1 body (k.read m).2 = true) :
    (k.read (joined m)).1 = (k.read m).1 ∧
      skipSpaces (k.read (joined m)).2 = skipSpaces (joined (k.read m).2) ∧
      ((k.read m).1.decoded = true → (k.read (joined m)).2 = joined (k.read m).2 ∧ 0x0a ∉ body) := by
  cases k with
  | sign type_ => exact ⟨rfl, rfl, fun hd => absurd hd (of_decide_eq_true hk)⟩
  | other => exact ⟨rfl, rfl, fun hd => absurd (Lead.decoded_type hd) (by decide)⟩
  | string =>
    have hb : 0x0a ∉ body := of_decide_eq_true h
    have e := string_joined hm hb
    exact ⟨typed_congr (by rw [e]), congrArg (fun r => skipSpaces r.2) e,
      fun _ => ⟨congrArg Prod.snd e, hb⟩⟩
  | number =>
    have e := readNumber_joined (m := m) ((Bool.not_eq_true' _).mp h)
    exact ⟨rfl, congrArg skipSpaces e, fun _ => ⟨e, number_body hm⟩⟩
  | word type_ pattern =>
    obtain ⟨hd, hp⟩ := of_decide_eq_true hk
    have hor : (matchPattern pattern m).1 = true ∨ (joined m).take pattern.length ≠ pattern := by
      by_cases hm : m.take pattern.length = pattern
      · exact Or.inl (by unfold matchPattern; rw [if_pos hm])
      · have he : matchPattern pattern m = (false, m) := if_neg hm
        have h' := of_decide_eq_true h
        dsimp only [Lead.read] at h'
        rw [he] at h'
        exact Or.inr (h'.resolve_left fun hne => hne rfl)
    have e := word_joined hp hor
    exact ⟨typed_congr (by rw [e]), congrArg (fun r => skipSpaces r.2) e,
      fun hd' => absurd (Lead.decoded_type hd') hd⟩
  | comment =>
    obtain ⟨h1, h2⟩ := comment_joined hm h
    exact ⟨typed_congr h1, h2, fun hd => absurd (Lead.decoded_type hd) (by decide)⟩

structure Same (token token' : Token) : Prop where
  type_ : token'.type_ = token.type_
  text : token.type_.decoded = true → token'.text = token.text

/-- **The joined text has the same token, and then the joined rest.** -/
theorem readToken_joined {l l' : List UInt8} (hl : Joins l l') (h : joinsAt l = true) :
    Same (readToken l).1 (readToken l').1 ∧ Joins (readToken l).2 (readToken l').2 := by
  have hl' : skipSpaces l' = joined (skipSpaces l) := hl.trans (skipSpaces_joined l)
  cases hs : skipSpaces l with
  | nil =>
    rw [hs] at hl'
    rw [readToken_congr (show skipSpaces l = skipSpaces [] from hs),
      readToken_congr (show skipSpaces l' = skipSpaces [] from hl')]
    exact ⟨⟨rfl, fun _ => rfl⟩, rfl⟩
  | cons c m =>
    rw [hs, joined_cons (skipSpaces_head hs)] at hl'
    obtain ⟨body, htok, hm⟩ := readToken_eq hs
    obtain ⟨body', htok', hm'⟩ := readToken_eq hl'
    unfold joinsAt at h
    rw [htok] at h
    obtain ⟨h1, h2, h3⟩ := Lead.read_joined (lead_sound c) hm h
    rw [htok, htok']
    refine ⟨⟨h1, fun hd => ?_⟩, h2⟩
    obtain ⟨hr, hn⟩ := h3 hd
    show c :: body' = c :: body
    rw [hr] at hm'
    have e : joined m = body ++ joined ((lead c).read m).2 := by
      conv_lhs => rw [hm, joined_append, joined_eq_self hn]
    rw [List.append_cancel_right (hm'.symm.trans e)]

/-! ## Nothing else joins -/

/-- a block comment that ended earlier would leave text behind -/
theorem block_of_same {b body : List UInt8} (hb : b = body ++ (readCStyleComment b).2)
    (hok : (readCStyleComment b).1 = true)
    (hs : skipSpaces (readCStyleComment (joined b)).2 = skipSpaces (joined (readCStyleComment b).2)) :
    readCStyleComment (joined body) = (true, []) := by
  obtain ⟨⟨u, hu⟩, _⟩ := readCStyleComment_local (l := b) (Prod.ext hok rfl)
  have hbody : body = u ++ [0x2a, 0x2f] := by
    refine List.append_cancel_right (hb.symm.trans (hu.trans ?_))
    rw [List.append_assoc]
    rfl
  have hj : joined body = joined u ++ [0x2a, 0x2f] := by rw [hbody, joined_append]; rfl
  obtain ⟨y, hy⟩ : ∃ y, readCStyleComment (joined body) = (true, y) :=
    ⟨_, Prod.ext (by rw [hj]; exact readCStyleComment_closed _ _) rfl⟩
  obtain ⟨⟨w, hw⟩, hx⟩ := readCStyleComment_local hy
  have hjb : joined b = joined body ++ joined (readCStyleComment b).2 := by
    conv_lhs => rw [hb, joined_append]
  rw [hjb, hx] at hs
  rcases List.eq_nil_or_concat y with rfl | ⟨y', d, rfl⟩
  · exact hy
  · have hd : d = 0x2f := by
      have e : joined u ++ [0x2a] ++ [0x2f] = w ++ 0x2a :: 0x2f :: y' ++ [d] := by
        simpa using hj.symm.trans hw
      exact (List.cons.inj (List.append_inj' e rfl).2).1.symm
    rw [hd, List.concat_eq_append, List.append_assoc, List.singleton_append] at hs
    have h1 := length_skipSpaces_append (u := y') (show isSpace 0x2f = false by decide)
      (joined (readCStyleComment b).2)
    have h2 := (skipSpaces_suffix (joined (readCStyleComment b).2)).length_le
    rw [show skipSpaces _ = _ from hs] at h1
    omega

theorem blank_of_same {m : List UInt8} (hn : 0x0a ∉ m)
    (h : skipSpaces (readCppStyleComment m) = skipSpaces m) :
    (m.dropWhile isBlank).headD 0x0d = 0x0d := by
  induction m with
  | nil => rfl
  | cons c m ih =>
    rw [List.mem_cons, not_or] at hn
    by_cases hc : isBlank c = true
    · rw [List.dropWhile_cons_of_pos hc]
      have hcases : c = 0x20 ∨ c = 0x09 := by simpa [isBlank] using hc
      rcases hcases with rfl | rfl
      · exact ih hn.2 h
      · exact ih hn.2 h
    · rw [List.dropWhile_cons_of_neg hc, List.headD_cons]
      by_contra hcr
      have hspace : isSpace c = false := by
        have hc' : ¬ (c = 0x20 ∨ c = 0x09) := fun e => hc (by simpa [isBlank] using e)
        have hn' : c ≠ 0x0a := fun e => hn.1 e.symm
        simp only [isSpace, Bool.or_eq_false_iff, decide_eq_false_iff_not]
        exact ⟨⟨⟨fun e => hc' (Or.inl e), fun e => hc' (Or.inr e)⟩, hcr⟩, hn'⟩
      have h1 := length_skipSpaces_append (u := []) hspace m
      rw [List.nil_append, ← h, readCppStyleComment, if_neg (by
        rintro (e | e)
        · exact hcr e
        · exact hn.1 e.symm)] at h1
      have h2 := ((skipSpaces_suffix _).trans (readCppStyleComment_suffix m)).length_le
      omega

theorem line_of_same {b body : List UInt8} (hb : b = body ++ readCppStyleComment b)
    (hs : skipSpaces (readCppStyleComment (joined b)) = skipSpaces (joined (readCppStyleComment b))) :
    body.getLast? ≠ some 0x0a ∨
      ((joined (readCppStyleComment b)).dropWhile isBlank).headD 0x0d = 0x0d := by
  by_cases hlast : body.getLast? = some 0x0a
  · refine Or.inr (blank_of_same (not_mem_joined _) ?_)
    rw [← hs, line_cut hb hlast]
  · exact Or.inl hlast

theorem comment_of_same {m body : List UInt8} (hm : m = body ++ (readComment m).2)
    (hok : (readComment m).1 = true)
    (hs : skipSpaces (readComment (joined m)).2 = skipSpaces (joined (readComment m).2)) :
    commentJoins .tokenComment body (readComment m).2 = true := by
  cases m with
  | nil => cases hok
  | cons d b =>
    obtain ⟨body, rfl, hb⟩ := comment_body hm
    unfold commentJoins
    dsimp only
    by_cases hstar : d = 0x2a
    · subst hstar
      rw [if_pos rfl]
      exact decide_eq_true (block_of_same hb hok hs)
    · rw [if_neg hstar]
      by_cases hslash : d = 0x2f
      · subst hslash
        rw [if_pos rfl]
        exact decide_eq_true (line_of_same hb hs)
      · unfold readComment at hok
        dsimp only [getNextChar] at hok
        rw [if_neg hstar, if_neg hslash] at hok
        cases hok

theorem joinsAt_of_same {l l' : List UInt8} (hl : Joins l l')
    (herr : (readToken l).1.type_ ≠ .tokenError) (hsame : Same (readToken l).1 (readToken l').1)
    (hrest : Joins (readToken l).2 (readToken l').2) : joinsAt l = true := by
  have hl' : skipSpaces l' = joined (skipSpaces l) := hl.trans (skipSpaces_joined l)
  cases hs : skipSpaces l with
  | nil =>
    unfold joinsAt
    rw [readToken_congr (show skipSpaces l = skipSpaces [] from hs)]
    rfl
  | cons c m =>
    rw [hs, joined_cons (skipSpaces_head hs)] at hl'
    obtain ⟨body, htok, hm⟩ := readToken_eq hs
    obtain ⟨body', htok', hm'⟩ := readToken_eq hl'
    rw [htok] at herr hsame hrest
    rw [htok'] at hsame hrest
    unfold joinsAt
    rw [htok]
    show (lead c).joins _ body _ = true
    cases hk : lead c with
    | sign type_ => rfl
    | other => rfl
    | string =>
      rw [hk] at herr hsame hm'
      have hbody : c :: body' = c :: body := hsame.text (decide_eq_true (Or.inl (if_pos (typed_ok herr))))
      rw [(List.cons.inj hbody).2] at hm'
      exact decide_eq_true fun h => not_mem_joined m (hm' ▸ List.mem_append_left _ h)
    | number =>
      rw [hk] at hsame hm' hm
      have hbody : c :: body' = c :: body := hsame.text (decide_eq_true (Or.inr rfl))
      have e : joined m = body ++ joined (readNumber m) := by
        conv_lhs => rw [hm, joined_append, joined_eq_self (number_body hm)]
        rfl
      rw [(List.cons.inj hbody).2] at hm'
      have hr : readNumber (joined m) = joined (readNumber m) :=
        List.append_cancel_left (hm'.symm.trans e)
      show (!isNumeric ((joined (readNumber m)).headD 0)) = true
      rw [← hr, numeric_headD]
      rfl
    | word type_ pattern =>
      rw [hk] at herr
      exact decide_eq_true (Or.inl herr)
    | comment =>
      rw [hk] at herr hm hrest
      have hok : (readComment m).1 = true := typed_ok herr
      have ht : (Lead.comment.read m).1 = .tokenComment := if_pos hok
      rw [ht]
      exact comment_of_same hm hok hrest

/-- **The token of the joined text is the same exactly if it joins.** -/
theorem joinsAt_iff {l l' : List UInt8} (hl : Joins l l')
    (herr : (readToken l).1.type_ ≠ .tokenError) :
    joinsAt l = true ↔
      Same (readToken l).1 (readToken l').1 ∧ Joins (readToken l).2 (readToken l').2 :=
  ⟨readToken_joined hl, fun h => joinsAt_of_same hl herr h.1 h.2⟩

/-! ## Line comments -/

def lineCommentAt (l : List UInt8) : Bool :=
  (readToken l).1.type_ = .tokenComment ∧ (readToken l).1.text.getD 1 0 = 0x2f

/-- it ends with its line, and no carriage return comes behind it -/
def cutsAt (l : List UInt8) : Bool :=
  lineCommentAt l = true ∧ (readToken l).1.text.getLast? = some 0x0a ∧ 0x0d ∉ (readToken l).2

theorem getLast?_comment (c : UInt8) (body : List UInt8) :
    (c :: 0x2f :: body).getLast? = some 0x0a ↔ body.getLast? = some 0x0a := by
  cases body with
  | nil => exact ⟨fun h => absurd (show (0x2f : UInt8) = 0x0a from Option.some.inj h) (by decide),
      fun h => by cases h⟩
  | cons d body => rw [List.getLast?_cons_cons, List.getLast?_cons_cons]

theorem lineComment_cases {l : List UInt8} (h : lineCommentAt l = true) :
    ∃ c b body, skipSpaces l = c :: 0x2f :: b ∧ lead c = .comment ∧ b = body ++ readCppStyleComment b ∧
      readToken l = (⟨.tokenComment, c :: 0x2f :: body⟩, readCppStyleComment b) := by
  obtain ⟨htype, hslash⟩ := of_decide_eq_true h
  cases hs : skipSpaces l with
  | nil =>
    rw [readToken_congr (show skipSpaces l = skipSpaces [] from hs)] at htype
    cases htype
  | cons c m =>
    obtain ⟨body, htok, hm⟩ := readToken_eq hs
    rw [htok] at htype hslash
    have hc := lead_of_comment htype
    rw [hc] at hm htok
    cases body with
    | nil => exact absurd (show (0 : UInt8) = 0x2f from hslash) (by decide)
    | cons d body =>
      obtain rfl : d = 0x2f := hslash
      cases m with
      | nil => cases hm
      | cons d b =>
        obtain ⟨rfl, hb⟩ := List.cons.inj hm
        exact ⟨c, b, body, rfl, hc, hb, htok⟩

/-- **A line comment that is cut takes the rest of the joined text.** -/
theorem readToken_cut {l l' : List UInt8} (hl : Joins l l') (h : cutsAt l = true) :
    (readToken l').1.type_ = .tokenComment ∧ (readToken l').2 = [] := by
  obtain ⟨hline, hn, hr⟩ := of_decide_eq_true h
  obtain ⟨c, b, body, hs, hc, hb, htok⟩ := lineComment_cases hline
  rw [htok] at hn hr
  have hl' : skipSpaces l' = c :: 0x2f :: joined b := by
    rw [hl.trans (skipSpaces_joined l), hs, joined_cons (skipSpaces_head hs), joined_cons (by decide)]
  obtain ⟨body', htok', _⟩ := readToken_eq hl'
  rw [htok', hc]
  refine ⟨rfl, ?_⟩
  show readCppStyleComment (joined b) = []
  rw [line_cut hb ((getLast?_comment c body).mp hn)]
  exact readCppStyleComment_nil (fun hm => hr (List.mem_filter.mp hm).1) (not_mem_joined _)

theorem cutsAt_of_not_joins {l : List UInt8} (h : lineCommentAt l = true) (hj : joinsAt l ≠ true)
    (hr : 0x0d ∉ l) : cutsAt l = true := by
  obtain ⟨c, b, body, hs, hc, hb, htok⟩ := lineComment_cases h
  refine decide_eq_true ⟨h, ?_, fun hm => hr ((readToken_suffix l).subset hm)⟩
  unfold joinsAt at hj
  rw [htok] at hj ⊢
  have hlast : body.getLast? = some 0x0a := by
    by_contra hne
    refine hj ?_
    show (lead c).joins _ _ _ = true
    rw [hc]
    exact decide_eq_true (Or.inl hne)
  exact (getLast?_comment c body).mpr hlast

end JMEngine.Json
