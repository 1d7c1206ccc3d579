import JMEngine.Json.Load
import JMEngine.Json.Written

/-!
# The documents of the styled writers

The styled writers keep a document, an indentation and a list of child values while they walk over a
value. Everything they do to the document is to append: blanks, comments and tokens.

* `Puts`                        what a writer has appended between two states;
* `writeValue_array`            the three ways to write an array with elements;
* `Commented.Fits`              comments that are gaps where the style puts them;
* `StyledWriter.parse_styledWrite` **every document of a styled writer is read as the value `reread`**;
* `StyledWriter.simple_write`   `writeSimple` writes what the fast writer does.
-/

namespace JMEngine.Json
open DoubleByte (cstr)

namespace StyledWriter

/-! ## What is appended -/

/-- `w'` is `w` with the text behind its document; the child values are scratch -/
def Puts (w w' : StyledWriter) (text : List UInt8) : Prop :=
  ∃ childValues, w' = ⟨w.document_ ++ text, childValues, w.addChildValues_, w.indentString_⟩

theorem Puts.trans {w w' w'' : StyledWriter} {a b : List UInt8} (h : Puts w w' a) (h' : Puts w' w'' b) :
    Puts w w'' (a ++ b) := by
  obtain ⟨_, rfl⟩ := h
  obtain ⟨childValues, rfl⟩ := h'
  exact ⟨childValues, by rw [List.append_assoc]⟩

theorem puts_out (w : StyledWriter) (text : List UInt8) : Puts w (w.out text) text :=
  ⟨w.childValues_, rfl⟩

theorem puts_childValues (w : StyledWriter) (childValues : List (List UInt8)) :
    Puts w { w with childValues_ := childValues } [] :=
  ⟨childValues, by rw [List.append_nil]⟩

theorem out_out (w : StyledWriter) (a b : List UInt8) : (w.out a).out b = w.out (a ++ b) := by
  unfold out
  rw [List.append_assoc]

theorem out_nil (w : StyledWriter) : w.out [] = w := by
  unfold out
  rw [List.append_nil]

/-- a writer between two values: it writes to the document, and its lines begin with blanks -/
structure Ready (w : StyledWriter) : Prop where
  direct : w.addChildValues_ = false
  blanks : Blanks w.indentString_

theorem Puts.ready {w w' : StyledWriter} {text : List UInt8} (h : Puts w w' text) (hw : Ready w) :
    Ready w' := by
  obtain ⟨_, rfl⟩ := h
  exact ⟨hw.direct, hw.blanks⟩

theorem Puts.direct {w w' : StyledWriter} {text : List UInt8} (h : Puts w w' text)
    (hw : w.addChildValues_ = false) : w'.addChildValues_ = false := by
  obtain ⟨_, rfl⟩ := h
  exact hw

theorem Ready.indent {w : StyledWriter} (hw : Ready w) {style : Style} (hs : Blanks style.indentation) :
    Ready (indent style w) :=
  ⟨hw.direct, gaps_blanks.append hw.blanks hs⟩

theorem Puts.unindent {w w' : StyledWriter} {style : Style} {text : List UInt8}
    (h : Puts (indent style w) w' text) : Puts w (unindent style w') text := by
  obtain ⟨childValues, rfl⟩ := h
  refine ⟨childValues, ?_⟩
  have : (w.indentString_ ++ style.indentation).take
      ((w.indentString_ ++ style.indentation).length - style.indentation.length) = w.indentString_ := by
    rw [List.length_append, Nat.add_sub_cancel]
    exact List.take_left
  exact congrArg (StyledWriter.mk _ _ _) this

theorem writeIndent_eq (style : Style) {w : StyledWriter} (hw : Blanks w.indentString_) :
    ∃ blanks, Blanks blanks ∧ w.writeIndent style = w.out blanks := by
  have hn : Blanks (0x0a :: w.indentString_) :=
    gaps_blanks.append (show Blanks [0x0a] from blanks_of_all rfl) hw
  cases style with
  | styled =>
    unfold writeIndent
    dsimp only
    split
    · exact ⟨_, hw, rfl⟩
    · split
      · exact ⟨[], gaps_blanks.nil, (out_nil w).symm⟩
      · split
        · exact ⟨_, hn, out_out w [0x0a] w.indentString_⟩
        · exact ⟨_, hw, rfl⟩
  | simple => exact ⟨[], gaps_blanks.nil, (out_nil w).symm⟩
  | stream _ => exact ⟨_, hn, rfl⟩

@[simp] theorem childValues_writeWithIndent (style : Style) (w : StyledWriter) (value : List UInt8) :
    (w.writeWithIndent style value).childValues_ = w.childValues_ := by
  cases style with
  | styled =>
    unfold writeWithIndent writeIndent out
    dsimp only
    repeat' split
    all_goals rfl
  | simple => rfl
  | stream _ => rfl

@[simp] theorem childValues_indent (style : Style) (w : StyledWriter) :
    (indent style w).childValues_ = w.childValues_ := rfl

theorem writeWithIndent_eq (style : Style) {w : StyledWriter} (hw : Blanks w.indentString_)
    (value : List UInt8) :
    ∃ blanks, Blanks blanks ∧ w.writeWithIndent style value = w.out (blanks ++ value) := by
  obtain ⟨blanks, hb, he⟩ := writeIndent_eq style hw
  refine ⟨blanks, hb, ?_⟩
  unfold writeWithIndent
  rw [he, out_out]

/-! ## Comments -/

section
variable (G : List UInt8 → Prop) (style : Style)

/-- the comments of one value are gaps, with the line end that the style puts behind them -/
structure Fit (comments : Comments) : Prop where
  before : ∀ text, comments.commentBefore = some text → G (normalizeEOL text ++ style.newline)
  sameLine : ∀ text, comments.commentAfterOnSameLine = some text → G (normalizeEOL text)
  after : ∀ text, comments.commentAfter = some text → G (normalizeEOL text ++ style.newline)

mutual

def Fits {Double : Type} : Commented Double → Prop
  | .scalar comments _ => Fit G style comments
  | .arrayValue comments values => Fit G style comments ∧ FitsList values
  | .objectValue comments members => Fit G style comments ∧ FitsMembers members

def FitsList {Double : Type} : List (Commented Double) → Prop
  | [] => True
  | value :: values => Fits value ∧ FitsList values

def FitsMembers {Double : Type} : List (List UInt8 × Commented Double) → Prop
  | [] => True
  | (_, value) :: members => Fits value ∧ FitsMembers members

end

end

section
variable {Double : Type} {lib : Library Double} {G : List UInt8 → Prop} {style : Style}

theorem Fits.fit {value : Commented Double} (h : Fits G style value) : Fit G style value.comments := by
  cases value with
  | scalar comments v => exact h
  | arrayValue comments values => exact h.1
  | objectValue comments members => exact h.1

theorem blanks_newline (style : Style) : Blanks style.newline := by
  cases style with
  | simple => exact gaps_blanks.nil
  | _ => exact blanks_of_all rfl

theorem writeCommentBeforeValue_eq (hG : Gaps G) {comments : Comments} (h : Fit G style comments)
    (w : StyledWriter) : ∃ gap, G gap ∧ writeCommentBeforeValue style comments w = w.out gap := by
  unfold writeCommentBeforeValue
  split
  · exact ⟨[], hG.nil, (out_nil w).symm⟩
  · next text ht => exact ⟨_, h.before text ht, rfl⟩

theorem writeCommentAfterValueOnSameLine_eq (hG : Gaps G) {comments : Comments}
    (h : Fit G style comments) (w : StyledWriter) :
    ∃ gap, G gap ∧ writeCommentAfterValueOnSameLine style comments w = w.out gap := by
  have hafter : ∀ text, comments.commentAfter = some text →
      G (style.newline ++ (normalizeEOL text ++ style.newline)) :=
    fun text ht => hG.append (hG.blanks (blanks_newline style)) (h.after text ht)
  have hline : ∀ text, comments.commentAfterOnSameLine = some text → G (0x20 :: normalizeEOL text) :=
    fun text ht => hG.append (hG.blanks (show Blanks [0x20] from blanks_of_all rfl))
      (h.sameLine text ht)
  unfold writeCommentAfterValueOnSameLine
  dsimp only
  split
  · split
    · exact ⟨[], hG.nil, (out_nil w).symm⟩
    · next text ht => exact ⟨_, hline text ht, rfl⟩
  · next text ht =>
    split
    · exact ⟨_, hafter text ht, rfl⟩
    · next line hl => exact ⟨_, hG.append (hline line hl) (hafter text ht), out_out w _ _⟩

/-! ## Arrays on one line -/

def flatText (lib : Library Double) (value : Commented Double) : List UInt8 :=
  FastWriter.valueText lib quotedString false value.value

theorem quote_eq (style : Style) : style.quote = quotedString := by
  cases style <;> rfl

theorem writeValue_flat (style : Style) {value : Commented Double} (h : value.hasElements = false)
    (w : StyledWriter) : writeValue lib style value w = w.pushValue (flatText lib value) := by
  cases value with
  | scalar comments v =>
    rw [writeValue, quote_eq]
    cases v <;> rfl
  | arrayValue comments values =>
    cases values with
    | nil => rfl
    | cons v values => cases h
  | objectValue comments members =>
    cases members with
    | nil => rfl
    | cons m members => cases h

theorem pushValue_add {w : StyledWriter} (h : w.addChildValues_ = true) (text : List UInt8) :
    w.pushValue text = { w with childValues_ := w.childValues_ ++ [text] } := by
  unfold pushValue
  rw [h]
  rfl

theorem pushValue_direct {w : StyledWriter} (h : w.addChildValues_ = false) (text : List UInt8) :
    w.pushValue text = w.out text := by
  unfold pushValue
  rw [h]
  rfl

theorem measureElements_flat (lib : Library Double) (style : Style) {values : List (Commented Double)}
    (hv : ∀ v ∈ values, v.hasElements = false) (index lineLength : Nat) {w : StyledWriter}
    (h : w.addChildValues_ = true) :
    (measureElements lib style values index lineLength w).2 =
      { w with childValues_ := w.childValues_ ++ values.map (flatText lib) } := by
  induction values generalizing index lineLength w with
  | nil => rw [measureElements, List.map_nil, List.append_nil]
  | cons value values ih =>
    rw [measureElements, writeValue_flat style (hv value List.mem_cons_self), pushValue_add h]
    have hr := ih (fun v hm => hv v (List.mem_cons_of_mem value hm)) (index + 1)
      (lineLength + ((w.childValues_ ++ [flatText lib value]).getD index []).length)
      (show StyledWriter.addChildValues_ { w with childValues_ := w.childValues_ ++ [flatText lib value] }
        = true from h)
    rw [List.append_assoc, List.singleton_append] at hr
    exact hr

theorem writeValue_array (lib : Library Double) (style : Style) (comments : Comments) {values : List (Commented Double)}
    (hne : values ≠ []) {w : StyledWriter} (hw : w.addChildValues_ = false) :
    ∃ childValues, (childValues = [] ∨
        (∀ v ∈ values, v.hasElements = false) ∧ childValues = values.map (flatText lib)) ∧
      (writeValue lib style (.arrayValue comments values) w =
          (unindent style (writeElements lib style (!childValues.isEmpty) values 0
            (indent style (({ w with childValues_ := childValues }).writeWithIndent style [0x5b])))
          ).writeWithIndent style [0x5d] ∨
        childValues = values.map (flatText lib) ∧
          writeValue lib style (.arrayValue comments values) w =
            (writeLine style values.length 0
              (({ w with childValues_ := childValues }).out style.lineBegin)).out style.lineEnd) := by
  have he : ¬values.isEmpty = true := fun h => hne (List.isEmpty_iff.mp h)
  rw [writeValue, if_neg he]
  dsimp only
  by_cases hm : (decide (rightMargin_ ≤ values.length * 3) || values.any Commented.hasElements) = true
  · refine ⟨[], .inl rfl, .inl ?_⟩
    rw [if_pos hm, if_pos rfl, childValues_indent, childValues_writeWithIndent]
  · rw [if_neg hm]
    have hflat : ∀ v ∈ values, v.hasElements = false := by
      intro v hv
      rw [Bool.not_eq_true, Bool.or_eq_false_iff, List.any_eq_false] at hm
      exact Bool.eq_false_iff.mpr (hm.2 v hv)
    have hs := measureElements_flat lib style.measured hflat 0 (4 + (values.length - 1) * 2)
      (w := ⟨w.document_, [], true, w.indentString_⟩) rfl
    refine ⟨values.map (flatText lib), .inr ⟨hflat, rfl⟩, ?_⟩
    generalize measureElements lib style.measured values 0 (4 + (values.length - 1) * 2)
      ⟨w.document_, [], true, w.indentString_⟩ = m at hs ⊢
    obtain ⟨lineLength, w'⟩ := m
    dsimp only at hs ⊢
    rw [hs, hw]
    by_cases hl : rightMargin_ ≤ lineLength
    · left
      rw [decide_eq_true hl, if_pos rfl, childValues_indent, childValues_writeWithIndent]
      rfl
    · right
      rw [decide_eq_false hl]
      exact ⟨rfl, rfl⟩

theorem lineBegin_eq (style : Style) : ∃ blanks, Blanks blanks ∧ style.lineBegin = 0x5b :: blanks := by
  cases style with
  | simple => exact ⟨[], gaps_blanks.nil, rfl⟩
  | _ => exact ⟨[0x20], blanks_of_all rfl, rfl⟩

theorem lineSeparator_eq (style : Style) :
    ∃ blanks, Blanks blanks ∧ style.lineSeparator = 0x2c :: blanks := by
  cases style with
  | simple => exact ⟨[], gaps_blanks.nil, rfl⟩
  | _ => exact ⟨[0x20], blanks_of_all rfl, rfl⟩

theorem lineEnd_eq (style : Style) : ∃ blanks, Blanks blanks ∧ style.lineEnd = blanks ++ [0x5d] := by
  cases style with
  | simple => exact ⟨[], gaps_blanks.nil, rfl⟩
  | _ => exact ⟨[0x20], blanks_of_all rfl, rfl⟩

theorem colon_eq (style : Style) :
    ∃ before after, Blanks before ∧ Blanks after ∧ style.colon = before ++ 0x3a :: after := by
  have hb : Blanks [0x20] := blanks_of_all rfl
  cases style with
  | simple => exact ⟨[], [], gaps_blanks.nil, gaps_blanks.nil, rfl⟩
  | _ => exact ⟨[0x20], [0x20], hb, hb, rfl⟩

/-- the texts of a line, `first` or behind others -/
def lineText (style : Style) : Bool → List (List UInt8) → List UInt8
  | _, [] => []
  | first, text :: texts =>
    (if first then [] else style.lineSeparator) ++ (text ++ lineText style false texts)

theorem getD_of_drop {α : Type} {l : List α} {i : Nat} {a : α} {r : List α} (h : l.drop i = a :: r)
    (d : α) : l.getD i d = a := by
  rw [List.getD_eq_getElem?_getD, ← List.head?_drop, h]
  rfl

theorem drop_of_drop {α : Type} {l : List α} {i : Nat} {a : α} {r : List α} (h : l.drop i = a :: r) :
    l.drop (i + 1) = r := by
  rw [← List.drop_drop, h]
  rfl

theorem writeLine_eq (style : Style) (texts : List (List UInt8)) (index : Nat) (w : StyledWriter)
    (h : w.childValues_.drop index = texts) :
    writeLine style texts.length index w = w.out (lineText style (decide (index = 0)) texts) := by
  induction texts generalizing index w with
  | nil => exact (out_nil w).symm
  | cons text texts ih =>
    have hr := ih (index + 1)
      (w.out ((if index > 0 then style.lineSeparator else []) ++ w.childValues_.getD index []))
      (drop_of_drop h)
    rw [List.length_cons, writeLine, hr, out_out, getD_of_drop h, lineText]
    by_cases h0 : index = 0
    · rw [if_neg (by omega), if_pos (by simpa using h0)]
      rfl
    · rw [if_pos (by omega), if_neg (by simpa using h0), List.append_assoc]
      rfl

theorem lays_line (hG : Gaps G) (style : Style) {values : List (Commented Double)}
    (hs : SoundList lib (Commented.valueList values)) {value : Value Double} {text : List UInt8}
    (h : Lays lib.sscanf G value text) :
    LaysElements lib.sscanf G (value :: rereadList lib (Commented.valueList values))
      (text ++ (lineText style false (values.map (flatText lib)) ++ style.lineEnd)) := by
  induction values generalizing value text with
  | nil =>
    obtain ⟨blanks, hb, he⟩ := lineEnd_eq style
    rw [he]
    exact LaysElements.last h (hG.blanks hb)
  | cons next values ih =>
    obtain ⟨blanks, hb, he⟩ := lineSeparator_eq style
    have hn : Lays lib.sscanf G (reread lib next.value) (blanks ++ flatText lib next) :=
      (FastWriter.lays_valueText hG false next.value hs.1).gap hG (hG.blanks hb)
    have hr := LaysElements.cons h hG.nil (ih hs.2 hn)
    rw [List.map_cons, lineText, if_neg Bool.false_ne_true, he, Commented.valueList, rereadList]
    simpa only [List.append_assoc, List.cons_append, List.nil_append] using hr

/-! ## Documents -/

theorem puts_between {w : StyledWriter} (hw : Ready w) (hi : Blanks style.indentation)
    (opening closing : List UInt8) {body : StyledWriter → StyledWriter} {P : List UInt8 → Prop}
    (h : ∀ w', Ready w' → w'.childValues_ = w.childValues_ → ∃ text, Puts w' (body w') text ∧ P text) :
    ∃ before text after, Blanks before ∧ P text ∧ Blanks after ∧
      Puts w ((unindent style (body (indent style (w.writeWithIndent style opening)))).writeWithIndent
        style closing) (before ++ (opening ++ (text ++ (after ++ closing)))) := by
  obtain ⟨before, hb, heb⟩ := writeWithIndent_eq style hw.blanks opening
  have h1 := puts_out w (before ++ opening)
  obtain ⟨text, hp, hP⟩ := h (indent style (w.out (before ++ opening)))
    ((h1.ready hw).indent hi) rfl
  have h2 := h1.trans hp.unindent
  obtain ⟨after, ha, hea⟩ := writeWithIndent_eq style (h2.ready hw).blanks closing
  refine ⟨before, text, after, hb, hP, ha, ?_⟩
  rw [heb, hea]
  have h3 := h2.trans (puts_out _ (after ++ closing))
  simpa only [List.append_assoc] using h3

mutual

theorem lays_writeValue (hG : Gaps G) (hi : Blanks style.indentation) :
    ∀ value : Commented Double, Fits G style value → value.value.Sound lib →
    ∀ w, Ready w → ∃ text, Puts w (writeValue lib style value w) text ∧
      Lays lib.sscanf G (reread lib value.value) text
  | .scalar comments value, _, hs, w, hw => by
    rw [writeValue_flat style (show Commented.hasElements (.scalar comments value) = false from rfl),
      pushValue_direct hw.direct]
    exact ⟨_, puts_out w _, FastWriter.lays_valueText hG false _ hs⟩
  | .arrayValue comments [], _, hs, w, hw => by
    rw [writeValue_flat style (show Commented.hasElements (.arrayValue comments []) = false from rfl),
      pushValue_direct hw.direct]
    exact ⟨_, puts_out w _, FastWriter.lays_valueText hG false _ hs⟩
  | .arrayValue comments (value :: values), hf, hs, w, hw => by
    obtain ⟨childValues, hcv, hc | ⟨hcl, hc⟩⟩ :=
      writeValue_array lib style comments (List.cons_ne_nil value values) hw.direct
    · have h0 := puts_childValues w childValues
      obtain ⟨before, text, after, hb, hl, ha, hp⟩ := puts_between (h0.ready hw) hi [0x5b] [0x5d]
        fun w' hw' hcv' => lays_writeElements hG hi (value :: values) (List.cons_ne_nil value values)
          hf.2 hs (!childValues.isEmpty) 0 w' hw' fun hh => by
            rcases hcv with rfl | hcv
            · cases hh
            · rw [hcv', List.drop_zero, hcv.2]
      rw [hc]
      refine ⟨_, h0.trans hp, ?_⟩
      exact Lays.array (hG.blanks hb) (hl [] after hG.nil (hG.blanks ha))
    · subst hcl
      obtain ⟨blanks, hb, he⟩ := lineBegin_eq style
      have h0 := puts_childValues w ((value :: values).map (flatText lib))
      have hv : Lays lib.sscanf G (reread lib value.value) (blanks ++ flatText lib value) :=
        (FastWriter.lays_valueText hG false value.value hs.1).gap hG (hG.blanks hb)
      have hl := Lays.array hG.nil (lays_line hG style hs.2 hv)
      have hw' := writeLine_eq style ((value :: values).map (flatText lib)) 0
        (({ w with childValues_ := (value :: values).map (flatText lib) }).out style.lineBegin) rfl
      rw [List.length_map] at hw'
      rw [hc, hw', out_out, out_out]
      refine ⟨_, h0.trans (puts_out _ _), ?_⟩
      rw [he, List.map_cons, lineText, if_pos (decide_eq_true rfl)]
      simp only [List.append_assoc, List.cons_append, List.nil_append] at hl ⊢
      exact hl
  | .objectValue comments [], _, hs, w, hw => by
    rw [writeValue_flat style (show Commented.hasElements (.objectValue comments []) = false from rfl),
      pushValue_direct hw.direct]
    exact ⟨_, puts_out w _, FastWriter.lays_valueText hG false _ hs⟩
  | .objectValue comments (m :: members), hf, hs, w, hw => by
    obtain ⟨before, text, after, hb, hl, ha, hp⟩ := puts_between hw hi [0x7b] [0x7d]
      fun w' hw' _ => lays_writeMembers hG hi (m :: members) (List.cons_ne_nil m members)
        hf.2 hs.2 w' hw'
    refine ⟨_, hp, ?_⟩
    have hm := Lays.object (hG.blanks hb) (hl [] after hG.nil (hG.blanks ha))
    rw [setMembers_reread hs.1 hs.2] at hm
    exact hm

theorem lays_writeElements (hG : Gaps G) (hi : Blanks style.indentation) :
    ∀ values : List (Commented Double), values ≠ [] → FitsList G style values →
    SoundList lib (Commented.valueList values) →
    ∀ (hasChildValue : Bool) (index : Nat) (w : StyledWriter), Ready w →
    (hasChildValue = true → w.childValues_.drop index = values.map (flatText lib)) →
    ∃ text, Puts w (writeElements lib style hasChildValue values index w) text ∧
      ∀ gap tail, G gap → G tail →
        LaysElements lib.sscanf G (rereadList lib (Commented.valueList values))
          (gap ++ (text ++ (tail ++ [0x5d])))
  | [], hne, _, _, _, _, _, _, _ => absurd rfl hne
  | value :: values, _, hf, hs, hasChildValue, index, w, hw, hc => by
    obtain ⟨before, hb, heb⟩ := writeCommentBeforeValue_eq hG hf.1.fit w
    have hwb := (puts_out w before).ready hw
    have hv : ∃ text w', (if hasChildValue then
          (w.out before).writeWithIndent style ((w.out before).childValues_.getD index [])
          else writeValue lib style value ((w.out before).writeIndent style)) = w' ∧
        Puts w w' text ∧ Lays lib.sscanf G (reread lib value.value) text ∧
        (hasChildValue = true → w'.childValues_ = w.childValues_) := by
      cases hasChildValue with
      | true =>
        obtain ⟨blanks, hbl, he⟩ := writeWithIndent_eq style hwb.blanks (flatText lib value)
        refine ⟨_, _, ?_, (puts_out w before).trans (puts_out _ (blanks ++ flatText lib value)), ?_, ?_⟩
        · rw [if_pos rfl, show (w.out before).childValues_ = w.childValues_ from rfl,
            getD_of_drop (hc rfl), he]
        · exact ((FastWriter.lays_valueText hG false value.value hs.1).gap hG (hG.blanks hbl)).gap hG hb
        · exact fun _ => rfl
      | false =>
        obtain ⟨blanks, hbl, he⟩ := writeIndent_eq style hwb.blanks
        obtain ⟨text, hp, hl⟩ := lays_writeValue hG hi value hf.1 hs.1 _
          ((puts_out (w.out before) blanks).ready hwb)
        refine ⟨_, _, ?_, ((puts_out w before).trans (puts_out _ blanks)).trans hp, ?_, ?_⟩
        · rw [if_neg Bool.false_ne_true, he]
        · rw [List.append_assoc]
          exact (hl.gap hG (hG.blanks hbl)).gap hG hb
        · exact fun h => absurd h Bool.false_ne_true
    obtain ⟨text, w', he, hp, hl, hcv⟩ := hv
    rw [writeElements, heb, he]
    by_cases hne : values = []
    · obtain ⟨after, ha, hea⟩ := writeCommentAfterValueOnSameLine_eq hG hf.1.fit w'
      subst hne
      rw [if_pos List.isEmpty_nil, hea]
      refine ⟨_, hp.trans (puts_out w' after), fun gap tail hg ht => ?_⟩
      have := LaysElements.last (hl.gap hG hg) (hG.append ha ht)
      show LaysElements lib.sscanf G [reread lib value.value] _
      simpa only [List.append_assoc] using this
    · obtain ⟨after, ha, hea⟩ := writeCommentAfterValueOnSameLine_eq hG hf.1.fit (w'.out [0x2c])
      have hp' := (hp.trans (puts_out w' [0x2c])).trans (puts_out _ after)
      obtain ⟨rest, hpr, hlr⟩ := lays_writeElements hG hi values hne hf.2 hs.2 hasChildValue (index + 1)
        _ (hp'.ready hw) fun h => by
          rw [show ((w'.out [0x2c]).out after).childValues_ = w'.childValues_ from rfl, hcv h]
          exact drop_of_drop (hc h)
      rw [if_neg (fun h => hne (List.isEmpty_iff.mp h)), hea]
      refine ⟨_, hp'.trans hpr, fun gap tail hg ht => ?_⟩
      have := LaysElements.cons (hl.gap hG hg) hG.nil (hlr after tail ha ht)
      rw [Commented.valueList, rereadList]
      simpa only [List.append_assoc, List.cons_append, List.nil_append] using this

theorem lays_writeMembers (hG : Gaps G) (hi : Blanks style.indentation) :
    ∀ members : List (List UInt8 × Commented Double), members ≠ [] → FitsMembers G style members →
    SoundMembers lib (Commented.valueMembers members) → ∀ w : StyledWriter, Ready w →
    ∃ text, Puts w (writeMembers lib style members w) text ∧
      ∀ gap tail, G gap → G tail →
        LaysMembers lib.sscanf G (rereadMembers lib (Commented.valueMembers members))
          (gap ++ (text ++ (tail ++ [0x7d])))
  | [], hne, _, _, _, _ => absurd rfl hne
  | (name, value) :: members, _, hf, hs, w, hw => by
    obtain ⟨before, hb, heb⟩ := writeCommentBeforeValue_eq hG hf.1.fit w
    have hwb := (puts_out w before).ready hw
    obtain ⟨blanks, hbl, hei⟩ := writeWithIndent_eq style hwb.blanks (style.quote name)
    obtain ⟨spaces, spaces', hs1, hs2, hec⟩ := colon_eq style
    have hk := ((puts_out w before).trans (puts_out _ (blanks ++ style.quote name))).trans
      (puts_out _ style.colon)
    obtain ⟨text, hp, hl⟩ := lays_writeValue hG hi value hf.1 hs.2.1 _ (hk.ready hw)
    have hl' := hl.gap hG (hG.blanks hs2)
    have hp' := hk.trans hp
    rw [writeMembers, heb, hei]
    generalize writeValue lib style value _ = w' at hp' ⊢
    rw [quote_eq, hec] at hp'
    by_cases hne : members = []
    · obtain ⟨after, ha, hea⟩ := writeCommentAfterValueOnSameLine_eq hG hf.1.fit w'
      subst hne
      rw [if_pos List.isEmpty_nil, hea]
      refine ⟨_, hp'.trans (puts_out w' after), fun gap tail hg ht => ?_⟩
      have := LaysMembers.last (hG.append hg (hG.append hb (hG.blanks hbl))) (quotes_name hs.1) hs1
        hl' (hG.append ha ht)
      show LaysMembers lib.sscanf G [(name, reread lib value.value)] _
      simpa only [List.append_assoc, List.cons_append, List.nil_append] using this
    · obtain ⟨after, ha, hea⟩ := writeCommentAfterValueOnSameLine_eq hG hf.1.fit (w'.out [0x2c])
      have hp'' := (hp'.trans (puts_out w' [0x2c])).trans (puts_out _ after)
      obtain ⟨rest, hpr, hlr⟩ := lays_writeMembers hG hi members hne hf.2 hs.2.2 _ (hp''.ready hw)
      rw [if_neg (fun h => hne (List.isEmpty_iff.mp h)), hea]
      refine ⟨_, hp''.trans hpr, fun gap tail hg ht => ?_⟩
      have := LaysMembers.cons (hG.append hg (hG.append hb (hG.blanks hbl))) (quotes_name hs.1) hs1
        hl' hG.nil (hlr after tail ha ht)
      rw [Commented.valueMembers, rereadMembers]
      simpa only [List.append_assoc, List.cons_append, List.nil_append] using this

end

mutual

def plain : Value Double → Commented Double
  | .nullValue => .scalar ⟨none, none, none⟩ .nullValue
  | .intValue value => .scalar ⟨none, none, none⟩ (.intValue value)
  | .uintValue value => .scalar ⟨none, none, none⟩ (.uintValue value)
  | .realValue value => .scalar ⟨none, none, none⟩ (.realValue value)
  | .stringValue value => .scalar ⟨none, none, none⟩ (.stringValue value)
  | .booleanValue value => .scalar ⟨none, none, none⟩ (.booleanValue value)
  | .arrayValue values => .arrayValue ⟨none, none, none⟩ (plainList values)
  | .objectValue members => .objectValue ⟨none, none, none⟩ (plainMembers members)

def plainList : List (Value Double) → List (Commented Double)
  | [] => []
  | value :: values => plain value :: plainList values

def plainMembers : List (List UInt8 × Value Double) → List (List UInt8 × Commented Double)
  | [] => []
  | (name, value) :: members => (name, plain value) :: plainMembers members

end

mutual

@[simp] theorem value_plain : ∀ value : Value Double, (plain value).value = value
  | .nullValue | .intValue _ | .uintValue _ | .realValue _ | .stringValue _ | .booleanValue _ => rfl
  | .arrayValue values => congrArg Value.arrayValue (valueList_plain values)
  | .objectValue members => congrArg Value.objectValue (valueMembers_plain members)

theorem valueList_plain : ∀ values : List (Value Double), Commented.valueList (plainList values) = values
  | [] => rfl
  | value :: values => congrArg₂ List.cons (value_plain value) (valueList_plain values)

theorem valueMembers_plain : ∀ members : List (List UInt8 × Value Double),
    Commented.valueMembers (plainMembers members) = members
  | [] => rfl
  | (name, value) :: members =>
    congrArg₂ List.cons (congrArg (Prod.mk name) (value_plain value)) (valueMembers_plain members)

end

theorem comments_plain (value : Value Double) : (plain value).comments = ⟨none, none, none⟩ := by
  cases value <;> rfl

theorem fit_none (G : List UInt8 → Prop) (style : Style) : Fit G style ⟨none, none, none⟩ :=
  ⟨nofun, nofun, nofun⟩

mutual

theorem fits_plain (G : List UInt8 → Prop) (style : Style) :
    ∀ value : Value Double, Fits G style (plain value)
  | .nullValue | .intValue _ | .uintValue _ | .realValue _ | .stringValue _ | .booleanValue _ =>
    fit_none G style
  | .arrayValue values => ⟨fit_none G style, fitsList_plain G style values⟩
  | .objectValue members => ⟨fit_none G style, fitsMembers_plain G style members⟩

theorem fitsList_plain (G : List UInt8 → Prop) (style : Style) :
    ∀ values : List (Value Double), FitsList G style (plainList values)
  | [] => trivial
  | value :: values => ⟨fits_plain G style value, fitsList_plain G style values⟩

theorem fitsMembers_plain (G : List UInt8 → Prop) (style : Style) :
    ∀ members : List (List UInt8 × Value Double), FitsMembers G style (plainMembers members)
  | [] => trivial
  | (_, value) :: members => ⟨fits_plain G style value, fitsMembers_plain G style members⟩

end

open FastWriter (valueText elementsText membersText)

theorem indent_simple (w : StyledWriter) : indent .simple w = w := by
  unfold indent
  rw [show Style.simple.indentation = [] from rfl, List.append_nil]

theorem unindent_simple (w : StyledWriter) : unindent .simple w = w := by
  unfold unindent
  rw [show Style.simple.indentation = [] from rfl, List.length_nil, Nat.sub_zero, List.take_length]

theorem lineText_simple (values : List (Value Double)) (first : Bool) :
    lineText .simple first ((plainList values).map (flatText lib)) =
      elementsText lib quotedString false values first := by
  induction values generalizing first with
  | nil => rfl
  | cons value values ih =>
    rw [plainList, List.map_cons, lineText, ih, elementsText, flatText, value_plain, List.append_assoc]
    rfl

mutual

theorem simple_writeValue : ∀ (value : Value Double) (w : StyledWriter), w.addChildValues_ = false →
    Puts w (writeValue lib .simple (plain value) w) (valueText lib quotedString false value)
  | .nullValue, w, hw | .intValue _, w, hw | .uintValue _, w, hw | .realValue _, w, hw
  | .stringValue _, w, hw | .booleanValue _, w, hw | .arrayValue [], w, hw | .objectValue [], w, hw => by
    rw [writeValue_flat .simple rfl, pushValue_direct hw, flatText, value_plain]
    exact puts_out w _
  | .arrayValue (value :: values), w, hw => by
    obtain ⟨childValues, hcv, hc | ⟨hcl, hc⟩⟩ := writeValue_array lib .simple ⟨none, none, none⟩
      (List.cons_ne_nil (plain value) (plainList values)) hw
    · let w₁ : StyledWriter := ({ w with childValues_ := childValues }).out [0x5b]
      have h1 : Puts w w₁ [0x5b] := (puts_childValues w childValues).trans (puts_out _ [0x5b])
      have h2 := simple_writeElements (value :: values) (!childValues.isEmpty) 0 w₁ hw fun hh => by
        rcases hcv with rfl | hcv
        · cases hh
        · exact hcv.2
      rw [plain, plainList, hc, unindent_simple, indent_simple]
      exact (h1.trans h2).trans (puts_out _ [0x5d])
    · subst hcl
      have h0 := puts_childValues w ((plain value :: plainList values).map (flatText lib))
      have hl := writeLine_eq .simple ((plain value :: plainList values).map (flatText lib)) 0
        (({ w with childValues_ := (plain value :: plainList values).map (flatText lib) }).out
          Style.simple.lineBegin) rfl
      rw [List.length_map] at hl
      rw [plain, plainList, hc, hl, out_out, out_out, ← plainList, lineText_simple]
      exact h0.trans (puts_out _ _)
  | .objectValue (m :: members), w, hw => by
    have h1 := puts_out w [0x7b]
    have h2 := simple_writeMembers (m :: members) (w.out [0x7b]) hw
    have h3 : writeValue lib .simple (plain (.objectValue (m :: members))) w =
        (writeMembers lib .simple (plainMembers (m :: members)) (w.out [0x7b])).out [0x7d] := by
      rw [plain, writeValue]
      dsimp only
      rw [unindent_simple, indent_simple]
      rfl
    rw [h3]
    exact (h1.trans h2).trans (puts_out _ [0x7d])

theorem simple_writeElements : ∀ (values : List (Value Double)) (hasChildValue : Bool) (index : Nat)
    (w : StyledWriter), w.addChildValues_ = false →
    (hasChildValue = true → w.childValues_.drop index = (plainList values).map (flatText lib)) →
    Puts w (writeElements lib .simple hasChildValue (plainList values) index w)
      (elementsText lib quotedString false values true)
  | [], _, _, w, _, _ => puts_childValues w w.childValues_
  | value :: values, hasChildValue, index, w, hw, hc => by
    have hv : ∃ w', (if hasChildValue then w.writeWithIndent .simple (w.childValues_.getD index [])
          else writeValue lib .simple (plain value) w) = w' ∧
        Puts w w' (valueText lib quotedString false value) ∧
        (hasChildValue = true → w'.childValues_ = w.childValues_) := by
      cases hasChildValue with
      | true =>
        refine ⟨w.out (valueText lib quotedString false value), ?_, puts_out w _, fun _ => rfl⟩
        rw [if_pos rfl, getD_of_drop (hc rfl), flatText, value_plain]
        rfl
      | false => exact ⟨_, if_neg Bool.false_ne_true, simple_writeValue value w hw, nofun⟩
    obtain ⟨w', he, hp, hcv⟩ := hv
    cases values with
    | nil =>
      have hs : writeElements lib .simple hasChildValue (plainList [value]) index w = w' := by
        rw [plainList, writeElements, comments_plain]
        exact he
      rw [hs, elementsText, elementsText, List.append_nil]
      exact hp
    | cons next values =>
      have hs : writeElements lib .simple hasChildValue (plainList (value :: next :: values)) index w =
          writeElements lib .simple hasChildValue (plainList (next :: values)) (index + 1)
            (w'.out [0x2c]) := by
        rw [plainList, writeElements, comments_plain, ← he]
        rfl
      have h1 := hp.trans (puts_out w' [0x2c])
      have h2 := simple_writeElements (next :: values) hasChildValue (index + 1) (w'.out [0x2c])
        (h1.direct hw) fun h => by
          rw [show (w'.out [0x2c]).childValues_ = w'.childValues_ from rfl, hcv h]
          exact drop_of_drop (hc h)
      rw [hs, elementsText]
      have h3 := h1.trans h2
      rw [List.append_assoc] at h3
      exact h3

theorem simple_writeMembers : ∀ (members : List (List UInt8 × Value Double)) (w : StyledWriter),
    w.addChildValues_ = false →
    Puts w (writeMembers lib .simple (plainMembers members) w)
      (membersText lib quotedString false members true)
  | [], w, _ => puts_childValues w w.childValues_
  | (name, value) :: members, w, hw => by
    let w₁ : StyledWriter := (w.out (quotedString name)).out [0x3a]
    have h1 : Puts w w₁ (quotedString name ++ [0x3a]) :=
      (puts_out w (quotedString name)).trans (puts_out _ [0x3a])
    have h2 := h1.trans (simple_writeValue value w₁ hw)
    cases members with
    | nil =>
      have hs : writeMembers lib .simple (plainMembers [(name, value)]) w =
          writeValue lib .simple (plain value) w₁ := by
        rw [plainMembers, writeMembers, comments_plain]
        rfl
      rw [hs, membersText, membersText, List.append_nil]
      exact h2
    | cons m members =>
      have hs : writeMembers lib .simple (plainMembers ((name, value) :: m :: members)) w =
          writeMembers lib .simple (plainMembers (m :: members))
            ((writeValue lib .simple (plain value) w₁).out [0x2c]) := by
        rw [plainMembers, writeMembers, comments_plain]
        rfl
      have h3 := h2.trans (puts_out _ [0x2c])
      have h4 := h3.trans (simple_writeMembers (m :: members) _ (h3.direct hw))
      rw [hs, membersText]
      rw [List.append_assoc] at h4
      exact h4

end

end

end StyledWriter

end JMEngine.Json
