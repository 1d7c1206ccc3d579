import JMEngine.Json.Machine
import JMEngine.Json.Join
import Mathlib.Data.Nat.Find

/-!
# Loading a configuration file

`load_jsonfile_val` appends the lines of a file to one another, drops what stood between them, and
parses that.

* `load_jsonfile_eq`     the text that is parsed is the joined one;
* `step_joined`          the machine takes the same step with a token that joins;
* `Joinable`, `Cut`, `Plain`   files by their tokens up to the end of the root value;
* `load_jsonfile_val_joined`   a file whose tokens join has the value of its text, and one that is
                         cut at a comment has none.
-/

set_option linter.unusedSectionVars false

namespace JMEngine.Json
open TokenMachine

/-! ## Lines -/

theorem joined_line (l : List UInt8) :
    joined l = l.takeWhile (· ≠ 0x0a) ++ joined ((l.dropWhile (· ≠ 0x0a)).drop 1) := by
  induction l with
  | nil => rfl
  | cons c l ih =>
    by_cases hc : c = 0x0a
    · subst hc
      rfl
    · have hp : decide (c ≠ 0x0a) = true := decide_eq_true hc
      simp only [joined_cons hc, List.takeWhile_cons, List.dropWhile_cons, hp, if_true, List.cons_append]
      rw [← ih]

theorem length_line_lt (c : UInt8) (l : List UInt8) :
    (((c :: l).dropWhile (· ≠ 0x0a)).drop 1).length < (c :: l).length := by
  have hle := (List.dropWhile_suffix (l := c :: l) fun c : UInt8 => decide (c ≠ 0x0a)).length_le
  rw [List.length_drop]
  rw [List.length_cons] at hle ⊢
  omega

theorem appendLines_eq (n : Nat) (json ifs : List UInt8) (h : ifs.length < n) :
    appendLines n json ifs = json ++ joined ifs := by
  induction n generalizing json ifs with
  | zero => exact absurd h (Nat.not_lt_zero _)
  | succ n ih =>
    cases ifs with
    | nil => exact (List.append_nil json).symm
    | cons c l =>
      have hlt := length_line_lt c l
      rw [joined_line (c :: l), ← List.append_assoc]
      exact ih _ _ (by omega)

theorem load_jsonfile_eq (file : List UInt8) : load_jsonfile file = joined file :=
  appendLines_eq _ [] file (Nat.lt_succ_self _)

/-! ## The machine on the joined text -/

section
variable {Double : Type} {sscanf : List UInt8 → Option Double}

theorem stepValue_same {token token' : Token} (h : Same token token')
    (hd : ¬ token.type_.decoded = true) (stack : List (Frame Double)) :
    stepValue sscanf stack token' = stepValue sscanf stack token ∨
      ∃ error, stepValue sscanf stack token = .inr (.rejected error) := by
  unfold stepValue
  rw [h.type_]
  cases hk : token.type_ with
  | tokenString | tokenNumber =>
    rw [hk] at hd
    exact absurd rfl hd
  | tokenComment | tokenObjectBegin | tokenArrayBegin | tokenTrue | tokenFalse | tokenNull =>
    exact Or.inl rfl
  | tokenEndOfStream | tokenObjectEnd | tokenArrayEnd | tokenArraySeparator | tokenMemberSeparator
  | tokenError => exact Or.inr ⟨_, rfl⟩

/-- but for the text of a rejection, a state knows of a token what it means -/
theorem step_same {token token' : Token} (h : Same token token') (s : State Double) :
    step sscanf s token' = step sscanf s token ∨
      ∃ error, step sscanf s token = .inr (.rejected error) := by
  by_cases hd : token.type_.decoded = true
  · have e : token' = token := by
      cases token
      cases token'
      cases h.type_
      cases h.text hd
      rfl
    exact Or.inl (congrArg (step sscanf s) e)
  have hstr : token.type_ ≠ .tokenString := fun e => hd (by rw [e]; rfl)
  cases s with
  | value stack => exact stepValue_same h hd stack
  | first stack =>
    dsimp only [step]
    rw [h.type_]
    split
    · exact Or.inl rfl
    · exact stepValue_same h hd _
  | separator values stack =>
    dsimp only [step]
    rw [h.type_]
    exact Or.inl rfl
  | name name members stack =>
    dsimp only [step]
    rw [h.type_]
    split
    · exact Or.inl rfl
    split
    · exact Or.inl rfl
    · exact Or.inr ⟨_, rfl⟩
  | colon name members stack =>
    dsimp only [step]
    rw [h.type_]
    split
    · exact Or.inr ⟨_, rfl⟩
    · exact Or.inl rfl
  | comma name members stack =>
    dsimp only [step]
    rw [h.type_]
    split
    · exact Or.inl rfl
    split
    · exact Or.inl rfl
    split
    · exact Or.inl rfl
    · exact Or.inr ⟨_, rfl⟩
  | commented name members stack =>
    dsimp only [step]
    rw [h.type_]
    exact Or.inl rfl

theorem step_joined {v : Value Double} (s : State Double) (l l' : List UInt8) (hl : Joins l l')
    (h : joinsAt l = true) :
    Joins (readToken l).2 (readToken l').2 ∧ ∀ y, step sscanf s (readToken l).1 = y →
      (y = .inr (.done v) ∨ ∃ t, y = .inl t) → step sscanf s (readToken l').1 = y := by
  obtain ⟨hsame, hrest⟩ := readToken_joined hl h
  refine ⟨hrest, fun y hy hgood => ?_⟩
  rcases step_same hsame s with e | ⟨error, he⟩
  · exact e.trans hy
  · rw [hy] at he
    rcases hgood with rfl | ⟨t, rfl⟩
    · cases he
    · cases he

theorem goes_end (sscanf : List UInt8 → Option Double) (s : State Double) :
    ∃ error r, Goes readToken (step sscanf) s [] (.inr (.rejected error)) r := by
  have htype : (readToken []).1.type_ = .tokenEndOfStream := rfl
  rcases step_end sscanf htype s with ⟨error, he⟩ | ⟨s', hs, hend⟩
  · exact ⟨error, _, Goes.one he⟩
  · obtain ⟨error, he⟩ := hend _ htype
    exact ⟨error, _, Goes.more hs (Goes.one he)⟩

theorem step_cut {v : Value Double} (s : State Double) (l : List UInt8) (h : cutsAt l = true) :
    step sscanf s (readToken l).1 ≠ .inr (.done v) := fun hs =>
  (step_done hs).1 (of_decide_eq_true (of_decide_eq_true h).1).1

theorem goes_cut (s t : State Double) (l l' : List UInt8) (hl : Joins l l') (h : cutsAt l = true)
    (hs : step sscanf s (readToken l).1 = .inl t) :
    ∃ w r, Goes readToken (step sscanf) s l' (.inr w) r ∧ ∃ error, w = .rejected error := by
  obtain ⟨htype', hrest⟩ := readToken_cut hl h
  have htype := (of_decide_eq_true (of_decide_eq_true h).1).1
  have hsame : Same (readToken l).1 (readToken l').1 :=
    ⟨htype'.trans htype.symm, fun hd => by rw [htype] at hd; cases hd⟩
  obtain ⟨error, r, hend⟩ := goes_end sscanf t
  rcases step_same hsame s with e | ⟨error', e⟩
  · exact ⟨_, r, Goes.more (e.trans hs) (hrest ▸ hend), error, rfl⟩
  · cases hs.symm.trans e

/-! ## Files -/

/-- the mark in front of a document has no line end, and none can be joined to one -/
theorem skipBOM_joined {file r : List UInt8} {v : Value Double}
    (h : Goes readToken (step sscanf) (.value []) (skipBOM file) (.inr (.done v)) r) :
    skipBOM (joined file) = joined (skipBOM file) := by
  unfold skipBOM at h ⊢
  by_cases hb : file.take 3 = [0xef, 0xbb, 0xbf]
  · have hj : joined file = [0xef, 0xbb, 0xbf] ++ joined (file.drop 3) := by
      conv_lhs => rw [← List.take_append_drop 3 file, hb]
      rfl
    rw [if_pos hb, hj]
    rfl
  · rw [if_neg hb] at h ⊢
    refine if_neg fun hj => ?_
    have hspace := skipSpaces_joined file
    cases hx : joined file with
    | nil =>
      rw [hx] at hj
      cases hj
    | cons d x =>
      rw [hx] at hj hspace
      obtain rfl : d = 0xef := (List.cons.inj hj).1
      cases hs : skipSpaces file with
      | nil =>
        rw [hs] at hspace
        cases hspace
      | cons c m =>
        rw [hs, joined_cons (skipSpaces_head hs)] at hspace
        obtain rfl : 0xef = c := (List.cons.inj hspace).1
        obtain ⟨body, htok, _⟩ := readToken_eq hs
        have hrej : ∃ error, step sscanf (.value []) (readToken file).1 = .inr (.rejected error) :=
          ⟨_, by rw [htok]; rfl⟩
        obtain ⟨error, hrej⟩ := hrej
        rcases h.head with he | ⟨t, he⟩
        · cases hrej.symm.trans he
        · cases hrej.symm.trans he

variable (sscanf)

/-- the place behind the first tokens of a document -/
def place (file : List UInt8) (k : Nat) : List UInt8 := after readToken k (skipBOM file)

/-- a place before the end of the root value -/
def Within (file : List UInt8) (k : Nat) : Prop :=
  ∃ v r, readRoot sscanf file = some (.done (v, r)) ∧ r.length < (place file k).length

/-- every token up to the end of the root value joins -/
def Joinable (file : List UInt8) : Prop := ∀ k, Within sscanf file k → joinsAt (place file k) = true

/-- one of them is a line comment that is cut, and those before it join -/
def Cut (file : List UInt8) : Prop :=
  ∃ k, Within sscanf file k ∧ (∀ j, j < k → joinsAt (place file j) = true) ∧ cutsAt (place file k) = true

/-- no carriage returns, and every token joins, line comments apart -/
def Plain (file : List UInt8) : Prop :=
  0x0d ∉ file ∧ ∀ k, Within sscanf file k →
    joinsAt (place file k) = true ∨ lineCommentAt (place file k) = true

variable {sscanf} {file : List UInt8} {v : Value Double}

theorem load_of_joinable (h : parse sscanf file = some (.done v)) (hj : Joinable sscanf file) :
    load_jsonfile_val sscanf file = some v := by
  obtain ⟨r, hroot, hgo⟩ := goes_of_parse h
  obtain ⟨r', hgo', _⟩ := hgo.follow readToken_suffix
    (fun _ _ hs => length_readToken_lt (step_done hs).2)
    step_joined (joins_refl _) fun k hk => hj k ⟨v, r, hroot, hk⟩
  rw [← skipBOM_joined hgo] at hgo'
  unfold load_jsonfile_val
  rw [load_jsonfile_eq, parse_of_goes hgo']

theorem load_of_cut (h : parse sscanf file = some (.done v)) (hc : Cut sscanf file) :
    load_jsonfile_val sscanf file = some .nullValue := by
  obtain ⟨r, hroot, hgo⟩ := goes_of_parse h
  obtain ⟨k, ⟨v', r', hroot', hk⟩, hjoin, hcut⟩ := hc
  cases hroot.symm.trans hroot'
  obtain ⟨w, r', hgo', error, rfl⟩ := Goes.cut readToken_suffix
    (fun _ _ hs => length_readToken_lt (step_done hs).2) step_joined step_cut goes_cut hgo
    (joins_refl _) k hk hjoin hcut
  rw [← skipBOM_joined hgo] at hgo'
  unfold load_jsonfile_val
  rw [load_jsonfile_eq, parse_of_goes hgo']

theorem place_suffix (file : List UInt8) (k : Nat) : place file k <:+ file := by
  refine (after_suffix readToken_suffix k _).trans ?_
  unfold skipBOM
  split
  · exact List.drop_suffix 3 file
  · exact List.suffix_rfl

theorem Within.of_lt {j k : Nat} (h : Within sscanf file k) (hjk : j < k) : Within sscanf file j := by
  obtain ⟨v, r, hroot, hk⟩ := h
  refine ⟨v, r, hroot, Nat.lt_of_lt_of_le hk ?_⟩
  unfold place
  rw [← Nat.add_sub_cancel' (Nat.le_of_lt hjk), after_add]
  exact (after_suffix readToken_suffix _ _).length_le

/-- in a plain text the first token that does not join is a line comment, which is cut -/
theorem joinable_or_cut (hp : Plain sscanf file) : Joinable sscanf file ∨ Cut sscanf file := by
  classical
  by_cases hex : ∃ k, Within sscanf file k ∧ joinsAt (place file k) ≠ true
  · refine Or.inr ⟨Nat.find hex, (Nat.find_spec hex).1, fun j hj => ?_, ?_⟩
    · by_contra hne
      exact Nat.find_min hex hj ⟨(Nat.find_spec hex).1.of_lt hj, hne⟩
    · obtain ⟨hin, hne⟩ := Nat.find_spec hex
      exact cutsAt_of_not_joins ((hp.2 _ hin).resolve_left hne) hne
        fun hm => hp.1 ((place_suffix file _).subset hm)
  · refine Or.inl fun k hk => ?_
    by_contra hne
    exact hex ⟨k, hk, hne⟩

/-- **Loading a file that the reader accepts.** If every token up to the end of the root value
joins, the file has the value of its text; if the first that does not is a line comment, with no
carriage return to come, it has none. In a plain text these are the only cases. -/
theorem load_jsonfile_val_joined (h : parse sscanf file = some (.done v)) :
    (Joinable sscanf file → load_jsonfile_val sscanf file = some v) ∧
    (Cut sscanf file → load_jsonfile_val sscanf file = some .nullValue) ∧
    (Plain sscanf file →
      (load_jsonfile_val sscanf file = some v ↔ Joinable sscanf file ∨ v = .nullValue)) := by
  refine ⟨load_of_joinable h, load_of_cut h, fun hp => ?_⟩
  rcases joinable_or_cut hp with hj | hc
  · exact ⟨fun _ => Or.inl hj, fun _ => load_of_joinable h hj⟩
  · rw [load_of_cut h hc]
    constructor
    · intro e
      exact Or.inr (Option.some.inj e).symm
    · rintro (hj | rfl)
      · rw [← load_of_cut h hc]
        exact load_of_joinable h hj
      · rfl

end

/-- `[1,`, a line end and `2]` -/
def twoLines : List UInt8 := [0x5b, 0x31, 0x2c, 0x0a, 0x32, 0x5d]

/-- `// c`, a line end, and an empty object -/
def underComment : List UInt8 := [0x2f, 0x2f, 0x20, 0x63, 0x0a, 0x7b, 0x7d]

def noScan (_ : List UInt8) : Option Unit := none

theorem twoLines_joinable : Joinable noScan twoLines := by
  rintro k ⟨v, r, _, hk⟩
  match k with
  | 0 | 1 | 2 | 3 | 4 => decide +kernel
  | k + 5 =>
    have hend : place twoLines (k + 5) = after readToken k [] := rfl
    rw [hend, after_nil rfl] at hk
    cases hk

theorem underComment_cut : Cut noScan underComment :=
  ⟨0, ⟨.objectValue [], [], rfl, by decide +kernel⟩, fun _ hj => absurd hj (Nat.not_lt_zero _),
    by decide +kernel⟩

theorem load_jsonfile_val_joined_two :
    (parse noScan twoLines = some (.done (.arrayValue [.intValue 1, .intValue 2])) ∧
      load_jsonfile_val noScan twoLines = some (.arrayValue [.intValue 1, .intValue 2])) ∧
    parse noScan underComment = some (.done (.objectValue [])) ∧
      load_jsonfile_val noScan underComment = some .nullValue :=
  ⟨⟨rfl, (load_jsonfile_val_joined rfl).1 twoLines_joinable⟩,
    rfl, (load_jsonfile_val_joined (v := .objectValue []) rfl).2.1 underComment_cut⟩

/-- the comment takes the object with it -/
theorem load_jsonfile_val_under_comment :
    ¬ ∀ (Double : Type) (sscanf : List UInt8 → Option Double) (file : List UInt8) (v : Value Double),
      parse sscanf file = some (.done v) → load_jsonfile_val sscanf file = some v := by
  intro h
  have hload := h Unit noScan underComment (.objectValue []) rfl
  have hnull : load_jsonfile_val noScan underComment = some .nullValue := rfl
  cases hnull.symm.trans hload

end JMEngine.Json
