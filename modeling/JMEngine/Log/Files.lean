import JMEngine.Log.GLog
import Mathlib.Data.List.Nodup
import Mathlib.Data.List.Perm.Subperm

/-!
# The files of the logger

A log file is known by its date and, when files are split, by its index.

* `LogFile`                  ordered by date and index; `LogFile.fileName` tells them apart;
* `openOrCreateFile_spec`    the stream is open on the file that was asked for, which exists;
* `checkLogFile_spec`        the file of the day that `checkLogFile` selects, no earlier than the last;
* `checkLogFile_defined`     the loop comes to an end.
-/

set_option linter.unusedSectionVars false

namespace JMEngine.Log

/-! ## dates and names -/

def twoDigits (n : Nat) : String := if n < 10 then "0" ++ toString n else toString n

theorem twoDigits_spec : ∀ n < 100, (twoDigits n).toList.length = 2
    ∧ Nat.ofDigitChars 10 (twoDigits n).toList 0 = n
    ∧ (twoDigits n).toList.all Char.isDigit = true := by
  decide +kernel

theorem format02d_natCast (n : Nat) : format02d n = twoDigits n := by
  unfold format02d twoDigits
  by_cases h : n < 10
  · rw [if_pos h, if_pos ⟨by omega, by omega⟩]
    rfl
  · rw [if_neg h, if_neg (by omega)]
    rfl

namespace Date

def number (d : Date) : Nat := (d.year * 100 + d.month) * 100 + d.day

theorem number_inj {d e : Date} (h : d.number = e.number) : d = e := by
  have h1 := d.hmonth
  have h2 := d.hday
  have h3 := e.hmonth
  have h4 := e.hday
  unfold number at h
  have hy : d.year = e.year := by omega
  have hm : d.month = e.month := by omega
  have hd : d.day = e.day := by omega
  cases d
  cases e
  subst hy hm hd
  rfl

def digits (d : Date) : String := toString d.year ++ twoDigits d.month ++ twoDigits d.day

theorem digits_number (d : Date) : Nat.ofDigitChars 10 d.digits.toList 0 = d.number := by
  obtain ⟨m1, m2, _⟩ := twoDigits_spec d.month (by have := d.hmonth; omega)
  obtain ⟨d1, d2, _⟩ := twoDigits_spec d.day (by have := d.hday; omega)
  have hy : Nat.ofDigitChars 10 (toString d.year).toList 0 = d.year := by
    rw [show (toString d.year).toList = Nat.toDigits 10 d.year from Nat.toList_repr]
    exact Nat.ofDigitChars_toDigits (by decide) (by decide)
  unfold digits number
  rw [String.toList_append, String.toList_append, Nat.ofDigitChars_append, Nat.ofDigitChars_append, hy,
    Nat.ofDigitChars_eq_ofDigitChars_zero, d1, d2, Nat.ofDigitChars_eq_ofDigitChars_zero, m1, m2]
  omega

theorem isDigit_digits (d : Date) : ∀ c ∈ d.digits.toList, c.isDigit = true := by
  intro c hc
  obtain ⟨_, _, m3⟩ := twoDigits_spec d.month (by have := d.hmonth; omega)
  obtain ⟨_, _, d3⟩ := twoDigits_spec d.day (by have := d.hday; omega)
  unfold digits at hc
  rw [String.toList_append, String.toList_append] at hc
  rcases List.mem_append.mp hc with hc | hc
  · rcases List.mem_append.mp hc with hc | hc
    · rw [show (toString d.year).toList = Nat.toDigits 10 d.year from Nat.toList_repr] at hc
      exact Nat.isDigit_of_mem_toDigits (by decide) (by decide) hc
    · exact List.all_eq_true.mp m3 c hc
  · exact List.all_eq_true.mp d3 c hc

end Date

structure LogFile where
  date : Date
  index : Option Nat
  deriving DecidableEq, Repr

namespace LogFile

/-- the place of a file: by date, then by index -/
def place (f : LogFile) : Nat ×ₗ Nat := toLex (f.date.number, f.index.elim 0 (· + 1))

theorem place_injective : Function.Injective place := by
  intro f g h
  have h1 : f.date.number = g.date.number := congrArg (fun x => (ofLex x).1) h
  have h2 : f.index.elim 0 (· + 1) = g.index.elim 0 (· + 1) := congrArg (fun x => (ofLex x).2) h
  have h3 : f.index = g.index := by
    cases hf : f.index <;> cases hg : g.index <;> rw [hf, hg] at h2
    · cases h2
    · cases h2
    · exact congrArg some (Nat.succ.inj h2)
  cases f
  cases g
  exact congr (congrArg LogFile.mk (Date.number_inj h1)) h3

instance : LinearOrder LogFile := LinearOrder.lift' place place_injective

theorem le_of_date {f g : LogFile} (h : f.date.number < g.date.number) : f ≤ g :=
  (Prod.Lex.lt_iff.mpr (Or.inl h)).le

theorem le_of_index {d : Date} {i j : Nat} (h : i ≤ j) : (⟨d, some i⟩ : LogFile) ≤ ⟨d, some j⟩ :=
  Prod.Lex.le_iff.mpr (Or.inr ⟨rfl, Nat.succ_le_succ h⟩)

/-- `.%d`, when files are split -/
def suffix : Option Nat → String
  | none => ""
  | some j => "." ++ toString j

theorem suffix_injective : Function.Injective suffix := by
  intro i j h
  have hl := congrArg String.toList h
  cases i with
  | none =>
    cases j with
    | none => rfl
    | some j =>
      rw [suffix, suffix, String.toList_append] at hl
      cases hl
  | some i =>
    cases j with
    | none =>
      rw [suffix, suffix, String.toList_append] at hl
      cases hl
    | some j =>
      rw [suffix, suffix, String.toList_append, String.toList_append] at hl
      have hd : Nat.toDigits 10 i = Nat.toDigits 10 j := by
        rw [← Nat.toList_repr, ← Nat.toList_repr]
        exact List.append_cancel_left hl
      have hn : Nat.ofDigitChars 10 (Nat.toDigits 10 i) 0 = Nat.ofDigitChars 10 (Nat.toDigits 10 j) 0 :=
        congrArg (Nat.ofDigitChars 10 · 0) hd
      rw [Nat.ofDigitChars_ten_toDigits, Nat.ofDigitChars_ten_toDigits] at hn
      exact congrArg some hn

def fileName (cfg : GLogConfig) (f : LogFile) : String :=
  cfg._log_path ++ cfg._name ++ "." ++ f.date.digits ++ ".log" ++ suffix f.index

theorem takeWhile_digits {a x : List Char} (ha : ∀ c ∈ a, c.isDigit = true) :
    (a ++ (".log".toList ++ x)).takeWhile Char.isDigit = a := by
  rw [List.takeWhile_append_of_pos ha, show ".log".toList = '.' :: ['l', 'o', 'g'] from rfl,
    List.cons_append, List.takeWhile_cons_of_neg (by decide), List.append_nil]

/-- **Different dates or indices, different files.** -/
theorem fileName_injective (cfg : GLogConfig) : Function.Injective (fileName cfg) := by
  intro f g h
  have hl := congrArg String.toList h
  unfold fileName at hl
  simp only [String.toList_append, List.append_assoc] at hl
  replace hl := List.append_cancel_left (List.append_cancel_left (List.append_cancel_left hl))
  have hdigits : f.date.digits.toList = g.date.digits.toList := by
    have h1 := congrArg (List.takeWhile Char.isDigit) hl
    rw [takeWhile_digits f.date.isDigit_digits, takeWhile_digits g.date.isDigit_digits] at h1
    exact h1
  have hdate : f.date = g.date := by
    refine Date.number_inj ?_
    rw [← f.date.digits_number, ← g.date.digits_number, hdigits]
  rw [hdigits] at hl
  have hsuffix := List.append_cancel_left (List.append_cancel_left hl)
  have hindex := suffix_injective (String.toList_inj.mp hsuffix)
  cases f
  cases g
  exact congr (congrArg LogFile.mk hdate) hindex

end LogFile

/-! ## what the disk shows -/

namespace Disk

section
variable (disk : Disk) (file : String)

theorem lookup_append_line (line other : String) :
    (disk.append file line).lookup other = (disk.lookup other).map fun e =>
      if other = file then ⟨e.size + line.utf8ByteSize, e.ours ++ [line]⟩ else e := by
  unfold append
  induction disk with
  | nil => rfl
  | cons e disk ih =>
    rw [List.map_cons, List.lookup_cons, List.lookup_cons]
    have hfst : (if e.1 = file then (e.1, (⟨e.2.size + line.utf8ByteSize, e.2.ours ++ [line]⟩ : File))
        else e).1 = e.1 := by split <;> rfl
    rw [hfst]
    by_cases h : other = e.1
    · rw [beq_iff_eq.mpr h, h]
      by_cases hf : e.1 = file
      · rw [if_pos hf]
        exact congrArg some (if_pos hf).symm
      · rw [if_neg hf]
        exact congrArg some (if_neg hf).symm
    · rw [beq_eq_false_iff_ne.mpr h]
      exact ih

theorem lookup_create (other : String) : (disk.create file).lookup other
    = if other = file then some ((disk.lookup file).getD ⟨0, []⟩) else disk.lookup other := by
  unfold create
  cases h : disk.lookup file with
  | some f =>
    dsimp only
    split
    · rename_i e
      rw [e, h]
      rfl
    · rfl
  | none =>
    dsimp only
    rw [List.lookup_append]
    split
    · rename_i e
      rw [e, h, List.lookup_cons_self]
      rfl
    · rename_i e
      rw [List.lookup_cons, beq_eq_false_iff_ne.mpr e, List.lookup_nil, Option.or_none]

theorem ours_create (other : String) : (disk.create file).ours other = disk.ours other := by
  unfold ours
  rw [lookup_create]
  split
  · rename_i e
    rw [e]
    cases disk.lookup file <;> rfl
  · rfl

theorem ours_append_line {line : String} (h : disk.lookup file ≠ none) (other : String) :
    (disk.append file line).ours other
      = disk.ours other ++ if other = file then [line] else [] := by
  unfold ours
  rw [lookup_append_line]
  cases ho : disk.lookup other with
  | none =>
    rw [if_neg (fun e : other = file => h (e ▸ ho))]
    rfl
  | some e =>
    rw [Option.map_some]
    split
    · rfl
    · exact (List.append_nil _).symm

end

end Disk

/-! ## selecting the file -/

namespace GLog

/-- the stream is open on `_last_log_file`, which exists, or closed -/
def Streaming (g : GLog) (disk : Disk) : Prop :=
  ∀ f, g._log_stream = some f → f = g._last_log_file ∧ disk.lookup f ≠ none

/-- the stream is open on `_last_log_file`, or closed -/
def Named (g : GLog) : Prop := ∀ f, g._log_stream = some f → f = g._last_log_file

instance (g : GLog) : Decidable g.Named :=
  match h : g._log_stream with
  | none => isTrue fun f hf => by rw [h] at hf; cases hf
  | some f =>
    decidable_of_iff (f = g._last_log_file)
      ⟨fun e f' hf => by rw [h] at hf; exact Option.some.inj hf ▸ e, fun hn => hn f h⟩

/-- `_last_time` is of that day -/
structure Dated (g : GLog) (d : Date) : Prop where
  year : g._last_time.tm_year = d.year - 1900
  month : g._last_time.tm_mon = d.month - 1
  day : g._last_time.tm_mday = d.day

/-- the file of a day, with the present index -/
def file (g : GLog) (d : Date) : LogFile :=
  ⟨d, if g._split_size = 0 then none else some g._split_index⟩

section
variable {g : GLog} {disk : Disk}

theorem Streaming.named (h : g.Streaming disk) : g.Named := fun f hf => (h f hf).1

theorem Named.openOrCreateFile (h : g.Named) (disk : Disk) (file : String) :
    (g.openOrCreateFile disk file).1 = { g with _last_log_file := file, _log_stream := some file } := by
  unfold GLog.openOrCreateFile
  by_cases hf : file = g._last_log_file
  · rw [if_neg (not_not.mpr hf)]
    dsimp only
    cases hs : g._log_stream with
    | some f =>
      have e : f = file := (h f hs).trans hf.symm
      show g = { g with _last_log_file := file, _log_stream := some file }
      rw [← e, ← hs, h f hs]
    | none =>
      show ({ g with _log_stream := some g._last_log_file } : GLog) = _
      rw [← hf]
  · rw [if_pos hf]

theorem openOrCreateFile_spec (h : g.Streaming disk) (file : String) :
    (g.openOrCreateFile disk file).1 = { g with _last_log_file := file, _log_stream := some file }
    ∧ (∀ other, (g.openOrCreateFile disk file).2.ours other = disk.ours other)
    ∧ (g.openOrCreateFile disk file).2.lookup file ≠ none := by
  have hexists : (disk.create file).lookup file ≠ none := by
    rw [Disk.lookup_create, if_pos rfl]
    exact Option.some_ne_none _
  refine ⟨h.named.openOrCreateFile disk file, ?_⟩
  unfold GLog.openOrCreateFile
  by_cases hf : file = g._last_log_file
  · rw [if_neg (not_not.mpr hf)]
    dsimp only
    cases hs : g._log_stream with
    | some f =>
      obtain ⟨e, hlookup⟩ := h f hs
      exact ⟨fun _ => rfl, (e.trans hf.symm) ▸ hlookup⟩
    | none =>
      dsimp only
      rw [← hf]
      exact ⟨disk.ours_create file, hexists⟩
  · rw [if_pos hf]
    exact ⟨disk.ours_create file, hexists⟩

theorem Dated.getCurrentDateTime {d : Date} (h : g.Dated d) : g.getCurrentDateTime = d.digits := by
  unfold GLog.getCurrentDateTime Date.digits
  rw [h.year, h.month, h.day, Int.sub_add_cancel, Int.sub_add_cancel, format02d_natCast,
    format02d_natCast]
  rfl

theorem Dated.fileName {d : Date} (h : g.Dated d) :
    (g.file d).fileName g.toGLogConfig = if g._split_size = 0 then g.log_name else g.split_name := by
  unfold LogFile.fileName file split_name log_name
  rw [h.getCurrentDateTime]
  split
  · exact String.append_empty
  · exact String.append_assoc.symm

theorem checkLoop_spec {fuel : Nat} {r : GLog × Disk} (h : checkLoop disk fuel g = some r) :
    ∃ j, g._split_index ≤ j ∧ r = ({ g with _split_index := j } : GLog).openOrCreateFile disk
      ({ g with _split_index := j } : GLog).split_name := by
  induction fuel generalizing g with
  | zero => cases h
  | succ fuel ih =>
    rw [checkLoop] at h
    split at h
    · split at h
      · split at h
        · cases h
        · obtain ⟨j, hj, e⟩ := ih h
          exact ⟨j, Nat.le_of_succ_le hj, e⟩
      · exact ⟨_, Nat.le_refl _, (Option.some.inj h).symm⟩
    · exact ⟨_, Nat.le_refl _, (Option.some.inj h).symm⟩

theorem checkAndUpdate_spec (p : Ptime) :
    (g.checkAndUpdateLastCreateFileDate (to_tm p)).1.Dated p.date
    ∧ (g.Dated p.date → (g.checkAndUpdateLastCreateFileDate (to_tm p)).1 = g)
    ∧ ∃ t j, (g.checkAndUpdateLastCreateFileDate (to_tm p)).1
        = { g with _last_time := t, _split_index := j } := by
  unfold checkAndUpdateLastCreateFileDate
  split
  · rename_i hne
    refine ⟨⟨rfl, rfl, rfl⟩, fun hd => ?_, _, _, rfl⟩
    rcases hne with h | h | h
    · exact absurd hd.year.symm h
    · exact absurd hd.month.symm h
    · exact absurd hd.day.symm h
  · rename_i heq
    have hy : (to_tm p).tm_year = g._last_time.tm_year := not_not.mp fun h => heq (Or.inl h)
    have hm : (to_tm p).tm_mon = g._last_time.tm_mon :=
      not_not.mp fun h => heq (Or.inr (Or.inl h))
    have hd : (to_tm p).tm_mday = g._last_time.tm_mday :=
      not_not.mp fun h => heq (Or.inr (Or.inr h))
    exact ⟨⟨hy.symm, hm.symm, hd.symm⟩, fun _ => rfl, _, _, rfl⟩

/-- what `checkLogFile` leaves behind: the stream on the file of the day -/
structure Selected (g : GLog) (disk : Disk) (d : Date) (g' : GLog) (disk' : Disk) : Prop where
  dated : g'.Dated d
  config : g'.toGLogConfig = g.toGLogConfig
  waiting : g'._waiting_list = g._waiting_list
  writing : g'._writing_list = g._writing_list
  last : g'._last_log_file = (g'.file d).fileName g'.toGLogConfig
  stream : g'._log_stream = some ((g'.file d).fileName g'.toGLogConfig)
  lookup : disk'.lookup ((g'.file d).fileName g'.toGLogConfig) ≠ none
  ours : ∀ other, disk'.ours other = disk.ours other
  index : g.Dated d → g._split_index ≤ g'._split_index

theorem Streaming.congr {g' : GLog} (h : g.Streaming disk) (h1 : g'._log_stream = g._log_stream)
    (h2 : g'._last_log_file = g._last_log_file) : g'.Streaming disk := by
  unfold Streaming
  rw [h1, h2]
  exact h

theorem selected_open (h : g.Streaming disk) {d : Date} {t : Tm} {j : Nat}
    (hd : ({ g with _last_time := t, _split_index := j } : GLog).Dated d)
    (hj : g.Dated d → g._split_index ≤ j) {file : String}
    (hfile : file = (({ g with _last_time := t, _split_index := j } : GLog).file d).fileName
      g.toGLogConfig) {r : GLog × Disk}
    (hr : r = ({ g with _last_time := t, _split_index := j } : GLog).openOrCreateFile disk file) :
    Selected g disk d r.1 r.2 := by
  have h' : ({ g with _last_time := t, _split_index := j } : GLog).Streaming disk := h.congr rfl rfl
  obtain ⟨h1, h2, h3⟩ := openOrCreateFile_spec h' file
  rw [← hr] at h1 h2 h3
  rw [h1]
  refine ⟨⟨hd.year, hd.month, hd.day⟩, rfl, rfl, rfl, hfile, congrArg some hfile, ?_, h2, hj⟩
  rw [hfile] at h3
  exact h3

theorem checkLogFile_spec (h : g.Streaming disk) (p : Ptime) {g' : GLog} {disk' : Disk}
    (hr : g.checkLogFile disk (to_tm p) = some (g', disk')) : Selected g disk p.date g' disk' := by
  obtain ⟨hd, hsame, t, j, hupd⟩ := checkAndUpdate_spec (g := g) p
  have hj : g.Dated p.date → g._split_index ≤ j := by
    intro h
    have e := congrArg GLog._split_index (hsame h)
    rw [hupd] at e
    exact e.ge
  unfold checkLogFile at hr
  dsimp only at hr
  rw [hupd] at hr hd
  split at hr
  · rename_i hzero
    have hname := hd.fileName
    rw [if_pos (Nat.le_zero.mp hzero)] at hname
    exact selected_open h hd hj hname.symm (Option.some.inj hr).symm
  · rename_i hpos
    obtain ⟨i, hi, e⟩ := checkLoop_spec hr
    have hd' : ({ g with _last_time := t, _split_index := i } : GLog).Dated p.date :=
      ⟨hd.year, hd.month, hd.day⟩
    refine selected_open h hd' (fun hg => (hj hg).trans hi) ?_ e
    have hne : g._split_size ≠ 0 := fun e => hpos e.le
    have hname := hd'.fileName
    rw [if_neg hne] at hname
    exact hname.symm

/-! ## the loop ends -/

theorem split_name_injective (g : GLog) {i j : Nat}
    (h : ({ g with _split_index := i } : GLog).split_name
      = ({ g with _split_index := j } : GLog).split_name) : i = j := by
  have hl : (g.log_name ++ "." ++ toString i).toList = (g.log_name ++ "." ++ toString j).toList :=
    congrArg String.toList h
  rw [String.toList_append (t := toString i), String.toList_append (t := toString j)] at hl
  have hd : toString i = toString j := String.toList_inj.mp (List.append_cancel_left hl)
  exact Option.some.inj (LogFile.suffix_injective (congrArg ("." ++ ·) hd))

theorem checkLoop_none {fuel : Nat} (h : checkLoop disk fuel g = none)
    (hmax : g._split_index + fuel ≤ 2147483647) :
    ∀ i < fuel, disk.lookup ({ g with _split_index := g._split_index + i } : GLog).split_name ≠ none := by
  induction fuel generalizing g with
  | zero => exact fun i hi => absurd hi (Nat.not_lt_zero i)
  | succ fuel ih =>
    rw [checkLoop] at h
    split at h
    · rename_i st_size hstat
      split at h
      · rw [if_neg (by omega)] at h
        intro i hi
        cases i with
        | zero =>
          intro hnone
          unfold Disk.stat at hstat
          rw [show ({ g with _split_index := g._split_index + 0 } : GLog) = g from rfl] at hnone
          rw [hnone] at hstat
          cases hstat
        | succ i =>
          have hi' := ih h (by dsimp only; omega) i (Nat.lt_of_succ_lt_succ hi)
          rw [Nat.add_assoc, Nat.add_comm 1 i] at hi'
          exact hi'
      · cases h
    · cases h

/-- files with consecutive indices are different files of the disk -/
theorem found_le_length (g : GLog) (disk : Disk) (n : Nat)
    (h : ∀ i < n, disk.lookup ({ g with _split_index := g._split_index + i } : GLog).split_name ≠ none) :
    n ≤ disk.length := by
  generalize hnames : ((List.range n).map fun i =>
    ({ g with _split_index := g._split_index + i } : GLog).split_name) = names
  have hnodup : names.Nodup := by
    rw [← hnames]
    refine List.Nodup.map_on (fun i _ j _ e => ?_) List.nodup_range
    have := split_name_injective g e
    omega
  have hsub : names ⊆ disk.map Prod.fst := by
    intro name hname
    rw [← hnames] at hname
    obtain ⟨i, hi, rfl⟩ := List.mem_map.mp hname
    by_contra hm
    refine h i (List.mem_range.mp hi) (List.lookup_eq_none_iff.mpr fun e he => ?_)
    exact bne_iff_ne.mpr fun heq => hm (heq ▸ List.mem_map_of_mem he)
  have hlen := (List.subperm_of_subset hnodup hsub).length_le
  rw [← hnames, List.length_map, List.length_map, List.length_range] at hlen
  exact hlen

/-- **The loop ends**, as long as the index stays an `int`: it finds each file at most once. -/
theorem checkLoop_defined (hmax : g._split_index + (disk.length + 1) ≤ 2147483647) :
    ∃ r, checkLoop disk (disk.length + 1) g = some r := by
  cases h : checkLoop disk (disk.length + 1) g with
  | some r => exact ⟨r, rfl⟩
  | none =>
    exfalso
    have hlen := found_le_length g disk _ (checkLoop_none h hmax)
    omega

theorem checkLogFile_defined (p : Ptime)
    (hmax : max g._split_index 1 + (disk.length + 1) ≤ 2147483647) :
    ∃ r, g.checkLogFile disk (to_tm p) = some r := by
  unfold checkLogFile
  dsimp only
  split
  · exact ⟨_, rfl⟩
  · refine checkLoop_defined ?_
    unfold checkAndUpdateLastCreateFileDate
    split <;> dsimp only <;> omega

end

end GLog

end JMEngine.Log
