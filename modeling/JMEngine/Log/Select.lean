import JMEngine.Log.Files
import JMEngine.Lib.Runs
import Mathlib.Data.Nat.Find
import Mathlib.Order.Bounds.Basic

/-!
# Which file the logger selects

`checkLogFile` looks for the first index, from that of the last call on, whose file of the day is
missing or has room.

* `hasRoom`               missing, or smaller than the split size;
* `startIndex`            where the search starts: at 1 on a new day;
* `checkLoop_finds`       the loop, for a disk with such a file;
* `streamCalls`           the calls that `openOrCreateFile` makes on the stream;
* `checkLogFile_least`    **the file that is selected, and the stream on it**.
-/

set_option linter.unusedSectionVars false

namespace JMEngine.Log
open Runs

/-! ## the stream -/

/-- a call on `_log_stream` -/
inductive StreamCall where
  | close
  | open (file : String)
  deriving DecidableEq, Repr

/-- a stream as the file on which it is open; `open` fails on a stream that is open -/
def StreamCall.apply : Option String → StreamCall → Option (Option String)
  | some _, .close => some none
  | none, .close => none
  | none, .open file => some (some file)
  | some _, .open _ => none

namespace GLog

/-- the calls of `openOrCreateFile`, in order -/
def streamCalls (g : GLog) (file : String) : List StreamCall :=
  if file ≠ g._last_log_file then
    if g._log_stream.isSome then [.close, .open file] else [.open file]
  else if g._log_stream.isSome then [] else [.open g._last_log_file]

section
variable {g : GLog}

theorem exec_streamCalls (g : GLog) (disk : Disk) (file : String) :
    exec StreamCall.apply g._log_stream (g.streamCalls file)
      = some (g.openOrCreateFile disk file).1._log_stream := by
  unfold streamCalls openOrCreateFile
  by_cases hf : file = g._last_log_file
  · rw [if_neg (not_not.mpr hf), if_neg (not_not.mpr hf)]
    dsimp only
    cases hs : g._log_stream with
    | none => rfl
    | some f => exact congrArg some hs.symm
  · rw [if_pos hf, if_pos hf]
    cases g._log_stream <;> rfl

theorem Named.streamCalls (h : g.Named) (file : String) :
    GLog.streamCalls g file = match g._log_stream with
      | none => [.open file]
      | some f => if f = file then [] else [.close, .open file] := by
  unfold GLog.streamCalls
  cases hs : g._log_stream with
  | none =>
    by_cases hf : file = g._last_log_file
    · rw [if_neg (not_not.mpr hf), hf]
      rfl
    · rw [if_pos hf]
      rfl
  | some f =>
    have e := h f hs
    by_cases hf : file = g._last_log_file
    · rw [if_neg (not_not.mpr hf)]
      exact (if_pos (e.trans hf.symm)).symm
    · rw [if_pos hf]
      exact (if_neg (fun h => hf (h.symm.trans e))).symm

end

end GLog

/-! ## the search -/

/-- missing, or smaller than the split size -/
def LogFile.HasRoom (cfg : GLogConfig) (disk : Disk) (f : LogFile) : Prop :=
  ∀ st_size, disk.stat (f.fileName cfg) = some st_size → st_size < cfg._split_size

instance (cfg : GLogConfig) (disk : Disk) (f : LogFile) : Decidable (f.HasRoom cfg disk) :=
  match h : disk.stat (f.fileName cfg) with
  | none => isTrue fun n hn => by rw [h] at hn; cases hn
  | some n =>
    decidable_of_iff (n < cfg._split_size)
      ⟨fun e n' hn => by rw [h] at hn; exact Option.some.inj hn ▸ e, fun hr => hr n h⟩

namespace GLog

instance (g : GLog) (d : Date) : Decidable (g.Dated d) :=
  decidable_of_iff (g._last_time.tm_year = d.year - 1900 ∧ g._last_time.tm_mon = d.month - 1
      ∧ g._last_time.tm_mday = d.day)
    ⟨fun h => ⟨h.1, h.2.1, h.2.2⟩, fun h => ⟨h.year, h.month, h.day⟩⟩

def startIndex (g : GLog) (d : Date) : Nat := if g.Dated d then g._split_index else 1

def Candidates (g : GLog) (disk : Disk) (d : Date) : Set Nat :=
  {j | g.startIndex d ≤ j ∧ LogFile.HasRoom g.toGLogConfig disk ⟨d, some j⟩}

section
variable {g : GLog} {disk : Disk} {d : Date}

theorem Dated.split_name (h : g.Dated d) (hs : g._split_size ≠ 0) :
    LogFile.fileName g.toGLogConfig ⟨d, some g._split_index⟩ = g.split_name := by
  have e := h.fileName
  unfold file at e
  rw [if_neg hs, if_neg hs] at e
  exact e

theorem Dated.index (h : g.Dated d) (j : Nat) : ({ g with _split_index := j } : GLog).Dated d :=
  ⟨h.year, h.month, h.day⟩

theorem Dated.startIndex (h : g.Dated d) : g.startIndex d = g._split_index := if_pos h

theorem checkLoop_room (hd : g.Dated d) (hs : g._split_size ≠ 0)
    (h : LogFile.HasRoom g.toGLogConfig disk ⟨d, some g._split_index⟩) (fuel : Nat) :
    checkLoop disk (fuel + 1) g = some (g.openOrCreateFile disk g.split_name) := by
  unfold LogFile.HasRoom at h
  rw [hd.split_name hs] at h
  rw [checkLoop]
  cases hstat : disk.stat g.split_name with
  | none => rfl
  | some st_size =>
    have hlt := h st_size hstat
    dsimp only
    rw [if_neg (by omega)]

theorem checkLoop_full (hd : g.Dated d) (hs : g._split_size ≠ 0)
    (h : ¬ LogFile.HasRoom g.toGLogConfig disk ⟨d, some g._split_index⟩) (fuel : Nat) :
    checkLoop disk (fuel + 1) g = if g._split_index = 2147483647 then none
      else checkLoop disk fuel { g with _split_index := g._split_index + 1 } := by
  unfold LogFile.HasRoom at h
  rw [hd.split_name hs] at h
  push Not at h
  obtain ⟨st_size, hstat, hle⟩ := h
  rw [checkLoop, hstat]
  exact if_pos ⟨hle, hs⟩

/-- **The loop stops at the least index with room**, after as many rounds as there are files before
it. -/
theorem checkLoop_finds (hd : g.Dated d) (hs : g._split_size ≠ 0) {j : Nat}
    (hj : IsLeast (g.Candidates disk d) j) (hmax : j ≤ 2147483647) {fuel : Nat}
    (hfuel : j < g._split_index + fuel) :
    checkLoop disk fuel g = some (({ g with _split_index := j } : GLog).openOrCreateFile disk
      ({ g with _split_index := j } : GLog).split_name) := by
  induction fuel generalizing g with
  | zero =>
    have h1 : g.startIndex d ≤ j := hj.1.1
    rw [hd.startIndex] at h1
    omega
  | succ fuel ih =>
    have h1 : g.startIndex d ≤ j := hj.1.1
    rw [hd.startIndex] at h1
    by_cases h : LogFile.HasRoom g.toGLogConfig disk ⟨d, some g._split_index⟩
    · have hle : j ≤ g._split_index := hj.2 ⟨hd.startIndex.le, h⟩
      have e : g._split_index = j := Nat.le_antisymm h1 hle
      rw [checkLoop_room hd hs h, ← e]
    · have hne : j ≠ g._split_index := fun e => h (e ▸ hj.1.2)
      rw [checkLoop_full hd hs h, if_neg (by omega)]
      have hd' := hd.index (g._split_index + 1)
      refine ih hd' hs ⟨⟨?_, hj.1.2⟩, fun i hi => hj.2 ⟨?_, hi.2⟩⟩ (by dsimp only; omega)
      · rw [hd'.startIndex]
        dsimp only
        omega
      · have hi' : _ ≤ i := hi.1
        rw [hd'.startIndex] at hi'
        rw [hd.startIndex]
        exact Nat.le_of_succ_le hi'

theorem checkLoop_overflows (hd : g.Dated d) (hs : g._split_size ≠ 0)
    (hint : g._split_index ≤ 2147483647) (h : ∀ j ≤ 2147483647, j ∉ g.Candidates disk d)
    (fuel : Nat) : checkLoop disk fuel g = none := by
  induction fuel generalizing g with
  | zero => rfl
  | succ fuel ih =>
    rw [checkLoop_full hd hs (fun hr => h _ hint ⟨hd.startIndex.le, hr⟩)]
    split
    · rfl
    · rename_i hne
      have hd' := hd.index (g._split_index + 1)
      refine ih hd' hs (by dsimp only; omega) fun j hj hc => h j hj ⟨?_, hc.2⟩
      have hc' : _ ≤ j := hc.1
      rw [hd'.startIndex] at hc'
      rw [hd.startIndex]
      exact Nat.le_of_succ_le hc'

theorem least_lt (hd : g.Dated d) (hs : g._split_size ≠ 0) {j : Nat}
    (hj : IsLeast (g.Candidates disk d) j) : j < g._split_index + (disk.length + 1) := by
  have hlen : j - g._split_index ≤ disk.length := by
    refine found_le_length g disk _ fun i hi hnone => ?_
    have hle : j ≤ g._split_index + i := by
      refine hj.2 ⟨hd.startIndex.le.trans (Nat.le_add_right _ _), fun st_size hstat => ?_⟩
      have e := (hd.index (g._split_index + i)).split_name hs
      dsimp only at e
      rw [e] at hstat
      unfold Disk.stat at hstat
      rw [hnone] at hstat
      cases hstat
    omega
  omega

theorem checkAndUpdate_start (g : GLog) (p : Ptime) :
    ∃ t, (g.checkAndUpdateLastCreateFileDate (to_tm p)).1
      = { g with _last_time := t, _split_index := g.startIndex p.date } := by
  obtain ⟨_, hsame, _, _, _⟩ := checkAndUpdate_spec (g := g) p
  by_cases hd : g.Dated p.date
  · rw [hsame hd, hd.startIndex]
    exact ⟨g._last_time, rfl⟩
  · unfold checkAndUpdateLastCreateFileDate
    split
    · refine ⟨to_tm p, ?_⟩
      rw [startIndex, if_neg hd]
    · rename_i heq
      exfalso
      refine hd ⟨?_, ?_, ?_⟩
      · exact (not_not.mp fun h => heq (Or.inl h)).symm
      · exact (not_not.mp fun h => heq (Or.inr (Or.inl h))).symm
      · exact (not_not.mp fun h => heq (Or.inr (Or.inr h))).symm

theorem candidates_start (disk : Disk) {t : Tm} {i : Nat}
    (hd : ({ g with _last_time := t, _split_index := i } : GLog).Dated d) (hi : i = g.startIndex d) :
    ({ g with _last_time := t, _split_index := i } : GLog).Candidates disk d = g.Candidates disk d := by
  unfold Candidates
  rw [hd.startIndex, ← hi]

theorem checkLogFile_overflows (hs : g._split_size ≠ 0) (p : Ptime)
    (hint : g._split_index ≤ 2147483647) (h : ∀ j ≤ 2147483647, j ∉ g.Candidates disk p.date) :
    g.checkLogFile disk (to_tm p) = none := by
  obtain ⟨hd, _, _⟩ := checkAndUpdate_spec (g := g) p
  obtain ⟨t, hupd⟩ := checkAndUpdate_start g p
  rw [hupd] at hd
  unfold checkLogFile
  dsimp only
  rw [hupd, if_neg (by dsimp only; omega)]
  refine checkLoop_overflows hd hs ?_ ?_ _
  · show g.startIndex p.date ≤ 2147483647
    unfold startIndex
    split <;> omega
  · rw [candidates_start disk hd rfl]
    exact h

end

theorem checkLogFile_opens {g : GLog} (hs : g._split_size ≠ 0) {disk : Disk} {p : Ptime} {m : Nat}
    (hm : IsLeast (g.Candidates disk p.date) m) (hmax : m ≤ 2147483647) :
    ∃ gm : GLog, (∃ t, gm = { g with _last_time := t, _split_index := m }) ∧ gm.Dated p.date ∧
      g.checkLogFile disk (to_tm p) = some (gm.openOrCreateFile disk gm.split_name) := by
  obtain ⟨hd, _, _⟩ := checkAndUpdate_spec (g := g) p
  obtain ⟨t, hupd⟩ := checkAndUpdate_start g p
  rw [hupd] at hd
  have hm' := hm
  rw [← candidates_start disk hd rfl] at hm'
  refine ⟨{ g with _last_time := t, _split_index := m }, ⟨t, rfl⟩, hd.index m, ?_⟩
  unfold checkLogFile
  dsimp only
  rw [hupd, if_neg (by dsimp only; omega)]
  exact checkLoop_finds hd hs hm' hmax (least_lt hd hs hm')

/-- **`checkLogFile` selects the first file with room**: the index is the least from the start on
whose file of the day is missing or smaller than the split size, the stream is open on that file, and
another file was closed before. -/
theorem checkLogFile_least (g : GLog) (hg : g.Named) (hs : g._split_size ≠ 0) (disk : Disk) (p : Ptime)
    (h : ∃ j ≤ 2147483647, j ∈ g.Candidates disk p.date) :
    ∃ g' disk' file, g.checkLogFile disk (to_tm p) = some (g', disk') ∧
      IsLeast (g.Candidates disk p.date) g'._split_index ∧
      file = LogFile.fileName g.toGLogConfig ⟨p.date, some g'._split_index⟩ ∧
      g'._log_stream = some file ∧
      exec StreamCall.apply g._log_stream (g.streamCalls file) = some g'._log_stream ∧
      (∀ other, g._log_stream = some other → other ≠ file →
        g.streamCalls file = [.close, .open file]) ∧
      (g.Dated p.date → g._split_index ≤ g'._split_index) := by
  obtain ⟨j, hmax, hj⟩ := h
  have hex : ∃ j, j ∈ g.Candidates disk p.date := ⟨j, hj⟩
  obtain ⟨m, hm⟩ : ∃ m, IsLeast (g.Candidates disk p.date) m := by
    classical
    exact ⟨Nat.find hex, Nat.find_spec hex, fun i hi => Nat.find_min' hex hi⟩
  obtain ⟨gm, ⟨t, hgm⟩, hdm, hcheck⟩ := checkLogFile_opens hs hm ((hm.2 hj).trans hmax)
  have hname : LogFile.fileName g.toGLogConfig ⟨p.date, some m⟩ = gm.split_name := by
    rw [hgm] at hdm ⊢
    exact hdm.split_name hs
  have hnamed : gm.Named := hgm ▸ hg
  have hopen : (gm.openOrCreateFile disk gm.split_name).1
      = { g with _last_time := t, _split_index := m, _last_log_file := gm.split_name,
                 _log_stream := some gm.split_name } := by
    rw [hnamed.openOrCreateFile, hgm]
  have hcalls := exec_streamCalls gm disk gm.split_name
  refine ⟨(gm.openOrCreateFile disk gm.split_name).1, (gm.openOrCreateFile disk gm.split_name).2,
    LogFile.fileName g.toGLogConfig ⟨p.date, some m⟩, hcheck, ?_, ?_, ?_, ?_, ?_, ?_⟩
  · rw [hopen]
    exact hm
  · rw [hopen]
  · rw [hopen]
    exact congrArg some hname.symm
  · rw [← hcalls, hname, hgm]
    rfl
  · intro other ho hne
    rw [hg.streamCalls, ho]
    exact if_neg hne
  · intro hday
    rw [hopen]
    have h1 : g.startIndex p.date ≤ m := hm.1.1
    rw [hday.startIndex] at h1
    exact h1

/-- a logger in the middle of a day, its stream on the file with index `index` -/
def writing (index : Nat) : GLog where
  _name := "game"
  _log_path := "./log/"
  _file_level := .GLog_TRACE
  _screen_level := .GLog_TRACE
  _split_size := 10
  _last_log_file := "./log/game.20260105.log." ++ toString index
  _log_stream := some ("./log/game.20260105.log." ++ toString index)
  _last_time := ⟨126, 0, 5, 12, 0, 0⟩
  _split_index := index
  _waiting_list := []
  _writing_list := []

theorem january : 1 ≤ 1 ∧ 1 ≤ 12 := by decide

def thatDay : Ptime := ⟨⟨2026, 1, 5, by decide, january, by decide⟩, 13, 0, 0⟩

def filled (index : Nat) : Disk := [("./log/game.20260105.log." ++ toString index, ⟨12, []⟩)]

theorem checkLogFile_least_filled :
    (writing 1).Named ∧ (writing 1)._split_size ≠ 0 ∧
      ∃ g' disk' file, (writing 1).checkLogFile (filled 1) (to_tm thatDay) = some (g', disk') ∧
        IsLeast ((writing 1).Candidates (filled 1) thatDay.date) g'._split_index ∧
        file = LogFile.fileName (writing 1).toGLogConfig ⟨thatDay.date, some g'._split_index⟩ ∧
        g'._log_stream = some file ∧
        exec StreamCall.apply (writing 1)._log_stream ((writing 1).streamCalls file)
          = some g'._log_stream ∧
        (∀ other, (writing 1)._log_stream = some other → other ≠ file →
          (writing 1).streamCalls file = [.close, .open file]) ∧
        ((writing 1).Dated thatDay.date → (writing 1)._split_index ≤ g'._split_index) :=
  ⟨by decide, by decide,
    checkLogFile_least (writing 1) (by decide) (by decide) (filled 1) thatDay
      ⟨2, by decide, by decide +kernel, by decide +kernel⟩⟩

/-- The index is an `int`: behind a full file with index `INT_MAX` there is no other. -/
theorem checkLogFile_not_least : ¬ ∀ (g : GLog) (disk : Disk) (p : Ptime), g.Named →
    g._split_size ≠ 0 → g._split_index ≤ 2147483647 →
    ∃ g' disk', g.checkLogFile disk (to_tm p) = some (g', disk') ∧
      IsLeast (g.Candidates disk p.date) g'._split_index := by
  intro h
  obtain ⟨g', disk', hr, _⟩ := h (writing 2147483647) (filled 2147483647) thatDay (by decide)
    (by decide) (by decide)
  have hnone : (writing 2147483647).checkLogFile (filled 2147483647) (to_tm thatDay) = none := by
    decide +kernel
  rw [hnone] at hr
  cases hr

end GLog

end JMEngine.Log
