import Mathlib.Data.Prod.Lex
import Mathlib.Order.Basic
import Mathlib.Tactic.Common

/-!
# The logger (source/log/JME_GLog.cpp, include/log/JME_GLog.h)

`log` formats a line and puts it on `_waiting_list`; the log thread swaps that list with
`_writing_list` every few seconds, selects the file of the day and appends the lines to it.  A file is
followed by one with the next index once it has `_split_size` bytes.

* `GLog.log`            level checks and the text of a line;
* `GLog.checkLogFile`   the file of the day, `openOrCreateFile` on it;
* `LogFile`             a date and, when files are split, an index; its name and its place in order;
* `Disk`                the files, with their sizes and with the lines this process has appended.
-/

set_option linter.unusedSectionVars false

namespace JMEngine.Log

/-! ## levels and times -/

inductive GLogLevel where
  | GLog_ALL
  | GLog_TRACE
  | GLog_DEBUG
  | GLog_INFO
  | GLog_WARN
  | GLog_ERROR
  | GLog_FATAL
  | GLog_OFF
  deriving DecidableEq, Repr

def GLogLevel.value : GLogLevel → Nat
  | .GLog_ALL => 1
  | .GLog_TRACE => 2
  | .GLog_DEBUG => 3
  | .GLog_INFO => 4
  | .GLog_WARN => 5
  | .GLog_ERROR => 6
  | .GLog_FATAL => 7
  | .GLog_OFF => 8

def getGLogLevelName : GLogLevel → String
  | .GLog_ALL => "ALL"
  | .GLog_TRACE => "TRACE"
  | .GLog_DEBUG => "DEBUG"
  | .GLog_INFO => "INFO"
  | .GLog_WARN => "WARN"
  | .GLog_ERROR => "ERROR"
  | .GLog_FATAL => "FATAL"
  | .GLog_OFF => "OFF"

structure Date where
  year : Nat
  month : Nat
  day : Nat
  hyear : 1400 ≤ year ∧ year ≤ 9999
  hmonth : 1 ≤ month ∧ month ≤ 12
  hday : 1 ≤ day ∧ day ≤ 31
  deriving DecidableEq, Repr

/-- the fields of `struct tm` that are used -/
structure Tm where
  tm_year : Int
  tm_mon : Int
  tm_mday : Int
  tm_hour : Int
  tm_min : Int
  tm_sec : Int
  deriving DecidableEq, Repr

structure Ptime where
  date : Date
  hours : Nat
  minutes : Nat
  seconds : Nat
  deriving DecidableEq, Repr

def to_tm (p : Ptime) : Tm where
  tm_year := p.date.year - 1900
  tm_mon := p.date.month - 1
  tm_mday := p.date.day
  tm_hour := p.hours
  tm_min := p.minutes
  tm_sec := p.seconds

/-- `%02d` -/
def format02d (i : Int) : String :=
  if 0 ≤ i ∧ i < 10 then "0" ++ toString i else toString i

/-! ## files -/

/-- a file: its size, and the lines that this process has appended -/
structure File where
  size : Nat
  ours : List String
  deriving DecidableEq, Repr

abbrev Disk := List (String × File)

namespace Disk

/-- `st_size`, if `stat` succeeds -/
def stat (disk : Disk) (file : String) : Option Nat := (disk.lookup file).map File.size

/-- `ofstream::open` with `ios_base::app` -/
def create (disk : Disk) (file : String) : Disk :=
  match disk.lookup file with
  | some _ => disk
  | none => disk ++ [(file, ⟨0, []⟩)]

/-- `<<` on a stream that was opened so -/
def append (disk : Disk) (file line : String) : Disk :=
  disk.map fun e =>
    if e.1 = file then (e.1, ⟨e.2.size + line.utf8ByteSize, e.2.ours ++ [line]⟩) else e

def ours (disk : Disk) (file : String) : List String := (disk.lookup file).elim [] File.ours

end Disk

/-! ## the logger -/

/-- what `readConfig` sets -/
structure GLogConfig where
  _name : String
  _log_path : String
  _file_level : GLogLevel
  _screen_level : GLogLevel
  _split_size : Nat
  deriving DecidableEq, Repr

/-- `_log_stream` is the file on which the stream is open -/
structure GLog extends GLogConfig where
  _last_log_file : String
  _log_stream : Option String
  _last_time : Tm
  _split_index : Nat
  _waiting_list : List String
  _writing_list : List String
  deriving DecidableEq, Repr

/-- what `log` is called with: `text` is the formatted message, or what the formatting threw -/
structure LogArgs where
  level : GLogLevel
  file : String
  function : String
  line : Int
  thread : String
  now : Ptime
  text : Except String String
  deriving DecidableEq, Repr

/-- a call that goes on: its line, and whether it still has to print it and to put it on the list -/
structure LogCall where
  level : GLogLevel
  logStr : String
  isOutScreen : Bool
  isOutFile : Bool
  deriving DecidableEq, Repr

namespace GLogConfig

section
variable (cfg : GLogConfig)

def checkToFileLogLevel (level : GLogLevel) : Bool := cfg._file_level.value ≤ level.value

def checkToScreenLogLevel (level : GLogLevel) : Bool := cfg._screen_level.value ≤ level.value

/-- `[time] [file:line:function:thread] [level] text` -/
def logStr (a : LogArgs) (level : GLogLevel) (text : String) : String :=
  let now := to_tm a.now
  let ntm := toString (now.tm_year + 1900) ++ "-" ++ format02d (now.tm_mon + 1) ++ "-"
    ++ format02d now.tm_mday ++ " " ++ toString now.tm_hour ++ ":" ++ toString now.tm_min ++ ":"
    ++ toString now.tm_sec
  "[" ++ ntm ++ "] [" ++ a.file ++ ":" ++ toString a.line ++ ":" ++ a.function ++ ":" ++ a.thread
    ++ "] [" ++ getGLogLevelName level ++ "] " ++ text ++ "\n"

/-- `log` of a text -/
def logText (a : LogArgs) (level : GLogLevel) (text : String) : Option LogCall :=
  let isOutFile := cfg.checkToFileLogLevel level
  let isOutScreen := cfg.checkToScreenLogLevel level
  if !isOutFile && !isOutScreen then none
  else some ⟨level, logStr a level text, isOutScreen, isOutFile⟩

/-- `log`, up to the first lock.  A message that cannot be formatted is logged as an error. -/
def log (a : LogArgs) : Option LogCall :=
  if !cfg.checkToFileLogLevel a.level && !cfg.checkToScreenLogLevel a.level then none
  else
    match a.text with
    | .ok text => cfg.logText a a.level text
    | .error what => cfg.logText a .GLog_ERROR ("format log error ==> [ " ++ what ++ " ]")

end

end GLogConfig

namespace GLog

section
variable (g : GLog)

def openOrCreateFile (disk : Disk) (file : String) : GLog × Disk :=
  -- another file: the stream is closed if it is open
  let g := if file ≠ g._last_log_file then { g with _log_stream := none, _last_log_file := file } else g
  match g._log_stream with
  | some _ => (g, disk)
  | none => ({ g with _log_stream := some g._last_log_file }, disk.create g._last_log_file)

def checkAndUpdateLastCreateFileDate (now : Tm) : GLog × Bool :=
  if now.tm_year ≠ g._last_time.tm_year ∨ now.tm_mon ≠ g._last_time.tm_mon
      ∨ now.tm_mday ≠ g._last_time.tm_mday then
    ({ g with _last_time := now, _split_index := 1 }, true)
  else (g, false)

def getCurrentDateTime : String :=
  toString (g._last_time.tm_year + 1900) ++ format02d (g._last_time.tm_mon + 1)
    ++ format02d g._last_time.tm_mday

/-- `%s%s.%s.log` -/
def log_name : String := g._log_path ++ g._name ++ "." ++ g.getCurrentDateTime ++ ".log"

/-- `%s%s.%s.log.%d` -/
def split_name : String := g.log_name ++ "." ++ toString g._split_index

end

/-- the `while (1)` of `checkLogFile`, at most `fuel` rounds; `++_split_index` beyond `INT_MAX` is
undefined -/
def checkLoop (disk : Disk) : Nat → GLog → Option (GLog × Disk)
  | 0, _ => none
  | fuel + 1, g =>
    match disk.stat g.split_name with
    | some st_size =>
      if g._split_size ≤ st_size ∧ g._split_size ≠ 0 then
        if g._split_index = 2147483647 then none
        else checkLoop disk fuel { g with _split_index := g._split_index + 1 }
      else some (g.openOrCreateFile disk g.split_name)
    | none => some (g.openOrCreateFile disk g.split_name)

/-- every round but the last finds another file -/
def checkLogFile (g : GLog) (disk : Disk) (now : Tm) : Option (GLog × Disk) :=
  let g := (g.checkAndUpdateLastCreateFileDate now).1
  if g._split_size ≤ 0 then some (g.openOrCreateFile disk g.log_name)
  else checkLoop disk (disk.length + 1) g

end GLog

end JMEngine.Log
