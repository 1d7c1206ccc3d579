import JMEngine.Lib.Groups
import JMEngine.Lib.Runs
import JMEngine.Log.Files

/-!
# From `log` to the files

Any number of threads call `log` while the log thread runs `GLog::run` again and again: it swaps the two
lists, selects the file of the day, writes the lines one by one and clears its list.  Each event is what
happens under one lock, or one step of the log thread.

* `Logger.step`     one event; the local date does not go back, and writes succeed;
* `acceptedAt`      the line that a call of the run is to leave in the files, by its arguments alone;
* `Logger.Inv`      the lines of the files, of the rest of `_writing_list` and of `_waiting_list` are the
                    accepted lines that entered `_waiting_list`; the files were written in order;
* `written_once`    **every accepted line is in the files or still on its way, once and in order.**
-/

set_option linter.unusedSectionVars false

namespace JMEngine.Log
open Runs Groups

/-- where `run` is: its timer is armed, the lists are swapped, or the lines in `rest` are to be written -/
inductive RunPoint where
  | armed
  | swapped
  | writing (rest : List String)
  deriving DecidableEq, Repr

/-- The logger and the files; `clock` is the date at the last selection.  `calls` are the calls of `log`
and what each has still to do, nothing if it returned at once; `written` says for each line which file it
was appended to. -/
structure Logger where
  log : GLog
  disk : Disk
  point : RunPoint
  clock : Date
  calls : List (Option LogCall)
  written : List (LogFile × String)

inductive LogEvent where
  | log (a : LogArgs)
  | print (k : Nat)
  | enqueue (k : Nat)
  | swap
  | select (now : Ptime)
  | write
  | clear

/-! ## what is accepted -/

/-- the arguments of the calls of `log` in a run -/
def logged (es : List LogEvent) : List LogArgs :=
  es.filterMap fun e => match e with
    | .log a => some a
    | _ => none

/-- the calls that put their line on `_waiting_list`, in that order -/
def entered (es : List LogEvent) : List Nat :=
  es.filterMap fun e => match e with
    | .enqueue k => some k
    | _ => none

/-- The line that a call is to leave in the files: its own if its level passes.  In place of a message
that cannot be formatted there is an error, which passes as an error does. -/
def accepted (cfg : GLogConfig) (a : LogArgs) : Option String :=
  match a.text with
  | .ok text =>
    if cfg.checkToFileLogLevel a.level then some (GLogConfig.logStr a a.level text) else none
  | .error what =>
    if (cfg.checkToFileLogLevel a.level || cfg.checkToScreenLogLevel a.level)
        && cfg.checkToFileLogLevel .GLog_ERROR then
      some (GLogConfig.logStr a .GLog_ERROR ("format log error ==> [ " ++ what ++ " ]"))
    else none

/-- the line that call `k` of a run is to leave in the files -/
def acceptedAt (cfg : GLogConfig) (es : List LogEvent) (k : Nat) : Option String :=
  (logged es)[k]?.bind (accepted cfg)

theorem logged_append (es fs : List LogEvent) : logged (es ++ fs) = logged es ++ logged fs :=
  List.filterMap_append ..

theorem entered_append (es fs : List LogEvent) : entered (es ++ fs) = entered es ++ entered fs :=
  List.filterMap_append ..

/-- the line that a call has still to put on the list -/
def LogCall.pending (call : LogCall) : Option String :=
  if call.isOutFile then some call.logStr else none

theorem pending_logText (cfg : GLogConfig) (a : LogArgs) (level : GLogLevel) (text : String) :
    (cfg.logText a level text).bind LogCall.pending =
      if cfg.checkToFileLogLevel level then some (GLogConfig.logStr a level text) else none := by
  unfold GLogConfig.logText LogCall.pending
  cases cfg.checkToFileLogLevel level <;> cases cfg.checkToScreenLogLevel level <;> rfl

theorem pending_log (cfg : GLogConfig) (a : LogArgs) :
    (cfg.log a).bind LogCall.pending = accepted cfg a := by
  unfold GLogConfig.log accepted
  cases hf : cfg.checkToFileLogLevel a.level with
  | true =>
    cases a.text with
    | ok text => exact (pending_logText cfg a a.level text).trans (by rw [hf])
    | error what => exact pending_logText cfg a .GLog_ERROR _
  | false =>
    cases cfg.checkToScreenLogLevel a.level with
    | true =>
      cases a.text with
      | ok text => exact (pending_logText cfg a a.level text).trans (by rw [hf])
      | error what => exact pending_logText cfg a .GLog_ERROR _
    | false => cases a.text <;> rfl

namespace Logger

/-- the logger with its configuration, some files that exist already, and whatever is in `_last_time` -/
def new (cfg : GLogConfig) (last_time : Tm) (existing : List (String × Nat)) (clock : Date) : Logger where
  log := { cfg with
    _last_log_file := ""
    _log_stream := none
    _last_time := last_time
    _split_index := 1
    _waiting_list := []
    _writing_list := [] }
  disk := existing.map fun e => (e.1, ⟨e.2, []⟩)
  point := .armed
  clock := clock
  calls := []
  written := []

def current (w : Logger) : LogFile := w.log.file w.clock

/-- the part of `_writing_list` that is not written yet -/
def rest (w : Logger) : List String :=
  match w.point with
  | .writing rest => rest
  | _ => w.log._writing_list

/-- call `k`, if it goes on -/
def call (w : Logger) (k : Nat) : Option LogCall := w.calls[k]?.join

/-- a call prints its line first, then puts it on the list -/
def step (w : Logger) : LogEvent → Option Logger
  | .log a => some { w with calls := w.calls ++ [w.log.toGLogConfig.log a] }
  | .print k =>
    match w.call k with
    | none => none
    | some call =>
      if call.isOutScreen then
        some { w with calls := w.calls.set k (some { call with isOutScreen := false }) }
      else none
  | .enqueue k =>
    match w.call k with
    | none => none
    | some call =>
      if !call.isOutScreen && call.isOutFile then
        some { w with
          log := { w.log with _waiting_list := w.log._waiting_list ++ [call.logStr] }
          calls := w.calls.set k (some { call with isOutFile := false }) }
      else none
  | .swap =>
    match w.point with
    | .armed =>
      if w.log._waiting_list.isEmpty then some w
      else some { w with
        log := { w.log with
          _writing_list := w.log._waiting_list
          _waiting_list := w.log._writing_list }
        point := .swapped }
    | _ => none
  | .select now =>
    match w.point with
    | .swapped =>
      if w.clock.number ≤ now.date.number then
        (w.log.checkLogFile w.disk (to_tm now)).map fun r =>
          { w with
            log := r.1
            disk := r.2
            clock := now.date
            point := .writing r.1._writing_list }
      else none
    | _ => none
  | .write =>
    match w.point, w.log._log_stream with
    | .writing (line :: rest), some file =>
      some { w with
        disk := w.disk.append file line
        point := .writing rest
        written := w.written ++ [(w.current, line)] }
    | _, _ => none
  | .clear =>
    match w.point with
    | .writing [] => some { w with log := { w.log with _writing_list := [] }, point := .armed }
    | _ => none

/-- the files among `files` are all that have lines of this process -/
def Covers (w : Logger) (cfg : GLogConfig) (files : List LogFile) : Prop :=
  ∀ name, w.disk.ours name ≠ [] → ∃ f ∈ files, f.fileName cfg = name

/-! ## the calls -/

/-- the line that call `k` has still to put on the list -/
def pending (w : Logger) (k : Nat) : Option String := (w.call k).bind LogCall.pending

/-- the accepted lines are on the list, or the call has still to put them there -/
structure Called (cfg : GLogConfig) (past : List LogEvent) (w : Logger) : Prop where
  calls : w.calls.length = (logged past).length
  nodup : (entered past).Nodup
  pending : ∀ k, k ∉ entered past → w.pending k = acceptedAt cfg past k
  entered : ∀ k ∈ entered past, w.pending k = none ∧ (acceptedAt cfg past k).isSome

section
variable {cfg : GLogConfig} {past : List LogEvent} {w w' : Logger}

theorem call_set {k : Nat} {call call' : LogCall} (hk : w.call k = some call)
    (hc : w'.calls = w.calls.set k (some call')) (j : Nat) :
    w'.call j = if k = j then some call' else w.call j := by
  have hlt : k < w.calls.length := by
    by_contra hge
    unfold Logger.call at hk
    rw [List.getElem?_eq_none (Nat.le_of_not_lt hge)] at hk
    cases hk
  unfold Logger.call
  rw [hc, List.getElem?_set]
  by_cases e : k = j
  · rw [if_pos e, if_pos e, if_pos hlt]
    rfl
  · rw [if_neg e, if_neg e]

theorem Called.congr (h : w.Called cfg past) {e : LogEvent} (hlog : logged [e] = [])
    (hent : JMEngine.Log.entered [e] = []) (hlen : w'.calls.length = w.calls.length)
    (hp : ∀ k, w'.pending k = w.pending k) : w'.Called cfg (past ++ [e]) := by
  have hacc : ∀ k, acceptedAt cfg (past ++ [e]) k = acceptedAt cfg past k := by
    intro k
    unfold acceptedAt
    rw [logged_append, hlog, List.append_nil]
  have hen : JMEngine.Log.entered (past ++ [e]) = JMEngine.Log.entered past := by
    rw [entered_append, hent, List.append_nil]
  refine ⟨?_, hen ▸ h.nodup, fun k hk => ?_, fun k hk => ?_⟩
  · rw [hlen, h.calls, logged_append, hlog, List.append_nil]
  · rw [hp, hacc]
    exact h.pending k (hen ▸ hk)
  · rw [hp, hacc]
    exact h.entered k (hen ▸ hk)

theorem acceptedAt_lt {es : List LogEvent} {k : Nat} (h : (acceptedAt cfg es k).isSome) :
    k < (logged es).length := by
  by_contra hge
  unfold acceptedAt at h
  rw [List.getElem?_eq_none (Nat.le_of_not_lt hge)] at h
  cases h

theorem acceptedAt_append {k : Nat} (es fs : List LogEvent) (h : k < (logged es).length) :
    acceptedAt cfg (es ++ fs) k = acceptedAt cfg es k := by
  unfold acceptedAt
  rw [logged_append, List.getElem?_append_left h]

theorem Called.log (h : w.Called cfg past) (a : LogArgs) (hc : w'.calls = w.calls ++ [cfg.log a]) :
    w'.Called cfg (past ++ [.log a]) := by
  have hen : JMEngine.Log.entered (past ++ [.log a]) = JMEngine.Log.entered past := by
    rw [entered_append]
    exact List.append_nil _
  have hold : ∀ k, k < (logged past).length → w'.pending k = w.pending k := by
    intro k hk
    unfold Logger.pending Logger.call
    rw [hc, List.getElem?_append_left (h.calls.symm ▸ hk)]
  refine ⟨?_, hen ▸ h.nodup, fun k hk => ?_, fun k hk => ?_⟩
  · rw [hc, logged_append, List.length_append, List.length_append, h.calls]
    rfl
  · rw [hen] at hk
    by_cases hlt : k < (logged past).length
    · rw [hold k hlt, acceptedAt_append _ _ hlt]
      exact h.pending k hk
    · have hge := Nat.le_of_not_lt hlt
      unfold Logger.pending Logger.call acceptedAt
      rw [hc, logged_append, List.getElem?_append_right (h.calls.symm ▸ hge),
        List.getElem?_append_right hge, h.calls]
      cases k - (logged past).length with
      | zero => exact pending_log cfg a
      | succ n => rfl
  · rw [hen] at hk
    have hlt := acceptedAt_lt (h.entered k hk).2
    rw [hold k hlt, acceptedAt_append _ _ hlt]
    exact h.entered k hk

theorem Called.print (h : w.Called cfg past) {k : Nat} {call : LogCall} (hk : w.call k = some call)
    (hc : w'.calls = w.calls.set k (some { call with isOutScreen := false })) :
    w'.Called cfg (past ++ [.print k]) := by
  refine h.congr rfl rfl (by rw [hc, List.length_set]) fun j => ?_
  unfold Logger.pending
  rw [call_set hk hc]
  by_cases e : k = j
  · rw [if_pos e, ← e, hk]
    rfl
  · rw [if_neg e]

theorem Called.enqueue (h : w.Called cfg past) {k : Nat} {call : LogCall} (hk : w.call k = some call)
    (hf : call.isOutFile = true)
    (hc : w'.calls = w.calls.set k (some { call with isOutFile := false })) :
    w'.Called cfg (past ++ [.enqueue k]) ∧ acceptedAt cfg past k = some call.logStr := by
  have hpend : w.pending k = some call.logStr := by
    unfold Logger.pending LogCall.pending
    rw [hk, Option.bind_some, hf, if_pos rfl]
  have hnot : k ∉ JMEngine.Log.entered past := by
    intro hm
    rw [(h.entered k hm).1] at hpend
    cases hpend
  have hacc : acceptedAt cfg past k = some call.logStr := (h.pending k hnot).symm.trans hpend
  have hsame : ∀ j, acceptedAt cfg (past ++ [.enqueue k]) j = acceptedAt cfg past j := by
    intro j
    unfold acceptedAt
    rw [logged_append]
    exact congrArg (fun l => (l[j]?).bind (accepted cfg)) (List.append_nil (logged past))
  have hen : JMEngine.Log.entered (past ++ [.enqueue k]) = JMEngine.Log.entered past ++ [k] := by
    rw [entered_append]
    rfl
  have hself : w'.pending k = none := by
    unfold Logger.pending
    rw [call_set hk hc, if_pos rfl]
    rfl
  have hother : ∀ j, k ≠ j → w'.pending j = w.pending j := by
    intro j hj
    unfold Logger.pending
    rw [call_set hk hc, if_neg hj]
  refine ⟨⟨?_, ?_, fun j hj => ?_, fun j hj => ?_⟩, hacc⟩
  · rw [hc, List.length_set, h.calls, logged_append]
    exact congrArg List.length (List.append_nil (logged past)).symm
  · rw [hen]
    exact List.nodup_append.mpr ⟨h.nodup, List.nodup_singleton k, fun a ha b hb e =>
      hnot (List.mem_singleton.mp hb ▸ e ▸ ha)⟩
  · rw [hen, List.mem_append, not_or, List.mem_singleton] at hj
    rw [hsame, hother j (Ne.symm hj.2)]
    exact h.pending j hj.1
  · rw [hen, List.mem_append, List.mem_singleton] at hj
    rw [hsame]
    by_cases e : k = j
    · rw [← e, hself, hacc]
      exact ⟨rfl, rfl⟩
    · rw [hother j e]
      exact h.entered j (hj.resolve_right fun e' => e e'.symm)

theorem Called.goes_on (h : w.Called cfg past) {k : Nat} {line : String}
    (hk : acceptedAt cfg past k = some line) (hnot : k ∉ JMEngine.Log.entered past) :
    ∃ w', exec step w [.enqueue k] = some w' ∨ exec step w [.print k, .enqueue k] = some w' := by
  obtain ⟨call, hcall, hp⟩ := Option.bind_eq_some_iff.mp ((h.pending k hnot).trans hk)
  have hf : call.isOutFile = true := by
    by_contra hf
    unfold LogCall.pending at hp
    rw [if_neg hf] at hp
    cases hp
  have henq : ∀ (v : Logger) (c : LogCall), v.call k = some c → c.isOutScreen = false →
      c.isOutFile = true → ∃ v', v.step (.enqueue k) = some v' := by
    intro v c hv h1 h2
    rw [step, hv]
    dsimp only
    rw [h1, h2]
    exact ⟨_, rfl⟩
  cases hs : call.isOutScreen with
  | false =>
    obtain ⟨w', h1⟩ := henq w call hcall hs hf
    exact ⟨w', Or.inl (exec_cons step [] h1)⟩
  | true =>
    have h1 : w.step (.print k) =
        some { w with calls := w.calls.set k (some { call with isOutScreen := false }) } := by
      rw [step, hcall]
      dsimp only
      rw [if_pos hs]
    obtain ⟨w', h2⟩ := henq { w with calls := w.calls.set k (some { call with isOutScreen := false }) }
      { call with isOutScreen := false } (by rw [call_set hcall rfl, if_pos rfl]) rfl hf
    exact ⟨w', Or.inr ((exec_cons step _ h1).trans (exec_cons step [] h2))⟩

end

/-! ## the files -/

structure Filed (cfg : GLogConfig) (w : Logger) : Prop where
  config : w.log.toGLogConfig = cfg
  streaming : w.log.Streaming w.disk
  closed : w.log._log_stream = none → w.written = []
  opened : ∀ f, w.log._log_stream = some f → w.log.Dated w.clock ∧ f = w.current.fileName cfg
  armed : w.point = .armed → w.log._writing_list = []
  ours : ∀ f, w.disk.ours f = (w.written.filter fun x => x.1.fileName cfg = f).map Prod.snd
  ascending : Ascending w.written
  last : ∀ x ∈ w.written, x.1 ≤ w.current

section
variable {cfg : GLogConfig} {w w' : Logger}

theorem new_filed (cfg : GLogConfig) (t : Tm) (existing : List (String × Nat)) (clock : Date) :
    (new cfg t existing clock).Filed cfg where
  config := rfl
  streaming := fun _ h => by cases h
  closed := fun _ => rfl
  opened := fun _ h => by cases h
  armed := fun _ => rfl
  ours := fun f => by
    show Disk.ours (existing.map fun e => (e.1, (⟨e.2, []⟩ : File))) f = []
    unfold Disk.ours
    induction existing with
    | nil => rfl
    | cons e existing ih =>
      rw [List.map_cons, List.lookup_cons]
      split
      · rfl
      · exact ih
  ascending := List.Pairwise.nil
  last := fun _ h => by cases h

theorem Filed.lists (h : w.Filed cfg) {a b : List String} {p : RunPoint}
    (hl : w'.log = { w.log with _waiting_list := a, _writing_list := b }) (hd : w'.disk = w.disk)
    (hp : w'.point = p) (hc : w'.clock = w.clock) (hw : w'.written = w.written)
    (harmed : p = .armed → b = []) : w'.Filed cfg := by
  have hcur : w'.current = w.current := by
    unfold current
    rw [hl, hc]
    rfl
  refine ⟨?_, ?_, ?_, ?_, ?_, ?_, hw ▸ h.ascending, ?_⟩
  · rw [hl]
    exact h.config
  · rw [hl, hd]
    exact h.streaming.congr rfl rfl
  · rw [hl, hw]
    exact h.closed
  · intro f hf
    rw [hl] at hf
    obtain ⟨h1, h2⟩ := h.opened f hf
    rw [hl, hc, hcur]
    exact ⟨⟨h1.year, h1.month, h1.day⟩, h2⟩
  · rw [hp, hl]
    exact harmed
  · rw [hd, hw]
    exact h.ours
  · rw [hw, hcur]
    exact h.last

theorem Filed.select (h : w.Filed cfg) {d : Date} (hd : w.clock.number ≤ d.number)
    (hs : GLog.Selected w.log w.disk d w'.log w'.disk) (hc : w'.clock = d)
    (hp : ∃ rest, w'.point = .writing rest) (hw : w'.written = w.written) : w'.Filed cfg := by
  have hcfg : w'.log.toGLogConfig = cfg := hs.config.trans h.config
  have hstream := hs.stream
  have hlookup := hs.lookup
  have hlast := hs.last
  rw [hcfg] at hstream hlookup hlast
  refine ⟨hcfg, ?_, ?_, ?_, ?_, ?_, hw ▸ h.ascending, ?_⟩
  · intro f hf
    rw [← Option.some.inj (hstream.symm.trans hf)]
    exact ⟨hlast.symm, hlookup⟩
  · rw [hstream]
    exact fun hn => by cases hn
  · intro f hf
    unfold current
    rw [hc, ← Option.some.inj (hstream.symm.trans hf)]
    exact ⟨hs.dated, rfl⟩
  · obtain ⟨rest, hp⟩ := hp
    rw [hp]
    exact fun hn => by cases hn
  · intro f
    rw [hs.ours, hw]
    exact h.ours f
  · rw [hw]
    intro x hx
    cases hst : w.log._log_stream with
    | none =>
      rw [h.closed hst] at hx
      cases hx
    | some f =>
      refine (h.last x hx).trans ?_
      unfold current
      rw [hc]
      rcases Nat.lt_or_eq_of_le hd with hlt | heq
      · exact LogFile.le_of_date hlt
      · have e : w.clock = d := Date.number_inj heq
        have hi := hs.index (e ▸ (h.opened f hst).1)
        have hsplit : w'.log._split_size = w.log._split_size :=
          congrArg GLogConfig._split_size hs.config
        unfold GLog.file
        rw [e, hsplit]
        split
        · exact le_refl _
        · exact LogFile.le_of_index hi

theorem Filed.write (h : w.Filed cfg) {file line : String} {rest : List String}
    (hs : w.log._log_stream = some file) (hl : w'.log = w.log) (hd : w'.disk = w.disk.append file line)
    (hp : w'.point = .writing rest) (hc : w'.clock = w.clock)
    (hw : w'.written = w.written ++ [(w.current, line)]) : w'.Filed cfg := by
  have hcur : w'.current = w.current := by
    unfold current
    rw [hl, hc]
  obtain ⟨hlast, hlookup⟩ := h.streaming file hs
  obtain ⟨hdated, hname⟩ := h.opened file hs
  refine ⟨hl ▸ h.config, ?_, ?_, ?_, ?_, ?_, ?_, ?_⟩
  · intro f hf
    rw [hl] at hf ⊢
    obtain ⟨h1, h2⟩ := h.streaming f hf
    refine ⟨h1, ?_⟩
    rw [hd, Disk.lookup_append_line]
    exact fun hn => h2 (Option.map_eq_none_iff.mp hn)
  · rw [hl, hs]
    exact fun hn => by cases hn
  · rw [hl, hc, hcur]
    exact h.opened
  · rw [hp]
    exact fun hn => by cases hn
  · intro f
    rw [hd, Disk.ours_append_line _ _ hlookup, h.ours f, hw, List.filter_append, List.map_append]
    congr 1
    by_cases e : f = file
    · rw [if_pos e, List.filter_cons_of_pos (by rw [e, hname]; exact decide_eq_true rfl)]
      rfl
    · rw [if_neg e, List.filter_cons_of_neg (by
        rw [← hname]
        exact fun hx => e (of_decide_eq_true hx).symm)]
      rfl
  · rw [hw]
    exact h.ascending.concat h.last
  · rw [hw, hcur]
    intro x hx
    rcases List.mem_append.mp hx with hx | hx
    · exact h.last x hx
    · rw [List.mem_singleton.mp hx]

end

/-! ## the lines -/

structure Inv (cfg : GLogConfig) (past : List LogEvent) (w : Logger) : Prop where
  called : w.Called cfg past
  filed : w.Filed cfg
  lines : (w.written.map Prod.snd ++ w.rest ++ w.log._waiting_list).map some
    = (entered past).map (acceptedAt cfg past)

theorem new_inv (cfg : GLogConfig) (t : Tm) (existing : List (String × Nat)) (clock : Date) :
    (new cfg t existing clock).Inv cfg [] where
  called := ⟨rfl, List.nodup_nil, fun _ _ => rfl, fun _ h => by cases h⟩
  filed := new_filed cfg t existing clock
  lines := rfl

section
variable {cfg : GLogConfig} {past : List LogEvent} {w w' : Logger}

theorem Inv.lines_append (h : w.Inv cfg past) (e : LogEvent) :
    (entered past).map (acceptedAt cfg (past ++ [e])) = (entered past).map (acceptedAt cfg past) :=
  List.map_congr_left fun k hk => acceptedAt_append past [e] (acceptedAt_lt (h.called.entered k hk).2)

theorem Inv.keep (h : w.Inv cfg past) {e : LogEvent} (hent : entered [e] = [])
    (hc : w'.Called cfg (past ++ [e])) (hf : w'.Filed cfg)
    (hl : w'.written.map Prod.snd ++ w'.rest ++ w'.log._waiting_list
      = w.written.map Prod.snd ++ w.rest ++ w.log._waiting_list) : w'.Inv cfg (past ++ [e]) := by
  refine ⟨hc, hf, ?_⟩
  rw [hl, h.lines, entered_append, hent, List.append_nil, h.lines_append e]

theorem Inv.log (h : w.Inv cfg past) (a : LogArgs) :
    Inv cfg (past ++ [.log a]) { w with calls := w.calls ++ [w.log.toGLogConfig.log a] } := by
  refine h.keep rfl (h.called.log a ?_) (h.filed.lists rfl rfl rfl rfl rfl h.filed.armed) rfl
  rw [h.filed.config]

theorem Inv.print (h : w.Inv cfg past) {k : Nat} {call : LogCall} (hk : w.call k = some call) :
    Inv cfg (past ++ [.print k])
      { w with calls := w.calls.set k (some { call with isOutScreen := false }) } :=
  h.keep rfl (h.called.print hk rfl) (h.filed.lists rfl rfl rfl rfl rfl h.filed.armed) rfl

theorem Inv.enqueue (h : w.Inv cfg past) {k : Nat} {call : LogCall} (hk : w.call k = some call)
    (hf : call.isOutFile = true) : Inv cfg (past ++ [.enqueue k]) { w with
      log := { w.log with _waiting_list := w.log._waiting_list ++ [call.logStr] }
      calls := w.calls.set k (some { call with isOutFile := false }) } := by
  obtain ⟨hc, hacc⟩ : Called cfg (past ++ [.enqueue k]) { w with
      log := { w.log with _waiting_list := w.log._waiting_list ++ [call.logStr] }
      calls := w.calls.set k (some { call with isOutFile := false }) } ∧ _ :=
    h.called.enqueue hk hf rfl
  refine ⟨hc, h.filed.lists rfl rfl rfl rfl rfl h.filed.armed, ?_⟩
  show (w.written.map Prod.snd ++ w.rest ++ (w.log._waiting_list ++ [call.logStr])).map some = _
  rw [← List.append_assoc, List.map_append, h.lines, entered_append, List.map_append,
    h.lines_append]
  refine congrArg _ ?_
  show [some call.logStr] = [acceptedAt cfg (past ++ [.enqueue k]) k]
  rw [acceptedAt_append past _ (acceptedAt_lt (by rw [hacc]; rfl)), hacc]

theorem Inv.swap_empty (h : w.Inv cfg past) : Inv cfg (past ++ [.swap]) w :=
  h.keep rfl (h.called.congr rfl rfl rfl fun _ => rfl) h.filed rfl

theorem Inv.swap (h : w.Inv cfg past) (hp : w.point = .armed) : Inv cfg (past ++ [.swap]) { w with
      log := { w.log with
        _writing_list := w.log._waiting_list
        _waiting_list := w.log._writing_list }
      point := .swapped } := by
  refine h.keep rfl (h.called.congr rfl rfl rfl fun _ => rfl)
    (h.filed.lists rfl rfl rfl rfl rfl (fun hn => by cases hn)) ?_
  unfold rest
  rw [hp]
  dsimp only
  rw [h.filed.armed hp, List.append_nil, List.append_nil]

theorem Inv.select (h : w.Inv cfg past) (hp : w.point = .swapped) {now : Ptime}
    (hd : w.clock.number ≤ now.date.number) {r : GLog × Disk}
    (hr : w.log.checkLogFile w.disk (to_tm now) = some r) : Inv cfg (past ++ [.select now]) { w with
      log := r.1
      disk := r.2
      clock := now.date
      point := .writing r.1._writing_list } := by
  have hs := GLog.checkLogFile_spec h.filed.streaming now hr
  refine h.keep rfl (h.called.congr rfl rfl rfl fun _ => rfl) (h.filed.select hd hs rfl ⟨_, rfl⟩ rfl) ?_
  unfold rest
  rw [hp]
  dsimp only
  rw [hs.writing, hs.waiting]

theorem Inv.write (h : w.Inv cfg past) {line file : String} {rest : List String}
    (hp : w.point = .writing (line :: rest)) (hs : w.log._log_stream = some file) :
    Inv cfg (past ++ [.write]) { w with
      disk := w.disk.append file line
      point := .writing rest
      written := w.written ++ [(w.current, line)] } := by
  refine h.keep rfl (h.called.congr rfl rfl rfl fun _ => rfl) (h.filed.write hs rfl rfl rfl rfl rfl) ?_
  unfold Logger.rest
  rw [hp]
  dsimp only
  rw [List.map_append, List.append_assoc _ _ rest]
  rfl

theorem Inv.clear (h : w.Inv cfg past) (hp : w.point = .writing []) : Inv cfg (past ++ [.clear]) { w with
      log := { w.log with _writing_list := [] }
      point := .armed } := by
  refine h.keep rfl (h.called.congr rfl rfl rfl fun _ => rfl)
    (h.filed.lists rfl rfl rfl rfl rfl (fun _ => rfl)) ?_
  unfold rest
  rw [hp]

/-- **Every event keeps every line.** -/
theorem step_inv {e : LogEvent} (h : w.Inv cfg past) (hs : w.step e = some w') :
    w'.Inv cfg (past ++ [e]) := by
  cases e with
  | log a =>
    cases hs
    exact h.log a
  | print k =>
    rw [step] at hs
    split at hs
    · cases hs
    · rename_i call hk
      split at hs
      · cases hs
        exact h.print hk
      · cases hs
  | enqueue k =>
    rw [step] at hs
    split at hs
    · cases hs
    · rename_i call hk
      split at hs
      · rename_i hf
        cases hs
        rw [Bool.and_eq_true] at hf
        exact h.enqueue hk hf.2
      · cases hs
  | swap =>
    rw [step] at hs
    split at hs
    · rename_i hp
      split at hs
      · cases hs
        exact h.swap_empty
      · cases hs
        exact h.swap hp
    · cases hs
  | select now =>
    rw [step] at hs
    split at hs
    · rename_i hp
      split at hs
      · rename_i hd
        obtain ⟨r, hr, rfl⟩ := Option.map_eq_some_iff.mp hs
        exact h.select hp hd hr
      · cases hs
    · cases hs
  | write =>
    rw [step] at hs
    split at hs
    · rename_i hp hstream
      cases hs
      exact h.write hp hstream
    · cases hs
  | clear =>
    rw [step] at hs
    split at hs
    · rename_i hp
      cases hs
      exact h.clear hp
    · cases hs

theorem Filed.covers (h : w.Filed cfg) : w.Covers cfg (keys w.written) := by
  intro name hne
  rw [h.ours name] at hne
  obtain ⟨x, hx⟩ := List.exists_mem_of_ne_nil _ fun e => hne (congrArg (List.map Prod.snd) e)
  obtain ⟨hx, hname⟩ := List.mem_filter.mp hx
  exact ⟨x.1, mem_keys _ x hx, of_decide_eq_true hname⟩

theorem Filed.read (h : w.Filed cfg) {files : List LogFile} (hsorted : files.Pairwise (· < ·))
    (hcover : w.Covers cfg files) :
    (files.flatMap fun f => w.disk.ours (f.fileName cfg)) = w.written.map Prod.snd := by
  have hours : ∀ f : LogFile, w.disk.ours (f.fileName cfg) = group f w.written := by
    intro f
    rw [h.ours]
    unfold group
    congr 1
    refine List.filter_congr fun x _ => decide_eq_decide.mpr ?_
    exact ⟨fun e => LogFile.fileName_injective cfg e, fun e => congrArg _ e⟩
  have hin : ∀ x ∈ w.written, x.1 ∈ files := by
    intro x hx
    have hne : w.disk.ours (x.1.fileName cfg) ≠ [] := by
      rw [h.ours]
      intro e
      have hm : x ∈ w.written.filter fun y => y.1.fileName cfg = x.1.fileName cfg :=
        List.mem_filter.mpr ⟨hx, decide_eq_true rfl⟩
      rw [List.map_eq_nil_iff.mp e] at hm
      cases hm
    obtain ⟨f, hf, hname⟩ := hcover _ hne
    rw [← LogFile.fileName_injective cfg hname]
    exact hf
  rw [List.flatMap_congr fun f _ => hours f]
  exact flatMap_group files hsorted w.written h.ascending hin

end

/-- **Every accepted line is written exactly once, in order.**  The files that have lines of this process
can be listed by date and index; read in that order, and followed by the rest of `_writing_list` and by
`_waiting_list`, they give the accepted lines of the calls of `log`, in the order in which the calls came
past the lock, none twice.  A call with an accepted line that has not come past the lock can go on. -/
theorem written_once (cfg : GLogConfig) (last_time : Tm) (existing : List (String × Nat)) (clock : Date)
    (es : List LogEvent) (w : Logger)
    (hrun : exec step (new cfg last_time existing clock) es = some w) :
    (∃ files : List LogFile, files.Pairwise (· < ·) ∧ w.Covers cfg files)
    ∧ (∀ files : List LogFile, files.Pairwise (· < ·) → w.Covers cfg files →
        ((files.flatMap fun f => w.disk.ours (f.fileName cfg)) ++ w.rest
          ++ w.log._waiting_list).map some = (entered es).map (acceptedAt cfg es))
    ∧ (entered es).Nodup
    ∧ ∀ k line, acceptedAt cfg es k = some line → k ∉ entered es →
        ∃ w', exec step w [.enqueue k] = some w' ∨ exec step w [.print k, .enqueue k] = some w' := by
  have h : w.Inv cfg es := exec_history step (fun _ _ _ _ hI hs => step_inv hI hs) es [] _ w
    (new_inv cfg last_time existing clock) hrun
  refine ⟨⟨keys w.written, h.filed.ascending.keys, h.filed.covers⟩, fun files hsorted hcover => ?_,
    h.called.nodup, fun k line hk hnot => h.called.goes_on hk hnot⟩
  rw [h.filed.read hsorted hcover]
  exact h.lines

def noon (day : Nat) (h : 1 ≤ day ∧ day ≤ 31) : Ptime :=
  ⟨⟨2015, 1, day, by decide, by decide, h⟩, 12, 0, 0⟩

def splitting : GLogConfig := ⟨"srv", "./log/", .GLog_INFO, .GLog_OFF, 60⟩

/-- a warning and an error overtake each other on their way to the list; another line comes while they are
written, and goes to the file of the next day -/
def twoDays : List LogEvent :=
  [.log ⟨.GLog_WARN, "a.cpp", "f", 7, "1", noon 1 (by decide), .ok "one"⟩,
    .log ⟨.GLog_TRACE, "a.cpp", "f", 8, "1", noon 1 (by decide), .ok "none"⟩,
    .log ⟨.GLog_ERROR, "b.cpp", "g", 9, "2", noon 1 (by decide), .ok "two"⟩,
    .enqueue 2, .enqueue 0, .swap,
    .log ⟨.GLog_INFO, "a.cpp", "f", 7, "1", noon 1 (by decide), .ok "three"⟩,
    .select (noon 1 (by decide)), .write, .enqueue 3, .write, .clear,
    .swap, .select (noon 2 (by decide)), .write]

theorem written_once_two_days :
    ∃ (w : Logger) (files : List LogFile),
      exec step (new splitting ⟨0, 0, 0, 0, 0, 0⟩ [("./log/srv.20150101.log.1", 60)]
        (noon 1 (by decide)).date) twoDays = some w
      ∧ w.disk.ours "./log/srv.20150101.log.2" = ["[2015-01-01 12:0:0] [b.cpp:9:g:2] [ERROR] two\n",
        "[2015-01-01 12:0:0] [a.cpp:7:f:1] [WARN] one\n"]
      ∧ w.disk.ours "./log/srv.20150102.log.1" = ["[2015-01-01 12:0:0] [a.cpp:7:f:1] [INFO] three\n"]
      ∧ files.Pairwise (· < ·)
      ∧ ((files.flatMap fun f => w.disk.ours (f.fileName splitting)) ++ w.rest
          ++ w.log._waiting_list).map some
        = [2, 0, 3].map (acceptedAt splitting twoDays) := by
  have h : (exec step (new splitting ⟨0, 0, 0, 0, 0, 0⟩ [("./log/srv.20150101.log.1", 60)]
      (noon 1 (by decide)).date) twoDays).any
      (fun w => decide (w.disk.ours "./log/srv.20150101.log.2"
          = ["[2015-01-01 12:0:0] [b.cpp:9:g:2] [ERROR] two\n",
            "[2015-01-01 12:0:0] [a.cpp:7:f:1] [WARN] one\n"]
        ∧ w.disk.ours "./log/srv.20150102.log.1"
          = ["[2015-01-01 12:0:0] [a.cpp:7:f:1] [INFO] three\n"])) = true := by
    decide +kernel
  obtain ⟨w, hw, hp⟩ := (Option.any_eq_true ..).mp h
  obtain ⟨⟨files, hsorted, hcover⟩, hread, _⟩ := written_once _ _ _ _ _ w hw
  obtain ⟨h1, h2⟩ := of_decide_eq_true hp
  exact ⟨w, files, hw, h1, h2, hsorted, hread files hsorted hcover⟩

end Logger

end JMEngine.Log
