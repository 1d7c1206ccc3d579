import JMEngine.Lib.Runs
import JMEngine.Net.WriteBuffer

/-!
# Queued bytes and the completion that will send them

`handleWrite` runs on the net thread in three steps: it clears `_writing` without the write mutex,
drains the buffer under it, and calls `postWriteNull` without it again.  Between the steps other
threads append under the mutex, each append with a `postWriteNull` of its own.

* `Writer.step`          one step of `handleWrite`, one whole `writeMessage` or `writeLock`, or a
                         `stop`;
* `handleWrite_steps`    without interference the three steps are `TcpSession.handleWrite`;
* `Wakes s t es`         an append leaves `_writing` set if there is something to send;
* `no_lost_wakeup`       bytes that wait are waited for, unless the socket reported a hard error, on a
                         connection that finds `_writing` clear;
* `lost_wakeup`          an operation of the socket before it had set the flag.

A readiness completion reports success or a hard error, and a `write_some` that accepts nothing
reports an error.
-/

set_option linter.unusedSectionVars false

namespace JMEngine.Net
open Bytes Runs TcpSession

/-- an error other than `would_block` and `try_again` -/
def ErrorCode.hard (e : ErrorCode) : Bool := !(e == .success || e.retry)

/-- `write_some` accepts a byte or reports an error -/
def WriteSome.documented : WriteSome → Bool
  | .wrote k => 0 < k
  | .failed e => e != .success

namespace TcpSession

/-- the locked part of `handleWrite`: the session, the bytes that the socket accepted and what the last
`write_some` reported, if there was one -/
def drainLocked (s : TcpSession) (ws : List WriteSome) :
    Option (TcpSession × List UInt8 × Option ErrorCode) :=
  let s := { s with _writeBlockTimes := 0 }
  if s._writeBufferOffest > 0 then
    match s._writeBuffer with
    | none => none
    | some mem =>
      match writeLoop mem 0 s._writeBufferOffest ws with
      | none => none
      | some w =>
        some ({ s with _writeBuffer := some w.mem, _writeBufferOffest := w.offest }, w.sent,
          some w.error)
  else some (s, [], none)

/-- what an append does for the bytes it leaves -/
structure Wakes (s t : TcpSession) (es : List Effect) : Prop where
  posted : t._writing = true → s._writing = true ∨ 0 < es.count .async_write_some
  flag : t = s ∨ (t._socket = true → 0 < t._writeBufferOffest → t._writing = true)
  socket : t._socket = s._socket
  times : t._writeBlockTimes = s._writeBlockTimes

theorem Wakes.refl (s : TcpSession) : Wakes s s [] := ⟨Or.inl, Or.inl rfl, rfl, rfl⟩

theorem Wakes.trans {s t u : TcpSession} {es fs : List Effect} (h : Wakes s t es)
    (h' : Wakes t u fs) : Wakes s u (es ++ fs) := by
  refine ⟨fun hu => ?_, ?_, h'.socket.trans h.socket, h'.times.trans h.times⟩
  · rw [List.count_append]
    rcases h'.posted hu with ht | h1
    · rcases h.posted ht with hs | h1
      · exact Or.inl hs
      · exact Or.inr (by omega)
    · exact Or.inr (by omega)
  · rcases h'.flag with rfl | h1
    · exact h.flag
    · exact Or.inr h1

theorem postWriteNull_writing {s : TcpSession} (ho : s.postWriteNull.1._socket = true)
    (hn : 0 < s.postWriteNull.1._writeBufferOffest) : s.postWriteNull.1._writing = true := by
  unfold postWriteNull at ho hn ⊢
  split
  · next h =>
    rw [if_pos h] at ho hn
    simp only [Bool.or_eq_true, Bool.not_eq_true', beq_iff_eq] at h
    rcases h with (h | h) | h
    · exact absurd (h.symm.trans ho) (by decide)
    · exact h
    · exact absurd h (Nat.ne_of_gt hn)
  · rfl

theorem postWriteNull_posted {s : TcpSession} (h : s.postWriteNull.1._writing = true) :
    s._writing = true ∨ 0 < s.postWriteNull.2.count .async_write_some := by
  unfold postWriteNull at h ⊢
  split
  · next hc =>
    rw [if_pos hc] at h
    exact Or.inl h
  · exact Or.inr (Nat.succ_pos 0)

theorem Wakes.post {s s' : TcpSession} (hw : s'._writing = s._writing) (ho : s'._socket = s._socket)
    (ht : s'._writeBlockTimes = s._writeBlockTimes) :
    Wakes s s'.postWriteNull.1 s'.postWriteNull.2 := by
  refine ⟨fun h => hw ▸ postWriteNull_posted h, Or.inr postWriteNull_writing, ?_, ?_⟩
  · exact (readSide_field (postWriteNull_same s').rest _socket rfl rfl).trans ho
  · unfold postWriteNull
    split <;> exact ht

theorem writeNolock_wakes {s : TcpSession} {data : List UInt8} {len : Int}
    {r : TcpSession × List Effect} (h : s.writeNolock data len = some r) : Wakes s r.1 r.2 := by
  cases writeNolock_cases h with
  | refused => exact Wakes.refl s
  | written => exact Wakes.post rfl rfl rfl

theorem writeLock_wakes {s t : TcpSession} {data : List UInt8} {len : Int} {es : List Effect}
    (h : s.writeLock data len = some (t, es)) : Wakes s t es :=
  writeNolock_wakes (r := (t, es)) h

theorem writeMessage_wakes {s t : TcpSession} {m : Message} {r : Bool} {es : List Effect}
    (h : s.writeMessage m = some (r, t, es)) : Wakes s t es := by
  cases writeMessage_cases h with
  | refused => exact Wakes.refl s
  | full => exact Wakes.post rfl rfl rfl
  | written _ h1 h2 => exact (writeNolock_wakes h1).trans (writeNolock_wakes h2)

theorem writeLoop_success (ws : List WriteSome) (hd : ws.all WriteSome.documented = true) :
    ∀ mem len offest w, 0 < offest → writeLoop mem len offest ws = some w → w.error = .success →
      w.offest = 0 := by
  -- the exit on `wlen <= 0` keeps the error with which it was taken
  have top : ∀ mem len offest e w, copyToTop mem len offest e = some w → w.error = e := by
    intro mem len offest e w h
    unfold copyToTop at h
    split at h
    · split at h
      · cases h
      · cases h
        rfl
    · cases h
      rfl
  induction ws with
  | nil =>
    intro mem len offest w _ h he
    exact absurd ((top _ _ _ _ w h).symm.trans he) (by decide)
  | cons a ws ih =>
    rw [List.all_cons, Bool.and_eq_true] at hd
    intro mem len offest w h0 h he
    cases a with
    | failed e =>
      have h1 := (top _ _ _ _ w h).symm.trans he
      rw [h1] at hd
      cases hd.1
    | wrote k =>
      have hk : 0 < k := of_decide_eq_true hd.1
      rw [writeLoop, if_neg (by omega)] at h
      split at h
      · split at h
        · cases h
        · next w' hw' =>
          cases h
          exact ih hd.2 _ _ _ w' (by omega) hw' he
      · cases h
        rfl

end TcpSession

/-- where the net thread stands in `handleWrite` -/
inductive WriteHandler where
  | idle
  | begun (error : ErrorCode)
  | drained (error : ErrorCode)
  deriving DecidableEq, Repr

/-- `handleWrite` may still come to its `postWriteNull` -/
def WriteHandler.posts : WriteHandler → Bool
  | .idle => false
  | .begun e => e = .success
  | .drained e => e.retry

/-- `outstanding` are the readiness completions under way for the present socket and `stale` those of the
sockets before it; `reported` is what the last completion or `write_some` of the present connection
reported -/
structure Writer where
  session : TcpSession
  outstanding : Nat
  stale : Nat
  handler : WriteHandler
  reported : ErrorCode
  deriving DecidableEq, Repr

inductive WriterEvent where
  | writeMessage (m : Message)
  | writeLock (data : List UInt8) (len : Int)
  /-- another thread sets the status -/
  | status (status : SessionStatus)
  /-- the connecting functions close the socket or open another -/
  | socket (isOpen : Bool)
  | stop (throws : Bool)
  /-- a completion of the present socket arrives and `handleWrite` clears `_writing` -/
  | begins (e : ErrorCode)
  /-- so does one of an earlier socket -/
  | beginsStale (e : ErrorCode)
  /-- its locked part -/
  | drains (ws : List WriteSome)
  /-- its end -/
  | ends
  deriving DecidableEq, Repr

def WriterEvent.isSocket : WriterEvent → Bool
  | .socket _ => true
  | _ => false

namespace Writer

def new (writeMem : Option (List UInt8)) (readMem : List UInt8) (n reconnect : Nat) : Writer :=
  ⟨TcpSession.new writeMem readMem n reconnect, 0, 0, .idle, .success⟩

/-- a connection is established; whatever is under way for the session goes on -/
def establish (w : Writer) : Writer :=
  { w with
    session := { w.session with _socket := true, _status := .Connected }
    outstanding := 0
    stale := w.stale + w.outstanding
    reported := .success }

/-- the session after a call, and the operations that it started -/
def apply (w : Writer) (r : TcpSession × List Effect) : Writer :=
  { w with session := r.1, outstanding := w.outstanding + r.2.count .async_write_some }

/-- `handleWrite` uses the present socket, whichever its completion was for -/
def step (w : Writer) : WriterEvent → Option Writer
  | .writeMessage m => (w.session.writeMessage m).map fun r => w.apply r.2
  | .writeLock data len => (w.session.writeLock data len).map w.apply
  | .status status => some { w with session := { w.session with _status := status } }
  | .socket isOpen => some { w with
      session := { w.session with _socket := isOpen }
      outstanding := 0
      stale := w.stale + w.outstanding }
  | .stop throws => some { w with session := w.session.stop throws }
  | .begins e =>
    if w.handler = .idle ∧ 0 < w.outstanding ∧ e.retry = false then
      some { w with
        session := { w.session with _writing := false }
        outstanding := w.outstanding - 1
        handler := .begun e
        reported := e }
    else none
  | .beginsStale e =>
    if w.handler = .idle ∧ 0 < w.stale ∧ e.retry = false then
      some { w with
        session := { w.session with _writing := false }
        stale := w.stale - 1
        handler := .begun e }
    else none
  | .drains ws =>
    match w.handler with
    | .begun e =>
      if e ≠ .success then some { w with handler := .drained e }
      else if ws.all WriteSome.documented then
        (w.session.drainLocked ws).map fun r =>
          { w with
            session := r.1
            handler := .drained (r.2.2.getD e)
            reported := r.2.2.getD w.reported }
      else none
    | _ => none
  | .ends =>
    match w.handler with
    | .drained e => some { w.apply (w.session.finishWrite e) with handler := .idle }
    | _ => none

theorem handleWrite_steps (w : Writer) (hi : w.handler = .idle) (ho : 0 < w.outstanding)
    (e : ErrorCode) (he : e.retry = false) (ws : List WriteSome)
    (hd : ws.all WriteSome.documented = true) :
    (exec step w [.begins e, .drains ws, .ends]).map (fun w => (w.session, w.outstanding))
      = (w.session.handleWrite e ws).map fun r =>
        (r.1, w.outstanding - 1 + r.2.2.count .async_write_some) := by
  have h1 : w.step (.begins e) = some { w with
      session := { w.session with _writing := false }
      outstanding := w.outstanding - 1
      handler := .begun e
      reported := e } := if_pos ⟨hi, ho, he⟩
  rw [exec_cons step _ h1]
  unfold handleWrite
  by_cases hs : e = .success
  · simp only [exec, step, hs, if_pos hd, not_true, if_false, if_true, ne_eq]
    unfold drainLocked
    dsimp only
    by_cases h0 : w.session._writeBufferOffest > 0
    · simp only [if_pos h0]
      cases w.session._writeBuffer with
      | none => rfl
      | some mem =>
        dsimp only
        cases writeLoop mem 0 w.session._writeBufferOffest ws with
        | none => rfl
        | some x => rfl
    · simp only [if_neg h0]
      rfl
  · simp only [exec, step, if_pos hs, if_neg hs]
    rfl

/-- bytes that wait are waited for, or the socket has failed -/
def Watched (w : Writer) : Prop :=
  w.session._socket = true → 0 < w.session._writeBufferOffest →
    0 < w.outstanding ∨ w.reported.hard = true

/-- what holds for a session from its constructor on -/
structure Core (w : Writer) : Prop where
  writing : w.session._writing = true → 0 < w.outstanding + w.stale
  begun : ∀ e, w.handler = .begun e → e.retry = false
  drained : ∀ e, w.handler = .drained e → e.retry = true → w.session._writeBlockTimes = 0

/-- and, within a connection: the flag stands for an operation of its own socket, and when `handleWrite`
has done its part, others have done theirs -/
structure Inv (w : Writer) : Prop where
  core : w.Core
  writing : w.session._writing = true → 0 < w.outstanding
  watched : w.handler.posts = false → w.Watched

theorem Wakes.outstanding {w : Writer} {r : TcpSession × List Effect} (hr : Wakes w.session r.1 r.2)
    {n : Nat} (h : w.session._writing = true → 0 < w.outstanding + n) (h1 : r.1._writing = true) :
    0 < (w.apply r).outstanding + n := by
  show 0 < w.outstanding + _ + n
  rcases hr.posted h1 with h2 | h2
  · have := h h2
    omega
  · omega

theorem Core.apply {w : Writer} (h : w.Core) {r : TcpSession × List Effect}
    (hr : Wakes w.session r.1 r.2) : (w.apply r).Core :=
  ⟨Wakes.outstanding hr h.writing, h.begun, fun e he hx => hr.times.trans (h.drained e he hx)⟩

theorem Inv.apply {w : Writer} (h : w.Inv) {r : TcpSession × List Effect}
    (hr : Wakes w.session r.1 r.2) : (w.apply r).Inv := by
  have hw : (w.apply r).session._writing = true → 0 < (w.apply r).outstanding :=
    Wakes.outstanding (n := 0) hr h.writing
  refine ⟨h.core.apply hr, hw, fun hp ho hn => ?_⟩
  rcases hr.flag with he | hf
  · have ho' : r.1._socket = true := ho
    have hn' : 0 < r.1._writeBufferOffest := hn
    rw [he] at ho' hn'
    rcases h.watched hp ho' hn' with h1 | h1
    · exact Or.inl (Nat.add_pos_left h1 _)
    · exact Or.inr h1
  · exact Or.inl (hw (hf ho hn))

theorem drainLocked_cases {s : TcpSession} {ws : List WriteSome}
    (hd : ws.all WriteSome.documented = true)
    {r : TcpSession × List UInt8 × Option ErrorCode} (h : s.drainLocked ws = some r) :
    r.1._writing = s._writing ∧ r.1._writeBlockTimes = 0 ∧
      (0 < r.1._writeBufferOffest → ∃ e, r.2.2 = some e ∧ e ≠ .success) := by
  unfold drainLocked at h
  dsimp only at h
  split at h
  · next h0 =>
    split at h
    · cases h
    · split at h
      · cases h
      · next x hx =>
        cases h
        exact ⟨rfl, rfl, fun hn => ⟨x.error, rfl, fun e =>
          absurd (writeLoop_success ws hd _ _ _ x h0 hx e) (Nat.ne_of_gt hn)⟩⟩
  · next h0 =>
    cases h
    exact ⟨rfl, rfl, fun hn => absurd hn h0⟩

theorem hard_of_ne {e : ErrorCode} (h1 : e ≠ .success) (h2 : e.retry = false) : e.hard = true := by
  unfold ErrorCode.hard
  rw [h2, beq_eq_false_iff_ne.mpr h1]
  rfl

theorem finishWrite_retry {s : TcpSession} {e : ErrorCode} (he : e.retry = true)
    (h0 : s._writeBlockTimes = 0) :
    s.finishWrite e = postWriteNull { s with _writeBlockTimes := 1 } := by
  unfold finishWrite
  rw [if_pos he]
  dsimp only
  rw [h0, if_neg (by decide)]

theorem finishWrite_done {s : TcpSession} {e : ErrorCode} (he : e.retry = false) :
    s.finishWrite e = (s, []) := by
  unfold finishWrite
  rw [if_neg (Bool.eq_false_iff.mp he)]

inductive Turn (w : Writer) (ev : WriterEvent) : Writer → Prop
  | call {r : TcpSession × List Effect} (hr : Wakes w.session r.1 r.2) : Turn w ev (w.apply r)
  | status (st : SessionStatus) : Turn w ev { w with session := { w.session with _status := st } }
  | socket (isOpen : Bool) (he : ev = .socket isOpen) :
      Turn w ev { w with
        session := { w.session with _socket := isOpen }
        outstanding := 0
        stale := w.stale + w.outstanding }
  | stop (throws : Bool) : Turn w ev { w with session := w.session.stop throws }
  | begins (e : ErrorCode) (he : e.retry = false) :
      Turn w ev { w with
        session := { w.session with _writing := false }
        outstanding := w.outstanding - 1
        handler := .begun e
        reported := e }
  | beginsStale (e : ErrorCode) (hi : w.handler = .idle) (he : e.retry = false) :
      Turn w ev { w with
        session := { w.session with _writing := false }
        stale := w.stale - 1
        handler := .begun e }
  | passes (e : ErrorCode) (hb : w.handler = .begun e) (he : e ≠ .success) :
      Turn w ev { w with handler := .drained e }
  | drains (s : TcpSession) (e : ErrorCode) (reported : ErrorCode)
      (hw : s._writing = w.session._writing) (ht : s._writeBlockTimes = 0)
      (hx : 0 < s._writeBufferOffest → reported = e ∧ e ≠ .success) :
      Turn w ev { w with session := s, handler := .drained e, reported := reported }
  | ends (e : ErrorCode) (hb : w.handler = .drained e) :
      Turn w ev { w.apply (w.session.finishWrite e) with handler := .idle }

theorem step_turn {w w' : Writer} {ev : WriterEvent} (hs : w.step ev = some w') : Turn w ev w' := by
  cases ev with
  | writeMessage m =>
    obtain ⟨⟨r, t, es⟩, hr, rfl⟩ := Option.map_eq_some_iff.mp hs
    exact .call (r := (t, es)) (writeMessage_wakes hr)
  | writeLock data len =>
    obtain ⟨⟨t, es⟩, hr, rfl⟩ := Option.map_eq_some_iff.mp hs
    exact .call (writeLock_wakes hr)
  | status st =>
    cases hs
    exact .status st
  | socket isOpen =>
    cases hs
    exact .socket isOpen rfl
  | stop throws =>
    cases hs
    exact .stop throws
  | begins e =>
    rw [step] at hs
    split at hs
    · next hc =>
      cases hs
      exact .begins e hc.2.2
    · cases hs
  | beginsStale e =>
    rw [step] at hs
    split at hs
    · next hc =>
      cases hs
      exact .beginsStale e hc.1 hc.2.2
    · cases hs
  | drains ws =>
    rw [step] at hs
    split at hs
    · next e hb =>
      split at hs
      · next he =>
        cases hs
        exact .passes e hb he
      · next he =>
        rw [not_not.mp he] at hs
        split at hs
        · next hd =>
          obtain ⟨r, hr, rfl⟩ := Option.map_eq_some_iff.mp hs
          obtain ⟨h1, h2, h3⟩ := drainLocked_cases hd hr
          refine .drains r.1 (r.2.2.getD .success) (r.2.2.getD w.reported) h1 h2 fun hn => ?_
          obtain ⟨e, hr2, hne⟩ := h3 hn
          rw [hr2]
          exact ⟨rfl, hne⟩
        · cases hs
    · cases hs
  | ends =>
    rw [step] at hs
    split at hs
    · next e hb =>
      cases hs
      exact .ends e hb
    · cases hs

theorem finishWrite_writing {w : Writer} (h : w.Core) {e : ErrorCode} (hb : w.handler = .drained e)
    {n : Nat} (hn : w.session._writing = true → 0 < w.outstanding + n)
    (hx : (w.session.finishWrite e).1._writing = true) :
    0 < (w.apply (w.session.finishWrite e)).outstanding + n := by
  show 0 < w.outstanding + _ + n
  cases he : e.retry with
  | false =>
    rw [finishWrite_done he] at hx
    have := hn hx
    omega
  | true =>
    rw [finishWrite_retry he (h.drained e hb he)] at hx ⊢
    rcases postWriteNull_posted hx with h1 | h1
    · have := hn h1
      omega
    · omega

theorem step_core {w w' : Writer} {ev : WriterEvent} (h : w.Core) (hs : w.step ev = some w') :
    w'.Core := by
  cases step_turn hs with
  | call hr => exact h.apply hr
  | status st => exact ⟨h.writing, h.begun, h.drained⟩
  | socket isOpen _ =>
    refine ⟨fun hx => ?_, h.begun, h.drained⟩
    have := h.writing hx
    show 0 < 0 + (w.stale + w.outstanding)
    omega
  | stop throws => exact ⟨(fun hx => by cases hx), h.begun, h.drained⟩
  | begins e he =>
    refine ⟨(fun hx => by cases hx), fun e' he' => ?_, (fun _ he => by cases he)⟩
    cases he'
    exact he
  | beginsStale e _ he =>
    refine ⟨(fun hx => by cases hx), fun e' he' => ?_, (fun _ he => by cases he)⟩
    cases he'
    exact he
  | passes e hb he =>
    refine ⟨h.writing, (fun _ he => by cases he), fun e' he' hx => ?_⟩
    cases he'
    exact absurd ((h.begun e hb).symm.trans hx) (by decide)
  | drains s e reported hw ht _ =>
    exact ⟨fun hx => h.writing (hw.symm.trans hx), (fun _ he => by cases he), fun _ _ _ => ht⟩
  | ends e hb =>
    exact ⟨finishWrite_writing h hb h.writing, (fun _ he => by cases he), (fun _ he => by cases he)⟩

theorem Inv.ends {w : Writer} (h : w.Inv) {e : ErrorCode} (hb : w.handler = .drained e) :
    Watched { w.apply (w.session.finishWrite e) with handler := .idle } := by
  intro ho hx
  have ho' : (w.session.finishWrite e).1._socket = true := ho
  have hx' : 0 < (w.session.finishWrite e).1._writeBufferOffest := hx
  cases he : e.retry with
  | false =>
    have hw := h.watched (by rw [hb]; exact he)
    rw [finishWrite_done he] at ho' hx'
    rcases hw ho' hx' with h1 | h1
    · exact Or.inl (Nat.add_pos_left h1 _)
    · exact Or.inr h1
  | true =>
    refine Or.inl (finishWrite_writing (n := 0) h.core hb h.writing ?_)
    rw [finishWrite_retry he (h.core.drained e hb he)] at ho' hx' ⊢
    exact postWriteNull_writing ho' hx'

/-- **Every step within a connection keeps the invariant.** -/
theorem step_inv {w w' : Writer} {ev : WriterEvent} (hn : ev.isSocket = false) (h : w.Inv)
    (hs : w.step ev = some w') : w'.Inv := by
  have hc := step_core h.core hs
  cases step_turn hs with
  | call hr => exact h.apply hr
  | status st => exact ⟨hc, h.writing, h.watched⟩
  | socket isOpen he =>
    rw [he] at hn
    cases hn
  | stop throws =>
    refine ⟨hc, (fun hx => by cases hx), fun hp ho => ?_⟩
    have ho' : (w.session._socket && throws) = true := ho
    exact h.watched hp (Bool.and_eq_true_iff.mp ho').1
  | begins e he =>
    exact ⟨hc, (fun hx => by cases hx), fun hp _ _ => Or.inr (hard_of_ne (of_decide_eq_false hp) he)⟩
  | beginsStale e hi he =>
    -- the flag is cleared, but it did not stand for this completion
    exact ⟨hc, (fun hx => by cases hx), fun _ => h.watched (by rw [hi]; rfl)⟩
  | passes e hb he =>
    refine ⟨hc, h.writing, fun _ => h.watched ?_⟩
    rw [hb]
    exact decide_eq_false he
  | drains s e reported hw _ hx =>
    refine ⟨hc, fun hx => h.writing (hw.symm.trans hx), fun hp _ h0 => Or.inr ?_⟩
    obtain ⟨h1, h2⟩ := hx h0
    show reported.hard = true
    rw [h1]
    exact hard_of_ne h2 hp
  | ends e hb =>
    exact ⟨hc, finishWrite_writing (n := 0) h.core hb h.writing, fun _ => h.ends hb⟩

theorem new_core (writeMem : Option (List UInt8)) (readMem : List UInt8) (n reconnect : Nat) :
    (new writeMem readMem n reconnect).Core :=
  ⟨(fun h => by cases h), (fun _ h => by cases h), (fun _ h => by cases h)⟩

theorem Core.establish {w : Writer} (h : w.Core) (h0 : w.session._writeBufferOffest = 0)
    (hw : w.session._writing = false) : w.establish.Inv := by
  have hn : w.establish.session._writing = true → False := fun hx =>
    absurd (hw.symm.trans hx) (by decide)
  exact ⟨⟨fun hx => absurd hx hn, h.begun, h.drained⟩, fun hx => absurd hx hn,
    fun _ _ hx => absurd h0 (Nat.ne_of_gt hx)⟩

end Writer

/-- **No wakeup is lost** on a connection that finds no write operation under way, or `_writing` not set.
Whatever happened to the session before, from a connection with an empty write buffer and in every
interleaving on it: while the socket is open and bytes wait, a completion is outstanding, or `handleWrite`
is running, or the last completion or `write_some` of the connection reported a hard error. -/
theorem no_lost_wakeup (writeMem : Option (List UInt8)) (readMem : List UInt8) (n reconnect : Nat)
    (history : List WriterEvent) (w0 : Writer)
    (hw0 : exec Writer.step (Writer.new writeMem readMem n reconnect) history = some w0)
    (h0 : w0.session._writeBufferOffest = 0)
    (hq : w0.outstanding + w0.stale = 0 ∨ w0.session._writing = false) (es : List WriterEvent)
    (hes : ∀ e ∈ es, e.isSocket = false) (w : Writer)
    (h : exec Writer.step w0.establish es = some w) (ho : w.session._socket = true)
    (hn : 0 < w.session._writeBufferOffest) :
    0 < w.outstanding ∨ w.handler ≠ .idle ∨ w.reported.hard = true := by
  have hc : w0.Core := exec_invariant Writer.step (fun _ _ _ => Writer.step_core) history _ w0
    (Writer.new_core writeMem readMem n reconnect) hw0
  have hw : w0.session._writing = false := by
    rcases hq with hq | hq
    · exact Bool.eq_false_iff.mpr fun hx => absurd hq (Nat.ne_of_gt (hc.writing hx))
    · exact hq
  have hi : w.Inv := exec_guarded Writer.step (C := fun _ e => e.isSocket = false)
    (fun _ _ _ hi he hs => Writer.step_inv he hi hs) es _ w (hc.establish h0 hw)
    (guarded_of_mem Writer.step es (fun e he _ => hes e he) _) h
  by_cases hx : w.handler = .idle
  · rcases hi.watched (by rw [hx]; rfl) ho hn with h1 | h1
    · exact Or.inl h1
    · exact Or.inr (Or.inr h1)
  · exact Or.inr (Or.inl hx)

/-- a byte that is appended while `handleWrite` drains starts an operation of its own, and is sent before
that completes -/
def overlapping : List WriterEvent :=
  [.socket true, .status .Connected, .writeLock [1] 1, .begins .success, .writeLock [2] 1,
    .drains [.wrote 2], .ends]

/-- another thread appends between the steps of a `handleWrite`, which the socket leaves unfinished; before
that an operation completes aborted that `stop` has left behind -/
theorem no_lost_wakeup_appended :
    ∃ w0 w, exec Writer.step (Writer.new (some (List.replicate 8 0)) [] 8 0)
        (overlapping ++ [.stop false]) = some w0 ∧
      w0.outstanding = 1 ∧
      exec Writer.step w0.establish
        [.writeLock [1, 2] 2, .beginsStale (.other 125), .drains [], .ends, .begins .success,
          .writeLock [3] 1, .drains [.wrote 2], .ends] = some w ∧
      w.session._writeBufferOffest = 1 ∧
      (0 < w.outstanding ∨ w.handler ≠ .idle ∨ w.reported.hard = true) := by
  have h : (exec Writer.step (Writer.new (some (List.replicate 8 0)) [] 8 0)
      (overlapping ++ [.stop false])).any (fun w0 =>
        decide (w0.outstanding = 1 ∧ w0.session._writeBufferOffest = 0 ∧ w0.session._writing = false)
        && (exec Writer.step w0.establish
          [.writeLock [1, 2] 2, .beginsStale (.other 125), .drains [], .ends, .begins .success,
            .writeLock [3] 1, .drains [.wrote 2], .ends]).any (fun w =>
              decide (w.session._socket = true ∧ w.session._writeBufferOffest = 1))) = true := by
    decide +kernel
  obtain ⟨w0, hw0, h1⟩ := (Option.any_eq_true ..).mp h
  obtain ⟨h1, h2⟩ := Bool.and_eq_true_iff.mp h1
  obtain ⟨ho, h0, hq⟩ := of_decide_eq_true h1
  obtain ⟨w, hw, h3⟩ := (Option.any_eq_true ..).mp h2
  obtain ⟨hs, hb⟩ := of_decide_eq_true h3
  exact ⟨w0, w, hw0, ho, hw, hb, no_lost_wakeup (some (List.replicate 8 0)) [] 8 0 _ w0 hw0 h0
    (Or.inr hq) _ (by decide) w hw hs (by rw [hb]; decide)⟩

/-- The session connects again while the operation of the overlapping append is under way: on the new
connection `_writing` keeps an append from starting another one, and the old one, when it completes
aborted, only clears the flag. -/
theorem lost_wakeup :
    ¬ ∀ (writeMem : Option (List UInt8)) (readMem : List UInt8) (n reconnect : Nat)
      (history : List WriterEvent) (w0 : Writer),
      exec Writer.step (Writer.new writeMem readMem n reconnect) history = some w0 →
      w0.session._writeBufferOffest = 0 → ∀ (es : List WriterEvent),
      (∀ e ∈ es, e.isSocket = false) → ∀ w : Writer,
      exec Writer.step w0.establish es = some w → w.session._socket = true →
      0 < w.session._writeBufferOffest →
      0 < w.outstanding + w.stale ∨ w.handler ≠ .idle ∨ w.reported.hard = true := by
  intro h
  have hrun : (exec Writer.step (Writer.new (some (List.replicate 8 0)) [] 8 0)
      (overlapping ++ [.status .Disconnected, .socket false])).any (fun w0 =>
        decide (w0.session._writeBufferOffest = 0)
        && (exec Writer.step w0.establish
          [.writeLock [3] 1, .beginsStale (.other 125), .drains [], .ends]).any (fun w =>
            decide (w.session._socket = true ∧ w.session._writeBufferOffest = 1 ∧
              w.outstanding + w.stale = 0 ∧ w.handler = .idle ∧ w.reported = .success))) = true := by
    decide +kernel
  obtain ⟨w0, hw0, h1⟩ := (Option.any_eq_true ..).mp hrun
  obtain ⟨h1, h2⟩ := Bool.and_eq_true_iff.mp h1
  obtain ⟨w, hw, h3⟩ := (Option.any_eq_true ..).mp h2
  obtain ⟨hs, hb, ho, hi, hr⟩ := of_decide_eq_true h3
  rcases h _ _ _ _ _ w0 hw0 (of_decide_eq_true h1) _ (by decide) w hw hs (by rw [hb]; decide) with
    hx | hx | hx
  · exact absurd ho (Nat.ne_of_gt hx)
  · exact hx hi
  · rw [hr] at hx
    cases hx

end JMEngine.Net
