import JMEngine.Net.Client

/-!
# The life of a session

`JMEngine.Net.Client` follows a client between connections; here a session is followed to its end.  The
handler that owns it may be an `RpcClient` or the server's `RpcSessionNetHandler`, `start` and `stop`
may be called at any time, and `handleRead` runs in its steps: `_reading` is cleared, the read is made
and what follows from it is posted, and after ten retries `_status` is written behind the post.

* `TcpSession.readOn`, `handleRead_steps`   the steps of `handleRead` and the whole;
* `readOn_cases`       how the middle step can end;
* `Lifecycle.step`     a completion, an expiry, a call, or a callback of the owner;
* `step_moves`         what each of them does to the state;
* `refs`               what holds a strong reference to the session.
-/

set_option linter.unusedSectionVars false

namespace JMEngine.Net
open Bytes Framing Runs TcpSession

namespace TcpSession

/-! ## the steps of `handleRead` -/

/-- the part after the read; the last component says that `_status` is still to be written -/
def finishReadOn (s : TcpSession) (error : ErrorCode) : TcpSession × List Effect × Bool :=
  if error = .success || error.retry then
    let s := { s with _readBlockTimes := s._readBlockTimes + 1 }
    if s._readBlockTimes ≥ 10 then (s, [.post (.sessionReadError error)], true)
    else (s.postReadNull.1, s.postReadNull.2, false)
  else if error.aborted then (s, [], false)
  else ({ s with _status := .Disconnected }, [.post (.sessionReadError error)], false)

/-- `handleRead` behind `_reading = false`, up to the write of `_status` that follows a post -/
def readOn (s : TcpSession) (error : ErrorCode) (rs : ReadSome) :
    Option (TcpSession × List Effect × Bool) :=
  if error = .success then
    let s := { s with _readBlockTimes := 0 }
    match rs with
    | .failed e => some (s.finishReadOn e)
    | .got chunk =>
      let d := readAndDrain s._buff chunk
      let s := { s with _buff := d.buff }
      match d.exit with
      | .error => some ({ s with _status := .Disconnected },
          receivePosts d.posts ++ [.post (.sessionReadError .success)], false)
      | .noMessage =>
        let r := s.finishReadOn .success
        some (r.1, receivePosts d.posts ++ r.2.1, r.2.2)
      | .fault => none
      | .running => none
  else some (s.finishReadOn error)

/-- the write of `_status` behind the post -/
def statusWritten (r : TcpSession × List Effect × Bool) : TcpSession × List Effect :=
  (if r.2.2 then { r.1 with _status := .Disconnected } else r.1, r.2.1)

theorem finishRead_steps (s : TcpSession) (error : ErrorCode) :
    s.finishRead error = statusWritten (s.finishReadOn error) := by
  unfold finishRead finishReadOn
  split
  · dsimp only
    split <;> rfl
  · split <;> rfl

theorem handleRead_steps (s : TcpSession) (error : ErrorCode) (rs : ReadSome) :
    s.handleRead error rs
      = (readOn { s with _reading := false } error rs).map statusWritten := by
  unfold handleRead readOn
  by_cases he : error = .success
  · simp only [if_pos he]
    cases rs with
    | failed e =>
      dsimp only
      rw [finishRead_steps]
      rfl
    | got chunk =>
      dsimp only
      cases (readAndDrain s._buff chunk).exit with
      | error => rfl
      | noMessage =>
        dsimp only
        rw [finishRead_steps]
        rfl
      | fault => rfl
      | running => rfl
  · simp only [if_neg he]
    rw [finishRead_steps]
    rfl

/-- the read is given up without a word: `error.value() == 995` -/
def cancelled : ErrorCode → ReadSome → Bool
  | .success, .failed e => e.aborted
  | .success, .got _ => false
  | e, _ => e.aborted

/-- how the middle step of `handleRead` ends -/
inductive ReadOn (s : TcpSession) (error : ErrorCode) (rs : ReadSome) :
    TcpSession × List Effect × Bool → Prop
  | ends (b : ReadBuffer) (k : Nat) (ps : List (List UInt8)) (e : ErrorCode) :
      ReadOn s error rs ({ s with _buff := b, _readBlockTimes := k, _status := .Disconnected },
        receivePosts ps ++ [.post (.sessionReadError e)], false)
  | givesUp (b : ReadBuffer) (k : Nat) (ps : List (List UInt8)) (e : ErrorCode) :
      ReadOn s error rs ({ s with _buff := b, _readBlockTimes := k },
        receivePosts ps ++ [.post (.sessionReadError e)], true)
  | cancelled (h : cancelled error rs = true) (b : ReadBuffer) (k : Nat) :
      ReadOn s error rs ({ s with _buff := b, _readBlockTimes := k }, [], false)
  | again (b : ReadBuffer) (k : Nat) (ps : List (List UInt8)) :
      ReadOn s error rs ((postReadNull { s with _buff := b, _readBlockTimes := k }).1,
        receivePosts ps ++ (postReadNull { s with _buff := b, _readBlockTimes := k }).2, false)

theorem finishReadOn_cases (s : TcpSession) (error : ErrorCode) (rs : ReadSome) (b : ReadBuffer)
    (k : Nat) (ps : List (List UInt8)) (e : ErrorCode)
    (ha : e.aborted = true → TcpSession.cancelled error rs = true ∧ ps = []) :
    ReadOn s error rs ((finishReadOn { s with _buff := b, _readBlockTimes := k } e).1,
      receivePosts ps ++ (finishReadOn { s with _buff := b, _readBlockTimes := k } e).2.1,
      (finishReadOn { s with _buff := b, _readBlockTimes := k } e).2.2) := by
  unfold finishReadOn
  split
  · dsimp only
    split
    · exact .givesUp b (k + 1) ps e
    · exact .again b (k + 1) ps
  · split
    · next h =>
      obtain ⟨h1, rfl⟩ := ha h
      exact .cancelled h1 b k
    · exact .ends b k ps e

theorem readOn_cases {s : TcpSession} {error : ErrorCode} {rs : ReadSome}
    {r : TcpSession × List Effect × Bool} (h : s.readOn error rs = some r) : ReadOn s error rs r := by
  unfold readOn at h
  by_cases he : error = .success
  swap
  · simp only [if_neg he] at h
    have hc := finishReadOn_cases s error rs s._buff s._readBlockTimes [] error (fun ha => by
      refine ⟨?_, rfl⟩
      cases error with
      | success => exact absurd rfl he
      | _ => exact ha)
    rw [← Option.some.inj h]
    exact hc
  subst he
  simp only [if_pos] at h
  cases rs with
  | failed e =>
    have hc := finishReadOn_cases s .success (.failed e) s._buff 0 [] e (fun ha => ⟨ha, rfl⟩)
    rw [← Option.some.inj h]
    exact hc
  | got chunk =>
    cases hx : (readAndDrain s._buff chunk).exit with
    | fault => simp only [hx] at h; cases h
    | running => simp only [hx] at h; cases h
    | error =>
      simp only [hx] at h
      rw [← Option.some.inj h]
      exact .ends _ 0 _ .success
    | noMessage =>
      simp only [hx] at h
      rw [← Option.some.inj h]
      exact finishReadOn_cases s .success (.got chunk) (readAndDrain s._buff chunk).buff 0 _ .success
        (fun ha => by cases ha)

theorem readOn_cancelled {s : TcpSession} {error : ErrorCode} {rs : ReadSome}
    (h : TcpSession.cancelled error rs = true) :
    ∃ k, s.readOn error rs = some ({ s with _readBlockTimes := k }, [], false) := by
  have done : ∀ (s : TcpSession) (e : ErrorCode), e.aborted = true →
      s.finishReadOn e = (s, [], false) := by
    intro s e he
    cases e with
    | other v => simp [finishReadOn, ErrorCode.retry, he]
    | success => cases he
    | would_block => cases he
    | try_again => cases he
  cases error with
  | success =>
    cases rs with
    | failed e => exact ⟨0, congrArg some (done _ e h)⟩
    | got chunk => cases h
  | would_block => cases h
  | try_again => cases h
  | other v => exact ⟨s._readBlockTimes, congrArg some (done s (.other v) h)⟩

end TcpSession

/-! ## the world -/

/-- the `NetHandler` of the session -/
inductive Owner where
  | RpcClient
  | RpcSessionNetHandler
  deriving DecidableEq, Repr

/-- a `handleRead` that is running: `_reading` is cleared, or the error after ten retries is posted and
`_status` is still to be written -/
inductive ReadHandler where
  | begun
  | late
  deriving DecidableEq, Repr

/-- `attempts`, `reads`, `writes` and `timers` are the operations under way and `logic` is the queue of
the logic thread; `opened` counts the connection attempts begun so far and `posted` are the callbacks
posted so far. -/
structure Lifecycle where
  session : TcpSession
  attempts : Nat
  reads : Nat
  readers : List ReadHandler
  writes : Nat
  timers : Nat
  logic : List Callback
  opened : Nat
  posted : List Callback
  deriving DecidableEq, Repr

inductive LifeEvent where
  | connect (x : ConnectCalls)
  | reconnect (x : ConnectCalls)
  | start (y : StartCalls)
  | stop (throws : Bool)
  /-- the acceptor has a connection for the session -/
  | accept
  /-- a reconnect timer expires -/
  | timer (x : ConnectCalls)
  | handleConnect (e : ErrorCode)
  /-- a read completes and `handleRead` clears `_reading` -/
  | readBegins
  | readOn (i : Nat) (e : ErrorCode) (rs : ReadSome)
  | readEnds (i : Nat)
  | handleWrite (e : ErrorCode) (ws : List WriteSome)
  | writeMessage (m : Message)
  /-- the logic thread runs the next callback -/
  | logic (y : StartCalls) (x : ConnectCalls) (throws : Bool)
  deriving DecidableEq, Repr

/-- a call of the session's public functions that connect, start or stop it -/
def LifeEvent.isCall : LifeEvent → Bool
  | .connect _ => true
  | .reconnect _ => true
  | .start _ => true
  | .stop _ => true
  | .accept => true
  | _ => false

namespace Lifecycle

def new (session : TcpSession) : Lifecycle := ⟨session, 0, 0, [], 0, 0, [], 0, []⟩

def perform (w : Lifecycle) : Effect → Lifecycle
  | .open_socket => { w with opened := w.opened + 1 }
  | .async_connect => { w with attempts := w.attempts + 1 }
  | .async_read_some => { w with reads := w.reads + 1 }
  | .async_write_some => { w with writes := w.writes + 1 }
  | .async_wait _ => { w with timers := w.timers + 1 }
  | .post cb => { w with logic := w.logic ++ [cb], posted := w.posted ++ [cb] }

def apply (w : Lifecycle) (r : TcpSession × List Effect) : Lifecycle :=
  r.2.foldl perform { w with session := r.1 }

/-- the callbacks of either owner; `sessionReceiveMessage` may call `writeMessage` -/
def callback (o : Owner) (w : Lifecycle) (y : StartCalls) (x : ConnectCalls) (throws : Bool) :
    Callback → Lifecycle
  | .sessionConnectSucceed => w.apply (w.session.start y)
  | .sessionConnectFailed _ => w
  | .sessionReceiveMessage _ => w
  | .sessionReadError _ =>
    match o with
    | .RpcClient => w.apply (w.session.resetReadBuffer.reconnect x)
    | .RpcSessionNetHandler => { w with session := w.session.stop throws }

def step (o : Owner) (w : Lifecycle) : LifeEvent → Option Lifecycle
  | .connect x => some (w.apply (w.session.connect x))
  | .reconnect x => some (w.apply (w.session.reconnect x))
  | .start y => some (w.apply (w.session.start y))
  | .stop throws => some { w with session := w.session.stop throws }
  | .accept => some { w with
      session := { w.session with _socket := true }
      logic := w.logic ++ [.sessionConnectSucceed]
      posted := w.posted ++ [.sessionConnectSucceed] }
  | .timer x =>
    if 0 < w.timers then some ({ w with timers := w.timers - 1 }.apply (w.session.onReconnect x))
    else none
  | .handleConnect e =>
    if 0 < w.attempts then
      some ({ w with attempts := w.attempts - 1 }.apply (w.session.handleConnect e))
    else none
  | .readBegins =>
    if 0 < w.reads then
      some { w with
        session := { w.session with _reading := false }
        reads := w.reads - 1
        readers := w.readers ++ [.begun] }
    else none
  | .readOn i e rs =>
    if w.readers[i]? = some .begun then
      (w.session.readOn e rs).map fun r =>
        { w with
          readers := if r.2.2 then w.readers.eraseIdx i ++ [ReadHandler.late]
            else w.readers.eraseIdx i }.apply (r.1, r.2.1)
    else none
  | .readEnds i =>
    if w.readers[i]? = some .late then
      some { w with
        session := { w.session with _status := .Disconnected }
        readers := w.readers.eraseIdx i }
    else none
  | .handleWrite e ws =>
    if 0 < w.writes then
      (w.session.handleWrite e ws).map fun r =>
        { w with writes := w.writes - 1 }.apply (r.1, r.2.2)
    else none
  | .writeMessage m => (w.session.writeMessage m).map fun r => w.apply r.2
  | .logic y x throws =>
    match w.logic with
    | [] => none
    | cb :: q => some ({ w with logic := q }.callback o y x throws cb)

/-- the strong references to the session: every operation, every queued callback and every running
`handleRead` has one -/
def refs (w : Lifecycle) : Nat :=
  w.attempts + w.reads + w.readers.length + w.writes + w.timers + w.logic.length

/-! ## what the session's functions do to it -/

section
variable (w : Lifecycle)

def messages (ps : List (List UInt8)) : List Callback :=
  ps.map fun f => .sessionReceiveMessage (Message.create f f.length)

theorem foldl_receivePosts (ps : List (List UInt8)) :
    (receivePosts ps).foldl perform w
      = { w with logic := w.logic ++ messages ps, posted := w.posted ++ messages ps } := by
  induction ps generalizing w with
  | nil =>
    show w = { w with logic := w.logic ++ [], posted := w.posted ++ [] }
    rw [List.append_nil, List.append_nil]
  | cons f ps ih =>
    show (receivePosts ps).foldl perform
      { w with logic := w.logic ++ [_], posted := w.posted ++ [_] } = _
    rw [ih, List.append_assoc, List.append_assoc]
    rfl

theorem foldl_writes (es : List Effect) (h : ∀ f ∈ es, f = .async_write_some) :
    es.foldl perform w = { w with writes := w.writes + es.length } := by
  induction es generalizing w with
  | nil => rfl
  | cons f es ih =>
    rw [h f List.mem_cons_self]
    show es.foldl perform { w with writes := w.writes + 1 } = _
    rw [ih { w with writes := w.writes + 1 } (fun g hg => h g (List.mem_cons_of_mem _ hg)),
      List.length_cons, Nat.add_assoc, Nat.add_comm 1]

/-- the outcomes of `onConnect` -/
inductive Connects (x : ConnectCalls) : Lifecycle → Prop
  | busy (h : w.session._status ≠ .Disconnected) : Connects x w
  | threw (h : w.session._status = .Disconnected) (hx : x.throws = true) (socket : Bool) :
      Connects x { w with session := { w.session with _status := .Connecting, _socket := socket } }
  | attempt (h : w.session._status = .Disconnected) : Connects x { w with
      session := { w.session with _status := .Connecting, _socket := true }
      attempts := w.attempts + 1
      opened := w.opened + 1 }
  | succeed (h : w.session._status = .Disconnected) : Connects x { w with
      session := { w.session with _status := .Connected, _socket := true }
      logic := w.logic ++ [.sessionConnectSucceed]
      opened := w.opened + 1
      posted := w.posted ++ [.sessionConnectSucceed] }
  | fail (h : w.session._status = .Disconnected) (e : ErrorCode) (timers : Nat) :
      Connects x { w with
        session := { w.session with _status := .Disconnected, _socket := true }
        timers := timers
        logic := w.logic ++ [.sessionConnectFailed e]
        opened := w.opened + 1
        posted := w.posted ++ [.sessionConnectFailed e] }

theorem connects (x : ConnectCalls) : Connects w x (w.apply (w.session.onConnect x)) := by
  rcases Client.onConnect_cases w.session x with ⟨hd, e⟩ | ⟨hd, hx, socket, e⟩ | ⟨hd, e⟩ | ⟨hd, e⟩ |
    ⟨hd, er, ts, e, hts⟩
  · rw [e]
    exact .busy hd
  · rw [e]
    exact .threw hd hx socket
  · rw [e]
    exact .attempt hd
  · rw [e]
    exact .succeed hd
  · rw [e]
    rcases hts with rfl | rfl
    · exact .fail hd er w.timers
    · exact .fail hd er (w.timers + 1)

theorem opened_onConnect {x : ConnectCalls} (hd : w.session._status = .Disconnected)
    (hx : x.throws = false) : (w.apply (w.session.onConnect x)).opened = w.opened + 1 := by
  have h := w.connects x
  generalize w.apply (w.session.onConnect x) = w' at h ⊢
  cases h with
  | busy h => exact absurd hd h
  | threw _ ht _ => exact absurd (hx.symm.trans ht) (by decide)
  | attempt _ => rfl
  | succeed _ => rfl
  | fail _ _ _ => rfl

theorem connects_async {x : ConnectCalls} (ha : w.session._asyncConnect = true)
    (hd : w.session._status = .Disconnected) (hx : x.throws = false) :
    w.apply (w.session.onConnect x) = { w with
      session := { w.session with _status := .Connecting, _socket := true }
      attempts := w.attempts + 1
      opened := w.opened + 1 } := by
  have e : w.session.onConnect x = ({ w.session with _status := .Connecting, _socket := true },
      [.open_socket, .async_connect]) := by
    simp [TcpSession.onConnect, hd, ha, hx]
  rw [e]
  rfl

/-- the outcomes of `handleConnect`, behind the completion -/
inductive Completes (e : ErrorCode) : Lifecycle → Prop
  | succeed (he : e = .success) : Completes e { w with
      session := { w.session with _status := .Connected }
      logic := w.logic ++ [.sessionConnectSucceed]
      posted := w.posted ++ [.sessionConnectSucceed] }
  | fail (he : e ≠ .success) (timers : Nat)
      (ht : w.session._reconnectInterval ≠ 0 → 0 < timers) : Completes e { w with
      session := { w.session with _status := .Disconnected }
      timers := timers
      logic := w.logic ++ [.sessionConnectFailed e]
      posted := w.posted ++ [.sessionConnectFailed e] }

theorem completes (e : ErrorCode) : Completes w e (w.apply (w.session.handleConnect e)) := by
  by_cases he : e = .success
  · rw [he]
    exact .succeed rfl
  · unfold TcpSession.handleConnect
    rw [if_pos he]
    dsimp only
    by_cases hi : w.session._reconnectInterval ≠ 0
    · rw [if_pos hi]
      exact .fail he (w.timers + 1) (fun _ => Nat.succ_pos _)
    · rw [if_neg hi]
      exact .fail he w.timers (fun h => absurd h hi)

/-- the outcomes of `postReadNull` in a session `s` -/
inductive Reads (s : TcpSession) : Lifecycle → Prop
  | none (h : s._socket = false ∨ s._reading = true) : Reads s { w with session := s }
  | post (h : s._socket = true) : Reads s { w with
      session := { s with _reading := true }
      reads := w.reads + 1 }

theorem readsNull (s : TcpSession) : Reads w s (w.apply s.postReadNull) := by
  unfold postReadNull
  split
  · next h =>
    refine .none ?_
    rw [Bool.or_eq_true, Bool.not_eq_true'] at h
    exact h
  · next h =>
    refine .post ?_
    rw [Bool.or_eq_true, Bool.not_eq_true', not_or, Bool.not_eq_false] at h
    exact h.1

/-- the state after the posts of a read, with the session `s` -/
def receive (s : TcpSession) (cbs : List Callback) : Lifecycle :=
  { w with session := s, logic := w.logic ++ cbs, posted := w.posted ++ cbs }

theorem apply_posts (s : TcpSession) (ps : List (List UInt8)) (cb : Callback) :
    w.apply (s, receivePosts ps ++ [.post cb]) = w.receive s (messages ps ++ [cb]) := by
  unfold apply
  rw [List.foldl_append, foldl_receivePosts]
  unfold receive
  rw [← List.append_assoc, ← List.append_assoc]
  rfl

theorem apply_reads (s s' : TcpSession) (ps : List (List UInt8)) :
    w.apply (s.postReadNull.1, receivePosts ps ++ s.postReadNull.2)
      = (w.receive s' (messages ps)).apply s.postReadNull := by
  unfold apply
  rw [List.foldl_append, foldl_receivePosts]
  rfl

/-- the outcomes of the middle step of `handleRead`, in a state without its reader -/
inductive ReadsOn (e : ErrorCode) (rs : ReadSome) : Lifecycle → Prop
  | ends (b : ReadBuffer) (k : Nat) (ps : List (List UInt8)) (er : ErrorCode) : ReadsOn e rs
      (w.receive { w.session with _buff := b, _readBlockTimes := k, _status := .Disconnected }
        (messages ps ++ [.sessionReadError er]))
  | givesUp (b : ReadBuffer) (k : Nat) (ps : List (List UInt8)) (er : ErrorCode) : ReadsOn e rs
      { w.receive { w.session with _buff := b, _readBlockTimes := k }
          (messages ps ++ [.sessionReadError er]) with
        readers := w.readers ++ [.late] }
  | cancelled (h : cancelled e rs = true) (b : ReadBuffer) (k : Nat) : ReadsOn e rs
      { w with session := { w.session with _buff := b, _readBlockTimes := k } }
  | again (b : ReadBuffer) (k : Nat) (ps : List (List UInt8)) {w' : Lifecycle}
      (h : Reads (w.receive w.session (messages ps))
        { w.session with _buff := b, _readBlockTimes := k } w') : ReadsOn e rs w'

end

theorem step_readOn {o : Owner} {w w' : Lifecycle} {i : Nat} {e : ErrorCode} {rs : ReadSome}
    (h : step o w (.readOn i e rs) = some w') : w.readers[i]? = some .begun ∧
      ReadsOn { w with readers := w.readers.eraseIdx i } e rs w' := by
  rw [step] at h
  split at h
  swap
  · cases h
  · next hi =>
    refine ⟨hi, ?_⟩
    obtain ⟨r, hr, rfl⟩ := Option.map_eq_some_iff.mp h
    have hc := readOn_cases hr
    cases hc with
    | ends b k ps er =>
      rw [apply_posts]
      exact .ends b k ps er
    | givesUp b k ps er =>
      rw [apply_posts]
      exact .givesUp b k ps er
    | cancelled hx b k => exact .cancelled hx b k
    | again b k ps =>
      rw [apply_reads _ _ w.session]
      exact .again b k ps (readsNull _ _)

/-- what an event does; the proofs about runs look at this and not at `step` -/
inductive Moves (o : Owner) (w : Lifecycle) : LifeEvent → Lifecycle → Prop
  | connect (x : ConnectCalls) : Moves o w (.connect x) (w.apply (w.session.onConnect x))
  | reconnect (x : ConnectCalls) : Moves o w (.reconnect x) (w.apply (w.session.onConnect x))
  | start (y : StartCalls) : Moves o w (.start y) (w.apply (w.session.start y))
  | stop (throws : Bool) : Moves o w (.stop throws) { w with session := w.session.stop throws }
  | accept : Moves o w .accept { w with
      session := { w.session with _socket := true }
      logic := w.logic ++ [.sessionConnectSucceed]
      posted := w.posted ++ [.sessionConnectSucceed] }
  | timer (x : ConnectCalls) (ht : 0 < w.timers) : Moves o w (.timer x)
      ({ w with timers := w.timers - 1 }.apply (w.session.onConnect x))
  | handleConnect (e : ErrorCode) (ha : 0 < w.attempts) {w' : Lifecycle}
      (h : Completes { w with attempts := w.attempts - 1 } e w') : Moves o w (.handleConnect e) w'
  | readBegins (hr : 0 < w.reads) : Moves o w .readBegins { w with
      session := { w.session with _reading := false }
      reads := w.reads - 1
      readers := w.readers ++ [.begun] }
  | readOn (i : Nat) (e : ErrorCode) (rs : ReadSome) (hi : w.readers[i]? = some .begun)
      {w' : Lifecycle} (h : ReadsOn { w with readers := w.readers.eraseIdx i } e rs w') :
      Moves o w (.readOn i e rs) w'
  | readEnds (i : Nat) (hi : w.readers[i]? = some .late) : Moves o w (.readEnds i) { w with
      session := { w.session with _status := .Disconnected }
      readers := w.readers.eraseIdx i }
  | handleWrite (e : ErrorCode) (ws : List WriteSome) {t : TcpSession}
      (ht : t.readSide = w.session.readSide) (writes : Nat) :
      Moves o w (.handleWrite e ws) { w with session := t, writes := writes }
  | writeMessage (m : Message) {t : TcpSession} (ht : t.readSide = w.session.readSide)
      (writes : Nat) : Moves o w (.writeMessage m) { w with session := t, writes := writes }
  | runStart {q : List Callback} (hq : w.logic = .sessionConnectSucceed :: q) (y : StartCalls)
      (x : ConnectCalls) (throws : Bool) : Moves o w (.logic y x throws)
      ({ w with logic := q }.apply (w.session.start y))
  | runOther {cb : Callback} {q : List Callback} (hq : w.logic = cb :: q)
      (h1 : cb ≠ .sessionConnectSucceed) (h2 : ∀ e, cb ≠ .sessionReadError e) (y : StartCalls)
      (x : ConnectCalls) (throws : Bool) : Moves o w (.logic y x throws) { w with logic := q }
  | runReconnect {e : ErrorCode} {q : List Callback} (hq : w.logic = .sessionReadError e :: q)
      (ho : o = .RpcClient) (y : StartCalls) (x : ConnectCalls) (throws : Bool) :
      Moves o w (.logic y x throws)
        ({ w with logic := q }.apply (w.session.resetReadBuffer.onConnect x))
  | runStop {e : ErrorCode} {q : List Callback} (hq : w.logic = .sessionReadError e :: q)
      (ho : o = .RpcSessionNetHandler) (y : StartCalls) (x : ConnectCalls) (throws : Bool) :
      Moves o w (.logic y x throws) { w with session := w.session.stop throws, logic := q }

theorem moves_logic {o : Owner} {w w' : Lifecycle} {y : StartCalls} {x : ConnectCalls}
    {throws : Bool} (h : step o w (.logic y x throws) = some w') :
    Moves o w (.logic y x throws) w' := by
  rw [step] at h
  cases hq : w.logic with
  | nil =>
    simp only [hq] at h
    cases h
  | cons cb q =>
    simp only [hq] at h
    cases h
    cases cb with
    | sessionConnectSucceed => exact .runStart hq y x throws
    | sessionConnectFailed er =>
      exact .runOther hq (fun hx => by cases hx) (fun _ hx => by cases hx) y x throws
    | sessionReceiveMessage m =>
      exact .runOther hq (fun hx => by cases hx) (fun _ hx => by cases hx) y x throws
    | sessionReadError er =>
      cases o with
      | RpcClient => exact .runReconnect hq rfl y x throws
      | RpcSessionNetHandler => exact .runStop hq rfl y x throws

theorem step_moves {o : Owner} {w w' : Lifecycle} {e : LifeEvent} (h : step o w e = some w') :
    Moves o w e w' := by
  cases e with
  | connect x =>
    cases h
    exact .connect x
  | reconnect x =>
    cases h
    exact .reconnect x
  | start y =>
    cases h
    exact .start y
  | stop throws =>
    cases h
    exact .stop throws
  | accept =>
    cases h
    exact .accept
  | timer x =>
    rw [step] at h
    split at h
    · next ht =>
      cases h
      exact .timer x ht
    · cases h
  | handleConnect er =>
    rw [step] at h
    split at h
    · next ha =>
      cases h
      exact .handleConnect er ha (completes { w with attempts := w.attempts - 1 } er)
    · cases h
  | readBegins =>
    rw [step] at h
    split at h
    · next hr =>
      cases h
      exact .readBegins hr
    · cases h
  | readOn i er rs => exact .readOn i er rs (step_readOn h).1 (step_readOn h).2
  | readEnds i =>
    rw [step] at h
    split at h
    · next hi =>
      cases h
      exact .readEnds i hi
    · cases h
  | handleWrite er ws =>
    rw [step] at h
    split at h
    · obtain ⟨⟨t, bytes, es⟩, hr, rfl⟩ := Option.map_eq_some_iff.mp h
      unfold apply
      rw [foldl_writes _ es (handleWrite_effects hr)]
      exact .handleWrite er ws (handleWrite_readSide hr) _
    · cases h
  | writeMessage m =>
    obtain ⟨⟨r, t, es⟩, hr, rfl⟩ := Option.map_eq_some_iff.mp h
    unfold apply
    rw [foldl_writes _ es (writeMessage_effects hr)]
    exact .writeMessage m (writeMessage_readSide hr) _
  | logic y x throws => exact moves_logic h

end Lifecycle

end JMEngine.Net
