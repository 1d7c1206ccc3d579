import JMEngine.Net.HandleRead
import JMEngine.Net.WriteBuffer

/-!
# A client's session, its socket and the two threads

`Client` is the session of an `RpcClient` together with what is under way for it: asynchronous
operations and reconnect timers of the net thread, and the queue of the logic thread, which runs the
handler's callbacks one after the other (source/rpc/JME_RpcClient.cpp: `sessionConnectSucceed` starts
the session, `sessionReadError` resets the read buffer and reconnects).

* `Client.step`        one completion, expiry, call or callback;
* `Move R c c'`        what a step does to the client, in the terms in which invariants are stated;
* `step_moves`         every step that the rules `R` permit is at most two such moves;
* `run_moves`          so what every move keeps holds in every run.
-/

set_option linter.unusedSectionVars false

namespace JMEngine.Net
open Bytes Framing Runs TcpSession

/-- `logic` is the queue of the logic thread and `handled` what it has run; a callback carries the
number of connections that had been established when it was posted (its own included).  `streams`
are the bytes received on each established connection, `sent` the bytes that the present socket
accepted and `sockets` those of the sockets before it; `up` says that the present socket is
connected. -/
structure Client where
  session : TcpSession
  attempts : Nat
  reads : Nat
  writes : Nat
  timers : List Nat
  logic : List (Nat × Callback)
  handled : List (Nat × Callback)
  streams : List (List UInt8)
  up : Bool
  sent : List UInt8
  sockets : List (List UInt8)
  deriving DecidableEq, Repr

inductive ClientEvent where
  | connect (x : ConnectCalls)
  | reconnect (x : ConnectCalls)
  /-- a reconnect timer expires -/
  | timer (i : Nat) (x : ConnectCalls)
  /-- the peer accepts; the handler has not run yet -/
  | accepted
  | handleConnect (e : ErrorCode)
  /-- the logic thread runs the next callback -/
  | logic (y : StartCalls) (x : ConnectCalls)
  | handleRead (e : ErrorCode) (rs : ReadSome)
  | handleWrite (e : ErrorCode) (ws : List WriteSome)
  | writeMessage (m : Message)
  deriving DecidableEq, Repr

namespace Client

def new (session : TcpSession) : Client :=
  ⟨session, 0, 0, 0, [], [], [], [], false, [], []⟩

def posted (c : Client) : List (Nat × Callback) := c.handled ++ c.logic

def receive (streams : List (List UInt8)) (chunk : List UInt8) : List (List UInt8) :=
  match streams.getLast? with
  | none => []
  | some xs => streams.dropLast ++ [xs ++ chunk]

def perform (c : Client) : Effect → Client
  | .open_socket => { c with up := false, sent := [], sockets := c.sockets ++ [c.sent] }
  | .async_connect => { c with attempts := c.attempts + 1 }
  | .async_read_some => { c with reads := c.reads + 1 }
  | .async_write_some => { c with writes := c.writes + 1 }
  | .async_wait seconds => { c with timers := c.timers ++ [seconds] }
  | .post .sessionConnectSucceed => { c with
      up := true
      streams := c.streams ++ [[]]
      logic := c.logic ++ [(c.streams.length + 1, .sessionConnectSucceed)] }
  | .post cb => { c with logic := c.logic ++ [(c.streams.length, cb)] }

def apply (c : Client) (r : TcpSession × List Effect) : Client :=
  r.2.foldl perform { c with session := r.1 }

/-- the callbacks of `RpcClient`; `sessionReceiveMessage` does not touch the session -/
def callback (c : Client) (y : StartCalls) (x : ConnectCalls) : Callback → Client
  | .sessionConnectSucceed => c.apply (c.session.start y)
  | .sessionConnectFailed _ => c
  | .sessionReceiveMessage _ => c
  | .sessionReadError _ =>
    { c with session := c.session.resetReadBuffer }.apply (c.session.resetReadBuffer.reconnect x)

def step (c : Client) : ClientEvent → Option Client
  | .connect x => some (c.apply (c.session.connect x))
  | .reconnect x => some (c.apply (c.session.reconnect x))
  | .timer i x =>
    if i < c.timers.length then
      some ({ c with timers := c.timers.eraseIdx i }.apply (c.session.onReconnect x))
    else none
  | .accepted => if 0 < c.attempts then some { c with up := true } else none
  | .handleConnect e =>
    -- an attempt that the peer has accepted does not fail any more
    if 0 < c.attempts ∧ (e = .success ∨ c.up = false) then
      some ({ c with attempts := c.attempts - 1 }.apply (c.session.handleConnect e))
    else none
  | .logic y x =>
    match c.logic with
    | [] => none
    | (k, cb) :: q => some ({ c with logic := q, handled := c.handled ++ [(k, cb)] }.callback y x cb)
  | .handleRead e rs =>
    if 0 < c.reads ∧ ((readBytes e rs).getD []).length ≤ c.session._buff.getAvailableBufferSize then
      match c.session.handleRead e rs with
      | none => none
      | some r => some ({ c with
          reads := c.reads - 1
          streams := receive c.streams ((readBytes e rs).getD []) }.apply r)
    else none
  | .handleWrite e ws =>
    if 0 < c.writes then
      match c.session.handleWrite e ws with
      | none => none
      | some (t, bytes, es) =>
        -- only a connected socket takes bytes
        if c.up = true ∨ bytes = [] then
          some ({ c with writes := c.writes - 1, sent := c.sent ++ bytes }.apply (t, es))
        else none
    else none
  | .writeMessage m =>
    if m.Sound then
      match c.session.writeMessage m with
      | none => none
      | some (_, t, es) => some (c.apply (t, es))
    else none

/-! ## what runs may do -/

/-- what a run may do: whether resolving or parsing an address throws, what one read returns, what has
been sent on a socket that another one replaces, and which messages are written -/
structure Rules where
  throws : Prop
  read : List UInt8 → Prop
  opens : List UInt8 → Prop
  writes : Message → Prop

/-- the outside calls that the event makes in `onConnect` throw -/
def throwing : ClientEvent → Bool
  | .connect x => x.throws
  | .reconnect x => x.throws
  | .timer _ x => x.throws
  | .logic _ x => x.throws
  | _ => false

structure Rules.Permits (R : Rules) (c : Client) (e : ClientEvent) : Prop where
  throws : throwing e = true → R.throws
  read : ∀ err rs chunk, e = .handleRead err rs → readBytes err rs = some chunk → R.read chunk
  opens : ∀ c', step c e = some c' → c'.sockets ≠ c.sockets → R.opens c.sent
  writes : ∀ m, e = .writeMessage m → R.writes m

/-- the session and the socket of an attempt that begins now -/
def reopen (c : Client) (status : SessionStatus) : Client :=
  { c with
    session := { c.session with _status := status, _socket := true }
    up := false
    sent := []
    sockets := c.sockets ++ [c.sent] }

/-- a connection is established: the callback that will start it is posted -/
def establish (c : Client) : Client :=
  { c with
    session := { c.session with _status := .Connected }
    up := true
    streams := c.streams ++ [[]]
    logic := c.logic ++ [(c.streams.length + 1, .sessionConnectSucceed)] }

def refuse (c : Client) (e : ErrorCode) (timers : List Nat) : Client :=
  { c with
    session := { c.session with _status := .Disconnected }
    timers := timers
    logic := c.logic ++ [(c.streams.length, .sessionConnectFailed e)] }

def dequeue (c : Client) (q : List (Nat × Callback)) (a : Nat × Callback) : Client :=
  { c with logic := q, handled := c.handled ++ [a] }

/-- the messages posted by a read, with the connection they belong to -/
def messagePosts (k : Nat) (ps : List (List UInt8)) : List (Nat × Callback) :=
  ps.map fun f => (k, .sessionReceiveMessage (Message.create f f.length))

/-- a read completes: `read` is what it returned, `status` and `again` how the session goes on, and
`last` what it posts after the messages -/
def afterRead (c : Client) (read : Option (List UInt8)) (k : Nat) (status : SessionStatus)
    (again : Bool) (last : List Callback) : Client :=
  { c with
    session := { c.session with
      _reading := again
      _buff := (c.session.drained read).2
      _readBlockTimes := k
      _status := status }
    reads := c.reads - 1 + again.toNat
    streams := receive c.streams (read.getD [])
    logic := c.logic ++ messagePosts c.streams.length (c.session.drained read).1
      ++ last.map fun cb => (c.streams.length, cb) }

inductive Move (R : Rules) (c : Client) : Client → Prop
  | wait (timers : List Nat) (up : Bool) : Move R c { c with timers := timers, up := up }
  | attempt (h : c.session._status = .Disconnected) (ho : R.opens c.sent) :
      Move R c { c.reopen .Connecting with attempts := c.attempts + 1 }
  | threw (h : c.session._status = .Disconnected) (ht : R.throws) (socket : Bool) :
      Move R c { c with session := { c.session with _status := .Connecting, _socket := socket } }
  | connectNow (h : c.session._status = .Disconnected) (ho : R.opens c.sent) :
      Move R c (c.reopen .Connecting).establish
  | refuseNow (h : c.session._status = .Disconnected) (ho : R.opens c.sent) (e : ErrorCode)
      (timers : List Nat) : Move R c ((c.reopen .Connecting).refuse e timers)
  | succeed (h : 0 < c.attempts) : Move R c { c with attempts := c.attempts - 1 }.establish
  | fail (h : 0 < c.attempts) (e : ErrorCode) (timers : List Nat) :
      Move R c ({ c with attempts := c.attempts - 1 }.refuse e timers)
  | startFails {k : Nat} {q : List (Nat × Callback)} (h : c.logic = (k, .sessionConnectSucceed) :: q)
      (status : SessionStatus) (hs : status = c.session._status ∨ status = .Connected) :
      Move R c { c.dequeue q (k, .sessionConnectSucceed) with
        session := { c.session with _status := status } }
  | start {k : Nat} {q : List (Nat × Callback)} (h : c.logic = (k, .sessionConnectSucceed) :: q)
      (hr : c.session._reading = false) :
      Move R c { c.dequeue q (k, .sessionConnectSucceed) with
        session := { c.session with _status := .Connected, _reading := true }, reads := c.reads + 1 }
  | ignore {k : Nat} {cb : Callback} {q : List (Nat × Callback)} (h : c.logic = (k, cb) :: q)
      (h1 : cb ≠ .sessionConnectSucceed) (h2 : ∀ e, cb ≠ .sessionReadError e) :
      Move R c (c.dequeue q (k, cb))
  | reset {k : Nat} {e : ErrorCode} {q : List (Nat × Callback)}
      (h : c.logic = (k, .sessionReadError e) :: q) :
      Move R c { c.dequeue q (k, .sessionReadError e) with session := c.session.resetReadBuffer }
  | readEnds (h : 0 < c.reads) (read : Option (List UInt8))
      (hb : (read.getD []).length ≤ c.session._buff.getAvailableBufferSize)
      (hr : ∀ chunk, read = some chunk → R.read chunk) (k : Nat) (e : ErrorCode) :
      Move R c (c.afterRead read k .Disconnected false [.sessionReadError e])
  | readGoesOn (h : 0 < c.reads) (read : Option (List UInt8))
      (hb : (read.getD []).length ≤ c.session._buff.getAvailableBufferSize)
      (hr : ∀ chunk, read = some chunk → R.read chunk) (k : Nat) (again : Bool) :
      Move R c (c.afterRead read k c.session._status again [])
  | handleWrite (e : ErrorCode) (ws : List WriteSome) {t : TcpSession} {bytes : List UInt8}
      {es : List Effect} (h : c.session.handleWrite e ws = some (t, bytes, es)) (writes : Nat) :
      Move R c { c with session := t, sent := c.sent ++ bytes, writes := writes }
  | writeMessage {m : Message} (hm : m.Sound) (hw : R.writes m) {r : Bool} {t : TcpSession}
      {es : List Effect} (h : c.session.writeMessage m = some (r, t, es)) (writes : Nat) :
      Move R c { c with session := t, writes := writes }

/-! ## a step is at most two moves -/

theorem length_receive (streams : List (List UInt8)) (chunk : List UInt8) :
    (receive streams chunk).length = streams.length := by
  unfold receive
  cases h : streams.getLast? with
  | none => rw [List.getLast?_eq_none_iff.mp h]
  | some xs =>
    have hne : streams ≠ [] := fun e => by
      rw [e] at h
      cases h
    have := List.length_pos_iff.mpr hne
    rw [List.length_append, List.length_dropLast, List.length_singleton]
    omega

theorem foldl_receivePosts (c : Client) (ps : List (List UInt8)) :
    (receivePosts ps).foldl perform c
      = { c with logic := c.logic ++ messagePosts c.streams.length ps } := by
  induction ps generalizing c with
  | nil =>
    show c = { c with logic := c.logic ++ [] }
    rw [List.append_nil]
  | cons f ps ih =>
    show (receivePosts ps).foldl perform { c with logic := c.logic ++ [_] } = _
    rw [ih, List.append_assoc]
    rfl

theorem foldl_writes (es : List Effect) (h : ∀ f ∈ es, f = .async_write_some) (c : Client) :
    es.foldl perform c = { c with writes := c.writes + es.length } := by
  induction es generalizing c with
  | nil => rfl
  | cons f es ih =>
    rw [h f List.mem_cons_self]
    show es.foldl perform { c with writes := c.writes + 1 } = _
    rw [ih (fun g hg => h g (List.mem_cons_of_mem _ hg)), List.length_cons, Nat.add_assoc,
      Nat.add_comm 1]

theorem onConnect_cases (s : TcpSession) (x : ConnectCalls) :
    (s._status ≠ .Disconnected ∧ s.onConnect x = (s, [])) ∨
    (s._status = .Disconnected ∧ x.throws = true ∧ ∃ socket,
      s.onConnect x = ({ s with _status := .Connecting, _socket := socket }, [])) ∨
    (s._status = .Disconnected ∧
      s.onConnect x = ({ s with _status := .Connecting, _socket := true },
        [.open_socket, .async_connect])) ∨
    (s._status = .Disconnected ∧
      s.onConnect x = ({ s with _status := .Connected, _socket := true },
        [.open_socket, .post .sessionConnectSucceed])) ∨
    (s._status = .Disconnected ∧ ∃ e ts,
      s.onConnect x = ({ s with _status := .Disconnected, _socket := true },
        .open_socket :: .post (.sessionConnectFailed e) :: ts) ∧
      (ts = [] ∨ ts = [.async_wait s._reconnectInterval])) := by
  by_cases hd : s._status = .Disconnected
  swap
  · exact Or.inl ⟨hd, if_pos hd⟩
  right
  by_cases hx : x.throws = true
  · left
    by_cases ha : s._asyncConnect = true
    · exact ⟨hd, hx, s._socket, by simp [onConnect, hd, ha, hx]⟩
    · exact ⟨hd, hx, false, by simp [onConnect, hd, ha, hx]⟩
  right
  by_cases ha : s._asyncConnect = true
  · left
    exact ⟨hd, by simp [onConnect, hd, ha, hx]⟩
  right
  have e : s.onConnect x = ((TcpSession.handleConnect
      { s with _status := .Connecting, _socket := true } x.ec).1,
      .open_socket :: (TcpSession.handleConnect
        { s with _status := .Connecting, _socket := true } x.ec).2) := by
    simp [onConnect, hd, ha, hx]
  rw [e]
  by_cases he : x.ec = .success
  · left
    refine ⟨hd, ?_⟩
    rw [he]
    rfl
  · right
    refine ⟨hd, x.ec, if s._reconnectInterval ≠ 0 then [.async_wait s._reconnectInterval] else [],
      ?_, ?_⟩
    · unfold TcpSession.handleConnect
      rw [if_pos he]
    · split
      · exact Or.inr rfl
      · exact Or.inl rfl

section
variable {R : Rules} (c : Client)

theorem foldl_timers (ts : List Effect) (n : Nat) (h : ts = [] ∨ ts = [.async_wait n]) :
    ∃ timers, ts.foldl perform c = { c with timers := timers } := by
  rcases h with rfl | rfl
  · exact ⟨c.timers, rfl⟩
  · exact ⟨c.timers ++ [n], rfl⟩

theorem onConnect_moves (x : ConnectCalls) (ht : x.throws = true → R.throws) {c' : Client}
    (h : some (c.apply (c.session.onConnect x)) = some c')
    (ho : c'.sockets ≠ c.sockets → R.opens c.sent) : c' = c ∨ Move R c c' := by
  rw [← Option.some.inj h] at ho ⊢
  have hne : c.sockets ++ [c.sent] ≠ c.sockets := fun e => by
    have := congrArg List.length e
    rw [List.length_append, List.length_singleton] at this
    omega
  rcases onConnect_cases c.session x with ⟨_, e⟩ | ⟨hd, hx, socket, e⟩ | ⟨hd, e⟩ | ⟨hd, e⟩ |
    ⟨hd, er, ts, e, hts⟩
  · left
    rw [e]
    rfl
  · right
    rw [e]
    exact Move.threw hd (ht hx) socket
  · right
    rw [e] at ho ⊢
    exact Move.attempt hd (ho hne)
  · right
    rw [e] at ho ⊢
    exact Move.connectNow hd (ho hne)
  · right
    rw [e] at ho ⊢
    obtain ⟨timers, hf⟩ := foldl_timers ((c.reopen .Connecting).refuse er c.timers) ts _ hts
    have ha : c.apply ({ c.session with _status := .Disconnected, _socket := true },
        .open_socket :: .post (.sessionConnectFailed er) :: ts)
        = (c.reopen .Connecting).refuse er timers := hf
    rw [ha] at ho ⊢
    exact Move.refuseNow hd (ho hne) er timers

theorem start_moves {k : Nat} {q : List (Nat × Callback)} (y : StartCalls)
    (h : c.logic = (k, .sessionConnectSucceed) :: q) :
    Move R c ((c.dequeue q (k, .sessionConnectSucceed)).apply (c.session.start y)) := by
  cases y with
  | remote_endpoint_throws => exact Move.startFails h _ (Or.inl rfl)
  | non_blocking_throws => exact Move.startFails h _ (Or.inr rfl)
  | fine =>
    by_cases hr : c.session._reading = false
    · obtain ⟨again, e⟩ := postReadNull_cases { c.session with _status := .Connected } hr
      have e' : c.session.start .fine = _ := e
      rw [e']
      cases again with
      | false =>
        have hs : { c.session with _status := SessionStatus.Connected, _reading := false }
            = { c.session with _status := SessionStatus.Connected } := by rw [← hr]
        rw [hs]
        exact Move.startFails h _ (Or.inr rfl)
      | true => exact Move.start h hr
    · have e : c.session.start .fine = ({ c.session with _status := .Connected }, []) := by
        show postReadNull { c.session with _status := .Connected } = _
        unfold postReadNull
        rw [if_pos]
        rw [Bool.not_eq_false] at hr
        show (!c.session._socket || c.session._reading) = true
        rw [hr, Bool.or_true]
      rw [e]
      exact Move.startFails h _ (Or.inr rfl)

theorem handleConnect_moves (h : 0 < c.attempts) (e : ErrorCode) :
    Move R c ({ c with attempts := c.attempts - 1 }.apply (c.session.handleConnect e)) := by
  by_cases he : e = .success
  · rw [he]
    exact Move.succeed h
  · obtain ⟨timers, hf⟩ := foldl_timers
      ({ c with attempts := c.attempts - 1 }.refuse e c.timers)
      (if c.session._reconnectInterval ≠ 0 then [.async_wait c.session._reconnectInterval] else [])
      c.session._reconnectInterval (by
        split
        · exact Or.inr rfl
        · exact Or.inl rfl)
    have ha : { c with attempts := c.attempts - 1 }.apply (c.session.handleConnect e)
        = { c with attempts := c.attempts - 1 }.refuse e timers := by
      unfold TcpSession.handleConnect
      rw [if_pos he]
      exact hf
    rw [ha]
    exact Move.fail h e timers

theorem handleRead_moves (h : 0 < c.reads) (e : ErrorCode) (rs : ReadSome)
    (hb : ((readBytes e rs).getD []).length ≤ c.session._buff.getAvailableBufferSize)
    (hr : ∀ chunk, readBytes e rs = some chunk → R.read chunk) {r : TcpSession × List Effect}
    (hs : c.session.handleRead e rs = some r) :
    Move R c ({ c with
      reads := c.reads - 1
      streams := receive c.streams ((readBytes e rs).getD []) }.apply r) := by
  obtain ⟨t, es⟩ := r
  have hl := length_receive c.streams ((readBytes e rs).getD [])
  have hc := handleRead_cases hs
  unfold apply
  cases hc with
  | ends k er =>
    rw [List.foldl_append, foldl_receivePosts]
    have hm := Move.readEnds (R := R) h (readBytes e rs) hb hr k er
    unfold afterRead at hm
    rw [← hl] at hm
    exact hm
  | goesOn k again =>
    rw [List.foldl_append, foldl_receivePosts]
    have hm := Move.readGoesOn (R := R) h (readBytes e rs) hb hr k again
    unfold afterRead at hm
    rw [← hl, List.map_nil, List.append_nil] at hm
    cases again with
    | false => exact hm
    | true => exact hm

theorem handleWrite_moves (e : ErrorCode) (ws : List WriteSome) {t : TcpSession}
    {bytes : List UInt8} {es : List Effect} (h : c.session.handleWrite e ws = some (t, bytes, es)) :
    Move R c ({ c with writes := c.writes - 1, sent := c.sent ++ bytes }.apply (t, es)) := by
  unfold apply
  rw [foldl_writes es (handleWrite_effects h)]
  exact Move.handleWrite e ws h _

theorem writeMessage_moves {m : Message} (hm : m.Sound) (hw : R.writes m) {r : Bool} {t : TcpSession}
    {es : List Effect} (h : c.session.writeMessage m = some (r, t, es)) :
    Move R c (c.apply (t, es)) := by
  unfold apply
  rw [foldl_writes es (writeMessage_effects h)]
  exact Move.writeMessage hm hw h _

end

theorem logic_moves {R : Rules} {c c' : Client} {y : StartCalls} {x : ConnectCalls}
    (hR : R.Permits c (.logic y x)) (h : step c (.logic y x) = some c') :
    ∃ c1, Move R c c1 ∧ (c' = c1 ∨ Move R c1 c') := by
  have hs := h
  rw [step] at hs
  cases hq : c.logic with
  | nil =>
    simp only [hq] at hs
    cases hs
  | cons a q =>
    obtain ⟨k, cb⟩ := a
    simp only [hq] at hs
    cases cb with
    | sessionConnectSucceed =>
      exact ⟨_, start_moves c y hq, Or.inl (Option.some.inj hs).symm⟩
    | sessionConnectFailed er =>
      exact ⟨_, Move.ignore hq (fun h => by cases h) (fun _ h => by cases h),
        Or.inl (Option.some.inj hs).symm⟩
    | sessionReceiveMessage m =>
      exact ⟨_, Move.ignore hq (fun h => by cases h) (fun _ h => by cases h),
        Or.inl (Option.some.inj hs).symm⟩
    | sessionReadError er =>
      exact ⟨_, Move.reset hq, onConnect_moves { c.dequeue q (k, .sessionReadError er) with
          session := c.session.resetReadBuffer } x hR.throws hs (hR.opens c' h)⟩

section
variable {c c' : Client}

theorem handleRead_of_step {e : ErrorCode} {rs : ReadSome} (h : step c (.handleRead e rs) = some c') :
    0 < c.reads ∧ ((readBytes e rs).getD []).length ≤ c.session._buff.getAvailableBufferSize ∧
      ∃ r, c.session.handleRead e rs = some r ∧ c' = { c with
        reads := c.reads - 1
        streams := receive c.streams ((readBytes e rs).getD []) }.apply r := by
  rw [step] at h
  split at h
  · next ha =>
    cases hr : c.session.handleRead e rs with
    | none =>
      rw [hr] at h
      cases h
    | some r =>
      rw [hr] at h
      exact ⟨ha.1, ha.2, r, rfl, (Option.some.inj h).symm⟩
  · cases h

theorem handleWrite_of_step {e : ErrorCode} {ws : List WriteSome}
    (h : step c (.handleWrite e ws) = some c') :
    ∃ t bytes es, c.session.handleWrite e ws = some (t, bytes, es) ∧
      c' = { c with writes := c.writes - 1, sent := c.sent ++ bytes }.apply (t, es) := by
  rw [step] at h
  split at h
  · cases hw : c.session.handleWrite e ws with
    | none =>
      rw [hw] at h
      cases h
    | some r =>
      obtain ⟨t, bytes, es⟩ := r
      rw [hw] at h
      dsimp only at h
      split at h
      · exact ⟨t, bytes, es, rfl, (Option.some.inj h).symm⟩
      · cases h
  · cases h

theorem writeMessage_of_step {m : Message} (h : step c (.writeMessage m) = some c') :
    m.Sound ∧ ∃ r t es, c.session.writeMessage m = some (r, t, es) ∧ c' = c.apply (t, es) := by
  rw [step] at h
  split at h
  · next hm =>
    cases hw : c.session.writeMessage m with
    | none =>
      rw [hw] at h
      cases h
    | some x =>
      obtain ⟨r, t, es⟩ := x
      rw [hw] at h
      exact ⟨hm, r, t, es, rfl, (Option.some.inj h).symm⟩
  · cases h

end

theorem step_moves {R : Rules} {c c' : Client} {e : ClientEvent} (hR : R.Permits c e)
    (h : step c e = some c') : ∃ c1, Move R c c1 ∧ (c' = c1 ∨ Move R c1 c') := by
  have hstay : Move R c c := Move.wait c.timers c.up
  cases e with
  | connect x => exact ⟨c, hstay, onConnect_moves c x hR.throws h (hR.opens c' h)⟩
  | reconnect x => exact ⟨c, hstay, onConnect_moves c x hR.throws h (hR.opens c' h)⟩
  | timer i x =>
    have hs := h
    rw [step] at hs
    by_cases hi : i < c.timers.length
    · rw [if_pos hi] at hs
      exact ⟨_, Move.wait (c.timers.eraseIdx i) c.up,
        onConnect_moves { c with timers := c.timers.eraseIdx i } x hR.throws hs (hR.opens c' h)⟩
    · rw [if_neg hi] at hs
      cases hs
  | accepted =>
    rw [step] at h
    by_cases ha : 0 < c.attempts
    · rw [if_pos ha] at h
      exact ⟨_, Move.wait c.timers true, Or.inl (Option.some.inj h).symm⟩
    · rw [if_neg ha] at h
      cases h
  | handleConnect er =>
    rw [step] at h
    by_cases ha : 0 < c.attempts ∧ (er = .success ∨ c.up = false)
    · rw [if_pos ha] at h
      exact ⟨_, handleConnect_moves c ha.1 er, Or.inl (Option.some.inj h).symm⟩
    · rw [if_neg ha] at h
      cases h
  | logic y x => exact logic_moves hR h
  | handleRead er rs =>
    obtain ⟨h1, h2, r, hr, rfl⟩ := handleRead_of_step h
    exact ⟨_, handleRead_moves c h1 er rs h2 (fun chunk hc => hR.read er rs chunk rfl hc) hr, Or.inl rfl⟩
  | handleWrite er ws =>
    obtain ⟨t, bytes, es, hw, rfl⟩ := handleWrite_of_step h
    exact ⟨_, handleWrite_moves c er ws hw, Or.inl rfl⟩
  | writeMessage m =>
    obtain ⟨hm, b, t, es, hw, rfl⟩ := writeMessage_of_step h
    exact ⟨_, writeMessage_moves c hm (hR.writes m rfl) hw, Or.inl rfl⟩

theorem step_keeps {R : Rules} {I : Client → Prop} (hI : ∀ c c', I c → Move R c c' → I c')
    {c c' : Client} {e : ClientEvent} (h : I c) (hR : R.Permits c e) (hs : step c e = some c') :
    I c' := by
  obtain ⟨c1, h1, h2⟩ := step_moves hR hs
  rcases h2 with rfl | h2
  · exact hI c _ h h1
  · exact hI c1 c' (hI c c1 h h1) h2

/-- **What every move keeps holds in every run** that the rules permit. -/
theorem run_moves {R : Rules} {I : Client → Prop} (hI : ∀ c c', I c → Move R c c' → I c')
    {c c' : Client} (h0 : I c) (es : List ClientEvent) (hG : Guarded step R.Permits c es)
    (h : exec step c es = some c') : I c' :=
  exec_guarded step (fun _ _ _ ha hR hs => step_keeps hI ha hR hs) es c c' h0 hG h

end Client

end JMEngine.Net
