import JMEngine.Net.Lifecycle

/-!
# Sessions that somebody watches, and sessions that somebody keeps

A session that is connected notices the end of its connection by a read, and it lives as long as some
operation or queued callback refers to it; both hang on what the exits of the handlers leave behind.

* `Lifecycle.Watched`, `watched_iff_careful`   a connected session has an open socket and a read under
                         way or about to be, exactly as long as no start, stop or cancelled read leaves
                         it without;
* `Lifecycle.Kept`       the session of an `RpcClient` has something to wait for in every status;
* `session_kept`         as long as no attempt fails for good, no start and no address throws, and no
                         read error is handled before `_status` is written.
-/

set_option linter.unusedSectionVars false

namespace JMEngine.Net
open Bytes Framing Runs TcpSession

namespace Lifecycle

/-- a read is outstanding or running, or the start that posts one is queued -/
def Attended (w : Lifecycle) : Prop :=
  0 < w.reads ∨ w.readers ≠ [] ∨ .sessionConnectSucceed ∈ w.logic

def Watched (w : Lifecycle) : Prop :=
  w.session.isOk = true → w.session._socket = true ∧ w.Attended

/-! ## the events that leave a session unwatched -/

/-- `start` leaves the session watched -/
def StartsWatched (w : Lifecycle) : StartCalls → Prop
  | .fine => w.session._socket = true
  | .remote_endpoint_throws => w.session._status = .Connected → w.Attended
  | .non_blocking_throws => w.session._socket = true ∧ w.Attended

/-- `stop` leaves no session connected on a closed socket -/
def StopsWatched (w : Lifecycle) (throws : Bool) : Prop :=
  w.session._status = .Connected → throws = true

def Careful (o : Owner) (w : Lifecycle) : LifeEvent → Prop
  | .start y => w.StartsWatched y
  | .stop throws => w.StopsWatched throws
  | .handleConnect e => e = .success → w.session._socket = true
  | .readOn i e rs => cancelled e rs = true → w.session._status = .Connected →
      { w with readers := w.readers.eraseIdx i }.Attended
  | .logic y _ throws =>
    match w.logic with
    | .sessionConnectSucceed :: q => { w with logic := q }.StartsWatched y
    | .sessionReadError _ :: _ => o = .RpcSessionNetHandler → w.StopsWatched throws
    | _ => True
  | _ => True

/-- `Watched`, with the flag that keeps a second read from being posted -/
structure Watch (w : Lifecycle) : Prop where
  reading : w.session._reading = true → 0 < w.reads
  socket : w.session._status = .Connected → w.session._socket = true
  attended : w.session._status = .Connected → w.Attended

theorem Watch.watched {w : Lifecycle} (h : Watch w) : Watched w := by
  intro hok
  have hs : w.session._status = .Connected := of_decide_eq_true hok
  exact ⟨h.socket hs, h.attended hs⟩

theorem isOk_of_connected {s : TcpSession} (h : s._status = .Connected) : s.isOk = true :=
  decide_eq_true h

theorem Watch.congr {w w' : Lifecycle} (h : Watch w)
    (h1 : w'.session._status = w.session._status) (h2 : w'.session._socket = w.session._socket)
    (h3 : w'.session._reading = w.session._reading) (h4 : w'.reads = w.reads)
    (h5 : w'.readers = w.readers)
    (h6 : .sessionConnectSucceed ∈ w.logic → .sessionConnectSucceed ∈ w'.logic) : Watch w' := by
  refine ⟨?_, ?_, fun hs => ?_⟩
  · rw [h3, h4]
    exact h.reading
  · rw [h1, h2]
    exact h.socket
  · rcases h.attended (h1 ▸ hs) with h7 | h7 | h7
    · exact Or.inl (h4 ▸ h7)
    · exact Or.inr (Or.inl (h5 ▸ h7))
    · exact Or.inr (Or.inr (h6 h7))

theorem Watch.down {w : Lifecycle} (hr : w.session._reading = true → 0 < w.reads)
    (hs : w.session._status ≠ .Connected) : Watch w :=
  ⟨hr, fun h => absurd h hs, fun h => absurd h hs⟩

theorem Watch.connects {w w' : Lifecycle} {x : ConnectCalls} (h : Watch w) (hc : Connects w x w') :
    Watch w' := by
  cases hc with
  | busy _ => exact h
  | threw _ _ socket => exact Watch.down h.reading (fun hx => by cases hx)
  | attempt _ => exact Watch.down h.reading (fun hx => by cases hx)
  | succeed _ =>
    exact ⟨h.reading, fun _ => rfl,
      fun _ => Or.inr (Or.inr (List.mem_append_right _ (List.mem_singleton_self _)))⟩
  | fail _ e timers => exact Watch.down h.reading (fun hx => by cases hx)

theorem Watch.reads {w w' : Lifecycle} {s : TcpSession}
    (hr : s._reading = true → 0 < w.reads) (hs : s._status = .Connected → s._socket = true)
    (hc : Reads w s w') : Watch w' := by
  cases hc with
  | none hn =>
    refine ⟨hr, hs, fun hx => Or.inl (hr ?_)⟩
    rcases hn with hn | hn
    · exact absurd (hn.symm.trans (hs hx)) (by decide)
    · exact hn
  | post ho => exact ⟨fun _ => Nat.succ_pos _, fun _ => ho, fun _ => Or.inl (Nat.succ_pos _)⟩

theorem Watch.start {w : Lifecycle} (hr : w.session._reading = true → 0 < w.reads)
    (hs : w.session._status = .Connected → w.session._socket = true) {y : StartCalls}
    (hy : w.StartsWatched y) : Watch (w.apply (w.session.start y)) := by
  cases y with
  | fine =>
    have hc := w.readsNull { w.session with _status := .Connected }
    exact Watch.reads (s := { w.session with _status := .Connected }) hr (fun _ => hy) hc
  | remote_endpoint_throws => exact ⟨hr, hs, hy⟩
  | non_blocking_throws => exact ⟨hr, fun _ => hy.1, fun _ => hy.2⟩

theorem not_watched_start {w : Lifecycle} {y : StartCalls} (hy : ¬ w.StartsWatched y) :
    ¬ Watched (w.apply (w.session.start y)) := by
  intro hx
  cases y with
  | fine =>
    have hc := w.readsNull { w.session with _status := .Connected }
    have e : w.session.start .fine = postReadNull { w.session with _status := .Connected } := rfl
    rw [e] at hx
    generalize w.apply (postReadNull { w.session with _status := .Connected }) = w' at hc hx
    cases hc with
    | none _ => exact hy (hx rfl).1
    | post ho => exact hy ho
  | remote_endpoint_throws => exact hy fun hs => (hx (isOk_of_connected hs)).2
  | non_blocking_throws => exact hy (hx rfl)

theorem Watch.stop {w : Lifecycle} (h : Watch w) {throws : Bool} (ht : w.StopsWatched throws) :
    Watch { w with session := w.session.stop throws } := by
  refine ⟨(fun hx => by cases hx), fun hs => ?_, h.attended⟩
  show (w.session._socket && throws) = true
  rw [h.socket hs, ht hs]
  rfl

theorem not_watched_stop {w : Lifecycle} {throws : Bool} (ht : ¬ w.StopsWatched throws) :
    ¬ Watched { w with session := w.session.stop throws } := by
  intro hx
  refine ht fun hs => ?_
  have h1 : (w.session._socket && throws) = true := (hx (isOk_of_connected hs)).1
  exact (Bool.and_eq_true_iff.mp h1).2

/-- the middle of `handleRead`; `w` is the state without its reader -/
theorem Watch.readsOn {w w' : Lifecycle} {e : ErrorCode} {rs : ReadSome}
    (hr : w.session._reading = true → 0 < w.reads)
    (hs : w.session._status = .Connected → w.session._socket = true)
    (hc : cancelled e rs = true → w.session._status = .Connected → w.Attended)
    (h : ReadsOn w e rs w') : Watch w' := by
  cases h with
  | ends b k ps er => exact Watch.down hr (fun hx => by cases hx)
  | givesUp b k ps er =>
    exact ⟨hr, hs, fun _ => Or.inr (Or.inl (List.append_ne_nil_of_right_ne_nil _ (by decide)))⟩
  | cancelled hx b k => exact ⟨hr, hs, hc hx⟩
  | again b k ps h =>
    refine Watch.reads ?_ ?_ h
    · exact hr
    · exact hs

theorem Watch.write_only {w : Lifecycle} (h : Watch w) {t : TcpSession}
    (ht : t.readSide = w.session.readSide) (writes : Nat) :
    Watch { w with session := t, writes := writes } :=
  h.congr (readSide_field ht _status rfl rfl) (readSide_field ht _socket rfl rfl)
    (readSide_field ht _reading rfl rfl) rfl rfl id

theorem Watch.dequeue {w : Lifecycle} (h : Watch w) {cb : Callback} {q : List Callback}
    (hq : w.logic = cb :: q) (hcb : cb ≠ .sessionConnectSucceed) : Watch { w with logic := q } := by
  refine h.congr rfl rfl rfl rfl rfl fun hm => ?_
  rw [hq] at hm
  exact (List.mem_cons.mp hm).resolve_left fun e => hcb e.symm

theorem Watch.step {o : Owner} {w w' : Lifecycle} {e : LifeEvent} (h : Watch w)
    (hs : step o w e = some w') (hc : Careful o w e) : Watch w' := by
  cases step_moves hs with
  | connect x => exact h.connects (w.connects x)
  | reconnect x => exact h.connects (w.connects x)
  | start y => exact Watch.start h.reading h.socket hc
  | stop throws => exact h.stop hc
  | accept =>
    exact ⟨h.reading, fun _ => rfl,
      fun _ => Or.inr (Or.inr (List.mem_append_right _ (List.mem_singleton_self _)))⟩
  | timer x ht =>
    have hb : Watch { w with timers := w.timers - 1 } := h.congr rfl rfl rfl rfl rfl id
    exact hb.connects (Lifecycle.connects { w with timers := w.timers - 1 } x)
  | handleConnect er ha hx =>
    cases hx with
    | succeed he =>
      exact ⟨h.reading, fun _ => hc he,
        fun _ => Or.inr (Or.inr (List.mem_append_right _ (List.mem_singleton_self _)))⟩
    | fail he timers ht => exact Watch.down h.reading (fun hx => by cases hx)
  | readBegins hr =>
    exact ⟨(fun hx => by cases hx), h.socket,
      fun _ => Or.inr (Or.inl (List.append_ne_nil_of_right_ne_nil _ (by decide)))⟩
  | readOn i er rs hi hr =>
    exact Watch.readsOn (w := { w with readers := w.readers.eraseIdx i }) h.reading h.socket hc hr
  | readEnds i hi => exact Watch.down h.reading (fun hx => by cases hx)
  | handleWrite er ws ht writes => exact h.write_only ht writes
  | writeMessage m ht writes => exact h.write_only ht writes
  | @runStart q hq y x throws =>
    unfold Careful at hc
    rw [hq] at hc
    exact Watch.start (w := { w with logic := q }) h.reading h.socket hc
  | runOther hq h1 _ y x throws => exact h.dequeue hq h1
  | @runReconnect er q hq _ y x throws =>
    have hb : Watch { w with session := w.session.resetReadBuffer, logic := q } :=
      (h.dequeue hq (fun hx => by cases hx)).congr rfl rfl rfl rfl rfl id
    exact hb.connects
      (Lifecycle.connects { w with session := w.session.resetReadBuffer, logic := q } x)
  | runStop hq ho y x throws =>
    unfold Careful at hc
    rw [hq] at hc
    exact (h.dequeue hq (fun hx => by cases hx)).stop (hc ho)

theorem not_watched_readOn {o : Owner} {w w' : Lifecycle} {i : Nat} {e : ErrorCode} {rs : ReadSome}
    (hs : step o w (.readOn i e rs) = some w') (hc : ¬ Careful o w (.readOn i e rs)) :
    ¬ Watched w' := by
  rw [Lifecycle.step] at hs
  split at hs
  · obtain ⟨r, hr, rfl⟩ := Option.map_eq_some_iff.mp hs
    intro hx
    refine hc fun hca hst => ?_
    obtain ⟨k, e1⟩ := readOn_cancelled (s := w.session) hca
    rw [← Option.some.inj (e1.symm.trans hr)] at hx
    exact (hx (isOk_of_connected hst)).2
  · cases hs

theorem not_watched_step {o : Owner} {w w' : Lifecycle} {e : LifeEvent}
    (hs : step o w e = some w') (hc : ¬ Careful o w e) : ¬ Watched w' := by
  cases step_moves hs with
  | connect x => exact absurd trivial hc
  | reconnect x => exact absurd trivial hc
  | start y => exact not_watched_start hc
  | stop throws => exact not_watched_stop hc
  | accept => exact absurd trivial hc
  | timer x ht => exact absurd trivial hc
  | handleConnect er ha hx =>
    cases hx with
    | succeed he => exact fun hw => hc fun _ => (hw rfl).1
    | fail he timers ht => exact absurd (fun h => absurd h he) hc
  | readBegins hr => exact absurd trivial hc
  | readOn i er rs hi hr => exact not_watched_readOn hs hc
  | readEnds i hi => exact absurd trivial hc
  | handleWrite er ws ht writes => exact absurd trivial hc
  | writeMessage m ht writes => exact absurd trivial hc
  | @runStart q hq y x throws =>
    unfold Careful at hc
    rw [hq] at hc
    exact not_watched_start (w := { w with logic := q }) hc
  | @runOther cb q hq h1 h2 y x throws =>
    unfold Careful at hc
    rw [hq] at hc
    cases cb with
    | sessionConnectSucceed => exact absurd rfl h1
    | sessionConnectFailed er => exact absurd trivial hc
    | sessionReceiveMessage m => exact absurd trivial hc
    | sessionReadError er => exact absurd rfl (h2 er)
  | runReconnect hq ho y x throws =>
    unfold Careful at hc
    rw [hq] at hc
    exact absurd (fun hx => by rw [ho] at hx; cases hx) hc
  | @runStop er q hq ho y x throws =>
    unfold Careful at hc
    rw [hq] at hc
    exact not_watched_stop (w := { w with logic := q }) (fun hx => hc fun _ => hx)

end Lifecycle

/-- **Who watches a connected session.**  In a run of any session with either owner, every state in
which `isOk()` holds has an open socket and a read outstanding or running or the start still queued,
exactly when every event of the run is careful: a start that throws finds the session watched
otherwise, a start and a connect that succeed find the socket open, a `stop` does not close the socket of
a connected session, and no cancelled read was the last. -/
theorem watched_iff_careful (o : Owner) (s : TcpSession) (hs : s._status = .Disconnected)
    (hr : s._reading = false) (es : List LifeEvent) (w : Lifecycle)
    (h : exec (Lifecycle.step o) (Lifecycle.new s) es = some w) :
    Along (Lifecycle.step o) Lifecycle.Watched (Lifecycle.new s) es
      ↔ Guarded (Lifecycle.step o) (Lifecycle.Careful o) (Lifecycle.new s) es := by
  refine along_iff_guarded (Lifecycle.step o) (fun _ => Lifecycle.Watch.watched)
    (fun _ _ _ hi => hi.step) (fun _ _ _ _ => Lifecycle.not_watched_step) es _ w ?_ h
  refine Lifecycle.Watch.down (fun hx => ?_) (fun hx => ?_)
  · exact absurd (hr.symm.trans hx) (by decide)
  · exact absurd (hs.symm.trans hx) (by decide)

/-- a client connects, starts and reads -/
theorem watched_iff_careful_started :
    ∃ w, exec (Lifecycle.step .RpcClient) (Lifecycle.new (TcpSession.new none [] 0 5))
        [.connect ⟨false, .success⟩, .handleConnect .success,
          .logic .fine ⟨false, .success⟩ false] = some w ∧
      w.session.isOk = true ∧ w.reads = 1 ∧
      Along (Lifecycle.step .RpcClient) Lifecycle.Watched
        (Lifecycle.new (TcpSession.new none [] 0 5))
        [.connect ⟨false, .success⟩, .handleConnect .success,
          .logic .fine ⟨false, .success⟩ false] := by
  refine ⟨_, rfl, rfl, rfl, (watched_iff_careful .RpcClient _ rfl rfl _ _ rfl).mpr ?_⟩
  refine ⟨trivial, fun w1 h1 => ?_⟩
  cases h1
  refine ⟨fun _ => rfl, fun w2 h2 => ?_⟩
  cases h2
  exact ⟨rfl, fun _ _ => trivial⟩

/-- `non_blocking` throws in the start of a connection, which is up and unread from then on -/
theorem throwing_start_unwatched :
    ¬ ∀ (o : Owner) (s : TcpSession), s._status = .Disconnected → s._reading = false →
      ∀ (es : List LifeEvent) (w : Lifecycle),
        exec (Lifecycle.step o) (Lifecycle.new s) es = some w → w.Watched := by
  intro h
  have hw := h .RpcClient (TcpSession.new none [] 0 5) rfl rfl
    [.connect ⟨false, .success⟩, .handleConnect .success,
      .logic .non_blocking_throws ⟨false, .success⟩ false] _ rfl
  rcases (hw rfl).2 with h1 | h1 | h1
  · exact absurd h1 (Nat.lt_irrefl 0)
  · exact h1 rfl
  · cases h1

/-! ## the references to a client's session -/

namespace Lifecycle

/-- the client's weak pointer finds the session as long as somebody holds a reference -/
def lock (w : Lifecycle) : Option TcpSession := if 0 < w.refs then some w.session else none

/-- the constructor of `RpcClient`, when resolving the address does not throw -/
def client (mem : Option (List UInt8)) (readMem : List UInt8) (buffSize reconnect : Nat) : Lifecycle :=
  let s := TcpSession.new mem readMem buffSize reconnect
  (new s).apply (s.connect ⟨false, .success⟩)

/-- the event leaves something for the session to wait for -/
def Lasting (w : Lifecycle) : LifeEvent → Prop
  | .timer x => x.throws = false
  | .handleConnect e => e = .success ∨ w.session._reconnectInterval ≠ 0
  | .readOn _ e rs => cancelled e rs = false
  | .logic y x _ =>
    match w.logic with
    | .sessionConnectSucceed :: _ => y = .fine
    | .sessionReadError _ :: _ => x.throws = false ∧ ReadHandler.late ∉ w.readers
    | _ => True
  | _ => True

def ErrorQueued (w : Lifecycle) : Prop := ∃ e, .sessionReadError e ∈ w.logic

/-- there is something to wait for while the session connects or is connected -/
structure Held (w : Lifecycle) : Prop where
  async : w.session._asyncConnect = true
  socket : w.session._socket = true
  reading : w.session._reading = true → 0 < w.reads
  connecting : w.session._status = .Connecting → 0 < w.attempts
  connected : w.session._status = .Connected → w.Attended
  late : .late ∈ w.readers → w.ErrorQueued

structure Kept (w : Lifecycle) : Prop extends Held w where
  disconnected : w.session._status = .Disconnected → 0 < w.timers ∨ w.ErrorQueued

theorem Attended.refs {w : Lifecycle} (h : w.Attended) : 0 < w.refs := by
  unfold Lifecycle.refs
  rcases h with h | h | h
  · omega
  · have := List.length_pos_iff.mpr h
    omega
  · have := List.length_pos_of_mem h
    omega

theorem ErrorQueued.refs {w : Lifecycle} (h : w.ErrorQueued) : 0 < w.refs := by
  obtain ⟨e, h⟩ := h
  have := List.length_pos_of_mem h
  unfold Lifecycle.refs
  omega

theorem Kept.refs {w : Lifecycle} (h : Kept w) : 0 < w.refs := by
  cases hs : w.session._status with
  | Connecting =>
    have := h.connecting hs
    unfold Lifecycle.refs
    omega
  | Connected => exact (h.connected hs).refs
  | Disconnected =>
    rcases h.disconnected hs with h1 | h1
    · unfold Lifecycle.refs
      omega
    · exact h1.refs

theorem Held.connects {w : Lifecycle} (h : Held w) {x : ConnectCalls} (hx : x.throws = false) :
    Kept (w.apply (w.session.onConnect x)) := by
  by_cases hd : w.session._status = .Disconnected
  · rw [w.connects_async h.async hd hx]
    exact ⟨⟨h.async, rfl, h.reading, fun _ => Nat.succ_pos _, (fun hs => by cases hs), h.late⟩,
      (fun hs => by cases hs)⟩
  · have e : w.session.onConnect x = (w.session, []) := if_pos hd
    rw [e]
    exact ⟨h, fun hs => absurd hs hd⟩

theorem Kept.reads {w w' : Lifecycle} {s : TcpSession} (ha : s._asyncConnect = true)
    (ho : s._socket = true) (hr : s._reading = true → 0 < w.reads)
    (hc : s._status = .Connecting → 0 < w.attempts)
    (hd : s._status = .Disconnected → 0 < w.timers ∨ w.ErrorQueued)
    (hl : .late ∈ w.readers → w.ErrorQueued) (h : Reads w s w') : Kept w' := by
  cases h with
  | none hn =>
    refine ⟨⟨ha, ho, hr, hc, fun _ => Or.inl (hr ?_), hl⟩, hd⟩
    rcases hn with hn | hn
    · exact absurd (hn.symm.trans ho) (by decide)
    · exact hn
  | post _ =>
    exact ⟨⟨ha, ho, fun _ => Nat.succ_pos _, hc, fun _ => Or.inl (Nat.succ_pos _), hl⟩, hd⟩

theorem ErrorQueued.append {w w' : Lifecycle} {cbs : List Callback} (h : w.ErrorQueued)
    (hl : w'.logic = w.logic ++ cbs) : w'.ErrorQueued := by
  obtain ⟨e, h⟩ := h
  exact ⟨e, hl ▸ List.mem_append_left _ h⟩

theorem Attended.dequeue {w : Lifecycle} {cb : Callback} {q : List Callback}
    (hq : w.logic = cb :: q) (hcb : cb ≠ .sessionConnectSucceed) (h : w.Attended) (s : TcpSession) :
    { w with session := s, logic := q }.Attended := by
  rcases h with h | h | h
  · exact Or.inl h
  · exact Or.inr (Or.inl h)
  · rw [hq] at h
    exact Or.inr (Or.inr ((List.mem_cons.mp h).resolve_left fun e => hcb e.symm))

theorem ErrorQueued.dequeue {w : Lifecycle} {cb : Callback} {q : List Callback}
    (hq : w.logic = cb :: q) (hcb : ∀ e, cb ≠ .sessionReadError e) (h : w.ErrorQueued) :
    { w with logic := q }.ErrorQueued := by
  obtain ⟨e, h⟩ := h
  rw [hq] at h
  exact ⟨e, (List.mem_cons.mp h).resolve_left fun he => hcb e he.symm⟩

theorem Kept.readsOn {w w' : Lifecycle} {i : Nat} {e : ErrorCode} {rs : ReadSome} (h : Kept w)
    (hc : cancelled e rs = false)
    (hr : ReadsOn { w with readers := w.readers.eraseIdx i } e rs w') : Kept w' := by
  have old : .late ∈ w.readers.eraseIdx i → w.ErrorQueued := fun hm =>
    h.late (List.mem_of_mem_eraseIdx hm)
  have posted : ∀ (l : List Callback) (ps : List (List UInt8)) (er : ErrorCode),
      .sessionReadError er ∈ l ++ (messages ps ++ [.sessionReadError er]) := fun l ps er =>
    List.mem_append_right _ (List.mem_append_right _ (List.mem_singleton_self _))
  cases hr with
  | ends b k ps er =>
    exact ⟨⟨h.async, h.socket, h.reading, (fun hs => by cases hs), (fun hs => by cases hs),
      fun _ => ⟨er, posted _ ps er⟩⟩, fun _ => Or.inr ⟨er, posted _ ps er⟩⟩
  | givesUp b k ps er =>
    exact ⟨⟨h.async, h.socket, h.reading, h.connecting,
      fun _ => Or.inr (Or.inl (List.append_ne_nil_of_right_ne_nil _ (by decide))),
      fun _ => ⟨er, posted _ ps er⟩⟩, fun _ => Or.inr ⟨er, posted _ ps er⟩⟩
  | cancelled hx b k => exact absurd (hc.symm.trans hx) (by decide)
  | again b k ps hr =>
    refine Kept.reads ?_ ?_ ?_ ?_ ?_ ?_ hr
    · exact h.async
    · exact h.socket
    · exact h.reading
    · exact h.connecting
    · intro hd
      exact (h.disconnected hd).imp id fun hq => hq.append rfl
    · exact fun hm => (old hm).append rfl

theorem Kept.write_only {w : Lifecycle} (h : Kept w) {t : TcpSession}
    (ht : t.readSide = w.session.readSide) (writes : Nat) :
    Kept { w with session := t, writes := writes } := by
  have h1 : t._status = w.session._status := readSide_field ht _status rfl rfl
  have h2 : t._socket = w.session._socket := readSide_field ht _socket rfl rfl
  have h3 : t._reading = w.session._reading := readSide_field ht _reading rfl rfl
  have h4 : t._asyncConnect = w.session._asyncConnect := readSide_field ht _asyncConnect rfl rfl
  refine ⟨⟨h4.trans h.async, h2.trans h.socket, ?_, ?_, ?_, h.late⟩, ?_⟩
  · exact fun hx => h.reading (h3.symm.trans hx)
  · exact fun hx => h.connecting (h1.symm.trans hx)
  · exact fun hx => h.connected (h1.symm.trans hx)
  · exact fun hx => h.disconnected (h1.symm.trans hx)

theorem Kept.step {w w' : Lifecycle} {e : LifeEvent} (h : Kept w) (hn : e.isCall = false)
    (hl : Lasting w e) (hs : step .RpcClient w e = some w') : Kept w' := by
  cases step_moves hs with
  | connect x => cases hn
  | reconnect x => cases hn
  | start y => cases hn
  | stop throws => cases hn
  | accept => cases hn
  | timer x ht =>
    have hb : Held { w with timers := w.timers - 1 } :=
      ⟨h.async, h.socket, h.reading, h.connecting, h.connected, h.late⟩
    exact hb.connects hl
  | handleConnect er ha hx =>
    cases hx with
    | succeed he =>
      exact ⟨⟨h.async, h.socket, h.reading, (fun hs => by cases hs),
        fun _ => Or.inr (Or.inr (List.mem_append_right _ (List.mem_singleton_self _))),
        fun hm => (h.late hm).append rfl⟩, (fun hs => by cases hs)⟩
    | fail he timers ht =>
      exact ⟨⟨h.async, h.socket, h.reading, (fun hs => by cases hs), (fun hs => by cases hs),
        fun hm => (h.late hm).append rfl⟩, fun _ => Or.inl (ht (hl.resolve_left he))⟩
  | readBegins hr =>
    refine ⟨⟨h.async, h.socket, (fun hx => by cases hx), h.connecting,
      fun _ => Or.inr (Or.inl (List.append_ne_nil_of_right_ne_nil _ (by decide))), fun hm => ?_⟩,
      h.disconnected⟩
    rcases List.mem_append.mp hm with hm | hm
    · exact h.late hm
    · cases List.mem_singleton.mp hm
  | readOn i er rs hi hr => exact h.readsOn hl hr
  | readEnds i hi =>
    have hq : w.ErrorQueued := h.late (List.mem_of_getElem? hi)
    exact ⟨⟨h.async, h.socket, h.reading, (fun hs => by cases hs), (fun hs => by cases hs),
      fun _ => hq⟩, fun _ => Or.inr hq⟩
  | handleWrite er ws ht writes => exact h.write_only ht writes
  | writeMessage m ht writes => exact h.write_only ht writes
  | @runStart q hq y x throws =>
    unfold Lasting at hl
    rw [hq] at hl
    rw [show y = .fine from hl]
    refine Kept.reads ?_ ?_ ?_ ?_ ?_ ?_
      (readsNull { w with logic := q } { w.session with _status := .Connected })
    · exact h.async
    · exact h.socket
    · exact h.reading
    · exact fun hs => by cases hs
    · exact fun hs => by cases hs
    · exact fun hm => (h.late hm).dequeue hq (fun _ hx => by cases hx)
  | runOther hq h1 h2 y x throws =>
    exact ⟨⟨h.async, h.socket, h.reading, h.connecting,
      fun hs => (h.connected hs).dequeue hq h1 w.session,
      fun hm => (h.late hm).dequeue hq h2⟩,
      fun hs => (h.disconnected hs).imp id fun hx => hx.dequeue hq h2⟩
  | @runReconnect er q hq ho y x throws =>
    unfold Lasting at hl
    rw [hq] at hl
    have hb : Held { w with session := w.session.resetReadBuffer, logic := q } :=
      ⟨h.async, h.socket, h.reading, h.connecting,
        fun hs => (h.connected hs).dequeue hq (fun hx => by cases hx) _,
        fun hm => absurd hm hl.2⟩
    exact hb.connects hl.1
  | runStop hq ho y x throws => cases ho

theorem client_kept (mem : Option (List UInt8)) (readMem : List UInt8) (buffSize reconnect : Nat) :
    Kept (client mem readMem buffSize reconnect) :=
  ⟨⟨rfl, rfl, (fun h => by cases h), fun _ => Nat.succ_pos 0, (fun h => by cases h),
    (fun h => by cases h)⟩, (fun h => by cases h)⟩

end Lifecycle

/-- **The client keeps its session.**  For an `RpcClient` with any buffer size and reconnect interval:
in every run in which a connection attempt fails only if there is a reconnect interval, no start and no
address throws, no read is cancelled and no read error is handled before `_status` is written, the
client's weak pointer yields the session in every state. -/
theorem session_kept (mem : Option (List UInt8)) (readMem : List UInt8) (buffSize reconnect : Nat)
    (es : List LifeEvent) (hes : ∀ e ∈ es, e.isCall = false) (w : Lifecycle)
    (hG : Guarded (Lifecycle.step .RpcClient) Lifecycle.Lasting
      (Lifecycle.client mem readMem buffSize reconnect) es)
    (h : exec (Lifecycle.step .RpcClient) (Lifecycle.client mem readMem buffSize reconnect) es
      = some w) : w.lock = some w.session := by
  have hk : w.Kept := by
    refine exec_guarded (Lifecycle.step .RpcClient)
      (C := fun w e => e.isCall = false ∧ Lifecycle.Lasting w e)
      (fun _ _ _ hi hc hs => hi.step hc.1 hc.2 hs) es _ w
      (Lifecycle.client_kept mem readMem buffSize reconnect) ?_ h
    exact guarded_and _ (guarded_of_mem _ es (fun e he _ => hes e he) _) hG
  exact if_pos hk.refs

/-- a refused attempt, its timer, a connection and its start -/
theorem session_kept_retried :
    ∃ w, exec (Lifecycle.step .RpcClient) (Lifecycle.client none [] 0 5)
        [.handleConnect (.other 111), .timer ⟨false, .success⟩, .handleConnect .success,
          .logic .fine ⟨false, .success⟩ false, .logic .fine ⟨false, .success⟩ false] = some w ∧
      w.reads = 1 ∧ w.lock = some w.session := by
  refine ⟨_, rfl, rfl, session_kept none [] 0 5 [.handleConnect (.other 111),
    .timer ⟨false, .success⟩, .handleConnect .success, .logic .fine ⟨false, .success⟩ false,
    .logic .fine ⟨false, .success⟩ false] (by decide) _ ?_ rfl⟩
  refine ⟨Or.inr (by decide), fun w1 h1 => ?_⟩
  cases h1
  refine ⟨rfl, fun w2 h2 => ?_⟩
  cases h2
  refine ⟨Or.inl rfl, fun w3 h3 => ?_⟩
  cases h3
  refine ⟨trivial, fun w4 h4 => ?_⟩
  cases h4
  exact ⟨rfl, fun _ _ => trivial⟩

/-- without a reconnect interval a refused attempt is the end of the session -/
theorem refused_client_loses_session :
    ¬ ∀ (mem : Option (List UInt8)) (readMem : List UInt8) (buffSize reconnect : Nat)
      (es : List LifeEvent), (∀ e ∈ es, e.isCall = false) → ∀ w : Lifecycle,
      exec (Lifecycle.step .RpcClient) (Lifecycle.client mem readMem buffSize reconnect) es = some w →
      w.lock = some w.session := by
  intro h
  have hl := h none [] 0 0 [.handleConnect (.other 111), .logic .fine ⟨false, .success⟩ false]
    (by decide) _ rfl
  cases hl

end JMEngine.Net
