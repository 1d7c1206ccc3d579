import JMEngine.Net.Lifecycle

/-!
# What is left of a session after `stop`

`stop` clears the reconnect interval and two flags and closes the socket, unless `shutdown` throws.
Timers, completions and queued callbacks stay, each with its reference to the session, and run into the
same functions as before.

* `Lifecycle.Final`          what `stop` promises its caller;
* `Lifecycle.Settled`        nothing is left that could break the promise;
* `Lifecycle.Stoppable`      what `stop` has to find for that;
* `stop_final_iff_settled`   the promise is kept in every continuation exactly if it is found.
-/

set_option linter.unusedSectionVars false

namespace JMEngine.Net
open Bytes Framing Runs TcpSession

/-- the callbacks that tell the handler about its connection -/
def Callback.isNews : Callback → Bool
  | .sessionReceiveMessage _ => false
  | _ => true

def Callback.isReadError : Callback → Bool
  | .sessionReadError _ => true
  | _ => false

namespace Lifecycle

/-- the state in which `stop` leaves -/
def stop (w : Lifecycle) (throws : Bool) : Lifecycle := { w with session := w.session.stop throws }

/-- since `w` the socket has been closed, no attempt was begun and no news was posted -/
structure Final (w w' : Lifecycle) : Prop where
  closed : w'.session._socket = false
  attempts : w'.opened = w.opened
  posts : w'.posted.filter Callback.isNews = w.posted.filter Callback.isNews

/-- no operation is under way but timers that find the session connected or connecting, and no callback
is queued that would reconnect it -/
structure Settled (w : Lifecycle) : Prop where
  closed : w.session._socket = false
  attempts : w.attempts = 0
  reads : w.reads = 0
  readers : ReadHandler.begun ∉ w.readers
  quiet : w.session._status = .Disconnected ∨ w.readers ≠ [] →
    w.timers = 0 ∧ ∀ cb ∈ w.logic, cb.isReadError = false

/-- what a caller of `stop` can know beforehand: the socket is closed or `shutdown` will not throw, no
attempt and no read is under way, no `handleRead` is at its read, and if the session is disconnected or a
`handleRead` has still to make it so, no timer is armed and no read error is queued -/
structure Stoppable (w : Lifecycle) (throws : Bool) : Prop where
  closes : w.session._socket = true → throws = false
  attempts : w.attempts = 0
  reads : w.reads = 0
  readers : ReadHandler.begun ∉ w.readers
  quiet : w.session._status = .Disconnected ∨ w.readers ≠ [] →
    w.timers = 0 ∧ ∀ cb ∈ w.logic, cb.isReadError = false

/-- `stop` closes the socket if `shutdown` returns, and leaves all that is under way -/
theorem settled_stop_iff (w : Lifecycle) (throws : Bool) :
    (w.stop throws).Settled ↔ w.Stoppable throws := by
  have hclosed : (w.stop throws).session._socket = false ↔
      (w.session._socket = true → throws = false) := by
    show (w.session._socket && throws) = false ↔ _
    cases w.session._socket <;> cases throws <;> decide
  constructor
  · intro h
    exact ⟨hclosed.mp h.closed, h.attempts, h.reads, h.readers, h.quiet⟩
  · intro h
    exact ⟨hclosed.mpr h.closes, h.attempts, h.reads, h.readers, h.quiet⟩

/-- the promise is kept in every continuation without further calls -/
def Finally (w : Lifecycle) : Prop :=
  ∀ es w', (∀ e ∈ es, LifeEvent.isCall e = false) → exec (step .RpcClient) w es = some w' → Final w w'

/-! ## a settled session stays settled -/

theorem Settled.write_only {w : Lifecycle} (h : Settled w) {t : TcpSession}
    (ht : t.readSide = w.session.readSide) (writes : Nat) :
    Settled { w with session := t, writes := writes } := by
  have h1 : t._socket = w.session._socket := readSide_field ht _socket rfl rfl
  have h2 : t._status = w.session._status := readSide_field ht _status rfl rfl
  refine ⟨h1.trans h.closed, h.attempts, h.reads, h.readers, ?_⟩
  show t._status = .Disconnected ∨ w.readers ≠ [] → _
  rw [h2]
  exact h.quiet

theorem Settled.dequeue {w : Lifecycle} (h : Settled w) {cb : Callback} {q : List Callback}
    (hq : w.logic = cb :: q) {t : TcpSession} (hs : t._socket = false)
    (ht : t._status = .Disconnected → w.session._status = .Disconnected) :
    Settled { w with session := t, logic := q } := by
  refine ⟨hs, h.attempts, h.reads, h.readers, fun hx => ?_⟩
  have h1 : w.session._status = .Disconnected ∨ w.readers ≠ [] := by
    rcases hx with hx | hx
    · exact Or.inl (ht hx)
    · exact Or.inr hx
  obtain ⟨h2, h3⟩ := h.quiet h1
  exact ⟨h2, fun a ha => h3 a (by rw [hq]; exact List.mem_cons_of_mem _ ha)⟩

theorem start_closed {s : TcpSession} (h : s._socket = false) (y : StartCalls) :
    ∃ t, s.start y = (t, []) ∧ t._socket = false ∧
      (t._status = .Disconnected → s._status = .Disconnected) := by
  cases y with
  | remote_endpoint_throws => exact ⟨s, rfl, h, id⟩
  | non_blocking_throws => exact ⟨_, rfl, h, fun hx => by cases hx⟩
  | fine =>
    refine ⟨{ s with _status := .Connected }, ?_, h, fun hx => by cases hx⟩
    show postReadNull { s with _status := .Connected } = _
    unfold postReadNull
    rw [if_pos]
    show (!s._socket || s._reading) = true
    rw [h]
    rfl

/-- what a step of a settled session leaves as it was -/
def Untouched (w w' : Lifecycle) : Prop := w'.opened = w.opened ∧ w'.posted = w.posted

theorem Settled.step {w w' : Lifecycle} {e : LifeEvent} (h : Settled w) (hc : e.isCall = false)
    (hs : step .RpcClient w e = some w') : Settled w' ∧ Untouched w w' := by
  cases step_moves hs with
  | connect x => cases hc
  | reconnect x => cases hc
  | start y => cases hc
  | stop throws => cases hc
  | accept => cases hc
  | timer x ht =>
    -- with a timer armed the session is not disconnected
    have hd : w.session._status ≠ .Disconnected := fun hd =>
      absurd (h.quiet (Or.inl hd)).1 (Nat.ne_of_gt ht)
    have e1 : w.session.onConnect x = (w.session, []) := if_pos hd
    rw [e1]
    refine ⟨⟨h.closed, h.attempts, h.reads, h.readers, fun hx => ?_⟩, rfl, rfl⟩
    obtain ⟨h1, h2⟩ := h.quiet hx
    exact absurd h1 (Nat.ne_of_gt ht)
  | handleConnect er ha _ => exact absurd h.attempts (Nat.ne_of_gt ha)
  | readBegins hr => exact absurd h.reads (Nat.ne_of_gt hr)
  | readOn i er rs hi _ => exact absurd (List.mem_of_getElem? hi) h.readers
  | readEnds i hi =>
    have hne : w.readers ≠ [] := List.ne_nil_of_mem (List.mem_of_getElem? hi)
    exact ⟨⟨h.closed, h.attempts, h.reads, fun hx => h.readers (List.mem_of_mem_eraseIdx hx),
      fun _ => h.quiet (Or.inr hne)⟩, rfl, rfl⟩
  | handleWrite er ws ht writes => exact ⟨h.write_only ht writes, rfl, rfl⟩
  | writeMessage m ht writes => exact ⟨h.write_only ht writes, rfl, rfl⟩
  | runStart hq y x throws =>
    obtain ⟨t, e1, h1, h2⟩ := start_closed h.closed y
    rw [e1]
    exact ⟨h.dequeue hq h1 h2, rfl, rfl⟩
  | runOther hq _ _ y x throws => exact ⟨h.dequeue hq h.closed id, rfl, rfl⟩
  | @runReconnect er q hq _ y x throws =>
    -- with a read error queued the session is not disconnected
    have hd : w.session._status ≠ .Disconnected := fun hd => by
      have h1 := (h.quiet (Or.inl hd)).2 (.sessionReadError er) (by
        rw [hq]
        exact List.mem_cons_self)
      cases h1
    have e1 : w.session.resetReadBuffer.onConnect x = (w.session.resetReadBuffer, []) :=
      if_pos hd
    rw [e1]
    exact ⟨h.dequeue hq h.closed id, rfl, rfl⟩
  | runStop hq ho y x throws => cases ho

theorem Settled.final {w : Lifecycle} (h : Settled w) : Finally w := by
  intro es w' hes hr
  have hi : Settled w' ∧ Untouched w w' := exec_guarded (Lifecycle.step .RpcClient)
    (C := fun _ e => e.isCall = false) (I := fun v => Settled v ∧ Untouched w v)
    (fun a e b ha hc hs => by
      obtain ⟨h1, h2⟩ := ha.1.step hc hs
      exact ⟨h1, h2.1.trans ha.2.1, h2.2.trans ha.2.2⟩)
    es w w' ⟨h, rfl, rfl⟩ (guarded_of_mem _ es (fun e he _ => hes e he) w) hr
  exact ⟨hi.1.closed, hi.2.1, by rw [hi.2.2]⟩

/-! ## what an unsettled session can still do -/

theorem filter_isNews_append (l : List Callback) {cb : Callback} (h : cb.isNews = true) :
    (l ++ [cb]).filter Callback.isNews ≠ l.filter Callback.isNews := by
  intro e
  have hl := congrArg List.length e
  rw [List.filter_append, List.length_append, List.filter_cons_of_pos h] at hl
  simp only [List.filter_nil, List.length_singleton] at hl
  omega

section
variable {w : Lifecycle} (h : Finally w)
include h

theorem Finally.one {w' : Lifecycle} {e : LifeEvent} (hc : e.isCall = false)
    (hs : step .RpcClient w e = some w') : Final w w' :=
  h [e] w' (fun a ha => by rw [List.mem_singleton.mp ha]; exact hc)
    (by rw [exec_cons _ [] hs, exec_nil])

theorem Finally.next {w' : Lifecycle} {e : LifeEvent} (hc : e.isCall = false)
    (hs : step .RpcClient w e = some w') : Finally w' := by
  intro es w'' hes hr
  have h1 := h.one hc hs
  have h2 := h (e :: es) w'' (List.forall_mem_cons.mpr ⟨hc, hes⟩) (by rw [exec_cons _ es hs, hr])
  exact ⟨h2.closed, h2.attempts.trans h1.attempts.symm, h2.posts.trans h1.posts.symm⟩

theorem Finally.attempts : w.attempts = 0 := by
  by_contra hne
  have hs : step .RpcClient w (.handleConnect .success)
      = some ({ w with attempts := w.attempts - 1 }.apply (w.session.handleConnect .success)) :=
    if_pos (Nat.pos_of_ne_zero hne)
  exact filter_isNews_append w.posted rfl (h.one rfl hs).posts

theorem Finally.readers : ReadHandler.begun ∉ w.readers := by
  intro hm
  obtain ⟨i, hi⟩ := List.getElem?_of_mem hm
  have hs : ∃ w', step .RpcClient w (.readOn i (.other 1) (.failed .success)) = some w' ∧
      w'.posted = w.posted ++ [.sessionReadError (.other 1)] := ⟨_, if_pos hi, rfl⟩
  obtain ⟨w', hs, hp⟩ := hs
  have hn := (h.one rfl hs).posts
  rw [hp] at hn
  exact filter_isNews_append w.posted rfl hn

theorem Finally.reads : w.reads = 0 := by
  by_contra hne
  have hs : step .RpcClient w .readBegins = some { w with
      session := { w.session with _reading := false }
      reads := w.reads - 1
      readers := w.readers ++ [.begun] } := if_pos (Nat.pos_of_ne_zero hne)
  exact (h.next rfl hs).readers (List.mem_append_right _ (List.mem_singleton_self _))

theorem Finally.timers (hd : w.session._status = .Disconnected) : w.timers = 0 := by
  by_contra hne
  have hs : step .RpcClient w (.timer ⟨false, .success⟩)
      = some ({ w with timers := w.timers - 1 }.apply (w.session.onReconnect ⟨false, .success⟩)) :=
    if_pos (Nat.pos_of_ne_zero hne)
  have ho := opened_onConnect { w with timers := w.timers - 1 } (x := ⟨false, .success⟩) hd rfl
  have ha := (h.one rfl hs).attempts
  exact absurd (ho.symm.trans ha) (Nat.succ_ne_self _)

end

/-- the callbacks in front of a read error leave a disconnected session as it is -/
theorem Finally.no_readError (l : List Callback) : ∀ {w : Lifecycle}, Finally w →
    w.session._status = .Disconnected → w.logic = l → ∀ cb ∈ l, cb.isReadError = false := by
  induction l with
  | nil => exact fun _ _ _ _ h => by cases h
  | cons cb q ih =>
    intro w h hd hq
    have hs : step .RpcClient w (.logic .remote_endpoint_throws ⟨false, .success⟩ false)
        = some ({ w with logic := q }.callback .RpcClient .remote_endpoint_throws
          ⟨false, .success⟩ false cb) := by
      rw [step, hq]
    have hh : cb.isReadError = false := by
      cases cb with
      | sessionConnectSucceed => rfl
      | sessionConnectFailed e => rfl
      | sessionReceiveMessage m => rfl
      | sessionReadError e =>
        have ho := opened_onConnect
          { w with session := w.session.resetReadBuffer, logic := q } (x := ⟨false, .success⟩) hd rfl
        exact absurd (ho.symm.trans (h.one rfl hs).attempts) (Nat.succ_ne_self _)
    refine List.forall_mem_cons.mpr ⟨hh, ?_⟩
    have e1 : ({ w with logic := q } : Lifecycle).callback .RpcClient .remote_endpoint_throws
        ⟨false, .success⟩ false cb = { w with logic := q } := by
      cases cb with
      | sessionConnectSucceed => rfl
      | sessionConnectFailed e => rfl
      | sessionReceiveMessage m => rfl
      | sessionReadError e => cases hh
    rw [e1] at hs
    exact ih (h.next rfl hs) hd rfl

theorem Finally.settled {w : Lifecycle} (h : Finally w) : Settled w := by
  have hr := h.readers
  refine ⟨(h [] w (fun _ he => by cases he) rfl).closed, h.attempts, h.reads, hr, fun hx => ?_⟩
  by_cases hd : w.session._status = .Disconnected
  · exact ⟨h.timers hd, Finally.no_readError w.logic h hd rfl⟩
  · have hne := hx.resolve_left hd
    obtain ⟨r, rs, hrs⟩ := List.exists_cons_of_ne_nil hne
    have hl : r = .late := by
      cases r with
      | begun => exact absurd (by rw [hrs]; exact List.mem_cons_self) hr
      | late => rfl
    have h0 : w.readers[0]? = some .late := by rw [hrs, hl]; rfl
    have hn := h.next (e := .readEnds 0) rfl (if_pos h0)
    exact ⟨hn.timers rfl, Finally.no_readError _ hn rfl rfl⟩

end Lifecycle

/-- **When `stop` is final.**  After `stop` on any session of an `RpcClient`, the socket is closed for
good, no attempt is begun and no news is posted in any order of what is pending, exactly when `stop` found
the socket closed or `shutdown` did not throw, no attempt and no read was under way, and no timer or queued
read error finds the session disconnected. -/
theorem stop_final_iff_settled (w : Lifecycle) (throws : Bool) :
    (w.stop throws).Finally ↔ w.Stoppable throws := by
  rw [← Lifecycle.settled_stop_iff]
  exact ⟨fun h => h.settled, fun h => h.final⟩

/-- a client whose connection was refused is stopped, and the timer of the refused attempt connects it
again -/
theorem stopped_client_reconnects :
    ¬ ∀ (mem : List UInt8) (reconnect : Nat) (es : List LifeEvent) (w : Lifecycle),
      exec (Lifecycle.step .RpcClient)
        (Lifecycle.new (TcpSession.new (some mem) mem mem.length reconnect)) es = some w →
      ∀ throws, (w.stop throws).Finally := by
  intro h
  have hf := h [] 5 [.connect ⟨false, .success⟩, .handleConnect (.other 111)] _ rfl false
    [.timer ⟨false, .success⟩] _ (by decide) rfl
  exact absurd hf.attempts (by decide)

end JMEngine.Net
