import JMEngine.Net.Client

/-!
# The connection state machine of a client

* `Client.Inv`                 at most one attempt and one read, a start only for a live connection,
                               and one `sessionReadError` for every connection that was left;
* `Move.inv`                   every move keeps it, whatever the outside calls do;
* `Client.endings`             the connections that end in a run, by the reads that complete;
* `Client.step_reports`        a `sessionReadError` is posted for these and at no other time;
* `connection_invariants`      the invariants over all runs in which no address throws.
-/

set_option linter.unusedSectionVars false

namespace JMEngine.Net
open Bytes Framing Runs TcpSession

namespace Client

/-- the connections whose `sessionReadError` was posted -/
def readErrors (l : List (Nat × Callback)) : List Nat :=
  l.filterMap fun
    | (k, .sessionReadError _) => some k
    | _ => none

def starts (l : List (Nat × Callback)) : List Nat :=
  l.filterMap fun
    | (k, .sessionConnectSucceed) => some k
    | _ => none

/-- how many of the established connections the session has left -/
def gone (c : Client) : Nat := if c.session.isOk then c.streams.length - 1 else c.streams.length

theorem readErrors_append (a b : List (Nat × Callback)) :
    readErrors (a ++ b) = readErrors a ++ readErrors b := List.filterMap_append

theorem starts_append (a b : List (Nat × Callback)) :
    starts (a ++ b) = starts a ++ starts b := List.filterMap_append

theorem readErrors_messagePosts (k : Nat) (ps : List (List UInt8)) :
    readErrors (messagePosts k ps) = [] := by
  unfold readErrors messagePosts
  rw [List.filterMap_map]
  exact List.filterMap_eq_nil_iff.mpr fun _ _ => rfl

theorem starts_messagePosts (k : Nat) (ps : List (List UInt8)) :
    starts (messagePosts k ps) = [] := by
  unfold starts messagePosts
  rw [List.filterMap_map]
  exact List.filterMap_eq_nil_iff.mpr fun _ _ => rfl

theorem posted_dequeue {c : Client} {q : List (Nat × Callback)} {a : Nat × Callback}
    (h : c.logic = a :: q) : (c.dequeue q a).posted = c.posted := by
  show (c.handled ++ [a]) ++ q = c.handled ++ c.logic
  rw [h, List.append_assoc]
  rfl

theorem gone_of_ok {c : Client} (h : c.session._status = .Connected) :
    c.gone = c.streams.length - 1 := if_pos (decide_eq_true h)

theorem gone_of_not_ok {c : Client} (h : c.session._status ≠ .Connected) :
    c.gone = c.streams.length := by
  unfold gone
  rw [show c.session.isOk = false from decide_eq_false h]
  rfl

structure Inv (c : Client) : Prop where
  write : c.session.WriteOk
  socket : c.session._status = .Connected ∨ 0 < c.attempts → c.session._socket = true
  attempts : c.attempts ≤ if c.session._status = .Connecting then 1 else 0
  reads : c.reads = c.session._reading.toNat
  reading : c.session._reading = true → c.session._status = .Connected ∧ starts c.logic = []
  starts : starts c.logic = [] ∨ (c.session._status = .Connected ∧ c.session._reading = false ∧
    ∃ l, starts l = [] ∧ c.logic = l ++ [(c.streams.length, .sessionConnectSucceed)])
  made : c.session._status = .Connected → 0 < c.streams.length
  errors : readErrors c.posted = List.range' 1 c.gone

structure Idle (s : TcpSession) : Prop where
  status : s._status = .Disconnected
  reading : s._reading = false
  write : s.WriteOk

theorem new_inv {s : TcpSession} (h : Idle s) : Inv (new s) := by
  have hs : (new s).session._status = .Disconnected := h.status
  refine ⟨h.write, ?_, Nat.zero_le _, ?_, ?_, Or.inl rfl, ?_, ?_⟩
  · rintro (h1 | h1)
    · rw [hs] at h1
      cases h1
    · exact absurd h1 (Nat.lt_irrefl 0)
  · show 0 = s._reading.toNat
    rw [h.reading]
    rfl
  · intro h1
    exact absurd (h.reading.symm.trans h1) (by decide)
  · intro h1
    rw [hs] at h1
    cases h1
  · rw [gone_of_not_ok (by rw [hs]; decide)]
    rfl

theorem Inv.congr {c c' : Client} (h : Inv c) (hw : c'.session.WriteOk)
    (h1 : c'.session._status = c.session._status) (h2 : c'.session._socket = c.session._socket)
    (h3 : c'.session._reading = c.session._reading) (h4 : c'.attempts = c.attempts)
    (h5 : c'.reads = c.reads) (h6 : c'.logic = c.logic) (h7 : c'.handled = c.handled)
    (h8 : c'.streams = c.streams) : Inv c' := by
  have hp : c'.posted = c.posted := by
    unfold posted
    rw [h6, h7]
  have he : c'.gone = c.gone := by
    unfold gone isOk
    rw [h1, h8]
  refine ⟨hw, ?_, ?_, ?_, ?_, ?_, ?_, ?_⟩
  · rw [h1, h2, h4]; exact h.socket
  · rw [h1, h4]; exact h.attempts
  · rw [h3, h5]; exact h.reads
  · rw [h1, h3, h6]; exact h.reading
  · rw [h1, h3, h6, h8]; exact h.starts
  · rw [h1, h8]; exact h.made
  · rw [hp, he]; exact h.errors

/-- no connection is up and no attempt is under way -/
structure Down (c : Client) : Prop where
  write : c.session.WriteOk
  attempts : c.attempts = 0
  reads : c.reads = 0
  reading : c.session._reading = false
  starts : starts c.logic = []
  errors : readErrors c.posted = List.range' 1 c.streams.length

section
variable {c : Client} (h : Down c)
include h

theorem Down.errors_post {a : Nat × Callback} (ha : readErrors [a] = []) :
    readErrors (c.handled ++ (c.logic ++ [a])) = List.range' 1 c.streams.length := by
  rw [← List.append_assoc, readErrors_append, ha, List.append_nil]
  exact h.errors

theorem Down.establish (hs : c.session._socket = true) : Inv c.establish := by
  refine ⟨h.write.congr rfl rfl rfl, fun _ => hs, ?_, ?_, ?_,
    Or.inr ⟨rfl, h.reading, c.logic, h.starts, ?_⟩, ?_, ?_⟩
  · show c.attempts ≤ 0
    exact Nat.le_of_eq h.attempts
  · show c.reads = c.session._reading.toNat
    rw [h.reads, h.reading]
    rfl
  · intro hx
    exact absurd (h.reading.symm.trans hx) (by decide)
  · show c.logic ++ [(c.streams.length + 1, _)] = c.logic ++ [((c.streams ++ [[]]).length, _)]
    rw [List.length_append, List.length_singleton]
  · intro _
    show 0 < (c.streams ++ [[]]).length
    rw [List.length_append, List.length_singleton]
    omega
  · rw [gone_of_ok rfl]
    show readErrors (c.handled ++ (c.logic ++ [(c.streams.length + 1, _)]))
      = List.range' 1 ((c.streams ++ [[]]).length - 1)
    rw [h.errors_post rfl, List.length_append, List.length_singleton, Nat.add_sub_cancel]

theorem Down.refuse (e : ErrorCode) (timers : List Nat) : Inv (c.refuse e timers) := by
  refine ⟨h.write.congr rfl rfl rfl, ?_, ?_, ?_, ?_, Or.inl ?_, ?_, ?_⟩
  · rintro (hc | ha)
    · cases hc
    · have ha' : 0 < c.attempts := ha
      rw [h.attempts] at ha'
      exact absurd ha' (Nat.lt_irrefl 0)
  · show c.attempts ≤ 0
    exact Nat.le_of_eq h.attempts
  · show c.reads = c.session._reading.toNat
    rw [h.reads, h.reading]
    rfl
  · intro hx
    exact absurd (h.reading.symm.trans hx) (by decide)
  · show Client.starts (c.logic ++ [(c.streams.length, _)]) = []
    rw [starts_append, h.starts]
    rfl
  · intro hc
    cases hc
  · rw [gone_of_not_ok (fun hc => by cases hc)]
    exact h.errors_post rfl

end

section
variable {c : Client} (h : Inv c)
include h

theorem Inv.not_connected (hn : c.session._status ≠ .Connected) :
    c.session._reading = false ∧ Client.starts c.logic = [] ∧ c.gone = c.streams.length := by
  refine ⟨?_, ?_, gone_of_not_ok hn⟩
  · cases hr : c.session._reading with
    | false => rfl
    | true => exact absurd (h.reading hr).1 hn
  · rcases h.starts with h1 | h1
    · exact h1
    · exact absurd h1.1 hn

theorem Inv.disconnected (hd : c.session._status = .Disconnected) :
    c.attempts = 0 ∧ c.session._status ≠ .Connected := by
  have ha := h.attempts
  rw [hd, if_neg (by decide)] at ha
  exact ⟨by omega, by rw [hd]; decide⟩

theorem Inv.attempting (ha : 0 < c.attempts) :
    c.session._status = .Connecting ∧ c.attempts = 1 ∧ c.session._status ≠ .Connected := by
  have h1 := h.attempts
  by_cases hc : c.session._status = .Connecting
  · rw [if_pos hc] at h1
    exact ⟨hc, by omega, by rw [hc]; decide⟩
  · rw [if_neg hc] at h1
    omega

theorem Inv.start_last {k : Nat} {q : List (Nat × Callback)}
    (hq : c.logic = (k, .sessionConnectSucceed) :: q) :
    q = [] ∧ c.session._status = .Connected ∧ c.session._reading = false := by
  rcases h.starts with h1 | ⟨h1, h2, l, h3, h4⟩
  · rw [hq] at h1
    cases h1
  · cases l with
    | nil =>
      rw [hq] at h4
      exact ⟨(List.cons.inj h4).2, h1, h2⟩
    | cons a l =>
      rw [hq] at h4
      rw [← (List.cons.inj h4).1] at h3
      cases h3

theorem Inv.reading_of_reads (hr : 0 < c.reads) : c.session._reading = true := by
  have h1 := h.reads
  cases hx : c.session._reading with
  | true => rfl
  | false =>
    rw [hx] at h1
    have : c.reads = 0 := h1
    omega

/-! ## the moves -/

theorem Inv.attempt (hd : c.session._status = .Disconnected) :
    Inv { c.reopen .Connecting with attempts := c.attempts + 1 } := by
  obtain ⟨h1, hn⟩ := h.disconnected hd
  obtain ⟨h2, h3, h4⟩ := h.not_connected hn
  refine ⟨h.write.congr rfl rfl rfl, fun _ => rfl, ?_, h.reads, ?_, Or.inl h3, ?_, ?_⟩
  · show c.attempts + 1 ≤ 1
    omega
  · intro hr
    exact absurd (h2.symm.trans hr) (by decide)
  · intro hc
    cases hc
  · show readErrors c.posted = List.range' 1 c.streams.length
    rw [← h4]
    exact h.errors

theorem Inv.threw (hd : c.session._status = .Disconnected) (socket : Bool) :
    Inv { c with session := { c.session with _status := .Connecting, _socket := socket } } := by
  obtain ⟨h1, hn⟩ := h.disconnected hd
  obtain ⟨h2, h3, h4⟩ := h.not_connected hn
  refine ⟨h.write.congr rfl rfl rfl, ?_, ?_, h.reads, ?_, Or.inl h3, ?_, ?_⟩
  · rintro (hc | ha)
    · cases hc
    · have ha' : 0 < c.attempts := ha
      omega
  · show c.attempts ≤ 1
    omega
  · intro hr
    exact absurd (h2.symm.trans hr) (by decide)
  · intro hc
    cases hc
  · show readErrors c.posted = List.range' 1 c.streams.length
    rw [← h4]
    exact h.errors

theorem Inv.down (c' : Client) (hn : c.session._status ≠ .Connected) (hw : c'.session.WriteOk)
    (h0 : c'.attempts = 0) (h1 : c'.reads = c.reads) (h2 : c'.logic = c.logic)
    (h3 : c'.handled = c.handled) (h4 : c'.streams = c.streams)
    (h5 : c'.session._reading = c.session._reading) : Down c' := by
  obtain ⟨hr, hst, he⟩ := h.not_connected hn
  have hreads := h.reads
  rw [hr] at hreads
  refine ⟨hw, h0, h1.trans hreads, h5.trans hr, h2 ▸ hst, ?_⟩
  unfold posted
  rw [h2, h3, h4, ← he]
  exact h.errors

theorem Inv.start {k : Nat} {q : List (Nat × Callback)}
    (hq : c.logic = (k, .sessionConnectSucceed) :: q) (status : SessionStatus)
    (hs : status = .Connected) (reading : Bool) (reads : Nat) (hr : reads = reading.toNat) :
    Inv { c.dequeue q (k, .sessionConnectSucceed) with
      session := { c.session with _status := status, _reading := reading }, reads := reads } := by
  obtain ⟨h1, h2, h3⟩ := h.start_last hq
  have hp := posted_dequeue hq
  have he : c.gone = c.streams.length - 1 := gone_of_ok h2
  have ha := h.attempts
  rw [h2, if_neg (by decide)] at ha
  rw [hs, h1]
  refine ⟨h.write.congr rfl rfl rfl, fun _ => h.socket (Or.inl h2), ?_, hr, ?_, Or.inl rfl, ?_, ?_⟩
  · show c.attempts ≤ 0
    exact ha
  · intro _
    exact ⟨rfl, rfl⟩
  · intro _
    exact h.made h2
  · rw [gone_of_ok rfl]
    show readErrors (c.dequeue [] _).posted = List.range' 1 (c.streams.length - 1)
    rw [← h1, hp, ← he]
    exact h.errors

theorem Inv.dequeue {a : Nat × Callback} {q : List (Nat × Callback)} (hq : c.logic = a :: q)
    (ha : Client.starts [a] = []) (b : ReadBuffer) :
    Inv { c.dequeue q a with session := { c.session with _buff := b } } := by
  have hp := posted_dequeue hq
  have hst : Client.starts c.logic = Client.starts q := by
    rw [hq, show a :: q = [a] ++ q from rfl, starts_append, ha]
    rfl
  refine ⟨h.write.congr rfl rfl rfl, h.socket, h.attempts, h.reads, ?_, ?_, h.made, ?_⟩
  · show c.session._reading = true → c.session._status = .Connected ∧ Client.starts q = []
    rw [← hst]
    exact h.reading
  · rcases h.starts with h1 | ⟨h1, h2, l, h3, h4⟩
    · exact Or.inl (hst.symm.trans h1)
    · refine Or.inr ⟨h1, h2, ?_⟩
      cases l with
      | nil =>
        rw [hq] at h4
        rw [(List.cons.inj h4).1] at ha
        cases ha
      | cons a' l =>
        rw [hq] at h4
        refine ⟨l, ?_, (List.cons.inj h4).2⟩
        rw [show a' :: l = [a'] ++ l from rfl, starts_append] at h3
        exact (List.append_eq_nil_iff.mp h3).2
  · show readErrors (c.dequeue q a).posted = List.range' 1 c.gone
    rw [hp]
    exact h.errors

theorem Inv.readEnds (hr : 0 < c.reads) (read : Option (List UInt8)) (k : Nat) (e : ErrorCode) :
    Inv (c.afterRead read k .Disconnected false [.sessionReadError e]) := by
  have hrt := h.reading_of_reads hr
  obtain ⟨h1, h2⟩ := h.reading hrt
  have hreads : c.reads = 1 := by
    rw [h.reads, hrt]
    rfl
  have ha := h.attempts
  rw [h1, if_neg (by decide)] at ha
  refine ⟨h.write.congr rfl rfl rfl, ?_, ?_, ?_, ?_, Or.inl ?_, ?_, ?_⟩
  · rintro (hc | ha')
    · cases hc
    · have ha'' : 0 < c.attempts := ha'
      omega
  · show c.attempts ≤ 0
    exact ha
  · show c.reads - 1 + 0 = 0
    omega
  · intro hx
    cases hx
  · show Client.starts (c.logic ++ messagePosts _ _ ++ [(c.streams.length, _)]) = []
    rw [starts_append, starts_append, h2, starts_messagePosts]
    rfl
  · intro hc
    cases hc
  · have hlen := h.made h1
    rw [gone_of_not_ok (fun hc => by cases hc)]
    show readErrors (c.handled ++ (c.logic ++ messagePosts _ _ ++ [(c.streams.length, _)]))
      = List.range' 1 (receive c.streams _).length
    have he := h.errors
    rw [gone_of_ok h1] at he
    rw [← List.append_assoc, ← List.append_assoc, readErrors_append, readErrors_append,
      readErrors_messagePosts, List.append_nil, show readErrors (c.handled ++ c.logic) = _ from he,
      length_receive]
    have e1 : c.streams.length = (c.streams.length - 1) + 1 := by omega
    conv_rhs => rw [e1, List.range'_concat]
    show _ ++ [c.streams.length] = _
    congr 2
    omega

theorem Inv.readGoesOn (hr : 0 < c.reads) (read : Option (List UInt8)) (k : Nat) (again : Bool) :
    Inv (c.afterRead read k c.session._status again []) := by
  have hrt := h.reading_of_reads hr
  obtain ⟨h1, h2⟩ := h.reading hrt
  have hreads : c.reads = 1 := by
    rw [h.reads, hrt]
    rfl
  have hst : Client.starts (c.logic ++ messagePosts c.streams.length (c.session.drained read).1 ++ [])
      = [] := by
    rw [List.append_nil, starts_append, h2, starts_messagePosts]
    rfl
  refine ⟨h.write.congr rfl rfl rfl, h.socket, h.attempts, ?_, fun _ => ⟨h1, hst⟩, Or.inl hst, ?_, ?_⟩
  · show c.reads - 1 + again.toNat = again.toNat
    omega
  · intro _
    show 0 < (receive c.streams _).length
    rw [length_receive]
    exact h.made h1
  · have he := h.errors
    rw [gone_of_ok h1] at he
    have hok : (c.afterRead read k c.session._status again []).session._status = .Connected := h1
    rw [gone_of_ok hok]
    show readErrors (c.handled ++ (c.logic ++ messagePosts _ _ ++ []))
      = List.range' 1 ((receive c.streams _).length - 1)
    rw [List.append_nil, ← List.append_assoc, readErrors_append, readErrors_messagePosts,
      List.append_nil, length_receive]
    exact he

theorem Inv.write_only {t : TcpSession} (hw : t.WriteOk) (ht : t.readSide = c.session.readSide)
    (sent : List UInt8) (writes : Nat) :
    Inv { c with session := t, sent := sent, writes := writes } :=
  h.congr hw (readSide_field ht _status rfl rfl) (readSide_field ht _socket rfl rfl)
    (readSide_field ht _reading rfl rfl) rfl rfl rfl rfl rfl

theorem Inv.handleWrite {e : ErrorCode} {ws : List WriteSome} {t : TcpSession} {bytes : List UInt8}
    {es : List Effect} (hs : c.session.handleWrite e ws = some (t, bytes, es)) :
    Sends c.session t bytes := by
  obtain ⟨t', bytes', es', hs', hq⟩ := handleWrite_spec h.write e ws
  rw [hs] at hs'
  cases hs'
  exact hq

theorem Inv.writeMessage {m : Message} (hm : m.Sound) {r : Bool} {t : TcpSession}
    {es : List Effect} (hs : c.session.writeMessage m = some (r, t, es)) :
    Queues c.session t m r := by
  obtain ⟨r', t', es', hs', hq, _⟩ :=
    writeMessage_spec h.write (fun hc => h.socket (Or.inl hc)) hm
  rw [hs] at hs'
  cases hs'
  exact hq

end

theorem Move.inv {R : Rules} {c c' : Client} (h : Inv c) (hm : Move R c c') : Inv c' := by
  cases hm with
  | wait timers up => exact h.congr h.write rfl rfl rfl rfl rfl rfl rfl rfl
  | attempt hd ho => exact h.attempt hd
  | threw hd ht socket => exact h.threw hd socket
  | connectNow hd ho =>
    obtain ⟨h1, hn⟩ := h.disconnected hd
    exact (h.down (c.reopen .Connecting) hn (h.write.congr rfl rfl rfl) h1 rfl rfl rfl rfl
      rfl).establish rfl
  | refuseNow hd ho e timers =>
    obtain ⟨h1, hn⟩ := h.disconnected hd
    exact (h.down (c.reopen .Connecting) hn (h.write.congr rfl rfl rfl) h1 rfl rfl rfl rfl
      rfl).refuse e timers
  | succeed ha =>
    obtain ⟨_, h1, hn⟩ := h.attempting ha
    have h0 : c.attempts - 1 = 0 := by omega
    exact (h.down { c with attempts := c.attempts - 1 } hn h.write h0 rfl rfl rfl rfl
      rfl).establish (h.socket (Or.inr ha))
  | fail ha e timers =>
    obtain ⟨_, h1, hn⟩ := h.attempting ha
    have h0 : c.attempts - 1 = 0 := by omega
    exact (h.down { c with attempts := c.attempts - 1 } hn h.write h0 rfl rfl rfl rfl
      rfl).refuse e timers
  | startFails hq status hs =>
    obtain ⟨_, h2, h3⟩ := h.start_last hq
    have hst : status = .Connected := by
      rcases hs with hs | hs
      · exact hs.trans h2
      · exact hs
    exact h.start hq status hst c.session._reading c.reads h.reads
  | start hq hr =>
    refine h.start hq .Connected rfl true (c.reads + 1) ?_
    rw [h.reads, hr]
    rfl
  | ignore hq h1 h2 =>
    refine h.dequeue hq ?_ c.session._buff
    rename_i k cb q
    cases cb with
    | sessionConnectSucceed => exact absurd rfl h1
    | sessionConnectFailed e => rfl
    | sessionReceiveMessage m => rfl
    | sessionReadError e => rfl
  | reset hq => exact h.dequeue hq rfl c.session._buff.reset
  | readEnds hr read hb hB k e => exact h.readEnds hr read k e
  | readGoesOn hr read hb hB k again => exact h.readGoesOn hr read k again
  | handleWrite e ws hs writes =>
    exact h.write_only (h.handleWrite hs).ok (h.handleWrite hs).rest _ writes
  | writeMessage hm _ hs writes =>
    exact h.write_only (h.writeMessage hm hs).ok (h.writeMessage hm hs).rest c.sent writes

/-! ## the ends of connections -/

/-- what an observer of the completions knows: the reads in a row that found nothing, and the connections
that have ended -/
structure Endings where
  blocked : Nat
  ended : List Nat
  deriving DecidableEq, Repr

/-- the observer looks at the completed reads, and at the read buffer for the framing of what was read -/
def Endings.see (x : Endings) (c : Client) : ClientEvent → Endings
  | .handleRead e rs =>
    ⟨blockedAfter c.session._buff x.blocked e rs,
      if endsConnection c.session._buff x.blocked e rs then x.ended ++ [c.streams.length] else x.ended⟩
  | _ => x

def endings (c : Client) (es : List ClientEvent) : List Nat :=
  (observe step Endings.see ⟨c.session._readBlockTimes, []⟩ c es).ended

/-- the observer has counted as the session did, and has seen what the session reported -/
structure Reported (x : Endings) (c : Client) : Prop where
  blocked : c.session._readBlockTimes = x.blocked
  ended : readErrors c.posted = x.ended

/-- an effect that is not the report of a read error -/
def quiet : Effect → Bool
  | .post (.sessionReadError _) => false
  | _ => true

theorem readErrors_apply (c : Client) (r : TcpSession × List Effect) (h : ∀ f ∈ r.2, quiet f = true) :
    readErrors (c.apply r).posted = readErrors c.posted ∧ (c.apply r).session = r.1 := by
  obtain ⟨t, es⟩ := r
  have key : ∀ (es : List Effect) (c : Client), (∀ f ∈ es, quiet f = true) →
      readErrors (es.foldl perform c).posted = readErrors c.posted ∧
        (es.foldl perform c).session = c.session := by
    intro es
    induction es with
    | nil => exact fun _ _ => ⟨rfl, rfl⟩
    | cons f es ih =>
      intro c hq
      obtain ⟨h1, h2⟩ := ih (c.perform f) fun g hg => hq g (List.mem_cons_of_mem _ hg)
      have post : ∀ a : Nat × Callback, readErrors [a] = [] →
          readErrors (c.handled ++ (c.logic ++ [a])) = readErrors c.posted := by
        intro a ha
        rw [← List.append_assoc, readErrors_append, ha, List.append_nil]
        rfl
      have hf := hq f List.mem_cons_self
      have h3 : readErrors (c.perform f).posted = readErrors c.posted ∧
          (c.perform f).session = c.session := by
        cases f with
        | post cb =>
          cases cb with
          | sessionReadError e => cases hf
          | sessionConnectSucceed => exact ⟨post _ rfl, rfl⟩
          | sessionConnectFailed e => exact ⟨post _ rfl, rfl⟩
          | sessionReceiveMessage m => exact ⟨post _ rfl, rfl⟩
        | _ => exact ⟨rfl, rfl⟩
      exact ⟨h1.trans h3.1, h2.trans h3.2⟩
  exact key es { c with session := t } h

section
variable {x : Endings} {c c' : Client}

theorem Reported.apply (h : Reported x c) (r : TcpSession × List Effect)
    (hb : r.1._readBlockTimes = c.session._readBlockTimes) (hq : ∀ f ∈ r.2, quiet f = true)
    (hp : c'.posted = c.posted) : Reported x (c'.apply r) := by
  obtain ⟨h1, h2⟩ := readErrors_apply c' r hq
  refine ⟨?_, ?_⟩
  · rw [h2, hb]
    exact h.blocked
  · rw [h1, hp]
    exact h.ended

theorem onConnect_quiet (s : TcpSession) (y : ConnectCalls) :
    (s.onConnect y).1._readBlockTimes = s._readBlockTimes ∧
      ∀ f ∈ (s.onConnect y).2, quiet f = true := by
  rcases onConnect_cases s y with ⟨_, e⟩ | ⟨_, _, socket, e⟩ | ⟨_, e⟩ | ⟨_, e⟩ | ⟨_, er, ts, e, hts⟩
  · rw [e]
    exact ⟨rfl, by simp [quiet]⟩
  · rw [e]
    exact ⟨rfl, by simp [quiet]⟩
  · rw [e]
    exact ⟨rfl, by simp [quiet]⟩
  · rw [e]
    exact ⟨rfl, by simp [quiet]⟩
  · rw [e]
    refine ⟨rfl, ?_⟩
    rcases hts with rfl | rfl <;> simp [quiet]

theorem handleConnect_quiet (s : TcpSession) (e : ErrorCode) :
    (s.handleConnect e).1._readBlockTimes = s._readBlockTimes ∧
      ∀ f ∈ (s.handleConnect e).2, quiet f = true := by
  unfold handleConnect
  split
  · refine ⟨rfl, ?_⟩
    dsimp only
    split <;> simp [quiet]
  · exact ⟨rfl, by simp [quiet]⟩

theorem start_quiet (s : TcpSession) (y : StartCalls) :
    (s.start y).1._readBlockTimes = s._readBlockTimes ∧ ∀ f ∈ (s.start y).2, quiet f = true := by
  cases y with
  | remote_endpoint_throws => exact ⟨rfl, fun f hf => by cases hf⟩
  | non_blocking_throws => exact ⟨rfl, fun f hf => by cases hf⟩
  | fine =>
    refine ⟨postReadNull_field { s with _status := .Connected } _readBlockTimes fun _ => rfl, ?_⟩
    intro f hf
    rw [postReadNull_effects { s with _status := .Connected } f hf]
    rfl

theorem Reported.logic (h : Reported x c) {y : StartCalls} {z : ConnectCalls}
    (hs : step c (.logic y z) = some c') : Reported x c' := by
  rw [step] at hs
  cases hq : c.logic with
  | nil =>
    simp only [hq] at hs
    cases hs
  | cons a q =>
    obtain ⟨k, cb⟩ := a
    simp only [hq] at hs
    have hp : (c.dequeue q (k, cb)).posted = c.posted := posted_dequeue hq
    rw [← Option.some.inj hs]
    cases cb with
    | sessionConnectSucceed =>
      obtain ⟨h1, h2⟩ := start_quiet c.session y
      exact h.apply _ h1 h2 hp
    | sessionConnectFailed e => exact ⟨h.blocked, (congrArg readErrors hp).trans h.ended⟩
    | sessionReceiveMessage m => exact ⟨h.blocked, (congrArg readErrors hp).trans h.ended⟩
    | sessionReadError e =>
      obtain ⟨h1, h2⟩ := onConnect_quiet c.session.resetReadBuffer z
      exact h.apply (c := c) _ h1 h2 hp

theorem Reported.read (h : Reported x c) {e : ErrorCode} {rs : ReadSome}
    {r : TcpSession × List Effect} (hr : c.session.handleRead e rs = some r) :
    Reported (x.see c (.handleRead e rs)) ({ c with
      reads := c.reads - 1
      streams := receive c.streams ((readBytes e rs).getD []) }.apply r) := by
  obtain ⟨t, es⟩ := r
  obtain ⟨h1, ps, last, rfl, h2⟩ := handleRead_reports hr
  have hl := length_receive c.streams ((readBytes e rs).getD [])
  rw [h.blocked] at h1 h2
  have hposts : ∀ d : Client, readErrors (d.handled ++ (d.logic ++ messagePosts d.streams.length ps))
      = readErrors d.posted := by
    intro d
    rw [← List.append_assoc, readErrors_append, readErrors_messagePosts, List.append_nil]
    rfl
  unfold Client.apply
  dsimp only
  rw [List.foldl_append, foldl_receivePosts]
  unfold Endings.see
  dsimp only
  cases hends : endsConnection c.session._buff x.blocked e rs with
  | true =>
    rw [hends, if_pos rfl] at h2
    obtain ⟨er, rfl⟩ := h2
    refine ⟨h1, ?_⟩
    rw [if_pos rfl]
    show readErrors (c.handled ++ (c.logic ++ messagePosts (receive c.streams _).length ps
      ++ [((receive c.streams _).length, _)])) = _
    rw [← List.append_assoc, readErrors_append, hl, hposts c, h.ended]
    rfl
  | false =>
    rw [hends, if_neg Bool.false_ne_true] at h2
    have hq : ∀ f ∈ last, quiet f = true := fun f hf => by
      rw [h2 f hf]
      rfl
    obtain ⟨h3, h4⟩ := readErrors_apply { c with
      reads := c.reads - 1
      streams := receive c.streams ((readBytes e rs).getD [])
      logic := c.logic ++ messagePosts (receive c.streams ((readBytes e rs).getD [])).length ps }
      (t, last) hq
    refine ⟨?_, ?_⟩
    · exact (congrArg _readBlockTimes h4).trans h1
    · rw [if_neg Bool.false_ne_true]
      refine h3.trans ?_
      show readErrors (c.handled ++ (c.logic ++ messagePosts (receive c.streams _).length ps)) = _
      rw [hl, hposts c]
      exact h.ended

/-- **A step reports the connection that it ends**, and no other. -/
theorem step_reports (hI : Inv c) (h : Reported x c) {e : ClientEvent} (hs : step c e = some c') :
    Reported (x.see c e) c' := by
  cases e with
  | connect y =>
    obtain ⟨h1, h2⟩ := onConnect_quiet c.session y
    rw [← Option.some.inj hs]
    exact h.apply _ h1 h2 rfl
  | reconnect y =>
    obtain ⟨h1, h2⟩ := onConnect_quiet c.session y
    rw [← Option.some.inj hs]
    exact h.apply _ h1 h2 rfl
  | timer i y =>
    rw [step] at hs
    split at hs
    · obtain ⟨h1, h2⟩ := onConnect_quiet c.session y
      rw [← Option.some.inj hs]
      exact h.apply (c := c) _ h1 h2 rfl
    · cases hs
  | accepted =>
    rw [step] at hs
    split at hs
    · rw [← Option.some.inj hs]
      exact ⟨h.blocked, h.ended⟩
    · cases hs
  | handleConnect er =>
    rw [step] at hs
    split at hs
    · obtain ⟨h1, h2⟩ := handleConnect_quiet c.session er
      rw [← Option.some.inj hs]
      exact h.apply (c := c) _ h1 h2 rfl
    · cases hs
  | logic y z => exact h.logic hs
  | handleRead er rs =>
    obtain ⟨_, _, r, hr, rfl⟩ := handleRead_of_step hs
    exact h.read hr
  | handleWrite er ws =>
    obtain ⟨t, bytes, fs, hw, rfl⟩ := handleWrite_of_step hs
    refine h.apply (c := c) (t, fs)
      (readSide_field (hI.handleWrite hw).rest _readBlockTimes rfl rfl) (fun f hf => ?_) rfl
    rw [handleWrite_effects hw f hf]
    rfl
  | writeMessage m =>
    obtain ⟨hm, b, t, fs, hw, rfl⟩ := writeMessage_of_step hs
    refine h.apply (c := c) (t, fs)
      (readSide_field (hI.writeMessage hm hw).rest _readBlockTimes rfl rfl) (fun f hf => ?_) rfl
    rw [writeMessage_effects hw f hf]
    rfl

end

/-! ## runs in which no address throws -/

/-- resolving a name and parsing an address do not throw -/
def noThrow : Rules := ⟨False, fun _ => True, fun _ => True, fun _ => True⟩

theorem Move.connecting {R : Rules} (hR : ¬ R.throws) {c c' : Client} (h : Inv c)
    (hc : c.session._status = .Connecting → c.attempts = 1) (hm : Move R c c') :
    c'.session._status = .Connecting → c'.attempts = 1 := by
  intro hs
  cases hm with
  | wait timers up => exact hc hs
  | attempt hd ho =>
    show c.attempts + 1 = 1
    rw [(h.disconnected hd).1]
  | threw hd ht socket => exact absurd ht hR
  | connectNow hd ho => cases hs
  | refuseNow hd ho e timers => cases hs
  | succeed ha => cases hs
  | fail ha e timers => cases hs
  | startFails hq status hst =>
    rcases hst with hst | hst
    · exact hc (hst.symm.trans hs)
    · rw [hst] at hs
      cases hs
  | start hq hr => cases hs
  | ignore hq h1 h2 => exact hc hs
  | reset hq => exact hc hs
  | readEnds hr read hb hB k e => cases hs
  | readGoesOn hr read hb hB k again => exact hc hs
  | handleWrite e ws hw writes =>
    have ht := readSide_field (h.handleWrite hw).rest _status rfl rfl
    exact hc (ht.symm.trans hs)
  | writeMessage hm _ hw writes =>
    have ht := readSide_field (h.writeMessage hm hw).rest _status rfl rfl
    exact hc (ht.symm.trans hs)

/-- the invariant, and the status `Connecting` is taken by an attempt only -/
structure Steady (c : Client) : Prop where
  inv : Inv c
  connecting : c.session._status = .Connecting → c.attempts = 1

theorem step_steady {c c' : Client} {e : ClientEvent} (h : Steady c) (hR : noThrow.Permits c e)
    (hs : step c e = some c') : Steady c' :=
  step_keeps (I := Steady)
    (fun _ _ ha hm => ⟨hm.inv ha.inv, hm.connecting (fun hf => hf) ha.inv ha.connecting⟩) h hR hs

theorem noThrow_guarded (es : List ClientEvent) (h : ∀ e ∈ es, throwing e = false) :
    ∀ c, Guarded step noThrow.Permits c es := by
  refine guarded_of_mem step es fun e he c => ?_
  refine ⟨fun ht => ?_, fun _ _ _ _ _ => trivial, fun _ _ _ => trivial, fun _ _ => trivial⟩
  exact absurd ((h e he).symm.trans ht) (by decide)

theorem Inv.count_errors {c : Client} (h : Inv c) (k : Nat) (h1 : 1 ≤ k) (h2 : k ≤ c.streams.length) :
    (readErrors c.posted).count k = if c.session.isOk ∧ k = c.streams.length then 0 else 1 := by
  rw [h.errors]
  by_cases hok : c.session._status = .Connected
  · have e : c.session.isOk = true := decide_eq_true hok
    rw [gone_of_ok hok, e]
    by_cases hk : k = c.streams.length
    · rw [if_pos ⟨rfl, hk⟩]
      apply List.count_eq_zero_of_not_mem
      intro hm
      have := List.mem_range'_1.mp hm
      omega
    · rw [if_neg (fun hx => hk hx.2)]
      exact List.count_eq_one_of_mem List.nodup_range' (List.mem_range'_1.mpr (by omega))
  · have e : c.session.isOk = false := decide_eq_false hok
    rw [gone_of_not_ok hok, e, if_neg (fun hx => by cases hx.1)]
    exact List.count_eq_one_of_mem List.nodup_range' (List.mem_range'_1.mpr (by omega))

theorem timer_no_effect {c c' : Client} (hs : c.session._status ≠ .Disconnected) (i : Nat)
    (x : ConnectCalls) (h : step c (.timer i x) = some c') :
    c' = { c with timers := c.timers.eraseIdx i } := by
  rw [step] at h
  have e : c.session.onReconnect x = (c.session, []) := if_pos hs
  rw [e] at h
  split at h
  · exact (Option.some.inj h).symm
  · cases h

end Client

/-- **The connection state machine.**  In every state of every run in which no address throws: at
most one attempt and one read are outstanding, the status is `Connecting` exactly during an attempt,
an expiring timer has no effect unless the session is disconnected, a connection has posted
`sessionReadError` once if a completed read has ended it and not at all otherwise, and of the established
connections all but the live one have ended. -/
theorem connection_invariants (s : TcpSession) (hs : Client.Idle s) (es : List ClientEvent)
    (c : Client) (hG : Guarded Client.step Client.noThrow.Permits (Client.new s) es)
    (h : exec Client.step (Client.new s) es = some c) :
    c.attempts ≤ 1 ∧ c.reads ≤ 1 ∧
      (c.session._status = .Connecting ↔ c.attempts = 1) ∧
      (∀ i x c', c.session._status ≠ .Disconnected → Client.step c (.timer i x) = some c' →
        c' = { c with timers := c.timers.eraseIdx i }) ∧
      (∀ k, (Client.readErrors c.posted).count k
        = if k ∈ Client.endings (Client.new s) es then 1 else 0) ∧
      (∀ k, 1 ≤ k → k ≤ c.streams.length → (Client.readErrors c.posted).count k
        = if c.session.isOk ∧ k = c.streams.length then 0 else 1) := by
  have hI := exec_observed Client.step
    (I := fun x c => Client.Steady c ∧ Client.Reported x c)
    (fun x a e b ha hR hst => ⟨Client.step_steady ha.1 hR hst,
      Client.step_reports ha.1.inv ha.2 hst⟩)
    es ⟨s._readBlockTimes, []⟩ (Client.new s) c
    ⟨⟨Client.new_inv hs, fun hc => absurd (hs.status.symm.trans hc) (by decide)⟩, rfl, rfl⟩ hG h
  obtain ⟨⟨hi, hc⟩, hrep⟩ := hI
  have ha : c.attempts ≤ 1 := le_trans hi.attempts (by split <;> omega)
  refine ⟨ha, ?_, ⟨hc, fun h1 => (hi.attempting (by omega)).1⟩, ?_, fun k => ?_, hi.count_errors⟩
  · rw [hi.reads]
    cases c.session._reading <;> decide
  · intro i x c' hne hst
    exact Client.timer_no_effect hne i x hst
  · have hnodup : (Client.readErrors c.posted).Nodup := by
      rw [hi.errors]
      exact List.nodup_range'
    have hend : Client.readErrors c.posted = Client.endings (Client.new s) es := hrep.ended
    rw [hnodup.count, hend]

/-- the session that `RpcClient` creates, in either mode -/
def TcpSession.client (mem : List UInt8) (reconnect : Nat) (async : Bool) : TcpSession :=
  { TcpSession.new (some mem) mem mem.length reconnect with _asyncConnect := async }

theorem client_idle (mem : List UInt8) (reconnect : Nat) (async : Bool)
    (h : mem.length < 9223372036854775808) : Client.Idle (TcpSession.client mem reconnect async) := by
  have hw := new_writeOk (some mem) mem mem.length reconnect
    (fun _ e => by rw [← Option.some.inj e]) h
  exact ⟨rfl, rfl, hw.congr rfl rfl rfl⟩

/-- a refused attempt, a connection that ends by a framing error, and an attempt by the timer of the
refused one, which overtakes the reconnect of the handler -/
def overtaken : List ClientEvent :=
  [.connect ⟨false, .success⟩, .handleConnect (.other 111), .reconnect ⟨false, .success⟩,
    .handleConnect .success, .logic .fine ⟨false, .success⟩, .logic .fine ⟨false, .success⟩,
    .handleRead .success (.got (List.replicate 14 0)), .timer 0 ⟨false, .success⟩,
    .logic .fine ⟨false, .success⟩]

theorem connection_invariants_overtaken :
    ∃ c, exec Client.step (Client.new (TcpSession.client (List.replicate 20 0) 5 true)) overtaken
        = some c ∧
      c.session._status = .Connecting ∧ c.attempts = 1 ∧
      Client.endings (Client.new (TcpSession.client (List.replicate 20 0) 5 true)) overtaken = [1] ∧
      (Client.readErrors c.posted).count 1 = 1 := by
  have h : (exec Client.step (Client.new (TcpSession.client (List.replicate 20 0) 5 true))
      overtaken).any (fun c => decide (c.session._status = .Connecting)) = true := by
    decide +kernel
  obtain ⟨c, hc, hp⟩ := (Option.any_eq_true ..).mp h
  have hst := of_decide_eq_true hp
  have hi := connection_invariants (TcpSession.client (List.replicate 20 0) 5 true)
    (client_idle _ _ _ (by decide)) _ c (Client.noThrow_guarded _ (by decide) _) hc
  have hend : Client.endings (Client.new (TcpSession.client (List.replicate 20 0) 5 true)) overtaken
      = [1] := by
    decide +kernel
  refine ⟨c, hc, hst, hi.2.2.1.mp hst, hend, ?_⟩
  rw [hi.2.2.2.2.1 1, hend]
  rfl

end JMEngine.Net
