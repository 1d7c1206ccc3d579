import JMEngine.Net.Connection

/-!
# What a client sends on each of its connections

The write buffer and its offset live across connections: `sessionReadError` resets the read buffer
only, and the next connection goes on with the byte at which the last one stopped.

* `Framed xs`             `xs` begins a stream of whole frames;
* `Client.accepted`       the messages that `writeMessage` accepted in a run;
* `Client.Carries ms c`   the sockets carry `ms` one after the other, none across two sockets;
* `framed_sockets`        so it is, and every connection is `Framed`, when sockets are only replaced
                          between frames;
* `not_framed_sockets`    a partial write, a read error and a reconnect.
-/

set_option linter.unusedSectionVars false

namespace JMEngine.Net
open Bytes Framing Runs TcpSession

/-- a part of a concatenation of whole frames, from its beginning -/
def Framed (xs : List UInt8) : Prop :=
  ∃ fs : List (List UInt8), (∀ f ∈ fs, wireFramer.Whole f) ∧ xs <+: fs.flatten

theorem not_framed_of_malformed {xs : List UInt8} (h : Malformed xs) : ¬ Framed xs := by
  rintro ⟨fs, hf, zs, hz⟩
  have hb : scanFrame xs = .bad := scanFrame_bad.mpr h
  have hm := (wireFramer.frames_part fs hf xs zs hz).2.1
  rw [wireFramer.rest_stuck xs (fun k hk => by rw [wireFramer_scan, hb] at hk; cases hk),
    wireFramer_scan, hb] at hm
  cases hm

def wires (ms : List Message) : List UInt8 := (ms.map Message.wire).flatten

theorem wires_append (ms ns : List Message) : wires (ms ++ ns) = wires ms ++ wires ns := by
  unfold wires
  rw [List.map_append, List.flatten_append]

theorem wires_split {ms : List Message} (hs : ∀ m ∈ ms, m.Sound) {xs ys : List UInt8}
    (h : xs ++ ys = wires ms) (hr : wireFramer.rest xs = []) :
    ∃ ns os, ms = ns ++ os ∧ xs = wires ns ∧ ys = wires os := by
  have hw : ∀ f ∈ ms.map Message.wire, wireFramer.Whole f := by
    intro f hf
    obtain ⟨m, hm, rfl⟩ := List.mem_map.mp hf
    exact wire_whole (hs m hm)
  obtain ⟨⟨gs, hg⟩, _, _⟩ := wireFramer.frames_part _ hw xs ys h
  have hx : (wireFramer.frames xs).flatten = xs := by
    have := wireFramer.flatten_rest xs
    rw [hr, List.append_nil] at this
    exact this
  obtain ⟨ns, os, rfl, hn, ho⟩ := List.map_eq_append_iff.mp hg.symm
  have hxn : xs = wires ns := by
    unfold wires
    rw [hn, hx]
  refine ⟨ns, os, rfl, hxn, ?_⟩
  rw [wires_append, ← hxn] at h
  exact List.append_cancel_left h

theorem framed_of_wires {ms : List Message} (hs : ∀ m ∈ ms, m.Sound) {xs : List UInt8}
    (h : xs <+: wires ms) : Framed xs := by
  refine ⟨ms.map Message.wire, fun f hf => ?_, h⟩
  obtain ⟨m, hm, rfl⟩ := List.mem_map.mp hf
  exact wire_whole (hs m hm)

namespace Client

/-- the message that an event makes the session accept -/
def accepts (c : Client) : ClientEvent → List Message
  | .writeMessage m =>
    match c.session.writeMessage m with
    | some (true, _) => [m]
    | _ => []
  | _ => []

theorem accepts_writeMessage {c : Client} {m : Message} {r : Bool} {x : TcpSession × List Effect}
    (h : c.session.writeMessage m = some (r, x)) :
    c.accepts (.writeMessage m) = if r then [m] else [] := by
  rw [accepts, h]
  cases r <;> rfl

/-- the messages that `writeMessage` accepted in a run, in order -/
def accepted (c : Client) (es : List ClientEvent) : List Message :=
  observe step (fun ms c e => ms ++ c.accepts e) [] c es

/-- the messages go out one after the other: some whole ones on each socket that was replaced, and the
rest, as far as it is sent, on the present one -/
def Carries (ms : List Message) (c : Client) : Prop :=
  ∃ (past : List (List Message)) (rest : List Message), ms = past.flatten ++ rest ∧
    c.sockets = past.map wires ∧ c.sent ++ c.session.queued = wires rest

structure Sending (ms : List Message) (c : Client) : Prop where
  inv : Inv c
  sound : ∀ m ∈ ms, m.Sound
  carries : Carries ms c

theorem new_sending {s : TcpSession} (h : Idle s) (h0 : s._writeBufferOffest = 0) :
    Sending [] (new s) := by
  refine ⟨new_inv h, (fun m hm => by cases hm), [], [], rfl, rfl, ?_⟩
  show [] ++ s.queued = []
  rw [queued_of_none h0]
  rfl

section
variable {ms : List Message} {c : Client} (h : Sending ms c)
include h

theorem Sending.keep {c' : Client} (hI : Inv c') (h1 : c'.sent = c.sent)
    (h2 : c'.sockets = c.sockets) (h3 : c'.session.queued = c.session.queued) : Sending ms c' := by
  refine ⟨hI, h.sound, ?_⟩
  unfold Carries
  rw [h1, h2, h3]
  exact h.carries

theorem Sending.reopen {c' : Client} (hI : Inv c') (hr : wireFramer.rest c.sent = [])
    (h1 : c'.sent = []) (h2 : c'.sockets = c.sockets ++ [c.sent])
    (h3 : c'.session.queued = c.session.queued) : Sending ms c' := by
  obtain ⟨past, rest, hms, hp, hq⟩ := h.carries
  have hs : ∀ m ∈ rest, m.Sound := fun m hm => h.sound m (by
    rw [hms]
    exact List.mem_append_right _ hm)
  obtain ⟨ns, os, rfl, hn, ho⟩ := wires_split hs hq hr
  refine ⟨hI, h.sound, past ++ [ns], os, ?_, ?_, ?_⟩
  · rw [hms, List.flatten_append, List.flatten_singleton, List.append_assoc]
  · rw [h2, hp, hn, List.map_append]
    rfl
  · rw [h1, h3, List.nil_append]
    exact ho

theorem Sending.framed : ∀ xs ∈ c.sockets ++ [c.sent], Framed xs := by
  obtain ⟨past, rest, hms, hp, hq⟩ := h.carries
  intro xs hx
  rcases List.mem_append.mp hx with hx | hx
  · rw [hp] at hx
    obtain ⟨ns, hns, rfl⟩ := List.mem_map.mp hx
    refine framed_of_wires (fun m hm => h.sound m ?_) (List.prefix_refl _)
    rw [hms]
    exact List.mem_append_left _ (List.mem_flatten.mpr ⟨ns, hns, hm⟩)
  · rw [List.mem_singleton.mp hx]
    refine framed_of_wires (fun m hm => h.sound m ?_) ⟨_, hq⟩
    rw [hms]
    exact List.mem_append_right _ hm

end

theorem Move.sending {R : Rules} (hR : ∀ sent, R.opens sent → wireFramer.rest sent = [])
    (hn : ∀ m, ¬ R.writes m) {ms : List Message} {c c' : Client} (h : Sending ms c)
    (hm : Move R c c') : Sending ms c' := by
  have hI := hm.inv h.inv
  cases hm with
  | wait timers up => exact h.keep hI rfl rfl rfl
  | attempt hd ho => exact h.reopen hI (hR _ ho) rfl rfl rfl
  | threw hd ht socket => exact h.keep hI rfl rfl rfl
  | connectNow hd ho => exact h.reopen hI (hR _ ho) rfl rfl rfl
  | refuseNow hd ho e timers => exact h.reopen hI (hR _ ho) rfl rfl rfl
  | succeed ha => exact h.keep hI rfl rfl rfl
  | fail ha e timers => exact h.keep hI rfl rfl rfl
  | startFails hq status hs => exact h.keep hI rfl rfl rfl
  | start hq hr => exact h.keep hI rfl rfl rfl
  | ignore hq h1 h2 => exact h.keep hI rfl rfl rfl
  | reset hq => exact h.keep hI rfl rfl rfl
  | readEnds hr read hb hB k e => exact h.keep hI rfl rfl rfl
  | readGoesOn hr read hb hB k again => exact h.keep hI rfl rfl rfl
  | handleWrite e ws hs writes =>
    obtain ⟨past, rest, hms, hp, hq⟩ := h.carries
    refine ⟨hI, h.sound, past, rest, hms, hp, ?_⟩
    rw [(h.inv.handleWrite hs).queued, ← List.append_assoc] at hq
    exact hq
  | writeMessage hm hw hs writes => exact absurd hw (hn _)

/-- a socket is only replaced when the bytes sent on it end with a frame -/
def betweenFrames : Rules :=
  ⟨True, fun _ => True, fun sent => wireFramer.rest sent = [], fun _ => True⟩

theorem Sending.append {ms : List Message} {c c' : Client} (h : Sending ms c) {m : Message}
    (hs : step c (.writeMessage m) = some c') (hI : Inv c') :
    Sending (ms ++ c.accepts (.writeMessage m)) c' := by
  obtain ⟨hm, r, t, fs, hw, he⟩ := writeMessage_of_step hs
  have hq := (h.inv.writeMessage hm hw).queued
  have he' : c' = { c with session := t, writes := c.writes + fs.length } :=
    he.trans (foldl_writes fs (writeMessage_effects hw) { c with session := t })
  obtain ⟨past, rest, hms, hp, hq'⟩ := h.carries
  subst he'
  rw [accepts_writeMessage hw]
  cases r with
  | false =>
    rw [if_neg Bool.false_ne_true, List.append_nil]
    refine ⟨hI, h.sound, past, rest, hms, hp, ?_⟩
    show c.sent ++ t.queued = _
    rw [hq, if_neg Bool.false_ne_true, List.append_nil]
    exact hq'
  | true =>
    rw [if_pos rfl]
    refine ⟨hI, fun m' hm' => ?_, past, rest ++ [m], ?_, hp, ?_⟩
    · rcases List.mem_append.mp hm' with hx | hx
      · exact h.sound m' hx
      · rw [List.mem_singleton.mp hx]
        exact hm
    · rw [hms, List.append_assoc]
    · show c.sent ++ t.queued = _
      rw [hq, if_pos rfl, ← List.append_assoc, hq', wires_append]
      unfold wires
      rw [List.map_singleton, List.flatten_singleton]

/-- **Every step keeps the messages whole**, and adds those that it accepts. -/
theorem step_sending {ms : List Message} {c c' : Client} {e : ClientEvent} (h : Sending ms c)
    (hR : betweenFrames.Permits c e) (hs : step c e = some c') : Sending (ms ++ c.accepts e) c' := by
  have hI : Inv c' := step_keeps (fun _ _ ha hm => hm.inv ha) h.inv hR hs
  have other : (∀ m, e ≠ .writeMessage m) → Sending ms c' := fun hne =>
    step_keeps (R := { betweenFrames with writes := fun _ => False })
      (fun _ _ ha hm => hm.sending (fun _ hx => hx) (fun _ hx => hx) ha) h
      ⟨hR.throws, hR.read, hR.opens, fun m he => absurd he (hne m)⟩ hs
  cases e with
  | writeMessage m => exact h.append hs hI
  | connect x => exact (List.append_nil ms).symm ▸ other fun m he => by cases he
  | reconnect x => exact (List.append_nil ms).symm ▸ other fun m he => by cases he
  | timer i x => exact (List.append_nil ms).symm ▸ other fun m he => by cases he
  | accepted => exact (List.append_nil ms).symm ▸ other fun m he => by cases he
  | handleConnect er => exact (List.append_nil ms).symm ▸ other fun m he => by cases he
  | logic y x => exact (List.append_nil ms).symm ▸ other fun m he => by cases he
  | handleRead er rs => exact (List.append_nil ms).symm ▸ other fun m he => by cases he
  | handleWrite er ws => exact (List.append_nil ms).symm ▸ other fun m he => by cases he

end Client

/-- **Every connection starts on a frame boundary**, in every state of every run in which sockets are
only replaced between frames: the sockets that were replaced carried whole messages, the present one
begins with the next message, and together they carry the messages that `writeMessage` accepted, in
order. -/
theorem framed_sockets (s : TcpSession) (hs : Client.Idle s) (h0 : s._writeBufferOffest = 0)
    (es : List ClientEvent) (c : Client)
    (hG : Guarded Client.step Client.betweenFrames.Permits (Client.new s) es)
    (h : exec Client.step (Client.new s) es = some c) :
    Client.Carries (Client.accepted (Client.new s) es) c ∧
      ∀ xs ∈ c.sockets ++ [c.sent], Framed xs := by
  have hS : Client.Sending (Client.accepted (Client.new s) es) c :=
    exec_observed Client.step (C := Client.betweenFrames.Permits) (I := Client.Sending)
      (fun _ _ _ _ ha hR hst => Client.step_sending ha hR hst) es [] (Client.new s) c
      (Client.new_sending hs h0) hG h
  exact ⟨hS.carries, hS.framed⟩

/-- `betweenFrames` on one step, computed -/
def opensBetween (c : Client) (e : ClientEvent) : Bool :=
  match Client.step c e with
  | none => true
  | some c' => decide (c'.sockets = c.sockets) || decide (wireFramer.rest c.sent = [])

theorem opensBetween_permits (c : Client) (e : ClientEvent) (h : opensBetween c e = true) :
    Client.betweenFrames.Permits c e := by
  refine ⟨fun _ => trivial, fun _ _ _ _ _ => trivial, fun c' hs hne => ?_, fun _ _ => trivial⟩
  unfold opensBetween at h
  rw [hs] at h
  have h' : c'.sockets = c.sockets ∨ wireFramer.rest c.sent = [] := by simpa using h
  exact h'.resolve_left hne

/-- a message is sent, the connection ends, and the next message goes out on the next connection -/
def twoConnections : List ClientEvent :=
  [.connect ⟨false, .success⟩, .handleConnect .success, .logic .fine ⟨false, .success⟩,
    .writeMessage (Message.ofStr RPCMessage [7]), .handleWrite .success [.wrote 9, .wrote 9],
    .handleRead .success (.failed (.other 104)), .logic .fine ⟨false, .success⟩,
    .handleConnect .success, .logic .fine ⟨false, .success⟩,
    .writeMessage (Message.ofId 2), .handleWrite .success [.wrote 5]]

theorem framed_sockets_two :
    ∃ c, exec Client.step (Client.new (TcpSession.client (List.replicate 40 0) 0 true)) twoConnections
        = some c ∧
      c.sockets.length = 2 ∧ c.sent.length = 5 ∧
      Client.Carries [Message.ofStr RPCMessage [7], Message.ofId 2] c ∧
      ∀ xs ∈ c.sockets ++ [c.sent], Framed xs := by
  have h : (exec Client.step (Client.new (TcpSession.client (List.replicate 40 0) 0 true))
      twoConnections).any (fun c => c.sockets.length == 2 && c.sent.length == 5) = true := by
    decide +kernel
  obtain ⟨c, hc, hp⟩ := (Option.any_eq_true ..).mp h
  simp only [Bool.and_eq_true, beq_iff_eq] at hp
  have hf := framed_sockets (TcpSession.client (List.replicate 40 0) 0 true)
    (client_idle _ _ _ (by decide)) rfl _ c
    (guarded_of_guardedBy Client.step opensBetween_permits _ _ (by decide +kernel)) hc
  have ha : Client.accepted (Client.new (TcpSession.client (List.replicate 40 0) 0 true)) twoConnections
      = [Message.ofStr RPCMessage [7], Message.ofId 2] := by
    decide +kernel
  exact ⟨c, hc, hp.1, hp.2, ha ▸ hf.1, hf.2⟩

/-- The header of a message with 20 bytes `0xff` leaves on the first connection, its payload on the
second, where it is taken for the length `-1`. -/
theorem not_framed_sockets :
    ¬ ∀ (s : TcpSession) (es : List ClientEvent) (c : Client), Client.Idle s →
      s._writeBufferOffest = 0 → exec Client.step (Client.new s) es = some c →
      ∀ xs ∈ c.sockets ++ [c.sent], Framed xs := by
  intro h
  have hrun : (exec Client.step (Client.new (TcpSession.client (List.replicate 64 0) 0 true))
      [.connect ⟨false, .success⟩, .handleConnect .success, .logic .fine ⟨false, .success⟩,
        .writeMessage (Message.ofStr RPCMessage (List.replicate 20 255)),
        .handleWrite .success [.wrote 14], .handleRead .success (.failed (.other 104)),
        .logic .fine ⟨false, .success⟩, .handleWrite (.other 125) [], .handleConnect .success,
        .logic .fine ⟨false, .success⟩, .writeMessage (Message.ofId 2),
        .handleWrite .success [.wrote 64]]).any (fun c => decide (Malformed c.sent)) = true := by
    decide +kernel
  obtain ⟨c, hc, hm⟩ := (Option.any_eq_true ..).mp hrun
  exact not_framed_of_malformed (of_decide_eq_true hm)
    (h (TcpSession.client (List.replicate 64 0) 0 true) _ c (client_idle _ _ _ (by decide)) rfl hc
      c.sent (List.mem_append_right _ (List.mem_singleton.mpr rfl)))

end JMEngine.Net
