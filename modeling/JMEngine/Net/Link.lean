import JMEngine.Net.HandleRead
import JMEngine.Net.WriteBuffer

/-!
# Two sessions and the byte stream between them

`Link` is a sending session, a FIFO stream and a receiving session, both `Connected`.  The cut points
of the writer (`write_some`), of the network and of the reader (`read_some`) are independent.

* `Link.Inv`            what was read, what is under way and what waits are together the frames of
                        the messages that `writeMessage` accepted;
* `delivers_written`    the messages posted are a prefix of the messages accepted, and all of them
                        once nothing is under way;
* `not_delivers_written`  the same without a bound on the size of a read fails.
-/

set_option linter.unusedSectionVars false

namespace JMEngine.Net
open Bytes Framing Runs TcpSession

/-- `received`, `written` and `posted` are histories: the bytes read from the stream, the messages
for which `writeMessage` returned `true`, and those posted to `sessionReceiveMessage`; `fault` says
that the behaviour of one of the two sides is no longer defined. -/
structure Link where
  tx : TcpSession
  stream : List UInt8
  rx : TcpSession
  received : List UInt8
  written : List Message
  posted : List Message
  fault : Bool
  deriving DecidableEq, Repr

inductive LinkEvent where
  | writeMessage (m : Message)
  | handleWrite (ws : List WriteSome)
  /-- `read_some` returns `len` bytes -/
  | handleRead (len : Nat)
  deriving DecidableEq, Repr

namespace Link

def start (tx rx : TcpSession) : Link := ⟨tx, [], rx, [], [], [], false⟩

def step (s : Link) (e : LinkEvent) : Option Link :=
  if s.tx.isOk && s.rx.isOk && !s.fault then
    match e with
    | .writeMessage m =>
      if m.Sound then
        match s.tx.writeMessage m with
        | none => some { s with fault := true }
        | some (r, tx, _) =>
          some { s with tx := tx, written := if r then s.written ++ [m] else s.written }
      else none
    | .handleWrite ws =>
      match s.tx.handleWrite .success ws with
      | none => some { s with fault := true }
      | some (tx, sent, _) => some { s with tx := tx, stream := s.stream ++ sent }
    | .handleRead len =>
      if len ≤ s.stream.length ∧ len ≤ s.rx._buff.getAvailableBufferSize then
        match s.rx.handleRead .success (.got (s.stream.take len)) with
        | none => some { s with fault := true }
        | some (rx, es) => some { s with
            rx := rx
            stream := s.stream.drop len
            received := s.received ++ s.stream.take len
            posted := s.posted ++ messagesOf es }
      else none
  else none

/-- a session on an open connection, with both buffers empty -/
structure Fresh (s : TcpSession) : Prop where
  status : s._status = .Connected
  socket : s._socket = true
  write : s.WriteOk
  empty : s._writeBufferOffest = 0
  read : Tracks s._buff._buffSize [] s._buff

def Bounded (s : Link) : LinkEvent → Prop
  | .handleRead len => BoundedRead s.rx._buff._buffSize (s.stream.take len)
  | _ => True

structure Inv (n : Nat) (s : Link) : Prop where
  fault : s.fault = false
  txStatus : s.tx._status = .Connected
  txSocket : s.tx._socket = true
  rxStatus : s.rx._status = .Connected
  write : s.tx.WriteOk
  sound : ∀ m ∈ s.written, m.Sound
  tracks : Tracks n s.received s.rx._buff
  bytes : s.received ++ (s.stream ++ s.tx.queued) = (s.written.map Message.wire).flatten
  posted : s.posted = (wireFramer.frames s.received).map fun f => Message.create f f.length

theorem start_inv {tx rx : TcpSession} (ht : Fresh tx) (hr : Fresh rx) :
    Inv rx._buff._buffSize (start tx rx) := by
  refine ⟨rfl, ht.status, ht.socket, hr.status, ht.write, ?_, hr.read, ?_, rfl⟩
  · intro m hm
    cases hm
  · show [] ++ ([] ++ tx.queued) = []
    rw [queued_of_none ht.empty]
    rfl

section
variable {n : Nat} {s : Link} (h : Inv n s)
include h

theorem Inv.enabled :
    (s.tx.isOk && s.rx.isOk && !s.fault) = true := by
  have h1 : s.tx.isOk = true := decide_eq_true h.txStatus
  have h2 : s.rx.isOk = true := decide_eq_true h.rxStatus
  rw [h1, h2, h.fault]
  rfl

theorem Inv.whole : ∀ f ∈ s.written.map Message.wire, wireFramer.Whole f := by
  intro f hf
  obtain ⟨m, hm, rfl⟩ := List.mem_map.mp hf
  exact wire_whole (h.sound m hm)

theorem Inv.copies : (s.written.map Message.wire).map (fun f => Message.create f f.length)
    = s.written := by
  rw [List.map_map]
  conv_rhs => rw [← List.map_id s.written]
  apply List.map_congr_left
  intro m hm
  exact Message.create_self (h.sound m hm)

theorem Inv.posted_prefix : s.posted <+: s.written := by
  have hp := (wireFramer.frames_part _ h.whole s.received _ h.bytes).1
  rw [h.posted, ← h.copies]
  exact hp.map _

theorem Inv.posted_all (hs : s.stream = []) (hq : s.tx._writeBufferOffest = 0) :
    s.posted = s.written := by
  have hp := (wireFramer.frames_part _ h.whole s.received _ h.bytes).2.2
  rw [h.posted, hp, h.copies]
  rw [hs, queued_of_none hq]
  rfl

theorem Inv.not_malformed (len : Nat) :
    ¬ Malformed (wireFramer.rest (s.received ++ s.stream.take len)) := by
  have hb : (s.received ++ s.stream.take len) ++ (s.stream.drop len ++ s.tx.queued)
      = (s.written.map Message.wire).flatten := by
    rw [← h.bytes, List.append_assoc, ← List.append_assoc (s.stream.take len), List.take_append_drop]
  have hm := (wireFramer.frames_part _ h.whole _ _ hb).2.1
  intro hbad
  have : wireFramer.scan (wireFramer.rest (s.received ++ s.stream.take len)) = .bad :=
    scanFrame_bad.mpr hbad
  rw [hm] at this
  cases this

theorem Inv.writeMessage {m : Message} (hm : m.Sound) :
    ∃ r tx es, s.tx.writeMessage m = some (r, tx, es) ∧
      Inv n { s with tx := tx, written := if r then s.written ++ [m] else s.written } := by
  obtain ⟨r, tx, es, hw, hq, _⟩ := writeMessage_spec h.write (fun _ => h.txSocket) hm
  have hst : tx._status = s.tx._status := readSide_field hq.rest _status rfl rfl
  have hso : tx._socket = s.tx._socket := readSide_field hq.rest _socket rfl rfl
  refine ⟨r, tx, es, hw, h.fault, hst.trans h.txStatus, hso.trans h.txSocket, h.rxStatus, hq.ok, ?_,
    h.tracks, ?_, h.posted⟩
  · intro m' hm'
    cases r with
    | false => exact h.sound m' hm'
    | true =>
      rcases List.mem_append.mp hm' with h1 | h1
      · exact h.sound m' h1
      · rw [List.mem_singleton.mp h1]
        exact hm
  · show s.received ++ (s.stream ++ tx.queued) = _
    rw [hq.queued, ← List.append_assoc s.stream, ← List.append_assoc, h.bytes]
    cases r with
    | false => exact List.append_nil _
    | true =>
      show _ = ((s.written ++ [m]).map Message.wire).flatten
      rw [List.map_append, List.flatten_append]
      simp

theorem Inv.handleWrite (ws : List WriteSome) :
    ∃ tx sent es, s.tx.handleWrite .success ws = some (tx, sent, es) ∧
      Inv n { s with tx := tx, stream := s.stream ++ sent } := by
  obtain ⟨tx, sent, es, hw, hq⟩ := handleWrite_spec h.write .success ws
  have hst : tx._status = s.tx._status := readSide_field hq.rest _status rfl rfl
  have hso : tx._socket = s.tx._socket := readSide_field hq.rest _socket rfl rfl
  refine ⟨tx, sent, es, hw, h.fault, hst.trans h.txStatus, hso.trans h.txSocket, h.rxStatus, hq.ok,
    h.sound, h.tracks, ?_, h.posted⟩
  show s.received ++ ((s.stream ++ sent) ++ tx.queued) = _
  rw [List.append_assoc, ← hq.queued]
  exact h.bytes

theorem Inv.handleRead (len : Nat) (hl : len ≤ s.stream.length)
    (ha : len ≤ s.rx._buff.getAvailableBufferSize) (hb : BoundedRead n (s.stream.take len)) :
    ∃ rx es, s.rx.handleRead .success (.got (s.stream.take len)) = some (rx, es) ∧
      Inv n { s with
        rx := rx, stream := s.stream.drop len, received := s.received ++ s.stream.take len,
        posted := s.posted ++ messagesOf es } := by
  obtain ⟨h1, h2, h3⟩ := h.tracks.read (s.stream.take len) (by rw [List.length_take]; omega) hb
  rw [if_neg (h.not_malformed len)] at h3
  have hst := postReadNull_field { s.rx with
    _reading := false, _buff := (readAndDrain s.rx._buff (s.stream.take len)).buff,
    _readBlockTimes := 1 } _status (fun _ => rfl)
  have hbf := postReadNull_field { s.rx with
    _reading := false, _buff := (readAndDrain s.rx._buff (s.stream.take len)).buff,
    _readBlockTimes := 1 } _buff (fun _ => rfl)
  refine ⟨_, _, handleRead_noMessage h3, h.fault, h.txStatus, h.txSocket, hst.trans h.rxStatus,
    h.write, h.sound, hbf ▸ h1, ?_, ?_⟩
  · show (s.received ++ s.stream.take len) ++ (s.stream.drop len ++ s.tx.queued) = _
    rw [List.append_assoc, ← List.append_assoc (s.stream.take len), List.take_append_drop]
    exact h.bytes
  · show s.posted ++ messagesOf _ = (wireFramer.frames (s.received ++ s.stream.take len)).map _
    rw [messagesOf_append, messagesOf_receivePosts, messagesOf_postReadNull, List.append_nil, ← h2,
      List.map_append, h.posted]

end

theorem step_inv (n : Nat) (s : Link) (e : LinkEvent) (s' : Link) (h : Inv n s) (hb : Bounded s e)
    (hs : step s e = some s') : Inv n s' := by
  unfold step at hs
  rw [if_pos h.enabled] at hs
  cases e with
  | writeMessage m =>
    by_cases hm : m.Sound
    · obtain ⟨r, tx, es, hw, hI⟩ := h.writeMessage hm
      simp only [if_pos hm, hw] at hs
      exact Option.some.inj hs ▸ hI
    · simp only [if_neg hm] at hs
      cases hs
  | handleWrite ws =>
    obtain ⟨tx, sent, es, hw, hI⟩ := h.handleWrite ws
    simp only [hw] at hs
    exact Option.some.inj hs ▸ hI
  | handleRead len =>
    by_cases hl : len ≤ s.stream.length ∧ len ≤ s.rx._buff.getAvailableBufferSize
    · have hb' : BoundedRead n (s.stream.take len) := by
        rw [← h.tracks.size]
        exact hb
      obtain ⟨rx, es, hr, hI⟩ := h.handleRead len hl.1 hl.2 hb'
      simp only [if_pos hl, hr] at hs
      exact Option.some.inj hs ▸ hI
    · simp only [if_neg hl] at hs
      cases hs

end Link

/-- **In-order, exactly-once framing over one connection.**  In every state of every run whose reads
are bounded, both sides are still connected, the messages posted are a prefix of the messages that
`writeMessage` accepted, and they are all of them when the write buffer and the stream are empty. -/
theorem delivers_written (tx rx : TcpSession) (ht : Link.Fresh tx) (hr : Link.Fresh rx)
    (es : List LinkEvent) (s : Link) (hG : Guarded Link.step Link.Bounded (Link.start tx rx) es)
    (hs : exec Link.step (Link.start tx rx) es = some s) :
    s.posted <+: s.written ∧
      (s.tx._writeBufferOffest = 0 → s.stream = [] → s.posted = s.written) ∧
      s.fault = false ∧ s.tx.isOk = true ∧ s.rx.isOk = true := by
  have hI := exec_guarded Link.step (Link.step_inv rx._buff._buffSize) es _ s (Link.start_inv ht hr)
    hG hs
  exact ⟨hI.posted_prefix, fun hq he => hI.posted_all he hq, hI.fault, decide_eq_true hI.txStatus,
    decide_eq_true hI.rxStatus⟩

theorem established_fresh (mem : List UInt8) (h : mem.length < 9223372036854775808) :
    Link.Fresh (established mem) :=
  ⟨rfl, rfl, established_writeOk mem h, rfl, Tracks.new mem h⟩

/-- two messages of 16 and 14 bytes; the first leaves in two parts and is read in three -/
theorem delivers_written_two_messages :
    ∃ s, exec Link.step
        (Link.start (established (List.replicate 40 0)) (established (List.replicate 20 0)))
        [.writeMessage (Message.ofStr RPCMessage [7, 8]), .handleWrite [.wrote 5], .handleRead 3,
          .writeMessage (Message.ofId 2), .handleWrite [.wrote 6, .wrote 100], .handleRead 9,
          .handleRead 4, .handleRead 14] = some s ∧
      s.written.length = 2 ∧ s.posted = s.written := by
  have h : (exec Link.step
      (Link.start (established (List.replicate 40 0)) (established (List.replicate 20 0)))
      [.writeMessage (Message.ofStr RPCMessage [7, 8]), .handleWrite [.wrote 5], .handleRead 3,
        .writeMessage (Message.ofId 2), .handleWrite [.wrote 6, .wrote 100], .handleRead 9,
        .handleRead 4, .handleRead 14]).any
      (fun s => s.written.length == 2 && s.tx._writeBufferOffest == 0 && s.stream == []) = true := by
    decide +kernel
  obtain ⟨s, hs, hp⟩ := (Option.any_eq_true ..).mp h
  simp only [Bool.and_eq_true, beq_iff_eq] at hp
  have hG : Guarded Link.step Link.Bounded
      (Link.start (established (List.replicate 40 0)) (established (List.replicate 20 0)))
      [.writeMessage (Message.ofStr RPCMessage [7, 8]), .handleWrite [.wrote 5], .handleRead 3,
        .writeMessage (Message.ofId 2), .handleWrite [.wrote 6, .wrote 100], .handleRead 9,
        .handleRead 4, .handleRead 14] := by
    refine ⟨trivial, fun _ _ => ⟨trivial, fun _ _ => ⟨Or.inl ?_, fun _ _ => ⟨trivial, fun _ _ =>
      ⟨trivial, fun _ _ => ⟨Or.inl ?_, fun _ _ => ⟨Or.inl ?_, fun _ _ => ⟨Or.inl ?_, fun _ _ =>
      trivial⟩⟩⟩⟩⟩⟩⟩⟩
    all_goals
      rw [List.length_take]
      omega
  have hd := delivers_written (established (List.replicate 40 0)) (established (List.replicate 20 0))
    (established_fresh _ (by decide)) (established_fresh _ (by decide)) _ s hG hs
  exact ⟨s, hs, hp.1.1, hd.2.1 hp.1.2 hp.2⟩

/-! ## a read of more than `2^31` bytes -/

namespace Link

/-- `j` copies of `m` were accepted and sent, none was read -/
structure Under (n : Nat) (rx : TcpSession) (m : Message) (j : Nat) (s : Link) : Prop where
  inv : Inv n s
  empty : s.tx._writeBufferOffest = 0
  buffer : s.tx._writeBuffer.isSome = true
  room : m.wire.length ≤ s.tx._writeBufferSize
  stream : s.stream = (List.replicate j m.wire).flatten
  written : s.written = List.replicate j m
  side : s.rx = rx
  posted : s.posted = []

theorem Under.next {n : Nat} {rx : TcpSession} {m : Message} {j : Nat} {s : Link}
    (h : Under n rx m j s) (hm : m.Sound) :
    ∃ s', exec step s [.writeMessage m, .handleWrite [.wrote m.wire.length]] = some s' ∧
      Under n rx m (j + 1) s' := by
  have hd := hm.data_lt
  have hlw := hm.length_wire
  obtain ⟨r, t, es, hw, hq, hr⟩ := writeMessage_spec h.inv.write (fun _ => h.inv.txSocket) hm
  have hroom := h.room
  have hemp := h.empty
  have hrt : r = true := hr.mpr ⟨h.inv.txStatus, h.buffer, by omega, by omega⟩
  rw [hrt] at hw hq
  have hq1 : t.queued = m.wire := by
    rw [hq.queued, queued_of_none h.empty]
    rfl
  have h1 : step s (.writeMessage m)
      = some { s with tx := t, written := s.written ++ [m] } := by
    unfold step
    rw [if_pos h.inv.enabled]
    simp only [if_pos hm, hw]
    rfl
  have hI1 := step_inv n s (.writeMessage m) _ h.inv trivial h1
  obtain ⟨t2, es2, hw2, he2, hb2, hs2⟩ := handleWrite_flush hI1.write m.wire.length
    (by rw [hq1]; omega) (by rw [hq1])
  have h2 : step { s with tx := t, written := s.written ++ [m] } (.handleWrite [.wrote m.wire.length])
      = some { s with tx := t2, written := s.written ++ [m], stream := s.stream ++ m.wire } := by
    unfold step
    rw [if_pos hI1.enabled]
    simp only [hw2, hq1]
  have hI2 := step_inv n _ (.handleWrite _) _ hI1 trivial h2
  have hsz : t2._writeBufferSize = s.tx._writeBufferSize :=
    readSide_field (hs2.trans hq.rest) _writeBufferSize rfl rfl
  refine ⟨_, (exec_cons step _ h1).trans (exec_cons step _ h2), hI2, he2, ?_, ?_, ?_, ?_, h.side,
    h.posted⟩
  · show t2._writeBuffer.isSome = true
    rw [hb2]
    cases hn : t._writeBuffer with
    | some mem => rfl
    | none =>
      rw [queued_of_none (hq.ok.null hn)] at hq1
      rw [← hq1] at hlw
      exact absurd hlw (by rw [List.length_nil]; omega)
  · show m.wire.length ≤ t2._writeBufferSize
    rw [hsz]
    exact h.room
  · show s.stream ++ m.wire = _
    rw [h.stream, List.replicate_succ', List.flatten_append]
    simp
  · show s.written ++ [m] = _
    rw [h.written, List.replicate_succ']

theorem Under.run {n : Nat} {rx : TcpSession} {m : Message} {s : Link} (h : Under n rx m 0 s)
    (hm : m.Sound) (j : Nat) : ∃ es s', exec step s es = some s' ∧ Under n rx m j s' := by
  induction j with
  | zero => exact ⟨[], s, rfl, h⟩
  | succ j ih =>
    obtain ⟨es, s1, h1, h2⟩ := ih
    obtain ⟨s2, h3, h4⟩ := h2.next hm
    exact ⟨_, s2, (exec_append step _ h1).trans h3, h4⟩

theorem start_under {tx rx : TcpSession} (ht : Fresh tx) (hr : Fresh rx) (m : Message)
    (hb : tx._writeBuffer.isSome = true) (hl : m.wire.length ≤ tx._writeBufferSize) :
    Under rx._buff._buffSize rx m 0 (start tx rx) :=
  ⟨start_inv ht hr, ht.empty, hb, hl, rfl, rfl, rfl, rfl⟩

theorem Under.nine {rx : TcpSession} {m : Message} {s : Link} (hm : m.Sound)
    (hl : m.wire.length = 1073741824) (h : Under 9663676416 rx m 9 s)
    (hr : rx._buff = ReadBuffer.new rx._buff._buffer) :
    ∃ s', exec step s [.handleRead 9663676416] = some s' ∧ s'.fault = false ∧ s'.stream = [] ∧
      s'.tx._writeBufferOffest = 0 ∧ s'.written.length = 9 ∧ s'.posted.length = 5 := by
  have hlen : s.stream.length = 9663676416 := by rw [h.stream, length_nine hl]
  have htake : s.stream.take 9663676416 = (List.replicate 9 m.wire).flatten := by
    rw [← hlen, List.take_length, h.stream]
  have ho : s.rx._buff._buffOffest = 0 := by rw [h.side, hr]; rfl
  have hh : s.rx._buff._handleOffest = 0 := by rw [h.side, hr]; rfl
  have hz := h.inv.tracks.size
  obtain ⟨hp, hx, _⟩ := posts_nine hm hl s.rx._buff h.inv.tracks.ok hz hh ho
  have ha : 9663676416 ≤ s.rx._buff.getAvailableBufferSize := by
    unfold ReadBuffer.getAvailableBufferSize
    omega
  rw [← htake] at hx hp
  have h1 := handleRead_noMessage hx
  generalize hres : postReadNull _ = p at h1
  have hes : messagesOf p.2 = [] := by
    rw [← hres]
    exact messagesOf_postReadNull _
  have h2 : step s (.handleRead 9663676416) = some { s with
      rx := p.1, stream := s.stream.drop 9663676416,
      received := s.received ++ s.stream.take 9663676416,
      posted := s.posted ++ messagesOf
        (receivePosts (readAndDrain s.rx._buff (s.stream.take 9663676416)).posts ++ p.2) } := by
    unfold step
    rw [if_pos h.inv.enabled]
    simp only [if_pos (show 9663676416 ≤ s.stream.length ∧
      9663676416 ≤ s.rx._buff.getAvailableBufferSize from ⟨by omega, ha⟩), h1]
  refine ⟨_, exec_cons step [] h2, h.inv.fault, ?_, h.empty, ?_, ?_⟩
  · show s.stream.drop 9663676416 = []
    rw [← hlen, List.drop_length]
  · show s.written.length = 9
    rw [h.written, List.length_replicate]
  · show (s.posted ++ messagesOf _).length = 5
    rw [messagesOf_append, hes, messagesOf_receivePosts, hp, h.posted, List.append_nil,
      List.nil_append, List.length_map, List.length_replicate]

end Link

/-- Two sessions with buffers of `9 * 2^30` bytes: nine messages of `2^30` bytes are accepted and
sent, one read returns all of them, and five are posted. -/
theorem not_delivers_written :
    ¬ ∀ (tx rx : TcpSession) (es : List LinkEvent) (len : Nat) (s : Link), Link.Fresh tx →
      Link.Fresh rx →
      exec Link.step (Link.start tx rx) (es ++ [.handleRead len]) = some s → s.fault = false →
      s.posted <+: s.written ∧
        (s.tx._writeBufferOffest = 0 → s.stream = [] → s.posted = s.written) := by
  intro h
  obtain ⟨m, hm, hl⟩ := exists_bigMessage
  have hgen : ∀ mem : List UInt8, mem.length = 9663676416 → False := by
    intro mem hmem
    have hF := established_fresh mem (by omega)
    have hU := Link.start_under hF hF m rfl (by
      rw [hl]
      show 1073741824 ≤ mem.length
      omega)
    obtain ⟨es, s, hs, hU9⟩ := hU.run hm 9
    have hsz : (established mem)._buff._buffSize = 9663676416 := hmem
    rw [hsz] at hU9
    obtain ⟨s', hs', hf, h1, h2, h3, h4⟩ := hU9.nine hm hl rfl
    have he := (h _ _ es 9663676416 s' hF hF ((exec_append Link.step _ hs).trans hs') hf).2 h2 h1
    rw [he, h3] at h4
    exact absurd h4 (by decide)
  exact hgen (List.replicate 9663676416 0) List.length_replicate

end JMEngine.Net
