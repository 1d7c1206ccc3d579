import JMEngine.Net.Link

/-!
# Both directions of a connection

A session reads and writes on the same connection, and the two go on at the same time: a `Duplex` is
two sessions with a byte stream each way. Each direction is a `Link`; what a step of one direction does
to a session, the other direction does not see.

* `Link.step_sides`      a step changes the write buffer of the sender and the read buffer of the
                         receiver, and neither of them is connected less than before;
* `Duplex.step_inv`      every step in either direction keeps the invariant of both;
* `duplex_delivers`      **both directions deliver in order and exactly once, for every interleaving.**
-/

set_option linter.unusedSectionVars false

namespace JMEngine.Net
open Runs TcpSession

/-- `t` reads as `s` does -/
structure SameRead (s t : TcpSession) : Prop where
  status : t._status = s._status
  buff : t._buff = s._buff

/-- `t` writes as `s` does -/
structure SameSend (s t : TcpSession) : Prop where
  status : t._status = s._status
  socket : t._socket = s._socket
  buffer : t._writeBuffer = s._writeBuffer
  size : t._writeBufferSize = s._writeBufferSize
  offest : t._writeBufferOffest = s._writeBufferOffest

theorem SameRead.refl (s : TcpSession) : SameRead s s := ⟨rfl, rfl⟩

theorem SameSend.refl (s : TcpSession) : SameSend s s := ⟨rfl, rfl, rfl, rfl, rfl⟩

theorem sameRead_of_readSide {s t : TcpSession} (h : t.readSide = s.readSide) : SameRead s t :=
  ⟨readSide_field h _status rfl rfl, readSide_field h _buff rfl rfl⟩

namespace Link

theorem Inv.congr {n : Nat} {s : Link} (h : Inv n s) {tx rx : TcpSession} (ht : SameSend s.tx tx)
    (hr : SameRead s.rx rx) : Inv n { s with tx := tx, rx := rx } where
  fault := h.fault
  txStatus := ht.status.trans h.txStatus
  txSocket := ht.socket.trans h.txSocket
  rxStatus := hr.status.trans h.rxStatus
  write := h.write.congr ht.buffer ht.size ht.offest
  sound := h.sound
  tracks := hr.buff ▸ h.tracks
  bytes := by
    show s.received ++ (s.stream ++ tx.queued) = _
    rw [queued_congr ht.buffer ht.offest]
    exact h.bytes
  posted := h.posted

theorem step_sides {n : Nat} {s s' : Link} {e : LinkEvent} (h : Inv n s) (hb : Bounded s e)
    (hs : step s e = some s') : SameRead s.tx s'.tx ∧ SameSend s.rx s'.rx := by
  have h' := step_inv n s e s' h hb hs
  unfold step at hs
  rw [if_pos h.enabled] at hs
  cases e with
  | writeMessage m =>
    by_cases hm : m.Sound
    swap
    · simp only [if_neg hm] at hs
      cases hs
    simp only [if_pos hm] at hs
    split at hs
    · cases hs
      exact ⟨SameRead.refl _, SameSend.refl _⟩
    · next r tx es hw =>
      cases hs
      exact ⟨sameRead_of_readSide (writeMessage_readSide hw), SameSend.refl _⟩
  | handleWrite ws =>
    dsimp only at hs
    split at hs
    · cases hs
      exact ⟨SameRead.refl _, SameSend.refl _⟩
    · next tx sent es hw =>
      cases hs
      exact ⟨sameRead_of_readSide (handleWrite_readSide hw), SameSend.refl _⟩
  | handleRead len =>
    by_cases hl : len ≤ s.stream.length ∧ len ≤ s.rx._buff.getAvailableBufferSize
    swap
    · simp only [if_neg hl] at hs
      cases hs
    simp only [if_pos hl] at hs
    split at hs
    · cases hs
      exact ⟨SameRead.refl _, SameSend.refl _⟩
    · next rx es hr =>
      cases hs
      refine ⟨SameRead.refl _, ?_⟩
      have hst : rx._status = s.rx._status := h'.rxStatus.trans h.rxStatus.symm
      cases handleRead_cases hr with
      | ends k e => exact ⟨hst, rfl, rfl, rfl, rfl⟩
      | goesOn k again => exact ⟨hst, rfl, rfl, rfl, rfl⟩

end Link

structure Channel where
  stream : List UInt8
  received : List UInt8
  written : List Message
  posted : List Message
  fault : Bool
  deriving DecidableEq, Repr

def Channel.start : Channel := ⟨[], [], [], [], false⟩

def Channel.link (c : Channel) (tx rx : TcpSession) : Link :=
  ⟨tx, c.stream, rx, c.received, c.written, c.posted, c.fault⟩

def Link.channel (l : Link) : Channel := ⟨l.stream, l.received, l.written, l.posted, l.fault⟩

structure Duplex where
  left : TcpSession
  right : TcpSession
  up : Channel
  down : Channel
  deriving DecidableEq, Repr

inductive Direction where
  | up
  | down
  deriving DecidableEq, Repr

namespace Duplex

def start (left right : TcpSession) : Duplex := ⟨left, right, .start, .start⟩

def upLink (d : Duplex) : Link := d.up.link d.left d.right

def downLink (d : Duplex) : Link := d.down.link d.right d.left

def step (d : Duplex) : Direction × LinkEvent → Option Duplex
  | (.up, e) => (d.upLink.step e).map fun l => ⟨l.tx, l.rx, l.channel, d.down⟩
  | (.down, e) => (d.downLink.step e).map fun l => ⟨l.rx, l.tx, d.up, l.channel⟩

def Bounded (d : Duplex) : Direction × LinkEvent → Prop
  | (.up, e) => d.upLink.Bounded e
  | (.down, e) => d.downLink.Bounded e

structure Inv (d : Duplex) : Prop where
  up : ∃ n, d.upLink.Inv n
  down : ∃ n, d.downLink.Inv n

theorem start_inv {left right : TcpSession} (hl : Link.Fresh left) (hr : Link.Fresh right) :
    Inv (start left right) :=
  ⟨⟨_, Link.start_inv hl hr⟩, ⟨_, Link.start_inv hr hl⟩⟩

theorem step_inv (d : Duplex) (e : Direction × LinkEvent) (d' : Duplex) (h : Inv d)
    (hb : Bounded d e) (hs : d.step e = some d') : Inv d' := by
  obtain ⟨⟨n, hu⟩, ⟨m, hd⟩⟩ := h
  obtain ⟨dir, e⟩ := e
  cases dir with
  | up =>
    obtain ⟨l, hl, rfl⟩ := Option.map_eq_some_iff.mp hs
    obtain ⟨ht, hr⟩ := Link.step_sides hu hb hl
    exact ⟨⟨n, Link.step_inv n _ e l hu hb hl⟩, ⟨m, hd.congr hr ht⟩⟩
  | down =>
    obtain ⟨l, hl, rfl⟩ := Option.map_eq_some_iff.mp hs
    obtain ⟨ht, hr⟩ := Link.step_sides hd hb hl
    exact ⟨⟨n, hu.congr hr ht⟩, ⟨m, Link.step_inv m _ e l hd hb hl⟩⟩

end Duplex

/-- **In-order, exactly-once framing in both directions at once.** Two sessions that both read and write
on one connection, with the steps of the two directions in any order. -/
theorem duplex_delivers (left right : TcpSession) (hl : Link.Fresh left) (hr : Link.Fresh right)
    (es : List (Direction × LinkEvent)) (d : Duplex)
    (hG : Guarded Duplex.step Duplex.Bounded (Duplex.start left right) es)
    (hd : exec Duplex.step (Duplex.start left right) es = some d) :
    (d.up.posted <+: d.up.written ∧
      (d.left._writeBufferOffest = 0 → d.up.stream = [] → d.up.posted = d.up.written)) ∧
    (d.down.posted <+: d.down.written ∧
      (d.right._writeBufferOffest = 0 → d.down.stream = [] → d.down.posted = d.down.written)) ∧
    d.left.isOk = true ∧ d.right.isOk = true ∧ d.up.fault = false ∧ d.down.fault = false := by
  obtain ⟨⟨n, hu⟩, ⟨m, hw⟩⟩ := exec_guarded Duplex.step Duplex.step_inv es _ d (Duplex.start_inv hl hr)
    hG hd
  exact ⟨⟨hu.posted_prefix, fun hq hs => hu.posted_all hs hq⟩,
    ⟨hw.posted_prefix, fun hq hs => hw.posted_all hs hq⟩,
    decide_eq_true hu.txStatus, decide_eq_true hu.rxStatus, hu.fault, hw.fault⟩

/-- one message each way, with the steps of the two directions between one another -/
def crossing : List (Direction × LinkEvent) :=
  [(.up, .writeMessage (Message.ofStr RPCMessage [7, 8])), (.down, .writeMessage (Message.ofId 2)),
    (.up, .handleWrite [.wrote 5]), (.down, .handleWrite [.wrote 100]), (.up, .handleRead 3),
    (.down, .handleRead 14), (.up, .handleWrite [.wrote 100]), (.up, .handleRead 13)]

theorem crossing_bounded (d : Duplex) : Guarded Duplex.step Duplex.Bounded d crossing := by
  refine guarded_of_mem Duplex.step crossing (fun e he d => ?_) d
  have hr : ∀ n len (xs : List UInt8), len ≤ 14 → BoundedRead n (xs.take len) := by
    intro n len xs hlen
    refine Or.inl ?_
    rw [List.length_take]
    omega
  simp only [crossing, List.mem_cons, List.not_mem_nil, or_false] at he
  rcases he with rfl | rfl | rfl | rfl | rfl | rfl | rfl | rfl
  all_goals first | exact trivial | exact hr _ _ _ (by decide)

theorem duplex_delivers_crossing :
    ∃ d, exec Duplex.step (Duplex.start (established (List.replicate 40 0))
        (established (List.replicate 20 0))) crossing = some d ∧
      d.up.posted = d.up.written ∧ d.down.posted = d.down.written ∧
      d.up.written.length = 1 ∧ d.down.written.length = 1 := by
  have h : (exec Duplex.step (Duplex.start (established (List.replicate 40 0))
      (established (List.replicate 20 0))) crossing).any (fun d =>
        d.up.written.length == 1 && d.down.written.length == 1 && d.left._writeBufferOffest == 0 &&
        d.right._writeBufferOffest == 0 && d.up.stream == [] && d.down.stream == []) = true := by
    decide +kernel
  obtain ⟨d, hd, hp⟩ := (Option.any_eq_true ..).mp h
  simp only [Bool.and_eq_true, beq_iff_eq] at hp
  obtain ⟨⟨⟨⟨⟨h1, h2⟩, h3⟩, h4⟩, h5⟩, h6⟩ := hp
  have hdel := duplex_delivers (established (List.replicate 40 0)) (established (List.replicate 20 0))
    (established_fresh _ (by decide)) (established_fresh _ (by decide)) crossing d
    (crossing_bounded _) hd
  exact ⟨d, hd, hdel.1.2 h3 h5, hdel.2.1.2 h4 h6, h1, h2⟩

end JMEngine.Net
