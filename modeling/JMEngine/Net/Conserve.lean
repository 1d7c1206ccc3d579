import JMEngine.Net.Settings

/-!
# The write buffer conserves bytes

One connection, seen from its write buffer: appends by `writeLock` and `writeMessage`, and completed
waits, each with the answers that `write_some` gives in it.

* `Sender.step`           one call; `appended` and `sent` are the bytes taken in and given out so far;
* `writeLock_accepts`     an append within the bounds, of any part of what `data_ptr` points to;
* `writeLock_refuses`     an append beyond them: it changes nothing, whether or not the `int` overflows;
* `bytes_conserved`       **what went out and what waits is what came in**, after every run.
-/

set_option linter.unusedSectionVars false

namespace JMEngine.Net
open Bytes Runs

namespace TcpSession

section
variable {s : TcpSession} (hs : s.WriteOk)
include hs

theorem writeImpl_take (data : List UInt8) {len : Int} (h0 : 0 ≤ len) (hl : len < 2147483648)
    (hd : len ≤ data.length) :
    s.writeImpl data len = s.writeImpl (data.take len.toNat) (data.take len.toNat).length := by
  have hn : (data.take len.toNat).length = len.toNat := by
    rw [List.length_take]
    omega
  have hlen : ((len.toNat : Nat) : Int) = len := by omega
  have hsize : sizeT len = len.toNat := sizeT_of_nonneg _ h0 (by omega)
  unfold writeImpl
  rw [hn, hlen, hsize, List.take_take, Nat.min_self]
  have hle : len.toNat ≤ data.length := by omega
  simp only [hle, Nat.le_refl]

variable (hok : s._status = .Connected) (hopen : s._socket = true)
include hok hopen

theorem writeLock_eq (data : List UInt8) (len : Int) : s.writeLock data len = s.writeImpl data len := by
  have h1 : s.isOk = true := decide_eq_true hok
  unfold writeLock
  rw [h1, hopen]
  rfl

theorem writeLock_accepts {mem : List UInt8} (hm : s._writeBuffer = some mem) (data : List UInt8)
    {len : Int} (h0 : 0 ≤ len) (hl : len < 2147483648) (hd : len ≤ data.length)
    (hfit : s.fits len = true) :
    ∃ t es, s.writeLock data len = some (t, es) ∧ Appends s t (data.take len.toNat) := by
  obtain ⟨h1, h2⟩ := (fits_iff hs h0 hl).mp hfit
  have hn : (data.take len.toNat).length = len.toNat := by
    rw [List.length_take]
    omega
  rw [writeLock_eq hs hok hopen, writeImpl_take hs data h0 hl hd]
  exact writeImpl_appends hs hm _ (by omega) (by omega)

omit hs hok hopen in
theorem writeLock_refuses (data : List UInt8) {len : Int} (hfit : s.fits len = false) :
    s.writeLock data len = some (s, []) := by
  unfold fits at hfit
  rw [Bool.not_eq_false', decide_eq_true_iff] at hfit
  unfold writeLock writeImpl
  split
  · rfl
  · split
    · rfl
    · exact if_pos hfit

end

end TcpSession

/-! ## one connection -/

structure Sender where
  session : TcpSession
  appended : List UInt8
  sent : List UInt8
  deriving DecidableEq, Repr

inductive AppendEvent where
  | writeLock (data : List UInt8) (len : Int)
  | writeMessage (m : Message)
  | handleWrite (error : ErrorCode) (ws : List WriteSome)
  deriving DecidableEq, Repr

/-- lengths are not negative, and `data_ptr` and `_msgData` point to as many bytes -/
def AppendEvent.Readable : AppendEvent → Prop
  | .writeLock data len => 0 ≤ len ∧ len < 2147483648 ∧ len ≤ data.length
  | .writeMessage m => m.Sound
  | .handleWrite _ _ => True

instance : DecidablePred AppendEvent.Readable
  | .writeLock _ _ => inferInstanceAs (Decidable (_ ∧ _ ∧ _))
  | .writeMessage m => inferInstanceAs (Decidable m.Sound)
  | .handleWrite _ _ => inferInstanceAs (Decidable True)

namespace Sender
open TcpSession

def new (s : TcpSession) : Sender := ⟨s, [], []⟩

/-- the bytes that a call of `writeLock` copies -/
def copied (s : TcpSession) (data : List UInt8) (len : Int) : List UInt8 :=
  if s.isOk && s._socket && s.fits len then data.take len.toNat else []

def step (w : Sender) : AppendEvent → Option Sender
  | .writeLock data len =>
    match w.session.writeLock data len with
    | none => none
    | some (t, _) => some ⟨t, w.appended ++ copied w.session data len, w.sent⟩
  | .writeMessage m =>
    match w.session.writeMessage m with
    | none => none
    | some (r, t, _) => some ⟨t, w.appended ++ (if r then m.wire else []), w.sent⟩
  | .handleWrite error ws =>
    match w.session.handleWrite error ws with
    | none => none
    | some (t, sent, _) => some ⟨t, w.appended, w.sent ++ sent⟩

/-- a connection that started with the session `s` -/
structure Inv (s : TcpSession) (w : Sender) : Prop where
  ok : w.session.WriteOk
  connected : w.session._status = .Connected
  socket : w.session._socket = true
  buffer : w.session._writeBuffer.isSome = true
  size : w.session._writeBufferSize = s._writeBufferSize
  bytes : w.sent ++ w.session.queued = s.queued ++ w.appended

section
variable {s : TcpSession} {w : Sender} (h : Inv s w)
include h

theorem Inv.next {t : TcpSession} {appended sent : List UInt8} (hok : t.WriteOk)
    (hrest : t.readSide = w.session.readSide) (hbuf : t._writeBuffer.isSome = true)
    (hbytes : sent ++ t.queued = s.queued ++ appended) : Inv s ⟨t, appended, sent⟩ :=
  ⟨hok, (readSide_field hrest _status rfl rfl).trans h.connected,
    (readSide_field hrest _socket rfl rfl).trans h.socket, hbuf,
    (readSide_field hrest _writeBufferSize rfl rfl).trans h.size, hbytes⟩

theorem Inv.allocated {t : TcpSession} (ht : t.settings = w.session.settings) :
    t._writeBuffer.isSome = true := by
  have e : (t._writeBuffer.map List.length).isSome = (w.session._writeBuffer.map List.length).isSome :=
    congrArg (fun x => x.1.isSome) ht
  rw [Option.isSome_map, Option.isSome_map] at e
  exact e.trans h.buffer

theorem Inv.isOk : w.session.isOk = true := decide_eq_true h.connected

theorem Inv.writeLock (data : List UInt8) (len : Int) (hr : (AppendEvent.writeLock data len).Readable) :
    ∃ w', w.step (.writeLock data len) = some w' ∧ Inv s w' := by
  obtain ⟨h0, hl, hd⟩ := hr
  have hcopied : copied w.session data len = if w.session.fits len then data.take len.toNat else [] := by
    unfold copied
    rw [h.isOk, h.socket]
    rfl
  dsimp only [step]
  rw [hcopied]
  cases hfit : w.session.fits len with
  | false =>
    rw [writeLock_refuses data hfit]
    refine ⟨_, rfl, h.next h.ok rfl h.buffer ?_⟩
    rw [h.bytes]
    simp
  | true =>
    obtain ⟨mem, hm⟩ := Option.isSome_iff_exists.mp h.buffer
    obtain ⟨t, es, hw, ha⟩ := writeLock_accepts h.ok h.connected h.socket hm data h0 hl hd hfit
    rw [hw]
    refine ⟨_, rfl, h.next ha.ok ha.rest (ha.buffer.trans h.buffer) ?_⟩
    rw [ha.queued, ← List.append_assoc, h.bytes, List.append_assoc]
    rfl

theorem Inv.writeMessage (m : Message) (hm : m.Sound) :
    ∃ w', w.step (.writeMessage m) = some w' ∧ Inv s w' := by
  obtain ⟨r, t, es, hw, hq, _⟩ := writeMessage_spec h.ok (fun _ => h.socket) hm
  dsimp only [step]
  rw [hw]
  refine ⟨_, rfl, h.next hq.ok hq.rest (h.allocated (settings_writeMessage hw)) ?_⟩
  rw [hq.queued, ← List.append_assoc, h.bytes, List.append_assoc]

theorem Inv.handleWrite (error : ErrorCode) (ws : List WriteSome) :
    ∃ w', w.step (.handleWrite error ws) = some w' ∧ Inv s w' := by
  obtain ⟨t, sent, es, hw, hs⟩ := handleWrite_spec h.ok error ws
  dsimp only [step]
  rw [hw]
  refine ⟨_, rfl, h.next hs.ok hs.rest (h.allocated (settings_handleWrite hw)) ?_⟩
  rw [List.append_assoc, ← hs.queued, h.bytes]

theorem Inv.step (e : AppendEvent) (he : e.Readable) : ∃ w', w.step e = some w' ∧ Inv s w' := by
  cases e with
  | writeLock data len => exact h.writeLock data len he
  | writeMessage m => exact h.writeMessage m he
  | handleWrite error ws => exact h.handleWrite error ws

theorem Inv.refuses (data : List UInt8) {len : Int} (h0 : 0 ≤ len) (hl : len < 2147483648)
    (hover : w.session._writeBufferSize < w.session._writeBufferOffest + len) :
    w.session.writeLock data len = some (w.session, []) := by
  refine writeLock_refuses data ?_
  cases hfit : w.session.fits len with
  | false => rfl
  | true =>
    have := (fits_iff h.ok h0 hl).mp hfit
    omega

theorem Inv.refusesMessage {m : Message} (hm : m.Sound)
    (hover : w.session._writeBufferSize < w.session._writeBufferOffest + m.wire.length) :
    ∃ t es, w.session.writeMessage m = some (false, t, es) ∧ SameWrite w.session t := by
  obtain ⟨r, t, es, hw, _, hiff⟩ := writeMessage_spec h.ok (fun _ => h.socket) hm
  have hr : r = false := by
    cases r with
    | false => rfl
    | true =>
      have := (hiff.mp rfl).2.2.1
      omega
  subst hr
  refine ⟨t, es, hw, ?_⟩
  cases writeMessage_cases hw with
  | refused => exact SameWrite.refl _
  | full => exact postWriteNull_same _

end

theorem new_inv {s : TcpSession} (hs : s.WriteOk) (hok : s._status = .Connected)
    (hopen : s._socket = true) (hbuf : s._writeBuffer.isSome = true) : Inv s (new s) :=
  ⟨hs, hok, hopen, hbuf, rfl, (List.append_nil _).symm⟩

/-- **The write buffer conserves bytes.**  No call of a run is undefined; after it the bytes that
`write_some` took, followed by the first `_writeBufferOffest` bytes of the buffer, are what waited at the
start and then everything that was appended; and an append beyond the end changes nothing. -/
theorem bytes_conserved (s : TcpSession) (hs : s.WriteOk) (hok : s._status = .Connected)
    (hopen : s._socket = true) (hbuf : s._writeBuffer.isSome = true) (es : List AppendEvent)
    (hes : ∀ e ∈ es, e.Readable) :
    ∃ w, exec step (new s) es = some w ∧
      w.sent ++ w.session.queued = s.queued ++ w.appended ∧
      w.session._writeBufferOffest ≤ w.session._writeBufferSize ∧
      w.session._writeBufferSize = s._writeBufferSize ∧
      (∀ (data : List UInt8) (len : Int), 0 ≤ len → len < 2147483648 →
        w.session._writeBufferSize < w.session._writeBufferOffest + len →
        w.session.writeLock data len = some (w.session, [])) ∧
      (∀ m : Message, m.Sound →
        w.session._writeBufferSize < w.session._writeBufferOffest + m.wire.length →
        ∃ t fs, w.session.writeMessage m = some (false, t, fs) ∧ SameWrite w.session t) := by
  obtain ⟨w, hw, h⟩ := exec_total step (fun _ e hI he => Inv.step hI e he) es hes (new s)
    (new_inv hs hok hopen hbuf)
  exact ⟨w, hw, h.bytes, h.ok.le, h.size, fun data len h0 hl hover => h.refuses data h0 hl hover,
    fun m hm hover => h.refusesMessage hm hover⟩

/-- eight bytes of buffer: an append, a partial write, an append that fits and one that does not -/
theorem bytes_conserved_eight :
    ∃ w, exec step (new (established (List.replicate 8 0)))
        [.writeLock [1, 2, 3, 4, 5, 6] 5, .handleWrite .success [.wrote 2], .writeLock [7, 8, 9] 3,
          .writeLock [7, 8, 9] 3] = some w ∧
      w.sent ++ w.session.queued = (established (List.replicate 8 0)).queued ++ w.appended ∧
      w.session._writeBufferOffest ≤ w.session._writeBufferSize ∧
      w.session._writeBufferSize = (established (List.replicate 8 0))._writeBufferSize :=
  let ⟨w, h1, h2, h3, h4, _⟩ := bytes_conserved (established (List.replicate 8 0))
    (established_writeOk _ (by decide)) rfl rfl rfl
    [.writeLock [1, 2, 3, 4, 5, 6] 5, .handleWrite .success [.wrote 2], .writeLock [7, 8, 9] 3,
      .writeLock [7, 8, 9] 3] (by decide)
  ⟨w, h1, h2, h3, h4⟩

end Sender

end JMEngine.Net
