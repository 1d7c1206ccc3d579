import JMEngine.Net.Message
import JMEngine.Lib.Runs

/-!
# Messages out as datagrams (source/net/JME_UdpSession.cpp)

`writeMessage` copies header and payload behind what is staged already and hands the whole to
`async_send_to`; only the completion of a send empties the staging buffer.  `_isWriting` is tested and
cleared, and set nowhere.

* `UdpWriter`            the write side of a `UdpSession`; `none` is a copy outside the memory of the
                         buffer or of the message;
* `writeMessage_spec`    the next datagram is everything staged and then the frame;
* `UdpSend.step`         calls and completions in any order, with the call that every staged byte came
                         from;
* `oneEach_iff_clear`    **every message leaves as a datagram of its own exactly when each call finds
                         the buffer empty, and room for its frame.**
-/

set_option linter.unusedSectionVars false

namespace JMEngine.Net
open Bytes Runs

structure UdpWriter where
  _writeBuffer : List UInt8
  _writeBufferSize : Nat
  _writeBufferOffest : Nat
  _isWriting : Bool
  deriving DecidableEq, Repr

namespace UdpWriter

def new (mem : List UInt8) : UdpWriter := ⟨mem, mem.length, 0, false⟩

/-- `memcpy(_writeBuffer + _writeBufferOffest, data, len)` and `_writeBufferOffest += len` -/
def stage (s : UdpWriter) (data : List UInt8) (len : Nat) : Option UdpWriter :=
  if len ≤ data.length ∧ s._writeBufferOffest + len ≤ s._writeBuffer.length then
    some { s with
      _writeBuffer := patch s._writeBuffer s._writeBufferOffest (data.take len)
      _writeBufferOffest := s._writeBufferOffest + len }
  else none

/-- what `doWrite` hands to `async_send_to` -/
def doWrite (s : UdpWriter) : List UInt8 := slice s._writeBuffer 0 s._writeBufferOffest

/-- the session and, if a send is started, its datagram -/
def writeMessage (s : UdpWriter) (msg : Message) : Option (UdpWriter × Option (List UInt8)) :=
  if s._isWriting then some (s, none)
  else
    (s.stage msg.header MessageHeaderLength).bind fun s =>
      (s.stage msg._msgData msg.messageDataLen).map fun s => (s, some s.doWrite)

/-- the session behind `onWrite`, which posts the handler's `onWrite` -/
def onWrite (s : UdpWriter) : UdpWriter := { s with _isWriting := false, _writeBufferOffest := 0 }

structure Ok (n : Nat) (s : UdpWriter) : Prop where
  isWriting : s._isWriting = false
  length : s._writeBuffer.length = n
  size : s._writeBufferSize = n
  le : s._writeBufferOffest ≤ n

theorem new_ok (mem : List UInt8) : (new mem).Ok mem.length := ⟨rfl, rfl, rfl, Nat.zero_le _⟩

section
variable {n : Nat} {s : UdpWriter} (h : s.Ok n)
include h

theorem Ok.onWrite : s.onWrite.Ok n := ⟨rfl, h.length, h.size, Nat.zero_le _⟩

theorem stage_spec {data : List UInt8} {len : Nat} (hd : len ≤ data.length)
    (hn : s._writeBufferOffest + len ≤ n) :
    ∃ t, s.stage data len = some t ∧ t.Ok n ∧
      t._writeBufferOffest = s._writeBufferOffest + len ∧
      t.doWrite = s.doWrite ++ data.take len := by
  have hlen : (data.take len).length = len := by
    rw [List.length_take, Nat.min_eq_left hd]
  have hfit : s._writeBufferOffest + (data.take len).length ≤ s._writeBuffer.length := by
    rw [hlen, h.length]
    exact hn
  unfold stage
  rw [if_pos ⟨hd, h.length.symm ▸ hn⟩]
  refine ⟨_, rfl, ⟨h.isWriting, ?_, h.size, hn⟩, rfl, ?_⟩
  · exact (length_patch _ _ _ hfit).trans h.length
  · have e := slice_patch_end s._writeBuffer (data.take len) s._writeBufferOffest 0 (by omega)
      (Nat.zero_le _)
    rw [hlen, Nat.sub_zero, Nat.sub_zero] at e
    exact e

theorem stage_none {data : List UInt8} {len : Nat}
    (hn : ¬ (len ≤ data.length ∧ s._writeBufferOffest + len ≤ n)) : s.stage data len = none := by
  unfold stage
  rw [if_neg (by rw [h.length]; exact hn)]

/-- the frame can be copied: the message has its payload, and the buffer has room for both parts -/
def Fits (n : Nat) (s : UdpWriter) (m : Message) : Prop :=
  m.messageDataLen ≤ m._msgData.length ∧
    s._writeBufferOffest + MessageHeaderLength + m.messageDataLen ≤ n

/-- **The next datagram is what was staged and then the frame.** -/
theorem writeMessage_spec {m : Message} (hm : Fits n s m) :
    ∃ t, s.writeMessage m = some (t, some (s.doWrite ++ m.wire)) ∧ t.Ok n ∧
      t._writeBufferOffest = s._writeBufferOffest + MessageHeaderLength + m.messageDataLen := by
  obtain ⟨hd, hn⟩ := hm
  have hhead : m.header.take MessageHeaderLength = m.header := by
    rw [← m.length_header, List.take_length]
  obtain ⟨s1, e1, h1, o1, w1⟩ :=
    stage_spec h (Nat.le_of_eq m.length_header.symm) (Nat.le_trans (Nat.le_add_right _ _) hn)
  obtain ⟨s2, e2, h2, o2, w2⟩ := stage_spec h1 hd (by rw [o1]; exact hn)
  refine ⟨s2, ?_, h2, by rw [o2, o1]⟩
  unfold writeMessage
  rw [if_neg (by rw [h.isWriting]; exact Bool.false_ne_true), e1, Option.bind_some, e2,
    Option.map_some, w2, w1, hhead, List.append_assoc]
  rfl

theorem writeMessage_none {m : Message} (hm : ¬ Fits n s m) : s.writeMessage m = none := by
  unfold writeMessage
  rw [if_neg (by rw [h.isWriting]; exact Bool.false_ne_true)]
  by_cases hhead : s._writeBufferOffest + MessageHeaderLength ≤ n
  · obtain ⟨s1, e1, h1, o1, -⟩ := stage_spec h (Nat.le_of_eq m.length_header.symm) hhead
    rw [e1, Option.bind_some, stage_none h1 (by rw [o1]; exact hm), Option.map_none]
  · rw [stage_none h (fun hx => hhead hx.2), Option.bind_none]

end

end UdpWriter

/-- what was handed to `async_send_to` and, byte by byte, the calls it came from -/
structure Datagram where
  bytes : List UInt8
  origin : List Nat
  deriving DecidableEq, Repr

/-- the session, the calls that the staged bytes came from, the messages passed to `writeMessage`, the
datagrams and the number of sends under way; `overrun` when a copy has left its memory, which is the
end of what is defined -/
structure UdpSend where
  session : UdpWriter
  staged : List Nat
  passed : List Message
  sent : List Datagram
  sends : Nat
  overrun : Bool
  deriving DecidableEq, Repr

inductive SendEvent where
  | writeMessage (m : Message)
  /-- a send completes -/
  | onWrite
  deriving DecidableEq, Repr

namespace UdpSend

def new (mem : List UInt8) : UdpSend := ⟨.new mem, [], [], [], 0, false⟩

/-- the datagram of the call `w.passed.length`, which staged what is new in `s` -/
def send (w : UdpSend) (m : Message) (s : UdpWriter) (bytes : List UInt8) : UdpSend :=
  let staged := w.staged ++
    List.replicate (s._writeBufferOffest - w.session._writeBufferOffest) w.passed.length
  { w with
    session := s
    staged := staged
    passed := w.passed ++ [m]
    sent := w.sent ++ [⟨bytes, staged⟩]
    sends := w.sends + 1 }

def step (w : UdpSend) : SendEvent → Option UdpSend
  | .writeMessage m =>
    if w.overrun then none
    else
      match w.session.writeMessage m with
      | none => some { w with passed := w.passed ++ [m], overrun := true }
      | some (s, none) => some { w with session := s, passed := w.passed ++ [m] }
      | some (s, some bytes) => some (w.send m s bytes)
  | .onWrite =>
    if w.overrun ∨ w.sends = 0 then none
    else some { w with session := w.session.onWrite, staged := [], sends := w.sends - 1 }

/-- every datagram is the frame of one message, no message is in two of them, and what is staged fits
the buffer -/
structure OneEach (w : UdpSend) : Prop where
  defined : w.overrun = false
  frame : ∀ d ∈ w.sent, ∃ k m, w.passed[k]? = some m ∧ d.bytes = m.wire ∧ ∀ j ∈ d.origin, j = k
  once : w.sent.Pairwise fun d d' => ∀ k ∈ d.origin, k ∉ d'.origin
  room : w.session._writeBufferOffest ≤ w.session._writeBufferSize

/-- the call finds the buffer empty, and room for the whole frame -/
def Clear (w : UdpSend) : SendEvent → Prop
  | .writeMessage m => w.session._writeBufferOffest = 0 ∧
      UdpWriter.Fits w.session._writeBufferSize w.session m
  | .onWrite => True

instance (w : UdpSend) (e : SendEvent) : Decidable (w.Clear e) := by
  unfold Clear UdpWriter.Fits
  cases e <;> infer_instance

/-- what the steps keep as long as they are clear: what is staged went out with the last datagram -/
structure Inv (n : Nat) (w : UdpSend) : Prop where
  ok : w.session.Ok n
  one : w.OneEach
  length : w.staged.length = w.session._writeBufferOffest
  older : ∀ d ∈ w.sent, ∀ j ∈ d.origin, j < w.passed.length
  last : w.staged ≠ [] → ∃ d, w.sent.getLast? = some d ∧ d.origin = w.staged

theorem new_inv (mem : List UInt8) : (new mem).Inv mem.length where
  ok := UdpWriter.new_ok mem
  one := ⟨rfl, fun _ h => (nomatch h), List.Pairwise.nil, Nat.zero_le _⟩
  length := rfl
  older := fun _ h => nomatch h
  last := fun h => absurd rfl h

section
variable {n : Nat} {w w' : UdpSend} (hI : w.Inv n)
include hI

theorem Inv.onWrite (h : w.step .onWrite = some w') : w'.Inv n := by
  rw [step] at h
  split at h
  · cases h
  · cases h
    exact ⟨hI.ok.onWrite, ⟨hI.one.defined, hI.one.frame, hI.one.once, Nat.zero_le _⟩, rfl, hI.older,
      fun hne => absurd rfl hne⟩

theorem Inv.fits {m : Message} (hm : UdpWriter.Fits n w.session m)
    (h : w.step (.writeMessage m) = some w') : ∃ t, t.Ok n ∧
      t._writeBufferOffest =
        w.session._writeBufferOffest + (MessageHeaderLength + m.messageDataLen) ∧
      w' = { w with
        session := t
        staged := w.staged ++
          List.replicate (MessageHeaderLength + m.messageDataLen) w.passed.length
        passed := w.passed ++ [m]
        sent := w.sent ++ [⟨w.session.doWrite ++ m.wire, w.staged ++
          List.replicate (MessageHeaderLength + m.messageDataLen) w.passed.length⟩]
        sends := w.sends + 1 } := by
  obtain ⟨t, ht, hok, hoff⟩ := UdpWriter.writeMessage_spec hI.ok hm
  rw [Nat.add_assoc] at hoff
  refine ⟨t, hok, hoff, ?_⟩
  rw [step, hI.one.defined, if_neg Bool.false_ne_true, ht] at h
  rw [← Option.some.inj h]
  unfold send
  rw [hoff, Nat.add_sub_cancel_left]

theorem Inv.clear {m : Message} (hc : w.Clear (.writeMessage m))
    (h : w.step (.writeMessage m) = some w') : w'.Inv n := by
  obtain ⟨h0, hfits⟩ := hc
  rw [hI.ok.size] at hfits
  obtain ⟨t, hok, hoff, rfl⟩ := hI.fits hfits h
  have hstaged : w.staged = [] := List.length_eq_zero_iff.mp (hI.length.trans h0)
  have hempty : w.session.doWrite = [] := by
    unfold UdpWriter.doWrite
    rw [h0, slice_zero]
  rw [hstaged, hempty, List.nil_append, List.nil_append]
  have hown : ∀ j ∈ List.replicate (MessageHeaderLength + m.messageDataLen) w.passed.length,
      j = w.passed.length := fun j hj => List.eq_of_mem_replicate hj
  refine ⟨hok, ⟨hI.one.defined, fun d hd => ?_, ?_, ?_⟩, ?_, fun d hd j hj => ?_, fun _ => ?_⟩
  · rcases List.mem_append.mp hd with hd | hd
    · obtain ⟨k, m', hk, hb, ho⟩ := hI.one.frame d hd
      exact ⟨k, m', (List.getElem?_append_left (List.getElem?_eq_some_iff.mp hk).1).trans hk, hb, ho⟩
    · rw [List.mem_singleton.mp hd]
      exact ⟨w.passed.length, m, List.getElem?_concat_length, rfl, hown⟩
  · refine List.pairwise_append.mpr ⟨hI.one.once, List.pairwise_singleton _ _, ?_⟩
    intro d hd d' hd' k hk hk'
    rw [List.mem_singleton.mp hd'] at hk'
    have hlt := hI.older d hd k hk
    rw [hown k hk'] at hlt
    exact absurd hlt (Nat.lt_irrefl _)
  · show t._writeBufferOffest ≤ t._writeBufferSize
    rw [hok.size]
    exact hok.le
  · rw [List.length_replicate, hoff, h0, Nat.zero_add]
  · show j < (w.passed ++ [m]).length
    rw [List.length_append, List.length_singleton]
    rcases List.mem_append.mp hd with hd | hd
    · exact Nat.lt_succ_of_lt (hI.older d hd j hj)
    · rw [List.mem_singleton.mp hd] at hj
      exact Nat.lt_succ_of_le (Nat.le_of_eq (hown j hj))
  · exact ⟨_, List.getLast?_concat, rfl⟩

theorem Inv.not_clear {m : Message} (hc : ¬ w.Clear (.writeMessage m))
    (h : w.step (.writeMessage m) = some w') : ¬ w'.OneEach := by
  intro hone
  by_cases hfits : UdpWriter.Fits n w.session m
  · obtain ⟨t, -, -, rfl⟩ := hI.fits hfits h
    have hne : w.staged ≠ [] := fun hnil => by
      refine hc ⟨?_, hI.ok.size.symm ▸ hfits⟩
      rw [← hI.length, hnil]
      rfl
    obtain ⟨d, hd, ho⟩ := hI.last hne
    obtain ⟨k, hk⟩ := List.exists_mem_of_ne_nil _ hne
    have honce := (List.pairwise_append.mp hone.once).2.2 d (List.mem_of_getLast? hd) _
      (List.mem_singleton_self _) k (ho ▸ hk)
    exact honce (List.mem_append_left _ hk)
  · rw [step, hI.one.defined, if_neg Bool.false_ne_true, UdpWriter.writeMessage_none hI.ok hfits] at h
    have hdef := hone.defined
    rw [← Option.some.inj h] at hdef
    cases hdef

end

end UdpSend

/-- **Every message leaves as a datagram of its own exactly when** each call finds the staging buffer
empty and room for its frame, over every buffer and every order of calls and completions. -/
theorem oneEach_iff_clear (mem : List UInt8) (es : List SendEvent) (w : UdpSend)
    (h : exec UdpSend.step (.new mem) es = some w) :
    Along UdpSend.step UdpSend.OneEach (.new mem) es ↔
      Guarded UdpSend.step UdpSend.Clear (.new mem) es := by
  refine along_iff_guarded UdpSend.step (fun _ hI => UdpSend.Inv.one (n := mem.length) hI) ?_ ?_ es
    _ w (UdpSend.new_inv mem) h
  · intro v e v' hI hs hc
    cases e with
    | writeMessage m => exact hI.clear hc hs
    | onWrite => exact hI.onWrite hs
  · intro v e v' hI hs hc
    cases e with
    | writeMessage m => exact hI.not_clear hc hs
    | onWrite => exact absurd trivial hc

/-- two messages, the second behind the completion of the first -/
theorem oneEach_in_turn : Along UdpSend.step UdpSend.OneEach (.new (List.replicate 40 0))
    [.writeMessage (.ofStr 7 [1, 2]), .onWrite, .writeMessage (.ofStr 7 [3])] :=
  (oneEach_iff_clear (List.replicate 40 0)
    [.writeMessage (.ofStr 7 [1, 2]), .onWrite, .writeMessage (.ofStr 7 [3])] _ rfl).mpr
    (guarded_of_guardedBy UdpSend.step (B := fun w e => decide (w.Clear e))
      (fun _ _ h => of_decide_eq_true h) _ _ (by decide +kernel))

/-- the second of two messages without a completion between them goes out behind the first one -/
theorem second_message_joins_first : ¬ ∀ (mem : List UInt8) (es : List SendEvent) (w : UdpSend),
    exec UdpSend.step (.new mem) es = some w → w.OneEach := by
  intro hall
  have h := (hall (List.replicate 40 0)
    [.writeMessage (.ofStr 7 [1, 2]), .writeMessage (.ofStr 7 [3])] _ rfl).once
  revert h
  decide +kernel

end JMEngine.Net
