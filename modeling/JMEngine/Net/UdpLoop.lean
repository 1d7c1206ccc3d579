import JMEngine.Net.UdpSend
import JMEngine.Net.UdpSession

/-!
# A datagram server: receive, answer, receive again (source/net/JME_UdpSession.cpp, README.md)

The program starts the first receive; its `onReceive` answers with `writeMessage`, its `onWrite` calls
`startRead`.  Receives are started by a posted `doRead` and by two exits of `onRead`; `_isReading` is
tested and cleared, and set nowhere.

* `onReadAt`             `onRead` for a receive that was started when the buffer ended elsewhere;
* `UdpLoop.step`         the posted reads, the receives and sends under way and the callbacks, in any
                         order of completion;
* `tokens`               what there is to wait for; only an `onReceive` with several answers adds to it;
* `one_receive`          **at most one receive is under way when every `onReceive` answers at most
                         once; a second answer can always end in two.**
-/

set_option linter.unusedSectionVars false

namespace JMEngine.Net
open Bytes Runs

namespace UdpSession

/-- `onRead` when `data` has been received into the memory at `offest` -/
def onReadAt (s : UdpSession) (offest : Nat) (ec : ErrorCode) (data : List UInt8) :
    Option (UdpSession × List UdpEffect) :=
  let s := { s with _isReading := false }
  if ec ≠ .success ∨ data.length ≤ 0 then some (s, s.doRead)
  else
    let b := { s._buffer with _buffer := patch s._buffer._buffer offest data }
    match (b.readNewData data.length).getMessage with
    | none => none
    | some (ret, out, b) =>
      if ReadBufferError = ret ∨ ReadBufferNoMessage = ret then
        let s := { s with _buffer := b.reset }
        some (s, s.doRead)
      else
        match out with
        | none => none
        | some data =>
          some ({ s with _buffer := b }, [.onReceive (Message.create data data.length)])

theorem onReadAt_last (s : UdpSession) (ec : ErrorCode) (data : List UInt8) :
    s.onReadAt s._buffer._buffOffest ec data = s.onRead ec data :=
  rfl

theorem doRead_eq {s : UdpSession} (h : s._isReading = false) :
    s.doRead = [.async_receive_from s._buffer.getAvailableBufferSize] := by
  unfold doRead
  rw [h]
  rfl

theorem onReadAt_cases {s : UdpSession} {offest : Nat} {ec : ErrorCode} {data : List UInt8}
    {r : UdpSession × List UdpEffect} (h : s.onReadAt offest ec data = some r) :
    r.1._isReading = false ∧ ∃ e, r.2 = [e] := by
  unfold onReadAt at h
  dsimp only at h
  split at h
  · cases h
    exact ⟨rfl, _, rfl⟩
  · split at h
    · cases h
    · split at h
      · cases h
        exact ⟨rfl, _, rfl⟩
      · split at h
        · cases h
        · cases h
          exact ⟨rfl, _, rfl⟩

end UdpSession

namespace UdpWriter

/-- the answers of one `onReceive`, and how many sends they start -/
def answer (s : UdpWriter) : List Message → Option (UdpWriter × Nat)
  | [] => some (s, 0)
  | m :: ms => (s.writeMessage m).bind fun r =>
    (r.1.answer ms).map fun q => (q.1, (if r.2.isSome then 1 else 0) + q.2)

theorem writeMessage_isWriting {s : UdpWriter} (h : s._isWriting = false) {m : Message}
    {r : UdpWriter × Option (List UInt8)} (hr : s.writeMessage m = some r) :
    r.1._isWriting = false ∧ r.2.isSome = true := by
  unfold writeMessage stage at hr
  rw [if_neg (by rw [h]; exact Bool.false_ne_true)] at hr
  obtain ⟨s1, h1, hr⟩ := Option.bind_eq_some_iff.mp hr
  obtain ⟨s2, h2, rfl⟩ := Option.map_eq_some_iff.mp hr
  split at h1
  · cases h1
    split at h2
    · cases h2
      exact ⟨h, rfl⟩
    · cases h2
  · cases h1

theorem answer_spec {s t : UdpWriter} (h : s._isWriting = false) {ms : List Message} {k : Nat}
    (ht : s.answer ms = some (t, k)) : t._isWriting = false ∧ k = ms.length := by
  induction ms generalizing s t k with
  | nil =>
    cases ht
    exact ⟨h, rfl⟩
  | cons m ms ih =>
    obtain ⟨r, hr, ht⟩ := Option.bind_eq_some_iff.mp ht
    obtain ⟨⟨t', k'⟩, hq, e⟩ := Option.map_eq_some_iff.mp ht
    obtain ⟨h1, h2⟩ := writeMessage_isWriting h hr
    obtain ⟨h3, h4⟩ := ih h1 hq
    cases e
    rw [h2, if_pos rfl, h4, Nat.add_comm]
    exact ⟨h3, rfl⟩

end UdpWriter

/-- the callbacks of the handler that wait for the logic thread -/
inductive UdpCallback where
  | onReceive (msg : Message)
  | onWrite
  deriving DecidableEq, Repr

/-- the two sides of the session; the posted calls of `doRead`, the receives under way (where they
write, and how many bytes at most), the sends under way, and the callbacks for the logic thread -/
structure UdpLoop where
  reader : UdpSession
  writer : UdpWriter
  posted : Nat
  receives : List (Nat × Nat)
  sends : Nat
  logic : List UdpCallback
  deriving DecidableEq, Repr

inductive LoopEvent where
  /-- the net thread runs a posted `doRead` -/
  | doRead
  /-- a receive completes, with a datagram or an error -/
  | onRead (i : Nat) (ec : ErrorCode) (d : List UInt8)
  /-- a send completes -/
  | onWrite
  /-- the logic thread runs `onReceive`, which answers with these messages -/
  | onReceive (ms : List Message)
  /-- the logic thread runs the handler's `onWrite`, which calls `startRead` -/
  | handlerOnWrite
  deriving DecidableEq, Repr

namespace UdpLoop

/-- the program has called `startRead` -/
def new (mem writeMem : List UInt8) : UdpLoop := ⟨.new mem, .new writeMem, 1, [], 0, []⟩

def startRead (w : UdpLoop) : UdpLoop := { w with posted := w.posted + 1 }

def perform (w : UdpLoop) : UdpEffect → UdpLoop
  | .async_receive_from size =>
    { w with receives := w.receives ++ [(w.reader._buffer._buffOffest, size)] }
  | .onReceive m => { w with logic := w.logic ++ [.onReceive m] }

/-- a datagram is cut to the size of the receive; a run ends where a copy leaves its memory -/
def step (w : UdpLoop) : LoopEvent → Option UdpLoop
  | .doRead =>
    if 0 < w.posted then some (w.reader.doRead.foldl perform { w with posted := w.posted - 1 })
    else none
  | .onRead i ec d =>
    match w.receives[i]? with
    | none => none
    | some (offest, size) =>
      (w.reader.onReadAt offest ec (if ec = .success then d.take size else [])).map fun r =>
        r.2.foldl perform { w with reader := r.1, receives := w.receives.eraseIdx i }
  | .onWrite =>
    if 0 < w.sends then
      some { w with
        writer := w.writer.onWrite
        sends := w.sends - 1
        logic := w.logic ++ [.onWrite] }
    else none
  | .onReceive ms =>
    match w.logic with
    | .onReceive _ :: q =>
      (w.writer.answer ms).map fun r => { w with writer := r.1, sends := w.sends + r.2, logic := q }
    | _ => none
  | .handlerOnWrite =>
    match w.logic with
    | .onWrite :: q => some { w with logic := q }.startRead
    | _ => none

def tokens (w : UdpLoop) : Nat := w.posted + w.receives.length + w.sends + w.logic.length

/-- the flags, which nothing sets -/
structure Flags (w : UdpLoop) : Prop where
  isReading : w.reader._isReading = false
  isWriting : w.writer._isWriting = false

theorem perform_tokens (w : UdpLoop) (e : UdpEffect) : (w.perform e).tokens = w.tokens + 1 := by
  unfold tokens
  cases e with
  | async_receive_from size =>
    show w.posted + (w.receives ++ [_]).length + w.sends + w.logic.length = _
    rw [List.length_append, List.length_singleton]
    omega
  | onReceive m =>
    show w.posted + w.receives.length + w.sends + (w.logic ++ [_]).length = _
    rw [List.length_append, List.length_singleton]
    omega

theorem perform_flags (w : UdpLoop) (e : UdpEffect) (h : w.Flags) : (w.perform e).Flags := by
  cases e with
  | async_receive_from size => exact ⟨h.isReading, h.isWriting⟩
  | onReceive m => exact ⟨h.isReading, h.isWriting⟩

/-- every event takes a token and leaves one; `onReceive` leaves one for each answer -/
def leaves : LoopEvent → Nat
  | .onReceive ms => ms.length
  | _ => 1

theorem step_onReceive_cases {w w' : UdpLoop} (hf : w.Flags) {ms : List Message}
    (h : w.step (.onReceive ms) = some w') : ∃ m q t, w.logic = .onReceive m :: q ∧
      t._isWriting = false ∧
      w' = { w with writer := t, sends := w.sends + ms.length, logic := q } := by
  rw [step] at h
  split at h
  · next hq =>
    obtain ⟨⟨t, k⟩, hr, rfl⟩ := Option.map_eq_some_iff.mp h
    obtain ⟨hw, rfl⟩ := UdpWriter.answer_spec hf.isWriting hr
    exact ⟨_, _, t, hq, hw, rfl⟩
  · cases h

theorem step_tokens {w w' : UdpLoop} {e : LoopEvent} (hf : w.Flags) (h : w.step e = some w') :
    w'.Flags ∧ w'.tokens + 1 = w.tokens + leaves e := by
  cases e with
  | doRead =>
    rw [step, UdpSession.doRead_eq hf.isReading] at h
    split at h
    · next hp =>
      rw [List.foldl_cons, List.foldl_nil] at h
      cases h
      refine ⟨perform_flags _ _ ⟨hf.isReading, hf.isWriting⟩, ?_⟩
      rw [perform_tokens]
      unfold tokens leaves
      dsimp only
      omega
    · cases h
  | onRead i ec d =>
    rw [step] at h
    split at h
    · cases h
    · next hi =>
      obtain ⟨r, hr, rfl⟩ := Option.map_eq_some_iff.mp h
      obtain ⟨hread, e, he⟩ := UdpSession.onReadAt_cases hr
      have hlt := (List.getElem?_eq_some_iff.mp hi).1
      rw [he, List.foldl_cons, List.foldl_nil]
      refine ⟨perform_flags _ _ ⟨hread, hf.isWriting⟩, ?_⟩
      rw [perform_tokens]
      unfold tokens leaves
      dsimp only
      rw [List.length_eraseIdx_of_lt hlt]
      omega
  | onWrite =>
    rw [step] at h
    split at h
    · next hp =>
      cases h
      refine ⟨⟨hf.isReading, rfl⟩, ?_⟩
      unfold tokens leaves
      dsimp only
      rw [List.length_append, List.length_singleton]
      omega
    · cases h
  | onReceive ms =>
    obtain ⟨m, q, t, hq, hw, rfl⟩ := step_onReceive_cases hf h
    refine ⟨⟨hf.isReading, hw⟩, ?_⟩
    unfold tokens leaves
    dsimp only
    rw [hq, List.length_cons]
    omega
  | handlerOnWrite =>
    rw [step] at h
    split at h
    · next hq =>
      cases h
      refine ⟨⟨hf.isReading, hf.isWriting⟩, ?_⟩
      unfold tokens leaves startRead
      dsimp only
      rw [hq, List.length_cons]
      omega
    · cases h

/-- `onReceive` answers at most once -/
def Single (_ : UdpLoop) (e : LoopEvent) : Prop := leaves e ≤ 1

theorem new_flags (mem writeMem : List UInt8) : (new mem writeMem).Flags := ⟨rfl, rfl⟩

theorem tokens_le_one {mem writeMem : List UInt8} {es : List LoopEvent} {w : UdpLoop}
    (hG : Guarded step Single (new mem writeMem) es)
    (h : exec step (new mem writeMem) es = some w) : w.Flags ∧ w.tokens ≤ 1 := by
  refine exec_guarded step (I := fun v => v.Flags ∧ v.tokens ≤ 1) ?_ es _ w
    ⟨new_flags mem writeMem, Nat.le_refl 1⟩ hG h
  intro v e v' hv hc hs
  obtain ⟨hf, ht⟩ := step_tokens hv.1 hs
  have hle : leaves e ≤ 1 := hc
  exact ⟨hf, by omega⟩

/-- the sends of two answers complete, their callbacks call `startRead`, and both reads are run -/
def twoReads : List LoopEvent :=
  [.onWrite, .onWrite, .handlerOnWrite, .handlerOnWrite, .doRead, .doRead]

theorem two_receives {w : UdpLoop} (hf : w.Flags) (hp : w.posted = 0) (hr : w.receives = [])
    (hq : w.logic = []) (hs : 2 ≤ w.sends) :
    ∃ w' region, exec step w twoReads = some w' ∧ w'.receives = [region, region] := by
  obtain ⟨⟨b, r⟩, writer, posted, receives, sends, logic⟩ := w
  obtain ⟨k, hk⟩ : ∃ k, sends = k + 2 := ⟨sends - 2, by dsimp only at hs; omega⟩
  have hread : r = false := hf.isReading
  dsimp only at hp hr hq
  subst hp hr hq hk hread
  exact ⟨_, (b._buffOffest, b.getAvailableBufferSize), rfl, rfl⟩

theorem step_onReceive {w w' : UdpLoop} (hf : w.Flags) (ht : w.tokens ≤ 1) {ms : List Message}
    (h : w.step (.onReceive ms) = some w') : w'.Flags ∧ w'.posted = 0 ∧ w'.receives = [] ∧
      w'.logic = [] ∧ w'.sends = ms.length := by
  obtain ⟨m, q, t, hq, hw, rfl⟩ := step_onReceive_cases hf h
  unfold tokens at ht
  rw [hq, List.length_cons] at ht
  refine ⟨⟨hf.isReading, hw⟩, ?_, ?_, ?_, ?_⟩
  · show w.posted = 0
    omega
  · show w.receives = []
    exact List.length_eq_zero_iff.mp (by omega)
  · show q = []
    exact List.length_eq_zero_iff.mp (by omega)
  · show w.sends + ms.length = ms.length
    omega

end UdpLoop

/-- **In every run in which `onReceive` answers at most once, at most one receive is under way.**  An
`onReceive` that answers twice, at any point of such a run, can be followed by two receives into the
same memory. -/
theorem one_receive (mem writeMem : List UInt8) (es : List LoopEvent) (w : UdpLoop)
    (hG : Guarded UdpLoop.step UdpLoop.Single (.new mem writeMem) es)
    (h : exec UdpLoop.step (.new mem writeMem) es = some w) :
    w.receives.length ≤ 1 ∧
    ∀ (ms : List Message) (w' : UdpLoop), 2 ≤ ms.length → w.step (.onReceive ms) = some w' →
      ∃ w'' region, exec UdpLoop.step w' UdpLoop.twoReads = some w'' ∧
        w''.receives = [region, region] := by
  obtain ⟨hf, ht⟩ := UdpLoop.tokens_le_one hG h
  constructor
  · unfold UdpLoop.tokens at ht
    omega
  · intro ms w' hms hs
    obtain ⟨hf', hp, hr, hq, hsends⟩ := UdpLoop.step_onReceive hf ht hs
    exact UdpLoop.two_receives hf' hp hr hq (hsends ▸ hms)

def firstDatagram : List LoopEvent := [.doRead, .onRead 0 .success (Message.ofId 7).wire]

/-- one answer after it -/
theorem one_receive_answered : ∃ w, exec UdpLoop.step
    (.new (List.replicate 64 0) (List.replicate 64 0))
      (firstDatagram ++ [.onReceive [.ofId 7], .onWrite, .handlerOnWrite, .doRead]) = some w ∧
    w.receives.length ≤ 1 := by
  obtain ⟨w, hw⟩ := Option.isSome_iff_exists.mp (show (exec UdpLoop.step
    (.new (List.replicate 64 0) (List.replicate 64 0)) (firstDatagram ++
      [.onReceive [.ofId 7], .onWrite, .handlerOnWrite, .doRead])).isSome by decide +kernel)
  refine ⟨w, hw, (one_receive _ _ _ w (guarded_of_mem UdpLoop.step _ ?_ _) hw).1⟩
  intro e he _
  show UdpLoop.leaves e ≤ 1
  revert e
  decide

/-- two answers after it, and two receives into the same memory -/
theorem second_answer_second_receive : ¬ ∀ (mem writeMem : List UInt8) (es : List LoopEvent)
    (w : UdpLoop), exec UdpLoop.step (.new mem writeMem) es = some w → w.receives.length ≤ 1 := by
  intro hall
  have h := hall (List.replicate 64 0) (List.replicate 64 0)
    (firstDatagram ++ [.onReceive [.ofId 7, .ofId 7]] ++ UdpLoop.twoReads) _ rfl
  revert h
  decide +kernel

end JMEngine.Net
