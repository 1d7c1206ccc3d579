import JMEngine.Net.TcpSession

/-!
# Datagrams through the stream buffer (source/net/JME_UdpSession.cpp)

A `UdpSession` receives into the `ReadBuffer` of the TCP sessions.  A datagram is cut to the space that
is left, the first frame of what is pending goes to `onReceive`, and the offsets stay where they are
until a receive that completes no frame resets them.  The handler calls `startRead` for the next
datagram.

* `UdpSession.doRead`, `UdpSession.onRead`   the code;
* `Udp.step`             a session with one receive at a time; for every byte that is pending, and for
                         every byte of a message, the datagram that it came with;
* `onRead_frame`, `onRead_stuck`   what a datagram does;
* `separate_iff_clear`   **a datagram is handled on its own exactly when nothing is left of an earlier
                         one and there is room for it.**
-/

set_option linter.unusedSectionVars false

namespace JMEngine.Net
open Bytes Framing Runs

structure UdpSession where
  _buffer : ReadBuffer
  _isReading : Bool
  deriving DecidableEq, Repr

inductive UdpEffect where
  | async_receive_from (size : Nat)
  | onReceive (msg : Message)
  deriving DecidableEq, Repr

namespace UdpSession

/-- the session over the memory that the buffer allocated -/
def new (mem : List UInt8) : UdpSession := ⟨ReadBuffer.new mem, false⟩

def doRead (s : UdpSession) : List UdpEffect :=
  if s._isReading then [] else [.async_receive_from s._buffer.getAvailableBufferSize]

/-- `data` is what the receive has put into the buffer -/
def onRead (s : UdpSession) (ec : ErrorCode) (data : List UInt8) :
    Option (UdpSession × List UdpEffect) :=
  let s := { s with _isReading := false }
  if ec ≠ .success ∨ data.length ≤ 0 then some (s, s.doRead)
  else
    match ((s._buffer.fill data).readNewData data.length).getMessage with
    | none => none
    | some (ret, out, b) =>
      if ReadBufferError = ret ∨ ReadBufferNoMessage = ret then
        let s := { s with _buffer := b.reset }
        some (s, s.doRead)
      else
        match out with
        -- `data_ptr` would still be null
        | none => none
        | some data =>
          some ({ s with _buffer := b }, [.onReceive (Message.create data data.length)])

theorem not_skipped {data : List UInt8} (h : data ≠ []) :
    ¬ (ErrorCode.success ≠ .success ∨ data.length ≤ 0) := by
  rintro (hx | hx)
  · exact hx rfl
  · exact h (List.length_eq_zero_iff.mp (Nat.le_zero.mp hx))

/-- a 32-bit buffer size: no compaction moves `2^31` bytes -/
structure Sized (n : Nat) (s : UdpSession) : Prop where
  ok : s._buffer.Ok
  size : s._buffer._buffSize = n
  lt : n < 4294967296

section
variable {n : Nat} {s : UdpSession} (h : s.Sized n) {data : List UInt8} (hne : data ≠ [])
  (hle : data.length ≤ s._buffer.getAvailableBufferSize)
include h hle

theorem Sized.getMessage : ∃ b : ReadBuffer, b.Ok ∧ b._buffSize = n ∧ b.pending = s._buffer.pending ++ data
    ∧ ((s._buffer.fill data).readNewData data.length).getMessage = some b.verdictResult := by
  obtain ⟨hok, hp⟩ := h.ok.read data hle
  have hm : ((s._buffer.fill data).readNewData data.length).Movable := by
    intro hh
    have h1 := hok.offest_le
    have h2 : ((s._buffer.fill data).readNewData data.length)._buffSize = n := h.size
    have h3 := h.lt
    rw [h2] at hh h1
    omega
  obtain ⟨b, hb, hc⟩ := ReadBuffer.onCheckBuffer_spec hok hm
  exact ⟨b, hc.ok, hc.size.trans h.size, hc.pending.trans hp, ReadBuffer.getMessage_checked hb hc.ok⟩

include hne

theorem onRead_frame {k : Nat} (hk : scanFrame (s._buffer.pending ++ data) = .frame k) :
    ∃ b, s.onRead .success data = some (⟨b, false⟩,
        [.onReceive (Message.create ((s._buffer.pending ++ data).take k) k)])
      ∧ Sized n ⟨b, false⟩ ∧ b.pending = (s._buffer.pending ++ data).drop k := by
  obtain ⟨b, hok, hsize, hp, hg⟩ := h.getMessage hle
  obtain ⟨k1, k2, _⟩ := scanFrame_frame.mp hk
  rw [← hp] at hk k2 ⊢
  obtain ⟨hok', hp'⟩ := hok.hand k2
  refine ⟨_, ?_, ⟨hok', hsize, h.lt⟩, hp'⟩
  unfold onRead
  dsimp only
  rw [if_neg (not_skipped hne), hg]
  unfold ReadBuffer.verdictResult
  rw [hk]
  dsimp only
  rw [if_neg (by unfold ReadBufferError ReadBufferNoMessage; omega)]
  rfl

theorem onRead_stuck (hk : ∀ k, scanFrame (s._buffer.pending ++ data) ≠ .frame k) :
    ∃ b, s.onRead .success data = some (⟨b, false⟩, [.async_receive_from b.getAvailableBufferSize])
      ∧ Sized n ⟨b, false⟩ ∧ b.pending = [] := by
  obtain ⟨b, hok, hsize, hp, hg⟩ := h.getMessage hle
  rw [← hp] at hk
  refine ⟨b.reset, ?_, ⟨ReadBuffer.reset_ok hok, hsize, h.lt⟩, b.reset_pending⟩
  unfold onRead
  dsimp only
  rw [if_neg (not_skipped hne), hg]
  unfold ReadBuffer.verdictResult
  cases hs : scanFrame b.pending with
  | frame k => exact absurd hs (hk k)
  | more => rfl
  | bad => rfl

end

end UdpSession

/-- what became of a datagram: the message it led to and, byte by byte, the datagrams that the bytes of
the message came with -/
structure Receipt where
  datagram : List UInt8
  message : Option Message
  origin : List Nat
  deriving DecidableEq, Repr

/-- a session, the size of the outstanding receive, the datagrams of the pending bytes, and what has been
received so far -/
structure Udp where
  session : UdpSession
  offered : Option Nat
  origin : List Nat
  receipts : List Receipt
  deriving DecidableEq, Repr

inductive UdpEvent where
  | startRead
  | datagram (d : List UInt8)
  | failed (ec : ErrorCode)
  deriving DecidableEq, Repr

namespace UdpEffect

def offer : List UdpEffect → Option Nat
  | .async_receive_from size :: _ => some size
  | _ => none

def message : List UdpEffect → Option Message
  | .onReceive m :: _ => some m
  | _ => none

end UdpEffect

namespace Udp

def new (mem : List UInt8) : Udp := ⟨.new mem, none, [], []⟩

/-- the bytes of the `i`-th datagram join the pending ones; those that are no longer pending behind the
call have left with the message, or were dropped -/
def received (w : Udp) (d data : List UInt8) (s : UdpSession) (es : List UdpEffect) : Udp :=
  let origin := w.origin ++ List.replicate data.length w.receipts.length
  let gone := origin.length - s._buffer.pending.length
  { session := s
    offered := UdpEffect.offer es
    origin := origin.drop gone
    receipts := w.receipts ++ [⟨d, UdpEffect.message es,
      if (UdpEffect.message es).isSome then origin.take gone else []⟩] }

/-- one event, with one receive at a time; a datagram is cut to the size of the receive -/
def step (w : Udp) : UdpEvent → Option Udp
  | .startRead =>
    match w.offered with
    | some _ => none
    | none => some { w with offered := UdpEffect.offer w.session.doRead }
  | .datagram d =>
    match w.offered with
    | none => none
    | some size =>
      (w.session.onRead .success (d.take size)).map fun r => w.received d (d.take size) r.1 r.2
  | .failed ec =>
    match w.offered with
    | none => none
    | some _ =>
      if ec = .success then none
      else (w.session.onRead ec []).map fun r =>
        { w with session := r.1, offered := UdpEffect.offer r.2 }

/-- every datagram that is one frame, and not longer than the buffer, is delivered as that message; and
no message has bytes of another datagram -/
def Separate (n : Nat) (w : Udp) : Prop :=
  ∀ (i : Nat) (r : Receipt), w.receipts[i]? = some r →
    (wireFramer.Whole r.datagram → r.datagram.length ≤ n →
      r.message = some (Message.create r.datagram r.datagram.length))
    ∧ ∀ j ∈ r.origin, j = i

/-- nothing is left of an earlier datagram, and a frame that the buffer could hold is offered the room;
or what is left is dropped together with a datagram that is no such frame -/
def Clear (w : Udp) : UdpEvent → Prop
  | .datagram d =>
    ∀ size, w.offered = some size →
      if w.session._buffer.pending = [] then
        wireFramer.Whole d → d.length ≤ w.session._buffer._buffSize → d.length ≤ size
      else
        ¬ (wireFramer.Whole d ∧ d.length ≤ w.session._buffer._buffSize)
        ∧ (d.take size = [] ∨ wireFramer.Stuck (w.session._buffer.pending ++ d.take size))
  | _ => True

/-- nothing is left of an earlier datagram, and there is room -/
def roomy (w : Udp) : UdpEvent → Bool
  | .datagram d => decide (w.session._buffer.pending = [] ∧ d.length ≤ w.offered.getD 0)
  | _ => true

theorem clear_of_roomy (w : Udp) (e : UdpEvent) (h : w.roomy e = true) : w.Clear e := by
  cases e with
  | datagram d =>
    obtain ⟨hp, hd⟩ := of_decide_eq_true h
    intro size hsize
    rw [if_pos hp]
    intro _ _
    rw [hsize] at hd
    exact hd
  | startRead => trivial
  | failed ec => trivial

/-! ## what a datagram does -/

/-- the receive offers what the buffer has left, and every pending byte has come with a datagram that has
been received -/
structure Inv (n : Nat) (w : Udp) : Prop where
  sized : w.session.Sized n
  isReading : w.session._isReading = false
  offered : ∀ size, w.offered = some size → size = w.session._buffer.getAvailableBufferSize
  length : w.origin.length = w.session._buffer.pending.length
  older : ∀ j ∈ w.origin, j < w.receipts.length

theorem new_inv (mem : List UInt8) (h : mem.length < 4294967296) : (new mem).Inv mem.length where
  sized := ⟨ReadBuffer.new_ok mem (by omega), rfl, h⟩
  isReading := rfl
  offered := fun _ h => by cases h
  length := by
    show 0 = (ReadBuffer.new mem).pending.length
    rw [ReadBuffer.new_pending]
    rfl
  older := fun _ h => by cases h

/-- the datagrams of the bytes that are pending once `data` has come -/
def origins (w : Udp) (data : List UInt8) : List Nat :=
  w.origin ++ List.replicate data.length w.receipts.length

inductive Receives (w : Udp) (d : List UInt8) (size : Nat) (rs : List Receipt) : Prop
  | nothing (h : d.take size = [] ∨ wireFramer.Stuck (w.session._buffer.pending ++ d.take size))
      (hr : rs = w.receipts ++ [⟨d, none, []⟩])
  | message (k : Nat) (hne : d.take size ≠ [])
      (hk : wireFramer.scan (w.session._buffer.pending ++ d.take size) = .frame k)
      (hr : rs = w.receipts ++
        [⟨d, some (Message.create ((w.session._buffer.pending ++ d.take size).take k) k),
          (w.origins (d.take size)).take k⟩])

section
variable {n : Nat} {w w' : Udp}

theorem Inv.length_origins (h : w.Inv n) (data : List UInt8) :
    (w.origins data).length = (w.session._buffer.pending ++ data).length := by
  unfold origins
  rw [List.length_append, List.length_append, List.length_replicate, h.length]

theorem Inv.origins_older (h : w.Inv n) {data : List UInt8} :
    ∀ j ∈ w.origins data, j < w.receipts.length + 1 := by
  intro j hj
  rcases List.mem_append.mp hj with hj | hj
  · have := h.older j hj
    omega
  · have := List.eq_of_mem_replicate hj
    omega

theorem received_inv (h : w.Inv n) {d data : List UInt8} {s : UdpSession} {es : List UdpEffect}
    (hs : s.Sized n) (hr : s._isReading = false)
    (ho : ∀ size, UdpEffect.offer es = some size → size = s._buffer.getAvailableBufferSize)
    (hl : s._buffer.pending.length ≤ (w.origins data).length) : (w.received d data s es).Inv n where
  sized := hs
  isReading := hr
  offered := ho
  length := by
    show ((w.origins data).drop ((w.origins data).length - s._buffer.pending.length)).length = _
    rw [List.length_drop]
    exact Nat.sub_sub_self hl
  older := by
    intro j hj
    have hj' := h.origins_older j (List.mem_of_mem_drop hj)
    show j < (w.receipts ++ [_]).length
    rw [List.length_append, List.length_singleton]
    exact hj'

theorem step_datagram {d : List UInt8} (hI : w.Inv n) (h : w.step (.datagram d) = some w') :
    ∃ size, w.offered = some size ∧ w'.Inv n ∧ Receives w d size w'.receipts := by
  rw [step] at h
  split at h
  · cases h
  · rename_i size hsize
    refine ⟨size, hsize, ?_⟩
    have hle : (d.take size).length ≤ w.session._buffer.getAvailableBufferSize := by
      rw [← hI.offered size hsize, List.length_take]
      exact Nat.min_le_left _ _
    obtain ⟨⟨s, es⟩, hs, rfl⟩ := Option.map_eq_some_iff.mp h
    by_cases hne : d.take size = []
    · rw [hne] at hs
      obtain ⟨rfl, rfl⟩ := Prod.mk.inj (Option.some.inj hs)
      refine ⟨received_inv hI ⟨hI.sized.ok, hI.sized.size, hI.sized.lt⟩ rfl ?_ ?_,
        .nothing (Or.inl hne) rfl⟩
      · intro size' h'
        exact (Option.some.inj h').symm
      · rw [hI.length_origins, List.length_append]
        exact Nat.le_add_right _ _
    by_cases hst : wireFramer.Stuck (w.session._buffer.pending ++ d.take size)
    · obtain ⟨b, he, hb, hp⟩ := UdpSession.onRead_stuck hI.sized hne hle hst
      obtain ⟨rfl, rfl⟩ := Prod.mk.inj (Option.some.inj (hs.symm.trans he))
      refine ⟨received_inv hI hb rfl (fun _ h => (Option.some.inj h).symm) ?_,
        .nothing (Or.inr hst) rfl⟩
      rw [hp]
      exact Nat.zero_le _
    · obtain ⟨k, hk⟩ := not_forall.mp hst
      have hk : scanFrame (w.session._buffer.pending ++ d.take size) = .frame k := not_not.mp hk
      obtain ⟨b, he, hb, hp⟩ := UdpSession.onRead_frame hI.sized hne hle hk
      obtain ⟨rfl, rfl⟩ := Prod.mk.inj (Option.some.inj (hs.symm.trans he))
      have hlen := hI.length_origins (d.take size)
      have hk' := (scanFrame_frame.mp hk).2.1
      have e : (w.origins (d.take size)).length - b.pending.length = k := by
        rw [hp, List.length_drop]
        omega
      refine ⟨received_inv hI hb rfl (fun _ h => by cases h) ?_, .message k hne hk ?_⟩
      · rw [hp, List.length_drop]
        omega
      · show w.receipts ++ [⟨d, _, (w.origins (d.take size)).take
          ((w.origins (d.take size)).length - b.pending.length)⟩] = _
        rw [e]
        rfl

theorem step_failed {ec : ErrorCode} (hI : w.Inv n) (h : w.step (.failed ec) = some w') :
    w'.Inv n ∧ w'.receipts = w.receipts := by
  rw [step] at h
  split at h
  · cases h
  · split at h
    · cases h
    · rename_i hec
      have he : w.session.onRead ec [] = some ({ w.session with _isReading := false },
          [.async_receive_from w.session._buffer.getAvailableBufferSize]) := by
        unfold UdpSession.onRead
        rw [if_pos (Or.inl hec)]
        rfl
      rw [he] at h
      cases h
      exact ⟨⟨⟨hI.sized.ok, hI.sized.size, hI.sized.lt⟩, rfl, fun _ h => (Option.some.inj h).symm,
        hI.length, hI.older⟩, rfl⟩

theorem step_startRead (hI : w.Inv n) (h : w.step .startRead = some w') :
    w'.Inv n ∧ w'.receipts = w.receipts := by
  rw [step] at h
  split at h
  · cases h
  · cases h
    refine ⟨⟨hI.sized, hI.isReading, fun size hsize => ?_, hI.length, hI.older⟩, rfl⟩
    dsimp only at hsize
    rw [UdpSession.doRead, if_neg (by rw [hI.isReading]; exact Bool.false_ne_true)] at hsize
    exact (Option.some.inj hsize).symm

/-! ## datagrams on their own -/

theorem separate_append {r : Receipt} (hr : w'.receipts = w.receipts ++ [r]) :
    w'.Separate n ↔ w.Separate n
      ∧ (wireFramer.Whole r.datagram → r.datagram.length ≤ n →
          r.message = some (Message.create r.datagram r.datagram.length))
      ∧ ∀ j ∈ r.origin, j = w.receipts.length := by
  unfold Separate
  rw [hr]
  constructor
  · intro h
    refine ⟨fun i r' hi => h i r' ?_, h w.receipts.length r List.getElem?_concat_length⟩
    rw [List.getElem?_append_left (List.getElem?_eq_some_iff.mp hi).1]
    exact hi
  · intro h i r' hi
    rcases Nat.lt_trichotomy i w.receipts.length with hlt | heq | hgt
    · rw [List.getElem?_append_left hlt] at hi
      exact h.1 i r' hi
    · rw [heq] at hi ⊢
      rw [List.getElem?_concat_length] at hi
      rw [← Option.some.inj hi]
      exact h.2
    · rw [List.getElem?_eq_none (by rw [List.length_append, List.length_singleton]; omega)] at hi
      cases hi

theorem Inv.pending_nil (h : w.Inv n) (hp : w.session._buffer.pending = []) : w.origin = [] := by
  have hl := h.length
  rw [hp] at hl
  exact List.length_eq_zero_iff.mp hl

theorem Inv.foreign (h : w.Inv n) (hp : w.session._buffer.pending ≠ []) {k : Nat} {data : List UInt8}
    (hk : wireFramer.scan (w.session._buffer.pending ++ data) = .frame k) :
    ∃ j ∈ (w.origins data).take k, j ≠ w.receipts.length := by
  have hl := h.length
  have hpos := (wireFramer.scan_pos _ _ hk).1
  cases ho : w.origin with
  | nil =>
    rw [ho] at hl
    exact absurd (List.length_eq_zero_iff.mp hl.symm) hp
  | cons j rest =>
    have hj := h.older j (by rw [ho]; exact List.mem_cons_self)
    refine ⟨j, ?_, by omega⟩
    unfold origins
    rw [ho, List.cons_append]
    obtain ⟨k', rfl⟩ : ∃ k', k = k' + 1 := ⟨k - 1, by omega⟩
    rw [List.take_succ_cons]
    exact List.mem_cons_self

/-- the way is clear for a datagram in a buffer of `n` bytes that offers `size` -/
def ClearAt (w : Udp) (n size : Nat) (d : List UInt8) : Prop :=
  if w.session._buffer.pending = [] then wireFramer.Whole d → d.length ≤ n → d.length ≤ size
  else ¬ (wireFramer.Whole d ∧ d.length ≤ n)
    ∧ (d.take size = [] ∨ wireFramer.Stuck (w.session._buffer.pending ++ d.take size))

theorem Inv.clear_iff (h : w.Inv n) {size : Nat} (hsize : w.offered = some size) (d : List UInt8) :
    w.Clear (.datagram d) ↔ w.ClearAt n size d := by
  unfold Clear ClearAt
  rw [h.sized.size]
  refine ⟨fun h => h size hsize, fun h s hs => ?_⟩
  rw [← Option.some.inj (hsize.symm.trans hs)]
  exact h

theorem scan_whole {d : List UInt8} {size : Nat} (hp : w.session._buffer.pending = [])
    (hw : wireFramer.Whole d) (hle : d.length ≤ size) :
    d.take size = d ∧ wireFramer.scan (w.session._buffer.pending ++ d.take size)
      = .frame d.length := by
  rw [List.take_of_length_le hle, hp, List.nil_append]
  exact ⟨rfl, hw⟩

theorem separate_nothing {d : List UInt8} {size : Nat} (hS : w.Separate n)
    (hnone : d.take size = [] ∨ wireFramer.Stuck (w.session._buffer.pending ++ d.take size))
    (hrec : w'.receipts = w.receipts ++ [⟨d, none, []⟩]) :
    w'.Separate n ↔ w.ClearAt n size d := by
  have hno : w.session._buffer.pending = [] → wireFramer.Whole d → ¬ d.length ≤ size := by
    intro hp hw hle
    obtain ⟨e1, e2⟩ := scan_whole hp hw hle
    rcases hnone with hnone | hnone
    · have := (wireFramer.scan_pos d d.length hw).1
      rw [← e1, hnone] at this
      exact Nat.lt_irrefl 0 this
    · exact hnone d.length e2
  rw [separate_append hrec]
  unfold ClearAt
  by_cases hp : w.session._buffer.pending = []
  · rw [if_pos hp]
    refine ⟨fun h hw hle => (by cases h.2.1 hw hle), fun h => ⟨hS, fun hw hle => ?_, ?_⟩⟩
    · exact absurd (h hw hle) (hno hp hw)
    · exact fun j hj => by cases hj
  · rw [if_neg hp]
    refine ⟨fun h => ⟨fun hw => (by cases h.2.1 hw.1 hw.2), hnone⟩, fun h => ⟨hS, ?_, ?_⟩⟩
    · exact fun hw hle => absurd ⟨hw, hle⟩ h.1
    · exact fun j hj => by cases hj

theorem separate_message {d : List UInt8} {size k : Nat} (hI : w.Inv n) (hS : w.Separate n)
    (hne : d.take size ≠ [])
    (hk : wireFramer.scan (w.session._buffer.pending ++ d.take size) = .frame k)
    (hrec : w'.receipts = w.receipts ++
      [⟨d, some (Message.create ((w.session._buffer.pending ++ d.take size).take k) k),
        (w.origins (d.take size)).take k⟩]) :
    w'.Separate n ↔ w.ClearAt n size d := by
  rw [separate_append hrec]
  unfold ClearAt
  by_cases hp : w.session._buffer.pending = []
  · rw [if_pos hp]
    constructor
    · intro _ hw _
      by_contra hlt
      have hpart := wireFramer.scan_part d (d.take size) (d.drop size) hw
        (List.take_append_drop size d).symm (fun e => hlt (List.drop_eq_nil_iff.mp e))
      rw [hp, List.nil_append, hpart] at hk
      cases hk
    · intro h
      refine ⟨hS, fun hw hle => ?_, ?_⟩
      · obtain ⟨e1, e2⟩ := scan_whole hp hw (h hw hle)
        rw [hk] at e2
        have ek : k = d.length := Verdict.frame.inj e2
        dsimp only
        rw [e1, hp, ek, List.nil_append, List.take_length]
      · intro j hj
        have hj' := List.mem_of_mem_take hj
        unfold origins at hj'
        rw [hI.pending_nil hp, List.nil_append] at hj'
        exact List.eq_of_mem_replicate hj'
  · rw [if_neg hp]
    constructor
    · intro h
      obtain ⟨j, hj, hne'⟩ := hI.foreign hp hk
      exact absurd (h.2.2 j hj) hne'
    · intro h
      rcases h.2 with h' | h'
      · exact absurd h' hne
      · exact absurd hk (h' k)

/-- **A datagram is handled on its own exactly when the way is clear.** -/
theorem step_separate {d : List UInt8} (hI : w.Inv n) (hS : w.Separate n)
    (h : w.step (.datagram d) = some w') : w'.Separate n ↔ w.Clear (.datagram d) := by
  obtain ⟨size, hsize, _, hr⟩ := step_datagram hI h
  rw [hI.clear_iff hsize]
  cases hr with
  | nothing hnone hrec => exact separate_nothing hS hnone hrec
  | message k hne hk hrec => exact separate_message hI hS hne hk hrec

theorem separate_congr (h : w'.receipts = w.receipts) : w'.Separate n ↔ w.Separate n := by
  unfold Separate
  rw [h]

theorem step_inv {e : UdpEvent} (hI : w.Inv n) (h : w.step e = some w') :
    w'.Inv n ∧ (w'.Separate n → w.Separate n) := by
  cases e with
  | datagram d =>
    obtain ⟨_, _, hI', hr⟩ := step_datagram hI h
    refine ⟨hI', fun hS => ?_⟩
    cases hr with
    | nothing _ hr => exact ((separate_append hr).mp hS).1
    | message _ _ _ hr => exact ((separate_append hr).mp hS).1
  | startRead => exact ⟨(step_startRead hI h).1, (separate_congr (step_startRead hI h).2).mp⟩
  | failed ec => exact ⟨(step_failed hI h).1, (separate_congr (step_failed hI h).2).mp⟩

theorem step_clear {e : UdpEvent} (hI : w.Inv n) (hS : w.Separate n) (h : w.step e = some w') :
    w'.Separate n ↔ w.Clear e := by
  cases e with
  | datagram d => exact step_separate hI hS h
  | startRead => exact ⟨fun _ => trivial, fun _ => (separate_congr (step_startRead hI h).2).mpr hS⟩
  | failed ec => exact ⟨fun _ => trivial, fun _ => (separate_congr (step_failed hI h).2).mpr hS⟩

end

/-- **Datagrams are handled on their own exactly in the runs in which the way is always clear.** -/
theorem separate_iff_clear (mem : List UInt8) (hmem : mem.length < 4294967296) (es : List UdpEvent)
    (w : Udp) (hrun : exec step (new mem) es = some w) :
    w.Separate mem.length ↔ Guarded step Clear (new mem) es := by
  have hnew : (new mem).Separate mem.length := fun i r hi => by cases hi
  rcases exec_split step (C := Clear) (I := fun w => w.Inv mem.length ∧ w.Separate mem.length)
    (J := fun w => w.Inv mem.length ∧ ¬ w.Separate mem.length)
    (fun s e s' h hs hc => ⟨(step_inv h.1 hs).1, (step_clear h.1 h.2 hs).mpr hc⟩)
    (fun s e s' h hs hc => ⟨(step_inv h.1 hs).1, fun hS => hc ((step_clear h.1 h.2 hs).mp hS)⟩)
    (fun s e s' h hs => ⟨(step_inv h.1 hs).1, fun hS => h.2 ((step_inv h.1 hs).2 hS)⟩)
    es (new mem) w ⟨new_inv mem hmem, hnew⟩ hrun with ⟨hg, _, hS⟩ | ⟨hg, _, hS⟩
  · exact ⟨fun _ => hg, fun _ => hS⟩
  · exact ⟨fun h => absurd h hS, fun h => absurd h hg⟩

/-- a frame, three stray bytes that reset the buffer, a failed receive, and another frame -/
theorem separate_iff_clear_reset :
    ∃ w, exec step (new (List.replicate 40 0))
        [.startRead, .datagram (Message.ofStr RPCMessage [7, 8]).wire, .startRead,
          .datagram [1, 2, 3], .failed (.other 111), .datagram (Message.ofId 2).wire] = some w
      ∧ w.receipts.map Receipt.message
        = [some (Message.ofStr RPCMessage [7, 8]), none, some (Message.ofId 2)]
      ∧ w.Separate (List.replicate 40 (0 : UInt8)).length := by
  have h : (exec step (new (List.replicate 40 0))
      [.startRead, .datagram (Message.ofStr RPCMessage [7, 8]).wire, .startRead,
        .datagram [1, 2, 3], .failed (.other 111), .datagram (Message.ofId 2).wire]).any
      (fun w => decide (w.receipts.map Receipt.message
        = [some (Message.ofStr RPCMessage [7, 8]), none, some (Message.ofId 2)])) = true := by
    decide +kernel
  obtain ⟨w, hw, hp⟩ := (Option.any_eq_true ..).mp h
  refine ⟨w, hw, of_decide_eq_true hp, (separate_iff_clear _ (by decide) _ w hw).mpr ?_⟩
  exact guarded_of_guardedBy step clear_of_roomy _ _ (by decide +kernel)

/-- Three frames of 20 bytes and a buffer of 40: no room is left for the third.  Two frames in one
datagram: the next datagram brings the second of them. -/
theorem not_always_separate :
    (¬ ∀ (mem : List UInt8) (es : List UdpEvent) (w : Udp), mem.length < 4294967296 →
      exec step (new mem) es = some w → ∀ (i : Nat) (r : Receipt), w.receipts[i]? = some r →
        wireFramer.Whole r.datagram → r.datagram.length ≤ mem.length →
          r.message = some (Message.create r.datagram r.datagram.length))
    ∧ ¬ ∀ (mem : List UInt8) (es : List UdpEvent) (w : Udp), mem.length < 4294967296 →
      exec step (new mem) es = some w → ∀ (i : Nat) (r : Receipt), w.receipts[i]? = some r →
        ∀ j ∈ r.origin, j = i := by
  constructor
  · intro h
    have h1 : (exec step (new (List.replicate 40 0))
        [.startRead, .datagram (Message.ofStr RPCMessage [1, 2, 3, 4, 5, 6]).wire, .startRead,
          .datagram (Message.ofStr RPCMessage [1, 2, 3, 4, 5, 6]).wire, .startRead,
          .datagram (Message.ofStr RPCMessage [1, 2, 3, 4, 5, 6]).wire]).any
        (fun w => decide (w.receipts[2]?
          = some ⟨(Message.ofStr RPCMessage [1, 2, 3, 4, 5, 6]).wire, none, []⟩)) = true := by
      decide +kernel
    obtain ⟨w, hw, hp⟩ := (Option.any_eq_true ..).mp h1
    have hlost := h _ _ w (by decide) hw 2 _ (of_decide_eq_true hp)
      (wire_whole (Message.ofStr_sound _ _ (by decide))) (by decide +kernel)
    cases hlost
  · intro h
    have h1 : (exec step (new (List.replicate 40 0))
        [.startRead, .datagram ((Message.ofId 2).wire ++ (Message.ofId 3).wire), .startRead,
          .datagram (Message.ofId 4).wire]).any
        (fun w => decide (w.receipts[1]?
          = some ⟨(Message.ofId 4).wire, some (Message.ofId 3), List.replicate 14 0⟩)) = true := by
      decide +kernel
    obtain ⟨w, hw, hp⟩ := (Option.any_eq_true ..).mp h1
    have hown := h _ _ w (by decide) hw 1 _ (of_decide_eq_true hp) 0
      (List.mem_replicate.mpr ⟨by decide, rfl⟩)
    cases hown

end Udp

end JMEngine.Net
