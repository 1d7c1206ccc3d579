import JMEngine.Net.WriteBuffer

/-!
# `writeMessage` step by step

The calling thread checks the status, then, under the write mutex, the capacity, and appends header
and payload in two calls of `writeNolock`, each of which reads the status and the socket again and
returns without a word when one of them is wrong.  Between any two steps the net thread may set the
status to `Disconnected`, or a `stop()` may close the socket.

* `WriteCall.step`              one step of either side;
* `writeMessage_steps`          without interference the steps are `TcpSession.writeMessage`;
* `truthful_iff_undisturbed`    the result is truthful exactly when every check inside `writeNolock`
                                that matters finds the connection up.
-/

set_option linter.unusedSectionVars false

namespace JMEngine.Net
open Bytes Runs TcpSession

inductive WritePoint where
  | isOk
  | capacity
  | headerStatus
  | headerOpen
  | headerAppend
  | payloadStatus
  | payloadOpen
  | payloadAppend
  | done (result : Bool)
  deriving DecidableEq, Repr

structure WriteCall where
  session : TcpSession
  point : WritePoint
  deriving DecidableEq, Repr

inductive WriteCallEvent where
  | call
  | disconnect
  | stop (throws : Bool)
  deriving DecidableEq, Repr

namespace WriteCall

def begin (s : TcpSession) : WriteCall := ⟨s, .isOk⟩

def next (m : Message) (w : WriteCall) : Option WriteCall :=
  match w.point with
  | .isOk => some ⟨w.session, if w.session.isOk then .capacity else .done false⟩
  | .capacity =>
    if !w.session.checkWriteBuffer m then some ⟨w.session.postWriteNull.1, .done false⟩
    else some ⟨w.session, if w.session._writeBuffer.isSome then .headerStatus else .done false⟩
  | .headerStatus => some ⟨w.session, if w.session.isOk then .headerOpen else .payloadStatus⟩
  | .headerOpen => some ⟨w.session, if w.session._socket then .headerAppend else .payloadStatus⟩
  | .headerAppend =>
    (w.session.writeImpl m.header MessageHeaderLength).map fun r => ⟨r.1, .payloadStatus⟩
  | .payloadStatus => some ⟨w.session, if w.session.isOk then .payloadOpen else .done true⟩
  | .payloadOpen => some ⟨w.session, if w.session._socket then .payloadAppend else .done true⟩
  | .payloadAppend =>
    (w.session.writeImpl m._msgData (int32 m.messageDataLen)).map fun r => ⟨r.1, .done true⟩
  | .done _ => none

def step (m : Message) (w : WriteCall) : WriteCallEvent → Option WriteCall
  | .call => w.next m
  | .disconnect => some ⟨{ w.session with _status := .Disconnected }, w.point⟩
  | .stop throws => some ⟨w.session.stop throws, w.point⟩

/-- an append may be left out when there is nothing to append -/
def Undisturbed (m : Message) (w : WriteCall) : WriteCallEvent → Prop
  | .call =>
    match w.point with
    | .headerStatus => w.session.isOk = true
    | .headerOpen => w.session._socket = true
    | .payloadStatus => m._msgData = [] ∨ w.session.isOk = true
    | .payloadOpen => m._msgData = [] ∨ w.session._socket = true
    | _ => True
  | _ => True

instance (m : Message) (w : WriteCall) (e : WriteCallEvent) : Decidable (Undisturbed m w e) :=
  match e, w with
  | .call, ⟨_, .headerStatus⟩ => inferInstanceAs (Decidable (_ = true))
  | .call, ⟨_, .headerOpen⟩ => inferInstanceAs (Decidable (_ = true))
  | .call, ⟨_, .payloadStatus⟩ => inferInstanceAs (Decidable (_ ∨ _))
  | .call, ⟨_, .payloadOpen⟩ => inferInstanceAs (Decidable (_ ∨ _))
  | .call, ⟨_, .isOk⟩ => isTrue trivial
  | .call, ⟨_, .capacity⟩ => isTrue trivial
  | .call, ⟨_, .headerAppend⟩ => isTrue trivial
  | .call, ⟨_, .payloadAppend⟩ => isTrue trivial
  | .call, ⟨_, .done _⟩ => isTrue trivial
  | .disconnect, _ => isTrue trivial
  | .stop _, _ => isTrue trivial

/-- what the result `r` promises -/
def Truthful (s : TcpSession) (m : Message) (r : Bool) (t : TcpSession) : Prop :=
  if r then t.queued = s.queued ++ m.wire
  else t._writeBuffer = s._writeBuffer ∧ t._writeBufferOffest = s._writeBufferOffest

/-- the bytes `data` fit behind what is queued -/
structure Room (s : TcpSession) (len : Nat) : Prop where
  write : s.WriteOk
  buffer : s._writeBuffer.isSome = true
  size : s._writeBufferOffest + len ≤ s._writeBufferSize
  int : s._writeBufferOffest + len < 2147483648

structure Same (s t : TcpSession) : Prop where
  buffer : t._writeBuffer = s._writeBuffer
  offest : t._writeBufferOffest = s._writeBufferOffest
  size : t._writeBufferSize = s._writeBufferSize

theorem Same.ok {s t : TcpSession} (h : Same s t) (hs : s.WriteOk) : t.WriteOk :=
  hs.congr h.buffer h.size h.offest

theorem Same.queued {s t : TcpSession} (h : Same s t) : t.queued = s.queued :=
  queued_congr h.buffer h.offest

theorem Room.congr {s t : TcpSession} {len : Nat} (h : Room s len) (hs : Same s t) : Room t len := by
  refine ⟨hs.ok h.write, ?_, ?_, ?_⟩
  · rw [hs.buffer]; exact h.buffer
  · rw [hs.offest, hs.size]; exact h.size
  · rw [hs.offest]; exact h.int

theorem Room.append {s : TcpSession} {len : Nat} {data : List UInt8}
    (h : Room s (data.length + len)) :
    ∃ t es, s.writeImpl data data.length = some (t, es) ∧ Room t len ∧
      t.queued = s.queued ++ data := by
  obtain ⟨mem, hm⟩ := Option.isSome_iff_exists.mp h.buffer
  have h1 := h.size
  have h2 := h.int
  obtain ⟨t, es, hw, ha⟩ := writeImpl_appends h.write hm data (by omega) (by omega)
  have hsz : t._writeBufferSize = s._writeBufferSize :=
    readSide_field ha.rest _writeBufferSize rfl rfl
  have ho := ha.offest
  exact ⟨t, es, hw, ⟨ha.ok, ha.buffer.trans h.buffer, by omega, by omega⟩, ha.queued⟩

theorem Room.less {s : TcpSession} {len k : Nat} (h : Room s len) (hk : k ≤ len) : Room s k := by
  have h1 := h.size
  have h2 := h.int
  exact ⟨h.write, h.buffer, by omega, by omega⟩

theorem Same.trans {s t u : TcpSession} (h : Same s t) (h' : Same t u) : Same s u :=
  ⟨h'.buffer.trans h.buffer, h'.offest.trans h.offest, h'.size.trans h.size⟩

/-! ## the two ways a call can go -/

section
variable (s : TcpSession) (m : Message)

def Going (w : WriteCall) : Prop :=
  match w.point with
  | .isOk => Same s w.session
  | .capacity => Same s w.session
  | .headerStatus => Same s w.session ∧ Room w.session (m.header.length + m._msgData.length)
  | .headerOpen => Same s w.session ∧ Room w.session (m.header.length + m._msgData.length)
  | .headerAppend => Same s w.session ∧ Room w.session (m.header.length + m._msgData.length)
  | .payloadStatus => Room w.session m._msgData.length ∧ w.session.queued = s.queued ++ m.header
  | .payloadOpen => Room w.session m._msgData.length ∧ w.session.queued = s.queued ++ m.header
  | .payloadAppend => Room w.session m._msgData.length ∧ w.session.queued = s.queued ++ m.header
  | .done r => Truthful s m r w.session

def Short (t : TcpSession) (len : Nat) : Prop :=
  t.queued.length + len < s.queued.length + m.wire.length

def Spoiled (w : WriteCall) : Prop :=
  match w.point with
  | .payloadStatus => Room w.session m._msgData.length ∧ Short s m w.session m._msgData.length
  | .payloadOpen => Room w.session m._msgData.length ∧ Short s m w.session m._msgData.length
  | .payloadAppend => Room w.session m._msgData.length ∧ Short s m w.session m._msgData.length
  | .done r => r = true ∧ Short s m w.session 0
  | _ => False

end

section
variable {s : TcpSession} {m : Message}

theorem Going.interfere {w : WriteCall} (h : Going s m w) {t : TcpSession}
    (ht : Same w.session t) : Going s m ⟨t, w.point⟩ := by
  obtain ⟨u, point⟩ := w
  cases point with
  | isOk => exact Same.trans h ht
  | capacity => exact Same.trans h ht
  | headerStatus => exact ⟨h.1.trans ht, h.2.congr ht⟩
  | headerOpen => exact ⟨h.1.trans ht, h.2.congr ht⟩
  | headerAppend => exact ⟨h.1.trans ht, h.2.congr ht⟩
  | payloadStatus => exact ⟨h.1.congr ht, ht.queued.trans h.2⟩
  | payloadOpen => exact ⟨h.1.congr ht, ht.queued.trans h.2⟩
  | payloadAppend => exact ⟨h.1.congr ht, ht.queued.trans h.2⟩
  | done r =>
    cases r with
    | true => exact ht.queued.trans h
    | false => exact ⟨ht.buffer.trans h.1, ht.offest.trans h.2⟩

theorem Short.congr {t u : TcpSession} {len : Nat} (h : Short s m t len) (hu : Same t u) :
    Short s m u len := by
  unfold Short
  rw [hu.queued]
  exact h

theorem Short.less {t : TcpSession} {len : Nat} (h : Short s m t len) : Short s m t 0 := by
  unfold Short at h ⊢
  omega

theorem Spoiled.interfere {w : WriteCall} (h : Spoiled s m w) {t : TcpSession}
    (ht : Same w.session t) : Spoiled s m ⟨t, w.point⟩ := by
  obtain ⟨u, point⟩ := w
  cases point with
  | payloadStatus => exact ⟨h.1.congr ht, h.2.congr ht⟩
  | payloadOpen => exact ⟨h.1.congr ht, h.2.congr ht⟩
  | payloadAppend => exact ⟨h.1.congr ht, h.2.congr ht⟩
  | done r => exact ⟨h.1, h.2.congr ht⟩
  | isOk => exact h
  | capacity => exact h
  | headerStatus => exact h
  | headerOpen => exact h
  | headerAppend => exact h

theorem not_done_of_call {w w' : WriteCall} (h : w.step m .call = some w') (r : Bool) :
    w.point ≠ .done r := by
  intro hr
  rw [WriteCall.step, WriteCall.next, hr] at h
  cases h

theorem header_len (m : Message) : ((MessageHeaderLength : Nat) : Int) = (m.header.length : Int) := by
  rw [m.length_header]

theorem next_headerAppend {t u : TcpSession} {es : List Effect}
    (hw : t.writeImpl m.header m.header.length = some (u, es)) :
    next m ⟨t, .headerAppend⟩ = some ⟨u, .payloadStatus⟩ := by
  rw [next]
  dsimp only
  rw [header_len m, hw]
  rfl

theorem next_payloadAppend (hm : m.Sound) {t u : TcpSession} {es : List Effect}
    (hw : t.writeImpl m._msgData m._msgData.length = some (u, es)) :
    next m ⟨t, .payloadAppend⟩ = some ⟨u, .done true⟩ := by
  rw [next]
  dsimp only
  rw [int32_messageDataLen hm, hw]
  rfl

variable (hs : s.WriteOk) (hm : m.Sound)
include hs hm

theorem short_of_same {t : TcpSession} (h : Same s t) : Short s m t m._msgData.length := by
  unfold Short
  rw [h.queued, hm.length_wire]
  omega

theorem short_of_header {t : TcpSession} (he : m._msgData ≠ []) (h : t.queued = s.queued ++ m.header) :
    Short s m t 0 := by
  have h1 := List.length_pos_iff.mpr he
  have h2 : m.header.length = 14 := m.length_header
  unfold Short
  rw [h, hm.length_wire, List.length_append]
  omega

theorem truthful_of_empty {t : TcpSession} (he : m._msgData = [])
    (h : t.queued = s.queued ++ m.header) : Truthful s m true t := by
  show t.queued = s.queued ++ m.wire
  rw [h, hm.wire, he, List.append_nil]

theorem Going.capacity {t : TcpSession} (h : Same s t) :
    ∃ w', WriteCall.next m ⟨t, .capacity⟩ = some w' ∧ Going s m w' := by
  have hlen : m.wire.length = m.header.length + m._msgData.length := by
    rw [hm.wire, List.length_append]
  by_cases hc : t.checkWriteBuffer m = true
  · refine ⟨⟨t, if t._writeBuffer.isSome then .headerStatus else .done false⟩, ?_, ?_⟩
    · simp only [WriteCall.next, hc]
      rfl
    · obtain ⟨h1, h2⟩ := (checkWriteBuffer_iff (h.ok hs) hm).mp hc
      cases hb : t._writeBuffer.isSome with
      | true =>
        have hr : Room t (m.header.length + m._msgData.length) := ⟨h.ok hs, hb, by omega, by omega⟩
        exact ⟨h, hr⟩
      | false => exact ⟨h.buffer, h.offest⟩
  · refine ⟨⟨t.postWriteNull.1, .done false⟩, ?_, ?_⟩
    · simp only [WriteCall.next, Bool.eq_false_iff.mpr hc]
      rfl
    · have hp := postWriteNull_same t
      exact ⟨hp.buffer.trans h.buffer, hp.offest.trans h.offest⟩

theorem Going.headerCheck {t : TcpSession} {p : WritePoint} (h : Going s m ⟨t, .headerStatus⟩)
    (hp : Going s m ⟨t, p⟩) (b : Bool) :
    (b = true → Going s m ⟨t, if b then p else .payloadStatus⟩) ∧
      (¬ b = true → Spoiled s m ⟨t, if b then p else .payloadStatus⟩) := by
  cases b with
  | true => exact ⟨fun _ => hp, fun hx => absurd rfl hx⟩
  | false =>
    exact ⟨(fun hx => by cases hx),
      fun _ => ⟨h.2.less (Nat.le_add_left _ _), short_of_same hs hm h.1⟩⟩

theorem Going.payloadCheck {t : TcpSession} {p : WritePoint} (h : Going s m ⟨t, .payloadStatus⟩)
    (hp : Going s m ⟨t, p⟩) (b : Bool) :
    (m._msgData = [] ∨ b = true → Going s m ⟨t, if b then p else .done true⟩) ∧
      (¬ (m._msgData = [] ∨ b = true) → Spoiled s m ⟨t, if b then p else .done true⟩) := by
  cases b with
  | true => exact ⟨fun _ => hp, fun hx => absurd (Or.inr rfl) hx⟩
  | false =>
    refine ⟨fun hx => ?_, fun hx => ⟨rfl, short_of_header hs hm (fun e => hx (Or.inl e)) h.2⟩⟩
    exact truthful_of_empty hs hm (hx.resolve_right fun e => by cases e) h.2

theorem Going.next {w : WriteCall} (h : Going s m w) (hne : ∀ r, w.point ≠ .done r) :
    ∃ w', w.next m = some w' ∧ (Undisturbed m w .call → Going s m w') ∧
      (¬ Undisturbed m w .call → Spoiled s m w') := by
  obtain ⟨t, point⟩ := w
  cases point with
  | isOk =>
    refine ⟨_, rfl, fun _ => ?_, fun hx => absurd trivial hx⟩
    cases hok : t.isOk with
    | true => exact h
    | false => exact ⟨h.buffer, h.offest⟩
  | capacity =>
    obtain ⟨w', hw, hg⟩ := Going.capacity hs hm h
    exact ⟨w', hw, fun _ => hg, fun hx => absurd trivial hx⟩
  | headerStatus =>
    obtain ⟨h1, h2⟩ := Going.headerCheck hs hm (p := .headerOpen) h h t.isOk
    exact ⟨_, rfl, h1, h2⟩
  | headerOpen =>
    obtain ⟨h1, h2⟩ := Going.headerCheck hs hm (p := .headerAppend) h h t._socket
    exact ⟨_, rfl, h1, h2⟩
  | headerAppend =>
    obtain ⟨u, es, hw, hr, hq⟩ := h.2.append
    refine ⟨⟨u, .payloadStatus⟩, ?_, fun _ => ⟨hr, ?_⟩, fun hx => absurd trivial hx⟩
    · exact next_headerAppend hw
    · show u.queued = _
      rw [hq, h.1.queued]
  | payloadStatus =>
    obtain ⟨h1, h2⟩ := Going.payloadCheck hs hm (p := .payloadOpen) h h t.isOk
    exact ⟨_, rfl, h1, h2⟩
  | payloadOpen =>
    obtain ⟨h1, h2⟩ := Going.payloadCheck hs hm (p := .payloadAppend) h h t._socket
    exact ⟨_, rfl, h1, h2⟩
  | payloadAppend =>
    have hr0 : Room t (m._msgData.length + 0) := h.1
    obtain ⟨u, es, hw, hr, hq⟩ := hr0.append
    refine ⟨⟨u, .done true⟩, ?_, fun _ => ?_, fun hx => absurd trivial hx⟩
    · exact next_payloadAppend hm hw
    · show u.queued = s.queued ++ m.wire
      rw [hq, h.2, hm.wire, List.append_assoc]
  | done r => exact absurd rfl (hne r)

theorem Spoiled.next {w : WriteCall} (h : Spoiled s m w) (hne : ∀ r, w.point ≠ .done r) :
    ∃ w', w.next m = some w' ∧ Spoiled s m w' := by
  obtain ⟨t, point⟩ := w
  cases point with
  | payloadStatus =>
    refine ⟨_, rfl, ?_⟩
    show Spoiled s m ⟨t, if t.isOk then _ else _⟩
    cases t.isOk with
    | true => exact h
    | false => exact ⟨rfl, h.2.less⟩
  | payloadOpen =>
    refine ⟨_, rfl, ?_⟩
    show Spoiled s m ⟨t, if t._socket then _ else _⟩
    cases t._socket with
    | true => exact h
    | false => exact ⟨rfl, h.2.less⟩
  | payloadAppend =>
    have hr0 : Room t (m._msgData.length + 0) := h.1
    obtain ⟨u, es, hw, hr, hq⟩ := hr0.append
    refine ⟨⟨u, .done true⟩, ?_, rfl, ?_⟩
    · exact next_payloadAppend hm hw
    · have h2 := h.2
      unfold Short at h2 ⊢
      show u.queued.length + 0 < _
      rw [hq, List.length_append]
      exact h2
  | done r => exact absurd rfl (hne r)
  | isOk => exact absurd h (fun hf => hf)
  | capacity => exact absurd h (fun hf => hf)
  | headerStatus => exact absurd h (fun hf => hf)
  | headerOpen => exact absurd h (fun hf => hf)
  | headerAppend => exact absurd h (fun hf => hf)

theorem Going.step {w w' : WriteCall} {e : WriteCallEvent} (h : Going s m w)
    (hst : w.step m e = some w') :
    (Undisturbed m w e → Going s m w') ∧ (¬ Undisturbed m w e → Spoiled s m w') := by
  cases e with
  | call =>
    obtain ⟨w1, h1, h2, h3⟩ := h.next hs hm (not_done_of_call hst)
    have e : w1 = w' := Option.some.inj (h1.symm.trans hst)
    rw [← e]
    exact ⟨h2, h3⟩
  | disconnect =>
    have e := Option.some.inj hst
    rw [← e]
    exact ⟨fun _ => h.interfere ⟨rfl, rfl, rfl⟩, fun hx => absurd trivial hx⟩
  | stop throws =>
    have e := Option.some.inj hst
    rw [← e]
    exact ⟨fun _ => h.interfere ⟨rfl, rfl, rfl⟩, fun hx => absurd trivial hx⟩

theorem Spoiled.step {w w' : WriteCall} {e : WriteCallEvent} (h : Spoiled s m w)
    (hst : w.step m e = some w') : Spoiled s m w' := by
  cases e with
  | call =>
    obtain ⟨w1, h1, h2⟩ := h.next hs hm (not_done_of_call hst)
    have e : w1 = w' := Option.some.inj (h1.symm.trans hst)
    rw [← e]
    exact h2
  | disconnect =>
    have e := Option.some.inj hst
    rw [← e]
    exact h.interfere ⟨rfl, rfl, rfl⟩
  | stop throws =>
    have e := Option.some.inj hst
    rw [← e]
    exact h.interfere ⟨rfl, rfl, rfl⟩

theorem Spoiled.not_truthful {w : WriteCall} (h : Spoiled s m w) {r : Bool}
    (hr : w.point = .done r) : ¬ Truthful s m r w.session := by
  unfold Spoiled at h
  rw [hr] at h
  obtain ⟨h1, h2⟩ := h
  intro ht
  rw [h1] at ht
  have ht' : w.session.queued = s.queued ++ m.wire := ht
  unfold Short at h2
  rw [ht', List.length_append] at h2
  omega

theorem Going.truthful {w : WriteCall} (h : Going s m w) {r : Bool} (hr : w.point = .done r) :
    Truthful s m r w.session := by
  unfold Going at h
  rw [hr] at h
  exact h

end

/-! ## without interference -/

theorem postWriteNull_rest {s t : TcpSession} {es : List Effect} (h : s.postWriteNull = (t, es)) :
    t.readSide = s.readSide := by
  have hp := (postWriteNull_same s).rest
  rw [h] at hp
  exact hp

theorem writeImpl_rest {s t : TcpSession} {data : List UInt8} {len : Int} {es : List Effect}
    (h : s.writeImpl data len = some (t, es)) : t.readSide = s.readSide := by
  unfold writeImpl at h
  dsimp only at h
  split at h
  · cases h
    rfl
  · split at h
    · cases h
    · split at h
      · have hp := postWriteNull_rest (Option.some.inj h)
        exact hp
      · cases h

section
variable {m : Message}

theorem exec_call {w w' : WriteCall} (k : Nat) (h : w.next m = some w') :
    exec (step m) w (List.replicate (k + 1) .call) = exec (step m) w' (List.replicate k .call) :=
  exec_cons (step m) _ h

theorem exec_append (m : Message) (status opened append after : WritePoint)
    {t u : TcpSession} {data : List UInt8} {len : Int} {es : List Effect} (hok : t.isOk = true)
    (h : t.writeNolock data len = some (u, es))
    (h1 : next m ⟨t, status⟩ = some ⟨t, if t.isOk then opened else after⟩)
    (h2 : next m ⟨t, opened⟩ = some ⟨t, if t._socket then append else after⟩)
    (h3 : next m ⟨t, append⟩ = (t.writeImpl data len).map fun r => ⟨r.1, after⟩) :
    ∃ k, ∀ j, exec (step m) ⟨t, status⟩ (List.replicate (k + j) .call)
      = exec (step m) ⟨u, after⟩ (List.replicate j .call) := by
  rw [if_pos hok] at h1
  unfold writeNolock at h
  rw [hok, if_neg (by decide)] at h
  by_cases hs : t._socket = true
  · rw [hs, if_neg (by decide)] at h
    rw [if_pos hs] at h2
    rw [h] at h3
    refine ⟨3, fun j => ?_⟩
    rw [show 3 + j = (j + 2) + 1 by omega, exec_call _ h1, exec_call _ h2, exec_call _ h3]
  · rw [Bool.eq_false_iff.mpr hs, if_pos (by decide)] at h
    rw [if_neg hs] at h2
    obtain ⟨rfl, _⟩ := Prod.mk.inj (Option.some.inj h)
    refine ⟨2, fun j => ?_⟩
    rw [show 2 + j = (j + 1) + 1 by omega, exec_call _ h1, exec_call _ h2]

theorem writeNolock_ok {t u : TcpSession} {data : List UInt8} {len : Int} {es : List Effect}
    (h : t.writeNolock data len = some (u, es)) : u.isOk = t.isOk := by
  have hr : u.readSide = t.readSide := by
    unfold writeNolock at h
    split at h
    · cases h
      rfl
    · split at h
      · cases h
        rfl
      · exact writeImpl_rest h
  have hst : u._status = t._status := readSide_field hr _status rfl rfl
  unfold isOk
  rw [hst]

/-- **The steps of a call that nothing interrupts are `writeMessage`.** -/
theorem writeMessage_steps {s t : TcpSession} {r : Bool} {es : List Effect}
    (h : s.writeMessage m = some (r, t, es)) :
    ∃ k, exec (step m) (begin s) (List.replicate k .call) = some ⟨t, .done r⟩ := by
  unfold TcpSession.writeMessage at h
  have h1 : next m (begin s) = some ⟨s, if s.isOk then .capacity else .done false⟩ := rfl
  by_cases hok : s.isOk = true
  swap
  · rw [Bool.eq_false_iff.mpr hok, if_pos (by decide)] at h
    rw [Bool.eq_false_iff.mpr hok] at h1
    cases h
    exact ⟨1, exec_call 0 h1⟩
  rw [hok, if_neg (by decide)] at h
  rw [hok] at h1
  by_cases hc : s.checkWriteBuffer m = true
  swap
  · rw [Bool.eq_false_iff.mpr hc, if_pos (by decide)] at h
    have h2 : next m ⟨s, .capacity⟩ = some ⟨s.postWriteNull.1, .done false⟩ := by
      rw [next]
      dsimp only
      rw [Bool.eq_false_iff.mpr hc]
      rfl
    cases h
    exact ⟨2, (exec_call 1 h1).trans (exec_call 0 h2)⟩
  rw [hc, if_neg (by decide)] at h
  have h2 : next m ⟨s, .capacity⟩
      = some ⟨s, if s._writeBuffer.isSome then .headerStatus else .done false⟩ := by
    rw [next]
    dsimp only
    rw [hc]
    rfl
  by_cases hb : s._writeBuffer.isSome = true
  swap
  · rw [if_neg hb] at h
    rw [if_neg hb] at h2
    cases h
    exact ⟨2, (exec_call 1 h1).trans (exec_call 0 h2)⟩
  rw [if_pos hb] at h h2
  split at h
  · cases h
  · next s1 e1 hw1 =>
    split at h
    · cases h
    · next s2 e2 hw2 =>
      cases h
      obtain ⟨k1, hk1⟩ := exec_append m .headerStatus .headerOpen .headerAppend .payloadStatus
        hok hw1 rfl rfl rfl
      obtain ⟨k2, hk2⟩ := exec_append m .payloadStatus .payloadOpen .payloadAppend (.done true)
        ((writeNolock_ok hw1).trans hok) hw2 rfl rfl rfl
      refine ⟨(k1 + k2 + 1) + 1, ?_⟩
      rw [exec_call _ h1]
      exact (exec_call _ h2).trans ((hk1 k2).trans (hk2 0))

end

end WriteCall

/-- **When `writeMessage` tells the truth.**  For every sound message and every interleaving, the
call can always go on to its end; its result is then truthful (`true`: header and payload were
appended as one piece, `false`: the write buffer is as before) exactly when every check of status and
socket before an append found the connection up, one before an empty payload excepted. -/
theorem truthful_iff_undisturbed (s : TcpSession) (hs : s.WriteOk) (m : Message) (hm : m.Sound)
    (es : List WriteCallEvent) (w : WriteCall)
    (h : exec (WriteCall.step m) (WriteCall.begin s) es = some w) :
    ((∀ r, w.point ≠ .done r) → ∃ w', WriteCall.step m w .call = some w') ∧
      ∀ r, w.point = .done r → (WriteCall.Truthful s m r w.session ↔
        Guarded (WriteCall.step m) (WriteCall.Undisturbed m) (WriteCall.begin s) es) := by
  have h0 : WriteCall.Going s m (WriteCall.begin s) := ⟨rfl, rfl, rfl⟩
  rcases exec_split (WriteCall.step m) (C := WriteCall.Undisturbed m)
    (fun a e b ha hst hc => (ha.step hs hm hst).1 hc)
    (fun a e b ha hst hc => (ha.step hs hm hst).2 hc)
    (fun a e b ha hst => ha.step hs hm hst) es _ w h0 h with ⟨hg, hw⟩ | ⟨hg, hw⟩
  · refine ⟨fun hd => ?_, fun r hr => ⟨fun _ => hg, fun _ => hw.truthful hs hm hr⟩⟩
    obtain ⟨w', h1, _⟩ := hw.next hs hm hd
    exact ⟨w', h1⟩
  · refine ⟨fun hd => ?_, fun r hr => ⟨fun ht => absurd ht (hw.not_truthful hs hm hr),
      fun hx => absurd hx hg⟩⟩
    obtain ⟨w', h1, _⟩ := hw.next hs hm hd
    exact ⟨w', h1⟩

/-- a `stop()` between the capacity check and the first append whose `shutdown` throws, and so leaves
the socket open -/
theorem truthful_iff_undisturbed_stop :
    ∃ w, exec (WriteCall.step (Message.ofStr RPCMessage [7]))
        (WriteCall.begin (established (List.replicate 40 0)))
        [.call, .call, .stop true, .call, .call, .call, .call, .call, .call] = some w ∧
      w.point = .done true ∧
      WriteCall.Truthful (established (List.replicate 40 0)) (Message.ofStr RPCMessage [7]) true
        w.session := by
  have h : (exec (WriteCall.step (Message.ofStr RPCMessage [7]))
      (WriteCall.begin (established (List.replicate 40 0)))
      [.call, .call, .stop true, .call, .call, .call, .call, .call, .call]).any
      (fun w => w.point == .done true) = true := by decide +kernel
  obtain ⟨w, hw, hp⟩ := (Option.any_eq_true ..).mp h
  have hd : w.point = .done true := by simpa using hp
  refine ⟨w, hw, hd, ?_⟩
  refine ((truthful_iff_undisturbed (established (List.replicate 40 0))
    (established_writeOk _ (by decide)) (Message.ofStr RPCMessage [7]) rfl _ w hw).2 true hd).mpr ?_
  exact guarded_of_guardedBy (B := fun w e => decide (WriteCall.Undisturbed _ w e)) _
    (fun _ _ hb => of_decide_eq_true hb) _ _ (by decide +kernel)

/-- The net thread sets the status to `Disconnected` between the two appends: `writeMessage` returns
`true` and the header is queued without its payload. -/
theorem not_always_truthful :
    ¬ ∀ (s : TcpSession) (m : Message) (es : List WriteCallEvent) (w : WriteCall) (r : Bool),
      s.WriteOk → m.Sound → exec (WriteCall.step m) (WriteCall.begin s) es = some w →
      w.point = .done r → WriteCall.Truthful s m r w.session := by
  intro h
  have hrun : (exec (WriteCall.step (Message.ofStr RPCMessage [7]))
      (WriteCall.begin (established (List.replicate 40 0)))
      [.call, .call, .call, .call, .call, .disconnect, .call]).any
      (fun w => w.point == .done true && w.session._writeBufferOffest == 14) = true := by
    decide +kernel
  obtain ⟨w, hw, hp⟩ := (Option.any_eq_true ..).mp hrun
  simp only [Bool.and_eq_true, beq_iff_eq] at hp
  have ht := h (established (List.replicate 40 0)) (Message.ofStr RPCMessage [7]) _ w true
    (established_writeOk _ (by decide)) rfl hw hp.1
  have ht' : w.session.queued = (Message.ofStr RPCMessage [7]).wire := ht
  have hl := congrArg List.length ht'
  unfold queued at hl
  rw [hp.2] at hl
  have hle : (slice (w.session._writeBuffer.getD []) 0 14).length ≤ 14 := List.length_take_le _ _
  rw [hl] at hle
  exact absurd hle (by decide)

end JMEngine.Net
