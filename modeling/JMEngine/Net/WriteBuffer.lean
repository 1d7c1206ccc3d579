import JMEngine.Net.TcpSession

/-!
# The write buffer: what is appended and what is sent

* `queued s`              the bytes that wait in the write buffer of `s`;
* `WriteOk s`             offset, size and allocation fit together, and the offset fits an `int`;
* `writeLoop_spec`        the loop of `handleWrite` splits what waited into sent and left;
* `handleWrite_spec`      the same for the whole handler, whatever `write_some` answers;
* `writeMessage_spec`     on an open connection a message is queued whole or refused.

Nothing here touches the rest of the session: `readSide` is what stays.
-/

set_option linter.unusedSectionVars false

namespace JMEngine.Net
open Bytes

namespace TcpSession

def queued (s : TcpSession) : List UInt8 := slice (s._writeBuffer.getD []) 0 s._writeBufferOffest

/-- everything but the write buffer and the state of its sending -/
def readSide (s : TcpSession) : TcpSession :=
  { s with _writeBuffer := none, _writeBufferOffest := 0, _writing := false, _writeBlockTimes := 0 }

structure WriteOk (s : TcpSession) : Prop where
  alloc : ∀ mem, s._writeBuffer = some mem → mem.length = s._writeBufferSize
  null : s._writeBuffer = none → s._writeBufferOffest = 0
  size : s._writeBufferSize < 9223372036854775808
  le : s._writeBufferOffest ≤ s._writeBufferSize
  int : s._writeBufferOffest < 2147483648

theorem new_writeOk (writeMem : Option (List UInt8)) (readMem : List UInt8) (n reconnect : Nat)
    (hw : ∀ mem, writeMem = some mem → mem.length = n) (hn : n < 9223372036854775808) :
    (new writeMem readMem n reconnect).WriteOk :=
  ⟨hw, fun _ => rfl, hn, Nat.zero_le _, by show 0 < 2147483648; omega⟩

theorem WriteOk.congr {s t : TcpSession} (h : s.WriteOk) (h1 : t._writeBuffer = s._writeBuffer)
    (h2 : t._writeBufferSize = s._writeBufferSize)
    (h3 : t._writeBufferOffest = s._writeBufferOffest) : t.WriteOk := by
  refine ⟨?_, ?_, ?_, ?_, ?_⟩
  · rw [h1, h2]; exact h.alloc
  · rw [h1, h3]; exact h.null
  · rw [h2]; exact h.size
  · rw [h2, h3]; exact h.le
  · rw [h3]; exact h.int

def established (mem : List UInt8) : TcpSession :=
  { TcpSession.new (some mem) mem mem.length 0 with _status := .Connected, _socket := true }

theorem established_writeOk (mem : List UInt8) (h : mem.length < 9223372036854775808) :
    (established mem).WriteOk :=
  (new_writeOk (some mem) mem mem.length 0 (fun _ e => by rw [← Option.some.inj e]) h).congr rfl rfl rfl

theorem queued_congr {s t : TcpSession} (h1 : t._writeBuffer = s._writeBuffer)
    (h3 : t._writeBufferOffest = s._writeBufferOffest) : t.queued = s.queued := by
  unfold queued
  rw [h1, h3]

theorem queued_of_none {s : TcpSession} (h : s._writeBufferOffest = 0) : s.queued = [] := by
  unfold queued
  rw [h]
  exact slice_zero _ _

theorem queued_of_some {s : TcpSession} {mem : List UInt8} (h : s._writeBuffer = some mem) :
    s.queued = slice mem 0 s._writeBufferOffest := by
  unfold queued
  rw [h]
  rfl

theorem readSide_field {α : Type} {s t : TcpSession} (h : t.readSide = s.readSide)
    (f : TcpSession → α) (hs : f s.readSide = f s) (ht : f t.readSide = f t) : f t = f s := by
  rw [← hs, ← ht, h]

/-- `t` has the same write buffer as `s` and the same rest -/
structure SameWrite (s t : TcpSession) : Prop where
  buffer : t._writeBuffer = s._writeBuffer
  offest : t._writeBufferOffest = s._writeBufferOffest
  rest : t.readSide = s.readSide

theorem SameWrite.size {s t : TcpSession} (h : SameWrite s t) :
    t._writeBufferSize = s._writeBufferSize :=
  readSide_field h.rest _writeBufferSize rfl rfl

theorem SameWrite.ok {s t : TcpSession} (h : SameWrite s t) (hs : s.WriteOk) : t.WriteOk :=
  hs.congr h.buffer h.size h.offest

theorem SameWrite.queued {s t : TcpSession} (h : SameWrite s t) : t.queued = s.queued :=
  queued_congr h.buffer h.offest

theorem postWriteNull_same (s : TcpSession) : SameWrite s s.postWriteNull.1 := by
  unfold postWriteNull
  split
  · exact ⟨rfl, rfl, rfl⟩
  · exact ⟨rfl, rfl, rfl⟩

theorem finishWrite_same (s : TcpSession) (error : ErrorCode) :
    SameWrite s (s.finishWrite error).1 := by
  unfold finishWrite
  split
  · dsimp only
    split
    · exact ⟨rfl, rfl, rfl⟩
    · have h := postWriteNull_same { s with _writeBlockTimes := s._writeBlockTimes + 1 }
      exact ⟨h.buffer, h.offest, h.rest⟩
  · exact ⟨rfl, rfl, rfl⟩

/-! ## the operations that it starts -/

theorem postWriteNull_effects (s : TcpSession) :
    ∀ f ∈ s.postWriteNull.2, f = Effect.async_write_some := by
  unfold postWriteNull
  intro f hf
  split at hf
  · cases hf
  · exact List.mem_singleton.mp hf

theorem finishWrite_effects (s : TcpSession) (error : ErrorCode) :
    ∀ f ∈ (s.finishWrite error).2, f = Effect.async_write_some := by
  unfold finishWrite
  intro f hf
  split at hf
  · dsimp only at hf
    split at hf
    · cases hf
    · exact postWriteNull_effects _ f hf
  · cases hf

/-- the ways through `handleWrite` -/
inductive Handles (s : TcpSession) (ws : List WriteSome) : TcpSession × List UInt8 × List Effect → Prop
  | wrote {mem : List UInt8} {w : Written} (hm : s._writeBuffer = some mem)
      (hw : writeLoop mem 0 s._writeBufferOffest ws = some w) {p : TcpSession × List Effect}
      (hp : finishWrite { s with
        _writing := false
        _writeBlockTimes := 0
        _writeBuffer := some w.mem
        _writeBufferOffest := w.offest } w.error = p) : Handles s ws (p.1, w.sent, p.2)
  | idle (k : Nat) (e : ErrorCode) {p : TcpSession × List Effect}
      (hp : finishWrite { s with _writing := false, _writeBlockTimes := k } e = p) :
      Handles s ws (p.1, [], p.2)

theorem handleWrite_cases {s : TcpSession} {error : ErrorCode} {ws : List WriteSome}
    {r : TcpSession × List UInt8 × List Effect} (h : s.handleWrite error ws = some r) :
    Handles s ws r := by
  unfold handleWrite at h
  dsimp only at h
  split at h
  · split at h
    · split at h
      · cases h
      · next hm =>
        split at h
        · cases h
        · next hw =>
          rw [← Option.some.inj h]
          exact .wrote hm hw rfl
    · rw [← Option.some.inj h]
      exact .idle 0 error rfl
  · rw [← Option.some.inj h]
    exact .idle s._writeBlockTimes error rfl

/-- the ways through `writeNolock` -/
inductive Nolock (s : TcpSession) (data : List UInt8) (len : Int) : TcpSession × List Effect → Prop
  | refused : Nolock s data len (s, [])
  | written {mem : List UInt8} (hm : s._writeBuffer = some mem)
      (hfit : sizeT (int32 (s._writeBufferOffest + len)) ≤ s._writeBufferSize)
      (hd : sizeT len ≤ data.length) (ho : s._writeBufferOffest + sizeT len ≤ mem.length) :
      Nolock s data len (postWriteNull { s with
        _writeBuffer := some (patch mem s._writeBufferOffest (data.take (sizeT len)))
        _writeBufferOffest := sizeT (s._writeBufferOffest + len) })

theorem writeNolock_cases {s : TcpSession} {data : List UInt8} {len : Int}
    {r : TcpSession × List Effect} (h : s.writeNolock data len = some r) : Nolock s data len r := by
  unfold writeNolock writeImpl at h
  dsimp only at h
  split at h
  · rw [← Option.some.inj h]
    exact .refused
  · split at h
    · rw [← Option.some.inj h]
      exact .refused
    · split at h
      · rw [← Option.some.inj h]
        exact .refused
      · next hfit =>
        split at h
        · cases h
        · next hm =>
          split at h
          · next hc =>
            rw [← Option.some.inj h]
            exact .written hm (Nat.le_of_not_gt hfit) hc.1 hc.2
          · cases h

/-- the ways through `writeMessage` -/
inductive Writes (s : TcpSession) (m : Message) : Bool × TcpSession × List Effect → Prop
  | refused : Writes s m (false, s, [])
  | full : Writes s m (false, s.postWriteNull.1, s.postWriteNull.2)
  | written {s1 s2 : TcpSession} {e1 e2 : List Effect} (hb : s._writeBuffer.isSome = true)
      (h1 : s.writeNolock m.header MessageHeaderLength = some (s1, e1))
      (h2 : s1.writeNolock m._msgData (int32 m.messageDataLen) = some (s2, e2)) :
      Writes s m (true, s2, e1 ++ e2)

theorem writeMessage_cases {s : TcpSession} {m : Message} {r : Bool × TcpSession × List Effect}
    (h : s.writeMessage m = some r) : Writes s m r := by
  unfold writeMessage at h
  dsimp only at h
  split at h
  · rw [← Option.some.inj h]
    exact .refused
  · split at h
    · rw [← Option.some.inj h]
      exact .full
    · split at h
      · next hb =>
        split at h
        · cases h
        · next h1 =>
          split at h
          · cases h
          · next h2 =>
            rw [← Option.some.inj h]
            exact .written hb h1 h2
      · rw [← Option.some.inj h]
        exact .refused

theorem handleWrite_effects {s t : TcpSession} {error : ErrorCode} {ws : List WriteSome}
    {sent : List UInt8} {es : List Effect} (h : s.handleWrite error ws = some (t, sent, es)) :
    ∀ f ∈ es, f = Effect.async_write_some := by
  cases handleWrite_cases h with
  | wrote _ _ hp => exact hp ▸ finishWrite_effects _ _
  | idle _ _ hp => exact hp ▸ finishWrite_effects _ _

theorem handleWrite_readSide {s t : TcpSession} {error : ErrorCode} {ws : List WriteSome}
    {sent : List UInt8} {es : List Effect} (h : s.handleWrite error ws = some (t, sent, es)) :
    t.readSide = s.readSide := by
  cases handleWrite_cases h with
  | wrote _ _ hp => exact hp ▸ (finishWrite_same _ _).rest
  | idle _ _ hp => exact hp ▸ (finishWrite_same _ _).rest

theorem writeNolock_readSide {s : TcpSession} {data : List UInt8} {len : Int}
    {r : TcpSession × List Effect} (h : s.writeNolock data len = some r) :
    r.1.readSide = s.readSide := by
  cases writeNolock_cases h with
  | refused => rfl
  | written => exact (postWriteNull_same _).rest

theorem writeMessage_readSide {s t : TcpSession} {m : Message} {r : Bool} {es : List Effect}
    (h : s.writeMessage m = some (r, t, es)) : t.readSide = s.readSide := by
  cases writeMessage_cases h with
  | refused => rfl
  | full => exact (postWriteNull_same s).rest
  | written _ h1 h2 => exact (writeNolock_readSide h2).trans (writeNolock_readSide h1)

theorem writeNolock_effects {s : TcpSession} {data : List UInt8} {len : Int}
    {r : TcpSession × List Effect} (h : s.writeNolock data len = some r) :
    ∀ f ∈ r.2, f = Effect.async_write_some := by
  cases writeNolock_cases h with
  | refused => exact fun f hf => by cases hf
  | written => exact postWriteNull_effects _

theorem writeMessage_effects {s t : TcpSession} {m : Message} {r : Bool} {es : List Effect}
    (h : s.writeMessage m = some (r, t, es)) : ∀ f ∈ es, f = Effect.async_write_some := by
  cases writeMessage_cases h with
  | refused => exact fun f hf => by cases hf
  | full => exact postWriteNull_effects s
  | written _ h1 h2 =>
    intro f hf
    rcases List.mem_append.mp hf with hf | hf
    · exact writeNolock_effects h1 f hf
    · exact writeNolock_effects h2 f hf

/-! ## sending -/

/-- what is left is at the top, what was sent stood before it -/
structure Written.Splits (w : Written) (mem : List UInt8) (len offest : Nat) : Prop where
  length : w.mem.length = mem.length
  le : w.offest ≤ offest
  split : slice mem len offest = w.sent ++ slice w.mem 0 w.offest

theorem copyToTop_spec (mem : List UInt8) (len offest : Nat) (error : ErrorCode)
    (h : len + offest ≤ mem.length) :
    ∃ w, copyToTop mem len offest error = some w ∧ w.Splits mem len offest := by
  have hl := length_slice mem len offest h
  unfold copyToTop memmove
  by_cases h0 : len > 0
  · rw [if_pos h0, if_pos ⟨h, by omega⟩]
    refine ⟨_, rfl, ?_, Nat.le_refl _, ?_⟩
    · exact length_patch mem _ 0 (by omega)
    · have e := slice_patch_self mem (slice mem len offest) 0 (Nat.zero_le _)
      rw [hl] at e
      exact e.symm
  · rw [if_neg h0]
    have e : len = 0 := by omega
    rw [e]
    exact ⟨_, rfl, rfl, Nat.le_refl _, rfl⟩

theorem writeLoop_spec (mem : List UInt8) (ws : List WriteSome) : ∀ len offest,
    len + offest ≤ mem.length →
    ∃ w, writeLoop mem len offest ws = some w ∧ w.Splits mem len offest := by
  induction ws with
  | nil =>
    intro len offest h
    exact copyToTop_spec mem len offest .would_block h
  | cons a ws ih =>
    intro len offest h
    cases a with
    | failed e => exact copyToTop_spec mem len offest e h
    | wrote k =>
      rw [writeLoop]
      by_cases h0 : min k offest = 0
      · rw [if_pos h0]
        exact copyToTop_spec mem len offest .success h
      rw [if_neg h0]
      have hs : slice mem len offest
          = slice mem len (min k offest) ++ slice mem (len + min k offest) (offest - min k offest) := by
        rw [← slice_add]
        congr 1
        omega
      by_cases h1 : offest - min k offest > 0
      · rw [if_pos h1]
        obtain ⟨w, hw, hwl, hwo, hws⟩ := ih (len + min k offest) (offest - min k offest) (by omega)
        rw [hw]
        refine ⟨_, rfl, hwl, by show w.offest ≤ offest; omega, ?_⟩
        show slice mem len offest = (slice mem len (min k offest) ++ w.sent) ++ slice w.mem 0 w.offest
        rw [List.append_assoc, ← hws]
        exact hs
      · rw [if_neg h1]
        have e : offest - min k offest = 0 := by omega
        rw [e, slice_zero, List.append_nil] at hs
        refine ⟨_, rfl, rfl, Nat.zero_le _, ?_⟩
        show slice mem len offest = slice mem len (min k offest) ++ slice mem 0 0
        rw [slice_zero, List.append_nil]
        exact hs

/-- the outcome of `handleWrite` -/
structure Sends (s t : TcpSession) (sent : List UInt8) : Prop where
  ok : t.WriteOk
  queued : s.queued = sent ++ t.queued
  rest : t.readSide = s.readSide

theorem Sends.nothing {s t : TcpSession} (hs : s.WriteOk) (h : SameWrite s t) : Sends s t [] :=
  ⟨h.ok hs, h.queued.symm, h.rest⟩

theorem Sends.drain {s : TcpSession} (hs : s.WriteOk) {mem : List UInt8}
    (hm : s._writeBuffer = some mem) {w : Written}
    (hw : w.Splits mem 0 s._writeBufferOffest) {t : TcpSession}
    (ht : SameWrite { s with
      _writeBuffer := some w.mem, _writeBufferOffest := w.offest, _writing := false,
      _writeBlockTimes := 0 } t) : Sends s t w.sent := by
  have hle := hs.le
  have hint := hs.int
  have hwo := hw.le
  refine ⟨ht.ok ⟨?_, (fun h => by cases h), hs.size, ?_, ?_⟩, ?_, ht.rest⟩
  · intro m e
    rw [← Option.some.inj e, hw.length]
    exact hs.alloc mem hm
  · show w.offest ≤ s._writeBufferSize
    omega
  · show w.offest < 2147483648
    omega
  · rw [ht.queued, queued_of_some hm]
    exact hw.split

/-- **`handleWrite` neither loses nor repeats a byte**, for every completion and every sequence of
answers. -/
theorem handleWrite_spec {s : TcpSession} (hs : s.WriteOk) (error : ErrorCode)
    (ws : List WriteSome) :
    ∃ t sent es, s.handleWrite error ws = some (t, sent, es) ∧ Sends s t sent := by
  unfold handleWrite
  by_cases he : error = .success
  · simp only [if_pos he]
    by_cases h0 : s._writeBufferOffest > 0
    · simp only [if_pos h0]
      cases hm : s._writeBuffer with
      | none => exact absurd (hs.null hm) (by omega)
      | some mem =>
        have hl := hs.alloc mem hm
        have hle := hs.le
        obtain ⟨w, hw, hsp⟩ := writeLoop_spec mem ws 0 s._writeBufferOffest (by omega)
        simp only [hw]
        exact ⟨_, _, _, rfl, Sends.drain hs hm hsp (finishWrite_same _ _)⟩
    · simp only [if_neg h0]
      have h := finishWrite_same { s with _writing := false, _writeBlockTimes := 0 } error
      exact ⟨_, _, _, rfl, Sends.nothing hs ⟨h.buffer, h.offest, h.rest⟩⟩
  · simp only [if_neg he]
    have h := finishWrite_same { s with _writing := false } error
    exact ⟨_, _, _, rfl, Sends.nothing hs ⟨h.buffer, h.offest, h.rest⟩⟩

theorem handleWrite_flush {s : TcpSession} (hs : s.WriteOk) (k : Nat) (h0 : 0 < s.queued.length)
    (hk : s.queued.length ≤ k) :
    ∃ t es, s.handleWrite .success [.wrote k] = some (t, s.queued, es) ∧
      t._writeBufferOffest = 0 ∧ t._writeBuffer = s._writeBuffer ∧ t.readSide = s.readSide := by
  have hoff : s._writeBufferOffest ≠ 0 := fun e => by
    rw [queued_of_none e] at h0
    exact absurd h0 (Nat.lt_irrefl 0)
  cases hm : s._writeBuffer with
  | none => exact absurd (hs.null hm) hoff
  | some mem =>
    have hl := hs.alloc mem hm
    have hle := hs.le
    have hq := queued_of_some hm
    have hlen : s.queued.length = s._writeBufferOffest := by
      rw [hq, length_slice mem 0 _ (by omega)]
    have hmin : min k s._writeBufferOffest = s._writeBufferOffest := by omega
    have hloop : writeLoop mem 0 s._writeBufferOffest [.wrote k]
        = some ⟨mem, 0, s.queued, .success⟩ := by
      rw [writeLoop]
      simp only [hmin]
      rw [if_neg hoff, if_neg (by omega), hq]
    unfold handleWrite
    simp only [if_pos, hm, hloop, if_pos (Nat.pos_of_ne_zero hoff)]
    exact ⟨_, _, rfl, rfl, rfl, rfl⟩

/-! ## appending -/

structure Appends (s t : TcpSession) (data : List UInt8) : Prop where
  ok : t.WriteOk
  buffer : t._writeBuffer.isSome = s._writeBuffer.isSome
  offest : t._writeBufferOffest = s._writeBufferOffest + data.length
  queued : t.queued = s.queued ++ data
  rest : t.readSide = s.readSide

/-- the bound of `writeImpl`: not `destSize > _writeBufferSize` -/
def fits (s : TcpSession) (len : Int) : Bool :=
  !decide (sizeT (int32 (s._writeBufferOffest + len)) > s._writeBufferSize)

section
variable {s : TcpSession} (hs : s.WriteOk)
include hs

theorem writeImpl_appends {mem : List UInt8} (hm : s._writeBuffer = some mem) (data : List UInt8)
    (hd : s._writeBufferOffest + data.length ≤ s._writeBufferSize)
    (hi : s._writeBufferOffest + data.length < 2147483648) :
    ∃ t es, s.writeImpl data data.length = some (t, es) ∧ Appends s t data := by
  have hsz := hs.size
  have hl := hs.alloc mem hm
  have hdest : sizeT (int32 (s._writeBufferOffest + (data.length : Int)))
      = s._writeBufferOffest + data.length := by
    rw [int32_of_range _ (by omega) (by omega), sizeT_of_nonneg _ (by omega) (by omega)]
    omega
  have hoff : sizeT (s._writeBufferOffest + (data.length : Int))
      = s._writeBufferOffest + data.length := by
    rw [sizeT_of_nonneg _ (by omega) (by omega)]
    omega
  have hlen : sizeT (data.length : Int) = data.length := by
    rw [sizeT_of_nonneg _ (by omega) (by omega)]
    omega
  unfold writeImpl
  simp only [hdest, hoff, hlen]
  rw [if_neg (by omega), hm]
  dsimp only
  rw [if_pos ⟨Nat.le_refl _, by omega⟩, List.take_length]
  have hw := postWriteNull_same { s with
    _writeBuffer := some (patch mem s._writeBufferOffest data)
    _writeBufferOffest := s._writeBufferOffest + data.length }
  generalize postWriteNull _ = p at hw ⊢
  obtain ⟨t, es⟩ := p
  refine ⟨t, es, rfl, hw.ok ⟨?_, (fun h => by cases h), hs.size, hd, hi⟩, ?_, hw.offest, ?_, hw.rest⟩
  · intro m e
    rw [← Option.some.inj e, length_patch _ _ _ (by omega)]
    exact hl
  · rw [hw.buffer, hm]
    rfl
  · rw [hw.queued, queued_of_some hm]
    have e := slice_patch_end mem data s._writeBufferOffest 0 (by omega) (Nat.zero_le _)
    rw [Nat.sub_zero, Nat.sub_zero] at e
    exact e

/-- The comparison is that of the exact sum: a sum beyond `INT_MAX` turns negative and is taken for a
huge size. -/
theorem fits_iff {len : Int} (h0 : 0 ≤ len) (hl : len < 2147483648) :
    s.fits len = true ↔ s._writeBufferOffest + len ≤ s._writeBufferSize ∧
      s._writeBufferOffest + len < 2147483648 := by
  have hint := hs.int
  have hsz := hs.size
  unfold fits
  rw [Bool.not_eq_true', decide_eq_false_iff_not]
  by_cases hb : s._writeBufferOffest + len < 2147483648
  · have hdest : sizeT (int32 (s._writeBufferOffest + len)) = (s._writeBufferOffest + len).toNat := by
      rw [int32_of_range _ (by omega) (by omega), sizeT_of_nonneg _ (by omega) (by omega)]
    rw [hdest]
    omega
  · have hbig : 9223372036854775808 ≤ sizeT (int32 (s._writeBufferOffest + len)) := by
      rw [int32_upper _ (by omega) (by omega)]
      exact sizeT_of_neg _ (by omega) (by omega)
    omega

theorem checkWriteBuffer_iff {m : Message} (hm : m.Sound) :
    s.checkWriteBuffer m = true ↔
      s._writeBufferOffest + m.wire.length ≤ s._writeBufferSize ∧
      s._writeBufferOffest + m.wire.length < 2147483648 := by
  have hd := hm.data_lt
  have hfits : s.checkWriteBuffer m = s.fits m._totalLen.toInt := by
    unfold checkWriteBuffer fits
    dsimp only
    split
    · rename_i h
      rw [decide_eq_true h]
      rfl
    · rename_i h
      rw [decide_eq_false h]
      rfl
  rw [hfits, hm, fits_iff hs (by omega) (by omega), hm.length_wire]
  omega

theorem writeNolock_appends (hok : s._status = .Connected) (hopen : s._socket = true)
    {mem : List UInt8} (hm : s._writeBuffer = some mem) (data : List UInt8)
    (hd : s._writeBufferOffest + data.length ≤ s._writeBufferSize)
    (hi : s._writeBufferOffest + data.length < 2147483648) :
    ∃ t es, s.writeNolock data data.length = some (t, es) ∧ Appends s t data := by
  have h1 : s.isOk = true := decide_eq_true hok
  unfold writeNolock
  rw [h1, hopen, if_neg (by decide), if_neg (by decide)]
  exact writeImpl_appends hs hm data hd hi

end

theorem int32_messageDataLen {m : Message} (hm : m.Sound) :
    int32 m.messageDataLen = (m._msgData.length : Int) := by
  have hd := hm.data_lt
  rw [hm.messageDataLen, int32_of_range _ (by omega) (by omega)]

/-- the outcome of a `writeMessage` that returned `r` -/
structure Queues (s t : TcpSession) (m : Message) (r : Bool) : Prop where
  ok : t.WriteOk
  queued : t.queued = s.queued ++ (if r then m.wire else [])
  rest : t.readSide = s.readSide

theorem Queues.refused {s t : TcpSession} (hs : s.WriteOk) (h : SameWrite s t) (m : Message) :
    Queues s t m false :=
  ⟨h.ok hs, h.queued.trans (List.append_nil _).symm, h.rest⟩

theorem SameWrite.refl (s : TcpSession) : SameWrite s s := ⟨rfl, rfl, rfl⟩

/-- **On an open connection a message is queued whole, or refused and nothing is.** -/
theorem writeMessage_spec {s : TcpSession} (hs : s.WriteOk)
    (hopen : s._status = .Connected → s._socket = true) {m : Message} (hm : m.Sound) :
    ∃ r t es, s.writeMessage m = some (r, t, es) ∧ Queues s t m r ∧
      (r = true ↔ s._status = .Connected ∧ s._writeBuffer.isSome = true ∧
        s._writeBufferOffest + m.wire.length ≤ s._writeBufferSize ∧
        s._writeBufferOffest + m.wire.length < 2147483648) := by
  unfold writeMessage
  by_cases hok : s._status = .Connected
  swap
  · have h1 : s.isOk = false := decide_eq_false hok
    rw [h1]
    exact ⟨_, _, _, rfl, Queues.refused hs (SameWrite.refl s) m, (fun h => by cases h),
      (fun h => absurd h.1 hok)⟩
  have h1 : s.isOk = true := decide_eq_true hok
  rw [h1]
  cases hc : s.checkWriteBuffer m with
  | false =>
    refine ⟨_, _, _, rfl, Queues.refused hs (postWriteNull_same s) m, (fun h => by cases h), ?_⟩
    intro h
    rw [(checkWriteBuffer_iff hs hm).mpr h.2.2] at hc
    cases hc
  | true =>
    cases hb : s._writeBuffer with
    | none =>
      exact ⟨_, _, _, rfl, Queues.refused hs (SameWrite.refl s) m, (fun h => by cases h),
        (fun h => by cases h.2.1)⟩
    | some mem =>
      obtain ⟨hfit, hint⟩ := (checkWriteBuffer_iff hs hm).mp hc
      have hlw := hm.length_wire
      have hlh : m.header.length = 14 := m.length_header
      obtain ⟨t1, e1, hw1, ha1⟩ :=
        writeNolock_appends hs hok (hopen hok) hb m.header (by omega) (by omega)
      have hsome := ha1.buffer
      rw [hb] at hsome
      obtain ⟨mem1, hb1⟩ := Option.isSome_iff_exists.mp hsome
      have hoff := ha1.offest
      have hst : t1._status = s._status := readSide_field ha1.rest _status rfl rfl
      have hso : t1._socket = s._socket := readSide_field ha1.rest _socket rfl rfl
      have hsz : t1._writeBufferSize = s._writeBufferSize := readSide_field ha1.rest _writeBufferSize rfl rfl
      obtain ⟨t2, e2, hw2, ha2⟩ :=
        writeNolock_appends ha1.ok (hst.trans hok) (hso.trans (hopen hok)) hb1 m._msgData
          (by omega) (by omega)
      have hlen : ((MessageHeaderLength : Nat) : Int) = (m.header.length : Int) := by
        rw [m.length_header]
      refine ⟨true, t2, e1 ++ e2, ?_, ⟨ha2.ok, ?_, ha2.rest.trans ha1.rest⟩,
        ⟨fun _ => ⟨hok, rfl, hfit, hint⟩, fun _ => rfl⟩⟩
      · rw [if_neg (by decide), if_neg (by decide), if_pos (Option.isSome_some), hlen, hw1]
        dsimp only
        rw [int32_messageDataLen hm, hw2]
      · rw [ha2.queued, ha1.queued, List.append_assoc, if_pos rfl, hm.wire]

end TcpSession

end JMEngine.Net
