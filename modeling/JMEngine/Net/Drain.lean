import JMEngine.Lib.Framing
import JMEngine.Lib.Runs
import JMEngine.Net.ReadBuffer

/-!
# The drain loop of `TcpSession::handleRead` decodes the received bytes

`wireFramer` is the frame format: a little-endian `int` length `L ≥ 14`, then the rest of the `L`
bytes.  `drainLoop` is the `while(1)` of `handleRead`; its posts are the memory that each
`getMessage` handed out.

* `getMessage_checked`   one call: the verdict of the format on the pending bytes;
* `drain_spec`           the loop: the maximal decoding of the pending bytes, as long as the number of
                         bytes that a compaction moves fits an `int` (`Safe`).
-/

set_option linter.unusedSectionVars false

namespace JMEngine.Net
open Bytes Framing Runs

/-! ## the frame format -/

def frameLength (xs : List UInt8) : Int := int32 (leNat (xs.take 4))

def scanFrame (xs : List UInt8) : Verdict :=
  if xs.length < MessageHeaderLength then .more
  else if frameLength xs < MessageHeaderLength then .bad
  else if frameLength xs ≤ xs.length then .frame (frameLength xs).toNat
  else .more

theorem frameLength_append (xs ys : List UInt8) (h : 14 ≤ xs.length) :
    frameLength (xs ++ ys) = frameLength xs := by
  unfold frameLength
  rw [List.take_append_of_le_length (by omega)]

theorem scanFrame_frame {xs : List UInt8} {k : Nat} :
    scanFrame xs = .frame k ↔ 14 ≤ k ∧ k ≤ xs.length ∧ frameLength xs = k := by
  unfold scanFrame MessageHeaderLength
  split
  · exact ⟨(fun h => by cases h), (fun h => by omega)⟩
  · split
    · exact ⟨(fun h => by cases h), (fun h => by omega)⟩
    · split
      · rw [Verdict.frame.injEq]
        constructor <;> intro h <;> omega
      · exact ⟨(fun h => by cases h), (fun h => by omega)⟩

/-- at least a header is there, and its length field is below the length of a header -/
def Malformed (xs : List UInt8) : Prop :=
  MessageHeaderLength ≤ xs.length ∧ frameLength xs < MessageHeaderLength

instance (xs : List UInt8) : Decidable (Malformed xs) := inferInstanceAs (Decidable (_ ∧ _))

theorem scanFrame_bad {xs : List UInt8} : scanFrame xs = .bad ↔ Malformed xs := by
  unfold scanFrame Malformed
  split
  · exact ⟨(fun h => by cases h), (fun h => by omega)⟩
  · split
    · exact ⟨fun _ => ⟨by omega, by omega⟩, fun _ => rfl⟩
    · split
      · exact ⟨(fun h => by cases h), (fun h => by omega)⟩
      · exact ⟨(fun h => by cases h), (fun h => by omega)⟩

def wireFramer : Framer UInt8 where
  scan := scanFrame
  scan_nil := rfl
  scan_pos := fun xs k h => by
    have := scanFrame_frame.mp h
    omega
  frame_append := fun xs ys k h => by
    obtain ⟨h1, h2, h3⟩ := scanFrame_frame.mp h
    apply scanFrame_frame.mpr
    rw [frameLength_append xs ys (by omega), List.length_append]
    exact ⟨h1, by omega, h3⟩
  bad_append := fun xs ys h => by
    obtain ⟨h1, h2⟩ := scanFrame_bad.mp h
    have h1' : 14 ≤ xs.length := h1
    apply scanFrame_bad.mpr
    refine ⟨?_, ?_⟩
    · rw [List.length_append]
      exact le_trans h1 (Nat.le_add_right _ _)
    · rw [frameLength_append xs ys h1']
      exact h2

theorem wireFramer_scan (xs : List UInt8) : wireFramer.scan xs = scanFrame xs := rfl

theorem scanFrame_more_lt {xs ys : List UInt8} {k : Nat} (h : scanFrame xs = .more)
    (hk : scanFrame (xs ++ ys) = .frame k) : xs.length < k := by
  obtain ⟨h1, h2, h3⟩ := scanFrame_frame.mp hk
  by_contra hc
  rw [frameLength_append xs ys (by omega)] at h3
  have : scanFrame xs = .frame k := scanFrame_frame.mpr ⟨h1, by omega, h3⟩
  rw [h] at this
  cases this

theorem whole_iff {f : List UInt8} :
    wireFramer.Whole f ↔ 14 ≤ f.length ∧ frameLength f = f.length := by
  have h : wireFramer.Whole f ↔ scanFrame f = .frame f.length := Iff.rfl
  rw [h, scanFrame_frame]
  exact ⟨fun h => ⟨h.1, h.2.2⟩, fun h => ⟨h.1, le_refl _, h.2⟩⟩

theorem wire_whole {m : Message} (h : m.Sound) : wireFramer.Whole m.wire := by
  have hl := h.length_wire
  have hd := h.data_lt
  refine whole_iff.mpr ⟨by omega, ?_⟩
  have ht : m.wire.take 4 = leBytes 4 m._totalLen.toNat := by
    have := (Message.slice_header m m._msgData).1
    rw [h.wire]
    exact this
  unfold frameLength
  rw [ht, leNat_leBytes 4 _ m._totalLen.isLt, h.toNat_totalLen, hl,
    int32_of_range _ (by omega) (by omega)]

/-! ## one call of `getMessage` -/

namespace ReadBuffer

theorem Ok.nextMessageLength {b : ReadBuffer} (h : b.Ok) :
    b.nextMessageLength =
      match scanFrame b.pending with
      | .more => ReadBufferNoMessage
      | .bad => ReadBufferError
      | .frame k => k := by
  have h2 := h.handle_le
  have hl := h.length_pending
  unfold ReadBuffer.nextMessageLength scanFrame
  by_cases hs : b.pending.length < MessageHeaderLength
  · rw [if_pos hs, if_neg (by omega)]
  · have ht : frameLength b.pending = int32 (leNat (slice b._buffer b._handleOffest 4)) := by
      show int32 (leNat (b.pending.take 4)) = _
      unfold MessageHeaderLength at hs
      rw [pending, take_slice _ _ _ _ (by omega)]
    rw [if_neg hs, if_pos (by omega), ← ht]
    by_cases hb : frameLength b.pending < MessageHeaderLength
    · rw [if_pos hb, if_pos hb]
    · rw [if_neg hb, if_neg hb]
      by_cases hf : frameLength b.pending ≤ b.pending.length
      · rw [if_pos hf, if_pos (by omega)]
        show frameLength b.pending = ((frameLength b.pending).toNat : Int)
        omega
      · rw [if_neg hf, if_neg (by omega)]

/-- the result of a call, in terms of the format's verdict on what is pending after the check -/
def verdictResult (b' : ReadBuffer) : Int × Option (List UInt8) × ReadBuffer :=
  match scanFrame b'.pending with
  | .more => (ReadBufferNoMessage, none, b')
  | .bad => (ReadBufferError, none, b')
  | .frame k => ((k : Int), some (b'.pending.take k),
      { b' with _handleOffest := b'._handleOffest + k })

theorem getMessage_checked {b b' : ReadBuffer} (hb : b.onCheckBuffer = some b') (ho : b'.Ok) :
    b.getMessage = some (verdictResult b') := by
  have hn := ho.nextMessageLength
  have h2 := ho.handle_le
  have hl := ho.length_pending
  unfold getMessage verdictResult
  rw [hb]
  cases hs : scanFrame b'.pending with
  | more =>
    rw [hs] at hn
    simp only [hn, ReadBufferNoMessage, MessageHeaderLength]
    rw [if_neg (by omega)]
  | bad =>
    rw [hs] at hn
    simp only [hn, ReadBufferError, MessageHeaderLength]
    rw [if_neg (by omega)]
  | frame k =>
    obtain ⟨k1, k2, _⟩ := scanFrame_frame.mp hs
    rw [hs] at hn
    simp only at hn
    simp only [hn, MessageHeaderLength, Int.toNat_natCast]
    rw [if_pos ⟨by omega, by omega⟩]
    have hp : slice b'._buffer b'._handleOffest k = b'.pending.take k := by
      rw [pending, take_slice _ _ _ _ (by omega)]
    rw [hp]

theorem Ok.hand {b : ReadBuffer} (h : b.Ok) {k : Nat} (hk : k ≤ b.pending.length) :
    ({ b with _handleOffest := b._handleOffest + k } : ReadBuffer).Ok ∧
      ({ b with _handleOffest := b._handleOffest + k } : ReadBuffer).pending = b.pending.drop k := by
  have h2 := h.handle_le
  have hl := h.length_pending
  refine ⟨⟨h.size, h.alloc, ?_, h.offest_le⟩, ?_⟩
  · show b._handleOffest + k ≤ b._buffOffest
    omega
  · show slice b._buffer (b._handleOffest + k) (b._buffOffest - (b._handleOffest + k)) = _
    rw [pending, drop_slice]
    congr 1
    omega

end ReadBuffer

/-! ## the loop -/

inductive Exit where
  | noMessage
  | error
  /-- no defined behaviour -/
  | fault
  /-- still in the loop -/
  | running
  deriving DecidableEq, Repr

structure Drained where
  posts : List (List UInt8)
  buff : ReadBuffer
  exit : Exit
  deriving DecidableEq, Repr

/-- at most `fuel` rounds of the `while(1)` of `handleRead` -/
def drainLoop : Nat → ReadBuffer → Drained
  | 0, b => ⟨[], b, .running⟩
  | fuel+1, b =>
    match b.getMessage with
    | none => ⟨[], b, .fault⟩
    | some (c, out, b') =>
      if c = ReadBufferError then ⟨[], b', .error⟩
      else if c = ReadBufferNoMessage then ⟨[], b', .noMessage⟩
      else
        match out with
        -- `data_ptr` would still be null
        | none => ⟨[], b', .fault⟩
        | some data =>
          let d := drainLoop fuel b'
          ⟨data :: d.posts, d.buff, d.exit⟩

/-- the loop: every round but the last hands out at least one byte -/
def drain (b : ReadBuffer) : Drained := drainLoop (b._buffOffest + 1) b

/-- the handled offset after `onCheckBuffer` -/
def settle (n h : Nat) : Nat := if h > n / 2 + 1 then 0 else h

theorem settle_low (n h : Nat) : settle n h ≤ n / 2 + 1 := by
  unfold settle
  split <;> omega

theorem settle_of_low {n h : Nat} (hh : h ≤ n / 2 + 1) : settle n h = h := by
  unfold settle
  rw [if_neg (by omega)]

/-- the offset at which the frame after `fs` starts, when the first of `fs` starts at `h` -/
def startAfter (n h : Nat) (fs : List (List UInt8)) : Nat :=
  fs.foldl (fun h f => settle n (h + f.length)) h

theorem startAfter_cons (n h : Nat) (f : List UInt8) (fs : List (List UInt8)) :
    startAfter n h (f :: fs) = startAfter n (settle n (h + f.length)) fs := rfl

theorem startAfter_low (n h : Nat) (fs : List (List UInt8)) (hh : h ≤ n / 2 + 1) :
    startAfter n h fs ≤ n / 2 + 1 := by
  induction fs generalizing h with
  | nil => exact hh
  | cons f fs ih => exact ih _ (settle_low n _)

/-- The next compactions all move less than `2^31` bytes. -/
def Safe (b : ReadBuffer) : Prop :=
  b.Movable ∧ ∀ k, scanFrame b.pending = .frame k →
    b._buffSize ≤ 4294967298 ∨ b.pending.length < 2147483648 + k

theorem Movable_of_small {b : ReadBuffer} (h : b.Ok)
    (hs : b._buffSize ≤ 4294967298 ∨ b.pending.length < 2147483648) : b.Movable := by
  intro hh
  have hl := h.length_pending
  have h3 := h.offest_le
  rcases hs with hs | hs <;> omega

section
variable {b b' : ReadBuffer} {k : Nat}

theorem hand_checked (hc : ReadBuffer.Checked b b') (hs : scanFrame b.pending = .frame k) :
    ({ b' with _handleOffest := b'._handleOffest + k } : ReadBuffer).Ok ∧
      ({ b' with _handleOffest := b'._handleOffest + k } : ReadBuffer).pending
        = b.pending.drop k := by
  obtain ⟨_, k2, _⟩ := scanFrame_frame.mp hs
  have hx := hc.ok.hand (k := k) (by rw [hc.pending]; exact k2)
  rw [hc.pending] at hx
  exact hx

theorem Safe.hand (h : Safe b) (hc : ReadBuffer.Checked b b') (hs : scanFrame b.pending = .frame k) :
    Safe { b' with _handleOffest := b'._handleOffest + k } := by
  obtain ⟨ho, hp⟩ := hand_checked hc hs
  have hl : (b.pending.drop k).length = b.pending.length - k := List.length_drop
  have hsize : b'._buffSize = b._buffSize := hc.size
  have hr : b'._buffSize ≤ 4294967298 ∨ (b.pending.drop k).length < 2147483648 := by
    rcases h.2 k hs with h1 | h1
    · exact Or.inl (by omega)
    · exact Or.inr (by omega)
  refine ⟨Movable_of_small ho (by rw [hp]; exact hr), fun j _ => ?_⟩
  rw [hp]
  rcases hr with h1 | h1
  · exact Or.inl h1
  · exact Or.inr (by omega)

end

theorem drainLoop_stop (fuel : Nat) {b b' : ReadBuffer} (hb : b.onCheckBuffer = some b') (ho : b'.Ok)
    (hs : wireFramer.Stuck b'.pending) :
    drainLoop (fuel + 1) b = ⟨[], b', if Malformed b'.pending then .error else .noMessage⟩ := by
  rw [drainLoop, ReadBuffer.getMessage_checked hb ho, ReadBuffer.verdictResult]
  cases hv : scanFrame b'.pending with
  | more =>
    have hn : ¬ Malformed b'.pending := fun h => by
      rw [scanFrame_bad.mpr h] at hv
      cases hv
    rw [if_neg hn]
    rfl
  | bad =>
    rw [if_pos (scanFrame_bad.mp hv)]
    rfl
  | frame k => exact absurd hv (hs k)

theorem drainLoop_hand (fuel : Nat) {b b' : ReadBuffer} {k : Nat} (hb : b.onCheckBuffer = some b')
    (ho : b'.Ok) (hk : scanFrame b'.pending = .frame k) :
    drainLoop (fuel + 1) b =
      ⟨b'.pending.take k :: (drainLoop fuel { b' with _handleOffest := b'._handleOffest + k }).posts,
        (drainLoop fuel { b' with _handleOffest := b'._handleOffest + k }).buff,
        (drainLoop fuel { b' with _handleOffest := b'._handleOffest + k }).exit⟩ := by
  obtain ⟨k1, _, _⟩ := scanFrame_frame.mp hk
  have e1 : ¬ ((k : Int) = ReadBufferError) := by unfold ReadBufferError; omega
  have e2 : ¬ ((k : Int) = ReadBufferNoMessage) := by unfold ReadBufferNoMessage; omega
  rw [drainLoop, ReadBuffer.getMessage_checked hb ho, ReadBuffer.verdictResult, hk]
  simp only [if_neg e1, if_neg e2]

structure DrainSpec (b : ReadBuffer) (d : Drained) : Prop where
  posts : d.posts = wireFramer.frames b.pending
  rest : d.buff.pending = wireFramer.rest b.pending
  exit : d.exit = if Malformed (wireFramer.rest b.pending) then .error else .noMessage
  ok : d.buff.Ok
  size : d.buff._buffSize = b._buffSize
  handle : d.buff._handleOffest = startAfter b._buffSize (settle b._buffSize b._handleOffest)
    (wireFramer.frames b.pending)

theorem drainLoop_spec (fuel : Nat) : ∀ (b : ReadBuffer), b.Ok → Safe b → b.pending.length < fuel →
    DrainSpec b (drainLoop fuel b) := by
  induction fuel with
  | zero => intro b _ _ hf; omega
  | succ fuel ih =>
    intro b ho hsafe hf
    obtain ⟨b', hb, hc⟩ := ReadBuffer.onCheckBuffer_spec ho hsafe.1
    by_cases hst : wireFramer.Stuck b.pending
    · rw [drainLoop_stop fuel hb hc.ok (by rw [hc.pending]; exact hst), hc.pending]
      have hr := wireFramer.rest_stuck _ hst
      have hfr := wireFramer.frames_stuck _ hst
      refine ⟨hfr.symm, ?_, ?_, hc.ok, hc.size, ?_⟩
      · rw [hr]; exact hc.pending
      · rw [hr]
      · rw [hfr]; exact hc.handle
    · obtain ⟨k, hk⟩ : ∃ k, scanFrame b.pending = .frame k := by
        by_contra hn
        exact hst (fun k hk => hn ⟨k, hk⟩)
      obtain ⟨k1, k2, _⟩ := scanFrame_frame.mp hk
      obtain ⟨ho2, hp2⟩ := hand_checked hc hk
      have hl2 : (b.pending.drop k).length = b.pending.length - k := List.length_drop
      have hd := ih { b' with _handleOffest := b'._handleOffest + k } ho2 (hsafe.hand hc hk)
        (by rw [hp2]; omega)
      have hfr := wireFramer.frames_cons _ _ hk
      have hr := wireFramer.rest_cons _ _ hk
      rw [drainLoop_hand fuel hb hc.ok (by rw [hc.pending]; exact hk), hc.pending]
      refine ⟨?_, ?_, ?_, hd.ok, hd.size.trans hc.size, ?_⟩
      · show _ :: _ = _
        rw [hd.posts, hp2, hfr]
      · show _ = _
        rw [hd.rest, hp2, hr]
      · show _ = _
        rw [hd.exit, hp2, hr]
      · have hh := hd.handle
        have hset : settle b._buffSize b._handleOffest = b'._handleOffest := hc.handle.symm
        rw [hp2] at hh
        rw [hfr, startAfter_cons, List.length_take, Nat.min_eq_left k2, hset, ← hc.size]
        exact hh

theorem drain_spec {b : ReadBuffer} (h : b.Ok) (hs : Safe b) : DrainSpec b (drain b) := by
  have hl := h.length_pending
  exact drainLoop_spec _ b h hs (by omega)

end JMEngine.Net
