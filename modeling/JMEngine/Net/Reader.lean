import JMEngine.Net.Drain

/-!
# Reads of any size: the frames do not depend on where the stream was cut

`Reader` is a read buffer driven by `handleRead` (one `read_some`, then the drain loop) and
`resetReadBuffer`, with what was received and handed out since the last reset.

* `Tracks n xs b`       the buffer `b` of size `n` has received `xs` since its reset;
* `Tracks.read`         one read and one drain loop;
* `decodes_received`    the frames handed out are the maximal decoding of the bytes received;
* `drain_keeps`         a compaction that has `2^32 + q` bytes to move keeps `q` of them.
-/

set_option linter.unusedSectionVars false

namespace JMEngine.Net
open Bytes Framing Runs

/-! ## one read -/

/-- `read_some` into the buffer, `readNewData`, and the drain loop -/
def readAndDrain (b : ReadBuffer) (chunk : List UInt8) : Drained :=
  drain ((b.fill chunk).readNewData chunk.length)

/-- A buffer of `n` bytes between two reads; `xs` was received since the last reset. -/
structure Tracks (n : Nat) (xs : List UInt8) (b : ReadBuffer) : Prop where
  ok : b.Ok
  size : b._buffSize = n
  pending : b.pending = wireFramer.rest xs
  handle : b._handleOffest = startAfter n 0 (wireFramer.frames xs)

theorem Tracks.new (mem : List UInt8) (h : mem.length < 9223372036854775808) :
    Tracks mem.length [] (ReadBuffer.new mem) :=
  ⟨ReadBuffer.new_ok mem h, rfl, ReadBuffer.new_pending mem, rfl⟩

theorem Tracks.reset {n : Nat} {xs : List UInt8} {b : ReadBuffer} (h : Tracks n xs b) :
    Tracks n [] b.reset :=
  ⟨ReadBuffer.reset_ok h.ok, h.size, ReadBuffer.reset_pending b, rfl⟩

theorem Tracks.low {n : Nat} {xs : List UInt8} {b : ReadBuffer} (h : Tracks n xs b) :
    b._handleOffest ≤ n / 2 + 1 := by
  rw [h.handle]
  exact startAfter_low n 0 _ (Nat.zero_le _)

theorem Tracks.available {n : Nat} {xs : List UInt8} {b : ReadBuffer} (h : Tracks n xs b) :
    b.getAvailableBufferSize
      = n - (startAfter n 0 (wireFramer.frames xs) + (wireFramer.rest xs).length) := by
  have h2 := h.ok.handle_le
  have hl := h.ok.length_pending
  rw [h.pending] at hl
  unfold ReadBuffer.getAvailableBufferSize
  rw [h.size, ← h.handle]
  omega

/-- `2^31` bytes in one read, or a buffer of `2^32 + 2` bytes, are still safe -/
def BoundedRead (n : Nat) (chunk : List UInt8) : Prop :=
  chunk.length ≤ 2147483648 ∨ n ≤ 4294967298

instance (n : Nat) (chunk : List UInt8) : Decidable (BoundedRead n chunk) :=
  inferInstanceAs (Decidable (_ ∨ _))

section
variable {n : Nat} {xs : List UInt8} {b : ReadBuffer} (h : Tracks n xs b) (chunk : List UInt8)
  (hc : chunk.length ≤ b.getAvailableBufferSize)
include h hc

theorem Tracks.safe (hb : BoundedRead n chunk) :
    Safe ((b.fill chunk).readNewData chunk.length) := by
  obtain ⟨_, hp⟩ := h.ok.read chunk hc
  have hlow : ((b.fill chunk).readNewData chunk.length)._handleOffest
      ≤ ((b.fill chunk).readNewData chunk.length)._buffSize / 2 + 1 := by
    have := h.low
    rw [← h.size] at this
    exact this
  refine ⟨fun hx => by omega, fun k hk => ?_⟩
  rw [hp] at hk ⊢
  rcases hb with hb | hb
  · right
    have hlt : b.pending.length < k := by
      cases hv : scanFrame b.pending with
      | more => exact scanFrame_more_lt hv hk
      | bad =>
        have := wireFramer.bad_append b.pending chunk hv
        rw [show wireFramer.scan (b.pending ++ chunk) = .frame k from hk] at this
        cases this
      | frame j =>
        rw [h.pending] at hv
        exact absurd hv (wireFramer.stuck_rest xs j)
    rw [List.length_append]
    omega
  · left
    show b._buffSize ≤ 4294967298
    rw [h.size]
    exact hb

theorem Tracks.read (hb : BoundedRead n chunk) :
    Tracks n (xs ++ chunk) (readAndDrain b chunk).buff ∧
      wireFramer.frames xs ++ (readAndDrain b chunk).posts = wireFramer.frames (xs ++ chunk) ∧
      (readAndDrain b chunk).exit
        = if Malformed (wireFramer.rest (xs ++ chunk)) then .error else .noMessage := by
  obtain ⟨ho, hp⟩ := h.ok.read chunk hc
  have hd := drain_spec ho (h.safe chunk hc hb)
  have hpo := hd.posts
  have hre := hd.rest
  have hex := hd.exit
  have hha := hd.handle
  rw [hp, h.pending] at hpo hre hex hha
  rw [← wireFramer.rest_append] at hre hex
  refine ⟨⟨hd.ok, hd.size.trans h.size, hre, ?_⟩, ?_, hex⟩
  · have hs : settle b._buffSize b._handleOffest = startAfter n 0 (wireFramer.frames xs) := by
      rw [h.size, settle_of_low h.low, h.handle]
    have e : (readAndDrain b chunk).buff._handleOffest
        = startAfter b._buffSize (settle b._buffSize b._handleOffest)
          (wireFramer.frames (wireFramer.rest xs ++ chunk)) := hha
    rw [e, hs, h.size, wireFramer.frames_append xs chunk]
    unfold startAfter
    rw [List.foldl_append]
  · rw [wireFramer.frames_append xs chunk]
    exact congrArg _ hpo

end

/-! ## runs -/

structure Reader where
  buff : ReadBuffer
  received : List UInt8
  handed : List (List UInt8)
  exit : Exit
  deriving DecidableEq, Repr

inductive ReadEvent where
  | read (chunk : List UInt8)
  | reset
  deriving DecidableEq, Repr

namespace Reader

def new (mem : List UInt8) : Reader := ⟨ReadBuffer.new mem, [], [], .noMessage⟩

/-- a read never returns more bytes than it was offered -/
def step (s : Reader) : ReadEvent → Option Reader
  | .read chunk =>
    if chunk.length ≤ s.buff.getAvailableBufferSize then
      let d := readAndDrain s.buff chunk
      some ⟨d.buff, s.received ++ chunk, s.handed ++ d.posts, d.exit⟩
    else none
  | .reset => some ⟨s.buff.reset, [], [], .noMessage⟩

def Bounded (s : Reader) : ReadEvent → Prop
  | .read chunk => BoundedRead s.buff._buffSize chunk
  | .reset => True

structure Inv (n : Nat) (s : Reader) : Prop where
  tracks : Tracks n s.received s.buff
  handed : s.handed = wireFramer.frames s.received
  exit : s.exit = if Malformed (wireFramer.rest s.received) then .error else .noMessage

theorem new_inv (mem : List UInt8) (h : mem.length < 9223372036854775808) :
    Inv mem.length (new mem) :=
  ⟨Tracks.new mem h, rfl, rfl⟩

theorem step_read {s : Reader} {chunk : List UInt8} {s' : Reader}
    (h : step s (.read chunk) = some s') :
    chunk.length ≤ s.buff.getAvailableBufferSize ∧
      s' = ⟨(readAndDrain s.buff chunk).buff, s.received ++ chunk,
        s.handed ++ (readAndDrain s.buff chunk).posts, (readAndDrain s.buff chunk).exit⟩ := by
  unfold step at h
  by_cases hc : chunk.length ≤ s.buff.getAvailableBufferSize
  · simp only [if_pos hc] at h
    exact ⟨hc, (Option.some.inj h).symm⟩
  · simp only [if_neg hc] at h
    cases h

theorem step_read_some (s : Reader) (chunk : List UInt8)
    (hc : chunk.length ≤ s.buff.getAvailableBufferSize) : ∃ s', step s (.read chunk) = some s' :=
  ⟨_, if_pos hc⟩

theorem step_inv (n : Nat) (s : Reader) (e : ReadEvent) (s' : Reader) (hI : Inv n s)
    (hb : Bounded s e) (h : step s e = some s') : Inv n s' := by
  cases e with
  | read chunk =>
    obtain ⟨hc, rfl⟩ := step_read h
    have hb' : BoundedRead n chunk := by rw [← hI.tracks.size]; exact hb
    obtain ⟨h1, h2, h3⟩ := hI.tracks.read chunk hc hb'
    exact ⟨h1, by rw [← h2, ← hI.handed], h3⟩
  | reset =>
    have e : s' = ⟨s.buff.reset, [], [], .noMessage⟩ := (Option.some.inj h).symm
    rw [e]
    exact ⟨hI.tracks.reset, rfl, rfl⟩

theorem run_inv (mem : List UInt8) (h : mem.length < 9223372036854775808) (es : List ReadEvent)
    (s : Reader) (hG : Guarded step Bounded (new mem) es) (hs : exec step (new mem) es = some s) :
    Inv mem.length s :=
  exec_guarded step (step_inv mem.length) es (new mem) s (new_inv mem h) hG hs

end Reader

/-- **Chunk-independent decoding.**  After every drain loop the frames handed out since the last
reset are the maximal decoding of the bytes received since then, and the loop ended with
`ReadBufferError` exactly when a malformed header follows the last complete frame.  Another run
that received the same bytes, cut elsewhere, gives the same. -/
theorem decodes_received (mem : List UInt8) (hmem : mem.length < 9223372036854775808)
    (es : List ReadEvent) (s : Reader) (hG : Guarded Reader.step Reader.Bounded (Reader.new mem) es)
    (hs : exec Reader.step (Reader.new mem) es = some s) :
    s.handed = wireFramer.frames s.received ∧
      (s.exit = .error ↔ Malformed (wireFramer.rest s.received)) ∧
      (s.exit = .noMessage ↔ ¬ Malformed (wireFramer.rest s.received)) ∧
      ∀ es' s', Guarded Reader.step Reader.Bounded (Reader.new mem) es' →
        exec Reader.step (Reader.new mem) es' = some s' → s'.received = s.received →
        s'.handed = s.handed ∧ s'.exit = s.exit := by
  have hI := Reader.run_inv mem hmem es s hG hs
  refine ⟨hI.handed, ?_, ?_, ?_⟩
  · rw [hI.exit]
    split <;> simp_all
  · rw [hI.exit]
    split <;> simp_all
  · intro es' s' hG' hs' hr
    have hI' := Reader.run_inv mem hmem es' s' hG' hs'
    rw [hI'.handed, hI.handed, hI'.exit, hI.exit, hr]
    exact ⟨rfl, rfl⟩

/-- a frame of 15 bytes in two reads, into a buffer of 20 bytes -/
theorem decodes_received_two_reads :
    ∃ s, exec Reader.step (Reader.new (List.replicate 20 0))
        [.read [15, 0, 0], .read [0, 1, 0, 0, 0, 0, 0, 0, 0, 0, 0, 7]] = some s ∧
      s.handed = wireFramer.frames s.received ∧ s.handed.length = 1 := by
  have h : (exec Reader.step (Reader.new (List.replicate 20 0))
      [.read [15, 0, 0], .read [0, 1, 0, 0, 0, 0, 0, 0, 0, 0, 0, 7]]).any
        (fun s => s.handed.length == 1) = true := by decide +kernel
  obtain ⟨s, hs, hl⟩ := (Option.any_eq_true ..).mp h
  have hG : Guarded Reader.step Reader.Bounded (Reader.new (List.replicate 20 0))
      [.read [15, 0, 0], .read [0, 1, 0, 0, 0, 0, 0, 0, 0, 0, 0, 7]] :=
    ⟨Or.inl (by decide), fun _ _ => ⟨Or.inl (by decide), fun _ _ => trivial⟩⟩
  have hd := decodes_received (List.replicate 20 0) (by decide) _ s hG hs
  exact ⟨s, hs, hd.1, by simpa using hl⟩

/-! ## a compaction that loses the pending bytes -/

theorem ReadBuffer.Ok.front_frame {b : ReadBuffer} (ho : b.Ok) {f ys : List UInt8}
    (hf : wireFramer.Whole f) {j : Nat} (hp : b.pending = (List.replicate (j + 1) f).flatten ++ ys)
    (hlow : ∀ i, i < j + 1 → b._handleOffest + i * f.length ≤ b._buffSize / 2 + 1) :
    b.onCheckBuffer = some b ∧ scanFrame b.pending = .frame f.length ∧ b.pending.take f.length = f ∧
      ({ b with _handleOffest := b._handleOffest + f.length } : ReadBuffer).Ok ∧
      ({ b with _handleOffest := b._handleOffest + f.length } : ReadBuffer).pending
        = (List.replicate j f).flatten ++ ys ∧
      ∀ i, i < j → b._handleOffest + f.length + i * f.length ≤ b._buffSize / 2 + 1 := by
  rw [List.replicate_succ, List.flatten_cons, List.append_assoc] at hp
  obtain ⟨ho2, hp2⟩ := ho.hand (k := f.length) (by rw [hp, List.length_append]; omega)
  have hstay := hlow 0 (Nat.succ_pos j)
  refine ⟨ReadBuffer.onCheckBuffer_stay b (by omega), ?_, ?_, ho2, ?_, fun i hi => ?_⟩
  · rw [hp]
    exact wireFramer.scan_whole_append f _ hf
  · rw [hp, List.take_left]
  · rw [hp2, hp, List.drop_left]
  · have := hlow (i + 1) (by omega)
    rw [Nat.succ_mul] at this
    omega

theorem drainLoop_frames (f : List UInt8) (hf : wireFramer.Whole f) (fuel j : Nat) :
    ∀ (b : ReadBuffer) (ys : List UInt8), b.Ok → b.pending = (List.replicate j f).flatten ++ ys →
      (∀ i, i < j → b._handleOffest + i * f.length ≤ b._buffSize / 2 + 1) →
      ∃ b', b'.Ok ∧ b'._buffSize = b._buffSize ∧
        b'._handleOffest = b._handleOffest + j * f.length ∧ b'.pending = ys ∧
        drainLoop (fuel + j) b = ⟨List.replicate j f ++ (drainLoop fuel b').posts,
          (drainLoop fuel b').buff, (drainLoop fuel b').exit⟩ := by
  induction j with
  | zero =>
    intro b ys ho hp _
    exact ⟨b, ho, rfl, by omega, hp, rfl⟩
  | succ j ih =>
    intro b ys ho hp hlow
    obtain ⟨hch, hk, htake, ho2, hp2, hlow2⟩ := ho.front_frame hf hp hlow
    obtain ⟨b', h1, h2, h3, h4, h5⟩ := ih _ ys ho2 hp2 hlow2
    refine ⟨b', h1, h2, ?_, h4, ?_⟩
    · rw [h3, Nat.succ_mul]
      show b._handleOffest + f.length + j * f.length = _
      omega
    · have e : fuel + (j + 1) = (fuel + j) + 1 := by omega
      rw [e, drainLoop_hand (fuel + j) hch ho hk, h5, htake, List.replicate_succ]
      rfl

/-- **Five frames of `2^30` bytes and `2^32 + q` bytes behind them in one read.**  After the five the
compaction has `2^32 + q` bytes to move, which is `q` as an `int`: only the first `q` stay. -/
theorem drain_keeps (f : List UInt8) (hf : wireFramer.Whole f) (hl : f.length = 1073741824)
    (ys : List UInt8) (q : Nat) (hys : ys.length = 4294967296 + q) (hq : q ≤ 14)
    (hst : wireFramer.Stuck (ys.take q)) (b : ReadBuffer) (hb : b.Ok)
    (hn : b._buffSize = 9663676416 + q) (hh : b._handleOffest = 0)
    (hp : b.pending = (List.replicate 5 f).flatten ++ ys) :
    (drain b).posts = List.replicate 5 f ∧
      (drain b).exit = (if Malformed (ys.take q) then .error else .noMessage) ∧
      (drain b).buff.Ok ∧ (drain b).buff._buffSize = b._buffSize ∧
      (drain b).buff._handleOffest = 0 ∧ (drain b).buff.pending = ys.take q := by
  have hoff : b._buffOffest = 9663676416 + q := by
    have h1 := hb.length_pending
    have h2 := hb.handle_le
    rw [hp, List.length_append, List.length_flatten, List.map_replicate, List.sum_replicate_nat, hl,
      hh, hys] at h1
    omega
  obtain ⟨b', ho, h2, h3, h4, h5⟩ := drainLoop_frames f hf (9663676412 + q) 5 b ys hb hp
    (fun i hi => by rw [hh, hn, hl]; omega)
  rw [hh, hl] at h3
  have hl4 := ho.length_pending
  have hle := ho.handle_le
  rw [h4, hys] at hl4
  have hint : int32 ((b'._buffOffest : Int) - b'._handleOffest) = (q : Nat) := by
    have e : (b'._buffOffest : Int) - b'._handleOffest = 4294967296 + q := by omega
    rw [e]
    unfold int32
    split <;> omega
  obtain ⟨b2, hmove, hmo, hms, hmh, hmp⟩ :=
    ReadBuffer.onCheckBuffer_keeps ho (by rw [h2, hn]; omega) q hint
  rw [h4] at hmp
  have hstop := drainLoop_stop (9663676411 + q) hmove hmo (by rw [hmp]; exact hst)
  have hd : drain b = drainLoop ((9663676412 + q) + 5) b := by
    unfold drain
    rw [hoff, show 9663676416 + q + 1 = (9663676412 + q) + 5 by omega]
  have hstop' : drainLoop (9663676412 + q) b'
      = ⟨[], b2, if Malformed b2.pending then .error else .noMessage⟩ := by
    rw [show 9663676412 + q = (9663676411 + q) + 1 by omega]
    exact hstop
  rw [hd, h5, hstop', hmp]
  exact ⟨List.append_nil _, rfl, hmo, hms.trans h2, hmh, rfl⟩

theorem drain_loses (f : List UInt8) (hf : wireFramer.Whole f) (hl : f.length = 1073741824)
    (b : ReadBuffer) (hb : b.Ok) (hn : b._buffSize = 9663676416) (hh : b._handleOffest = 0)
    (hp : b.pending = (List.replicate 9 f).flatten) :
    (drain b).posts = List.replicate 5 f ∧ (drain b).exit = .noMessage ∧
      (drain b).buff.pending = [] := by
  have hsplit : b.pending = (List.replicate 5 f).flatten ++ (List.replicate 4 f).flatten := by
    rw [hp, ← List.flatten_append, List.replicate_append_replicate]
  have hlen : ((List.replicate 4 f).flatten).length = 4294967296 + 0 := by
    rw [List.length_flatten, List.map_replicate, List.sum_replicate_nat, hl]
  obtain ⟨h1, h2, _, _, _, h3⟩ := drain_keeps f hf hl _ 0 hlen (Nat.zero_le _) (by
    rw [List.take_zero]
    intro k hk
    cases hk) b hb hn hh hsplit
  rw [List.take_zero] at h2 h3
  exact ⟨h1, h2, h3⟩

theorem Message.ofStr_big (msgId : BitVec 16) {d : List UInt8} (hd : d.length = 1073741810) :
    (Message.ofStr msgId d).Sound ∧ (Message.ofStr msgId d).wire.length = 1073741824 := by
  have hs := Message.ofStr_sound msgId d (by omega)
  refine ⟨hs, hs.length_wire.trans ?_⟩
  show d.length + 14 = 1073741824
  omega

theorem exists_bigMessage : ∃ m : Message, m.Sound ∧ m.wire.length = 1073741824 := by
  have hl : (List.replicate 1073741810 (0 : UInt8)).length = 1073741810 := List.length_replicate
  exact ⟨_, Message.ofStr_big RPCMessage hl⟩

section
variable {m : Message} (hm : m.Sound) (hl : m.wire.length = 1073741824)

include hl in
theorem length_nine : ((List.replicate 9 m.wire).flatten).length = 9663676416 := by
  rw [List.length_flatten, List.map_replicate, List.sum_replicate_nat, hl]

include hm in
theorem frames_nine :
    wireFramer.frames (List.replicate 9 m.wire).flatten = List.replicate 9 m.wire := by
  have h := (wireFramer.decode_flatten (List.replicate 9 m.wire) (fun f hf => by
    rw [(List.mem_replicate.mp hf).2]
    exact wire_whole hm) [] (fun k hk => by cases hk)).1
  rw [List.append_nil] at h
  exact h

include hm hl in
theorem posts_nine (b : ReadBuffer) (hb : b.Ok) (hn : b._buffSize = 9663676416)
    (hh : b._handleOffest = 0) (ho : b._buffOffest = 0) :
    (readAndDrain b (List.replicate 9 m.wire).flatten).posts = List.replicate 5 m.wire ∧
      (readAndDrain b (List.replicate 9 m.wire).flatten).exit = .noMessage ∧
      (readAndDrain b (List.replicate 9 m.wire).flatten).buff.pending = [] := by
  obtain ⟨h1, h2⟩ := hb.read_first hh ho (by rw [length_nine hl, hn])
  exact drain_loses m.wire (wire_whole hm) hl _ h1 hn hh h2

include hm hl in
theorem nine_not_decoded (mem : List UInt8) (hmem : mem.length = 9663676416) :
    ∃ s, exec Reader.step (Reader.new mem) [.read (List.replicate 9 m.wire).flatten] = some s ∧
      s.handed ≠ wireFramer.frames s.received := by
  have hok := ReadBuffer.new_ok mem (by omega)
  obtain ⟨hp, _, _⟩ := posts_nine hm hl (ReadBuffer.new mem) hok hmem rfl rfl
  have hc : ((List.replicate 9 m.wire).flatten).length
      ≤ (Reader.new mem).buff.getAvailableBufferSize := by
    rw [length_nine hl]
    show 9663676416 ≤ mem.length - 0
    omega
  refine ⟨⟨_, _, _, _⟩, exec_cons Reader.step [] (if_pos hc), ?_⟩
  show [] ++ (readAndDrain (ReadBuffer.new mem) (List.replicate 9 m.wire).flatten).posts
    ≠ wireFramer.frames ([] ++ (List.replicate 9 m.wire).flatten)
  rw [hp, List.nil_append, List.nil_append, frames_nine hm]
  intro h
  have := congrArg List.length h
  rw [List.length_replicate, List.length_replicate] at this
  omega

end

/-- With a buffer of `9 * 2^30` bytes the frames handed out after one read of all it offers are
not the decoding of what was received. -/
theorem not_decodes_received :
    ¬ ∀ (mem : List UInt8) (es : List ReadEvent) (s : Reader), mem.length < 9223372036854775808 →
      exec Reader.step (Reader.new mem) es = some s →
      s.handed = wireFramer.frames s.received ∧
      (s.exit = .error ↔ Malformed (wireFramer.rest s.received)) := by
  intro h
  obtain ⟨m, hm, hl⟩ := exists_bigMessage
  have hmem : (List.replicate 9663676416 (0 : UInt8)).length = 9663676416 := List.length_replicate
  obtain ⟨s, hs, hne⟩ := nine_not_decoded hm hl _ hmem
  exact hne (h _ _ s (by omega) hs).1

end JMEngine.Net
