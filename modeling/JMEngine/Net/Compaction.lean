import JMEngine.Net.Reader

/-!
# The moves of `onCheckBuffer`

A buffer of any size under any sequence of `reset`, `readNewData` and `getMessage`.  The move is a
`memcpy` because, by the comment in the source, more than half of the buffer is handled when it is made.

* `ReadBuffer.MoveSound`        what a move has to meet: ranges inside the memory and apart, the same
                                bytes pending before and after it;
* `moveSound_iff`               a move is sound exactly when the pending bytes fit its `int`;
* `Watch.step`                  one call, with a record of whether all moves so far were sound;
* `representation_iff`          **offsets in order and sound moves in every state of a run**, exactly when
                                every move of it finds fewer than `2^31` bytes pending.
-/

set_option linter.unusedSectionVars false

namespace JMEngine.Net
open Bytes Framing Runs

namespace ReadBuffer

/-- `int blen` -/
def blen (b : ReadBuffer) : Int := int32 ((b._buffOffest : Int) - b._handleOffest)

/-- `memcpy(_buffer, _handleOffest, blen)` stays inside the memory and its two ranges do not overlap,
`memset(_buffer + blen, 0, _buffSize - blen)` stays inside, and the pending bytes are the same -/
structure MoveSound (b : ReadBuffer) : Prop where
  source : b._handleOffest + sizeT b.blen ≤ b._buffSize
  apart : sizeT b.blen ≤ b._handleOffest
  set : b.blen.toNat + sizeT (b._buffSize - b.blen) ≤ b._buffSize
  pending : (b.onCheckBuffer.map ReadBuffer.pending) = some b.pending

instance (b : ReadBuffer) : Decidable b.MoveSound :=
  decidable_of_iff (b._handleOffest + sizeT b.blen ≤ b._buffSize ∧ sizeT b.blen ≤ b._handleOffest ∧
      b.blen.toNat + sizeT (b._buffSize - b.blen) ≤ b._buffSize ∧
      (b.onCheckBuffer.map ReadBuffer.pending) = some b.pending)
    ⟨fun h => ⟨h.1, h.2.1, h.2.2.1, h.2.2.2⟩, fun h => ⟨h.source, h.apart, h.set, h.pending⟩⟩

section
variable {b : ReadBuffer} (h : b.Ok) (hh : b._handleOffest > b._buffSize / 2 + 1)
include h hh

theorem moveSound_of_fits (hm : b._buffOffest - b._handleOffest < 2147483648) : b.MoveSound := by
  have h2 := h.handle_le
  have h3 := h.offest_le
  have h4 := h.alloc
  have hb : b.blen = ((b._buffOffest - b._handleOffest : Nat) : Int) := by
    unfold blen
    rw [int32_of_range _ (by omega) (by omega)]
    omega
  have hs : sizeT b.blen = b._buffOffest - b._handleOffest := by
    rw [hb, sizeT_of_nonneg _ (by omega) (by omega), Int.toNat_natCast]
  have hset : sizeT (b._buffSize - b.blen) = b._buffSize - (b._buffOffest - b._handleOffest) := by
    rw [hb, sizeT_of_nonneg _ (by omega) (by omega)]
    omega
  obtain ⟨b', hc, hch⟩ := onCheckBuffer_spec h (fun _ => hm)
  refine ⟨by omega, by omega, by omega, ?_⟩
  rw [hc, Option.map_some, hch.pending]

/-- more bytes than an `int` counts: the length turns into a huge size, or bytes are left behind -/
theorem not_moveSound (hm : 2147483648 ≤ b._buffOffest - b._handleOffest) : ¬ b.MoveSound := by
  intro hs
  have h2 := h.handle_le
  have h4 := h.alloc
  have hr := int32_range ((b._buffOffest : Int) - b._handleOffest)
  have hsource := hs.source
  unfold blen at hsource
  by_cases hneg : int32 ((b._buffOffest : Int) - b._handleOffest) < 0
  · have := sizeT_of_neg _ hr.1 hneg
    omega
  · obtain ⟨q, hq⟩ := Int.eq_ofNat_of_zero_le (Int.not_lt.mp hneg)
    obtain ⟨b', hc, _, _, _, hp⟩ := onCheckBuffer_keeps h hh q hq
    have hpend := hs.pending
    rw [hc, Option.map_some, hp] at hpend
    have hlen := congrArg List.length (Option.some.inj hpend)
    rw [List.length_take, h.length_pending] at hlen
    omega

/-- **A move is sound exactly when the pending bytes fit an `int`.** -/
theorem moveSound_iff : b.MoveSound ↔ b._buffOffest - b._handleOffest < 2147483648 :=
  ⟨fun hs => Nat.lt_of_not_le fun hm => not_moveSound h hh hm hs, moveSound_of_fits h hh⟩

end

theorem verdictResult_ok {b' : ReadBuffer} (h : b'.Ok) :
    (verdictResult b').2.2.Ok ∧ (verdictResult b').2.2._buffSize = b'._buffSize := by
  unfold verdictResult
  cases hs : scanFrame b'.pending with
  | more => exact ⟨h, rfl⟩
  | bad => exact ⟨h, rfl⟩
  | frame k => exact ⟨(h.hand (scanFrame_frame.mp hs).2.1).1, rfl⟩

end ReadBuffer

/-! ## runs -/

/-- a buffer, and whether every move so far was sound -/
structure Watch where
  buff : ReadBuffer
  sound : Bool
  deriving DecidableEq, Repr

inductive BufferEvent where
  | reset
  | readNewData (chunk : List UInt8)
  | getMessage
  deriving DecidableEq, Repr

namespace Watch
open ReadBuffer

def new (mem : List UInt8) : Watch := ⟨ReadBuffer.new mem, true⟩

/-- `readNewData(k)` behind any `k` bytes that were received; an undefined `getMessage` is recorded as an
unsound move -/
def step (w : Watch) : BufferEvent → Option Watch
  | .reset => some { w with buff := w.buff.reset }
  | .readNewData chunk =>
    if chunk.length ≤ w.buff.getAvailableBufferSize then
      some { w with buff := (w.buff.fill chunk).readNewData chunk.length }
    else none
  | .getMessage =>
    match w.buff.getMessage with
    | none => some { w with sound := false }
    | some (_, _, b) =>
      some ⟨b, w.sound && decide (w.buff._handleOffest > w.buff._buffSize / 2 + 1 → w.buff.MoveSound)⟩

/-- the offsets are in order, and all moves so far were sound -/
def Holds (n : Nat) (w : Watch) : Prop :=
  w.buff._handleOffest ≤ w.buff._buffOffest ∧ w.buff._buffOffest ≤ n ∧ w.sound = true

/-- a move finds fewer than `2^31` bytes -/
def Fits (w : Watch) (e : BufferEvent) : Prop := e = .getMessage → w.buff.Movable

instance (w : Watch) (e : BufferEvent) : Decidable (w.Fits e) := inferInstanceAs (Decidable (_ → _))

structure Inv (n : Nat) (w : Watch) : Prop where
  ok : w.buff.Ok
  size : w.buff._buffSize = n
  sound : w.sound = true

section
variable {n : Nat} {w w' : Watch} (h : Inv n w)
include h

theorem Inv.holds : Holds n w := ⟨h.ok.handle_le, h.size ▸ h.ok.offest_le, h.sound⟩

theorem Inv.getMessage (hm : w.buff.Movable) (hs : w.step .getMessage = some w') : Inv n w' := by
  obtain ⟨b', hc, hch⟩ := onCheckBuffer_spec h.ok hm
  obtain ⟨hok, hsize⟩ := verdictResult_ok hch.ok
  have hmove : w.buff._handleOffest > w.buff._buffSize / 2 + 1 → w.buff.MoveSound :=
    fun hh => (moveSound_iff h.ok hh).mpr (hm hh)
  dsimp only [step] at hs
  rw [getMessage_checked hc hch.ok] at hs
  rw [← Option.some.inj hs]
  refine ⟨hok, hsize.trans (hch.size.trans h.size), ?_⟩
  show (w.sound && decide _) = true
  rw [h.sound, decide_eq_true hmove]
  rfl

theorem Inv.step (e : BufferEvent) (hf : w.Fits e) (hs : w.step e = some w') : Inv n w' := by
  cases e with
  | reset =>
    rw [← Option.some.inj hs]
    exact ⟨reset_ok h.ok, h.size, h.sound⟩
  | readNewData chunk =>
    dsimp only [Watch.step] at hs
    split at hs
    · rename_i hle
      rw [← Option.some.inj hs]
      exact ⟨(h.ok.read chunk hle).1, h.size, h.sound⟩
    · cases hs
  | getMessage => exact h.getMessage (hf rfl) hs

theorem Inv.unsound (e : BufferEvent) (hf : ¬ w.Fits e) (hs : w.step e = some w') : ¬ Holds n w' := by
  have he : e = .getMessage := by
    by_contra hne
    exact hf fun he => absurd he hne
  have hm : ¬ w.buff.Movable := fun hm => hf fun _ => hm
  subst he
  unfold Movable at hm
  push Not at hm
  obtain ⟨hh, hm⟩ := hm
  intro hw
  have hsound := hw.2.2
  dsimp only [Watch.step] at hs
  split at hs
  · rw [← Option.some.inj hs] at hsound
    cases hsound
  · rw [← Option.some.inj hs] at hsound
    have := of_decide_eq_true (Bool.and_eq_true_iff.mp hsound).2
    exact not_moveSound h.ok hh hm (this hh)

end

theorem new_inv (mem : List UInt8) (h : mem.length < 9223372036854775808) :
    Inv mem.length (new mem) :=
  ⟨new_ok mem h, rfl, rfl⟩

/-- **The representation invariant and the moves.**  In every state of a run the offsets are in order and
every move so far was sound, exactly when each `getMessage` of the run that moves data finds fewer than
`2^31` bytes pending. -/
theorem representation_iff (mem : List UInt8) (hmem : mem.length < 9223372036854775808)
    (es : List BufferEvent) (w : Watch) (hrun : exec step (new mem) es = some w) :
    Along step (Holds mem.length) (new mem) es ↔ Guarded step Fits (new mem) es :=
  along_iff_guarded step (fun _ h => h.holds) (fun _ e _ h hs hf => h.step e hf hs)
    (fun _ e _ h hs hf => h.unsound e hf hs) es (new mem) w (new_inv mem hmem) hrun

/-- a buffer of twenty bytes whose second `getMessage` moves five of them -/
def twentyBytes : List BufferEvent :=
  [.readNewData [15, 0, 0, 0, 1, 0, 0, 0, 0, 0, 0, 0, 0, 0, 7, 15, 0, 0, 0, 1], .getMessage, .getMessage,
    .readNewData [0, 0, 0], .reset]

theorem representation_iff_twenty :
    ∃ w, exec step (new (List.replicate 20 0)) twentyBytes = some w ∧
      Along step (Holds 20) (new (List.replicate 20 0)) twentyBytes :=
  let ⟨w, hw⟩ := Option.isSome_iff_exists.mp
    (show (exec step (new (List.replicate 20 0)) twentyBytes).isSome = true by decide +kernel)
  ⟨w, hw, (representation_iff (List.replicate 20 0) (by decide) twentyBytes w hw).mpr
    (guarded_of_guardedBy step (B := fun w e => decide (w.Fits e)) (fun _ _ h => of_decide_eq_true h)
      twentyBytes _ (by decide +kernel))⟩

/-! ## a move that loses bytes -/

theorem exec_frames (f : List UInt8) (hf : wireFramer.Whole f) (n j : Nat) :
    ∀ (w : Watch) (ys : List UInt8), Inv n w → w.buff.pending = (List.replicate j f).flatten ++ ys →
      (∀ i, i < j → w.buff._handleOffest + i * f.length ≤ n / 2 + 1) →
      ∃ w', exec step w (List.replicate j .getMessage) = some w' ∧ Inv n w' ∧
        w'.buff._handleOffest = w.buff._handleOffest + j * f.length ∧ w'.buff.pending = ys := by
  induction j with
  | zero =>
    intro w ys h hp _
    exact ⟨w, rfl, h, by omega, hp⟩
  | succ j ih =>
    intro w ys h hp hlow
    obtain ⟨hch, hk, _, _, hp2, hlow2⟩ := h.ok.front_frame hf hp (by rw [h.size]; exact hlow)
    obtain ⟨w1, hstep, hbuff⟩ : ∃ w1, w.step .getMessage = some w1 ∧
        w1.buff = { w.buff with _handleOffest := w.buff._handleOffest + f.length } := by
      dsimp only [step]
      rw [getMessage_checked hch h.ok, verdictResult, hk]
      exact ⟨_, rfl, rfl⟩
    have hstay := hlow 0 (Nat.succ_pos j)
    have hw1 := h.getMessage (fun hh => by rw [h.size] at hh; omega) hstep
    have hhandle : w1.buff._handleOffest = w.buff._handleOffest + f.length := by rw [hbuff]
    obtain ⟨w', h1, h2, h3, h4⟩ := ih w1 ys hw1 (by rw [hbuff]; exact hp2)
      (by rw [hhandle, ← h.size]; exact hlow2)
    refine ⟨w', ?_, h2, ?_, h4⟩
    · rw [List.replicate_succ, exec_cons step _ hstep]
      exact h1
    · rw [h3, hhandle, Nat.succ_mul]
      omega

/-- **Five frames of `2^30` bytes and `2^32` bytes behind them** in a buffer of their size: the sixth
`getMessage` has `2^32` bytes to move, which is 0 as an `int`. -/
theorem sixth_move_unsound {m : Message} (hm : m.Sound) (hl : m.wire.length = 1073741824)
    (ys : List UInt8) (hys : ys.length = 4294967296) (mem : List UInt8) (hmem : mem.length = 9663676416) :
    ∃ w, exec step (new mem) (.readNewData ((List.replicate 5 m.wire).flatten ++ ys) ::
        (List.replicate 5 .getMessage ++ [.getMessage])) = some w ∧ ¬ Holds mem.length w := by
  have hlen : ((List.replicate 5 m.wire).flatten ++ ys).length = 9663676416 := by
    rw [List.length_append, List.length_flatten, List.map_replicate, List.sum_replicate_nat, hl, hys]
  obtain ⟨_, hp⟩ := (new_ok mem (by omega)).read_first rfl rfl (hlen.trans hmem.symm).le
  obtain ⟨w0, hread, hbuff⟩ : ∃ w0, step (new mem) (.readNewData ((List.replicate 5 m.wire).flatten ++ ys))
      = some w0 ∧ w0.buff = ((ReadBuffer.new mem).fill ((List.replicate 5 m.wire).flatten ++ ys)).readNewData
          ((List.replicate 5 m.wire).flatten ++ ys).length := by
    refine ⟨_, if_pos ?_, rfl⟩
    rw [hlen]
    show 9663676416 ≤ mem.length - 0
    omega
  have h0 := (new_inv mem (by omega)).step _ (fun he => by cases he) hread
  have hhandle0 : w0.buff._handleOffest = 0 := by rw [hbuff]; rfl
  obtain ⟨w, hw, h, hhandle, hpend⟩ := exec_frames m.wire (wire_whole hm) mem.length 5 w0 ys h0
    (by rw [hbuff]; exact hp) (fun i hi => by rw [hhandle0, hl, hmem]; omega)
  rw [hhandle0, hl] at hhandle
  have hlp := h.ok.length_pending
  rw [hpend, hys] at hlp
  obtain ⟨w', hw'⟩ : ∃ w', w.step .getMessage = some w' := by
    dsimp only [step]
    split
    · exact ⟨_, rfl⟩
    · exact ⟨_, rfl⟩
  refine ⟨w', ?_, h.unsound .getMessage (fun hf => ?_) hw'⟩
  · rw [exec_cons step _ hread, exec_append step _ hw, exec_cons step _ hw']
    rfl
  · have hlt := hf rfl (by rw [hhandle, h.size, hmem]; omega)
    omega

theorem not_representation :
    ¬ ∀ (mem : List UInt8) (es : List BufferEvent) (w : Watch), mem.length < 9223372036854775808 →
      exec step (new mem) es = some w → Along step (Holds mem.length) (new mem) es := by
  intro h
  obtain ⟨m, hm, hl⟩ := exists_bigMessage
  have hys : (List.replicate 4294967296 (0 : UInt8)).length = 4294967296 := List.length_replicate
  have hmem : (List.replicate 9663676416 (0 : UInt8)).length = 9663676416 := List.length_replicate
  obtain ⟨w, hw, hne⟩ := sixth_move_unsound hm hl _ hys _ hmem
  exact hne (along_last step _ _ w (h _ _ w (by omega) hw) hw)

end Watch

end JMEngine.Net
