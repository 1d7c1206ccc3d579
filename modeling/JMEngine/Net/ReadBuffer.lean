import JMEngine.Net.Message

/-!
# The read buffer (include/net/JME_ReadBuffer.h)

`_buffer` is the allocated memory, `_buffOffest` and `_handleOffest` are offsets into it: the bytes
between them have been received and not been handed out yet (`pending`).

`getMessage` returns `none` where the C++ code has no defined result (the `memcpy` or `memset` of
`onCheckBuffer` leaves the memory, or the ranges of the `memcpy` overlap).

* `Ok`            the representation invariant;
* `Movable`       the number of bytes that `onCheckBuffer` would move fits an `int`;
* `onCheckBuffer_spec`   what the compaction does where it is defined.
-/

set_option linter.unusedSectionVars false

namespace JMEngine.Net
open Bytes

def ReadBufferError : Int := -1
def ReadBufferNoMessage : Int := 0

structure ReadBuffer where
  _buffer : List UInt8
  _buffSize : Nat
  _buffOffest : Nat
  _handleOffest : Nat
  deriving DecidableEq, Repr

namespace ReadBuffer

/-- `ReadBuffer(size_t n)` over the memory that the allocator returned -/
def new (mem : List UInt8) : ReadBuffer := ⟨mem, mem.length, 0, 0⟩

def reset (b : ReadBuffer) : ReadBuffer := { b with _buffOffest := 0, _handleOffest := 0 }

def getAvailableBufferSize (b : ReadBuffer) : Nat := b._buffSize - b._buffOffest

/-- what `read_some` does to the memory at `getBuffer()` -/
def fill (b : ReadBuffer) (chunk : List UInt8) : ReadBuffer :=
  { b with _buffer := patch b._buffer b._buffOffest chunk }

def readNewData (b : ReadBuffer) (len : Nat) : ReadBuffer :=
  { b with _buffOffest := b._buffOffest + len }

def onCheckBuffer (b : ReadBuffer) : Option ReadBuffer :=
  if b._handleOffest > b._buffSize / 2 + 1 then
    -- `int blen = _buffOffest - _handleOffest`: the difference of the pointers has 64 bits
    let blen := int32 ((b._buffOffest : Int) - b._handleOffest)
    match memcpy b._buffer 0 b._handleOffest (sizeT blen) with
    | none => none
    | some mem =>
      match memset mem blen.toNat 0 (sizeT (b._buffSize - blen)) with
      | none => none
      | some mem => some { b with _buffer := mem, _handleOffest := 0, _buffOffest := blen.toNat }
  else some b

def nextMessageLength (b : ReadBuffer) : Int :=
  if (b._buffOffest : Int) - b._handleOffest ≥ MessageHeaderLength then
    let len := int32 (leNat (slice b._buffer b._handleOffest 4))
    if len < MessageHeaderLength then ReadBufferError
    else if (b._buffOffest : Int) - b._handleOffest ≥ len then len
    else ReadBufferNoMessage
  else ReadBufferNoMessage

/-- The returned code, the `*len` bytes at `*buff` if the two were set, and the buffer. -/
def getMessage (b : ReadBuffer) : Option (Int × Option (List UInt8) × ReadBuffer) :=
  match b.onCheckBuffer with
  | none => none
  | some b =>
    let len_ := b.nextMessageLength
    if len_ ≥ MessageHeaderLength ∧ (b._buffOffest : Int) - b._handleOffest ≥ len_ then
      some (len_, some (slice b._buffer b._handleOffest len_.toNat),
        { b with _handleOffest := b._handleOffest + len_.toNat })
    else some (len_, none, b)

/-! ## the representation -/

def pending (b : ReadBuffer) : List UInt8 :=
  slice b._buffer b._handleOffest (b._buffOffest - b._handleOffest)

/-- Offsets in order and inside the memory; no block of memory has `2^63` bytes. -/
structure Ok (b : ReadBuffer) : Prop where
  size : b._buffer.length = b._buffSize
  alloc : b._buffSize < 9223372036854775808
  handle_le : b._handleOffest ≤ b._buffOffest
  offest_le : b._buffOffest ≤ b._buffSize

/-- what `onCheckBuffer` is about to move fits an `int` -/
def Movable (b : ReadBuffer) : Prop :=
  b._handleOffest > b._buffSize / 2 + 1 → b._buffOffest - b._handleOffest < 2147483648

instance (b : ReadBuffer) : Decidable b.Movable := inferInstanceAs (Decidable (_ → _))

theorem new_ok (mem : List UInt8) (h : mem.length < 9223372036854775808) : (new mem).Ok :=
  ⟨rfl, h, le_refl _, Nat.zero_le _⟩

theorem reset_ok {b : ReadBuffer} (h : b.Ok) : b.reset.Ok :=
  ⟨h.size, h.alloc, le_refl _, Nat.zero_le _⟩

theorem new_pending (mem : List UInt8) : (new mem).pending = [] := slice_zero _ _

theorem reset_pending (b : ReadBuffer) : b.reset.pending = [] := slice_zero _ _

theorem Ok.length_pending {b : ReadBuffer} (h : b.Ok) :
    b.pending.length = b._buffOffest - b._handleOffest := by
  have h1 := h.size
  have h2 := h.handle_le
  have h3 := h.offest_le
  exact length_slice _ _ _ (by omega)

theorem Ok.read {b : ReadBuffer} (h : b.Ok) (chunk : List UInt8)
    (hc : chunk.length ≤ b.getAvailableBufferSize) :
    ((b.fill chunk).readNewData chunk.length).Ok ∧
      ((b.fill chunk).readNewData chunk.length).pending = b.pending ++ chunk := by
  have h1 := h.size
  have h2 := h.handle_le
  have h3 := h.offest_le
  have hc' : chunk.length ≤ b._buffSize - b._buffOffest := hc
  refine ⟨⟨?_, h.alloc, ?_, ?_⟩, ?_⟩
  · show (patch b._buffer b._buffOffest chunk).length = b._buffSize
    rw [length_patch _ _ _ (by omega), h1]
  · show b._handleOffest ≤ b._buffOffest + chunk.length
    omega
  · show b._buffOffest + chunk.length ≤ b._buffSize
    omega
  · show slice (patch b._buffer b._buffOffest chunk) b._handleOffest
      (b._buffOffest + chunk.length - b._handleOffest) = _
    rw [slice_patch_end _ _ _ _ (by omega) h2]
    rfl

theorem Ok.read_first {b : ReadBuffer} (h : b.Ok) (hh : b._handleOffest = 0)
    (ho : b._buffOffest = 0) {chunk : List UInt8} (hc : chunk.length ≤ b._buffSize) :
    ((b.fill chunk).readNewData chunk.length).Ok ∧
      ((b.fill chunk).readNewData chunk.length).pending = chunk := by
  have hp : b.pending = [] := by
    unfold pending
    rw [hh, ho]
    exact slice_zero _ _
  obtain ⟨h1, h2⟩ := h.read chunk (by unfold getAvailableBufferSize; omega)
  rw [hp, List.nil_append] at h2
  exact ⟨h1, h2⟩

/-! ## compaction -/

theorem onCheckBuffer_stay (b : ReadBuffer) (h : b._handleOffest ≤ b._buffSize / 2 + 1) :
    b.onCheckBuffer = some b := by
  unfold onCheckBuffer
  rw [if_neg (by omega)]

/-- The compaction as one assignment.  It keeps the first `q` of the pending bytes, where `q` is
their number as an `int`. -/
theorem onCheckBuffer_move {b : ReadBuffer} (h : b.Ok) (hh : b._handleOffest > b._buffSize / 2 + 1)
    (q : Nat) (hq : int32 ((b._buffOffest : Int) - b._handleOffest) = q) :
    b.onCheckBuffer = some { b with
      _buffer := patch (patch b._buffer 0 (b.pending.take q)) q
        (List.replicate (b._buffSize - q) 0)
      _handleOffest := 0
      _buffOffest := q } := by
  have h1 := h.size
  have h2 := h.handle_le
  have h3 := h.offest_le
  have h4 := h.alloc
  have hl := h.length_pending
  have hle := int32_le ((b._buffOffest : Int) - b._handleOffest) (by omega)
  have hs : sizeT (q : Int) = q := by
    rw [sizeT_of_nonneg _ (by omega) (by omega), Int.toNat_natCast]
  have hs' : sizeT ((b._buffSize : Int) - (q : Int)) = b._buffSize - q := by
    rw [sizeT_of_nonneg _ (by omega) (by omega)]
    omega
  have hc : memcpy b._buffer 0 b._handleOffest q = some (patch b._buffer 0 (b.pending.take q)) := by
    unfold memcpy
    -- the ranges are apart: at most `n - (n/2 + 2)` bytes move down from an offset above `n/2 + 1`
    rw [if_pos ⟨by omega, by omega, Or.inl (by omega)⟩]
    show some (patch b._buffer 0 (slice b._buffer b._handleOffest q)) = _
    rw [pending, take_slice _ _ _ _ (by omega)]
  have hp : (patch b._buffer 0 (b.pending.take q)).length = b._buffSize := by
    rw [length_patch _ _ _ (by rw [List.length_take]; omega), h1]
  unfold onCheckBuffer
  rw [if_pos hh]
  simp only [hq, hs, hs', hc, Int.toNat_natCast]
  unfold memset
  rw [if_pos (by omega)]

theorem onCheckBuffer_keeps {b : ReadBuffer} (h : b.Ok) (hh : b._handleOffest > b._buffSize / 2 + 1)
    (q : Nat) (hq : int32 ((b._buffOffest : Int) - b._handleOffest) = q) :
    ∃ b', b.onCheckBuffer = some b' ∧ b'.Ok ∧ b'._buffSize = b._buffSize ∧ b'._handleOffest = 0 ∧
      b'.pending = b.pending.take q := by
  have h1 := h.size
  have h2 := h.handle_le
  have h3 := h.offest_le
  have hl := h.length_pending
  have hle := int32_le ((b._buffOffest : Int) - b._handleOffest) (by omega)
  have ht : (b.pending.take q).length = q := by rw [List.length_take]; omega
  have hp : (patch b._buffer 0 (b.pending.take q)).length = b._buffSize := by
    rw [length_patch _ _ _ (by omega), h1]
  refine ⟨_, onCheckBuffer_move h hh q hq, ⟨?_, h.alloc, Nat.zero_le _, ?_⟩, rfl, rfl, ?_⟩
  · show (patch (patch b._buffer 0 (b.pending.take q)) q _).length = b._buffSize
    rw [length_patch _ _ _ (by rw [List.length_replicate]; omega), hp]
  · show q ≤ b._buffSize
    omega
  · show slice (patch (patch b._buffer 0 (b.pending.take q)) q _) 0 (q - 0) = _
    rw [slice_patch_before _ _ _ _ _ (by omega) (by omega), Nat.sub_zero]
    have hs := slice_patch_self b._buffer (b.pending.take q) 0 (Nat.zero_le _)
    rwa [ht] at hs

/-- what the compaction leaves: the same pending bytes, in the lower half of the buffer -/
structure Checked (b b' : ReadBuffer) : Prop where
  ok : b'.Ok
  size : b'._buffSize = b._buffSize
  pending : b'.pending = b.pending
  handle : b'._handleOffest = if b._handleOffest > b._buffSize / 2 + 1 then 0 else b._handleOffest

theorem onCheckBuffer_spec {b : ReadBuffer} (h : b.Ok) (hm : b.Movable) :
    ∃ b', b.onCheckBuffer = some b' ∧ Checked b b' := by
  have h2 := h.handle_le
  have hl := h.length_pending
  by_cases hh : b._handleOffest > b._buffSize / 2 + 1
  · have hq : int32 ((b._buffOffest : Int) - b._handleOffest) = (b.pending.length : Nat) := by
      have := hm hh
      rw [int32_of_range _ (by omega) (by omega)]
      omega
    obtain ⟨b', e, ho, hs, hz, hp⟩ := onCheckBuffer_keeps h hh _ hq
    refine ⟨b', e, ho, hs, ?_, hz.trans (if_pos hh).symm⟩
    rw [hp, List.take_length]
  · exact ⟨b, onCheckBuffer_stay b (by omega), h, rfl, rfl, (if_neg hh).symm⟩

end ReadBuffer

end JMEngine.Net
