import JMEngine.Lib.Bytes
import Mathlib.Data.BitVec

/-!
# Messages (include/net/JME_Message.h)

`Message` is the packed header (`_totalLen`, `_msgId`, `_netId`, `_bindId`: 14 bytes) and the
memory `_msgData` points to.  The constructors are those of the source; `Message.create` is the
copy that the receiving side makes of a frame in its read buffer.

* `Message.wire`           the bytes that are sent: header, then `messageDataLen()` payload bytes;
* `Message.Sound`          `_totalLen` counts the header and the payload (`Built.sound`: after every
                           constructor);
* `create_wire`            a received copy of a sent message has the same ids and payload.
-/

set_option linter.unusedSectionVars false

namespace JMEngine.Net
open Bytes

def RPCMessage : BitVec 16 := 1

def MessageHeaderLength : Nat := 14

structure Message where
  _totalLen : BitVec 32
  _msgId : BitVec 16
  _netId : BitVec 32
  _bindId : BitVec 32
  _msgData : List UInt8
  deriving DecidableEq, Repr

namespace Message

/-- `Message()` and `Message(short msgId)` -/
def ofId (msgId : BitVec 16) : Message := ⟨14, msgId, 0, 0, []⟩

/-- `Message(short msgId, int netId, const string& msgStr)`; `_totalLen` is an `int` -/
def ofNetStr (msgId : BitVec 16) (netId : BitVec 32) (msgStr : List UInt8) : Message :=
  ⟨BitVec.ofNat 32 (msgStr.length + MessageHeaderLength), msgId, netId, 0, msgStr⟩

/-- `Message(short msgId, const string& msgStr)` -/
def ofStr (msgId : BitVec 16) (msgStr : List UInt8) : Message := ofNetStr msgId 0 msgStr

/-- `size_t messageDataLen() const` -/
def messageDataLen (m : Message) : Nat := sizeT (m._totalLen.toInt - MessageHeaderLength)

def header (m : Message) : List UInt8 :=
  leBytes 4 m._totalLen.toNat ++ leBytes 2 m._msgId.toNat ++ leBytes 4 m._netId.toNat
    ++ leBytes 4 m._bindId.toNat

/-- `string getMessageStr()` -/
def getMessageStr (m : Message) : List UInt8 := m._msgData.take m.messageDataLen

def wire (m : Message) : List UInt8 := m.header ++ m.getMessageStr

/-- `Message(const char* data_ptr)`: the header fields are read from the memory at `data_ptr`, the
payload is copied behind the object -/
def ofPtr (data_ptr : List UInt8) : Message :=
  let totalLen := BitVec.ofNat 32 (leNat (slice data_ptr 0 4))
  ⟨totalLen, BitVec.ofNat 16 (leNat (slice data_ptr 4 2)),
    BitVec.ofNat 32 (leNat (slice data_ptr 6 4)), BitVec.ofNat 32 (leNat (slice data_ptr 10 4)),
    slice data_ptr MessageHeaderLength (sizeT (totalLen.toInt - MessageHeaderLength))⟩

/-- `MessagePtr create(const char* dataPtr, size_t len)`: `len` only sizes the allocation -/
def create (dataPtr : List UInt8) (_len : Nat) : Message := ofPtr dataPtr

/-- `_totalLen` counts the header and the payload that `_msgData` points to -/
def Sound (m : Message) : Prop := m._totalLen.toInt = m._msgData.length + 14

instance (m : Message) : Decidable m.Sound := inferInstanceAs (Decidable (_ = _))

/-! ## lengths -/

theorem length_header (m : Message) : m.header.length = MessageHeaderLength := by
  unfold header
  simp only [List.length_append, length_leBytes]
  rfl

theorem ofId_sound (msgId : BitVec 16) : (ofId msgId).Sound := rfl

theorem toInt_ofNat_small (n : Nat) (h : n < 2147483648) : (BitVec.ofNat 32 n).toInt = n := by
  rw [BitVec.toInt_eq_toNat_cond, BitVec.toNat_ofNat, Nat.mod_eq_of_lt (by omega)]
  split <;> omega

theorem ofNetStr_sound (msgId : BitVec 16) (netId : BitVec 32) (s : List UInt8)
    (h : s.length < 2147483634) : (ofNetStr msgId netId s).Sound := by
  show (BitVec.ofNat 32 (s.length + 14)).toInt = s.length + 14
  rw [toInt_ofNat_small _ (by omega)]
  push_cast
  rfl

theorem ofStr_sound (msgId : BitVec 16) (s : List UInt8) (h : s.length < 2147483634) :
    (ofStr msgId s).Sound := ofNetStr_sound msgId 0 s h

/-- the messages that the constructors build, with a payload that leaves `_totalLen` positive and,
for a copy, memory that holds the whole message -/
inductive Built : Message → Prop
  | ofId (msgId : BitVec 16) : Built (ofId msgId)
  | ofStr (msgId : BitVec 16) (s : List UInt8) (h : s.length < 2147483634) : Built (ofStr msgId s)
  | ofNetStr (msgId : BitVec 16) (netId : BitVec 32) (s : List UInt8) (h : s.length < 2147483634) :
      Built (ofNetStr msgId netId s)
  | ofPtr (data_ptr : List UInt8) (h1 : 14 ≤ (ofPtr data_ptr)._totalLen.toInt)
      (h2 : (ofPtr data_ptr)._totalLen.toInt ≤ data_ptr.length) : Built (ofPtr data_ptr)

theorem ofPtr_sound (data_ptr : List UInt8) (h1 : 14 ≤ (ofPtr data_ptr)._totalLen.toInt)
    (h2 : (ofPtr data_ptr)._totalLen.toInt ≤ data_ptr.length) : (ofPtr data_ptr).Sound := by
  have h3 := BitVec.toInt_lt (x := (ofPtr data_ptr)._totalLen)
  have e : sizeT ((ofPtr data_ptr)._totalLen.toInt - (MessageHeaderLength : Nat))
      = ((ofPtr data_ptr)._totalLen.toInt - 14).toNat := by
    show sizeT ((ofPtr data_ptr)._totalLen.toInt - 14) = _
    exact sizeT_of_nonneg _ (by omega) (by omega)
  have hl : (ofPtr data_ptr)._msgData.length = ((ofPtr data_ptr)._totalLen.toInt - 14).toNat := by
    rw [← e]
    apply length_slice
    show 14 + sizeT ((ofPtr data_ptr)._totalLen.toInt - (MessageHeaderLength : Nat)) ≤ _
    rw [e]
    omega
  unfold Sound
  rw [hl]
  omega

theorem Built.sound {m : Message} (h : Built m) : m.Sound := by
  cases h with
  | ofId msgId => exact ofId_sound msgId
  | ofStr msgId s h => exact ofStr_sound msgId s h
  | ofNetStr msgId netId s h => exact ofNetStr_sound msgId netId s h
  | ofPtr data_ptr h1 h2 => exact ofPtr_sound data_ptr h1 h2

section
variable {m : Message} (h : m.Sound)
include h

theorem Sound.data_lt : m._msgData.length < 2147483634 := by
  have h1 := BitVec.toInt_lt (x := m._totalLen)
  unfold Sound at h
  omega

theorem Sound.toNat_totalLen : m._totalLen.toNat = m._msgData.length + 14 := by
  have h0 := h
  unfold Sound at h0
  rw [BitVec.toInt_eq_toNat_cond] at h0
  have := m._totalLen.isLt
  split at h0 <;> omega

theorem Sound.messageDataLen : m.messageDataLen = m._msgData.length := by
  have hd := h.data_lt
  unfold Message.messageDataLen
  rw [h]
  have e : ((m._msgData.length : Int) + 14 - (MessageHeaderLength : Nat)) = m._msgData.length := by
    unfold MessageHeaderLength; omega
  rw [e, sizeT_of_nonneg _ (by omega) (by omega), Int.toNat_natCast]

theorem Sound.getMessageStr : m.getMessageStr = m._msgData := by
  unfold Message.getMessageStr
  rw [h.messageDataLen, List.take_length]

theorem Sound.wire : m.wire = m.header ++ m._msgData := by
  unfold Message.wire
  rw [h.getMessageStr]

theorem Sound.length_wire : m.wire.length = m._msgData.length + 14 := by
  rw [h.wire, List.length_append, length_header]
  unfold MessageHeaderLength
  omega

end

/-! ## the received copy -/

theorem slice_header (m : Message) (ys : List UInt8) :
    slice (m.header ++ ys) 0 4 = leBytes 4 m._totalLen.toNat ∧
    slice (m.header ++ ys) 4 2 = leBytes 2 m._msgId.toNat ∧
    slice (m.header ++ ys) 6 4 = leBytes 4 m._netId.toNat ∧
    slice (m.header ++ ys) 10 4 = leBytes 4 m._bindId.toNat := by
  unfold header slice
  simp only [leBytes, List.cons_append, List.nil_append, List.drop_succ_cons, List.drop_zero,
    List.take_succ_cons, List.take_zero, and_self]

theorem leNat_field {w : Nat} (k : Nat) (hw : 2^w = 256^k) (x : BitVec w) :
    BitVec.ofNat w (leNat (leBytes k x.toNat)) = x := by
  rw [leNat_leBytes k x.toNat (by rw [← hw]; exact x.isLt), BitVec.ofNat_toNat, BitVec.setWidth_eq]

/-- **A received copy is the message that was sent**, whatever follows it in the buffer. -/
theorem create_wire (m : Message) (h : m.Sound) (ys : List UInt8) (l : Nat) :
    create (m.wire ++ ys) l = m := by
  have hw : m.wire ++ ys = m.header ++ (m._msgData ++ ys) := by rw [h.wire, List.append_assoc]
  obtain ⟨s1, s2, s3, s4⟩ := slice_header m (m._msgData ++ ys)
  have hd : slice (m.header ++ (m._msgData ++ ys)) MessageHeaderLength m._msgData.length
      = m._msgData := by
    unfold slice
    rw [← length_header m, List.drop_left, List.take_left]
  have hl : sizeT (m._totalLen.toInt - (MessageHeaderLength : Nat)) = m._msgData.length :=
    h.messageDataLen
  unfold create ofPtr
  rw [hw]
  simp only [s1, s2, s3, s4]
  rw [leNat_field 4 (by norm_num), leNat_field 2 (by norm_num), leNat_field 4 (by norm_num),
    leNat_field 4 (by norm_num), hl, hd]

theorem create_self {m : Message} (h : m.Sound) : create m.wire m.wire.length = m := by
  have e := create_wire m h [] m.wire.length
  rw [List.append_nil] at e
  exact e

end Message

end JMEngine.Net
