import Mathlib.Data.BitVec
import Mathlib.Tactic.Common

/-!
# `jme_rpc` on the wire (source/rpc/JME_RpcPb.cpp)

The generated message class over the protobuf 2.5 streams: `required int32 rpc_id = 1`,
`required string method = 2`, `required bytes params = 3`.  `SerializeAsString` writes the three
fields in this order; `ParseFromString` accepts them in any order, skips fields it does not know, and
keeps the fields it has read when it stops half way.

* `readVarint`, `writeVarint`   base-128 numbers of at most ten bytes, `readVarint_write`;
* `mergePartialFromCodedStream` the parser's loop, on the bytes that are left;
* `parsed`                      the result of `ParseFromString`, which the RPC layer does not look at;
* `Codec`                       what the RPC layer uses of the two functions;
* `pb`                          the codec of the generated class: **what is serialized is parsed
                                back**, as long as it fits a frame (`parse_serialize`).
-/

set_option linter.unusedSectionVars false

namespace JMEngine.Rpc

/-- the fields of the protobuf message `jme_rpc` -/
structure JmeRpc where
  rpc_id : BitVec 32
  method : List UInt8
  params : List UInt8
  deriving DecidableEq, Repr

/-- `SerializeAsString`, and the fields that `ParseFromString` leaves in a fresh message (the RPC layer
never looks at its result); parsing undoes serialization for everything that fits a frame -/
structure Codec where
  serializeAsString : JmeRpc → List UInt8
  parseFromString : List UInt8 → JmeRpc
  parse_serialize : ∀ rpc, (serializeAsString rpc).length < 2147483634 →
    parseFromString (serializeAsString rpc) = rpc

namespace Pb

/-! ## varints -/

/-- a varint of at most `n` bytes -/
def readVarint : Nat → List UInt8 → Option (Nat × List UInt8)
  | 0, _ => none
  | _ + 1, [] => none
  | n + 1, b :: bs =>
    if b.toNat < 128 then some (b.toNat, bs)
    else (readVarint n bs).map fun r => (b.toNat - 128 + 128 * r.1, r.2)

def writeVarint : Nat → Nat → List UInt8
  | 0, _ => []
  | n + 1, v =>
    if v < 128 then [UInt8.ofNat v] else UInt8.ofNat (v % 128 + 128) :: writeVarint n (v / 128)

theorem readVarint_write (n v : Nat) (rest : List UInt8) (h : v < 128 ^ (n + 1)) :
    readVarint (n + 1) (writeVarint (n + 1) v ++ rest) = some (v, rest) := by
  induction n generalizing v with
  | zero =>
    have hv : v < 128 := h
    rw [writeVarint, if_pos hv, List.singleton_append, readVarint,
      UInt8.toNat_ofNat_of_lt' (show v < 256 by omega), if_pos hv]
  | succ n ih =>
    rw [writeVarint]
    by_cases hv : v < 128
    · rw [if_pos hv, List.singleton_append, readVarint,
        UInt8.toNat_ofNat_of_lt' (show v < 256 by omega), if_pos hv]
    · have hd : v / 128 < 128 ^ (n + 1) := by
        rw [Nat.pow_succ] at h
        exact Nat.div_lt_of_lt_mul (by rw [Nat.mul_comm]; exact h)
      rw [if_neg hv, List.cons_append, readVarint,
        UInt8.toNat_ofNat_of_lt' (show v % 128 + 128 < 256 by omega), if_neg (by omega), ih _ hd,
        Option.map_some]
      have e : v % 128 + 128 - 128 + 128 * (v / 128) = v := by omega
      rw [e]

theorem length_writeVarint (n v : Nat) : (writeVarint n v).length ≤ n := by
  induction n generalizing v with
  | zero => exact Nat.le_refl 0
  | succ n ih =>
    rw [writeVarint]
    split
    · exact Nat.succ_le_succ (Nat.zero_le n)
    · exact Nat.succ_le_succ (ih _)

/-- `ReadVarint32`: the bits above 32 are read and dropped -/
def readVarint32 (bs : List UInt8) : Option (Nat × List UInt8) :=
  (readVarint 10 bs).map fun r => (r.1 % 4294967296, r.2)

/-- `ReadTag`: 0 at the end of the input and for anything that is no varint -/
def readTag (bs : List UInt8) : Nat × List UInt8 := (readVarint32 bs).getD (0, bs)

/-- `WriteVarint32` and `WriteVarint64` -/
def varint (v : Nat) : List UInt8 := writeVarint 10 v

theorem readVarint32_varint (v : Nat) (rest : List UInt8) (h : v < 18446744073709551616) :
    readVarint32 (varint v ++ rest) = some (v % 4294967296, rest) := by
  unfold readVarint32 varint
  rw [readVarint_write 9 v rest (by omega)]
  rfl

theorem readTag_byte (b : UInt8) (hb : b.toNat < 128) (rest : List UInt8) :
    readTag (b :: rest) = (b.toNat, rest) := by
  unfold readTag readVarint32
  rw [readVarint, if_pos hb]
  show (b.toNat % 4294967296, rest) = _
  rw [Nat.mod_eq_of_lt (by omega)]

/-! ## the parser -/

/-- `WireFormatLite::ReadString` and `ReadBytes`: result, new value, bytes left.  When the input ends
inside the value the value is what there was. -/
def readString (old bs : List UInt8) : Bool × List UInt8 × List UInt8 :=
  match readVarint32 bs with
  | none => (false, old, [])
  | some (length, rest) =>
    if 2147483648 ≤ length then (false, old, rest)
    else if rest.length < length then (false, rest, [])
    else (true, rest.take length, rest.drop length)

mutual

/-- `WireFormat::SkipMessage` inside a group; the last tag and the bytes left.  Every tag takes a byte
and two levels of the recursion, which `n` bounds. -/
def skipMessage : Nat → Nat → List UInt8 → Option (Nat × List UInt8)
  | 0, _, _ => none
  | n + 1, depth, bs =>
    match readTag bs with
    | (tag, rest) =>
      if tag = 0 || tag % 8 = 4 then some (tag, rest)
      else
        match skipField n depth tag rest with
        | none => none
        | some rest' => skipMessage n depth rest'

def skipField : Nat → Nat → Nat → List UInt8 → Option (List UInt8)
  | 0, _, _, _ => none
  | n + 1, depth, tag, bs =>
    match tag % 8 with
    | 0 => (readVarint 10 bs).map Prod.snd
    | 1 => if bs.length < 8 then none else some (bs.drop 8)
    | 2 =>
      match readString [] bs with
      | (ok, _, rest) => if ok then some rest else none
    | 3 =>
      -- `IncrementRecursionDepth` with the default limit
      if 100 < depth + 1 then none
      else
        match skipMessage n (depth + 1) bs with
        | none => none
        | some (last, rest) => if last = tag / 8 * 8 + 4 then some rest else none
    | 5 => if bs.length < 4 then none else some (bs.drop 4)
    | _ => none

end

structure Fields where
  rpc_id : Option (BitVec 32)
  method : Option (List UInt8)
  params : Option (List UInt8)
  deriving DecidableEq, Repr

def Fields.rpc (f : Fields) : JmeRpc :=
  ⟨f.rpc_id.getD 0, f.method.getD [], f.params.getD []⟩

/-- `MergePartialFromCodedStream`.  The tags are those of the three fields with their wire types; the
`goto`s behind `ExpectTag` are the next round of the loop.  `n` bounds the number of rounds. -/
def mergePartialFromCodedStream : Nat → Fields → List UInt8 → Bool × Fields
  | 0, f, _ => (true, f)
  | n + 1, f, bs =>
    match readTag bs with
    | (tag, rest) =>
      if tag = 0 then (true, f)
      else if tag = 8 then
        match readVarint32 rest with
        | none => (false, f)
        | some (v, rest') =>
          mergePartialFromCodedStream n { f with rpc_id := some (BitVec.ofNat 32 v) } rest'
      else if tag = 18 then
        match readString (f.method.getD []) rest with
        | (ok, v, rest') =>
          if ok then mergePartialFromCodedStream n { f with method := some v } rest'
          else (false, { f with method := some v })
      else if tag = 26 then
        match readString (f.params.getD []) rest with
        | (ok, v, rest') =>
          if ok then mergePartialFromCodedStream n { f with params := some v } rest'
          else (false, { f with params := some v })
      else if tag % 8 = 4 then (true, f)
      else
        match skipField (2 * rest.length + 2) 0 tag rest with
        | none => (false, f)
        | some rest' => mergePartialFromCodedStream n f rest'

/-- the fields after `ParseFromString`; every round of the loop reads a byte -/
def parseFromString (data : List UInt8) : JmeRpc :=
  (mergePartialFromCodedStream (data.length + 1) ⟨none, none, none⟩ data).2.rpc

/-- the bytes behind a field whose tag has been read; `none` where the loop ends -/
def skipParsed (tag : Nat) (bs : List UInt8) : Option (List UInt8) :=
  if tag = 0 then none
  else if tag = 8 then (readVarint32 bs).map Prod.snd
  else if tag = 18 || tag = 26 then
    match readString [] bs with
    | (ok, _, rest) => if ok then some rest else none
  else if tag % 8 = 4 then none
  else skipField (2 * bs.length + 2) 0 tag bs

/-- `ConsumedEntireMessage`: the loop has come to the end of the input where it looks for a tag.  Behind
`params` it looks with `ExpectAtEnd`, elsewhere with `ReadTag`, which takes the end of more than
`kDefaultTotalBytesLimit` bytes for an error. -/
def consumedEntireMessage (size : Nat) : Nat → Bool → List UInt8 → Bool
  | 0, _, _ => false
  | _ + 1, afterParams, [] => afterParams || size ≤ 67108864
  | n + 1, _, b :: bs =>
    match readTag (b :: bs) with
    | (tag, rest) =>
      match skipParsed tag rest with
      | none => false
      | some rest' => consumedEntireMessage size n (tag = 26) rest'

def Fields.isInitialized (f : Fields) : Bool := f.rpc_id.isSome && f.method.isSome && f.params.isSome

/-- the result of `ParseFromString` -/
def parsed (data : List UInt8) : Bool :=
  match mergePartialFromCodedStream (data.length + 1) ⟨none, none, none⟩ data with
  | (ok, f) =>
    ok && f.isInitialized && consumedEntireMessage data.length (data.length + 1) false data

/-! ## the serializer -/

/-- `WriteInt32`: a negative number is written as 64 bits -/
def writeInt32 (v : BitVec 32) : List UInt8 := 8 :: varint (v.signExtend 64).toNat

/-- `WriteString` and `WriteBytes`: tag, `uint32` length, bytes -/
def writeBytes (tag : UInt8) (s : List UInt8) : List UInt8 :=
  tag :: (varint (s.length % 4294967296) ++ s)

/-- `SerializeWithCachedSizes` of a message with all three fields set -/
def serializeAsString (rpc : JmeRpc) : List UInt8 :=
  writeInt32 rpc.rpc_id ++ writeBytes 18 rpc.method ++ writeBytes 26 rpc.params

theorem signExtend_toNat_mod (v : BitVec 32) : (v.signExtend 64).toNat % 4294967296 = v.toNat := by
  have hv := v.isLt
  rw [BitVec.toNat_signExtend, BitVec.toNat_setWidth]
  cases v.msb <;> simp only [Bool.false_eq_true, if_true, if_false] <;> omega

theorem readString_varint (old s rest : List UInt8) (h : s.length < 2147483648) :
    readString old (varint (s.length % 4294967296) ++ s ++ rest) = (true, s, rest) := by
  have e : s.length % 4294967296 = s.length := Nat.mod_eq_of_lt (by omega)
  unfold readString
  rw [e, List.append_assoc, readVarint32_varint _ _ (by omega), e]
  dsimp only
  rw [if_neg (by omega), if_neg (by rw [List.length_append]; omega),
    List.take_left, List.drop_left]

section
variable (n : Nat) (f : Fields) (rest : List UInt8)

theorem merge_rpc_id (v : BitVec 32) :
    mergePartialFromCodedStream (n + 1) f (writeInt32 v ++ rest)
      = mergePartialFromCodedStream n { f with rpc_id := some v } rest := by
  unfold writeInt32
  rw [List.cons_append, mergePartialFromCodedStream, readTag_byte 8 (by decide)]
  dsimp only
  rw [if_neg (by decide), if_pos (by decide), readVarint32_varint _ _ (v.signExtend 64).isLt,
    signExtend_toNat_mod]
  dsimp only
  rw [BitVec.ofNat_toNat, BitVec.setWidth_eq]

theorem merge_method (s : List UInt8) (h : s.length < 2147483648) :
    mergePartialFromCodedStream (n + 1) f (writeBytes 18 s ++ rest)
      = mergePartialFromCodedStream n { f with method := some s } rest := by
  unfold writeBytes
  rw [List.cons_append, mergePartialFromCodedStream, readTag_byte 18 (by decide)]
  dsimp only
  rw [readString_varint _ s rest h]
  rfl

theorem merge_params (s : List UInt8) (h : s.length < 2147483648) :
    mergePartialFromCodedStream (n + 1) f (writeBytes 26 s ++ rest)
      = mergePartialFromCodedStream n { f with params := some s } rest := by
  unfold writeBytes
  rw [List.cons_append, mergePartialFromCodedStream, readTag_byte 26 (by decide)]
  dsimp only
  rw [readString_varint (f.params.getD []) s rest h]
  rfl

end

theorem length_writeBytes (tag : UInt8) (s : List UInt8) : s.length < (writeBytes tag s).length := by
  unfold writeBytes
  rw [List.length_cons, List.length_append]
  omega

section
variable (size n : Nat) (a : Bool) (rest : List UInt8)

theorem consumed_rpc_id (v : BitVec 32) :
    consumedEntireMessage size (n + 1) a (writeInt32 v ++ rest)
      = consumedEntireMessage size n false rest := by
  unfold writeInt32
  rw [List.cons_append, consumedEntireMessage, readTag_byte 8 (by decide)]
  dsimp only
  rw [skipParsed, if_neg (by decide), if_pos (by decide),
    readVarint32_varint _ _ (v.signExtend 64).isLt]
  rfl

theorem consumed_bytes (tag : UInt8) (s : List UInt8) (ht : tag = 18 ∨ tag = 26)
    (h : s.length < 2147483648) :
    consumedEntireMessage size (n + 1) a (writeBytes tag s ++ rest)
      = consumedEntireMessage size n (tag = 26) rest := by
  unfold writeBytes
  rcases ht with rfl | rfl
  all_goals
    rw [List.cons_append, consumedEntireMessage, readTag_byte _ (by decide)]
    dsimp only
    rw [skipParsed, if_neg (by decide), if_neg (by decide), if_pos (by decide),
      readString_varint [] s rest h]
    rfl

end

theorem rounds_serialize (rpc : JmeRpc) : ∃ n, (serializeAsString rpc).length + 1 = n + 1 + 1 + 1 + 1
    ∧ rpc.method.length < (serializeAsString rpc).length
    ∧ rpc.params.length < (serializeAsString rpc).length := by
  have h1 := length_writeBytes 18 rpc.method
  have h2 := length_writeBytes 26 rpc.params
  have hl : (serializeAsString rpc).length = (writeInt32 rpc.rpc_id).length
      + (writeBytes 18 rpc.method).length + (writeBytes 26 rpc.params).length := by
    unfold serializeAsString
    rw [List.length_append, List.length_append]
  have h0 : 0 < (writeInt32 rpc.rpc_id).length := by
    unfold writeInt32
    rw [List.length_cons]
    omega
  exact ⟨(serializeAsString rpc).length - 3, by omega, by omega, by omega⟩

theorem merge_serialize (rpc : JmeRpc) (h : (serializeAsString rpc).length < 2147483634) :
    mergePartialFromCodedStream ((serializeAsString rpc).length + 1) ⟨none, none, none⟩
      (serializeAsString rpc) = (true, ⟨some rpc.rpc_id, some rpc.method, some rpc.params⟩) := by
  obtain ⟨n, hn, h1, h2⟩ := rounds_serialize rpc
  rw [hn]
  unfold serializeAsString
  rw [List.append_assoc, merge_rpc_id, merge_method _ _ _ _ (by omega),
    ← List.append_nil (writeBytes 26 rpc.params), merge_params _ _ _ _ (by omega)]
  rfl

theorem parse_serialize (rpc : JmeRpc) (h : (serializeAsString rpc).length < 2147483634) :
    parseFromString (serializeAsString rpc) = rpc := by
  unfold parseFromString
  rw [merge_serialize rpc h]
  rfl

theorem parsed_serialize (rpc : JmeRpc) (h : (serializeAsString rpc).length < 2147483634) :
    parsed (serializeAsString rpc) = true := by
  obtain ⟨n, hn, h1, h2⟩ := rounds_serialize rpc
  have hend : consumedEntireMessage (serializeAsString rpc).length
      ((serializeAsString rpc).length + 1) false (serializeAsString rpc) = true := by
    generalize (serializeAsString rpc).length = size at hn ⊢
    rw [hn]
    unfold serializeAsString
    rw [List.append_assoc, consumed_rpc_id, consumed_bytes _ _ _ _ 18 _ (Or.inl rfl) (by omega),
      ← List.append_nil (writeBytes 26 rpc.params), consumed_bytes _ _ _ _ 26 _ (Or.inr rfl) (by omega)]
    rfl
  unfold parsed
  rw [merge_serialize rpc h, hend]
  rfl

end Pb

def pb : Codec where
  serializeAsString := Pb.serializeAsString
  parseFromString := Pb.parseFromString
  parse_serialize := Pb.parse_serialize

example : pb.parseFromString [8, 1, 18, 1, 97] = ⟨1, [97], []⟩ := by decide +kernel

end JMEngine.Rpc
