import Odradek.Library.BigEndian
import Odradek.Protocol.Budget

/-!
Primitive codecs of the wire format (`wire.rs`). An encoder is the bytes it
appends; a decoder is a `Decode`. `Buf`'s own getters panic on a short buffer,
and so does `copyToBytes`: what comes before it has to make that impossible.
-/

namespace Odradek.Protocol

open Library Library.Decoder

def ensure (needed : Nat) : Decode Unit := do
  let left ← remaining
  failIf (left < needed) (.truncated (needed - left))

/-- `Buf::copy_to_bytes`, `Bytes::split_to`: a panic past the end. -/
def copyToBytes (len : Nat) : Decode Bytes := split .panic len

def lenFrom (raw : Int) : Decode Nat :=
  if raw < 0 then fail (.invalidLength raw) else pure raw.toNat

def compactLen (raw : Nat) : Decode Nat :=
  if usizeMax < raw then fail (.invalidLength (min raw i64Max)) else pure raw

/-- A checked read of `len` bytes. -/
def takeBytes (len : Nat) : Decode Bytes := do
  ensure len
  copyToBytes len

def getFixed (width : Nat) : Decode Nat := do
  let bytes ← takeBytes width
  pure (ofBigEndian bytes)

def getI8 : Decode Int8 := do
  let raw ← getFixed 1
  pure (Int8.ofBitVec (BitVec.ofNat 8 raw))

def getI16 : Decode Int16 := do
  let raw ← getFixed 2
  pure (Int16.ofBitVec (BitVec.ofNat 16 raw))

def getU16 : Decode UInt16 := do
  let raw ← getFixed 2
  pure (UInt16.ofNat raw)

def getI32 : Decode Int32 := do
  let raw ← getFixed 4
  pure (Int32.ofBitVec (BitVec.ofNat 32 raw))

def getU32 : Decode UInt32 := do
  let raw ← getFixed 4
  pure (UInt32.ofNat raw)

def getI64 : Decode Int64 := do
  let raw ← getFixed 8
  pure (Int64.ofBitVec (BitVec.ofNat 64 raw))

/-- The bits of a `FLOAT64`; nothing here computes with them. -/
def getF64 : Decode UInt64 := do
  let raw ← getFixed 8
  pure (UInt64.ofNat raw)

def getBool : Decode Bool := do
  let byte ← getFixed 1
  pure (byte != 0)

def putI8 (value : Int8) : Bytes := toBigEndian 1 value.toBitVec.toNat
def putI16 (value : Int16) : Bytes := toBigEndian 2 value.toBitVec.toNat
def putU16 (value : UInt16) : Bytes := toBigEndian 2 value.toNat
def putI32 (value : Int32) : Bytes := toBigEndian 4 value.toBitVec.toNat
def putU32 (value : UInt32) : Bytes := toBigEndian 4 value.toNat
def putI64 (value : Int64) : Bytes := toBigEndian 8 value.toBitVec.toNat
def putF64 (bits : UInt64) : Bytes := toBigEndian 8 bits.toNat
def putBool (value : Bool) : Bytes := toBigEndian 1 value.toNat

/-- The loop of `put_unsigned_varint`; a `u64` is done within ten rounds. -/
def putVarintRounds : (rounds value : Nat) → Bytes
  | 0, _ => []
  | rounds + 1, value =>
    if value >>> 7 ≠ 0 then
      UInt8.ofNat ((value &&& 0x7f) ||| 0x80) :: putVarintRounds rounds (value >>> 7)
    else [UInt8.ofNat (value &&& 0x7f)]

def putUnsignedVarint (value : Nat) : Bytes := putVarintRounds 10 value

/-- The loop of `get_unsigned_varint`; after ten rounds the shift is past 63. -/
def getVarintRounds : (rounds shift value : Nat) → Decode Nat
  | 0, _, _ => fail .varintOverflow
  | rounds + 1, shift, value => do
    let byte ← getFixed 1
    if shift = 63 ∧ byte &&& 0xfe ≠ 0 then fail .varintOverflow
    else
      let value := value ||| ((byte &&& 0x7f) <<< shift)
      if byte &&& 0x80 = 0 then pure value
      else if 63 < shift + 7 then fail .varintOverflow
      else getVarintRounds rounds (shift + 7) value

def getUnsignedVarint : Decode Nat := getVarintRounds 10 0 0

def zigzagEncode (value : Int64) : UInt64 := ((value <<< 1) ^^^ (value >>> 63)).toUInt64

def zigzagDecode (value : UInt64) : Int64 :=
  (value >>> 1).toInt64 ^^^ -(value &&& 1).toInt64

def putVarint (value : Int64) : Bytes := putUnsignedVarint (zigzagEncode value).toNat

def getVarint : Decode Int64 := do
  let raw ← getUnsignedVarint
  pure (zigzagDecode (UInt64.ofNat raw))

/-- `64 - value.leading_zeros()`. -/
def bitLen (value : UInt64) : Nat := if value = 0 then 0 else Nat.log2 value.toNat + 1

def unsignedVarintLen (value : UInt64) : Nat := max ((bitLen value + 6) / 7) 1

def varintLen (value : Int64) : Nat := unsignedVarintLen (zigzagEncode value)

def utf8 (value : String) : Bytes := value.toUTF8.data.toList

def fromUtf8 (bytes : Bytes) : Option String := String.fromUTF8? ⟨bytes.toArray⟩

def parseUtf8 (bytes : Bytes) : Decode String :=
  match fromUtf8 bytes with
  | some value => pure value
  | none => fail .invalidUtf8

def readUtf8 (len : Nat) : Decode String := do
  let bytes ← takeBytes len
  parseUtf8 bytes

def putString (value : String) : Except EncodeError Bytes :=
  if i16Max < (utf8 value).length then .error (.tooLong (utf8 value).length i16Max)
  else .ok (putI16 (Int16.ofNat (utf8 value).length) ++ utf8 value)

def putNullableString : Option String → Except EncodeError Bytes
  | some value => putString value
  | none => .ok (putI16 (-1))

def getNullableString : Decode (Option String) := do
  let raw ← getI16
  if raw = -1 then pure none
  else
    let len ← lenFrom raw.toInt
    let value ← readUtf8 len
    pure (some value)

/-- `ok_or(DecodeError::InvalidLength(-1))`: a null marker where null is an error. -/
def notNull {α : Type} : Option α → Decode α
  | some value => pure value
  | none => fail (.invalidLength (-1))

def getString : Decode String := do
  let value ← getNullableString
  notNull value

def putCompactString (value : String) : Bytes :=
  putUnsignedVarint ((utf8 value).length + 1) ++ utf8 value

def putCompactNullableString : Option String → Bytes
  | some value => putCompactString value
  | none => putUnsignedVarint 0

def getCompactNullableString : Decode (Option String) := do
  let n ← getUnsignedVarint
  if n = 0 then pure none
  else
    let len ← compactLen (n - 1)
    let value ← readUtf8 len
    pure (some value)

def getCompactString : Decode String := do
  let value ← getCompactNullableString
  notNull value

def putBytes (value : Bytes) : Except EncodeError Bytes :=
  if i32Max < value.length then .error (.tooLong value.length i32Max)
  else .ok (putI32 (Int32.ofNat value.length) ++ value)

def putNullableBytes : Option Bytes → Except EncodeError Bytes
  | some value => putBytes value
  | none => .ok (putI32 (-1))

def getNullableBytes : Decode (Option Bytes) := do
  let raw ← getI32
  if raw = -1 then pure none
  else
    let len ← lenFrom raw.toInt
    let value ← takeBytes len
    pure (some value)

def putCompactBytes (value : Bytes) : Bytes := putUnsignedVarint (value.length + 1) ++ value

def putCompactNullableBytes : Option Bytes → Bytes
  | some value => putCompactBytes value
  | none => putUnsignedVarint 0

def getCompactNullableBytes : Decode (Option Bytes) := do
  let n ← getUnsignedVarint
  if n = 0 then pure none
  else
    let len ← compactLen (n - 1)
    let value ← takeBytes len
    pure (some value)

def putArrayLen : Option Nat → Except EncodeError Bytes
  | some n =>
    if i32Max < n then .error (.tooLong n i32Max) else .ok (putI32 (Int32.ofNat n))
  | none => .ok (putI32 (-1))

def getArrayLen : Decode (Option Nat) := do
  let raw ← getI32
  if raw = -1 then pure none
  else
    let len ← lenFrom raw.toInt
    pure (some len)

def putCompactArrayLen : Option Nat → Bytes
  | some n => putUnsignedVarint (n + 1)
  | none => putUnsignedVarint 0

def getCompactArrayLen : Decode (Option Nat) := do
  let n ← getUnsignedVarint
  if n = 0 then pure none
  else
    let len ← compactLen (n - 1)
    pure (some len)

def uuidLen : Nat := 16

def getUuid : Decode Bytes := takeBytes uuidLen

/-- A tagged field kept as raw bytes; a tag is a `u32`. -/
structure RawTaggedField where
  tag : Nat
  data : Bytes
  deriving DecidableEq

/-- `size_of::<RawTaggedField>()`, as `budget.rs` gives it. -/
def rawTaggedFieldSize : Nat := 40

def putTaggedField (field : RawTaggedField) : Bytes :=
  putUnsignedVarint field.tag ++ putUnsignedVarint field.data.length ++ field.data

def putTaggedFields (fields : List RawTaggedField) : Bytes :=
  putUnsignedVarint fields.length ++ fields.flatMap putTaggedField

def u32Max : Nat := 2 ^ 32 - 1

/-- `len_from(i64::try_from(raw).unwrap_or(-1))`. -/
def taggedLen (raw : Nat) : Decode Nat := lenFrom (if raw ≤ i64Max then raw else -1)

/-- Tags are strictly ascending. -/
def checkTagOrder (previous : Option Nat) (tag : Nat) : Decode Unit :=
  match previous with
  | some previous => failIf (tag ≤ previous) (.taggedFieldOrder previous tag)
  | none => pure ()

/-- What one turn of `get_tagged_fields_with_budget`'s loop reads. -/
def getTaggedField (previous : Option Nat) : Decode RawTaggedField := do
  let tag ← getUnsignedVarint
  failIf (u32Max < tag) .varintOverflow
  checkTagOrder previous tag
  let raw ← getUnsignedVarint
  let len ← taggedLen raw
  let data ← takeBytes len
  pure { tag, data }

def getTaggedFieldsLoop : (count : Nat) → Option Nat → Vec RawTaggedField →
    Decode (Vec RawTaggedField)
  | 0, _, fields => pure fields
  | count + 1, previous, fields => do
    let field ← getTaggedField previous
    let fields ← push rawTaggedFieldSize fields field
    getTaggedFieldsLoop count (some field.tag) fields

def getTaggedFields : Decode (List RawTaggedField) := do
  let count ← getUnsignedVarint
  let fields ← getTaggedFieldsLoop count none (Vec.new rawTaggedFieldSize)
  pure fields.items

end Odradek.Protocol
