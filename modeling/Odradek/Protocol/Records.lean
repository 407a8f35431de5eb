import Mathlib.Algebra.GroupWithZero.Nat
import Odradek.Protocol.Crc
import Odradek.Protocol.Wire

/-!
Record batches, magic 2 (`records.rs`). A batch body is a buffer of its own
whose fixed fields are read with `Buf`'s unchecked getters: `batch_length` has
been compared with `BATCH_OVERHEAD` before.
-/

namespace Odradek.Protocol

open Library Library.Decoder

def magic : Int8 := 2

def batchOverhead : Nat := 4 + 1 + 4 + 2 + 4 + 8 + 8 + 8 + 2 + 4 + 4

inductive Compression
  | none
  | gzip
  | snappy
  | lz4
  | zstd
  | unknown (bits : UInt8)
  deriving DecidableEq

def Compression.fromAttributes (attributes : Int16) : Compression :=
  match (attributes &&& 0x7).toBitVec.toNat with
  | 0 => .none
  | 1 => .gzip
  | 2 => .snappy
  | 3 => .lz4
  | 4 => .zstd
  | other => .unknown (UInt8.ofNat other)

def Compression.attributeBits : Compression → Int16
  | .none => 0
  | .gzip => 1
  | .snappy => 2
  | .lz4 => 3
  | .zstd => 4
  | .unknown bits => bits.toUInt16.toInt16

structure RecordHeader where
  key : String
  value : Option Bytes
  deriving DecidableEq

structure Record where
  attributes : Int8
  timestampDelta : Int64
  offsetDelta : Int32
  key : Option Bytes
  value : Option Bytes
  headers : List RecordHeader
  deriving DecidableEq

inductive Records
  | plain (records : List Record)
  | compressed (count : Int32) (payload : Bytes)
  deriving DecidableEq

structure RecordBatch where
  baseOffset : Int64
  partitionLeaderEpoch : Int32
  attributes : Int16
  lastOffsetDelta : Int32
  baseTimestamp : Int64
  maxTimestamp : Int64
  producerId : Int64
  producerEpoch : Int16
  baseSequence : Int32
  records : Records
  deriving DecidableEq

/-- `size_of` of a header, a record and a batch on a 64-bit target. -/
def recordHeaderSize : Nat := 56
def recordSize : Nat := 104
def recordBatchSize : Nat := 88

def Record.minimal : Record :=
  { attributes := 0, timestampDelta := 0, offsetDelta := 0, key := none, value := none,
    headers := [] }

namespace RecordBatch

def compression (batch : RecordBatch) : Compression := .fromAttributes batch.attributes

def isTransactional (batch : RecordBatch) : Bool := batch.attributes &&& ((1 : Int16) <<< 4) != 0

def isControl (batch : RecordBatch) : Bool := batch.attributes &&& ((1 : Int16) <<< 5) != 0

def recordCount (batch : RecordBatch) : Except EncodeError Int32 :=
  match batch.records with
  | .plain records =>
    if i32Max < records.length then .error (.tooLong records.length i32Max)
    else .ok (Int32.ofNat records.length)
  | .compressed count _ => .ok count

end RecordBatch

section Encode

def putVarintBytes : Option Bytes → Bytes
  | some value => putVarint (Int64.ofNat value.length) ++ value
  | none => putVarint (-1)

/-- `bytes_len` of `body_len`. -/
def varintBytesLen : Option Bytes → Nat
  | some value => varintLen (Int64.ofNat value.length) + value.length
  | none => varintLen (-1)

def RecordHeader.put (header : RecordHeader) : Bytes :=
  putVarintBytes (some (utf8 header.key)) ++ putVarintBytes header.value

namespace Record

/-- Sized rather than measured: the length prefix comes first. -/
def bodyLen (record : Record) (headerCount : Int64) : Nat :=
  1 + varintLen record.timestampDelta + varintLen record.offsetDelta.toInt64 +
    varintBytesLen record.key + varintBytesLen record.value + varintLen headerCount +
    (record.headers.map fun header =>
      varintBytesLen (some (utf8 header.key)) + varintBytesLen header.value).sum

def body (record : Record) : Bytes :=
  putI8 record.attributes ++ (putVarint record.timestampDelta ++
    (putVarint record.offsetDelta.toInt64 ++ (putVarintBytes record.key ++
      (putVarintBytes record.value ++ (putVarint (Int64.ofNat record.headers.length) ++
        record.headers.flatMap RecordHeader.put)))))

def encode (record : Record) : Except EncodeError Bytes :=
  if i64Max < record.headers.length then .error (.tooLong record.headers.length i64Max)
  else
    let bodyLen := record.bodyLen (Int64.ofNat record.headers.length)
    if i64Max < bodyLen then .error (.tooLong bodyLen i64Max)
    else .ok (putVarint (Int64.ofNat bodyLen) ++ record.body)

def encodeAll : List Record → Except EncodeError Bytes
  | [] => .ok []
  | record :: records => do
    let head ← record.encode
    let tail ← encodeAll records
    pure (head ++ tail)

end Record

namespace RecordBatch

/-- What the crc covers, before the records. -/
def fixedFields (batch : RecordBatch) (count : Int32) : Bytes :=
  putI16 batch.attributes ++ (putI32 batch.lastOffsetDelta ++ (putI64 batch.baseTimestamp ++
    (putI64 batch.maxTimestamp ++ (putI64 batch.producerId ++ (putI16 batch.producerEpoch ++
      (putI32 batch.baseSequence ++ putI32 count))))))

/-- `encode_in_place`: the bytes a batch appends, once its length and crc have
been patched in. A failed batch leaves nothing behind. -/
def encode (batch : RecordBatch) : Except EncodeError Bytes := do
  let count ← batch.recordCount
  let records ← match batch.records with
    | .plain records => Record.encodeAll records
    | .compressed _ payload => pure payload
  let body := batch.fixedFields count ++ records
  let batchLength := 4 + 1 + 4 + body.length
  if i32Max < batchLength then .error (.tooLong batchLength i32Max)
  else
    pure (putI64 batch.baseOffset ++ (putI32 (Int32.ofNat batchLength) ++
      (putI32 batch.partitionLeaderEpoch ++ (putI8 magic ++ (putU32 (crc32c body) ++ body)))))

end RecordBatch
end Encode

section Decode

/-- `Buf`'s own getters, which panic on a short buffer. -/
def rawFixed (width : Nat) : Decode Nat := do
  let bytes ← copyToBytes width
  pure (ofBigEndian bytes)

def rawI8 : Decode Int8 := do
  let raw ← rawFixed 1
  pure (Int8.ofBitVec (BitVec.ofNat 8 raw))

def rawI16 : Decode Int16 := do
  let raw ← rawFixed 2
  pure (Int16.ofBitVec (BitVec.ofNat 16 raw))

def rawI32 : Decode Int32 := do
  let raw ← rawFixed 4
  pure (Int32.ofBitVec (BitVec.ofNat 32 raw))

def rawU32 : Decode UInt32 := do
  let raw ← rawFixed 4
  pure (UInt32.ofNat raw)

def rawI64 : Decode Int64 := do
  let raw ← rawFixed 8
  pure (Int64.ofBitVec (BitVec.ofNat 64 raw))

/-- Bytes that no field accounts for. -/
def drained : Decode Unit := do
  let left ← remaining
  failIf (left ≠ 0) (.invalidLength left)

def getVarintBytes : Decode (Option Bytes) := do
  let length ← getVarint
  if length = -1 then pure none
  else
    let length ← lenFrom length.toInt
    let bytes ← takeBytes length
    pure (some bytes)

def getHeader : Decode RecordHeader := do
  let key ← getVarintBytes
  let key ← notNull key
  let key ← parseUtf8 key
  let value ← getVarintBytes
  pure { key, value }

def Record.decodeBody : Decode Record := do
  let left ← remaining
  failIf (left = 0) (.truncated 1)
  let attributes ← rawI8
  let timestampDelta ← getVarint
  let offsetDelta ← getVarint
  failIf (offsetDelta.toInt < Int32.minValue.toInt ∨ Int32.maxValue.toInt < offsetDelta.toInt)
    (.invalidLength offsetDelta.toInt)
  let key ← getVarintBytes
  let value ← getVarintBytes
  let headerCount ← getVarint
  failIf (headerCount.toInt < 0) (.invalidLength headerCount.toInt)
  let headers ← getItems recordHeaderSize (progressing getHeader) headerCount.toInt.toNat
    (Vec.new recordHeaderSize)
  drained
  pure { attributes, timestampDelta, offsetDelta := offsetDelta.toInt32, key, value,
         headers := headers.items }

def Record.decode : Decode Record := do
  let length ← getVarint
  let length ← lenFrom length.toInt
  let body ← takeBytes length
  within body Record.decodeBody

/-- The fields after the crc. -/
def RecordBatch.decodeBody (baseOffset : Int64) (partitionLeaderEpoch : Int32) :
    Decode RecordBatch := do
  let attributes ← rawI16
  let lastOffsetDelta ← rawI32
  let baseTimestamp ← rawI64
  let maxTimestamp ← rawI64
  let producerId ← rawI64
  let producerEpoch ← rawI16
  let baseSequence ← rawI32
  let count ← rawI32
  failIf (count.toInt < 0) (.invalidLength count.toInt)
  let records ←
    if Compression.fromAttributes attributes = .none then do
      let records ← getItems recordSize (progressing Record.decode) count.toInt.toNat
        (Vec.new recordSize)
      drained
      pure (Records.plain records.items)
    else do
      let left ← remaining
      let payload ← copyToBytes left
      pure (Records.compressed count payload)
  pure { baseOffset, partitionLeaderEpoch, attributes, lastOffsetDelta, baseTimestamp,
         maxTimestamp, producerId, producerEpoch, baseSequence, records }

def RecordBatch.decode : Decode RecordBatch := do
  ensure 12
  let baseOffset ← rawI64
  let batchLength ← rawI32
  let batchLength ← lenFrom batchLength.toInt
  failIf (batchLength < batchOverhead) (.invalidLength batchLength)
  ensure batchLength
  let partitionLeaderEpoch ← rawI32
  let found ← rawI8
  failIf (found ≠ magic) (.unknownDiscriminant "record batch magic" found.toInt)
  let crc ← rawU32
  let body ← copyToBytes (batchLength - 9)
  failIf (crc32c body ≠ crc) (.crcMismatch crc (crc32c body))
  within body (decodeBody baseOffset partitionLeaderEpoch)

/-- The length field of the batch in front, without reading it. -/
def peekBatchLength : Decode Int := fun s =>
  .ok (Int32.ofBitVec (BitVec.ofNat 32 (ofBigEndian ((s.bytes.drop 8).take 4)))).toInt s

def clear : Decode Unit := fun s => .ok () { s with bytes := [] }

/-- The loop of `decode_set_with_budget`. Each round reads a whole batch, so
there are fewer rounds than bytes; running out of them would be a spin. -/
def decodeSetRounds : (rounds : Nat) → Vec RecordBatch → Decode (Vec RecordBatch)
  | 0, _ => throw .panic
  | rounds + 1, batches => do
    let left ← remaining
    if left < 12 then
      clear
      pure batches
    else
      let batchLength ← peekBatchLength
      let batchLength ← lenFrom batchLength
      if left < 12 + batchLength then
        clear
        pure batches
      else
        let batch ← RecordBatch.decode
        let batches ← push recordBatchSize batches batch
        decodeSetRounds rounds batches

def decodeSet : Decode (List RecordBatch) := do
  let left ← remaining
  let batches ← decodeSetRounds (left + 1) (Vec.new recordBatchSize)
  pure batches.items

end Decode

/-- A decode of a whole buffer under `limits`: what it returns, and the bytes
it leaves. -/
def runDecode {α : Type} (limits : Limits) (d : Decode α) (bytes : Bytes) :
    Except Halt (α × Bytes) :=
  match d ⟨bytes, { budget := limits.budget bytes.length, decoded := 0 }⟩ with
  | .ok a t => .ok (a, t.bytes)
  | .error e _ => .error e

theorem runDecode_decodes {α : Type} {d : Decode α} {bytes suffix : Bytes} {a : α}
    {cs : List Charge} (h : DecodesTo Ledger.charge suffix d bytes a cs)
    (hpeak : peak 0 cs ≤ Limits.default.allocBytesFor (bytes ++ suffix).length) :
    runDecode .default d (bytes ++ suffix) = .ok (a, suffix) := by
  obtain ⟨ledger, hspend⟩ := (spend_default cs (bytes ++ suffix).length).mpr hpeak
  rw [runDecode, (h _).1 ledger hspend]

end Odradek.Protocol
