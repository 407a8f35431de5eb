import Odradek.Client.Compression
import Odradek.Protocol.RecordsRoundTrip

/-!
Assembling a record batch (`encode_batch` of `producer.rs`). The clock is a
parameter: `nowMs` is what it reads.
-/

namespace Odradek.Client

open Odradek.Protocol

/-- What an idempotent producer puts on a batch. -/
structure BatchStamp where
  producerId : Int64
  producerEpoch : Int16
  baseSequence : Int32
  transactional : Bool
  deriving DecidableEq

def transactionalBit : Option BatchStamp → Int16
  | some stamp => if stamp.transactional then (1 : Int16) <<< 4 else 0
  | none => 0

/-- Offset deltas by position. -/
def numbered (records : List Record) : List Record :=
  records.mapIdx fun i record => { record with offsetDelta := Int32.ofNat i }

/-- `records.iter().map(|r| r.timestamp_delta).max().unwrap_or(0)`. -/
def maxTimestampDelta : List Record → Int64
  | [] => 0
  | record :: records =>
    records.foldl (fun delta r => if delta ≤ r.timestampDelta then r.timestampDelta else delta)
      record.timestampDelta

/-- `i32::try_from(n).unwrap_or(i32::MAX)`. -/
def saturatingI32 (n : Nat) : Int32 := Int32.ofNat (min n i32Max)

theorem toInt_saturatingI32 (n : Nat) :
    (saturatingI32 n).toInt = (min n i32Max : Nat) :=
  (int32_ofNat (Nat.min_le_right n i32Max)).1

section

variable (codecs : Codecs)

def batchRecords (codec : Compression) (records : List Record) : Except ClientError Records :=
  if codec = .none then .ok (.plain records)
  else do
    let payload ← liftEncode (Record.encodeAll records)
    let packed ← compress codecs codec payload
    pure (.compressed (saturatingI32 records.length) packed)

def assembled (nowMs : Int64) (records : List Record) (codec : Compression)
    (stamp : Option BatchStamp) (packed : Records) : RecordBatch :=
  { baseOffset := 0
    partitionLeaderEpoch := 0
    attributes := codec.attributeBits ||| transactionalBit stamp
    lastOffsetDelta := saturatingI32 (records.length - 1)
    baseTimestamp := nowMs
    maxTimestamp := nowMs + maxTimestampDelta records
    producerId := (stamp.map (·.producerId)).getD (-1)
    producerEpoch := (stamp.map (·.producerEpoch)).getD (-1)
    baseSequence := (stamp.map (·.baseSequence)).getD (-1)
    records := packed }

def encodeBatch (nowMs : Int64) (records : List Record) (codec : Compression)
    (stamp : Option BatchStamp) : Except ClientError Bytes := do
  if records = [] then .error (.protocolViolation "cannot produce an empty record set")
  else if i32Max < records.length - 1 then
    .error (.protocolViolation "more than i32::MAX records in one batch")
  else
    let records := numbered records
    let packed ← batchRecords codecs codec records
    liftEncode (assembled nowMs records codec stamp packed).encode

end

end Odradek.Client
