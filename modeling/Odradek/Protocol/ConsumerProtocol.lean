import Odradek.Protocol.Flexible
import Odradek.Protocol.Records

/-!
What members of a classic group tell each other inside JoinGroup and SyncGroup
(`consumer_protocol.rs` and the two messages it wraps): a version, then a body.
Versions 0 to 3 are known, none of them with tagged fields; a newer one is read as
version 3 and what it appends is ignored.
-/

namespace Odradek.Protocol

open Library Library.Decoder

section Arrays

def getArray {α : Type} (elem : Nat) (item : Decode α) : Decode (List α) := do
  let len ← getArrayLen
  let count ← notNull len
  let items ← getItems elem item count (Vec.new elem)
  pure items.items

def putArray {α : Type} (put : α → Except EncodeError Bytes) (items : List α) :
    Except EncodeError Bytes := do
  let len ← putArrayLen (some items.length)
  let bytes ← putItems put items
  pure (len ++ bytes)

end Arrays

section Messages

def stringSize : Nat := 24
def topicPartitionSize : Nat := 72

structure TopicPartition where
  topic : String := ""
  partitions : List Int32 := []
  deriving DecidableEq

def ConsumerProtocolSubscription.maxVersion : Int16 := 3
def ConsumerProtocolAssignment.maxVersion : Int16 := 3

structure ConsumerProtocolSubscription where
  topics : List String := []
  userData : Option Bytes := none
  ownedPartitions : List TopicPartition := []
  generationId : Int32 := -1
  rackId : Option String := none
  deriving DecidableEq

structure ConsumerProtocolAssignment where
  assignedPartitions : List TopicPartition := []
  userData : Option Bytes := none
  deriving DecidableEq

def getTopicPartition : Decode TopicPartition := do
  let topic ← getString
  let partitions ← getArray 4 getI32
  pure { topic, partitions }

def putTopicPartition (tp : TopicPartition) : Except EncodeError Bytes := do
  let topic ← putString tp.topic
  let partitions ← putArray (fun partition => .ok (putI32 partition)) tp.partitions
  pure (topic ++ partitions)

def ConsumerProtocolSubscription.decode (version : Int16) :
    Decode ConsumerProtocolSubscription := do
  let topics ← getArray stringSize getString
  let userData ← getNullableBytes
  let ownedPartitions ←
    if version ≥ 1 then getArray topicPartitionSize (progressing getTopicPartition) else pure []
  let generationId ← if version ≥ 2 then getI32 else pure (-1)
  let rackId ← if version ≥ 3 then getNullableString else pure none
  pure { topics, userData, ownedPartitions, generationId, rackId }

def ConsumerProtocolAssignment.decode : Decode ConsumerProtocolAssignment := do
  let assignedPartitions ← getArray topicPartitionSize (progressing getTopicPartition)
  let userData ← getNullableBytes
  pure { assignedPartitions, userData }

def ConsumerProtocolSubscription.encode (subscription : ConsumerProtocolSubscription) :
    Except EncodeError Bytes := do
  let topics ← putArray putString subscription.topics
  let userData ← putNullableBytes subscription.userData
  pure (topics ++ userData)

def ConsumerProtocolAssignment.encode (assignment : ConsumerProtocolAssignment) :
    Except EncodeError Bytes := do
  let assignedPartitions ← putArray putTopicPartition assignment.assignedPartitions
  let userData ← putNullableBytes assignment.userData
  pure (assignedPartitions ++ userData)

end Messages

section Envelope

/-- The version in front, no higher than `maxVersion` and no lower than 0, and the body
read at it under the default limits. -/
def decodeEnvelope {α : Type} (maxVersion : Int16) (decode : Int16 → Decode α) (data : Bytes) :
    Except Halt α :=
  if data.length < 2 then .error (.error (.truncated (2 - data.length)))
  else
    let version := Int16.ofBitVec (BitVec.ofNat 16 (ofBigEndian (data.take 2)))
    (runDecode .default (decode (max (min version maxVersion) 0)) (data.drop 2)).map (·.1)

/-- `encode_subscription`, which panics where the encode fails. -/
def encodeSubscription (topics : List String) : Except EncodeError Bytes := do
  let body ← ConsumerProtocolSubscription.encode { topics }
  pure (putI16 0 ++ body)

/-- `encode_assignment`, which panics where the encode fails. -/
def encodeAssignment (partitions : List (String × List Int32)) : Except EncodeError Bytes := do
  let body ← ConsumerProtocolAssignment.encode
    { assignedPartitions := partitions.map fun tp => { topic := tp.1, partitions := tp.2 } }
  pure (putI16 0 ++ body)

def decodeSubscription (data : Bytes) : Except Halt (List String) :=
  (decodeEnvelope ConsumerProtocolSubscription.maxVersion ConsumerProtocolSubscription.decode
    data).map (·.topics)

/-- `decode_assignment`: no bytes are an empty assignment. -/
def decodeAssignment (data : Bytes) : Except Halt (List (String × List Int32)) :=
  if data.isEmpty then .ok []
  else
    (decodeEnvelope ConsumerProtocolAssignment.maxVersion
      (fun _ => ConsumerProtocolAssignment.decode) data).map
        fun assignment => assignment.assignedPartitions.map fun tp => (tp.topic, tp.partitions)

end Envelope

end Odradek.Protocol
