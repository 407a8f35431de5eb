import Odradek.Library.AssocMap
import Odradek.Protocol.Records

/-!
The suite's own reference broker (`subject.rs`) with no fault armed: producer
ids, topics, produces and transactions over the state its connections share. A
request is what its decoder made of a frame; each exchange holds the lock from
start to end. The history tells what happened, and nothing reads it.
-/

namespace Odradek.Acceptance.Subject

open Library Odradek.Protocol

def notLeaderOrFollower : Int16 := 6
def topicAlreadyExists : Int16 := 36
def invalidReplicationFactor : Int16 := 38
def outOfOrderSequenceNumber : Int16 := 45
def invalidProducerIdMapping : Int16 := 49
def producerFenced : Int16 := 90
def unknownTopicId : Int16 := 100

def brokerNodeId : Int32 := 1

abbrev Key := String × Int32

abbrev OffsetKey := String × String × Int32

abbrev OffsetValue := Int64 × Option String

structure LastBatch where
  baseSequence : Int32
  nextSequence : Int32
  baseOffset : Int64
  deriving DecidableEq

/-- One partition's log, and what transactions have done to it. -/
structure PartitionLog where
  bytes : Bytes
  nextOffset : Int64
  opened : AList fun _ : Int64 => Int64
  aborted : List (Int64 × Int64)
  lastBatch : AList fun _ : Int64 => LastBatch

def PartitionLog.empty : PartitionLog :=
  { bytes := [], nextOffset := 0, opened := ∅, aborted := [], lastBatch := ∅ }

/-- The first offset of a transaction that has not finished, or the end of the log. -/
def PartitionLog.lastStableOffset (log : PartitionLog) : Int64 :=
  match log.opened.entries.map (·.2) with
  | [] => log.nextOffset
  | first :: rest => rest.foldl (fun least offset => if offset < least then offset else least) first

structure TxnState where
  producerId : Int64
  epoch : Int16
  partitions : List Key
  pendingOffsets : AList fun _ : OffsetKey => OffsetValue

inductive Event
  | appended (key : Key) (transactionalId : Option String) (set : Bytes)
      (batches : List RecordBatch) (base : Int64)
  | acknowledged (key : Key) (set : Bytes) (batches : List RecordBatch) (base : Int64)
  | claimed (id : String) (epoch : Int16)
  | held (id : String) (epoch : Int16) (key : OffsetKey) (value : OffsetValue)
  | ended (id : String) (epoch : Int16) (committed : Bool) (marked : List Key)
  deriving DecidableEq

structure ClusterState where
  logs : AList fun _ : Key => PartitionLog
  topicNames : AList fun _ : Bytes => String
  committed : AList fun _ : OffsetKey => OffsetValue
  txns : AList fun _ : String => TxnState
  nextProducerId : Int64
  created : AList fun _ : String => Bytes
  ports : List Int32
  down : List Int32
  history : List Event

section Placement

/-- A deterministic id of a topic's name. -/
def mintTopicId (name : String) : Bytes :=
  let stirred := (utf8 name).zipIdx.foldl (fun (id, acc) (byte, i) =>
    let acc := acc * 31 + byte
    let turn := UInt8.ofNat (i % 7)
    (id.modify (i % 16) (· ^^^ (acc <<< turn ||| acc >>> (8 - turn))), acc))
    (List.replicate 16 (0 : UInt8), (0x9e : UInt8))
  stirred.1.modify 0 (· ||| 1)

namespace ClusterState

def start (ports : List Int32) : ClusterState :=
  { logs := ∅, topicNames := ∅, committed := ∅, txns := ∅, nextProducerId := 0, created := ∅
    ports, down := [], history := [] }

def nodes (s : ClusterState) : List (Int32 × Int32) :=
  s.ports.zipIdx.map fun (port, i) => (Int32.ofNat (i + 1), port)

def live (s : ClusterState) : List Int32 :=
  (s.nodes.map (·.1)).filter fun id => !s.down.contains id

def placementOver (key : String) (candidates : List Int32) : Int32 :=
  if candidates.isEmpty then brokerNodeId
  else
    let acc := (utf8 key).foldl
      (fun acc byte => (acc ^^^ byte.toUInt64) * 0x100000001b3) (0xcbf29ce484222325 : UInt64)
    (candidates[acc.toNat % candidates.length]?).getD brokerNodeId

/-- Which node leads every partition of a topic. -/
def placement (s : ClusterState) (key : String) : Int32 := placementOver key s.live

/-- `logs.entry(key).or_default()`, without the entry. -/
def log (s : ClusterState) (key : Key) : PartitionLog := (s.logs.lookup key).getD .empty

end ClusterState

end Placement

section Produce

structure PartitionProduceData where
  index : Int32
  records : Option Bytes
  deriving DecidableEq

structure TopicProduceData where
  name : String
  topicId : Bytes
  partitionData : List PartitionProduceData
  deriving DecidableEq

structure ProduceRequest where
  transactionalId : Option String
  acks : Int16
  topicData : List TopicProduceData
  deriving DecidableEq

structure PartitionProduceResponse where
  index : Int32
  errorCode : Int16
  baseOffset : Int64
  logAppendTimeMs : Int64
  logStartOffset : Int64
  deriving DecidableEq

structure TopicProduceResponse where
  name : String
  topicId : Bytes
  partitionResponses : List PartitionProduceResponse
  deriving DecidableEq

def PartitionProduceResponse.refused (index : Int32) (errorCode : Int16) :
    PartitionProduceResponse :=
  { index, errorCode, baseOffset := -1, logAppendTimeMs := -1, logStartOffset := -1 }

def PartitionProduceResponse.landed (index : Int32) (baseOffset : Int64) :
    PartitionProduceResponse :=
  { index, errorCode := 0, baseOffset, logAppendTimeMs := -1, logStartOffset := 0 }

def stamped (batch : RecordBatch) : Bool := 0 ≤ batch.producerId && 0 ≤ batch.baseSequence

def fencedAtTheLeader (snapshot : AList fun _ : String => TxnState)
    (transactionalId : Option String) (batch : Option RecordBatch) : Option Int16 := do
  let batch ← batch
  let id ← transactionalId
  let txn ← snapshot.lookup id
  if batch.producerEpoch < txn.epoch then some producerFenced else none

/-- The error for a sequence this partition cannot accept. -/
def stampedVerdict (log : PartitionLog) (batch : Option RecordBatch) : Option Int16 := do
  let batch ← batch
  if stamped batch then
    let known ← log.lastBatch.lookup batch.producerId
    if batch.baseSequence = known.baseSequence ∨ batch.baseSequence = known.nextSequence then none
    else some outOfOrderSequenceNumber
  else none

/-- Where a repeat of the last batch landed the first time. -/
def duplicateOf (log : PartitionLog) (batch : Option RecordBatch) : Option Int64 := do
  let batch ← batch
  if stamped batch then
    let known ← log.lastBatch.lookup batch.producerId
    if batch.baseSequence = known.baseSequence then some known.baseOffset else none
  else none

def appendedCount (batches : List RecordBatch) : Int64 :=
  batches.foldl (fun count batch => count + (batch.lastOffsetDelta.toInt64 + 1)) 0

/-- `i32::try_from(appended).unwrap_or(i32::MAX)`. -/
def saturated (count : Int64) : Int32 :=
  if Int32.minValue.toInt ≤ count.toInt ∧ count.toInt ≤ Int32.maxValue.toInt then count.toInt32
  else Int32.maxValue

/-- A set at the end of the log; a transactional write joins its transaction. -/
def PartitionLog.append (log : PartitionLog) (transactional : Bool) (set : Bytes)
    (batches : List RecordBatch) : PartitionLog :=
  let appended := appendedCount batches
  let baseOffset := log.nextOffset
  let producerId := (batches.head?.map (·.producerId)).getD (-1)
  { log with
    bytes := log.bytes ++ set
    nextOffset := log.nextOffset + appended
    opened :=
      if transactional ∧ 0 ≤ producerId ∧ (log.opened.lookup producerId).isNone then
        log.opened.insert producerId baseOffset
      else log.opened
    lastBatch :=
      match batches.head? with
      | some batch =>
        if stamped batch then
          log.lastBatch.insert batch.producerId
            { baseSequence := batch.baseSequence
              nextSequence := batch.baseSequence + saturated appended
              baseOffset }
        else log.lastBatch
      | none => log.lastBatch }

def decodedSet (set : Bytes) : Option (List RecordBatch) :=
  ((runDecode .default decodeSet set).toOption).map (·.1)

/-- What the leader makes of a set: a refusal, or where it landed before, if it did. -/
def leaderVerdict (snapshot : AList fun _ : String => TxnState) (log : PartitionLog)
    (transactionalId : Option String) (batches : List RecordBatch) :
    Except Int16 (Option Int64) :=
  match fencedAtTheLeader snapshot transactionalId batches.head? with
  | some code => .error code
  | none =>
    match stampedVerdict log batches.head? with
    | some code => .error code
    | none => .ok (duplicateOf log batches.head?)

namespace ClusterState

def produceSet (s : ClusterState) (snapshot : AList fun _ : String => TxnState)
    (transactionalId : Option String) (key : Key) (set : Bytes) (batches : List RecordBatch) :
    ClusterState × PartitionProduceResponse :=
  let log := s.log key
  let s := { s with logs := s.logs.insert key log }
  match leaderVerdict snapshot log transactionalId batches with
  | .error code => (s, .refused key.2 code)
  | .ok (some known) =>
    ({ s with history := s.history ++ [.acknowledged key set batches known] }, .landed key.2 known)
  | .ok none =>
    ({ s with
        logs := s.logs.insert key (log.append transactionalId.isSome set batches)
        history := s.history ++ [.appended key transactionalId set batches log.nextOffset,
          .acknowledged key set batches log.nextOffset] }, .landed key.2 log.nextOffset)

/-- One partition of a produce; nothing when the request cannot be read on. -/
def producePartition (s : ClusterState) (snapshot : AList fun _ : String => TxnState)
    (transactionalId : Option String) (nodeId : Int32) (resolved : Option String)
    (partition : PartitionProduceData) : ClusterState × Option PartitionProduceResponse :=
  match resolved with
  | none => (s, some (.refused partition.index unknownTopicId))
  | some name =>
    if s.placement name ≠ nodeId then (s, some (.refused partition.index notLeaderOrFollower))
    else
      let key := (name, partition.index)
      let set := partition.records.getD []
      match decodedSet set with
      | none => ({ s with logs := s.logs.insert key (s.log key) }, none)
      | some batches =>
        let (s, response) := s.produceSet snapshot transactionalId key set batches
        (s, some response)

def producePartitions (snapshot : AList fun _ : String => TxnState)
    (transactionalId : Option String) (nodeId : Int32) (resolved : Option String) :
    ClusterState → List PartitionProduceData → ClusterState × Option (List PartitionProduceResponse)
  | s, [] => (s, some [])
  | s, partition :: partitions =>
    match s.producePartition snapshot transactionalId nodeId resolved partition with
    | (s, none) => (s, none)
    | (s, some response) =>
      let (s, responses) :=
        producePartitions snapshot transactionalId nodeId resolved s partitions
      (s, responses.map (response :: ·))

/-- The topic a request names, by name or by id. -/
def resolveTopic (s : ClusterState) (name : String) (topicId : Bytes) : Option String :=
  if name = "" then s.topicNames.lookup topicId else some name

def produceTopics (snapshot : AList fun _ : String => TxnState)
    (transactionalId : Option String) (nodeId : Int32) :
    ClusterState → List TopicProduceData → ClusterState × Option (List TopicProduceResponse)
  | s, [] => (s, some [])
  | s, topic :: topics =>
    match producePartitions snapshot transactionalId nodeId
        (s.resolveTopic topic.name topic.topicId) s topic.partitionData with
    | (s, none) => (s, none)
    | (s, some partitionResponses) =>
      let (s, responses) := produceTopics snapshot transactionalId nodeId s topics
      (s, responses.map
        ({ name := topic.name, topicId := topic.topicId, partitionResponses } :: ·))

/-- The connection ends, nothing is answered, or these responses are. -/
inductive ProduceAnswer
  | closed
  | silent
  | responses (responses : List TopicProduceResponse)

def produceExchange (s : ClusterState) (nodeId : Int32) (request : ProduceRequest) :
    ClusterState × ProduceAnswer :=
  match produceTopics s.txns request.transactionalId nodeId s request.topicData with
  | (s, none) => (s, .closed)
  | (s, some responses) => (s, if request.acks = 0 then .silent else .responses responses)

end ClusterState

end Produce

section Transactions

structure InitProducerIdResponse where
  errorCode : Int16
  producerId : Int64
  producerEpoch : Int16
  deriving DecidableEq

structure TopicPartitions where
  name : String
  partitions : List Int32
  deriving DecidableEq

structure AddPartitionsToTxnRequest where
  transactionalId : String
  producerEpoch : Int16
  topics : List TopicPartitions
  deriving DecidableEq

structure TxnOffsetCommitPartition where
  partitionIndex : Int32
  committedOffset : Int64
  committedMetadata : Option String
  deriving DecidableEq

structure TxnOffsetCommitTopic where
  name : String
  partitions : List TxnOffsetCommitPartition
  deriving DecidableEq

structure TxnOffsetCommitRequest where
  transactionalId : String
  groupId : String
  producerEpoch : Int16
  topics : List TxnOffsetCommitTopic
  deriving DecidableEq

structure EndTxnRequest where
  transactionalId : String
  producerEpoch : Int16
  committed : Bool
  deriving DecidableEq

def TxnOffsetCommitRequest.offsets (request : TxnOffsetCommitRequest) :
    List (OffsetKey × OffsetValue) :=
  request.topics.flatMap fun topic => topic.partitions.map fun p =>
    ((request.groupId, topic.name, p.partitionIndex), (p.committedOffset, p.committedMetadata))

/-- The marker of a transaction that a producer has open. -/
def PartitionLog.finish (log : PartitionLog) (producerId : Int64) (committed : Bool) :
    PartitionLog :=
  match log.opened.lookup producerId with
  | none => log
  | some firstOffset =>
    { log with
      opened := log.opened.erase producerId
      nextOffset := log.nextOffset + 1
      aborted := if committed then log.aborted else log.aborted ++ [(producerId, firstOffset)] }

namespace ClusterState

/-- Claim a producer id, or a transactional id under a higher epoch. -/
def initProducerIdExchange (s : ClusterState) (transactionalId : Option String) :
    ClusterState × InitProducerIdResponse :=
  let nextId := s.nextProducerId + 1
  match transactionalId with
  | none =>
    ({ s with nextProducerId := nextId },
      { errorCode := 0, producerId := nextId, producerEpoch := 0 })
  | some id =>
    let txn := (s.txns.lookup id).getD
      { producerId := nextId, epoch := -1, partitions := [], pendingOffsets := ∅ }
    let epoch := txn.epoch + 1
    ({ s with
        nextProducerId := if txn.producerId = nextId then nextId else s.nextProducerId
        txns := s.txns.insert id { txn with epoch, partitions := [] }
        history := s.history ++ [.claimed id epoch] },
      { errorCode := 0, producerId := txn.producerId, producerEpoch := epoch })

def txnEpochCheck (s : ClusterState) (transactionalId : String) (epoch : Int16) :
    Except Int16 TxnState :=
  match s.txns.lookup transactionalId with
  | none => .error invalidProducerIdMapping
  | some txn => if epoch = txn.epoch then .ok txn else .error producerFenced

def errorCode {α : Type} : Except Int16 α → Int16
  | .ok _ => 0
  | .error code => code

def addPartitionsToTxnExchange (s : ClusterState) (request : AddPartitionsToTxnRequest) :
    ClusterState × List (String × List (Int32 × Int16)) :=
  let check := s.txnEpochCheck request.transactionalId request.producerEpoch
  let results := request.topics.map fun topic =>
    (topic.name, topic.partitions.map fun partition => (partition, errorCode check))
  match check with
  | .error _ => (s, results)
  | .ok txn =>
    let announced := request.topics.flatMap fun topic => topic.partitions.map (topic.name, ·)
    let partitions := announced.foldl
      (fun partitions key => if key ∈ partitions then partitions else key :: partitions)
      txn.partitions
    ({ s with txns := s.txns.insert request.transactionalId { txn with partitions } }, results)

/-- AddOffsetsToTxn records nothing beyond the epoch check. -/
def addOffsetsToTxnExchange (s : ClusterState) (transactionalId : String) (epoch : Int16) : Int16 :=
  errorCode (s.txnEpochCheck transactionalId epoch)

def txnOffsetCommitExchange (s : ClusterState) (request : TxnOffsetCommitRequest) :
    ClusterState × List (String × List (Int32 × Int16)) :=
  let check := s.txnEpochCheck request.transactionalId request.producerEpoch
  let results := request.topics.map fun topic =>
    (topic.name, topic.partitions.map fun p => (p.partitionIndex, errorCode check))
  match check with
  | .error _ => (s, results)
  | .ok txn =>
    let pendingOffsets := request.offsets.foldl
      (fun pending offset => pending.insert offset.1 offset.2) txn.pendingOffsets
    ({ s with
        txns := s.txns.insert request.transactionalId { txn with pendingOffsets }
        history := s.history ++ request.offsets.map fun offset =>
          .held request.transactionalId request.producerEpoch offset.1 offset.2 }, results)

/-- The partitions where a producer has a transaction open. -/
def touched (s : ClusterState) (producerId : Int64) : List Key :=
  (s.logs.entries.filter fun entry => (entry.2.opened.lookup producerId).isSome).map (·.1)

/-- Finish a transaction, marking every partition it touched. -/
def endTxnExchange (s : ClusterState) (request : EndTxnRequest) : ClusterState × Int16 :=
  match s.txnEpochCheck request.transactionalId request.producerEpoch with
  | .error code => (s, code)
  | .ok txn =>
    let touched := s.touched txn.producerId
    let logs := touched.foldl
      (fun logs key => logs.insert key
        (((logs.lookup key).getD .empty).finish txn.producerId request.committed))
      s.logs
    let committed :=
      if request.committed then
        txn.pendingOffsets.entries.foldl
          (fun committed offset => committed.insert offset.1 offset.2) s.committed
      else s.committed
    ({ s with
        logs
        committed
        txns := s.txns.insert request.transactionalId
          { txn with partitions := [], pendingOffsets := ∅ }
        history := s.history ++
          [.ended request.transactionalId request.producerEpoch request.committed touched] }, 0)

end ClusterState

end Transactions

section Topics

structure CreatableTopic where
  name : String
  numPartitions : Int32
  replicationFactor : Int16
  deriving DecidableEq

structure CreatableTopicResult where
  name : String
  topicId : Bytes
  numPartitions : Int32
  replicationFactor : Int16
  errorCode : Int16
  deriving DecidableEq

namespace ClusterState

def createTopic (s : ClusterState) (validateOnly : Bool) (t : CreatableTopic) :
    ClusterState × CreatableTopicResult :=
  let topicId := mintTopicId t.name
  let brokers := max s.ports.length 1
  let errorCode :=
    if (s.created.lookup t.name).isSome then topicAlreadyExists
    else if brokers < t.replicationFactor.toInt then invalidReplicationFactor
    else 0
  let result : CreatableTopicResult :=
    { name := t.name
      topicId
      numPartitions := if t.numPartitions < 1 then 1 else t.numPartitions
      replicationFactor := if t.replicationFactor < 1 then 1 else t.replicationFactor
      errorCode }
  if errorCode = 0 ∧ !validateOnly then
    ({ s with created := s.created.insert t.name topicId
              topicNames := s.topicNames.insert topicId t.name }, result)
  else (s, result)

def createTopicsExchange (s : ClusterState) (validateOnly : Bool) :
    List CreatableTopic → ClusterState × List CreatableTopicResult
  | [] => (s, [])
  | t :: topics =>
    let (s, result) := s.createTopic validateOnly t
    let (s, results) := s.createTopicsExchange validateOnly topics
    (s, result :: results)

end ClusterState

end Topics

/-- A request some connection sends to some broker, or a broker stopped or started. -/
inductive Action
  | initProducerId (transactionalId : Option String)
  | produce (nodeId : Int32) (request : ProduceRequest)
  | addPartitionsToTxn (request : AddPartitionsToTxnRequest)
  | addOffsetsToTxn (transactionalId : String) (epoch : Int16)
  | txnOffsetCommit (request : TxnOffsetCommitRequest)
  | endTxn (request : EndTxnRequest)
  | createTopics (validateOnly : Bool) (topics : List CreatableTopic)
  | stop (nodeId : Int32)
  | start (nodeId : Int32)
  deriving DecidableEq

def ClusterState.next (s : ClusterState) : Action → ClusterState
  | .initProducerId transactionalId => (s.initProducerIdExchange transactionalId).1
  | .produce nodeId request => (s.produceExchange nodeId request).1
  | .addPartitionsToTxn request => (s.addPartitionsToTxnExchange request).1
  | .addOffsetsToTxn _ _ => s
  | .txnOffsetCommit request => (s.txnOffsetCommitExchange request).1
  | .endTxn request => (s.endTxnExchange request).1
  | .createTopics validateOnly topics => (s.createTopicsExchange validateOnly topics).1
  | .stop nodeId => { s with down := nodeId :: s.down }
  | .start nodeId => { s with down := s.down.filter (· ≠ nodeId) }

end Odradek.Acceptance.Subject
