import Mathlib.Data.List.AList
import Mathlib.Data.List.Sort
import Odradek.Client.Batch
import Odradek.Client.Partitioner
import Odradek.Library.Program

/-!
The producer (`producer.rs`): its buffers, its sequence numbers, and the state
machine of its transactions. A method is a program over what it reads and writes
of the producer and what it asks of the cluster; the requests themselves, with
their retries, are operations.
-/

namespace Odradek.Client

open Library Library.Program Odradek.Protocol

abbrev PartitionKey := String × Int32

structure ProducerConfig where
  acks : Int16
  maxAttempts : Nat
  compression : Compression
  batchMaxBytes : Nat
  idempotent : Bool
  transactionalId : Option String

/-- The acknowledgement level idempotence requires. -/
def acksAll : Int16 := -1

namespace ProducerConfig

def default : ProducerConfig :=
  { acks := -1
    maxAttempts := 20
    compression := .none
    batchMaxBytes := 16 * 1024
    idempotent := true
    transactionalId := none }

def transactional (transactionalId : String) : ProducerConfig :=
  { default with
    acks := acksAll
    idempotent := true
    transactionalId := some transactionalId }

end ProducerConfig

structure Delivery where
  topic : String
  partition : Int32
  baseOffset : Int64
  records : Nat
  deriving DecidableEq

structure PendingBatch where
  records : List Record
  estimatedBytes : Nat
  deriving DecidableEq

def PendingBatch.default : PendingBatch := { records := [], estimatedBytes := 0 }

structure ProducerIdentity where
  id : Int64
  epoch : Int16
  deriving DecidableEq

inductive TransactionState
  | disabled
  | uninitialized
  | ready
  | opened
  | abortable
  | fenced
  deriving DecidableEq

def TransactionState.debug : TransactionState → String
  | .disabled => "Disabled"
  | .uninitialized => "Uninitialized"
  | .ready => "Ready"
  | .opened => "Open"
  | .abortable => "Abortable"
  | .fenced => "Fenced"

structure Producer where
  pending : AList fun _ : PartitionKey => PendingBatch
  nextRoundRobin : UInt64
  identity : Option ProducerIdentity
  sequences : AList fun _ : PartitionKey => Int32
  txnState : TransactionState
  txnPartitions : List PartitionKey

section Rules

def checkIdempotentAcks (acks : Int16) : Except ClientError Unit :=
  if acks = acksAll then .ok ()
  else .error (.config s!"idempotent produce needs acks = {acksAll} (the full ISR), not {acks}")

def afterBegin : TransactionState → Except ClientError TransactionState
  | .ready => .ok .opened
  | .uninitialized =>
    .error (.transaction "call Producer::init_transactions before beginning a transaction")
  | .disabled =>
    .error (.transaction
      "this producer has no transactional id; set ProducerConfig::transactional_id")
  | state => .error (.transaction s!"a transaction is already underway ({state.debug})")

def requireOpen (state : TransactionState) (verb : String) : Except ClientError Unit :=
  match state with
  | .opened => .ok ()
  | .disabled =>
    .error (.transaction s!"cannot {verb} a transaction: this producer has no transactional id")
  | .uninitialized =>
    .error (.transaction s!"cannot {verb} a transaction before Producer::init_transactions")
  | .ready =>
    .error (.transaction s!"cannot {verb} a transaction before Producer::begin_transaction")
  | .abortable =>
    .error (.transaction s!"cannot {verb} a transaction that has already failed; abort it")
  | .fenced =>
    .error (.transaction (s!"cannot {verb} a transaction: this producer was fenced by another " ++
      "holding the same transactional id"))

def requireProducible : TransactionState → Except ClientError Unit
  | .disabled => .ok ()
  | state => requireOpen state "produce inside"

def isFencing : ClientError → Bool
  | .broker code =>
    code == .producerFenced || code == .invalidProducerEpoch ||
      code == .transactionalIdAuthorizationFailed
  | _ => false

def afterFailure (state : TransactionState) (e : ClientError) : TransactionState :=
  match state with
  | .disabled => .disabled
  | state =>
    if isFencing e then .fenced
    else
      match state with
      | .opened => .abortable
      | state => state

/-- `next_stamp`: the stamp, and the counters after it. -/
def nextStamp (identity : ProducerIdentity) (sequences : AList fun _ : PartitionKey => Int32)
    (key : PartitionKey) (records : Nat) (transactional : Bool) :
    BatchStamp × AList fun _ : PartitionKey => Int32 :=
  let baseSequence := (sequences.lookup key).getD 0
  let stamp : BatchStamp :=
    { producerId := identity.id, producerEpoch := identity.epoch, baseSequence, transactional }
  (stamp, sequences.insert key (baseSequence + saturatingI32 records))

def estimateRecordSize (record : Record) : Nat :=
  (record.key.map List.length).getD 0 + (record.value.map List.length).getD 0 +
    (record.headers.map fun h =>
      (utf8 h.key).length + (h.value.map List.length).getD 0 + 8).sum + 24

def keyBefore (a b : PartitionKey) : Bool := a.1 < b.1 || (a.1 = b.1 && a.2 < b.2)

def sortDeliveries (deliveries : List Delivery) : List Delivery :=
  deliveries.insertionSort fun a b =>
    keyBefore (b.topic, b.partition) (a.topic, a.partition) = false

end Rules

/-- `Txn`, without the cluster and the configuration. -/
structure Txn where
  transactionalId : String
  identity : ProducerIdentity
  deriving DecidableEq

namespace Producer

def withConfig (config : ProducerConfig) : Producer :=
  { pending := ∅
    nextRoundRobin := 0
    identity := none
    sequences := ∅
    txnState := if config.transactionalId.isSome then .uninitialized else .disabled
    txnPartitions := [] }

def poison (p : Producer) (e : ClientError) : Producer :=
  { p with txnState := afterFailure p.txnState e }

def slot (p : Producer) (key : PartitionKey) : PendingBatch :=
  (p.pending.lookup key).getD .default

def push (p : Producer) (key : PartitionKey) (record : Record) : Producer :=
  let slot := p.slot key
  let pending : PendingBatch :=
    { records := slot.records ++ [record]
      estimatedBytes := slot.estimatedBytes + estimateRecordSize record }
  { p with pending := p.pending.insert key pending }

def restore (p : Producer) (key : PartitionKey) (pending : PendingBatch) : Producer :=
  let slot := p.slot key
  let pending : PendingBatch :=
    { records := pending.records ++ slot.records
      estimatedBytes := slot.estimatedBytes + pending.estimatedBytes }
  { p with pending := p.pending.insert key pending }

def rewind (p : Producer) (key : PartitionKey) (stamp : Option BatchStamp) : Producer :=
  match stamp with
  | some stamp => { p with sequences := p.sequences.insert key stamp.baseSequence }
  | none => p

def buffered (p : Producer) : Nat := (p.pending.entries.map fun e => e.2.records.length).sum

/-- The keys this transaction has not claimed yet. -/
def unclaimed (p : Producer) (keys : List PartitionKey) : List PartitionKey :=
  keys.filter fun key => !p.txnPartitions.contains key

def txn (p : Producer) (config : ProducerConfig) : Except ClientError Txn :=
  match config.transactionalId with
  | none =>
    .error (.transaction
      "this producer has no transactional id; set ProducerConfig::transactional_id")
  | some transactionalId =>
    match p.identity with
    | none =>
      .error (.transaction "this producer has no id yet; call Producer::init_transactions")
    | some identity => .ok { transactionalId, identity }

end Producer

/-- A batch on its way to `deliver`. -/
structure Parcel where
  key : PartitionKey
  pending : PendingBatch
  stamp : Option BatchStamp
  deriving DecidableEq

structure TransactionalOffset where
  topic : String
  partition : Int32
  offset : Int64
  metadata : Option String
  deriving DecidableEq

structure GroupMembership where
  groupId : String
  generationId : Int32
  memberId : String
  deriving DecidableEq

/-- The record of a producer's runs; nothing in the source keeps it. -/
inductive ProducerEvent
  | drained (keys : List PartitionKey)
  | began
  | initialized (identity : ProducerIdentity)
  /-- An `enqueue` returned `Ok`. -/
  | accepted (key : PartitionKey) (record : Record)
  | identified (answer : Except ClientError ProducerIdentity)
  | claimed (keys : List PartitionKey) (answer : Except ClientError Unit)
  | offsets (answer : Except ClientError Unit)
  /-- A batch put on the wire; `applied` says that its leader took it. -/
  | sent (parcel : Parcel) (set : Bytes) (applied : Bool)
  | acked (key : PartitionKey) (records : List Record)
  | delivered (key : PartitionKey) (answer : Except ClientError Int64)
  | ended (committed : Bool) (answer : Except ClientError Unit)
  /-- A `commit_transaction` returned `Ok`. -/
  | committed

inductive ProducerOp
  | read
  | write (producer : Producer)
  | drain
  | remove (key : PartitionKey)
  | restore (key : PartitionKey) (pending : PendingBatch)
  | initProducerId
  | nextStamp (identity : ProducerIdentity) (key : PartitionKey) (records : Nat)
  | addPartitions (txn : Txn) (keys : List PartitionKey)
  | addOffsets (txn : Txn) (groupId : String)
  | offsetCommit (txn : Txn) (member : GroupMembership) (offsets : List TransactionalOffset)
  | endTxn (txn : Txn) (committed : Bool)
  | deliver (parcels : List Parcel)
  | partitionCount (topic : String)
  | refreshMetadata (topic : String)
  | note (event : ProducerEvent)

@[reducible] def ProducerOp.Res : ProducerOp → Type
  | .read => Producer
  | .write _ | .restore _ _ | .note _ => Unit
  | .drain => List (PartitionKey × PendingBatch)
  | .remove _ => PendingBatch
  | .initProducerId => Except ClientError ProducerIdentity
  | .nextStamp _ _ _ => BatchStamp
  | .addPartitions _ _ | .addOffsets _ _ | .offsetCommit _ _ _ | .endTxn _ _ |
    .refreshMetadata _ => Except ClientError Unit
  | .deliver _ => List (Except ClientError Int64)
  | .partitionCount _ => Option Nat

abbrev ProducerProgram := Program ProducerOp ProducerOp.Res

abbrev ProducerTry := ExceptT ClientError ProducerProgram

namespace Producer

def perform (op : ProducerOp) : ProducerProgram op.Res := Program.perform op

def self : ProducerProgram Producer := perform .read

def modify (f : Producer → Producer) : ProducerProgram Unit := do
  let p ← self
  perform (.write (f p))

def checked {α : Type} (r : Except ClientError α) : ProducerTry α := ExceptT.mk (pure r)

def requested {α : Type} (call : ProducerProgram (Except ClientError α)) : ProducerTry α :=
  ExceptT.mk call

variable (config : ProducerConfig)

/-- `if let Err(e) = .. { self.poison(&e); return Err(e) }`. -/
def orPoison {α : Type} (call : ProducerTry α) : ProducerTry α := do
  match ← caught call with
  | .ok a => pure a
  | .error e =>
    modify (·.poison e)
    throw e

def addPartitions (txn : Txn) (keys : List PartitionKey) : ProducerTry Unit :=
  if keys.isEmpty then pure () else requested (perform (.addPartitions txn keys))

def offsetCommit (txn : Txn) (member : GroupMembership) (offsets : List TransactionalOffset) :
    ProducerTry Unit :=
  if offsets.isEmpty then pure () else requested (perform (.offsetCommit txn member offsets))

def claimPartitions (keys : List PartitionKey) : ProducerTry Unit := do
  let p ← self
  if p.txnState = .disabled then pure ()
  else
    checked (requireProducible p.txnState)
    let fresh := p.unclaimed keys
    if fresh.isEmpty then pure ()
    else
      let txn ← checked (p.txn config)
      orPoison (addPartitions txn fresh)
      modify fun p => { p with txnPartitions := p.txnPartitions ++ fresh }

/-- The identity a stamp takes, asked for when there is none. -/
def identify : ProducerTry ProducerIdentity := do
  let p ← self
  match p.identity with
  | some identity => pure identity
  | none =>
    checked (requireProducible p.txnState)
    let identity ← requested (perform .initProducerId)
    modify fun p => { p with identity := some identity }
    pure identity

def batchStamp (key : PartitionKey) (records : Nat) : ProducerTry (Option BatchStamp) := do
  if config.idempotent = false then pure none
  else
    checked (checkIdempotentAcks config.acks)
    let identity ← identify
    let stamp ← perform (.nextStamp identity key records)
    pure (some stamp)

def deliver (parcel : Parcel) : ProducerTry Int64 :=
  requested do
    match ← perform (.deliver [parcel]) with
    | [outcome] => pure outcome
    | _ => pure (.error .connectionClosed)

def flushPartition (key : PartitionKey) : ProducerTry Delivery := do
  let pending ← perform (.remove key)
  match ← caught (claimPartitions config [key]) with
  | .error e =>
    perform (.restore key pending)
    throw e
  | .ok () =>
    match ← caught (batchStamp config key pending.records.length) with
    | .error e =>
      perform (.restore key pending)
      throw e
    | .ok stamp =>
      match ← caught (deliver { key, pending, stamp }) with
      | .ok baseOffset =>
        pure { topic := key.1, partition := key.2, baseOffset, records := pending.records.length }
      | .error e =>
        modify (·.rewind key stamp)
        perform (.restore key pending)
        modify (·.poison e)
        throw e

def enqueue (key : PartitionKey) (record : Record) : ProducerTry (Option Delivery) := do
  modify (·.push key record)
  let p ← self
  if config.batchMaxBytes ≤ (p.slot key).estimatedBytes then
    let delivery ← flushPartition config key
    perform (.note (.accepted key record))
    pure (some delivery)
  else
    perform (.note (.accepted key record))
    pure none

/-- `partition_count`, asked again after a refresh; a count of a `usize` that is
not positive counts as none. -/
def partitionCount (topic : String) : ProducerTry Nat := do
  let known ← perform (.partitionCount topic)
  let count ← match known with
    | some count => pure (some count)
    | none => do
      requested (perform (.refreshMetadata topic))
      perform (.partitionCount topic)
  match count.filter (0 < ·) with
  | some count => pure count
  | none => throw (.unknownLeader topic (-1))

def roundRobin (count : Int32) : ProducerProgram Int32 := do
  let p ← self
  perform (.write { p with nextRoundRobin := p.nextRoundRobin + 1 })
  pure (Int32.ofNat (p.nextRoundRobin.toNat % count.toInt.toNat))

def enqueueKeyed (topic : String) (record : Record) : ProducerTry (Option Delivery) := do
  let count ← partitionCount topic
  let count := saturatingI32 count
  let partition ← match record.key with
    | some key => pure (partitionForKey key count)
    | none => roundRobin count
  enqueue config (topic, partition) record

def restoreAll : List (PartitionKey × PendingBatch) → ProducerProgram Unit
  | [] => pure ()
  | (key, pending) :: rest => do
    perform (.restore key pending)
    restoreAll rest

def stampAll : List (PartitionKey × PendingBatch) → (stamped : List Parcel) →
    ProducerTry (List Parcel)
  | [], stamped => pure stamped
  | (key, pending) :: rest, stamped => do
    match ← caught (batchStamp config key pending.records.length) with
    | .ok stamp => stampAll rest (stamped ++ [{ key, pending, stamp }])
    | .error e =>
      perform (.restore key pending)
      restoreAll (stamped.map fun parcel => (parcel.key, parcel.pending))
      throw e

/-- The failure that is reported: the one of the lowest key. -/
def worst (failure : Option (PartitionKey × ClientError)) (key : PartitionKey) (e : ClientError) :
    Option (PartitionKey × ClientError) :=
  match failure with
  | some (key', e') => if keyBefore key key' then some (key, e) else some (key', e')
  | none => some (key, e)

/-- The loop of `flush` over what the deliveries came to. -/
def settle : List (Parcel × Except ClientError Int64) → List Delivery →
    Option (PartitionKey × ClientError) →
    ProducerProgram (List Delivery × Option (PartitionKey × ClientError))
  | [], deliveries, failure => pure (deliveries, failure)
  | (parcel, .ok baseOffset) :: rest, deliveries, failure =>
    let delivery : Delivery :=
      { topic := parcel.key.1, partition := parcel.key.2, baseOffset,
        records := parcel.pending.records.length }
    settle rest (deliveries ++ [delivery]) failure
  | (parcel, .error e) :: rest, deliveries, failure => do
    modify (·.rewind parcel.key parcel.stamp)
    perform (.restore parcel.key parcel.pending)
    settle rest deliveries (worst failure parcel.key e)

def flush : ProducerTry (List Delivery) := do
  let batches ← perform .drain
  if batches.isEmpty then pure []
  else
    match ← caught (claimPartitions config (batches.map (·.1))) with
    | .error e =>
      restoreAll batches
      throw e
    | .ok () =>
      let stamped ← stampAll config batches []
      let outcomes ← perform (.deliver stamped)
      let (deliveries, failure) ← settle (stamped.zip outcomes) [] none
      match failure with
      | some (_, e) =>
        modify (·.poison e)
        throw e
      | none => pure (sortDeliveries deliveries)

def produce (key : PartitionKey) (records : List Record) : ProducerTry Int64 := do
  claimPartitions config [key]
  let stamp ← batchStamp config key records.length
  let pending : PendingBatch := { records, estimatedBytes := 0 }
  match ← caught (deliver { key, pending, stamp }) with
  | .ok baseOffset => pure baseOffset
  | .error e =>
    modify (·.rewind key stamp)
    modify (·.poison e)
    throw e

def initTransactions : ProducerTry Unit := do
  let p ← self
  match config.transactionalId with
  | none =>
    throw (.transaction
      "this producer has no transactional id; set ProducerConfig::transactional_id")
  | some _ =>
    if p.txnState = .uninitialized then
      checked (checkIdempotentAcks config.acks)
      let identity ← requested (perform .initProducerId)
      perform (.note (.initialized identity))
      modify fun p =>
        { p with
          identity := some identity
          sequences := ∅
          txnPartitions := []
          txnState := .ready }
    else
      throw (.transaction (s!"init_transactions is for a new producer; this one is already " ++
        p.txnState.debug))

def beginTransaction : ProducerTry Unit := do
  let p ← self
  let txnState ← checked (afterBegin p.txnState)
  perform (.note .began)
  perform (.write { p with txnState })

def endTransaction (committed : Bool) : ProducerTry Unit := do
  let p ← self
  let txn ← checked (p.txn config)
  orPoison (requested (perform (.endTxn txn committed)))
  modify fun p => { p with txnPartitions := [], txnState := .ready }

def commitTransaction : ProducerTry Unit := do
  let p ← self
  checked (requireOpen p.txnState "commit")
  let _ ← orPoison (flush config)
  endTransaction config true
  perform (.note .committed)

def abortTransaction : ProducerTry Unit := do
  let p ← self
  if p.txnState = .opened ∨ p.txnState = .abortable then
    perform (.write { p with pending := ∅ })
    endTransaction config false
  else throw (.transaction s!"no transaction to abort ({p.txnState.debug})")

def sendOffsetsToTransaction (member : GroupMembership) (offsets : List TransactionalOffset) :
    ProducerTry Unit := do
  let p ← self
  checked (requireOpen p.txnState "send offsets to")
  let txn ← checked (p.txn config)
  orPoison do
    requested (perform (.addOffsets txn member.groupId))
    offsetCommit txn member offsets

end Producer

end Odradek.Client
