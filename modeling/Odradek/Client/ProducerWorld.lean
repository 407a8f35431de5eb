import Odradek.Client.Producer
import Odradek.Client.Retry
import Odradek.Library.Session

/-!
A producer and what it talks to. Each request is a choice of the environment: the
answers its attempts come back with, whether an attempt reached the wire, and
whether it took effect there. Dropped in a request, a call leaves the attempts
made so far behind, and the records it holds with it.
-/

namespace Odradek.Client

open Library Odradek.Protocol

/-- One attempt of a request. An answer that is lost is an error here. -/
structure Answer (α : Type) where
  sent : Bool
  applied : Bool
  result : Except ClientError α

/-- What succeeds has taken effect, and what takes effect was sent. -/
def Answer.sound {α : Type} (a : Answer α) : Bool :=
  (!a.applied || a.sent) && (!a.result.isOk || a.applied)

/-- A delivery under way: the clock when its batch is encoded, and its attempts. -/
structure Flight where
  nowMs : Int64
  answers : List (Answer Int64)

abbrev ProducerLog := List (ProducerEvent × Producer)

structure ProducerWorld where
  producer : Producer
  /-- The coordinator knows of an open transaction. -/
  announced : Bool
  /-- What the running call has taken out of the buffer, neither put back nor acknowledged. -/
  held : List (PartitionKey × List Record)
  /-- What dropped calls have taken with them. -/
  lost : List (PartitionKey × List Record)
  log : ProducerLog

inductive ProducerChoice
  | go
  | order (keys : List PartitionKey)
  | identities (answers : List (Answer ProducerIdentity))
  | replies (answers : List (Answer Unit))
  | metadata (result : Except ClientError Unit)
  | count (partitions : Option Nat)
  | flights (flights : List Flight)

namespace ProducerWorld

def fresh (config : ProducerConfig) : ProducerWorld :=
  { producer := .withConfig config, announced := false, held := [], lost := [], log := [] }

/-- An entry of the record, beside the producer as it is. -/
def note (w : ProducerWorld) (event : ProducerEvent) : ProducerWorld :=
  { w with log := w.log ++ [(event, w.producer)] }

def setProducer (w : ProducerWorld) (producer : Producer) : ProducerWorld := { w with producer }

/-- `pending.drain()`, in the order it happens to have. -/
def drain (w : ProducerWorld) (keys : List PartitionKey) :
    List (PartitionKey × PendingBatch) × ProducerWorld :=
  let batches := keys.map fun key => (key, w.producer.slot key)
  (batches,
    ({ w with
      producer := { w.producer with pending := ∅ }
      held := batches.map fun batch => (batch.1, batch.2.records) } : ProducerWorld).note
        (.drained keys))

def remove (w : ProducerWorld) (key : PartitionKey) : PendingBatch × ProducerWorld :=
  (w.producer.slot key,
    { w with
      producer := { w.producer with pending := w.producer.pending.erase key }
      held := [(key, (w.producer.slot key).records)] })

def letGo (w : ProducerWorld) (key : PartitionKey) : ProducerWorld :=
  { w with held := w.held.filter fun entry => entry.1 ≠ key }

def restore (w : ProducerWorld) (key : PartitionKey) (pending : PendingBatch) : ProducerWorld :=
  { w.letGo key with producer := w.producer.restore key pending }

def abandoned (w : ProducerWorld) : ProducerWorld :=
  { w with held := [], lost := w.lost ++ w.held.filter fun entry => !entry.2.isEmpty }

section Requests

variable {α : Type} (config : ProducerConfig)

def verdict (answers : List (Answer α)) : Option (Except ClientError α) :=
  if answers.all Answer.sound then
    retryLoop config.maxAttempts none (answers.map (·.result))
  else none

/-- Attempts after which a request may still be waiting. -/
def waiting (answers : List (Answer α)) : Bool :=
  answers.all Answer.sound && stillTrying config.maxAttempts (answers.map (·.result))

def applied (answers : List (Answer α)) : Bool := answers.any (·.applied)

end Requests

section Deliveries

variable (codecs : Codecs) (config : ProducerConfig)

def recordSet (parcel : Parcel) (nowMs : Int64) : Except ClientError Bytes :=
  encodeBatch codecs nowMs parcel.pending.records config.compression parcel.stamp

def attempt (w : ProducerWorld) (parcel : Parcel) (set : Bytes) (a : Answer Int64) :
    ProducerWorld :=
  let w := if a.sent then w.note (.sent parcel set a.applied) else w
  if a.result.isOk then (w.letGo parcel.key).note (.acked parcel.key parcel.pending.records) else w

def fly (w : ProducerWorld) (parcel : Parcel) (flight : Flight) : ProducerWorld :=
  match recordSet codecs config parcel flight.nowMs with
  | .error _ => w
  | .ok set => flight.answers.foldl (fun w a => w.attempt parcel set a) w

def landing (parcel : Parcel) (flight : Flight) : Option (Except ClientError Int64) :=
  match recordSet codecs config parcel flight.nowMs with
  | .error e => if flight.answers.isEmpty then some (.error e) else none
  | .ok _ => verdict config flight.answers

def deliver (w : ProducerWorld) : List Parcel → List Flight →
    Option (List (Except ClientError Int64) × ProducerWorld)
  | [], [] => some ([], w)
  | parcel :: parcels, flight :: flights =>
    (landing codecs config parcel flight).bind fun outcome =>
      (((w.fly codecs config parcel flight).note (.delivered parcel.key outcome)).deliver parcels
        flights).map fun rest => (outcome :: rest.1, rest.2)
  | _, _ => none

/-- Each delivery as far as it has come. -/
def scatter (w : ProducerWorld) : List Parcel → List Flight → Option ProducerWorld
  | [], [] => some w
  | parcel :: parcels, flight :: flights =>
    if (landing codecs config parcel flight).isSome || waiting config flight.answers then
      (w.fly codecs config parcel flight).scatter parcels flights
    else none
  | _, _ => none

def act : (op : ProducerOp) → ProducerChoice → ProducerWorld → Option (op.Res × ProducerWorld)
  | .read, .go, w => some (w.producer, w)
  | .write producer, .go, w => some ((), w.setProducer producer)
  | .drain, .order keys, w =>
    if keys.Perm w.producer.pending.keys then some (w.drain keys) else none
  | .remove key, .go, w => some (w.remove key)
  | .restore key pending, .go, w => some ((), w.restore key pending)
  | .initProducerId, .identities answers, w =>
    (verdict config answers).map fun answer =>
      (answer, { w.note (.identified answer) with
        announced := w.announced && !applied answers })
  | .addPartitions _ keys, .replies answers, w =>
    (verdict config answers).map fun answer =>
      (answer, { w.note (.claimed keys answer) with announced := w.announced || applied answers })
  | .addOffsets _ _, .replies answers, w =>
    (verdict config answers).map fun answer =>
      (answer, { w.note (.offsets answer) with announced := w.announced || applied answers })
  | .offsetCommit _ _ _, .replies answers, w =>
    (verdict config answers).map fun answer => (answer, w.note (.offsets answer))
  | .endTxn _ committed, .replies answers, w =>
    (verdict config answers).map fun answer =>
      (answer, { w.note (.ended committed answer) with
        announced := w.announced && !applied answers })
  | .deliver parcels, .flights flights, w => w.deliver codecs config parcels flights
  | .nextStamp identity key records, .go, w =>
    let next := nextStamp identity w.producer.sequences key records
      (w.producer.txnState ≠ .disabled)
    some (next.1, w.setProducer { w.producer with sequences := next.2 })
  | .partitionCount _, .count partitions, w => some (partitions, w)
  | .refreshMetadata _, .metadata result, w => some (result, w)
  | .note event, .go, w => some ((), w.note event)
  | _, _, _ => none

/-- What a call leaves behind that is dropped while it waits. -/
def interrupt : ProducerOp → ProducerChoice → ProducerWorld → Option ProducerWorld
  | .initProducerId, .identities answers, w =>
    if waiting config answers then
      some { w with announced := w.announced && !applied answers }
    else none
  | .addPartitions _ _, .replies answers, w =>
    if waiting config answers then
      some { w with announced := w.announced || applied answers }
    else none
  | .addOffsets _ _, .replies answers, w =>
    if waiting config answers then
      some { w with announced := w.announced || applied answers }
    else none
  | .offsetCommit _ _ _, .replies answers, w => if waiting config answers then some w else none
  | .endTxn _ _, .replies answers, w =>
    if waiting config answers then
      some { w with announced := w.announced && !applied answers }
    else none
  | .deliver parcels, .flights flights, w => w.scatter codecs config parcels flights
  | .refreshMetadata _, .go, w => some w
  | _, _, _ => none

def drop (op : ProducerOp) (c : ProducerChoice) (w : ProducerWorld) : Option ProducerWorld :=
  (interrupt codecs config op c w).map abandoned

end Deliveries

end ProducerWorld

abbrev ProducerService := Service ProducerWorld ProducerOp ProducerOp.Res ProducerChoice

def producerService (codecs : Codecs) (config : ProducerConfig) : ProducerService :=
  { exec := ProducerWorld.act codecs config
    drop := ProducerWorld.drop codecs config }

inductive ProducerCall
  | initTransactions
  | beginTransaction
  | enqueue (key : PartitionKey) (record : Record)
  | enqueueKeyed (topic : String) (record : Record)
  | produce (key : PartitionKey) (records : List Record)
  | flush
  | sendOffsets (member : GroupMembership) (offsets : List TransactionalOffset)
  | commitTransaction
  | abortTransaction

namespace ProducerCall

def method (config : ProducerConfig) : ProducerCall → ProducerTry Unit
  | .initTransactions => Producer.initTransactions config
  | .beginTransaction => Producer.beginTransaction
  | .enqueue key record => do
    let _ ← Producer.enqueue config key record
  | .enqueueKeyed topic record => do
    let _ ← Producer.enqueueKeyed config topic record
  | .produce key records => do
    let _ ← Producer.produce config key records
  | .flush => do
    let _ ← Producer.flush config
  | .sendOffsets member offsets => Producer.sendOffsetsToTransaction config member offsets
  | .commitTransaction => Producer.commitTransaction config
  | .abortTransaction => Producer.abortTransaction config

def body (config : ProducerConfig) (call : ProducerCall) :
    ProducerProgram (Except ClientError Unit) :=
  (call.method config).run

def mayDrop : ProducerCall → Bool
  | .enqueue _ _ | .enqueueKeyed _ _ | .produce _ _ | .flush => true
  | _ => false

end ProducerCall

abbrev ProducerSessions (S : ProducerService) (config : ProducerConfig)
    (mayDrop : ProducerCall → Bool) : ProducerWorld → Prop :=
  S.Sessions (ProducerCall.body config) mayDrop (· = .fresh config)

end Odradek.Client
