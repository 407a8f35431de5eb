import Odradek.Client.Compression
import Mathlib.Data.List.Sort

/-!
The consumer's fetch path (`consumer.rs`), from the response on: which batches
a fetch surfaces, what a response may still spend, and the materialisation
loop. Offsets and timestamps are `i64` and wrap.
-/

namespace Odradek.Client

open Library Odradek.Protocol

inductive IsolationLevel
  | readUncommitted
  | readCommitted
  deriving DecidableEq

structure ConsumerConfig where
  maxFetchRecords : Nat
  isolationLevel : IsolationLevel
  deriving DecidableEq

def ConsumerConfig.default : ConsumerConfig :=
  { maxFetchRecords := 1 <<< 20, isolationLevel := .readUncommitted }

def minRecordWireLen : Nat := 7

structure ConsumedRecord where
  offset : Int64
  timestamp : Int64
  key : Option Bytes
  value : Option Bytes
  headers : List RecordHeader
  deriving DecidableEq

structure AbortedTransaction where
  producerId : Int64
  firstOffset : Int64
  deriving DecidableEq

structure PartitionData where
  partitionIndex : Int32
  errorCode : ErrorCode
  highWatermark : Int64
  lastStableOffset : Int64
  abortedTransactions : Option (List AbortedTransaction)
  records : Option Bytes

structure FetchableTopicResponse where
  topic : String
  partitions : List PartitionData

structure FetchResponse where
  errorCode : ErrorCode
  responses : List FetchableTopicResponse

structure FetchResult (ρ : Type) where
  records : List ρ
  nextOffset : Int64
  highWatermark : Int64
  lastStableOffset : Int64
  deriving DecidableEq

/-- How a fetch ends other than with a result. -/
inductive FetchHalt
  | error (error : ClientError)
  | panic
  deriving DecidableEq

abbrev Fetch := Except FetchHalt

def violation {α : Type} (message : String) : Fetch α :=
  .error (.error (.protocolViolation message))

def liftDecode {α : Type} : Except Halt α → Fetch α
  | .ok value => .ok value
  | .error (.error e) => .error (.error (.decode e))
  | .error .panic => .error .panic

def liftClient {α : Type} : Except ClientError α → Fetch α
  | .ok value => .ok value
  | .error e => .error (.error e)

/-- What one response is still allowed to spend. -/
structure FetchBudget where
  recordsLeft : Nat
  decompressedLeft : Nat
  deriving DecidableEq

namespace FetchBudget

def claimRecords (budget : FetchBudget) (count : Nat) : Fetch FetchBudget :=
  if budget.recordsLeft < count then
    violation (s!"fetch response wants to materialize more than this client's limit of records " ++
      s!"(ConsumerConfig::max_fetch_records); {count} more asked for with room for " ++
      s!"{budget.recordsLeft}")
  else .ok { budget with recordsLeft := budget.recordsLeft - count }

def claimDecompressed (budget : FetchBudget) (len : Nat) : Fetch FetchBudget :=
  if budget.decompressedLeft < len then
    violation (s!"fetch response decompresses past this client's limit of {maxDecompressed} " ++
      "bytes per response")
  else .ok { budget with decompressedLeft := budget.decompressedLeft - len }

end FetchBudget

/-- `BatchFilter`. The disowned producers are a set. -/
structure BatchFilter where
  aborted : List AbortedTransaction
  disowned : List Int64
  readCommitted : Bool
  deriving DecidableEq

def abortMarker : Int16 := 0

def i16FromBytes (high low : UInt8) : Int16 :=
  Int16.ofBitVec (BitVec.ofNat 16 (ofBigEndian [high, low]))

def isAbortMarker (batch : RecordBatch) : Bool :=
  match batch.records with
  | .compressed _ _ => false
  | .plain records =>
    match records.head? with
    | none => false
    | some record =>
      match record.key with
      | some (_ :: _ :: k2 :: k3 :: _) => i16FromBytes k2 k3 == abortMarker
      | _ => false

def batchLast (batch : RecordBatch) : Int64 := batch.baseOffset + batch.lastOffsetDelta.toInt64

namespace BatchFilter

def new (isolationLevel : IsolationLevel) (aborted : Option (List AbortedTransaction)) :
    BatchFilter :=
  let readCommitted := isolationLevel == .readCommitted
  let entries := if readCommitted then aborted.getD [] else []
  { aborted := entries.insertionSort (·.firstOffset ≤ ·.firstOffset)
    disowned := []
    readCommitted }

/-- The `while` loop of `keeps`: every run that starts by `last` is in force. -/
def activate (last : Int64) : List AbortedTransaction → List Int64 →
    List AbortedTransaction × List Int64
  | [], disowned => ([], disowned)
  | entry :: aborted, disowned =>
    if entry.firstOffset ≤ last then activate last aborted (entry.producerId :: disowned)
    else (entry :: aborted, disowned)

def reach (filter : BatchFilter) (batch : RecordBatch) : BatchFilter :=
  if filter.readCommitted ∧ 0 ≤ batch.producerId then
    let (aborted, disowned) := activate (batchLast batch) filter.aborted filter.disowned
    { filter with aborted, disowned }
  else filter

def keeps (filter : BatchFilter) (batch : RecordBatch) : Bool × BatchFilter :=
  let filter := filter.reach batch
  if batch.isControl then
    if filter.readCommitted ∧ isAbortMarker batch then
      (false, { filter with disowned := filter.disowned.filter (· ≠ batch.producerId) })
    else (false, filter)
  else
    (!(filter.readCommitted && batch.isTransactional &&
      filter.disowned.contains batch.producerId), filter)

/-- The batches of a walk that the filter keeps. -/
def surfaced (filter : BatchFilter) : List RecordBatch → List RecordBatch
  | [] => []
  | batch :: batches =>
    let (kept, filter) := filter.keeps batch
    if kept then batch :: surfaced filter batches else surfaced filter batches

end BatchFilter

def maxI64 (a b : Int64) : Int64 := if a ≤ b then b else a

section Materialise

variable {ρ : Type} (codecs : Codecs) (map : ConsumedRecord → ρ)

/-- The record with absolute coordinates. -/
def consumed (batch : RecordBatch) (record : Record) : ConsumedRecord :=
  { offset := batch.baseOffset + record.offsetDelta.toInt64
    timestamp := batch.baseTimestamp + record.timestampDelta
    key := record.key
    value := record.value
    headers := record.headers }

def pushRecord (out : List ρ) (batch : RecordBatch) (record : Record) (minOffset : Int64) :
    List ρ :=
  if batch.baseOffset + record.offsetDelta.toInt64 < minOffset then out
  else out ++ [map (consumed batch record)]

/-- The loop of `decode_compressed`: each record under limits of its own. -/
def decodeCompressedRecords (batch : RecordBatch) (minOffset : Int64) :
    (count : Nat) → (data : Bytes) → List ρ → Fetch (List ρ × Bytes)
  | 0, data, out => .ok (out, data)
  | count + 1, data, out => do
    let (record, data) ← liftDecode (runDecode Limits.default Record.decode data)
    decodeCompressedRecords batch minOffset count data (pushRecord map out batch record minOffset)

def decodeCompressed (out : List ρ) (budget : FetchBudget) (batch : RecordBatch) (count : Int32)
    (payload : Bytes) (minOffset : Int64) : Fetch (List ρ × FetchBudget) := do
  if count.toInt < 0 then
    violation s!"batch claims a negative record count ({count.toInt})"
  else
    let count := count.toInt.toNat
    let data ← liftClient (decompress codecs batch.compression payload)
    let budget ← budget.claimDecompressed data.length
    let possible := data.length / minRecordWireLen
    if possible < count then
      violation (s!"batch claims {count} records but its {data.length} decompressed byte(s) " ++
        s!"can hold at most {possible}")
    else
      let budget ← budget.claimRecords count
      let (out, left) ← decodeCompressedRecords map batch minOffset count data out
      if left.length ≠ 0 then
        violation s!"{left.length} byte(s) left after the batch's {count} compressed records"
      else pure (out, budget)

/-- What the batch loop carries. -/
structure Walk (ρ : Type) where
  records : List ρ
  budget : FetchBudget
  filter : BatchFilter
  nextOffset : Int64

/-- The batch loop's body. -/
def materialiseBatch (offset : Int64) (walk : Walk ρ) (batch : RecordBatch) : Fetch (Walk ρ) := do
  let nextOffset := maxI64 walk.nextOffset (batch.baseOffset + batch.lastOffsetDelta.toInt64 + 1)
  let (kept, filter) := walk.filter.keeps batch
  if kept then
    match batch.records with
    | .plain plain =>
      let budget ← walk.budget.claimRecords plain.length
      let records := plain.foldl (fun out record => pushRecord map out batch record offset)
        walk.records
      pure { records, budget, filter, nextOffset }
    | .compressed count payload =>
      let (records, budget) ←
        decodeCompressed codecs map walk.records walk.budget batch count payload offset
      pure { records, budget, filter, nextOffset }
  else
    pure { walk with filter, nextOffset }

def materialise (offset : Int64) : List RecordBatch → Walk ρ → Fetch (Walk ρ)
  | [], walk => .ok walk
  | batch :: batches, walk => do
    let walk ← materialiseBatch codecs map offset walk batch
    materialise offset batches walk

/-- `fetch_once` from the partition's entry on. -/
def fetchEntry (config : ConsumerConfig) (offset : Int64) (entry : PartitionData) :
    Fetch (FetchResult ρ) := do
  let set := entry.records.getD []
  let (batches, _) ← liftDecode (runDecode Limits.default decodeSet set)
  let walk ← materialise codecs map offset batches
    { records := []
      budget := { recordsLeft := config.maxFetchRecords, decompressedLeft := maxDecompressed }
      filter := BatchFilter.new config.isolationLevel entry.abortedTransactions
      nextOffset := offset }
  pure { records := walk.records
         nextOffset := walk.nextOffset
         highWatermark := entry.highWatermark
         lastStableOffset := entry.lastStableOffset }

/-- `fetch_once` from the response on. -/
def fetchOnce (config : ConsumerConfig) (topic : String) (partition : Int32) (offset : Int64)
    (resp : FetchResponse) : Fetch (FetchResult ρ) :=
  if !resp.errorCode.isOk then .error (.error (.broker resp.errorCode))
  else
    match (resp.responses.find? (·.topic == topic)).bind fun t =>
        t.partitions.find? (·.partitionIndex == partition) with
    | none => violation s!"fetch response omits {topic}[{partition.toInt}]"
    | some entry =>
      if !entry.errorCode.isOk then .error (.error (.broker entry.errorCode))
      else fetchEntry codecs map config offset entry

end Materialise

end Odradek.Client
