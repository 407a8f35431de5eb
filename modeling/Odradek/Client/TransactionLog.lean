import Odradek.Client.Consumer

/-!
A partition log with transactions, for its own sake: batches in offset order,
control batches that end a producer's transaction, and which batches belong to
an aborted one. `Covers` is what a broker promises about the aborted list it
sends with a range of the log.
-/

namespace Odradek.Client

open Odradek.Protocol

section Log

def firstOffset (batch : RecordBatch) : Int := batch.baseOffset.toInt

def lastOffset (batch : RecordBatch) : Int := batch.baseOffset.toInt + batch.lastOffsetDelta.toInt

inductive Ending
  | abort
  | commit
  deriving DecidableEq

/-- The ending a control batch announces: one record whose key is a version and
the ending's number. -/
def ending? (batch : RecordBatch) : Option Ending :=
  match batch.records with
  | .plain [record] =>
    match record.key with
    | some [_, _, 0, 0] => some .abort
    | some [_, _, 0, 1] => some .commit
    | _ => none
  | _ => none

def Controls (producerId : Int64) (batch : RecordBatch) : Prop :=
  batch.isControl = true ∧ batch.producerId = producerId

instance decidableControls (producerId : Int64) (batch : RecordBatch) :
    Decidable (Controls producerId batch) :=
  inferInstanceAs (Decidable (_ ∧ _))

def WrittenIn (producerId : Int64) (batch : RecordBatch) : Prop :=
  batch.isControl = false ∧ batch.isTransactional = true ∧ batch.producerId = producerId

structure ValidLog (log : List RecordBatch) : Prop where
  placed : ∀ batch ∈ log, 0 ≤ batch.lastOffsetDelta.toInt ∧ lastOffset batch < i64Max
  ordered : log.Pairwise fun a b => lastOffset a < firstOffset b
  endings : ∀ batch ∈ log, batch.isControl = true → ending? batch ≠ none
  producers : ∀ batch ∈ log, batch.isTransactional = true → 0 ≤ batch.producerId

/-- The producer's next control batch ends its transaction with an abort. -/
def endsInAbort (producerId : Int64) : List RecordBatch → Bool
  | [] => false
  | batch :: rest =>
    if Controls producerId batch then ending? batch == some .abort
    else endsInAbort producerId rest

/-- Whether a batch with `rest` behind it is one a reader should see. -/
def visible (level : IsolationLevel) (batch : RecordBatch) (rest : List RecordBatch) : Bool :=
  !batch.isControl && !(level == .readCommitted && batch.isTransactional &&
    endsInAbort batch.producerId rest)

/-- The visible batches of a range with `after` behind it. -/
def visibleBatches (level : IsolationLevel) (after : List RecordBatch) :
    List RecordBatch → List RecordBatch
  | [] => []
  | batch :: rest =>
    if visible level batch (rest ++ after) then batch :: visibleBatches level after rest
    else visibleBatches level after rest

end Log

section Aborted

/-- No transaction of the producer is open at the end of the log. -/
def Idle (producerId : Int64) (log : List RecordBatch) : Prop :=
  ∀ front batch rest, log = front ++ batch :: rest → WrittenIn producerId batch →
    ∃ control ∈ rest, Controls producerId control

/-- A transaction of the log that `marker` aborts: from its first batch on. -/
def AbortedIn (log : List RecordBatch) (entry : AbortedTransaction) (marker : RecordBatch) : Prop :=
  ∃ front first middle back, log = front ++ first :: (middle ++ marker :: back) ∧
    Idle entry.producerId front ∧
    WrittenIn entry.producerId first ∧ first.baseOffset = entry.firstOffset ∧
    (∀ batch ∈ middle, ¬ Controls entry.producerId batch) ∧
    Controls entry.producerId marker ∧ ending? marker = some .abort

/-- The aborted transactions of the log that a range from `start` to `stop`
meets, in any order. -/
def AbortedList (log : List RecordBatch) (start stop : Int) (entries : List AbortedTransaction) :
    Prop :=
  ∀ entry, entry ∈ entries ↔ ∃ marker, AbortedIn log entry marker ∧ start ≤ lastOffset marker ∧
    entry.firstOffset.toInt ≤ stop

/-- The first control batch of the entry's producer past the entry's offset is
an abort. -/
def AbortedFrom (entry : AbortedTransaction) : List RecordBatch → Prop
  | [] => False
  | batch :: rest =>
    if Controls entry.producerId batch ∧ entry.firstOffset.toInt ≤ lastOffset batch then
      ending? batch = some .abort
    else AbortedFrom entry rest

/-- No control batch of the entry's producer past the entry's offset. -/
def Unended (entry : AbortedTransaction) (log : List RecordBatch) : Prop :=
  ∀ batch ∈ log, Controls entry.producerId batch → lastOffset batch < entry.firstOffset.toInt

/-- What an aborted list has to say about a range of the log to be of use:
every entry is of a transaction aborted inside or behind the range, and every
batch of the range that belongs to an aborted transaction has its entry. -/
structure Covers (before fetched after : List RecordBatch) (entries : List AbortedTransaction) :
    Prop where
  sound : ∀ entry ∈ entries, 0 ≤ entry.producerId ∧ Unended entry before ∧
    AbortedFrom entry (fetched ++ after)
  complete : ∀ front batch rest, fetched = front ++ batch :: rest →
    WrittenIn batch.producerId batch → endsInAbort batch.producerId (rest ++ after) = true →
    ∃ entry ∈ entries, entry.producerId = batch.producerId ∧
      entry.firstOffset.toInt ≤ lastOffset batch ∧ Unended entry (before ++ front)

end Aborted

end Odradek.Client
