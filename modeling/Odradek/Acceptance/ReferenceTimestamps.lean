import Odradek.Acceptance.ReferenceIsolation
import Odradek.Protocol.Concatenation

/-!
ListOffsets by timestamp in the reference broker. The search decodes the whole log
and counts records from zero, where the offsets acknowledged come from a counter that
markers advance too: the two agree in every run that appends nothing to a log behind
a marker, and whose batches number their records as they count them.
-/

namespace Odradek.Acceptance.Subject

open Library Odradek.Protocol

def earliestTimestamp : Int64 := -2
def latestTimestamp : Int64 := -1

section ListOffsets

structure ListOffsetsPartition where
  partitionIndex : Int32
  timestamp : Int64
  deriving DecidableEq

structure ListOffsetsTopic where
  name : String
  partitions : List ListOffsetsPartition
  deriving DecidableEq

structure ListOffsetsPartitionResponse where
  partitionIndex : Int32
  errorCode : Int16
  timestamp : Int64
  offset : Int64
  leaderEpoch : Int32
  deriving DecidableEq

structure ListOffsetsTopicResponse where
  name : String
  partitions : List ListOffsetsPartitionResponse
  deriving DecidableEq

/-- The records of one batch: the `(timestamp, offset)` found, or the offset after them. -/
def searchRecords (wanted baseTimestamp : Int64) :
    Int64 → List Record → Except (Int64 × Int64) Int64
  | offset, [] => .ok offset
  | offset, record :: records =>
    let stamp := baseTimestamp + record.timestampDelta
    if wanted ≤ stamp then .error (stamp, offset)
    else searchRecords wanted baseTimestamp (offset + 1) records

def searchBatches (wanted : Int64) : Int64 → List RecordBatch → Int64 × Int64
  | _, [] => (-1, -1)
  | offset, batch :: batches =>
    match batch.records with
    | .plain records =>
      match searchRecords wanted batch.baseTimestamp offset records with
      | .error found => found
      | .ok offset => searchBatches wanted offset batches
    | .compressed _ _ =>
      searchBatches wanted (offset + (batch.lastOffsetDelta.toInt64 + 1)) batches

def timestampSearch (log : PartitionLog) (wanted : Int64) : Int64 × Int64 :=
  match decodedSet log.bytes with
  | none => (-1, -1)
  | some batches => searchBatches wanted 0 batches

namespace ClusterState

def listOffsetsPartition (s : ClusterState) (topic : String) (p : ListOffsetsPartition) :
    ListOffsetsPartitionResponse :=
  let log := s.logs.lookup (topic, p.partitionIndex)
  let logEnd := (log.map (·.nextOffset)).getD 0
  let answer :=
    if p.timestamp = earliestTimestamp then (-1, 0)
    else if p.timestamp = latestTimestamp then (-1, logEnd)
    else (log.map (timestampSearch · p.timestamp)).getD (-1, -1)
  { partitionIndex := p.partitionIndex
    errorCode := 0
    timestamp := answer.1
    offset := answer.2
    leaderEpoch := -1 }

def listOffsetsExchange (s : ClusterState) (topics : List ListOffsetsTopic) :
    List ListOffsetsTopicResponse :=
  topics.map fun topic =>
    { name := topic.name, partitions := topic.partitions.map (s.listOffsetsPartition topic.name) }

end ClusterState

end ListOffsets

section Statement

structure TimedRecord where
  offset : Int
  timestamp : Int
  deriving DecidableEq

def timedRecord (start : Int) (baseTimestamp : Int64) (record : Record) : TimedRecord :=
  { offset := start + record.offsetDelta.toInt
    timestamp := baseTimestamp.toInt + record.timestampDelta.toInt }

def recordsOf (start : Int) (batch : RecordBatch) : List TimedRecord :=
  match batch.records with
  | .plain records => records.map (timedRecord start batch.baseTimestamp)
  | .compressed _ _ => []

/-- The records of a log, in its order, at the offsets their acknowledgements gave them. -/
def timedAt (key : Key) (history : List Event) : List TimedRecord :=
  (placedAt key history).flatMap fun place => recordsOf place.1 place.2

/-- The answer names the first record of the log at or after the timestamp, and no
offset exactly when there is none. -/
structure ClusterState.LooksUp (s : ClusterState) : Prop where
  found : ∀ topic (p : ListOffsetsPartition),
    p.timestamp ≠ earliestTimestamp → p.timestamp ≠ latestTimestamp →
      ∀ record, (timedAt (topic, p.partitionIndex) s.history).find?
          (fun record => p.timestamp.toInt ≤ record.timestamp) = some record →
        (s.listOffsetsPartition topic p).offset.toInt = record.offset ∧
          (s.listOffsetsPartition topic p).timestamp.toInt = record.timestamp
  missing : ∀ topic (p : ListOffsetsPartition),
    p.timestamp ≠ earliestTimestamp → p.timestamp ≠ latestTimestamp →
      ((s.listOffsetsPartition topic p).offset = -1 ↔
        ∀ record ∈ timedAt (topic, p.partitionIndex) s.history,
          record.timestamp < p.timestamp.toInt)

def Numbered : Int → List Record → Prop
  | _, [] => True
  | n, record :: records => record.offsetDelta.toInt = n ∧ Numbered (n + 1) records

/-- An uncompressed batch whose offsets are those of its records, one by one, and whose
timestamps fit. -/
def Sequential (batch : RecordBatch) : Prop :=
  match batch.records with
  | .plain records =>
    Numbered 0 records ∧ batchSize batch = records.length ∧
      ∀ record ∈ records,
        -2 ^ 63 ≤ batch.baseTimestamp.toInt + record.timestampDelta.toInt ∧
          batch.baseTimestamp.toInt + record.timestampDelta.toInt < 2 ^ 63
  | .compressed _ _ => False

def Event.marks (key : Key) : Event → Bool
  | .ended _ _ _ marked => marked.contains key
  | _ => false

/-- No transaction that wrote to the log has ended. -/
def Unmarked (key : Key) (history : List Event) : Prop :=
  ∀ event ∈ history, event.marks key = false

/-- A set that the search will count as it was acknowledged, if it is appended. -/
def Counted (snapshot : AList fun _ : String => TxnState) (transactionalId : Option String)
    (s : ClusterState) (key : Key) (set : Bytes) (batches : List RecordBatch) : Prop :=
  leaderVerdict snapshot (s.log key) transactionalId batches = .ok none →
    wholeSet set ∧ (∀ batch ∈ batches, Sequential batch) ∧
      (batches ≠ [] → Unmarked key s.history) ∧
      (s.log key).nextOffset.toInt + total batches < 2 ^ 63 ∧
      (decodedSet ((s.log key).bytes ++ set)).isSome = true

instance numberedDecidable : ∀ n records, Decidable (Numbered n records)
  | _, [] => isTrue trivial
  | n, record :: records =>
    have := numberedDecidable (n + 1) records
    inferInstanceAs (Decidable (record.offsetDelta.toInt = n ∧ Numbered (n + 1) records))

instance (batch : RecordBatch) : Decidable (Sequential batch) :=
  match h : batch.records with
  | .plain records =>
    decidable_of_iff (Numbered 0 records ∧ batchSize batch = records.length ∧
      ∀ record ∈ records,
        -2 ^ 63 ≤ batch.baseTimestamp.toInt + record.timestampDelta.toInt ∧
          batch.baseTimestamp.toInt + record.timestampDelta.toInt < 2 ^ 63)
      (by rw [Sequential, h])
  | .compressed _ _ => isFalse (by rw [Sequential, h]; exact id)

instance (key : Key) (history : List Event) : Decidable (Unmarked key history) :=
  inferInstanceAs (Decidable (∀ event ∈ history, event.marks key = false))

instance (snapshot : AList fun _ : String => TxnState) (transactionalId : Option String)
    (s : ClusterState) (key : Key) (set : Bytes) (batches : List RecordBatch) :
    Decidable (Counted snapshot transactionalId s key set batches) :=
  match h : leaderVerdict snapshot (s.log key) transactionalId batches with
  | .error _ => isTrue fun hnone => by rw [h] at hnone; cases hnone
  | .ok (some _) => isTrue fun hnone => by rw [h] at hnone; cases hnone
  | .ok none =>
    decidable_of_iff (wholeSet set ∧ (∀ batch ∈ batches, Sequential batch) ∧
      (batches ≠ [] → Unmarked key s.history) ∧
      (s.log key).nextOffset.toInt + total batches < 2 ^ 63 ∧
      (decodedSet ((s.log key).bytes ++ set)).isSome = true)
      ⟨fun hset _ => hset, fun hset => hset h⟩

def CountedStep (s : ClusterState) : Action → Prop
  | .produce nodeId request =>
    OnTopics (Counted s.txns request.transactionalId) s.txns request.transactionalId nodeId s
      request.topicData
  | _ => True

instance (s : ClusterState) : ∀ action, Decidable (CountedStep s action)
  | .produce nodeId request =>
    inferInstanceAs (Decidable (OnTopics (Counted s.txns request.transactionalId) s.txns
      request.transactionalId nodeId s request.topicData))
  | .initProducerId _ | .addPartitionsToTxn _ | .addOffsetsToTxn _ _ | .txnOffsetCommit _
  | .endTxn _ | .createTopics _ _ | .stop _ | .start _ => isTrue trivial

def CountedRun : ClusterState → Prop :=
  Reachable (fun s => ∃ ports, s = .start ports) fun s action t =>
    CountedStep s action ∧ some (s.next action) = some t

end Statement

section Search

variable {wanted offset : Int64} {batch : RecordBatch} {batches : List RecordBatch}

/-- What the search answers, given the record it should find. -/
def Answers (answer : Int64 × Int64) : Option TimedRecord → Prop
  | some record => answer.2.toInt = record.offset ∧ answer.1.toInt = record.timestamp
  | none => answer = (-1, -1)

theorem toInt_add_of_fits {a b : Int64} (hlow : -2 ^ 63 ≤ a.toInt + b.toInt)
    (hhigh : a.toInt + b.toInt < 2 ^ 63) : (a + b).toInt = a.toInt + b.toInt := by
  rw [Int64.toInt_add]
  exact Int.bmod_eq_of_le (by omega) (by omega)

variable (wanted) in
/-- The search counts records as they were numbered, up to the first that is late
enough. -/
theorem searchRecords_eq {base : Int64} {records : List Record} {start number : Int}
    (hnumbered : Numbered number records) (hstart : offset.toInt = start + number)
    (hlow : 0 ≤ offset.toInt) (hhigh : offset.toInt + records.length < 2 ^ 63)
    (hstamps : ∀ record ∈ records, -2 ^ 63 ≤ base.toInt + record.timestampDelta.toInt ∧
      base.toInt + record.timestampDelta.toInt < 2 ^ 63) :
    match (records.map (timedRecord start base)).find?
        (fun record => wanted.toInt ≤ record.timestamp) with
    | some record => ∃ found, searchRecords wanted base offset records = .error found ∧
        Answers found (some record)
    | none => ∃ next, searchRecords wanted base offset records = .ok next ∧
        next.toInt = offset.toInt + records.length := by
  induction records generalizing offset number with
  | nil => exact ⟨offset, rfl, (Int.add_zero _).symm⟩
  | cons record records ih =>
      obtain ⟨hlow', hhigh'⟩ := hstamps record List.mem_cons_self
      have hstamp : (base + record.timestampDelta).toInt =
          (timedRecord start base record).timestamp := toInt_add_of_fits hlow' hhigh'
      rw [List.length_cons] at hhigh
      rw [List.map_cons, searchRecords]
      by_cases hfound : wanted ≤ base + record.timestampDelta
      · have hreached := Int64.le_iff_toInt_le.mp hfound
        rw [hstamp] at hreached
        simp only [List.find?_cons, decide_eq_true hreached, if_pos hfound]
        refine ⟨_, rfl, ?_, hstamp⟩
        rw [hstart, timedRecord, hnumbered.1]
      · have hpassed : ¬ wanted.toInt ≤ (timedRecord start base record).timestamp := by
          intro hreached
          exact hfound (Int64.le_iff_toInt_le.mpr (hstamp ▸ hreached))
        have hone : (1 : Int64).toInt = 1 := rfl
        have hnext : (offset + 1).toInt = offset.toInt + 1 :=
          toInt_add_of_fits (by rw [hone]; omega) (by rw [hone]; omega)
        simp only [List.find?_cons, decide_eq_false hpassed, if_neg hfound]
        have hrest := @ih (offset + 1) (number + 1) hnumbered.2 (by omega) (by omega) (by omega)
          fun other hmem => hstamps other (List.mem_cons_of_mem _ hmem)
        rw [hnext] at hrest
        rw [List.length_cons]
        split at hrest
        case h_1 other hfind =>
          rw [hfind]
          exact hrest
        case h_2 hfind =>
          obtain ⟨next, hsearch, hoffset⟩ := hrest
          rw [hfind]
          exact ⟨next, hsearch, by omega⟩

theorem Sequential.plain (h : Sequential batch) :
    ∃ records, batch.records = .plain records ∧ Numbered 0 records ∧
      batchSize batch = records.length ∧
      ∀ record ∈ records,
        -2 ^ 63 ≤ batch.baseTimestamp.toInt + record.timestampDelta.toInt ∧
          batch.baseTimestamp.toInt + record.timestampDelta.toInt < 2 ^ 63 := by
  unfold Sequential at h
  split at h
  · exact ⟨_, ‹_›, h⟩
  · exact h.elim

theorem Sequential.size_nonneg (h : Sequential batch) : 0 ≤ batchSize batch := by
  obtain ⟨records, _, _, hsize, _⟩ := h.plain
  rw [hsize]
  exact Int.natCast_nonneg _

/-- The search finds what it is asked for, at the offset that the batches give it. -/
theorem searchBatches_answers (hsequential : ∀ batch ∈ batches, Sequential batch)
    (hlow : 0 ≤ offset.toInt) (hhigh : offset.toInt + total batches < 2 ^ 63) :
    Answers (searchBatches wanted offset batches)
      (((places offset.toInt batches).flatMap fun place => recordsOf place.1 place.2).find?
        fun record => wanted.toInt ≤ record.timestamp) := by
  induction batches generalizing offset with
  | nil => exact rfl
  | cons batch batches ih =>
      have hothers := fun other hmem => hsequential other (List.mem_cons_of_mem batch hmem)
      have hrest := total_sized fun other hmem => (hothers other hmem).size_nonneg
      have htotal : total (batch :: batches) = batchSize batch + total batches := rfl
      obtain ⟨records, hplain, hnumbered, hsize, hstamps⟩ :=
        (hsequential batch List.mem_cons_self).plain
      have hrecords : recordsOf offset.toInt batch =
          records.map (timedRecord offset.toInt batch.baseTimestamp) := by
        rw [recordsOf, hplain]
      have hfirst := searchRecords_eq wanted hnumbered (Int.add_zero _).symm hlow
        (by omega) hstamps
      rw [searchBatches, hplain, places, List.flatMap_cons, List.find?_append, hrecords]
      split at hfirst
      case h_1 record hfind =>
        obtain ⟨found, hsearch, hanswers⟩ := hfirst
        rw [hfind]
        simp only [hsearch]
        exact hanswers
      case h_2 hfind =>
        obtain ⟨next, hsearch, hnext⟩ := hfirst
        rw [← hsize] at hnext
        have hsize := (hsequential batch List.mem_cons_self).size_nonneg
        have hlater := @ih next hothers (by omega) (by omega)
        rw [hnext] at hlater
        rw [hfind]
        simp only [hsearch]
        exact hlater

end Search

section Logs

variable {key : Key} {log log' : PartitionLog} {history more : List Event} {set : Bytes}
  {batches : List RecordBatch}

theorem total_append (batches others : List RecordBatch) :
    total (batches ++ others) = total batches + total others := by
  simp [total]

theorem places_append (start : Int) (batches others : List RecordBatch) :
    places start (batches ++ others) =
      places start batches ++ places (start + total batches) others := by
  induction batches generalizing start with
  | nil =>
      rw [List.nil_append, places, List.nil_append, total, List.map_nil, span, Int.add_zero]
  | cons batch batches ih =>
      have htotal : total (batch :: batches) = batchSize batch + total batches := rfl
      rw [List.cons_append, places, ih, places, List.cons_append, htotal, Int.add_assoc]

theorem decodedSet_run (h : decodedSet set = some batches) :
    ∃ rest, runDecode .default decodeSet set = .ok (batches, rest) := by
  unfold decodedSet at h
  cases hrun : runDecode .default decodeSet set with
  | error e =>
      rw [hrun] at h
      cases h
  | ok read =>
      rw [hrun] at h
      cases h
      exact ⟨read.2, rfl⟩

theorem unmarked_append :
    Unmarked key (history ++ more) ↔ Unmarked key history ∧ Unmarked key more := by
  simp only [Unmarked, List.forall_mem_append]

/-- The log decodes to what was appended to it, and so far counts what it gave out. -/
structure Searchable (key : Key) (log : PartitionLog) (history : List Event) : Prop where
  whole : wholeSet log.bytes
  decoded : decodedSet log.bytes = some (batchesAt key history)
  sequential : ∀ batch ∈ batchesAt key history, Sequential batch
  placed : placedAt key history = places 0 (batchesAt key history)
  counted : Unmarked key history → log.nextOffset.toInt = total (batchesAt key history)
  fits : total (batchesAt key history) < 2 ^ 63

theorem Searchable.empty (key : Key) : Searchable key .empty [] where
  whole := rfl
  decoded := rfl
  sequential := fun _ hmem => absurd hmem List.not_mem_nil
  placed := rfl
  counted := fun _ => rfl
  fits := (by decide : (0 : Int) < 2 ^ 63)

/-- What happens to other logs leaves this one searchable. -/
theorem Searchable.elsewhere (hkept : Searchable key log history)
    (happends : appendsAt key more = []) (hbytes : log'.bytes = log.bytes)
    (hnext : Unmarked key more → log'.nextOffset = log.nextOffset) :
    Searchable key log' (history ++ more) := by
  have hbatches : batchesAt key (history ++ more) = batchesAt key history := by
    rw [batchesAt_append, batchesAt_of_none happends, List.append_nil]
  have hplaced : placedAt key (history ++ more) = placedAt key history := by
    rw [placedAt_append, placedAt_of_none happends, List.append_nil]
  refine ⟨?_, ?_, ?_, ?_, ?_, ?_⟩
  · rw [hbytes]
    exact hkept.whole
  · rw [hbytes, hbatches]
    exact hkept.decoded
  · rw [hbatches]
    exact hkept.sequential
  · rw [hplaced, hbatches]
    exact hkept.placed
  · intro hunmarked
    obtain ⟨hbefore, hafter⟩ := unmarked_append.mp hunmarked
    rw [hnext hafter, hbatches]
    exact hkept.counted hbefore
  · rw [hbatches]
    exact hkept.fits

/-- An appended set that counts as acknowledged keeps the log searchable. -/
theorem Searchable.append (hkept : Searchable key log history) {transactionalId : Option String}
    (hset : decodedSet set = some batches) (hwhole : wholeSet set)
    (hsequential : ∀ batch ∈ batches, Sequential batch)
    (hunmarked : batches ≠ [] → Unmarked key history)
    (hfits : log.nextOffset.toInt + total batches < 2 ^ 63)
    (hdecodes : (decodedSet (log.bytes ++ set)).isSome = true) :
    Searchable key (log.append transactionalId.isSome set batches)
      (history ++ [.appended key transactionalId set batches log.nextOffset,
        .acknowledged key set batches log.nextOffset]) := by
  obtain ⟨both, hboth⟩ := Option.isSome_iff_exists.mp hdecodes
  obtain ⟨_, hrun⟩ := decodedSet_run hkept.decoded
  obtain ⟨_, hrunSet⟩ := decodedSet_run hset
  obtain ⟨_, hrunBoth⟩ := decodedSet_run hboth
  have hread := decodeSet_append hrun hrunSet hkept.whole hrunBoth
  have hbatches : batchesAt key (history ++ [.appended key transactionalId set batches
      log.nextOffset, .acknowledged key set batches log.nextOffset]) =
      batchesAt key history ++ batches := by
    rw [batchesAt_append, batchesAt_appended]
  have hsizes := total_sized fun batch hmem => (hsequential batch hmem).size_nonneg
  have hold := total_sized fun batch hmem => (hkept.sequential batch hmem).size_nonneg
  have hplace : places log.nextOffset.toInt batches =
      places (0 + total (batchesAt key history)) batches := by
    cases batches with
    | nil => rfl
    | cons batch rest =>
        rw [hkept.counted (hunmarked (List.cons_ne_nil _ _)), Int.zero_add]
  refine ⟨?_, ?_, ?_, ?_, ?_, ?_⟩
  · show (wholeBatches (log.bytes ++ set).length (log.bytes ++ set)).flatten = _
    rw [wholeBatches_append hrun hrunSet hkept.whole, List.flatten_append, hkept.whole, hwhole]
    rfl
  · show decodedSet (log.bytes ++ set) = _
    rw [hboth, hread, hbatches]
  · rw [hbatches]
    intro batch hmem
    obtain hmem | hmem := List.mem_append.mp hmem
    · exact hkept.sequential batch hmem
    · exact hsequential batch hmem
  · have hplaced : placedAt key [.appended key transactionalId set batches log.nextOffset,
        .acknowledged key set batches log.nextOffset] = places log.nextOffset.toInt batches := by
      rw [placedAt, appendsAt_appended]
      exact List.append_nil _
    rw [placedAt_append, hkept.placed, hplaced, hplace, hbatches, places_append]
  · intro hafter
    have hnext := hkept.counted (unmarked_append.mp hafter).1
    have hcount := appendedCount_sized (fun batch hmem => (hsequential batch hmem).size_nonneg)
      (by omega)
    rw [hbatches, total_append, ← hnext, ← hcount]
    exact toInt_add_of_lt (by omega) (by omega) (by omega)
  · rw [hbatches, total_append]
    cases batches with
    | nil => exact (Int.add_zero _).symm ▸ hkept.fits
    | cons batch rest =>
        have hnext := hkept.counted (hunmarked (List.cons_ne_nil _ _))
        omega

theorem Searchable.answers (hkept : Searchable key log history) (wanted : Int64) :
    Answers (timestampSearch log wanted)
      ((timedAt key history).find? fun record => wanted.toInt ≤ record.timestamp) := by
  have hfits : (0 : Int64).toInt + total (batchesAt key history) < 2 ^ 63 := by
    have hzero : (0 : Int64).toInt = 0 := rfl
    have := hkept.fits
    omega
  unfold timestampSearch timedAt
  rw [hkept.decoded, hkept.placed]
  exact searchBatches_answers hkept.sequential (Int.le_refl 0) hfits

end Logs

section Steps

variable {s t : ClusterState} {key : Key} {more : List Event} {set : Bytes}
  {batches : List RecordBatch} {snapshot : AList fun _ : String => TxnState}
  {transactionalId : Option String}

def AllSearchable (s : ClusterState) : Prop := ∀ key, Searchable key (s.log key) s.history

/-- A step that leaves the logs alone, with events that append and mark nothing. -/
theorem AllSearchable.beside (hall : AllSearchable s) (hlogs : t.logs = s.logs)
    (hhistory : t.history = s.history ++ more) (happends : ∀ key, appendsAt key more = []) :
    AllSearchable t := by
  intro key
  have hlog : t.log key = s.log key := by
    unfold ClusterState.log
    rw [hlogs]
  rw [hlog, hhistory]
  exact (hall key).elsewhere (happends key) rfl fun _ => rfl

theorem AllSearchable.touch (hall : AllSearchable s) (key : Key) :
    AllSearchable { s with logs := s.logs.insert key (s.log key) } := by
  intro other
  rw [@log_insert s _ key _ rfl]
  split
  next hkey =>
      rw [hkey]
      exact hall key
  next => exact hall other

theorem AllSearchable.produceSet (hall : AllSearchable s) (hset : decodedSet set = some batches)
    (hcounted : Counted snapshot transactionalId s key set batches) :
    AllSearchable (s.produceSet snapshot transactionalId key set batches).1 := by
  cases hleader : leaderVerdict snapshot (s.log key) transactionalId batches with
  | error code =>
      rw [produceSet_refused hleader]
      exact hall.touch key
  | ok known =>
      cases known with
      | some known =>
          rw [produceSet_recognized hleader]
          exact (hall.touch key).beside rfl rfl fun _ => rfl
      | none =>
          obtain ⟨hwhole, hsequential, hunmarked, hfits, hdecodes⟩ := hcounted hleader
          rw [produceSet_appended hleader]
          intro other
          rw [@log_insert { s with logs := s.logs.insert key (s.log key) } _ key _ rfl]
          split
          next hkey =>
              rw [hkey]
              exact (hall key).append hset hwhole hsequential hunmarked hfits hdecodes
          next hkey =>
              have hother : appendsAt other [.appended key transactionalId set batches
                  (s.log key).nextOffset, .acknowledged key set batches
                  (s.log key).nextOffset] = [] := by
                simp [appendsAt, Ne.symm hkey]
              exact (hall.touch key other).elsewhere hother rfl fun _ => rfl

/-- A marker counts in its log, and from then on the log is marked. -/
theorem AllSearchable.endTxn (hall : AllSearchable s) (request : EndTxnRequest) :
    AllSearchable (s.endTxnExchange request).1 := by
  cases hcheck : s.txnEpochCheck request.transactionalId request.producerEpoch with
  | error code =>
      unfold ClusterState.endTxnExchange
      rw [hcheck]
      exact hall
  | ok txn =>
      intro key
      rw [endTxn_log hcheck, endTxn_history hcheck]
      refine (hall key).elsewhere rfl ?_ fun hunmarked => ?_
      · unfold PartitionLog.finish
        split <;> rfl
      · have hclosed : key ∉ s.touched txn.producerId := by
          have hmarked : (s.touched txn.producerId).contains key = false :=
            hunmarked _ List.mem_cons_self
          rwa [List.contains_eq_mem, decide_eq_false_iff_not] at hmarked
        rw [mem_touched] at hclosed
        unfold PartitionLog.finish
        split
        · rfl
        next hopen =>
            rw [hopen] at hclosed
            exact absurd rfl hclosed

theorem AllSearchable.nextBeside (hall : AllSearchable s) {action : Action}
    (hproduce : ∀ nodeId request, action ≠ .produce nodeId request)
    (hend : ∀ request, action ≠ .endTxn request) : AllSearchable (s.next action) := by
  obtain ⟨_, hlogs, hhistory, hquiet⟩ := next_beside (s := s) hproduce hend
  exact hall.beside hlogs hhistory fun _ =>
    appendsAt_quiet fun event hmem => (hquiet event hmem).1

theorem AllSearchable.next (hall : AllSearchable s) {action : Action}
    (hcounted : CountedStep s action) : AllSearchable (s.next action) := by
  cases action with
  | produce nodeId request =>
      refine Keeps.exchange ⟨fun _ key h => h.touch key, ?_⟩ hall hcounted
      exact fun _ _ _ _ h hdecoded hset => h.produceSet hdecoded hset
  | endTxn request => exact hall.endTxn request
  | initProducerId _ | addPartitionsToTxn _ | addOffsetsToTxn _ _ | txnOffsetCommit _
  | createTopics _ _ | stop _ | start _ =>
      exact hall.nextBeside nofun nofun

theorem CountedRun.searchable (hrun : CountedRun s) : AllSearchable s := by
  refine Reachable.invariant ?_ ?_ hrun
  · rintro _ ⟨ports, rfl⟩ key
    exact .empty key
  · rintro s action t hall ⟨hcounted, hnext⟩
    obtain rfl := Option.some.inj hnext
    exact hall.next hcounted

end Steps

section Answers

variable {s : ClusterState} {key : Key} {log : PartitionLog} {history : List Event}

theorem Numbered.le {records : List Record} {number : Int} (h : Numbered number records) :
    ∀ record ∈ records, number ≤ record.offsetDelta.toInt := by
  induction records generalizing number with
  | nil => exact fun record hmem => absurd hmem List.not_mem_nil
  | cons record records ih =>
      intro other hmem
      obtain rfl | hmem := List.mem_cons.mp hmem
      · exact Int.le_of_eq h.1.symm
      · have hle := ih h.2 other hmem
        omega

theorem places_recordsOf_nonneg {batches : List RecordBatch} {start : Int} (hstart : 0 ≤ start)
    (hsequential : ∀ batch ∈ batches, Sequential batch) :
    ∀ record ∈ (places start batches).flatMap fun place => recordsOf place.1 place.2,
      0 ≤ record.offset := by
  induction batches generalizing start with
  | nil => exact fun record hmem => absurd hmem List.not_mem_nil
  | cons batch batches ih =>
      intro record hmem
      have hbatch := hsequential batch List.mem_cons_self
      have hsize := hbatch.size_nonneg
      rw [places, List.flatMap_cons] at hmem
      obtain hmem | hmem := List.mem_append.mp hmem
      · obtain ⟨records, hplain, hnumbered, _, _⟩ := hbatch.plain
        rw [recordsOf, hplain] at hmem
        obtain ⟨original, horiginal, rfl⟩ := List.mem_map.mp hmem
        exact Int.add_nonneg hstart (hnumbered.le original horiginal)
      · exact ih (by omega) (fun other hother => hsequential other (List.mem_cons_of_mem _ hother))
          record hmem

theorem Searchable.offset_nonneg (hkept : Searchable key log history) :
    ∀ record ∈ timedAt key history, 0 ≤ record.offset := by
  unfold timedAt
  rw [hkept.placed]
  exact places_recordsOf_nonneg (Int.le_refl 0) hkept.sequential

/-- Any timestamp but the two reserved ones is searched for. -/
theorem listOffsetsPartition_searches {topic : String} {p : ListOffsetsPartition}
    (hearliest : p.timestamp ≠ earliestTimestamp) (hlatest : p.timestamp ≠ latestTimestamp) :
    ((s.listOffsetsPartition topic p).timestamp, (s.listOffsetsPartition topic p).offset) =
      timestampSearch (s.log (topic, p.partitionIndex)) p.timestamp := by
  unfold ClusterState.listOffsetsPartition ClusterState.log
  simp only [if_neg hearliest, if_neg hlatest]
  cases s.logs.lookup (topic, p.partitionIndex) with
  | none => rfl
  | some log => rfl

/-- A search of a searchable log finds the first record there is. -/
theorem AllSearchable.looksUp (hall : AllSearchable s) : s.LooksUp := by
  have hanswers : ∀ topic (p : ListOffsetsPartition),
      p.timestamp ≠ earliestTimestamp → p.timestamp ≠ latestTimestamp →
        Answers ((s.listOffsetsPartition topic p).timestamp,
            (s.listOffsetsPartition topic p).offset)
          ((timedAt (topic, p.partitionIndex) s.history).find?
            fun record => p.timestamp.toInt ≤ record.timestamp) := by
    intro topic p hearliest hlatest
    rw [listOffsetsPartition_searches hearliest hlatest]
    exact (hall _).answers p.timestamp
  constructor
  case found =>
      intro topic p hearliest hlatest record hfind
      have hanswer := hanswers topic p hearliest hlatest
      rw [hfind] at hanswer
      exact hanswer
  case missing =>
      intro topic p hearliest hlatest
      have hanswer := hanswers topic p hearliest hlatest
      cases hfind : (timedAt (topic, p.partitionIndex) s.history).find?
          fun record => p.timestamp.toInt ≤ record.timestamp with
      | none =>
          rw [hfind] at hanswer
          refine iff_of_true (Prod.mk.inj hanswer).2 fun record hmem => ?_
          have hbefore := List.find?_eq_none.mp hfind record hmem
          exact Int.not_le.mp (of_decide_eq_false (Bool.eq_false_iff.mpr hbefore))
      | some record =>
          rw [hfind] at hanswer
          have hmem := List.mem_of_find?_eq_some hfind
          have hreached : p.timestamp.toInt ≤ record.timestamp := by
            simpa using List.find?_some hfind
          have hnonneg := (hall _).offset_nonneg record hmem
          refine iff_of_false (fun hoffset => ?_) fun hbefore => ?_
          · have hminus : (s.listOffsetsPartition topic p).offset.toInt = -1 := by
              rw [hoffset]
              rfl
            rw [hanswer.1] at hminus
            omega
          · have := hbefore record hmem
            omega

/-- In every run whose sets are counted as they were acknowledged, a timestamp is
answered with the first record at or after it. -/
theorem timestamp_lookup_first (hrun : CountedRun s) : s.LooksUp := hrun.searchable.looksUp

end Answers

section Samples

def committedTransaction : List Action :=
  [.initProducerId (some "x"), transactionalProduce (stampedBatch 0),
    .endTxn { transactionalId := "x", producerEpoch := 0, committed := true }]

def laterRecord : RecordBatch := { bareRecord with baseTimestamp := 10, maxTimestamp := 10 }

def laterProduce : Action :=
  let partition := { index := 0, records := some laterRecord.bytes }
  .produce 3 { transactionalId := none
               acks := -1
               topicData := [{ name := "t", topicId := [], partitionData := [partition] }] }

/-- Two records of different times, and a transaction that is aborted after a third. -/
def abortedBehind : List Action :=
  [stampedProduce 0, laterProduce, .initProducerId (some "x"),
    transactionalProduce
      { laterRecord with producerId := 1, producerEpoch := 0, baseSequence := 1 },
    .endTxn { transactionalId := "x", producerEpoch := 0, committed := false }]

def afterMarker : ClusterState :=
  (committedTransaction ++ [laterProduce]).foldl ClusterState.next sampleStart

end Samples

theorem timestamp_lookup_first_aborted :
    ∃ s, CountedRun s ∧ timedAt ("t", 0) s.history = [{ offset := 0, timestamp := 0 },
      { offset := 1, timestamp := 10 }, { offset := 2, timestamp := 10 }] ∧
        (s.log ("t", 0)).aborted = [(1, 2)] ∧ s.LooksUp := by
  have hdone : (runActions CountedStep (fun s action => some (s.next action)) sampleStart
      abortedBehind).any (fun s =>
        timedAt ("t", 0) s.history = [{ offset := 0, timestamp := 0 },
          { offset := 1, timestamp := 10 }, { offset := 2, timestamp := 10 }] &&
            (s.log ("t", 0)).aborted = [(1, 2)]) = true := by
    decide +kernel
  obtain ⟨s, hrun, hlog⟩ := (Option.any_eq_true _ _).mp hdone
  simp only [Bool.and_eq_true, decide_eq_true_eq] at hlog
  have hcounted : CountedRun s := .of_run _ (.start ⟨_, rfl⟩) hrun
  exact ⟨s, hcounted, hlog.1, hlog.2, timestamp_lookup_first hcounted⟩

/-- The record behind the marker was given offset 2 and is answered with offset 1. -/
theorem marker_uncounted : ∃ s, BrokerRun s ∧ ¬ s.LooksUp := by
  refine ⟨afterMarker, .all (.start ⟨_, rfl⟩) _, fun hlooks => ?_⟩
  have hfind : (timedAt ("t", 0) afterMarker.history).find?
      (fun record => (5 : Int64).toInt ≤ record.timestamp) =
        some { offset := 2, timestamp := 10 } := by
    decide +kernel
  have hfound := hlooks.found "t" { partitionIndex := 0, timestamp := 5 } (by decide) (by decide)
    _ hfind
  have hanswer : (afterMarker.listOffsetsPartition "t"
      { partitionIndex := 0, timestamp := 5 }).offset = 1 := by
    decide +kernel
  rw [hanswer] at hfound
  exact absurd hfound.1 (by decide)

end Odradek.Acceptance.Subject
