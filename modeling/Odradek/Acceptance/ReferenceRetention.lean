import Mathlib.Algebra.Group.Int.Defs
import Odradek.Acceptance.ReferenceSubject
import Odradek.Library.Journal
import Odradek.Library.Reachable
import Odradek.Protocol.Reencoding

/-!
What the reference broker acknowledges it keeps, once: in every run whose sets
are sound where they reach a log, an acknowledged set is in the log's bytes at
the offset it was answered with, the offset ranges of batches increase, and no
stamp is appended twice. What makes a set unsound is what the broker's own
record of a producer's last batch does not say.
-/

namespace Odradek.Acceptance.Subject

open Library Odradek.Protocol

section History

/-- What an exchange put in a log: a batch, or the marker of a transaction. -/
inductive Slot
  | batch (batch : RecordBatch)
  | marker

def batchSize (batch : RecordBatch) : Int := batch.lastOffsetDelta.toInt + 1

def Slot.size : Slot → Int
  | .batch b => batchSize b
  | .marker => 1

def Event.slots (key : Key) : Event → List Slot
  | .appended other _ _ batches _ => if other = key then batches.map .batch else []
  | .ended _ _ _ marked => if marked.any fun other => other = key then [.marker] else []
  | _ => []

def slotsAt (key : Key) (history : List Event) : List Slot := history.flatMap (Event.slots key)

def span : List Slot → Int
  | [] => 0
  | slot :: slots => slot.size + span slots

/-- The offsets of batches that follow one another, each with one past its end. -/
def ranges : Int → List RecordBatch → List (Int × Int)
  | _, [] => []
  | start, batch :: batches =>
    (start, start + batchSize batch) :: ranges (start + batchSize batch) batches

def appendsAt (key : Key) (history : List Event) : List (Bytes × List RecordBatch × Int64) :=
  history.filterMap fun
    | .appended other _ set batches base => if other = key then some (set, batches, base) else none
    | _ => none

def batchesAt (key : Key) (history : List Event) : List RecordBatch :=
  (appendsAt key history).flatMap (·.2.1)

def rangesAt (key : Key) (history : List Event) : List (Int × Int) :=
  (appendsAt key history).flatMap fun append => ranges append.2.2.toInt append.2.1

def stamps (batches : List RecordBatch) : List (Int64 × Int16 × Int32) :=
  (batches.filter stamped).map fun batch =>
    (batch.producerId, batch.producerEpoch, batch.baseSequence)

/-- The bytes are exactly those of the batches. -/
def Whole (set : Bytes) (batches : List RecordBatch) : Prop :=
  ∃ frames, set = frames.flatten ∧ List.Forall₂ FrameOf batches frames

end History

section Condition

variable (P : ClusterState → Key → Bytes → List RecordBatch → Prop)
  (snapshot : AList fun _ : String => TxnState) (transactionalId : Option String) (nodeId : Int32)

def OnPartition (resolved : Option String) (s : ClusterState) (partition : PartitionProduceData) :
    Prop :=
  ∀ name ∈ resolved, s.placement name = nodeId →
    ∀ batches ∈ decodedSet (partition.records.getD []),
      P s (name, partition.index) (partition.records.getD []) batches

def OnPartitions (resolved : Option String) : ClusterState → List PartitionProduceData → Prop
  | _, [] => True
  | s, partition :: partitions =>
    let produced := s.producePartition snapshot transactionalId nodeId resolved partition
    OnPartition P nodeId resolved s partition ∧
      (produced.2.isSome = true → OnPartitions resolved produced.1 partitions)

def OnTopics : ClusterState → List TopicProduceData → Prop
  | _, [] => True
  | s, topic :: topics =>
    let resolved := s.resolveTopic topic.name topic.topicId
    let produced := ClusterState.producePartitions snapshot transactionalId nodeId resolved s
      topic.partitionData
    OnPartitions P snapshot transactionalId nodeId resolved s topic.partitionData ∧
      (produced.2.isSome = true → OnTopics produced.1 topics)

variable [∀ s key set batches, Decidable (P s key set batches)]

instance (resolved : Option String) (s : ClusterState) (partition : PartitionProduceData) :
    Decidable (OnPartition P nodeId resolved s partition) :=
  inferInstanceAs (Decidable (∀ name ∈ resolved, s.placement name = nodeId →
    ∀ batches ∈ decodedSet (partition.records.getD []), P s _ _ batches))

instance onPartitionsDecidable (resolved : Option String) : ∀ s partitions,
    Decidable (OnPartitions P snapshot transactionalId nodeId resolved s partitions)
  | _, [] => isTrue trivial
  | s, partition :: partitions =>
    have := onPartitionsDecidable resolved
      (s.producePartition snapshot transactionalId nodeId resolved partition).1 partitions
    inferInstanceAs (Decidable (_ ∧ (_ → _)))

instance onTopicsDecidable : ∀ s topics,
    Decidable (OnTopics P snapshot transactionalId nodeId s topics)
  | _, [] => isTrue trivial
  | s, topic :: topics =>
    have := onTopicsDecidable (ClusterState.producePartitions snapshot transactionalId nodeId
      (s.resolveTopic topic.name topic.topicId) s topic.partitionData).1 topics
    inferInstanceAs (Decidable (_ ∧ (_ → _)))

end Condition

section Produces

variable {P : ClusterState → Key → Bytes → List RecordBatch → Prop}
  {snapshot : AList fun _ : String => TxnState} {transactionalId : Option String} {nodeId : Int32}
  {I : ClusterState → Prop}

/-- A rule for produces: what every set that reaches a log preserves. -/
structure Keeps (P : ClusterState → Key → Bytes → List RecordBatch → Prop)
    (snapshot : AList fun _ : String => TxnState) (transactionalId : Option String)
    (I : ClusterState → Prop) : Prop where
  touch : ∀ s key, I s → I { s with logs := s.logs.insert key (s.log key) }
  set : ∀ s key set batches, I s → decodedSet set = some batches → P s key set batches →
    I (s.produceSet snapshot transactionalId key set batches).1

theorem Keeps.partition (hkeeps : Keeps P snapshot transactionalId I) {s : ClusterState}
    {resolved : Option String} {partition : PartitionProduceData} (hs : I s)
    (hon : OnPartition P nodeId resolved s partition) :
    I (s.producePartition snapshot transactionalId nodeId resolved partition).1 := by
  unfold ClusterState.producePartition
  cases resolved with
  | none => exact hs
  | some name =>
      simp only
      split
      next => exact hs
      next hleader =>
          have hdecoded := hon name rfl (not_not.mp hleader)
          cases hset : decodedSet (partition.records.getD []) with
          | none => exact hkeeps.touch s _ hs
          | some batches => exact hkeeps.set s _ _ batches hs hset (hdecoded batches hset)

theorem Keeps.partitions (hkeeps : Keeps P snapshot transactionalId I) {resolved : Option String}
    (partitions : List PartitionProduceData) (s : ClusterState) (hs : I s)
    (hon : OnPartitions P snapshot transactionalId nodeId resolved s partitions) :
    I (ClusterState.producePartitions snapshot transactionalId nodeId resolved s partitions).1 := by
  induction partitions generalizing s with
  | nil => exact hs
  | cons partition partitions ih =>
      obtain ⟨honFirst, honRest⟩ := hon
      have hfirst := hkeeps.partition hs honFirst
      unfold ClusterState.producePartitions
      cases hrun : s.producePartition snapshot transactionalId nodeId resolved partition with
      | mk t response =>
          rw [hrun] at hfirst honRest
          cases response with
          | none => exact hfirst
          | some response => exact ih t hfirst (honRest rfl)

theorem Keeps.topics (hkeeps : Keeps P snapshot transactionalId I) (topics : List TopicProduceData)
    (s : ClusterState) (hs : I s) (hon : OnTopics P snapshot transactionalId nodeId s topics) :
    I (ClusterState.produceTopics snapshot transactionalId nodeId s topics).1 := by
  induction topics generalizing s with
  | nil => exact hs
  | cons topic topics ih =>
      obtain ⟨honFirst, honRest⟩ := hon
      have hfirst := hkeeps.partitions topic.partitionData s hs honFirst
      unfold ClusterState.produceTopics
      cases hrun : ClusterState.producePartitions snapshot transactionalId nodeId
          (s.resolveTopic topic.name topic.topicId) s topic.partitionData with
      | mk t responses =>
          rw [hrun] at hfirst honRest
          cases responses with
          | none => exact hfirst
          | some responses => exact ih t hfirst (honRest rfl)

theorem Keeps.exchange {s : ClusterState} {request : ProduceRequest}
    (hkeeps : Keeps P s.txns request.transactionalId I) (hs : I s)
    (hon : OnTopics P s.txns request.transactionalId nodeId s request.topicData) :
    I (s.produceExchange nodeId request).1 := by
  have hall := hkeeps.topics request.topicData s hs hon
  unfold ClusterState.produceExchange
  cases hrun : ClusterState.produceTopics s.txns request.transactionalId nodeId s
      request.topicData with
  | mk t responses =>
      rw [hrun] at hall
      cases responses with
      | none => exact hall
      | some responses => exact hall

end Produces

section Views

variable {key : Key} {history more : List Event}

@[simp] theorem slotsAt_append :
    slotsAt key (history ++ more) = slotsAt key history ++ slotsAt key more :=
  List.flatMap_append

@[simp] theorem appendsAt_append :
    appendsAt key (history ++ more) = appendsAt key history ++ appendsAt key more :=
  List.filterMap_append

@[simp] theorem batchesAt_append :
    batchesAt key (history ++ more) = batchesAt key history ++ batchesAt key more := by
  unfold batchesAt
  rw [appendsAt_append, List.flatMap_append]

@[simp] theorem rangesAt_append :
    rangesAt key (history ++ more) = rangesAt key history ++ rangesAt key more := by
  unfold rangesAt
  rw [appendsAt_append, List.flatMap_append]

@[simp] theorem span_append (slots others : List Slot) :
    span (slots ++ others) = span slots + span others := by
  induction slots with
  | nil => exact (Int.zero_add _).symm
  | cons slot slots ih =>
      rw [List.cons_append, span, ih, span]
      exact (Int.add_assoc _ _ _).symm

@[simp] theorem stamps_append (batches others : List RecordBatch) :
    stamps (batches ++ others) = stamps batches ++ stamps others := by
  unfold stamps
  rw [List.filter_append, List.map_append]

end Views

section Offsets

/-- The offsets a set takes up, uncut. -/
def total (batches : List RecordBatch) : Int := span (batches.map .batch)

theorem batchSize_pos {batch : RecordBatch} (hdelta : 0 ≤ batch.lastOffsetDelta.toInt) :
    0 < batchSize batch := by
  unfold batchSize
  omega

theorem total_sized {batches : List RecordBatch} (hsizes : ∀ batch ∈ batches, 0 ≤ batchSize batch) :
    0 ≤ total batches := by
  induction batches with
  | nil => exact Int.le_refl 0
  | cons batch batches ih =>
      have hfirst := hsizes batch List.mem_cons_self
      have hrest := ih fun other hmem => hsizes other (List.mem_cons_of_mem _ hmem)
      exact Int.add_nonneg hfirst hrest

theorem total_nonneg {batches : List RecordBatch}
    (hdeltas : ∀ batch ∈ batches, 0 ≤ batch.lastOffsetDelta.toInt) : 0 ≤ total batches :=
  total_sized fun batch hmem => Int.le_of_lt (batchSize_pos (hdeltas batch hmem))

theorem toInt_add_of_lt {a b : Int64} (ha : 0 ≤ a.toInt) (hb : 0 ≤ b.toInt)
    (h : a.toInt + b.toInt < 2 ^ 63) : (a + b).toInt = a.toInt + b.toInt := by
  rw [Int64.toInt_add]
  exact Int.bmod_eq_of_le (by omega) (by omega)

theorem batchSize_toInt (batch : RecordBatch) :
    (batch.lastOffsetDelta.toInt64 + 1).toInt = batchSize batch := by
  have hmin := batch.lastOffsetDelta.le_toInt
  have hmax := batch.lastOffsetDelta.toInt_lt
  have hone : (1 : Int64).toInt = 1 := rfl
  rw [Int64.toInt_add, Int32.toInt_toInt64, hone]
  exact Int.bmod_eq_of_le (by omega) (by omega)

/-- Without an overflow the sum of the source is the sum. -/
theorem appendedCount_sized {batches : List RecordBatch}
    (hsizes : ∀ batch ∈ batches, 0 ≤ batchSize batch)
    (hfits : total batches < 2 ^ 63) : (appendedCount batches).toInt = total batches := by
  have hfold : ∀ count : Int64, 0 ≤ count.toInt → count.toInt + total batches < 2 ^ 63 →
      (batches.foldl (fun count batch => count + (batch.lastOffsetDelta.toInt64 + 1)) count).toInt
        = count.toInt + total batches := by
    induction batches with
    | nil => exact fun count _ _ => (Int.add_zero _).symm
    | cons batch batches ih =>
        intro count hcount hsum
        have hpos := hsizes batch List.mem_cons_self
        have hothers := fun other hmem => hsizes other (List.mem_cons_of_mem batch hmem)
        have hrest := total_sized hothers
        have hsize := batchSize_toInt batch
        have htotal : total (batch :: batches) = batchSize batch + total batches := rfl
        have hstep := toInt_add_of_lt hcount (by rw [hsize]; exact hpos) (by rw [hsize]; omega)
        rw [List.foldl_cons, ih hothers (by omega) _ (by omega) (by omega), hstep, hsize, htotal]
        omega
  have hzero := hfold 0 (by decide) (by simpa using hfits)
  rw [appendedCount, hzero]
  exact Int.zero_add _

theorem appendedCount_toInt {batches : List RecordBatch}
    (hdeltas : ∀ batch ∈ batches, 0 ≤ batch.lastOffsetDelta.toInt)
    (hfits : total batches < 2 ^ 63) : (appendedCount batches).toInt = total batches :=
  appendedCount_sized (fun batch hmem => Int.le_of_lt (batchSize_pos (hdeltas batch hmem))) hfits

theorem ranges_within {batches : List RecordBatch}
    (hdeltas : ∀ batch ∈ batches, 0 ≤ batch.lastOffsetDelta.toInt) (start : Int) :
    ∀ range ∈ ranges start batches,
      start ≤ range.1 ∧ range.1 < range.2 ∧ range.2 ≤ start + total batches := by
  induction batches generalizing start with
  | nil => exact fun range hmem => (by cases hmem)
  | cons batch batches ih =>
      have hfirst := hdeltas batch List.mem_cons_self
      have hothers := fun other hmem => hdeltas other (List.mem_cons_of_mem batch hmem)
      have hrest := total_nonneg hothers
      have htotal : total (batch :: batches) = batchSize batch + total batches := rfl
      intro range hmem
      rcases List.mem_cons.mp hmem with rfl | hmem
      · simp only [batchSize] at htotal ⊢
        omega
      · have hwithin := ih hothers _ range hmem
        simp only [batchSize] at htotal hwithin
        omega

theorem ranges_pairwise {batches : List RecordBatch}
    (hdeltas : ∀ batch ∈ batches, 0 ≤ batch.lastOffsetDelta.toInt) (start : Int) :
    (ranges start batches).Pairwise fun first second => first.2 ≤ second.1 := by
  induction batches generalizing start with
  | nil => exact .nil
  | cons batch batches ih =>
      have hothers := fun other hmem => hdeltas other (List.mem_cons_of_mem batch hmem)
      exact .cons (fun range hmem => (ranges_within hothers _ range hmem).1) (ih hothers _)

end Offsets

section Logs

variable {key : Key} {log : PartitionLog} {history more : List Event}

/-- The batch whose stamp the leader looks at. -/
def leading (batches : List RecordBatch) : Option RecordBatch := batches.head?.filter stamped

/-- The leading stamps of two sets are not of one producer and sequence. -/
def StampsApart (one other : Bytes × List RecordBatch × Int64) : Prop :=
  ∀ first ∈ leading one.2.1, ∀ second ∈ leading other.2.1,
    first.producerId = second.producerId → first.baseSequence ≠ second.baseSequence

instance : Std.Symm StampsApart where
  symm _ _ hapart first hfirst second hsecond hid hsequence :=
    hapart second hsecond first hfirst hid.symm hsequence.symm

/-- What one log knows of the appends in its history. -/
structure LogKept (key : Key) (log : PartitionLog) (history : List Event) : Prop where
  bytes : log.bytes = ((appendsAt key history).map (·.1)).flatten
  offset : log.nextOffset.toInt = span (slotsAt key history)
  nonneg : 0 ≤ log.nextOffset.toInt
  within : ∀ range ∈ rangesAt key history, range.1 < range.2 ∧ range.2 ≤ log.nextOffset.toInt
  ordered : (rangesAt key history).Pairwise fun first second => first.2 ≤ second.1
  last : ∀ batch ∈ batchesAt key history, stamped batch = true →
    ∃ known, log.lastBatch.lookup batch.producerId = some known ∧
      batch.baseSequence.toInt ≤ known.baseSequence.toInt
  forward : ∀ producerId known, log.lastBatch.lookup producerId = some known →
    known.nextSequence.toInt < 0 ∨ known.baseSequence.toInt < known.nextSequence.toInt
  once : (stamps (batchesAt key history)).Nodup
  marked : ∀ producerId known, log.lastBatch.lookup producerId = some known →
    ∃ append ∈ appendsAt key history, append.2.2 = known.baseOffset ∧
      ∃ first ∈ leading append.2.1,
        first.producerId = producerId ∧ first.baseSequence = known.baseSequence
  apart : (appendsAt key history).Pairwise StampsApart

theorem LogKept.empty (key : Key) : LogKept key .empty [] where
  bytes := rfl
  offset := rfl
  nonneg := Int.le_refl 0
  within := fun _ hmem => (by cases hmem)
  ordered := .nil
  last := fun _ hmem => (by cases hmem)
  forward := fun _ _ hknown => (by cases hknown)
  once := .nil
  marked := fun _ _ hknown => (by cases hknown)
  apart := .nil

theorem batchesAt_of_none (happends : appendsAt key more = []) : batchesAt key more = [] := by
  unfold batchesAt
  rw [happends]
  rfl

theorem rangesAt_of_none (happends : appendsAt key more = []) : rangesAt key more = [] := by
  unfold rangesAt
  rw [happends]
  rfl

/-- Events elsewhere change nothing here. -/
theorem LogKept.elsewhere (hkept : LogKept key log history) (happends : appendsAt key more = [])
    (hslots : slotsAt key more = []) : LogKept key log (history ++ more) where
  bytes := by
    rw [appendsAt_append, happends, List.append_nil]
    exact hkept.bytes
  offset := by
    rw [slotsAt_append, hslots, List.append_nil]
    exact hkept.offset
  nonneg := hkept.nonneg
  within := by
    rw [rangesAt_append, rangesAt_of_none happends, List.append_nil]
    exact hkept.within
  ordered := by
    rw [rangesAt_append, rangesAt_of_none happends, List.append_nil]
    exact hkept.ordered
  last := by
    rw [batchesAt_append, batchesAt_of_none happends, List.append_nil]
    exact hkept.last
  forward := hkept.forward
  once := by
    rw [batchesAt_append, batchesAt_of_none happends, List.append_nil]
    exact hkept.once
  marked := by
    rw [appendsAt_append, happends, List.append_nil]
    exact hkept.marked
  apart := by
    rw [appendsAt_append, happends, List.append_nil]
    exact hkept.apart

/-- A marker takes one offset. -/
theorem LogKept.finish (hkept : LogKept key log history) {producerId firstOffset : Int64}
    {committed : Bool} (hopen : log.opened.lookup producerId = some firstOffset)
    (hfits : log.nextOffset.toInt + 1 < 2 ^ 63) (happends : appendsAt key more = [])
    (hslots : slotsAt key more = [.marker]) :
    LogKept key (log.finish producerId committed) (history ++ more) := by
  have hnext : (log.nextOffset + 1).toInt = log.nextOffset.toInt + 1 :=
    toInt_add_of_lt hkept.nonneg (by decide) hfits
  have hnonneg := hkept.nonneg
  unfold PartitionLog.finish
  rw [hopen]
  constructor
  case bytes =>
      rw [appendsAt_append, happends, List.append_nil]
      exact hkept.bytes
  case offset =>
      rw [slotsAt_append, hslots, span_append, ← hkept.offset]
      exact hnext
  case nonneg =>
      simp only
      omega
  case within =>
      rw [rangesAt_append, rangesAt_of_none happends, List.append_nil]
      intro range hmem
      have hwithin := hkept.within range hmem
      simp only
      omega
  case ordered =>
      rw [rangesAt_append, rangesAt_of_none happends, List.append_nil]
      exact hkept.ordered
  case last =>
      rw [batchesAt_append, batchesAt_of_none happends, List.append_nil]
      exact hkept.last
  case forward => exact hkept.forward
  case once =>
      rw [batchesAt_append, batchesAt_of_none happends, List.append_nil]
      exact hkept.once
  case marked =>
      rw [appendsAt_append, happends, List.append_nil]
      exact hkept.marked
  case apart =>
      rw [appendsAt_append, happends, List.append_nil]
      exact hkept.apart

theorem saturated_pos {count : Int64} (h : 0 < count.toInt) : 0 < (saturated count).toInt := by
  unfold saturated
  split
  next hfits =>
      have hmin : Int32.minValue.toInt = -2147483648 := rfl
      have hmax : Int32.maxValue.toInt = 2147483647 := rfl
      rw [Int64.toInt_toInt32, Int.bmod_eq_of_le (by omega) (by omega)]
      exact h
  next => decide

/-- The sequence after a batch is ahead of it, or has wrapped below zero. -/
theorem toInt_add_forward {base count : Int32} (hbase : 0 ≤ base.toInt) (hcount : 0 < count.toInt) :
    (base + count).toInt < 0 ∨ base.toInt < (base + count).toInt := by
  have hbaseMax := base.toInt_lt
  have hcountMax := count.toInt_lt
  rw [Int32.toInt_add]
  by_cases hfits : base.toInt + count.toInt < 2 ^ 31
  · rw [Int.bmod_eq_of_le (by omega) (by omega)]
    omega
  · have hwrap : (base.toInt + count.toInt).bmod (2 ^ 32) = base.toInt + count.toInt - 2 ^ 32 := by
      rw [← Int.sub_bmod_right]
      exact Int.bmod_eq_of_le (by omega) (by omega)
    rw [hwrap]
    omega

/-- A stamp that is neither refused nor recognized is the next one of its producer. -/
theorem stamped_next {batch : RecordBatch} (hstamped : stamped batch = true)
    (hverdict : stampedVerdict log (some batch) = none)
    (hfresh : duplicateOf log (some batch) = none) {known : LastBatch}
    (hknown : log.lastBatch.lookup batch.producerId = some known) :
    batch.baseSequence = known.nextSequence := by
  simp only [stampedVerdict, bind, Option.bind, hstamped, if_true, hknown] at hverdict
  simp only [duplicateOf, bind, Option.bind, hstamped, if_true, hknown] at hfresh
  by_cases hrepeat : batch.baseSequence = known.baseSequence
  · rw [if_pos hrepeat] at hfresh
    cases hfresh
  · by_cases hnext : batch.baseSequence = known.nextSequence
    · exact hnext
    · rw [if_neg (not_or.mpr ⟨hrepeat, hnext⟩)] at hverdict
      cases hverdict

theorem LogKept.ahead (hkept : LogKept key log history) {first : RecordBatch}
    (hstamped : stamped first = true) (hverdict : stampedVerdict log (some first) = none)
    (hfresh : duplicateOf log (some first) = none) :
    ∀ batch ∈ batchesAt key history, stamped batch = true → batch.producerId = first.producerId →
      batch.baseSequence.toInt < first.baseSequence.toInt := by
  intro batch hmem hbatch hid
  obtain ⟨known, hknown, hle⟩ := hkept.last batch hmem hbatch
  rw [hid] at hknown
  have hnext := stamped_next hstamped hverdict hfresh hknown
  have hforward := hkept.forward first.producerId known hknown
  simp only [stamped, Bool.and_eq_true, decide_eq_true_eq] at hstamped
  have hnonneg : 0 ≤ first.baseSequence.toInt := Int32.le_iff_toInt_le.mp hstamped.2
  rw [hnext] at hnonneg ⊢
  omega

/-- The record of a producer's last batch, after an append. -/
def lastBatchAfter (log : PartitionLog) (batches : List RecordBatch) :
    AList fun _ : Int64 => LastBatch :=
  (log.append false [] batches).lastBatch

theorem stamps_unstamped {batches : List RecordBatch}
    (hplain : ∀ batch ∈ batches, stamped batch = false) : stamps batches = [] := by
  unfold stamps
  rw [List.filter_eq_nil_iff.mpr fun batch hmem => Bool.eq_false_iff.mp (hplain batch hmem)]
  rfl

/-- After an append the record knows a sequence no lower than the batch's. -/
theorem LogKept.append_last (hkept : LogKept key log history) {batches : List RecordBatch}
    (hsole : ∀ batch ∈ batches.tail, stamped batch = false)
    (hverdict : stampedVerdict log batches.head? = none)
    (hfresh : duplicateOf log batches.head? = none) :
    ∀ batch ∈ batchesAt key history ++ batches, stamped batch = true →
      ∃ known, (lastBatchAfter log batches).lookup batch.producerId = some known ∧
        batch.baseSequence.toInt ≤ known.baseSequence.toInt := by
  intro batch hmem hbatch
  unfold lastBatchAfter PartitionLog.append
  cases batches with
  | nil =>
      rw [List.append_nil] at hmem
      exact hkept.last batch hmem hbatch
  | cons first rest =>
      have hrest : batch ∉ rest := fun hin => by
        rw [hsole batch hin] at hbatch
        cases hbatch
      simp only [List.head?_cons]
      cases hstamped : stamped first with
      | true =>
          rw [if_pos rfl]
          by_cases hid : batch.producerId = first.producerId
          · rw [hid, AList.lookup_insert]
            refine ⟨_, rfl, ?_⟩
            rcases List.mem_append.mp hmem with hold | hnew
            · exact Int.le_of_lt (hkept.ahead hstamped hverdict hfresh batch hold hbatch hid)
            · rcases List.mem_cons.mp hnew with rfl | hin
              · exact Int.le_refl _
              · exact absurd hin hrest
          · rw [AList.lookup_insert_ne hid]
            rcases List.mem_append.mp hmem with hold | hnew
            · exact hkept.last batch hold hbatch
            · rcases List.mem_cons.mp hnew with rfl | hin
              · exact absurd rfl hid
              · exact absurd hin hrest
      | false =>
          rw [if_neg Bool.false_ne_true]
          rcases List.mem_append.mp hmem with hold | hnew
          · exact hkept.last batch hold hbatch
          · rcases List.mem_cons.mp hnew with rfl | hin
            · rw [hbatch] at hstamped
              cases hstamped
            · exact absurd hin hrest

/-- The next sequence a record expects lies ahead, but for the wrap. -/
theorem LogKept.append_forward (hkept : LogKept key log history) {batches : List RecordBatch}
    (hpos : batches ≠ [] → 0 < total batches)
    (hcount : (appendedCount batches).toInt = total batches) :
    ∀ producerId known, (lastBatchAfter log batches).lookup producerId = some known →
      known.nextSequence.toInt < 0 ∨ known.baseSequence.toInt < known.nextSequence.toInt := by
  intro producerId known hknown
  unfold lastBatchAfter PartitionLog.append at hknown
  cases batches with
  | nil => exact hkept.forward producerId known hknown
  | cons first rest =>
      simp only [List.head?_cons] at hknown
      cases hstamped : stamped first with
      | true =>
          rw [hstamped, if_pos rfl] at hknown
          rcases lookup_insert_cases hknown with ⟨_, rfl⟩ | ⟨_, hold⟩
          · simp only [stamped, Bool.and_eq_true, decide_eq_true_eq] at hstamped
            have hlt := hpos (List.cons_ne_nil _ _)
            exact toInt_add_forward (Int32.le_iff_toInt_le.mp hstamped.2)
              (saturated_pos (by rw [hcount]; exact hlt))
          · exact hkept.forward producerId known hold
      | false =>
          rw [hstamped, if_neg Bool.false_ne_true] at hknown
          exact hkept.forward producerId known hknown

/-- A set that is no repeat brings no stamp the log has already. -/
theorem LogKept.append_once (hkept : LogKept key log history) {batches : List RecordBatch}
    (hsole : ∀ batch ∈ batches.tail, stamped batch = false)
    (hverdict : stampedVerdict log batches.head? = none)
    (hfresh : duplicateOf log batches.head? = none) :
    (stamps (batchesAt key history) ++ stamps batches).Nodup := by
  cases batches with
  | nil => simpa [stamps] using hkept.once
  | cons first rest =>
      have hcons : stamps (first :: rest) = stamps [first] ++ stamps rest :=
        stamps_append [first] rest
      rw [hcons, @stamps_unstamped rest hsole, List.append_nil]
      cases hstamped : stamped first with
      | true =>
          have hfirst : stamps [first] =
              [(first.producerId, first.producerEpoch, first.baseSequence)] := by
            simp [stamps, hstamped]
          rw [hfirst, List.nodup_append]
          refine ⟨hkept.once, List.nodup_singleton _, ?_⟩
          intro stamp hold other hother heq
          rw [List.mem_singleton] at hother
          rw [heq, hother] at hold
          obtain ⟨batch, hmem, hstamp⟩ := List.mem_map.mp hold
          obtain ⟨hin, hbatch⟩ := List.mem_filter.mp hmem
          simp only [Prod.mk.injEq] at hstamp
          have hlt := hkept.ahead hstamped hverdict hfresh batch hin hbatch hstamp.1
          rw [hstamp.2.2] at hlt
          exact absurd hlt (Int.lt_irrefl _)
      | false =>
          rw [@stamps_unstamped [first] (by simpa using hstamped), List.append_nil]
          exact hkept.once

theorem mem_leading {batches : List RecordBatch} {first : RecordBatch}
    (h : first ∈ leading batches) : first ∈ batches ∧ stamped first = true :=
  ⟨List.mem_of_mem_head? (Option.mem_filter_iff.mp h).1, (Option.mem_filter_iff.mp h).2⟩

/-- The record of a last batch is of a set in the log, at the offset it got. -/
theorem LogKept.append_marked (hkept : LogKept key log history) (set : Bytes)
    (batches : List RecordBatch) :
    ∀ producerId known, (lastBatchAfter log batches).lookup producerId = some known →
      ∃ append ∈ appendsAt key history ++ [(set, batches, log.nextOffset)],
        append.2.2 = known.baseOffset ∧ ∃ first ∈ leading append.2.1,
          first.producerId = producerId ∧ first.baseSequence = known.baseSequence := by
  intro producerId known hknown
  have hearlier (hold : log.lastBatch.lookup producerId = some known) :
      ∃ append ∈ appendsAt key history ++ [(set, batches, log.nextOffset)],
        append.2.2 = known.baseOffset ∧ ∃ first ∈ leading append.2.1,
          first.producerId = producerId ∧ first.baseSequence = known.baseSequence := by
    obtain ⟨append, hmem, hmarked⟩ := hkept.marked producerId known hold
    exact ⟨append, List.mem_append_left _ hmem, hmarked⟩
  unfold lastBatchAfter PartitionLog.append at hknown
  cases batches with
  | nil => exact hearlier hknown
  | cons first rest =>
      simp only [List.head?_cons] at hknown
      cases hstamped : stamped first with
      | true =>
          rw [hstamped, if_pos rfl] at hknown
          rcases lookup_insert_cases hknown with ⟨hid, rfl⟩ | ⟨_, hold⟩
          · have hleading : first ∈ leading (first :: rest) := by simp [leading, hstamped]
            exact ⟨_, List.mem_append_right _ (List.mem_singleton_self _), rfl, first, hleading,
              hid.symm, rfl⟩
          · exact hearlier hold
      | false =>
          rw [hstamped, if_neg Bool.false_ne_true] at hknown
          exact hearlier hknown

theorem LogKept.append_apart (hkept : LogKept key log history) {batches : List RecordBatch}
    (hverdict : stampedVerdict log batches.head? = none)
    (hfresh : duplicateOf log batches.head? = none) (set : Bytes) (base : Int64) :
    (appendsAt key history ++ [(set, batches, base)]).Pairwise StampsApart := by
  rw [List.pairwise_append]
  refine ⟨hkept.apart, List.pairwise_singleton _ _, ?_⟩
  intro append hmem appended hnew
  rw [List.mem_singleton.mp hnew]
  intro earlier hearlier first hfirst hid hsequence
  obtain ⟨hin, hstamped⟩ := mem_leading hearlier
  have hhead : batches.head? = some first := (Option.mem_filter_iff.mp hfirst).1
  rw [hhead] at hverdict hfresh
  have hlt := hkept.ahead (mem_leading hfirst).2 hverdict hfresh earlier
    (List.mem_flatMap.mpr ⟨append, hmem, hin⟩) hstamped hid
  rw [hsequence] at hlt
  exact absurd hlt (Int.lt_irrefl _)

theorem duplicateOf_some {batches : List RecordBatch} {base : Int64}
    (h : duplicateOf log batches.head? = some base) :
    ∃ first ∈ leading batches, ∃ known, log.lastBatch.lookup first.producerId = some known ∧
      first.baseSequence = known.baseSequence ∧ known.baseOffset = base := by
  obtain ⟨first, hhead, hrest⟩ := Option.bind_eq_some_iff.mp h
  split at hrest
  next hstamped =>
      obtain ⟨known, hknown, hrest⟩ := Option.bind_eq_some_iff.mp hrest
      split at hrest
      next hsequence =>
          exact ⟨first, Option.mem_filter_iff.mpr ⟨hhead, hstamped⟩, known, hknown, hsequence,
            Option.some.inj hrest⟩
      next => cases hrest
  next => cases hrest

/-- A repeat is answered with the offset of the one set that bears its stamp. -/
theorem LogKept.repeat_base (hkept : LogKept key log history) {set : Bytes}
    {batches : List RecordBatch} {base answered : Int64}
    (hin : (set, batches, base) ∈ appendsAt key history)
    (hrepeat : duplicateOf log batches.head? = some answered) : answered = base := by
  obtain ⟨first, hfirst, known, hknown, hsequence, rfl⟩ := duplicateOf_some hrepeat
  obtain ⟨append, hmem, hbase, marker, hmarker, hid, hmarked⟩ :=
    hkept.marked first.producerId known hknown
  by_contra hother
  have hne : append ≠ (set, batches, base) := fun heq => hother (by rw [← hbase, heq])
  exact hkept.apart.forall hmem hin hne marker hmarker first hfirst hid
    (hmarked.trans hsequence.symm)

/-- What the history says of a set that was appended. -/
theorem appendsAt_appended (key : Key) (transactionalId : Option String) (set : Bytes)
    (batches : List RecordBatch) (base : Int64) :
    appendsAt key [.appended key transactionalId set batches base,
      .acknowledged key set batches base] = [(set, batches, base)] := by
  simp [appendsAt]

theorem batchesAt_appended (key : Key) (transactionalId : Option String) (set : Bytes)
    (batches : List RecordBatch) (base : Int64) :
    batchesAt key [.appended key transactionalId set batches base,
      .acknowledged key set batches base] = batches := by
  rw [batchesAt, appendsAt_appended]
  exact List.append_nil _

/-- The books of a log go on over an append and its acknowledgement. -/
theorem LogKept.append (hkept : LogKept key log history) {transactionalId : Option String}
    {set : Bytes} {batches : List RecordBatch}
    (hdeltas : ∀ batch ∈ batches, 0 ≤ batch.lastOffsetDelta.toInt)
    (hsole : ∀ batch ∈ batches.tail, stamped batch = false)
    (hfits : log.nextOffset.toInt + total batches < 2 ^ 63)
    (hverdict : stampedVerdict log batches.head? = none)
    (hfresh : duplicateOf log batches.head? = none) :
    LogKept key (log.append transactionalId.isSome set batches)
      (history ++ [.appended key transactionalId set batches log.nextOffset,
        .acknowledged key set batches log.nextOffset]) := by
  have happends := appendsAt_appended key transactionalId set batches log.nextOffset
  have hslots : slotsAt key [.appended key transactionalId set batches log.nextOffset,
      .acknowledged key set batches log.nextOffset] = batches.map .batch := by
    simp [slotsAt, Event.slots]
  have hbatches := batchesAt_appended key transactionalId set batches log.nextOffset
  have hranges : rangesAt key [.appended key transactionalId set batches log.nextOffset,
      .acknowledged key set batches log.nextOffset] = ranges log.nextOffset.toInt batches := by
    unfold rangesAt
    rw [happends]
    exact List.append_nil _
  have hnonneg := hkept.nonneg
  have htotal := total_nonneg hdeltas
  have hcount := appendedCount_toInt hdeltas (by omega)
  have hnext : (log.nextOffset + appendedCount batches).toInt =
      log.nextOffset.toInt + total batches := by
    rw [toInt_add_of_lt hnonneg (by omega) (by omega), hcount]
  have hwithin := ranges_within hdeltas log.nextOffset.toInt
  unfold PartitionLog.append
  constructor
  case bytes =>
      rw [appendsAt_append, happends, List.map_append, List.flatten_append, ← hkept.bytes]
      simp
  case offset =>
      rw [slotsAt_append, hslots, span_append, ← hkept.offset]
      exact hnext
  case nonneg =>
      simp only
      omega
  case within =>
      rw [rangesAt_append, hranges]
      intro range hmem
      simp only
      rcases List.mem_append.mp hmem with hold | hnew
      · have hbound := hkept.within range hold
        omega
      · have hbound := hwithin range hnew
        omega
  case ordered =>
      rw [rangesAt_append, hranges, List.pairwise_append]
      refine ⟨hkept.ordered, ranges_pairwise hdeltas _, ?_⟩
      intro first hfirst second hsecond
      have hbefore := hkept.within first hfirst
      have hafter := hwithin second hsecond
      omega
  case last =>
      rw [batchesAt_append, hbatches]
      exact hkept.append_last hsole hverdict hfresh
  case forward =>
      refine hkept.append_forward ?_ hcount
      intro hsome
      obtain ⟨first, rest, rfl⟩ := List.exists_cons_of_ne_nil hsome
      have hfirst := hdeltas first List.mem_cons_self
      have hrest := total_nonneg fun other hmem => hdeltas other (List.mem_cons_of_mem _ hmem)
      have hcons : total (first :: rest) = batchSize first + total rest := rfl
      unfold batchSize at hcons
      omega
  case once =>
      rw [batchesAt_append, hbatches, stamps_append]
      exact hkept.append_once hsole hverdict hfresh
  case marked =>
      rw [appendsAt_append, happends]
      exact hkept.append_marked set batches
  case apart =>
      rw [appendsAt_append, happends]
      exact hkept.append_apart hverdict hfresh set log.nextOffset

end Logs

section Sessions

variable {s : ClusterState}

def wholeSet (set : Bytes) : Prop := (wholeBatches set.length set).flatten = set

/-- The history appended exactly this set, to this log. -/
def appendedBefore (key : Key) (set : Bytes) (batches : List RecordBatch) : Event → Bool
  | .appended otherKey _ otherSet otherBatches _ =>
    otherKey = key && otherSet = set && otherBatches = batches
  | _ => false

/-- A set the broker can keep, once: what it recognizes it has appended to this
log, and what it appends is whole, goes forward, fits, and has no stamp that
the record of the last batch will not know. -/
def Sound (snapshot : AList fun _ : String => TxnState) (transactionalId : Option String)
    (s : ClusterState) (key : Key) (set : Bytes) (batches : List RecordBatch) : Prop :=
  match leaderVerdict snapshot (s.log key) transactionalId batches with
  | .error _ => True
  | .ok (some _) => s.history.any (appendedBefore key set batches) = true
  | .ok none =>
    wholeSet set ∧ (∀ batch ∈ batches, 0 ≤ batch.lastOffsetDelta.toInt) ∧
      (∀ batch ∈ batches.tail, stamped batch = false) ∧
      (s.log key).nextOffset.toInt + total batches < 2 ^ 63

instance (set : Bytes) : Decidable (wholeSet set) :=
  inferInstanceAs (Decidable (_ = _))

instance (snapshot : AList fun _ : String => TxnState) (transactionalId : Option String)
    (s : ClusterState) (key : Key) (set : Bytes) (batches : List RecordBatch) :
    Decidable (Sound snapshot transactionalId s key set batches) :=
  match h : leaderVerdict snapshot (s.log key) transactionalId batches with
  | .error _ => isTrue (by rw [Sound, h]; trivial)
  | .ok (some _) =>
    decidable_of_iff (s.history.any (appendedBefore key set batches) = true) (by rw [Sound, h])
  | .ok none =>
    decidable_of_iff (wholeSet set ∧ (∀ batch ∈ batches, 0 ≤ batch.lastOffsetDelta.toInt) ∧
      (∀ batch ∈ batches.tail, stamped batch = false) ∧
      (s.log key).nextOffset.toInt + total batches < 2 ^ 63) (by rw [Sound, h])

/-- Every set of a produce is sound when its turn comes, and every marker fits. -/
def SoundStep (s : ClusterState) : Action → Prop
  | .produce nodeId request =>
    OnTopics (Sound s.txns request.transactionalId) s.txns request.transactionalId nodeId s
      request.topicData
  | .endTxn request =>
    ∀ txn ∈ (s.txnEpochCheck request.transactionalId request.producerEpoch).toOption,
      ∀ entry ∈ s.logs.entries, (entry.2.opened.lookup txn.producerId).isSome = true →
        entry.2.nextOffset.toInt + 1 < 2 ^ 63
  | _ => True

instance (s : ClusterState) : ∀ action, Decidable (SoundStep s action)
  | .produce nodeId request =>
    inferInstanceAs (Decidable (OnTopics (Sound s.txns request.transactionalId) s.txns
      request.transactionalId nodeId s request.topicData))
  | .endTxn request =>
    inferInstanceAs (Decidable (∀ txn ∈ (s.txnEpochCheck request.transactionalId
      request.producerEpoch).toOption, ∀ entry ∈ s.logs.entries, _ → _))
  | .initProducerId _ | .addPartitionsToTxn _ | .addOffsetsToTxn _ _ | .txnOffsetCommit _
  | .createTopics _ _ | .stop _ | .start _ => isTrue trivial

def BrokerRun : ClusterState → Prop :=
  Reachable (fun s => ∃ ports, s = .start ports) fun s action t => s.next action = t

theorem BrokerRun.all {s : ClusterState} (hrun : BrokerRun s) (actions : List Action) :
    BrokerRun (actions.foldl ClusterState.next s) := by
  induction actions generalizing s with
  | nil => exact hrun
  | cons action actions ih => exact ih (.step action hrun rfl)

end Sessions

section Steps

variable {s t : ClusterState} {key : Key} {more : List Event}

structure Booked (s : ClusterState) : Prop where
  logs : ∀ key, LogKept key (s.log key) s.history
  whole : ∀ key, ∀ append ∈ appendsAt key s.history, Whole append.1 append.2.1
  placed : EachAfter (fun before event => ∀ key transactionalId set batches base,
    event = .appended key transactionalId set batches base →
      base.toInt = span (slotsAt key before)) s.history
  acknowledged : EachAfter (fun before event => ∀ key set batches base,
    event = .acknowledged key set batches base →
      ∃ transactionalId, .appended key transactionalId set batches base ∈ before) s.history

theorem Booked.start (ports : List Int32) : Booked (.start ports) where
  logs := fun key => .empty key
  whole := fun _ _ hmem => (by cases hmem)
  placed := .nil
  acknowledged := .nil

def Event.quiet : Event → Prop
  | .appended .. | .acknowledged .. => False
  | _ => True

theorem appendsAt_quiet (hquiet : ∀ event ∈ more, event.quiet) : appendsAt key more = [] := by
  unfold appendsAt
  rw [List.filterMap_eq_nil_iff]
  intro event hmem
  have hevent := hquiet event hmem
  cases event with
  | appended => cases hevent
  | acknowledged | claimed | held | ended => rfl

/-- The history grows by quiet events, and the logs are kept. -/
theorem Booked.quiet (hbooked : Booked s) (hhistory : t.history = s.history ++ more)
    (hquiet : ∀ event ∈ more, event.quiet) (hlogs : ∀ key, LogKept key (t.log key) t.history) :
    Booked t where
  logs := hlogs
  whole := by
    intro key
    rw [hhistory, appendsAt_append, appendsAt_quiet hquiet, List.append_nil]
    exact hbooked.whole key
  placed := by
    rw [hhistory]
    refine hbooked.placed.append_all fun event hmem before => ?_
    rintro key transactionalId set batches base rfl
    exact (hquiet _ hmem).elim
  acknowledged := by
    rw [hhistory]
    refine hbooked.acknowledged.append_all fun event hmem before => ?_
    rintro key set batches base rfl
    exact (hquiet _ hmem).elim

/-- A step that leaves the logs alone, with events that mark nothing. -/
theorem Booked.beside (hbooked : Booked s) (hlogs : t.logs = s.logs)
    (hhistory : t.history = s.history ++ more)
    (hquiet : ∀ event ∈ more, event.quiet ∧ ∀ key, event.slots key = []) : Booked t := by
  have hall : ∀ event ∈ more, event.quiet := fun event hmem => (hquiet event hmem).1
  refine hbooked.quiet hhistory hall fun key => ?_
  have hlog : t.log key = s.log key := by
    unfold ClusterState.log
    rw [hlogs]
  rw [hlog, hhistory]
  exact (hbooked.logs key).elsewhere (appendsAt_quiet hall)
    (List.flatMap_eq_nil_iff.mpr fun event hmem => (hquiet event hmem).2 key)

theorem log_insert {log : PartitionLog} (hlogs : t.logs = s.logs.insert key log) (other : Key) :
    t.log other = if other = key then log else s.log other := by
  unfold ClusterState.log
  rw [hlogs]
  by_cases hkey : other = key
  · rw [if_pos hkey, hkey, AList.lookup_insert, Option.getD_some]
  · rw [if_neg hkey, AList.lookup_insert_ne hkey]

theorem Booked.touch (hbooked : Booked s) (key : Key) :
    Booked { s with logs := s.logs.insert key (s.log key) } := by
  refine ⟨fun other => ?_, hbooked.whole, hbooked.placed, hbooked.acknowledged⟩
  rw [@log_insert s _ key _ rfl]
  split
  next hkey =>
      rw [hkey]
      exact hbooked.logs key
  next => exact hbooked.logs other

theorem wholeSet_whole {set : Bytes} {batches : List RecordBatch}
    (hdecoded : decodedSet set = some batches) (hwhole : wholeSet set) : Whole set batches := by
  unfold decodedSet at hdecoded
  cases hrun : runDecode .default decodeSet set with
  | error e =>
      rw [hrun] at hdecoded
      cases hdecoded
  | ok found =>
      rw [hrun] at hdecoded
      obtain ⟨frames, _, _, _, hall, hframes⟩ := decodeSet_frames hrun
      obtain rfl : found.1 = batches := Option.some.inj hdecoded
      rw [wholeSet, hframes] at hwhole
      exact ⟨frames, hwhole.symm, hall⟩

theorem leaderVerdict_ok {snapshot : AList fun _ : String => TxnState} {log : PartitionLog}
    {transactionalId : Option String} {batches : List RecordBatch} {known : Option Int64}
    (h : leaderVerdict snapshot log transactionalId batches = .ok known) :
    fencedAtTheLeader snapshot transactionalId batches.head? = none ∧
      stampedVerdict log batches.head? = none ∧ duplicateOf log batches.head? = known := by
  unfold leaderVerdict at h
  split at h
  · cases h
  next hfenced =>
      split at h
      · cases h
      next hverdict => exact ⟨hfenced, hverdict, Except.ok.inj h⟩

theorem appendedBefore_mem {set : Bytes} {batches : List RecordBatch} {history : List Event}
    (h : history.any (appendedBefore key set batches) = true) :
    ∃ transactionalId base, .appended key transactionalId set batches base ∈ history := by
  obtain ⟨event, hmem, hbefore⟩ := List.any_eq_true.mp h
  cases event with
  | appended =>
      simp only [appendedBefore, Bool.and_eq_true, decide_eq_true_eq] at hbefore
      obtain ⟨⟨rfl, rfl⟩, rfl⟩ := hbefore
      exact ⟨_, _, hmem⟩
  | acknowledged | claimed | held | ended => cases hbefore

theorem mem_appendsAt {transactionalId : Option String} {set : Bytes} {batches : List RecordBatch}
    {base : Int64} {history : List Event}
    (h : .appended key transactionalId set batches base ∈ history) :
    (set, batches, base) ∈ appendsAt key history :=
  List.mem_filterMap.mpr ⟨_, h, if_pos rfl⟩

theorem Booked.recognize (hbooked : Booked s) {set : Bytes} {batches : List RecordBatch}
    {base : Int64} (hbefore : s.history.any (appendedBefore key set batches) = true)
    (hrepeat : duplicateOf (s.log key) batches.head? = some base) :
    Booked { s with history := s.history ++ [.acknowledged key set batches base] } where
  logs := fun other => (hbooked.logs other).elsewhere rfl rfl
  whole := by
    intro other
    rw [appendsAt_append]
    exact (List.append_nil (appendsAt other s.history)).symm ▸ hbooked.whole other
  placed := hbooked.placed.append fun _ _ _ _ _ heq => (by cases heq)
  acknowledged := hbooked.acknowledged.append fun _ _ _ _ heq => by
    cases heq
    obtain ⟨transactionalId, _, happended⟩ := appendedBefore_mem hbefore
    obtain rfl := (hbooked.logs key).repeat_base (mem_appendsAt happended) hrepeat
    exact ⟨transactionalId, happended⟩

/-- A sound set at the end of its log. -/
theorem Booked.append (hbooked : Booked s) {log : PartitionLog} {set : Bytes}
    {batches : List RecordBatch} {transactionalId : Option String} (hlog : s.log key = log)
    (hdecoded : decodedSet set = some batches) (hwhole : wholeSet set)
    (hdeltas : ∀ batch ∈ batches, 0 ≤ batch.lastOffsetDelta.toInt)
    (hsole : ∀ batch ∈ batches.tail, stamped batch = false)
    (hfits : log.nextOffset.toInt + total batches < 2 ^ 63)
    (hverdict : stampedVerdict log batches.head? = none)
    (hfresh : duplicateOf log batches.head? = none) :
    Booked { s with
      logs := s.logs.insert key (log.append transactionalId.isSome set batches)
      history := s.history ++ [.appended key transactionalId set batches log.nextOffset,
        .acknowledged key set batches log.nextOffset] } := by
  have hkept := hbooked.logs key
  rw [hlog] at hkept
  have hafter := @LogKept.append _ _ _ hkept transactionalId set _ hdeltas hsole hfits hverdict
    hfresh
  have hpair : s.history ++ [.appended key transactionalId set batches log.nextOffset,
      .acknowledged key set batches log.nextOffset] =
      s.history ++ [.appended key transactionalId set batches log.nextOffset] ++
        [.acknowledged key set batches log.nextOffset] := List.append_cons _ _ _
  refine ⟨fun other => ?_, fun other => ?_, ?_, ?_⟩
  · rw [@log_insert s _ key _ rfl]
    split
    next hkey =>
        rw [hkey]
        exact hafter
    next hkey =>
        refine (hbooked.logs other).elsewhere ?_ ?_
        · simp [appendsAt, Ne.symm hkey]
        · simp [slotsAt, Event.slots, Ne.symm hkey]
  · rw [appendsAt_append]
    intro append hmem
    rcases List.mem_append.mp hmem with hold | hnew
    · exact hbooked.whole other append hold
    · by_cases hkey : key = other
      · simp only [appendsAt, hkey, List.filterMap_cons, if_true, List.filterMap_nil,
          List.mem_singleton] at hnew
        rw [hnew]
        exact wholeSet_whole hdecoded hwhole
      · simp only [appendsAt, hkey, List.filterMap_cons, if_false, List.filterMap_nil] at hnew
        cases hnew
  · rw [hpair]
    refine (hbooked.placed.append ?_).append fun _ _ _ _ _ heq => (by cases heq)
    intro _ _ _ _ _ heq
    cases heq
    exact hkept.offset
  · rw [hpair]
    refine (hbooked.acknowledged.append fun _ _ _ _ heq => (by cases heq)).append ?_
    intro _ _ _ _ heq
    cases heq
    exact ⟨transactionalId, List.mem_append_right _ List.mem_cons_self⟩

section ProduceSet

variable {snapshot : AList fun _ : String => TxnState} {transactionalId : Option String}
  {set : Bytes} {batches : List RecordBatch}

theorem produceSet_refused {code : Int16}
    (h : leaderVerdict snapshot (s.log key) transactionalId batches = .error code) :
    (s.produceSet snapshot transactionalId key set batches).1 =
      { s with logs := s.logs.insert key (s.log key) } := by
  simp only [ClusterState.produceSet, h]

theorem produceSet_recognized {known : Int64}
    (h : leaderVerdict snapshot (s.log key) transactionalId batches = .ok (some known)) :
    (s.produceSet snapshot transactionalId key set batches).1 =
      { s with
        logs := s.logs.insert key (s.log key)
        history := s.history ++ [.acknowledged key set batches known] } := by
  simp only [ClusterState.produceSet, h]

theorem produceSet_appended
    (h : leaderVerdict snapshot (s.log key) transactionalId batches = .ok none) :
    (s.produceSet snapshot transactionalId key set batches).1 =
      { s with
        logs := (s.logs.insert key (s.log key)).insert key
          ((s.log key).append transactionalId.isSome set batches)
        history := s.history ++ [.appended key transactionalId set batches (s.log key).nextOffset,
          .acknowledged key set batches (s.log key).nextOffset] } := by
  simp only [ClusterState.produceSet, h]

/-- A decoded set leaves the books of every log in order. -/
theorem Booked.produceSet (hbooked : Booked s) (hdecoded : decodedSet set = some batches)
    (hsound : Sound snapshot transactionalId s key set batches) :
    Booked (s.produceSet snapshot transactionalId key set batches).1 := by
  unfold Sound at hsound
  cases hleader : leaderVerdict snapshot (s.log key) transactionalId batches with
  | error code =>
      rw [produceSet_refused hleader]
      exact hbooked.touch key
  | ok known =>
      rw [hleader] at hsound
      cases known with
      | some known =>
          obtain ⟨_, _, hrepeat⟩ := leaderVerdict_ok hleader
          have hlog : { s with logs := s.logs.insert key (s.log key) }.log key = s.log key := by
            rw [@log_insert s _ key _ rfl, if_pos rfl]
          rw [produceSet_recognized hleader]
          refine (hbooked.touch key).recognize hsound ?_
          rw [hlog]
          exact hrepeat
      | none =>
          rw [produceSet_appended hleader]
          obtain ⟨hwhole, hdeltas, hsole, hfits⟩ := hsound
          obtain ⟨_, hverdict, hfresh⟩ := leaderVerdict_ok hleader
          have hlog : { s with logs := s.logs.insert key (s.log key) }.log key = s.log key := by
            rw [@log_insert s _ key _ rfl, if_pos rfl]
          exact (hbooked.touch key).append hlog hdecoded hwhole hdeltas hsole hfits hverdict hfresh

end ProduceSet

section Markers

theorem mem_touched {producerId : Int64} :
    key ∈ s.touched producerId ↔ ((s.log key).opened.lookup producerId).isSome = true := by
  unfold ClusterState.touched
  simp only [List.mem_map, List.mem_filter]
  constructor
  · rintro ⟨⟨_, log⟩, ⟨hmem, hopen⟩, rfl⟩
    rwa [ClusterState.log, lookup_eq_some_iff.mpr hmem]
  · intro hopen
    unfold ClusterState.log at hopen
    cases hlookup : s.logs.lookup key with
    | none =>
        rw [hlookup] at hopen
        cases hopen
    | some log =>
        rw [hlookup] at hopen
        exact ⟨⟨key, log⟩, ⟨lookup_eq_some_iff.mp hlookup, hopen⟩, rfl⟩

theorem touched_nodup (producerId : Int64) : (s.touched producerId).Nodup := by
  unfold ClusterState.touched
  exact (List.Sublist.map Sigma.fst List.filter_sublist).nodup s.logs.nodupKeys

/-- Every log is finished; a log without the transaction stays as it is. -/
theorem endTxn_log {request : EndTxnRequest} {txn : TxnState}
    (hcheck : s.txnEpochCheck request.transactionalId request.producerEpoch = .ok txn) :
    (s.endTxnExchange request).1.log key =
      (s.log key).finish txn.producerId request.committed := by
  unfold ClusterState.endTxnExchange
  rw [hcheck]
  simp only [ClusterState.log]
  rw [lookup_foldl_update (fun log => PartitionLog.finish log txn.producerId request.committed)
    .empty (touched_nodup txn.producerId)]
  by_cases hmem : key ∈ s.touched txn.producerId
  · rw [if_pos hmem, Option.getD_some]
  · rw [if_neg hmem]
    have hclosed := mt mem_touched.mpr hmem
    unfold ClusterState.log at hclosed
    unfold PartitionLog.finish
    cases hopen : ((s.logs.lookup key).getD .empty).opened.lookup txn.producerId with
    | none => rfl
    | some firstOffset =>
        rw [hopen] at hclosed
        exact absurd rfl hclosed

theorem endTxn_history {request : EndTxnRequest} {txn : TxnState}
    (hcheck : s.txnEpochCheck request.transactionalId request.producerEpoch = .ok txn) :
    (s.endTxnExchange request).1.history = s.history ++
      [.ended request.transactionalId request.producerEpoch request.committed
        (s.touched txn.producerId)] := by
  unfold ClusterState.endTxnExchange
  rw [hcheck]

/-- The markers of a transaction leave the books in order. -/
theorem Booked.endTxn (hbooked : Booked s) {request : EndTxnRequest}
    (hsound : SoundStep s (.endTxn request)) : Booked (s.endTxnExchange request).1 := by
  cases hcheck : s.txnEpochCheck request.transactionalId request.producerEpoch with
  | error code =>
      unfold ClusterState.endTxnExchange
      rw [hcheck]
      exact hbooked
  | ok txn =>
      refine hbooked.quiet (endTxn_history hcheck) (fun event hmem => ?_) fun key => ?_
      · rw [List.mem_singleton.mp hmem]
        trivial
      · rw [endTxn_log hcheck, endTxn_history hcheck]
        cases hopen : (s.log key).opened.lookup txn.producerId with
        | none =>
            have hsame : (s.log key).finish txn.producerId request.committed = s.log key := by
              unfold PartitionLog.finish
              rw [hopen]
            have hunmarked : key ∉ s.touched txn.producerId := by
              rw [mem_touched, hopen]
              exact Bool.false_ne_true
            rw [hsame]
            exact (hbooked.logs key).elsewhere rfl (by simp [slotsAt, Event.slots, hunmarked])
        | some firstOffset =>
            have hmarked : key ∈ s.touched txn.producerId := by
              rw [mem_touched, hopen]
              rfl
            refine (hbooked.logs key).finish hopen ?_ rfl (by simp [slotsAt, Event.slots, hmarked])
            unfold ClusterState.log at hopen ⊢
            cases hlookup : s.logs.lookup key with
            | none =>
                rw [hlookup] at hopen
                cases hopen
            | some log =>
                rw [hlookup] at hopen
                refine hsound txn (by rw [hcheck]; rfl) ⟨key, log⟩
                  (lookup_eq_some_iff.mp hlookup) ?_
                rw [show log.opened.lookup txn.producerId = some firstOffset from hopen]
                rfl

end Markers

section Exchanges

theorem addPartitionsToTxn_refused {request : AddPartitionsToTxnRequest} {code : Int16}
    (h : s.txnEpochCheck request.transactionalId request.producerEpoch = .error code) :
    (s.addPartitionsToTxnExchange request).1 = s := by
  simp only [ClusterState.addPartitionsToTxnExchange, h]

theorem addPartitionsToTxn_announced {request : AddPartitionsToTxnRequest} {txn : TxnState}
    (h : s.txnEpochCheck request.transactionalId request.producerEpoch = .ok txn) :
    ∃ partitions, (s.addPartitionsToTxnExchange request).1 =
      { s with txns := s.txns.insert request.transactionalId { txn with partitions } } := by
  simp only [ClusterState.addPartitionsToTxnExchange, h]
  exact ⟨_, rfl⟩

theorem txnOffsetCommit_refused {request : TxnOffsetCommitRequest} {code : Int16}
    (h : s.txnEpochCheck request.transactionalId request.producerEpoch = .error code) :
    (s.txnOffsetCommitExchange request).1 = s := by
  simp only [ClusterState.txnOffsetCommitExchange, h]

theorem txnOffsetCommit_held {request : TxnOffsetCommitRequest} {txn : TxnState}
    (h : s.txnEpochCheck request.transactionalId request.producerEpoch = .ok txn) :
    (s.txnOffsetCommitExchange request).1 =
      { s with
        txns := s.txns.insert request.transactionalId
          { txn with
            pendingOffsets := request.offsets.foldl
              (fun pending offset => pending.insert offset.1 offset.2) txn.pendingOffsets }
        history := s.history ++ request.offsets.map fun offset =>
          .held request.transactionalId request.producerEpoch offset.1 offset.2 } := by
  simp only [ClusterState.txnOffsetCommitExchange, h]

/-- Topics come and nothing else changes. -/
theorem createTopics_frame (validateOnly : Bool) (topics : List CreatableTopic) (s : ClusterState) :
    ∃ created topicNames, (s.createTopicsExchange validateOnly topics).1 =
      { s with created, topicNames } := by
  induction topics generalizing s with
  | nil => exact ⟨s.created, s.topicNames, rfl⟩
  | cons t topics ih =>
      have hfirst : ∃ created topicNames, (s.createTopic validateOnly t).1 =
          { s with created, topicNames } := by
        unfold ClusterState.createTopic
        simp only
        repeat' split
        all_goals exact ⟨_, _, rfl⟩
      obtain ⟨_, _, heq⟩ := hfirst
      obtain ⟨created, topicNames, hrest⟩ := ih (s.createTopic validateOnly t).1
      refine ⟨created, topicNames, ?_⟩
      show ((s.createTopic validateOnly t).1.createTopicsExchange validateOnly topics).1 = _
      rw [hrest, heq]

end Exchanges

/-- What neither produces nor ends a transaction leaves the logs alone and marks nothing. -/
theorem next_beside {action : Action}
    (hproduce : ∀ nodeId request, action ≠ .produce nodeId request)
    (hend : ∀ request, action ≠ .endTxn request) :
    ∃ more, (s.next action).logs = s.logs ∧ (s.next action).history = s.history ++ more ∧
      ∀ event ∈ more, event.quiet ∧ ∀ key, event.slots key = [] := by
  have hstill {t : ClusterState} (hlogs : t.logs = s.logs) (hhistory : t.history = s.history) :
      ∃ more, t.logs = s.logs ∧ t.history = s.history ++ more ∧
        ∀ event ∈ more, event.quiet ∧ ∀ key, event.slots key = [] :=
    ⟨[], hlogs, hhistory.trans (List.append_nil _).symm, nofun⟩
  cases action with
  | initProducerId transactionalId =>
      cases transactionalId with
      | none => exact hstill rfl rfl
      | some id =>
          refine ⟨_, rfl, rfl, fun event hmem => ?_⟩
          rw [List.mem_singleton.mp hmem]
          exact ⟨trivial, fun _ => rfl⟩
  | produce nodeId request => exact absurd rfl (hproduce nodeId request)
  | addPartitionsToTxn request =>
      show ∃ more, (s.addPartitionsToTxnExchange request).1.logs = s.logs ∧
        (s.addPartitionsToTxnExchange request).1.history = s.history ++ more ∧ _
      cases hcheck : s.txnEpochCheck request.transactionalId request.producerEpoch with
      | error code =>
          rw [addPartitionsToTxn_refused hcheck]
          exact hstill rfl rfl
      | ok txn =>
          obtain ⟨_, heq⟩ := addPartitionsToTxn_announced hcheck
          rw [heq]
          exact hstill rfl rfl
  | addOffsetsToTxn transactionalId epoch => exact hstill rfl rfl
  | txnOffsetCommit request =>
      show ∃ more, (s.txnOffsetCommitExchange request).1.logs = s.logs ∧
        (s.txnOffsetCommitExchange request).1.history = s.history ++ more ∧ _
      cases hcheck : s.txnEpochCheck request.transactionalId request.producerEpoch with
      | error code =>
          rw [txnOffsetCommit_refused hcheck]
          exact hstill rfl rfl
      | ok txn =>
          rw [txnOffsetCommit_held hcheck]
          refine ⟨_, rfl, rfl, fun event hmem => ?_⟩
          obtain ⟨offset, _, rfl⟩ := List.mem_map.mp hmem
          exact ⟨trivial, fun _ => rfl⟩
  | endTxn request => exact absurd rfl (hend request)
  | createTopics validateOnly topics =>
      obtain ⟨_, _, heq⟩ := createTopics_frame validateOnly topics s
      show ∃ more, (s.createTopicsExchange validateOnly topics).1.logs = s.logs ∧
        (s.createTopicsExchange validateOnly topics).1.history = s.history ++ more ∧ _
      rw [heq]
      exact hstill rfl rfl
  | stop nodeId => exact hstill rfl rfl
  | start nodeId => exact hstill rfl rfl

theorem Booked.nextBeside (hbooked : Booked s) {action : Action}
    (hproduce : ∀ nodeId request, action ≠ .produce nodeId request)
    (hend : ∀ request, action ≠ .endTxn request) : Booked (s.next action) := by
  obtain ⟨_, hlogs, hhistory, hquiet⟩ := next_beside (s := s) hproduce hend
  exact hbooked.beside hlogs hhistory hquiet

theorem Booked.next (hbooked : Booked s) {action : Action} (hsound : SoundStep s action) :
    Booked (s.next action) := by
  cases action with
  | produce nodeId request =>
      refine Keeps.exchange ⟨fun _ key h => h.touch key, ?_⟩ hbooked hsound
      exact fun _ _ _ _ h hdecoded hset => h.produceSet hdecoded hset
  | endTxn request => exact hbooked.endTxn hsound
  | initProducerId _ | addPartitionsToTxn _ | addOffsetsToTxn _ _ | txnOffsetCommit _
  | createTopics _ _ | stop _ | start _ =>
      exact hbooked.nextBeside nofun nofun

end Steps

section Samples

def stampedBatch (epoch : Int16) : RecordBatch :=
  { bareRecord with producerId := 1, producerEpoch := epoch, baseSequence := 0 }

def stampedProduce (epoch : Int16) : Action :=
  let partition := { index := 0, records := some (stampedBatch epoch).bytes }
  .produce 3 { transactionalId := none
               acks := -1
               topicData := [{ name := "t", topicId := [], partitionData := [partition] }] }

def sampleStart : ClusterState := .start [9092, 9093, 9094]

end Samples

end Odradek.Acceptance.Subject
