import Odradek.Client.Agreement
import Odradek.Client.Isolation

/-!
Reading a stored log fetch by fetch. Every response holds log bytes from the
batch at the requested offset on, cut anywhere behind a whole batch, and each
fetch starts at the `next_offset` of the one before. Such a run returns the
visible part of the log, each record once, exactly when the budgets of a fetch
cover every response.
-/

namespace Odradek.Client

open Library Library.Decoder Odradek.Protocol

/-- A log as it is stored, and the records each batch holds. Compaction may
leave gaps between batches and inside them. -/
structure StoredLog (codecs : Codecs) where
  batches : List RecordBatch
  contents : RecordBatch → List Record
  valid : ValidLog batches
  encoded : ∀ batch ∈ batches, batch.Fits ∧ batch.Coherent
  holds : ∀ batch ∈ batches, Holds codecs batch (contents batch)
  inside : ∀ batch ∈ batches, ∀ record ∈ contents batch,
    0 ≤ record.offsetDelta.toInt ∧ record.offsetDelta.toInt ≤ batch.lastOffsetDelta.toInt

variable {codecs : Codecs} {ρ : Type} {map : ConsumedRecord → ρ}

namespace StoredLog

/-- The records of these batches from `start` on, with absolute coordinates. -/
def recordsOf (log : StoredLog codecs) (map : ConsumedRecord → ρ) (start : Int)
    (batches : List RecordBatch) : List ρ :=
  batches.flatMap fun batch =>
    ((log.contents batch).filter fun record =>
      start ≤ firstOffset batch + record.offsetDelta.toInt).map fun record =>
        map (consumed batch record)

def visibleRecords (log : StoredLog codecs) (level : IsolationLevel) (map : ConsumedRecord → ρ)
    (start : Int) : List ρ :=
  log.recordsOf map start (visibleBatches level [] log.batches)

/-- Those of the batches that end before `stop`. -/
def visibleRecordsUpTo (log : StoredLog codecs) (level : IsolationLevel)
    (map : ConsumedRecord → ρ) (start stop : Int) : List ρ :=
  log.recordsOf map start ((visibleBatches level [] log.batches).filter (lastOffset · < stop))

/-- A response to a fetch at `offset` that holds the batches `fetched`. -/
structure Answers (log : StoredLog codecs) (level : IsolationLevel) (offset : Int64)
    (entry : PartitionData) (before fetched rest : List RecordBatch) (tail : Bytes) : Prop where
  split : log.batches = before ++ fetched ++ rest
  behind : ∀ batch ∈ before, lastOffset batch < offset.toInt
  ahead : ∀ batch ∈ fetched ++ rest, offset.toInt ≤ lastOffset batch
  whole : fetched = [] → rest = []
  bytes : entry.records.getD [] = fetched.flatMap RecordBatch.bytes ++ tail
  cut : tail = [] ∨ ∃ next ∈ rest.head?, next.Cut tail
  aborted : level = .readCommitted →
    Covers before fetched rest (entry.abortedTransactions.getD [])

end StoredLog

structure Response where
  entry : PartitionData
  before : List RecordBatch
  fetched : List RecordBatch
  rest : List RecordBatch
  tail : Bytes

namespace StoredLog

/-- Responses that answer one fetch after another, each from where the one before ended. -/
inductive Serves (log : StoredLog codecs) (map : ConsumedRecord → ρ) (config : ConsumerConfig) :
    Int64 → List Response → Prop
  | nil (offset : Int64) : Serves log map config offset []
  | cons {offset : Int64} {response : Response} {responses : List Response} :
      log.Answers config.isolationLevel offset response.entry response.before response.fetched
        response.rest response.tail →
      (∀ result, fetchEntry codecs map config offset response.entry = .ok result →
        Serves log map config result.nextOffset responses) →
      Serves log map config offset (response :: responses)

/-- The decode budget covers the vectors of the batches a response holds, and
the limits of a fetch what it surfaces of them. -/
def Affordable (log : StoredLog codecs) (config : ConsumerConfig) (response : Response) : Prop :=
  granted (response.entry.records.getD []).length
      (itemsCharges recordBatchSize RecordBatch.charges response.fetched 0) ∧
    FetchBudget.Affords
      { recordsLeft := config.maxFetchRecords, decompressedLeft := maxDecompressed } log.contents
      (visibleBatches config.isolationLevel response.rest response.fetched)

end StoredLog

/-- Fetch after fetch, each from where the one before ended. -/
def consume (codecs : Codecs) (map : ConsumedRecord → ρ) (config : ConsumerConfig) :
    Int64 → List PartitionData → Fetch (List (FetchResult ρ))
  | _, [] => .ok []
  | offset, entry :: entries => do
    let result ← fetchEntry codecs map config offset entry
    let results ← consume codecs map config result.nextOffset entries
    pure (result :: results)

def endOf (offset : Int64) : List (FetchResult ρ) → Int64
  | [] => offset
  | result :: results => endOf result.nextOffset results

/-- Every response that holds a batch moves the next offset on. -/
def MovesForward : Int64 → List Response → List (FetchResult ρ) → Prop
  | offset, response :: responses, result :: results =>
    (response.fetched ≠ [] → offset.toInt < result.nextOffset.toInt) ∧
      MovesForward result.nextOffset responses results
  | _, _, _ => True

/-- The results are the visible records from `start` on, as far as they go. -/
structure StoredLog.Composes (log : StoredLog codecs) (level : IsolationLevel)
    (map : ConsumedRecord → ρ) (start : Int64) (responses : List Response)
    (results : List (FetchResult ρ)) : Prop where
  upTo : results.flatMap (·.records) =
    log.visibleRecordsUpTo level map start.toInt (endOf start results).toInt
  whole : (∀ batch ∈ log.batches, lastOffset batch < (endOf start results).toInt) →
    results.flatMap (·.records) = log.visibleRecords level map start.toInt
  forward : MovesForward start responses results

section Steps

variable {log : StoredLog codecs} {level : IsolationLevel} {config : ConsumerConfig}
  {offset : Int64} {entry : PartitionData} {before fetched rest : List RecordBatch} {tail : Bytes}
  {result : FetchResult ρ}

theorem visibleBatches_append (level : IsolationLevel) (front back after : List RecordBatch) :
    visibleBatches level after (front ++ back) =
      visibleBatches level (back ++ after) front ++ visibleBatches level after back := by
  induction front with
  | nil => rfl
  | cons batch front ih =>
      simp only [List.cons_append, visibleBatches, ih, List.append_assoc]
      split <;> rfl

theorem mem_of_mem_visibleBatches {level : IsolationLevel} {after batches : List RecordBatch}
    {batch : RecordBatch} (h : batch ∈ visibleBatches level after batches) : batch ∈ batches := by
  induction batches with
  | nil => exact h
  | cons first batches ih =>
      rw [visibleBatches] at h
      split at h
      · rcases List.mem_cons.mp h with rfl | h
        · exact List.mem_cons_self
        · exact List.mem_cons_of_mem _ (ih h)
      · exact List.mem_cons_of_mem _ (ih h)

theorem maxI64_toInt (a b : Int64) : (maxI64 a b).toInt = max a.toInt b.toInt := by
  unfold maxI64
  split
  · have := Int64.le_iff_toInt_le.mp ‹_›
    omega
  · have := Int64.not_le.mp ‹_›
    rw [Int64.lt_iff_toInt_lt] at this
    omega

/-- Where a walk over placed batches ends up: past every one of them, and not
past anything that is behind them all. -/
theorem foldl_next (batches : List RecordBatch) (offset : Int64)
    (hplaced : ∀ b ∈ batches, 0 ≤ b.lastOffsetDelta.toInt ∧ lastOffset b < i64Max) :
    let next := batches.foldl (fun next b => maxI64 next (batchLast b + 1)) offset
    offset.toInt ≤ next.toInt ∧ (∀ b ∈ batches, lastOffset b < next.toInt) ∧
      ∀ bound, offset.toInt ≤ bound → (∀ b ∈ batches, lastOffset b < bound) →
        next.toInt ≤ bound := by
  induction batches generalizing offset with
  | nil =>
      exact ⟨Int.le_refl _, fun b hb => absurd hb List.not_mem_nil, fun bound h _ => h⟩
  | cons batch batches ih =>
      have hbatch := hplaced batch List.mem_cons_self
      have hlast : (batchLast batch + 1).toInt = lastOffset batch + 1 := by
        have hlow := batch.baseOffset.minValue_le_toInt
        have hmin : Int64.minValue.toInt = -2 ^ 63 := by decide
        have hone : (1 : Int64).toInt = 1 := by decide
        rw [Int64.toInt_add, batchLast_toInt hbatch, hone]
        unfold lastOffset i64Max at *
        exact Int.bmod_eq_of_le (by omega) (by omega)
      obtain ⟨hle, hall, hbound⟩ := ih (maxI64 offset (batchLast batch + 1))
        fun b hb => hplaced b (List.mem_cons_of_mem _ hb)
      rw [maxI64_toInt, hlast] at hle
      simp only [List.foldl_cons]
      refine ⟨by omega, ?_, ?_⟩
      · intro b hb
        rcases List.mem_cons.mp hb with rfl | hb
        · omega
        · exact hall b hb
      · intro bound hoffset hbatches
        refine hbound bound ?_ fun b hb => hbatches b (List.mem_cons_of_mem _ hb)
        rw [maxI64_toInt, hlast]
        have := hbatches batch List.mem_cons_self
        omega

/-- The records of a batch from an offset on, in the log's terms. -/
theorem StoredLog.recordsFrom_eq (log : StoredLog codecs) {batch : RecordBatch}
    (hmem : batch ∈ log.batches) (offset : Int64) :
    recordsFrom map offset batch (log.contents batch) = log.recordsOf map offset.toInt [batch] := by
  simp only [StoredLog.recordsOf, List.flatMap_cons, List.flatMap_nil, List.append_nil,
    recordsFrom]
  congr 1
  refine List.filter_congr fun record hrecord => ?_
  have hplaced := log.valid.placed batch hmem
  have hinside := log.inside batch hmem record hrecord
  have hlow := batch.baseOffset.minValue_le_toInt
  have hmin : Int64.minValue.toInt = -2 ^ 63 := by decide
  have hsum : (batch.baseOffset + record.offsetDelta.toInt64).toInt =
      firstOffset batch + record.offsetDelta.toInt := by
    unfold lastOffset i64Max at hplaced
    rw [Int64.toInt_add, Int32.toInt_toInt64, firstOffset]
    exact Int.bmod_eq_of_le (by omega) (by omega)
  simp only [Int64.le_iff_toInt_le, hsum]

theorem StoredLog.recordsOf_append (log : StoredLog codecs) (start : Int)
    (front back : List RecordBatch) :
    log.recordsOf map start (front ++ back) =
      log.recordsOf map start front ++ log.recordsOf map start back := by
  simp [StoredLog.recordsOf]

theorem StoredLog.flatMap_recordsFrom (log : StoredLog codecs) {batches : List RecordBatch}
    (hmem : ∀ batch ∈ batches, batch ∈ log.batches) (offset : Int64) :
    batches.flatMap (fun b => recordsFrom map offset b (log.contents b)) =
      log.recordsOf map offset.toInt batches := by
  induction batches with
  | nil => rfl
  | cons batch batches ih =>
      rw [List.flatMap_cons, log.recordsFrom_eq (hmem batch List.mem_cons_self),
        ih fun b hb => hmem b (List.mem_cons_of_mem _ hb)]
      exact (log.recordsOf_append offset.toInt [batch] batches).symm

section Answers

variable (h : log.Answers config.isolationLevel offset entry before fetched rest tail)
include h

theorem StoredLog.Answers.mem_log {batch : RecordBatch} (hmem : batch ∈ fetched) :
    batch ∈ log.batches := by
  rw [h.split]
  exact List.mem_append_left _ (List.mem_append_right _ hmem)

theorem StoredLog.Answers.decodes :
    DecodesTo Ledger.charge [] decodeSet (entry.records.getD []) fetched
      (itemsCharges recordBatchSize RecordBatch.charges fetched 0) := by
  have htail : tail = [] ∨ ∃ batch : RecordBatch, batch.Fits ∧ batch.Cut tail := by
    refine h.cut.imp id ?_
    rintro ⟨next, hnext, hcut⟩
    have hnextMem : next ∈ log.batches := by
      rw [h.split]
      exact List.mem_append_right _ (List.mem_of_mem_head? hnext)
    exact ⟨next, (log.encoded next hnextMem).1, hcut⟩
  rw [h.bytes]
  exact decodeSet_decodes (fun b hb => log.encoded b (h.mem_log hb)) htail

theorem StoredLog.Answers.surfaced :
    (BatchFilter.new config.isolationLevel entry.abortedTransactions).surfaced fetched =
      visibleBatches config.isolationLevel rest fetched :=
  surfaced_of_covers config.isolationLevel entry.abortedTransactions (h.split ▸ log.valid) h.aborted

/-- A response is read exactly when the budgets of the fetch cover it. -/
theorem StoredLog.Answers.fetched_iff (map : ConsumedRecord → ρ) :
    (∃ result, fetchEntry codecs map config offset entry = .ok result) ↔
      log.Affordable config ⟨entry, before, fetched, rest, tail⟩ := by
  have hset := h.decodes
  unfold StoredLog.Affordable
  by_cases hgranted : granted (entry.records.getD []).length
      (itemsCharges recordBatchSize RecordBatch.charges fetched 0)
  · have hrun := runDecode_granted hset (by rwa [List.append_nil])
    rw [List.append_nil] at hrun
    have hwalk := materialise_affords map offset (.start config offset entry)
      fun b hb => log.holds b (h.mem_log hb)
    rw [fetchEntry_decoded hrun]
    refine Iff.trans ?_ (hwalk.trans ?_)
    · cases materialise codecs map offset fetched (.start config offset entry) with
      | ok walk => exact iff_of_true ⟨_, rfl⟩ ⟨walk, rfl⟩
      | error e => exact iff_of_false nofun nofun
    · rw [show (Walk.start config offset entry).filter.surfaced fetched = _ from h.surfaced]
      exact (and_iff_right hgranted).symm
  · obtain ⟨e, hrun⟩ := runDecode_refused hset (by rwa [List.append_nil])
    rw [List.append_nil] at hrun
    have hfailed : ∃ e, fetchEntry codecs map config offset entry = .error e :=
      fetchEntry_undecoded hrun
    obtain ⟨e, he⟩ := hfailed
    rw [he]
    exact iff_of_false nofun fun hcovered => hgranted hcovered.1

end Answers

/-- One fetch: the visible records of the response, and the end of its last
batch. -/
theorem StoredLog.Answers.records_eq
    (h : log.Answers config.isolationLevel offset entry before fetched rest tail)
    (hfetch : fetchEntry codecs map config offset entry = .ok result) :
    result.records = log.recordsOf map offset.toInt
        (visibleBatches config.isolationLevel rest fetched) ∧
      result.nextOffset = fetched.foldl (fun next b => maxI64 next (batchLast b + 1)) offset := by
  have hset := h.decodes
  unfold fetchEntry at hfetch
  obtain ⟨⟨batches, left⟩, hdecode, hfetch⟩ := except_bind_eq_ok.mp hfetch
  have hbatches : (batches, left) = (fetched, []) := by
    cases hrun : runDecode Limits.default decodeSet (entry.records.getD []) with
    | ok read =>
        rw [hrun] at hdecode
        cases hdecode
        exact runDecode_ok hset (by rwa [List.append_nil])
    | error e =>
        rw [hrun] at hdecode
        cases e <;> cases hdecode
  cases hbatches
  obtain ⟨walk, hwalk, hfetch⟩ := except_bind_eq_ok.mp hfetch
  cases hfetch
  obtain ⟨hrecords, hnext⟩ := materialise_ok (fun b hb => log.holds b (h.mem_log hb)) hwalk
  refine ⟨?_, hnext⟩
  show walk.records = _
  rw [hrecords, List.nil_append, h.surfaced]
  exact log.flatMap_recordsFrom (fun b hb => h.mem_log (mem_of_mem_visibleBatches hb)) offset

/-- Where one fetch leaves the next: past every batch the response held, and
not past any that it did not. -/
theorem StoredLog.Answers.next
    (h : log.Answers config.isolationLevel offset entry before fetched rest tail)
    (hfetch : fetchEntry codecs map config offset entry = .ok result) :
    offset.toInt ≤ result.nextOffset.toInt ∧
      (fetched ≠ [] → offset.toInt < result.nextOffset.toInt) ∧
      (∀ batch ∈ before ++ fetched, lastOffset batch < result.nextOffset.toInt) ∧
      (∀ batch ∈ rest, result.nextOffset.toInt ≤ lastOffset batch) ∧
      (fetched ≠ [] → ∀ batch ∈ rest, result.nextOffset.toInt ≤ firstOffset batch) := by
  obtain ⟨hle, hall, hbound⟩ := foldl_next fetched offset
    fun b hb => log.valid.placed b (by simp [h.split, hb])
  rw [← (h.records_eq hfetch).2] at hle hall hbound
  have hordered : ∀ c ∈ fetched, ∀ b ∈ rest, lastOffset c < firstOffset b := by
    have hpair := log.valid.ordered
    rw [h.split, List.pairwise_append] at hpair
    exact fun c hc b hb => hpair.2.2 c (List.mem_append_right _ hc) b hb
  refine ⟨hle, ?_, ?_, ?_, ?_⟩
  · intro hne
    obtain ⟨b, hb⟩ := List.exists_mem_of_ne_nil fetched hne
    have := h.ahead b (List.mem_append_left _ hb)
    have := hall b hb
    omega
  · intro b hb
    rcases List.mem_append.mp hb with hb | hb
    · have := h.behind b hb
      omega
    · exact hall b hb
  · intro b hb
    have hmem : b ∈ log.batches := by simp [h.split, hb]
    have hfirst := log.valid.first_le_last hmem
    refine hbound _ (h.ahead b (List.mem_append_right _ hb)) fun c hc => ?_
    have := hordered c hc b hb
    omega
  · intro hne b hb
    obtain ⟨c, hc⟩ := List.exists_mem_of_ne_nil fetched hne
    have := h.ahead c (List.mem_append_left _ hc)
    have := hordered c hc b hb
    exact hbound _ (by omega) fun c hc => hordered c hc b hb

end Steps

section Runs

variable {log : StoredLog codecs} {config : ConsumerConfig} {start next : Int64}
  {records : List ρ}

theorem StoredLog.recordsOf_congr (log : StoredLog codecs) {a b : Int}
    {batches : List RecordBatch} (hmem : ∀ batch ∈ batches, batch ∈ log.batches)
    (h : ∀ batch ∈ batches, a ≤ firstOffset batch ∧ b ≤ firstOffset batch) :
    log.recordsOf map a batches = log.recordsOf map b batches := by
  unfold StoredLog.recordsOf
  refine List.flatMap_congr fun batch hbatch => ?_
  congr 1
  refine List.filter_congr fun record hrecord => ?_
  have hinside := log.inside batch (hmem batch hbatch) record hrecord
  have hfirst := h batch hbatch
  rw [decide_eq_decide]
  omega

theorem StoredLog.recordsOf_behind (log : StoredLog codecs) {start : Int}
    {batches : List RecordBatch} (hmem : ∀ batch ∈ batches, batch ∈ log.batches)
    (h : ∀ batch ∈ batches, lastOffset batch < start) : log.recordsOf map start batches = [] := by
  unfold StoredLog.recordsOf
  rw [List.flatMap_eq_nil_iff]
  intro batch hbatch
  rw [List.map_eq_nil_iff, List.filter_eq_nil_iff]
  intro record hrecord
  have hinside := log.inside batch (hmem batch hbatch) record hrecord
  have hlast := h batch hbatch
  unfold firstOffset lastOffset at *
  simp only [decide_eq_true_eq]
  omega

/-- A boundary splits the visible batches of a log. -/
theorem filter_visibleBatches {level : IsolationLevel} {front back : List RecordBatch} {stop : Int}
    (hfront : ∀ batch ∈ front, lastOffset batch < stop)
    (hback : ∀ batch ∈ back, stop ≤ lastOffset batch) :
    (visibleBatches level [] (front ++ back)).filter (lastOffset · < stop) =
      visibleBatches level back front := by
  rw [visibleBatches_append, List.append_nil, List.filter_append]
  have hall : (visibleBatches level back front).filter (lastOffset · < stop) =
      visibleBatches level back front := by
    rw [List.filter_eq_self]
    intro batch hbatch
    simpa using hfront batch (mem_of_mem_visibleBatches hbatch)
  have hnone : (visibleBatches level [] back).filter (lastOffset · < stop) = [] := by
    rw [List.filter_eq_nil_iff]
    intro batch hbatch
    have := hback batch (mem_of_mem_visibleBatches hbatch)
    simp only [decide_eq_true_eq]
    omega
  rw [hall, hnone, List.append_nil]

/-- What a run keeps: no batch straddles the next offset once it has moved. -/
structure ReadUpTo (log : StoredLog codecs) (level : IsolationLevel) (map : ConsumedRecord → ρ)
    (start next : Int64) (records : List ρ) : Prop where
  aligned : next = start ∨ ∀ batch ∈ log.batches, next.toInt ≤ lastOffset batch →
    next.toInt ≤ firstOffset batch
  forward : start.toInt ≤ next.toInt
  records : records = log.visibleRecordsUpTo level map start.toInt next.toInt

theorem ReadUpTo.nothing (log : StoredLog codecs) (level : IsolationLevel)
    (map : ConsumedRecord → ρ) (start : Int64) : ReadUpTo log level map start start [] where
  aligned := .inl rfl
  forward := Int.le_refl _
  records := by
    refine (log.recordsOf_behind ?_ ?_).symm
    · exact fun b hb => mem_of_mem_visibleBatches (List.mem_of_mem_filter hb)
    · exact fun b hb => by simpa using (List.mem_filter.mp hb).2

/-- The step: one more fetch. -/
theorem ReadUpTo.fetch {entry : PartitionData} {before fetched rest : List RecordBatch}
    {tail : Bytes} {result : FetchResult ρ}
    (h : ReadUpTo log config.isolationLevel map start next records)
    (hanswers : log.Answers config.isolationLevel next entry before fetched rest tail)
    (hfetch : fetchEntry codecs map config next entry = .ok result) :
    ReadUpTo log config.isolationLevel map start result.nextOffset (records ++ result.records) := by
  obtain ⟨haligned, hle, hrecords⟩ := h
  obtain ⟨hmono, hstrict, hpast, hahead, hfirst⟩ := hanswers.next hfetch
  obtain ⟨hread, hnext⟩ := hanswers.records_eq hfetch
  have hmem : ∀ b ∈ visibleBatches config.isolationLevel rest fetched, b ∈ fetched :=
    fun b hb => mem_of_mem_visibleBatches hb
  refine ⟨?_, Int.le_trans hle hmono, ?_⟩
  · by_cases hempty : fetched = []
    · rw [hnext, hempty]
      exact haligned
    · refine .inr fun b hb hlast => ?_
      rw [hanswers.split] at hb
      rcases List.mem_append.mp hb with hb | hb
      · exact absurd (hpast b hb) (by omega)
      · exact hfirst hempty b hb
  · have hold : log.visibleRecordsUpTo config.isolationLevel map start.toInt next.toInt =
        log.recordsOf map start.toInt
          (visibleBatches config.isolationLevel (fetched ++ rest) before) := by
      rw [StoredLog.visibleRecordsUpTo, hanswers.split, List.append_assoc,
        filter_visibleBatches hanswers.behind hanswers.ahead]
    have hnew : log.recordsOf map next.toInt
          (visibleBatches config.isolationLevel rest fetched) =
        log.recordsOf map start.toInt (visibleBatches config.isolationLevel rest fetched) := by
      rcases haligned with rfl | haligned
      · rfl
      · refine log.recordsOf_congr (fun b hb => hanswers.mem_log (hmem b hb)) fun b hb => ?_
        have := haligned b (hanswers.mem_log (hmem b hb))
          (hanswers.ahead b (List.mem_append_left _ (hmem b hb)))
        omega
    rw [hrecords, hread, hold, hnew, ← log.recordsOf_append, ← visibleBatches_append,
      StoredLog.visibleRecordsUpTo, hanswers.split, filter_visibleBatches hpast hahead]

variable {responses : List Response} {results : List (FetchResult ρ)}

theorem consume_cons {entry : PartitionData} {entries : List PartitionData} :
    consume codecs map config start (entry :: entries) = .ok results ↔
      ∃ result later, fetchEntry codecs map config start entry = .ok result ∧
        consume codecs map config result.nextOffset entries = .ok later ∧
          results = result :: later := by
  rw [consume]
  constructor
  · intro h
    obtain ⟨result, hfetch, h⟩ := except_bind_eq_ok.mp h
    obtain ⟨later, hlater, h⟩ := except_bind_eq_ok.mp h
    exact ⟨result, later, hfetch, hlater, (Except.ok.inj h).symm⟩
  · rintro ⟨result, later, hfetch, hlater, rfl⟩
    exact except_bind_eq_ok.mpr ⟨result, hfetch, except_bind_eq_ok.mpr ⟨later, hlater, rfl⟩⟩

/-- The run: every response is read, or one is not covered. -/
theorem StoredLog.Serves.consumed_iff (hserves : log.Serves map config start responses) :
    (∃ results, consume codecs map config start (responses.map (·.entry)) = .ok results) ↔
      ∀ response ∈ responses, log.Affordable config response := by
  induction hserves with
  | nil => exact iff_of_true ⟨[], rfl⟩ nofun
  | @cons offset response responses hanswers _ ih =>
      rw [List.map_cons, List.forall_mem_cons, ← hanswers.fetched_iff map]
      constructor
      · rintro ⟨_, hrun⟩
        obtain ⟨result, later, hfetch, hlater, _⟩ := consume_cons.mp hrun
        exact ⟨⟨result, hfetch⟩, (ih result hfetch).mp ⟨later, hlater⟩⟩
      · rintro ⟨⟨result, hfetch⟩, hrest⟩
        obtain ⟨later, hlater⟩ := (ih result hfetch).mpr hrest
        exact ⟨_, consume_cons.mpr ⟨result, later, hfetch, hlater, rfl⟩⟩

/-- The run: what is read composes with what was read before. -/
theorem StoredLog.Serves.reads (hserves : log.Serves map config next responses)
    (hread : ReadUpTo log config.isolationLevel map start next records)
    (hrun : consume codecs map config next (responses.map (·.entry)) = .ok results) :
    ReadUpTo log config.isolationLevel map start (endOf next results)
        (records ++ results.flatMap (·.records)) ∧ MovesForward next responses results := by
  induction hserves generalizing records results with
  | nil =>
      obtain rfl : [] = results := Except.ok.inj hrun
      rw [List.flatMap_nil, List.append_nil]
      exact ⟨hread, trivial⟩
  | @cons offset response responses hanswers _ ih =>
      obtain ⟨result, later, hfetch, hlater, rfl⟩ := consume_cons.mp hrun
      obtain ⟨hrest, hforward⟩ := ih result hfetch (hread.fetch hanswers hfetch) hlater
      rw [List.flatMap_cons, ← List.append_assoc]
      exact ⟨hrest, (hanswers.next hfetch).2.1, hforward⟩

/-- Fetches that each start where the one before ended return exactly the
visible records, in order, each once, if and only if the budgets of a fetch
cover every response. -/
theorem consumption_composes_iff (hserves : log.Serves map config start responses) :
    (∃ results, consume codecs map config start (responses.map (·.entry)) = .ok results ∧
        log.Composes config.isolationLevel map start responses results) ↔
      ∀ response ∈ responses, log.Affordable config response := by
  rw [← hserves.consumed_iff]
  refine ⟨fun ⟨results, hrun, _⟩ => ⟨results, hrun⟩, fun ⟨results, hrun⟩ => ?_⟩
  obtain ⟨hread, hforward⟩ :=
    hserves.reads (ReadUpTo.nothing log config.isolationLevel map start) hrun
  have hupTo := hread.records
  rw [List.nil_append] at hupTo
  refine ⟨results, hrun, hupTo, fun hend => ?_, hforward⟩
  rw [hupTo, StoredLog.visibleRecordsUpTo, StoredLog.visibleRecords]
  congr 1
  rw [List.filter_eq_self]
  intro b hb
  simpa using hend b (mem_of_mem_visibleBatches hb)

section Gapped

def bareBatch (offset : Int64) (last : Int32) (deltas : List Int32) : RecordBatch :=
  { sampleBatch offset (-1) 0 none with
    lastOffsetDelta := last
    records := .plain (deltas.map fun delta => { Record.minimal with offsetDelta := delta }) }

/-- Offsets 1, 3 and 4 were compacted away. -/
def gapped : List RecordBatch := [bareBatch 0 2 [0, 2], bareBatch 5 0 [0]]

theorem gapped_encoded : ∀ batch ∈ gapped, batch.Fits ∧ batch.Coherent := by
  have hencode : ∀ batch ∈ gapped, batch.encode = .ok batch.bytes := by decide +kernel
  intro batch hmem
  refine ⟨(RecordBatch.encode_eq_ok (hencode batch hmem)).2, ?_⟩
  rcases List.mem_cons.mp hmem with rfl | hmem
  · rfl
  · obtain rfl := List.mem_singleton.mp hmem
    rfl

def plainContents (batch : RecordBatch) : List Record :=
  match batch.records with
  | .plain records => records
  | .compressed _ _ => []

def gappedLog : StoredLog Codecs.stored where
  batches := gapped
  contents := plainContents
  valid := ⟨by decide, by decide, by decide, by decide⟩
  encoded := gapped_encoded
  holds := by
    intro batch hmem
    rcases List.mem_cons.mp hmem with rfl | hmem
    · rfl
    · obtain rfl := List.mem_singleton.mp hmem
      rfl
  inside := by decide

def gappedEntry (bytes : Bytes) : PartitionData :=
  { partitionIndex := 0
    errorCode := ⟨0⟩
    highWatermark := 6
    lastStableOffset := 6
    abortedTransactions := none
    records := some bytes }

def firstEntry : PartitionData :=
  gappedEntry ((bareBatch 0 2 [0, 2]).bytes ++ (bareBatch 5 0 [0]).bytes.take 20)

def secondEntry : PartitionData := gappedEntry (bareBatch 5 0 [0]).bytes

theorem firstEntry_answers :
    gappedLog.Answers .readUncommitted 1 firstEntry [] [bareBatch 0 2 [0, 2]] [bareBatch 5 0 [0]]
      ((bareBatch 5 0 [0]).bytes.take 20) where
  split := rfl
  behind := by decide
  ahead := by decide
  whole := by decide
  bytes := by simp [firstEntry, gappedEntry]
  cut := .inr ⟨_, rfl, List.take_prefix _ _, by decide +kernel⟩
  aborted := fun h => nomatch h

theorem secondEntry_answers :
    gappedLog.Answers .readUncommitted 3 secondEntry [bareBatch 0 2 [0, 2]] [bareBatch 5 0 [0]] []
      [] where
  split := rfl
  behind := by decide
  ahead := by decide
  whole := by decide
  bytes := by simp [secondEntry, gappedEntry]
  cut := .inl rfl
  aborted := fun h => nomatch h

theorem firstEntry_fetched :
    fetchEntry Codecs.stored ConsumedRecord.offset ConsumerConfig.default 1 firstEntry =
      .ok { records := [2], nextOffset := 3, highWatermark := 6, lastStableOffset := 6 } := by
  decide +kernel

theorem secondEntry_fetched :
    fetchEntry Codecs.stored ConsumedRecord.offset ConsumerConfig.default 3 secondEntry =
      .ok { records := [5], nextOffset := 6, highWatermark := 6, lastStableOffset := 6 } := by
  decide +kernel

def gappedResponses : List Response :=
  [⟨firstEntry, [], [bareBatch 0 2 [0, 2]], [bareBatch 5 0 [0]],
      (bareBatch 5 0 [0]).bytes.take 20⟩,
    ⟨secondEntry, [bareBatch 0 2 [0, 2]], [bareBatch 5 0 [0]], [], []⟩]

theorem gapped_serves :
    gappedLog.Serves ConsumedRecord.offset ConsumerConfig.default 1 gappedResponses := by
  refine .cons firstEntry_answers fun result hfirst => ?_
  obtain rfl := Except.ok.inj (firstEntry_fetched.symm.trans hfirst)
  exact .cons secondEntry_answers fun _ _ => .nil _

/-- Two fetches from offset 1 return the two records that are left from there. -/
theorem consumption_composes_gapped :
    ∃ results, consume Codecs.stored ConsumedRecord.offset ConsumerConfig.default 1
        [firstEntry, secondEntry] = .ok results ∧
      gappedLog.Composes .readUncommitted ConsumedRecord.offset 1 gappedResponses results := by
  refine (consumption_composes_iff gapped_serves).mpr fun response hmem => ?_
  rcases List.mem_cons.mp hmem with rfl | hmem
  · exact (firstEntry_answers.fetched_iff ConsumedRecord.offset).mp ⟨_, firstEntry_fetched⟩
  · obtain rfl := List.mem_singleton.mp hmem
    exact (secondEntry_answers.fetched_iff ConsumedRecord.offset).mp ⟨_, secondEntry_fetched⟩

end Gapped

section Crowded

def crowdBatch : RecordBatch := assembled 0 (numbered crowd) .none none (.plain (numbered crowd))

theorem length_numbered_crowd : (numbered crowd).length = 257 := by
  rw [length_numbered, crowd, List.length_replicate]

theorem crowdBatch_fits : crowdBatch.Fits :=
  assembled_plain_fits 0 .none none (fun _ hmem => crowd_fits hmem)
    (by rw [length_numbered_crowd]; decide) (Nat.le_trans crowd_size (by decide))

theorem crowdBatch_contents : plainContents crowdBatch = numbered crowd := by
  simp only [plainContents, crowdBatch, assembled]

theorem crowdBatch_coherent : crowdBatch.Coherent :=
  (assembled_attributes 0 (numbered crowd) none (.plain (numbered crowd))
    (fun bits (h : Compression.none = .unknown bits) => by cases h)).1

theorem crowdBatch_last : crowdBatch.lastOffsetDelta.toInt = 256 := by
  show (saturatingI32 ((numbered crowd).length - 1)).toInt = 256
  rw [length_numbered_crowd]
  rfl

theorem crowdBatch_valid : ValidLog [crowdBatch] := by
  refine ⟨fun batch hmem => ?_, List.pairwise_singleton _ _, fun batch hmem hcontrol => ?_,
    fun batch hmem htransactional => ?_⟩
  · obtain rfl := List.mem_singleton.mp hmem
    refine ⟨by rw [crowdBatch_last]; decide, ?_⟩
    rw [lastOffset, crowdBatch_last]
    decide
  · obtain rfl := List.mem_singleton.mp hmem
    cases hcontrol
  · obtain rfl := List.mem_singleton.mp hmem
    cases htransactional

theorem crowdBatch_inside (record : Record) (hrecord : record ∈ plainContents crowdBatch) :
    0 ≤ record.offsetDelta.toInt ∧
      record.offsetDelta.toInt ≤ crowdBatch.lastOffsetDelta.toInt := by
  rw [crowdBatch_contents] at hrecord
  obtain ⟨i, rfl⟩ := crowd_record hrecord
  have hdelta : (crowdRecord i).offsetDelta.toInt = i :=
    Int32.toInt_ofNat_of_lt (Nat.lt_trans i.isLt (by decide))
  rw [crowdBatch_last, hdelta]
  omega

def crowdLog : StoredLog Codecs.stored where
  batches := [crowdBatch]
  contents := plainContents
  valid := crowdBatch_valid
  encoded := List.forall_mem_singleton.mpr ⟨crowdBatch_fits, crowdBatch_coherent⟩
  holds := List.forall_mem_singleton.mpr crowdBatch_contents
  inside := List.forall_mem_singleton.mpr crowdBatch_inside

def crowdResponse : Response := ⟨onlyBatch crowd, [], [crowdBatch], [], []⟩

theorem crowdResponse_answers :
    crowdLog.Answers .readUncommitted 0 (onlyBatch crowd) [] [crowdBatch] [] [] where
  split := rfl
  behind := nofun
  ahead := by
    intro batch hmem
    obtain rfl := List.mem_singleton.mp hmem
    rw [lastOffset, crowdBatch_last]
    decide
  whole := nofun
  bytes := by
    show assignOffset 0 crowdBatch.bytes = _
    rw [assignOffset_bytes, List.flatMap_cons, List.flatMap_nil, List.append_nil]
    exact (List.append_nil _).symm
  cut := .inl rfl
  aborted := fun h => nomatch h

/-- A whole response that a fetch refuses. -/
theorem not_consumption_composes :
    ¬ ∀ (codecs : Codecs) (log : StoredLog codecs) (config : ConsumerConfig) (start : Int64)
        (responses : List Response), log.Serves id config start responses →
      ∃ results, consume codecs id config start (responses.map (·.entry)) = .ok results ∧
        log.Composes config.isolationLevel id start responses results := by
  intro h
  have hserves : crowdLog.Serves id ConsumerConfig.default 0 [crowdResponse] :=
    .cons crowdResponse_answers fun _ _ => .nil _
  have haffordable := (consumption_composes_iff hserves).mp (h _ _ _ _ _ hserves) crowdResponse
    (List.mem_singleton_self _)
  have hbytes : crowdBatch.bytes.length =
      batchOverhead + 12 + ((numbered crowd).flatMap Record.bytes).length := length_bytes_plain rfl
  have hgranted : granted crowdBatch.bytes.length (plainCharges (numbered crowd)) := by
    have hentry : ((onlyBatch crowd).records.getD []) = crowdBatch.bytes :=
      assignOffset_bytes 0 crowdBatch
    have hset := haffordable.1
    rw [show crowdResponse.entry = onlyBatch crowd from rfl, hentry] at hset
    exact hset
  rw [hbytes] at hgranted
  exact crowd_refused (by rwa [BudgetCovers, if_pos rfl])

end Crowded

end Runs

end Odradek.Client
