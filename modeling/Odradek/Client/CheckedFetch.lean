import Mathlib.Algebra.Group.Int.Defs
import Odradek.Client.Consumption

/-!
The fetch path in a build that checks `i64` additions. Its additions are those
of `fetch_once`, `keeps` and `push_record`, in the source's order; one that
overflows panics. The checked path returns what the wrapping one does when the
ends of all batches, and the coordinates of all records it reads, are in range.
-/

namespace Odradek.Client

open Library Library.Decoder Odradek.Protocol

def SumInRange (a b : Int64) : Prop :=
  -2 ^ 63 ≤ a.toInt + b.toInt ∧ a.toInt + b.toInt < 2 ^ 63

instance decidableSumInRange (a b : Int64) : Decidable (SumInRange a b) :=
  inferInstanceAs (Decidable (_ ∧ _))

def addChecked (a b : Int64) : Fetch Int64 :=
  if SumInRange a b then .ok (a + b) else .error .panic

theorem addChecked_eq_ok {a b c : Int64} :
    addChecked a b = .ok c ↔ SumInRange a b ∧ a + b = c := by
  unfold addChecked
  by_cases h : SumInRange a b
  · simp [h]
  · simp [h]

theorem toInt_add_inRange {a b : Int64} (h : SumInRange a b) :
    (a + b).toInt = a.toInt + b.toInt := by
  obtain ⟨hlow, hhigh⟩ := h
  rw [Int64.toInt_add]
  exact Int.bmod_eq_of_le (by omega) (by omega)

section Definitions

variable {ρ : Type} (codecs : Codecs) (map : ConsumedRecord → ρ)

def pushRecordChecked (out : List ρ) (batch : RecordBatch) (record : Record)
    (minOffset : Int64) : Fetch (List ρ) := do
  let absolute ← addChecked batch.baseOffset record.offsetDelta.toInt64
  if absolute < minOffset then .ok out
  else do
    let timestamp ← addChecked batch.baseTimestamp record.timestampDelta
    let consumed : ConsumedRecord :=
      { offset := absolute
        timestamp := timestamp
        key := record.key
        value := record.value
        headers := record.headers }
    .ok (out ++ [map consumed])

def pushRecordsChecked (batch : RecordBatch) (minOffset : Int64) :
    List Record → List ρ → Fetch (List ρ)
  | [], out => .ok out
  | record :: records, out => do
    let out ← pushRecordChecked map out batch record minOffset
    pushRecordsChecked batch minOffset records out

def decodeCompressedRecordsChecked (batch : RecordBatch) (minOffset : Int64) :
    (count : Nat) → (data : Bytes) → List ρ → Fetch (List ρ × Bytes)
  | 0, data, out => .ok (out, data)
  | count + 1, data, out => do
    let (record, data) ← liftDecode (runDecode Limits.default Record.decode data)
    let out ← pushRecordChecked map out batch record minOffset
    decodeCompressedRecordsChecked batch minOffset count data out

def decodeCompressedChecked (out : List ρ) (budget : FetchBudget) (batch : RecordBatch)
    (count : Int32) (payload : Bytes) (minOffset : Int64) : Fetch (List ρ × FetchBudget) := do
  if count.toInt < 0 then
    violation s!"batch claims a negative record count ({count.toInt})"
  else
    let count := count.toInt.toNat
    let data ← liftClient (decompress codecs batch.compression payload)
    let budget ← budget.claimDecompressed data.length
    let possible := data.length / minRecordWireLen
    if possible < count then
      violation (s!"batch claims {count} records but its {data.length} decompressed byte(s) " ++
        s!"can hold at most {possible}")
    else
      let budget ← budget.claimRecords count
      let (out, left) ← decodeCompressedRecordsChecked map batch minOffset count data out
      if left.length ≠ 0 then
        violation s!"{left.length} byte(s) left after the batch's {count} compressed records"
      else pure (out, budget)

/-- `keeps` adds where a read-committed fetch meets a producer's batch. -/
def BatchFilter.keepsChecked (filter : BatchFilter) (batch : RecordBatch) :
    Fetch (Bool × BatchFilter) :=
  if filter.readCommitted ∧ 0 ≤ batch.producerId then
    addChecked batch.baseOffset batch.lastOffsetDelta.toInt64 >>= fun _ => .ok (filter.keeps batch)
  else .ok (filter.keeps batch)

def materialiseBatchChecked (offset : Int64) (walk : Walk ρ) (batch : RecordBatch) :
    Fetch (Walk ρ) := do
  let last ← addChecked batch.baseOffset batch.lastOffsetDelta.toInt64
  let next ← addChecked last 1
  let nextOffset := maxI64 walk.nextOffset next
  let (kept, filter) ← walk.filter.keepsChecked batch
  if kept then
    match batch.records with
    | .plain plain =>
      let budget ← walk.budget.claimRecords plain.length
      let records ← pushRecordsChecked map batch offset plain walk.records
      pure { records, budget, filter, nextOffset }
    | .compressed count payload =>
      let (records, budget) ←
        decodeCompressedChecked codecs map walk.records walk.budget batch count payload offset
      pure { records, budget, filter, nextOffset }
  else
    pure { walk with filter, nextOffset }

def materialiseChecked (offset : Int64) : List RecordBatch → Walk ρ → Fetch (Walk ρ)
  | [], walk => .ok walk
  | batch :: batches, walk => do
    let walk ← materialiseBatchChecked codecs map offset walk batch
    materialiseChecked offset batches walk

def fetchEntryChecked (config : ConsumerConfig) (offset : Int64) (entry : PartitionData) :
    Fetch (FetchResult ρ) := do
  let (batches, _) ← liftDecode (runDecode Limits.default decodeSet (entry.records.getD []))
  let walk ← materialiseChecked codecs map offset batches (.start config offset entry)
  pure (walk.result entry)

end Definitions

/-- The last offset of the batch and the one after it are `i64`s. -/
def EndInRange (batch : RecordBatch) : Prop :=
  -2 ^ 63 ≤ batch.baseOffset.toInt + batch.lastOffsetDelta.toInt ∧
    batch.baseOffset.toInt + batch.lastOffsetDelta.toInt + 1 < 2 ^ 63

instance decidableEndInRange (batch : RecordBatch) : Decidable (EndInRange batch) :=
  inferInstanceAs (Decidable (_ ∧ _))

/-- The record's offset is an `i64`, and its timestamp too unless the record
predates `offset`. -/
def CoordinatesInRange (offset : Int64) (batch : RecordBatch) (record : Record) : Prop :=
  SumInRange batch.baseOffset record.offsetDelta.toInt64 ∧
    (offset.toInt ≤ batch.baseOffset.toInt + record.offsetDelta.toInt →
      SumInRange batch.baseTimestamp record.timestampDelta)

instance decidableCoordinatesInRange (offset : Int64) (batch : RecordBatch) (record : Record) :
    Decidable (CoordinatesInRange offset batch record) :=
  inferInstanceAs (Decidable (_ ∧ (_ → _)))

/-- The records that decode from the front of `data`, `count` at most. -/
def leadingRecords : (count : Nat) → (data : Bytes) → List Record
  | 0, _ => []
  | count + 1, data =>
    match runDecode Limits.default Record.decode data with
    | .ok (record, data) => record :: leadingRecords count data
    | .error _ => []

def carried (codecs : Codecs) (batch : RecordBatch) : List Record :=
  match batch.records with
  | .plain plain => plain
  | .compressed count payload =>
    match decompress codecs batch.compression payload with
    | .ok data => leadingRecords count.toInt.toNat data
    | .error _ => []

section Steps

variable {ρ : Type} {codecs : Codecs} {map : ConsumedRecord → ρ} {batch : RecordBatch}
  {offset : Int64}

theorem endInRange_iff :
    EndInRange batch ↔
      SumInRange batch.baseOffset batch.lastOffsetDelta.toInt64 ∧
        SumInRange (batch.baseOffset + batch.lastOffsetDelta.toInt64) 1 := by
  have hone : (1 : Int64).toInt = 1 := rfl
  unfold EndInRange
  constructor
  · rintro ⟨hlow, hhigh⟩
    have hlast : SumInRange batch.baseOffset batch.lastOffsetDelta.toInt64 := by
      unfold SumInRange
      rw [Int32.toInt_toInt64]
      omega
    refine ⟨hlast, ?_⟩
    unfold SumInRange
    rw [toInt_add_inRange hlast, Int32.toInt_toInt64, hone]
    omega
  · rintro ⟨hlast, hnext⟩
    unfold SumInRange at hnext
    rw [toInt_add_inRange hlast, hone] at hnext
    unfold SumInRange at hlast
    rw [Int32.toInt_toInt64] at hlast hnext
    omega

theorem coordinatesInRange_iff {record : Record} :
    CoordinatesInRange offset batch record ↔
      SumInRange batch.baseOffset record.offsetDelta.toInt64 ∧
        (offset ≤ batch.baseOffset + record.offsetDelta.toInt64 →
          SumInRange batch.baseTimestamp record.timestampDelta) := by
  unfold CoordinatesInRange
  refine and_congr_right fun hsum => ?_
  rw [Int64.le_iff_toInt_le, toInt_add_inRange hsum, Int32.toInt_toInt64]

theorem pushRecordChecked_eq_ok {out out' : List ρ} {record : Record} :
    pushRecordChecked map out batch record offset = .ok out' ↔
      CoordinatesInRange offset batch record ∧ pushRecord map out batch record offset = out' := by
  unfold pushRecordChecked
  rw [coordinatesInRange_iff]
  simp only [except_bind_eq_ok, addChecked_eq_ok]
  unfold pushRecord
  by_cases hlt : batch.baseOffset + record.offsetDelta.toInt64 < offset
  · have hnot : ¬ offset ≤ batch.baseOffset + record.offsetDelta.toInt64 := Int64.not_le.mpr hlt
    simp [hlt, hnot]
  · have hle : offset ≤ batch.baseOffset + record.offsetDelta.toInt64 := Int64.not_lt.mp hlt
    simp [hlt, hle, except_bind_eq_ok, addChecked_eq_ok, consumed, and_assoc]

theorem pushRecordsChecked_eq_ok {out out' : List ρ} {records : List Record} :
    pushRecordsChecked map batch offset records out = .ok out' ↔
      (∀ record ∈ records, CoordinatesInRange offset batch record) ∧
        records.foldl (fun out record => pushRecord map out batch record offset) out = out' := by
  induction records generalizing out with
  | nil => simp [pushRecordsChecked]
  | cons record records ih =>
      rw [pushRecordsChecked, except_bind_eq_ok, List.foldl_cons, List.forall_mem_cons, and_assoc]
      simp only [pushRecordChecked_eq_ok, ih]
      constructor
      · rintro ⟨_, ⟨hhead, rfl⟩, htail⟩
        exact ⟨hhead, htail⟩
      · rintro ⟨hhead, htail⟩
        exact ⟨_, ⟨hhead, rfl⟩, htail⟩

/-- The checked loop succeeds where the unchecked one does and no sum leaves its range. -/
theorem decodeCompressedRecordsChecked_eq_ok {count : Nat} {data : Bytes} {out : List ρ}
    {read : List ρ × Bytes} :
    decodeCompressedRecordsChecked map batch offset count data out = .ok read ↔
      (∀ record ∈ leadingRecords count data, CoordinatesInRange offset batch record) ∧
        decodeCompressedRecords map batch offset count data out = .ok read := by
  induction count generalizing data out with
  | zero => simp [decodeCompressedRecordsChecked, decodeCompressedRecords, leadingRecords]
  | succ count ih =>
      rw [decodeCompressedRecordsChecked, decodeCompressedRecords, leadingRecords]
      cases runDecode Limits.default Record.decode data with
      | error e => cases e <;> simp [liftDecode, except_bind_eq_ok]
      | ok pair =>
          obtain ⟨record, rest⟩ := pair
          simp only [liftDecode, except_bind_eq_ok, pushRecordChecked_eq_ok, ih,
            List.forall_mem_cons, Except.ok.injEq, exists_eq_left', and_assoc]
          constructor
          · rintro ⟨_, hhead, rfl, htail⟩
            exact ⟨hhead, htail⟩
          · rintro ⟨hhead, htail⟩
            exact ⟨_, hhead, rfl, htail⟩

theorem decodeCompressedChecked_eq_ok {out : List ρ} {budget : FetchBudget} {count : Int32}
    {payload : Bytes} {read : List ρ × FetchBudget}
    (hrecords : batch.records = .compressed count payload) :
    decodeCompressedChecked codecs map out budget batch count payload offset = .ok read ↔
      decodeCompressed codecs map out budget batch count payload offset = .ok read ∧
        ∀ record ∈ carried codecs batch, CoordinatesInRange offset batch record := by
  unfold decodeCompressedChecked decodeCompressed carried
  simp only [hrecords]
  by_cases hneg : count.toInt < 0
  · simp [hneg, violation]
  · rw [if_neg hneg, if_neg hneg]
    cases decompress codecs batch.compression payload with
    | error e => simp [liftClient, except_bind_eq_ok]
    | ok data =>
        simp only [liftClient, except_bind_eq_ok, Except.ok.injEq, exists_eq_left']
        by_cases hcount : data.length / minRecordWireLen < count.toInt.toNat
        · simp only [if_pos hcount, violation, reduceCtorEq, and_false, exists_false, false_and]
        · simp only [if_neg hcount, except_bind_eq_ok, decodeCompressedRecordsChecked_eq_ok]
          constructor
          · rintro ⟨spent, hspent, claimed, hclaimed, result, ⟨hrange, hread⟩, hdone⟩
            exact ⟨⟨spent, hspent, claimed, hclaimed, result, hread, hdone⟩, hrange⟩
          · rintro ⟨⟨spent, hspent, claimed, hclaimed, result, hread, hdone⟩, hrange⟩
            exact ⟨spent, hspent, claimed, hclaimed, result, ⟨hrange, hread⟩, hdone⟩

theorem keepsChecked_eq_ok {filter : BatchFilter} {kept : Bool × BatchFilter}
    (hend : EndInRange batch) :
    filter.keepsChecked batch = .ok kept ↔ filter.keeps batch = kept := by
  unfold BatchFilter.keepsChecked
  split
  · simp [except_bind_eq_ok, addChecked_eq_ok, (endInRange_iff.mp hend).1]
  · simp

/-- The step: a batch is materialised as before when its end is in range, and
the coordinates of its records too if it is kept. -/
theorem materialiseBatchChecked_eq_ok {walk walk' : Walk ρ} :
    materialiseBatchChecked codecs map offset walk batch = .ok walk' ↔
      materialiseBatch codecs map offset walk batch = .ok walk' ∧ EndInRange batch ∧
        ((walk.filter.keeps batch).1 = true →
          ∀ record ∈ carried codecs batch, CoordinatesInRange offset batch record) := by
  unfold materialiseBatchChecked materialiseBatch
  simp only [except_bind_eq_ok, addChecked_eq_ok]
  by_cases hend : EndInRange batch
  · obtain ⟨hlast, hnext⟩ := endInRange_iff.mp hend
    simp only [keepsChecked_eq_ok hend, hlast, hnext, true_and, exists_eq_left']
    rw [and_iff_right hend]
    by_cases hkept : (walk.filter.keeps batch).1 = true
    · simp only [hkept, if_true, forall_const]
      cases hrecords : batch.records with
      | plain plain =>
          simp only [except_bind_eq_ok, pushRecordsChecked_eq_ok, carried, hrecords]
          constructor
          · rintro ⟨budget, hbudget, _, ⟨hrange, rfl⟩, hwalk⟩
            exact ⟨⟨budget, hbudget, hwalk⟩, hrange⟩
          · rintro ⟨⟨budget, hbudget, hwalk⟩, hrange⟩
            exact ⟨budget, hbudget, _, ⟨hrange, rfl⟩, hwalk⟩
      | compressed count payload =>
          simp only [except_bind_eq_ok, decodeCompressedChecked_eq_ok hrecords]
          constructor
          · rintro ⟨read, ⟨hread, hrange⟩, hwalk⟩
            exact ⟨⟨read, hread, hwalk⟩, hrange⟩
          · rintro ⟨⟨read, hread, hwalk⟩, hrange⟩
            exact ⟨read, ⟨hread, hrange⟩, hwalk⟩
    · simp [hkept]
  · refine iff_of_false ?_ fun h => hend h.2.1
    rintro ⟨_, ⟨hlast, rfl⟩, _, ⟨hnext, _⟩, _⟩
    exact hend (endInRange_iff.mpr ⟨hlast, hnext⟩)

/-- A batch moves the filter as `keeps` does, whatever is made of its records. -/
theorem materialiseBatch_filter {walk walk' : Walk ρ}
    (h : materialiseBatch codecs map offset walk batch = .ok walk') :
    walk'.filter = (walk.filter.keeps batch).2 := by
  unfold materialiseBatch at h
  simp only at h
  by_cases hkept : (walk.filter.keeps batch).1 = true
  · rw [if_pos hkept] at h
    cases hrecords : batch.records with
    | plain plain =>
        simp only [hrecords] at h
        obtain ⟨_, _, h⟩ := except_bind_eq_ok.mp h
        cases h
        rfl
    | compressed count payload =>
        simp only [hrecords] at h
        obtain ⟨_, _, h⟩ := except_bind_eq_ok.mp h
        cases h
        rfl
  · rw [if_neg hkept] at h
    cases h
    rfl

/-- The run: the coordinates asked for are those of the surfaced batches. -/
theorem materialiseChecked_eq_ok {batches : List RecordBatch} {walk walk' : Walk ρ} :
    materialiseChecked codecs map offset batches walk = .ok walk' ↔
      materialise codecs map offset batches walk = .ok walk' ∧
        (∀ batch ∈ batches, EndInRange batch) ∧
        ∀ batch ∈ walk.filter.surfaced batches, ∀ record ∈ carried codecs batch,
          CoordinatesInRange offset batch record := by
  induction batches generalizing walk with
  | nil => simp [materialiseChecked, materialise, BatchFilter.surfaced]
  | cons batch batches ih =>
      rw [materialiseChecked, materialise, BatchFilter.surfaced, List.forall_mem_cons]
      simp only [except_bind_eq_ok, materialiseBatchChecked_eq_ok, ih]
      constructor
      · rintro ⟨middle, ⟨hbatch, hend, hrange⟩, hrest, hends, hranges⟩
        refine ⟨⟨middle, hbatch, hrest⟩, ⟨hend, hends⟩, ?_⟩
        rw [materialiseBatch_filter hbatch] at hranges
        by_cases hkept : (walk.filter.keeps batch).1 = true
        · rw [if_pos hkept]
          exact List.forall_mem_cons.mpr ⟨hrange hkept, hranges⟩
        · rw [if_neg hkept]
          exact hranges
      · rintro ⟨⟨middle, hbatch, hrest⟩, ⟨hend, hends⟩, hranges⟩
        refine ⟨middle, ⟨hbatch, hend, fun hkept => ?_⟩, hrest, hends, ?_⟩
        · rw [if_pos hkept] at hranges
          exact (List.forall_mem_cons.mp hranges).1
        · rw [materialiseBatch_filter hbatch]
          by_cases hkept : (walk.filter.keeps batch).1 = true
          · rw [if_pos hkept] at hranges
            exact (List.forall_mem_cons.mp hranges).2
          · rwa [if_neg hkept] at hranges

end Steps

section Entry

variable {ρ : Type} {codecs : Codecs} {map : ConsumedRecord → ρ} {config : ConsumerConfig}
  {offset : Int64} {entry : PartitionData} {batches : List RecordBatch} {left : Bytes}
  {result : FetchResult ρ}

theorem fetchEntry_eq_ok
    (hdecode : runDecode Limits.default decodeSet (entry.records.getD []) = .ok (batches, left)) :
    fetchEntry codecs map config offset entry = .ok result ↔
      ∃ walk, materialise codecs map offset batches (.start config offset entry) = .ok walk ∧
        walk.result entry = result := by
  rw [fetchEntry_decoded hdecode]
  cases materialise codecs map offset batches (.start config offset entry) <;> simp [Except.map]

theorem fetchEntryChecked_eq_ok
    (hdecode : runDecode Limits.default decodeSet (entry.records.getD []) = .ok (batches, left)) :
    fetchEntryChecked codecs map config offset entry = .ok result ↔
      ∃ walk, materialiseChecked codecs map offset batches (.start config offset entry) =
        .ok walk ∧ walk.result entry = result := by
  rw [fetchEntryChecked, hdecode]
  simp only [liftDecode, except_bind_eq_ok, Except.ok.injEq, exists_eq_left', pure, Except.pure]

/-- A fetch that returns a result computed it without overflow exactly when the
batches, and the records it read from them, are in range. -/
theorem fetchEntry_checked_iff
    (hdecode : runDecode Limits.default decodeSet (entry.records.getD []) = .ok (batches, left))
    (hfetch : fetchEntry codecs map config offset entry = .ok result) :
    fetchEntryChecked codecs map config offset entry = .ok result ↔
      (∀ batch ∈ batches, EndInRange batch) ∧
        ∀ batch ∈ (BatchFilter.new config.isolationLevel entry.abortedTransactions).surfaced
          batches, ∀ record ∈ carried codecs batch, CoordinatesInRange offset batch record := by
  obtain ⟨walk, hwalk, hresult⟩ := (fetchEntry_eq_ok hdecode).mp hfetch
  rw [fetchEntryChecked_eq_ok hdecode]
  simp only [materialiseChecked_eq_ok]
  constructor
  · rintro ⟨_, ⟨_, hrange⟩, _⟩
    exact hrange
  · exact fun hrange => ⟨walk, ⟨hwalk, hrange⟩, hresult⟩

theorem fetchEntry_checked_gapped :
    fetchEntryChecked Codecs.stored ConsumedRecord.offset ConsumerConfig.default 1 firstEntry =
      .ok { records := [2], nextOffset := 3, highWatermark := 6, lastStableOffset := 6 } := by
  have hdecode : runDecode Limits.default decodeSet (firstEntry.records.getD []) =
      .ok ([bareBatch 0 2 [0, 2]], []) := by decide +kernel
  exact (fetchEntry_checked_iff hdecode firstEntry_fetched).mpr (by decide +kernel)

/-- One record at the last offset there is. -/
def topEntry : PartitionData := gappedEntry (bareBatch Int64.maxValue 0 [0]).bytes

theorem fetchEntry_overflows :
    runDecode Limits.default decodeSet (topEntry.records.getD []) =
        .ok ([bareBatch Int64.maxValue 0 [0]], []) ∧
      fetchEntry Codecs.stored ConsumedRecord.offset ConsumerConfig.default 0 topEntry =
        .ok { records := [Int64.maxValue], nextOffset := 0, highWatermark := 6
              lastStableOffset := 6 } ∧
      fetchEntryChecked Codecs.stored ConsumedRecord.offset ConsumerConfig.default 0 topEntry =
        .error .panic := by
  decide +kernel

end Entry

end Odradek.Client
