import Mathlib.Algebra.BigOperators.Group.List.Basic
import Odradek.Client.Consumption
import Odradek.Protocol.Reencoding

/-!
What a fetch may spend, whatever the response holds. Every batch the filter
keeps draws on the two allowances, a control or aborted batch draws nothing, and
what is left over is the limit less the sum of all draws. A compressed batch has
passed every check before the first of its records is decoded.
-/

namespace Odradek.Client

open Library Library.Decoder Odradek.Protocol

section Costs

variable (codecs : Codecs)

def claimedRecords (batch : RecordBatch) : Nat :=
  match batch.records with
  | .plain records => records.length
  | .compressed count _ => count.toInt.toNat

def decompressedLen (batch : RecordBatch) : Nat :=
  match batch.records with
  | .plain _ => 0
  | .compressed _ payload =>
    match decompress codecs batch.compression payload with
    | .ok data => data.length
    | .error _ => 0

def totalClaimed (batches : List RecordBatch) : Nat := (batches.map claimedRecords).sum

def totalDecompressed (batches : List RecordBatch) : Nat :=
  (batches.map (decompressedLen codecs)).sum

/-- What `decode_compressed` does before its loop: the count, the bytes, and
what is left to spend. -/
def openCompressed (budget : FetchBudget) (batch : RecordBatch) (count : Int32)
    (payload : Bytes) : Fetch (Nat × Bytes × FetchBudget) := do
  if count.toInt < 0 then
    violation s!"batch claims a negative record count ({count.toInt})"
  else
    let count := count.toInt.toNat
    let data ← liftClient (decompress codecs batch.compression payload)
    let budget ← budget.claimDecompressed data.length
    let possible := data.length / minRecordWireLen
    if possible < count then
      violation (s!"batch claims {count} records but its {data.length} decompressed byte(s) " ++
        s!"can hold at most {possible}")
    else
      let budget ← budget.claimRecords count
      pure (count, data, budget)

end Costs

section Steps

variable {ρ : Type} {codecs : Codecs} {map : ConsumedRecord → ρ} {offset : Int64}
  {batch : RecordBatch}

/-- The loop is entered with what the checks let through. -/
theorem decodeCompressed_eq (out : List ρ) (budget : FetchBudget) (count : Int32)
    (payload : Bytes) :
    decodeCompressed codecs map out budget batch count payload offset =
      openCompressed codecs budget batch count payload >>= fun opened =>
        decodeCompressedRecords map batch offset opened.1 opened.2.1 out >>= fun read =>
          if read.2.length ≠ 0 then
            violation
              s!"{read.2.length} byte(s) left after the batch's {opened.1} compressed records"
          else pure (read.1, opened.2.2) := by
  unfold decodeCompressed openCompressed
  by_cases hneg : count.toInt < 0
  · simp only [if_pos hneg]
    rfl
  · simp only [if_neg hneg]
    cases decompress codecs batch.compression payload with
    | error e => rfl
    | ok data =>
        show (budget.claimDecompressed data.length >>= _) =
          ((budget.claimDecompressed data.length >>= _) >>= _)
        cases budget.claimDecompressed data.length with
        | error e => rfl
        | ok spent =>
            by_cases hmany : data.length / minRecordWireLen < count.toInt.toNat
            · simp only [bind, Except.bind, if_pos hmany]
              rfl
            · simp only [bind, Except.bind, if_neg hmany]
              cases spent.claimRecords count.toInt.toNat <;> rfl

theorem claimRecords_ok {budget left : FetchBudget} {count : Nat}
    (h : budget.claimRecords count = .ok left) :
    left.recordsLeft + count = budget.recordsLeft ∧
      left.decompressedLeft = budget.decompressedLeft := by
  unfold FetchBudget.claimRecords at h
  split at h
  · cases h
  · cases h
    exact ⟨Nat.sub_add_cancel (Nat.le_of_not_lt ‹_›), rfl⟩

theorem claimDecompressed_ok {budget left : FetchBudget} {len : Nat}
    (h : budget.claimDecompressed len = .ok left) :
    left.decompressedLeft + len = budget.decompressedLeft ∧
      left.recordsLeft = budget.recordsLeft := by
  unfold FetchBudget.claimDecompressed at h
  split at h
  · cases h
  · cases h
    exact ⟨Nat.sub_add_cancel (Nat.le_of_not_lt ‹_›), rfl⟩

/-- What holds when the records of a compressed batch begin to be decoded. -/
theorem openCompressed_ok {budget left : FetchBudget} {count : Int32} {payload data : Bytes}
    {n : Nat} (h : openCompressed codecs budget batch count payload = .ok (n, data, left)) :
    decompress codecs batch.compression payload = .ok data ∧ 0 ≤ count.toInt ∧
      n = count.toInt.toNat ∧ minRecordWireLen * n ≤ data.length ∧
      left.recordsLeft + n = budget.recordsLeft ∧
      left.decompressedLeft + data.length = budget.decompressedLeft := by
  unfold openCompressed at h
  split at h
  · cases h
  · obtain ⟨read, hdata, h⟩ := except_bind_eq_ok.mp h
    obtain ⟨spent, hspent, h⟩ := except_bind_eq_ok.mp h
    simp only at h
    split at h
    · cases h
    · obtain ⟨claimed, hclaimed, h⟩ := except_bind_eq_ok.mp h
      cases h
      obtain ⟨hbytes, hkept⟩ := claimDecompressed_ok hspent
      obtain ⟨hrecords, hsame⟩ := claimRecords_ok hclaimed
      have hfew := Nat.le_of_not_lt ‹¬ data.length / minRecordWireLen < _›
      refine ⟨?_, Int.not_lt.mp ‹_›, rfl, ?_, by rw [hrecords, hkept], by rw [hsame, hbytes]⟩
      · cases hresult : decompress codecs batch.compression payload with
        | error e =>
            rw [hresult] at hdata
            cases hdata
        | ok other =>
            rw [hresult] at hdata
            cases hdata
            rfl
      · rw [Nat.mul_comm]
        exact (Nat.le_div_iff_mul_le (by decide)).mp hfew

theorem length_pushRecord (map : ConsumedRecord → ρ) (batch : RecordBatch) (offset : Int64)
    (out : List ρ) (record : Record) :
    (pushRecord map out batch record offset).length ≤ out.length + 1 := by
  unfold pushRecord
  split
  · omega
  · rw [List.length_append, List.length_singleton]

theorem length_foldl_pushRecord (records : List Record) (out : List ρ) :
    (records.foldl (fun out record => pushRecord map out batch record offset) out).length ≤
      out.length + records.length := by
  induction records generalizing out with
  | nil => exact Nat.le_refl _
  | cons record records ih =>
      have hhead := length_pushRecord map batch offset out record
      have htail := ih (pushRecord map out batch record offset)
      rw [List.foldl_cons, List.length_cons]
      omega

theorem length_decodeCompressedRecords {count : Nat} {data left : Bytes} {out read : List ρ}
    (h : decodeCompressedRecords map batch offset count data out = .ok (read, left)) :
    read.length ≤ out.length + count := by
  induction count generalizing data out with
  | zero =>
      cases h
      exact Nat.le_refl _
  | succ count ih =>
      obtain ⟨⟨record, rest⟩, _, h⟩ := except_bind_eq_ok.mp h
      have hhead := length_pushRecord map batch offset out record
      have htail := ih h
      omega

/-- From one walk to the next, the batches drawn on the allowances by the
records they claim and the bytes they decompress to, and returned no more. -/
structure Spent (codecs : Codecs) (batches : List RecordBatch) (walk walk' : Walk ρ) : Prop where
  records : walk'.budget.recordsLeft + totalClaimed batches = walk.budget.recordsLeft
  decompressed : walk'.budget.decompressedLeft + totalDecompressed codecs batches =
    walk.budget.decompressedLeft
  returned : walk'.records.length ≤ walk.records.length + totalClaimed batches

theorem Spent.refl (walk : Walk ρ) : Spent codecs [] walk walk :=
  ⟨rfl, rfl, Nat.le_refl _⟩

theorem Spent.append {batches more : List RecordBatch} {walk walk' walk'' : Walk ρ}
    (h : Spent codecs batches walk walk') (h' : Spent codecs more walk' walk'') :
    Spent codecs (batches ++ more) walk walk'' := by
  obtain ⟨hrecords, hbytes, hreturned⟩ := h
  obtain ⟨hrecords', hbytes', hreturned'⟩ := h'
  have hclaimed : totalClaimed (batches ++ more) = totalClaimed batches + totalClaimed more := by
    simp [totalClaimed]
  have hdecompressed : totalDecompressed codecs (batches ++ more) =
      totalDecompressed codecs batches + totalDecompressed codecs more := by
    simp [totalDecompressed]
  exact ⟨by omega, by omega, by omega⟩

/-- The step: a batch that is kept draws its own cost, another one nothing. -/
theorem materialiseBatch_spent {walk walk' : Walk ρ}
    (h : materialiseBatch codecs map offset walk batch = .ok walk') :
    Spent codecs (if (walk.filter.keeps batch).1 then [batch] else []) walk walk' ∧
      walk'.filter = (walk.filter.keeps batch).2 := by
  unfold materialiseBatch at h
  simp only at h
  by_cases hkept : (walk.filter.keeps batch).1 = true
  · rw [if_pos hkept] at h ⊢
    cases hrecords : batch.records with
    | plain plain =>
        simp only [hrecords] at h
        obtain ⟨budget, hclaim, h⟩ := except_bind_eq_ok.mp h
        obtain ⟨hspent, hsame⟩ := claimRecords_ok hclaim
        cases h
        have hcost : totalClaimed [batch] = plain.length ∧
            totalDecompressed codecs [batch] = 0 := by
          simp [totalClaimed, totalDecompressed, claimedRecords, decompressedLen, hrecords]
        exact ⟨⟨by rw [hcost.1]; exact hspent, by rw [hcost.2]; exact hsame,
          by rw [hcost.1]; exact length_foldl_pushRecord plain walk.records⟩, rfl⟩
    | compressed count payload =>
        simp only [hrecords] at h
        obtain ⟨⟨out, budget⟩, hdecode, h⟩ := except_bind_eq_ok.mp h
        cases h
        rw [decodeCompressed_eq] at hdecode
        obtain ⟨⟨n, data, left⟩, hopen, hdecode⟩ := except_bind_eq_ok.mp hdecode
        obtain ⟨⟨read, rest⟩, hread, hdecode⟩ := except_bind_eq_ok.mp hdecode
        obtain ⟨hdata, _, hn, _, hleft, hbytes⟩ := openCompressed_ok hopen
        simp only at hdecode hread
        split at hdecode
        · cases hdecode
        · cases hdecode
          have hcost : totalClaimed [batch] = n ∧
              totalDecompressed codecs [batch] = data.length := by
            simp [totalClaimed, totalDecompressed, claimedRecords, decompressedLen, hrecords,
              hdata, hn]
          exact ⟨⟨by rw [hcost.1]; exact hleft, by rw [hcost.2]; exact hbytes,
            by rw [hcost.1]; exact length_decodeCompressedRecords hread⟩, rfl⟩
  · rw [if_neg hkept] at h ⊢
    cases h
    exact ⟨⟨rfl, rfl, Nat.le_refl _⟩, rfl⟩

/-- The run: the kept batches have drawn all that is gone. -/
theorem materialise_spent {batches : List RecordBatch} {walk walk' : Walk ρ}
    (h : materialise codecs map offset batches walk = .ok walk') :
    Spent codecs (walk.filter.surfaced batches) walk walk' := by
  induction batches generalizing walk with
  | nil =>
      cases h
      exact .refl _
  | cons batch batches ih =>
      obtain ⟨middle, hbatch, h⟩ := except_bind_eq_ok.mp h
      obtain ⟨hstep, hfilter⟩ := materialiseBatch_spent hbatch
      have hrun := hstep.append (ih h)
      rw [hfilter] at hrun
      rw [BatchFilter.surfaced]
      cases hkept : (walk.filter.keeps batch).1 with
      | true => simpa [hkept] using hrun
      | false => simpa [hkept] using hrun

end Steps

/-- `min_record_wire_len` is right: no record takes fewer bytes. -/
theorem decode_width {s t : Reader Ledger} {record : Record}
    (h : Record.decode s = .ok record t) :
    t.bytes.length + minRecordWireLen ≤ s.bytes.length := by
  obtain ⟨used, spellings, hused, _, hspelled⟩ := Record.decode_accepts s record t h
  have hvarint : ∀ value : Int64, 1 ≤ (putVarint value).length := by
    intro value
    rw [length_putVarint]
    exact Nat.le_max_right _ _
  have hfield : ∀ value, 1 ≤ (putVarintBytes value).length := by
    intro value
    cases value with
    | none => exact hvarint _
    | some value =>
        have := hvarint (Int64.ofNat value.length)
        rw [putVarintBytes, List.length_append]
        omega
  have hle := hspelled.length_le
  have h1 := hvarint (Int64.ofNat record.body.length)
  have h2 := hvarint record.timestampDelta
  have h3 := hvarint record.offsetDelta.toInt64
  have h4 := hfield record.key
  have h5 := hfield record.value
  have h6 := hvarint (Int64.ofNat record.headers.length)
  have h7 : (putI8 record.attributes).length = 1 := length_toBigEndian 1 _
  have hbody : 6 ≤ record.body.length := by
    rw [Record.body]
    simp only [List.length_append]
    omega
  rw [Record.bytes, List.length_append] at hle
  rw [hused, List.length_append, minRecordWireLen]
  omega

def FetchResponse.entry (resp : FetchResponse) (topic : String) (partition : Int32) :
    Option PartitionData :=
  (resp.responses.find? (·.topic == topic)).bind fun t =>
    t.partitions.find? (·.partitionIndex == partition)

section Fetches

variable {ρ : Type} {codecs : Codecs} {map : ConsumedRecord → ρ} {config : ConsumerConfig}
  {offset : Int64} {entry : PartitionData}

def keptBatches (config : ConsumerConfig) (entry : PartitionData) (batches : List RecordBatch) :
    List RecordBatch :=
  (BatchFilter.new config.isolationLevel entry.abortedTransactions).surfaced batches

/-- The loop over the records of a compressed batch is entered: after the
batches `before`, for `n` records out of `data`. -/
structure DecodingBegins (codecs : Codecs) (map : ConsumedRecord → ρ) (config : ConsumerConfig)
    (offset : Int64) (entry : PartitionData) (before : List RecordBatch) (batch : RecordBatch)
    (count : Int32) (n : Nat) (data : Bytes) : Prop where
  decoded : ∃ after left, runDecode Limits.default decodeSet (entry.records.getD []) =
    .ok (before ++ batch :: after, left)
  opened : ∃ walk payload left,
    materialise codecs map offset before (.start config offset entry) = .ok walk ∧
    (walk.filter.keeps batch).1 = true ∧ batch.records = .compressed count payload ∧
    openCompressed codecs walk.budget batch count payload = .ok (n, data, left)

theorem DecodingBegins.bounds {before : List RecordBatch} {batch : RecordBatch} {count : Int32}
    {n : Nat} {data : Bytes}
    (h : DecodingBegins codecs map config offset entry before batch count n data) :
    0 ≤ count.toInt ∧ n = count.toInt.toNat ∧ n ≤ data.length / minRecordWireLen ∧
      totalClaimed (keptBatches config entry before) + n ≤ config.maxFetchRecords ∧
      totalDecompressed codecs (keptBatches config entry before) + data.length ≤
        maxDecompressed := by
  obtain ⟨walk, payload, left, hwalk, _, _, hopen⟩ := h.opened
  obtain ⟨hrecords, hbytes, _⟩ := materialise_spent hwalk
  obtain ⟨_, hnonneg, hn, hwidth, hleft, hspent⟩ := openCompressed_ok hopen
  refine ⟨hnonneg, hn, ?_, ?_, ?_⟩
  · rw [Nat.le_div_iff_mul_le (by decide), Nat.mul_comm]
    exact hwidth
  · show totalClaimed ((Walk.start config offset entry : Walk ρ).filter.surfaced before) + n ≤
      (Walk.start config offset entry : Walk ρ).budget.recordsLeft
    omega
  · show totalDecompressed codecs ((Walk.start config offset entry : Walk ρ).filter.surfaced
      before) + data.length ≤ (Walk.start config offset entry : Walk ρ).budget.decompressedLeft
    omega

/-- A fetch that comes through keeps to its allowances. -/
theorem fetchEntry_bounds {result : FetchResult ρ}
    (h : fetchEntry codecs map config offset entry = .ok result) :
    result.records.length ≤ config.maxFetchRecords ∧ ∃ batches left,
      runDecode Limits.default decodeSet (entry.records.getD []) = .ok (batches, left) ∧
      totalDecompressed codecs (keptBatches config entry batches) ≤ maxDecompressed := by
  cases hdecode : runDecode Limits.default decodeSet (entry.records.getD []) with
  | error e =>
      obtain ⟨e, he⟩ : ∃ e, fetchEntry codecs map config offset entry = .error e :=
        fetchEntry_undecoded hdecode
      cases he.symm.trans h
  | ok decoded =>
      obtain ⟨batches, left⟩ := decoded
      rw [fetchEntry_decoded hdecode] at h
      cases hwalk : materialise codecs map offset batches (.start config offset entry) with
      | error e =>
          rw [hwalk] at h
          cases h
      | ok walk =>
          rw [hwalk] at h
          cases h
          obtain ⟨hrecords, hbytes, hreturned⟩ := materialise_spent hwalk
          refine ⟨?_, batches, left, rfl, ?_⟩
          · show walk.records.length ≤
              (Walk.start config offset entry : Walk ρ).budget.recordsLeft
            have hnone : (Walk.start config offset entry : Walk ρ).records.length = 0 := rfl
            omega
          · show totalDecompressed codecs ((Walk.start config offset entry :
              Walk ρ).filter.surfaced batches) ≤
                (Walk.start config offset entry : Walk ρ).budget.decompressedLeft
            omega

/-- Whatever the response: a fetch that succeeds returns no more records than
its limit and has decompressed no more bytes than the cap; and no compressed
batch's records begin to be decoded unless its count is one that the allowance
and the bytes it decompressed to have room for. -/
theorem fetchOnce_bounds (codecs : Codecs) (map : ConsumedRecord → ρ) (config : ConsumerConfig)
    (topic : String) (partition : Int32) (offset : Int64) (resp : FetchResponse) :
    (∀ result, fetchOnce codecs map config topic partition offset resp = .ok result →
      result.records.length ≤ config.maxFetchRecords ∧ ∃ entry batches left,
        resp.entry topic partition = some entry ∧
        runDecode Limits.default decodeSet (entry.records.getD []) = .ok (batches, left) ∧
        totalDecompressed codecs (keptBatches config entry batches) ≤ maxDecompressed) ∧
    (∀ entry before batch count n data, resp.entry topic partition = some entry →
      DecodingBegins codecs map config offset entry before batch count n data →
      0 ≤ count.toInt ∧ n = count.toInt.toNat ∧ n ≤ data.length / minRecordWireLen ∧
      totalClaimed (keptBatches config entry before) + n ≤ config.maxFetchRecords ∧
      totalDecompressed codecs (keptBatches config entry before) + data.length ≤
        maxDecompressed) ∧
    ∀ s t record, Record.decode s = .ok record t →
      t.bytes.length + minRecordWireLen ≤ s.bytes.length := by
  refine ⟨fun result h => ?_, fun entry before batch count n data _ h => h.bounds,
    fun s t record h => decode_width h⟩
  unfold fetchOnce at h
  split at h
  · cases h
  · split at h
    · cases h
    · split at h
      · cases h
      · have hentry : fetchEntry codecs map config offset _ = .ok result := h
        obtain ⟨hlen, batches, left, hdecode, htotal⟩ := fetchEntry_bounds hentry
        exact ⟨hlen, _, batches, left, ‹_›, hdecode, htotal⟩

/-- Two records behind a gzip bit, by codecs that store them as they are. -/
def packedBatch : RecordBatch :=
  { bareBatch 0 1 [] with
    attributes := 1
    records := .compressed 2 (Record.minimal.bytes ++ Record.minimal.bytes) }

def packedResponse : FetchResponse :=
  { errorCode := ⟨0⟩
    responses := [{ topic := "t", partitions := [gappedEntry packedBatch.bytes] }] }

theorem fetchOnce_bounds_packed :
    2 ≤ ConsumerConfig.default.maxFetchRecords ∧
      2 ≤ (Record.minimal.bytes ++ Record.minimal.bytes).length / minRecordWireLen := by
  have hbounds := fetchOnce_bounds Codecs.stored ConsumedRecord.offset ConsumerConfig.default "t" 0
    0 packedResponse
  have hdecode : runDecode Limits.default decodeSet packedBatch.bytes =
      .ok ([packedBatch], []) := by
    decide +kernel
  have hopen : openCompressed Codecs.stored
      (Walk.start ConsumerConfig.default 0 (gappedEntry packedBatch.bytes) : Walk Int64).budget
      packedBatch 2 (Record.minimal.bytes ++ Record.minimal.bytes) =
        .ok (2, Record.minimal.bytes ++ Record.minimal.bytes,
          { recordsLeft := (1 <<< 20) - 2, decompressedLeft := maxDecompressed - 14 }) := by
    decide +kernel
  have hfetch : fetchOnce Codecs.stored ConsumedRecord.offset ConsumerConfig.default "t" 0 0
      packedResponse = .ok { records := [0, 0], nextOffset := 2, highWatermark := 6
                             lastStableOffset := 6 } := by
    decide +kernel
  refine ⟨(hbounds.1 _ hfetch).1, (hbounds.2.1 (gappedEntry packedBatch.bytes) [] packedBatch 2 2 _
    rfl ⟨⟨[], [], hdecode⟩, _, _, _, rfl, ?_, rfl, hopen⟩).2.2.1⟩
  decide +kernel

end Fetches

end Odradek.Client
