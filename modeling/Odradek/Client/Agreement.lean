import Odradek.Client.Batch
import Odradek.Client.Materialise

/-!
What the producer encodes, the consumer reads back: same keys, values and
headers at the offsets the broker assigned, exactly when the decode budget
covers the growth of the record and header vectors. An uncompressed batch is
decoded against one budget, a compressed one record by record.
-/

namespace Odradek.Client

open Library Library.Decoder Odradek.Protocol

section Assembled

variable {codecs : Codecs} {nowMs : Int64} {records : List Record} {codec : Compression}
  {stamp : Option BatchStamp} {packed : Records} {bytes : Bytes}

theorem transactionalBit_cases (stamp : Option BatchStamp) :
    transactionalBit stamp = 0 ∨ transactionalBit stamp = 16 := by
  cases stamp with
  | none => exact .inl rfl
  | some stamp =>
      cases h : stamp.transactional with
      | false => exact .inl (by simp [transactionalBit, h])
      | true => exact .inr (by simp only [transactionalBit, h, if_true]; decide)

/-- The attribute bits say what the batch is. -/
theorem assembled_attributes (nowMs : Int64) (records : List Record) (stamp : Option BatchStamp)
    (packed : Records) (hcodec : ∀ bits, codec ≠ .unknown bits) :
    (assembled nowMs records codec stamp packed).compression = codec ∧
      (assembled nowMs records codec stamp packed).isControl = false := by
  unfold RecordBatch.compression RecordBatch.isControl assembled
  rcases transactionalBit_cases stamp with hbit | hbit
  · simp only [hbit]
    cases codec with
    | unknown bits => exact absurd rfl (hcodec bits)
    | _ => exact ⟨by decide, by decide⟩
  · simp only [hbit]
    cases codec with
    | unknown bits => exact absurd rfl (hcodec bits)
    | _ => exact ⟨by decide, by decide⟩

theorem length_numbered (records : List Record) : (numbered records).length = records.length := by
  simp [numbered]

/-- An encoded batch is its assembled form. -/
theorem encodeBatch_eq_ok (h : encodeBatch codecs nowMs records codec stamp = .ok bytes) :
    records ≠ [] ∧ ∃ packed, batchRecords codecs codec (numbered records) = .ok packed ∧
      bytes = (assembled nowMs (numbered records) codec stamp packed).bytes ∧
      (assembled nowMs (numbered records) codec stamp packed).Fits := by
  unfold encodeBatch at h
  split at h
  · cases h
  · refine ⟨‹_›, ?_⟩
    split at h
    · cases h
    · cases hpacked : batchRecords codecs codec (numbered records) with
      | error e =>
          simp only [hpacked] at h
          cases h
      | ok packed =>
          simp only [hpacked] at h
          cases hencode : (assembled nowMs (numbered records) codec stamp packed).encode with
          | error e =>
              simp only [bind, Except.bind, hencode] at h
              cases h
          | ok bs =>
              simp only [bind, Except.bind, hencode, liftEncode] at h
              cases h
              obtain ⟨hbytes, hfits⟩ := RecordBatch.encode_eq_ok hencode
              exact ⟨packed, rfl, hbytes, hfits⟩

/-- The records behind an assembled batch, plain or packed. -/
theorem batchRecords_eq_ok (hcodecs : codecs.Faithful)
    (h : batchRecords codecs codec records = .ok packed)
    (hsize : (records.flatMap Record.bytes).length ≤ maxDecompressed) :
    (∀ bits, codec ≠ .unknown bits) ∧
      ((codec = .none ∧ packed = .plain records) ∨
        (codec ≠ .none ∧ (∀ record ∈ records, record.Fits) ∧
          ∃ payload, packed = .compressed (saturatingI32 records.length) payload ∧
            decompress codecs codec payload = .ok (records.flatMap Record.bytes))) := by
  unfold batchRecords at h
  by_cases hnone : codec = .none
  · rw [if_pos hnone] at h
    cases h
    exact ⟨fun bits hbits => by simp [hnone] at hbits, .inl ⟨hnone, rfl⟩⟩
  · rw [if_neg hnone] at h
    cases hall : Record.encodeAll records with
    | error e =>
        rw [hall] at h
        cases h
    | ok payload =>
        obtain ⟨rfl, hfits⟩ := Record.encodeAll_eq_ok hall
        rw [hall] at h
        cases hpack : compress codecs codec (records.flatMap Record.bytes) with
        | error e =>
            simp only [liftEncode, bind, Except.bind, hpack] at h
            cases h
        | ok payload =>
            simp only [liftEncode, bind, Except.bind, hpack, pure, Except.pure] at h
            cases h
            refine ⟨?_, .inr ⟨hnone, hfits, payload, rfl, hcodecs.decompress_compress hpack hsize⟩⟩
            rintro bits rfl
            cases hpack

end Assembled

section Broker

/-- The broker overwrites the base offset, which the crc does not cover. -/
def assignOffset (base : Int64) (bytes : Bytes) : Bytes := putI64 base ++ bytes.drop 8

theorem assignOffset_bytes (base : Int64) (batch : RecordBatch) :
    assignOffset base batch.bytes = { batch with baseOffset := base : RecordBatch }.bytes := by
  have hdrop : batch.bytes.drop 8 = (putI32 (Int32.ofNat (4 + 1 + 4 + batch.body.length)) ++
      (putI32 batch.partitionLeaderEpoch ++ (putI8 magic ++
        (putU32 (crc32c batch.body) ++ batch.body)))) := by
    rw [RecordBatch.bytes, List.drop_left' (by rw [putI64, length_toBigEndian])]
  rw [assignOffset, hdrop]
  rfl

end Broker

section Delivered

variable {nowMs base offset : Int64} {records : List Record} {batch : RecordBatch}

/-- What a consumer should be handed: the producer's records at consecutive
offsets. -/
def delivered (base nowMs : Int64) (records : List Record) : List ConsumedRecord :=
  records.mapIdx fun i record =>
    { offset := base + Int64.ofNat i
      timestamp := nowMs + record.timestampDelta
      key := record.key
      value := record.value
      headers := record.headers }

theorem delta_toInt64 {i : Nat} (h : i < 2 ^ 31) : (Int32.ofNat i).toInt64 = Int64.ofNat i := by
  apply Int64.toInt_inj.mp
  rw [Int32.toInt_toInt64, Int32.toInt_ofNat_of_lt h, Int64.toInt_ofNat_of_lt (by omega)]

theorem base_add_toInt {i : Nat} (h : base.toInt + i ≤ i64Max) (hi : i < 2 ^ 31) :
    (base + Int64.ofNat i).toInt = base.toInt + i := by
  have hlow := base.minValue_le_toInt
  have hmin : Int64.minValue.toInt = -2 ^ 63 := by decide
  unfold i64Max at h
  rw [Int64.toInt_add, Int64.toInt_ofNat_of_lt (by omega)]
  exact Int.bmod_eq_of_le (by omega) (by omega)

/-- None of the batch's records predates an offset at or before its base. -/
theorem recordsFrom_numbered (hbase : batch.baseOffset = base) (htime : batch.baseTimestamp = nowMs)
    (hlen : records.length ≤ 2 ^ 31) (hroom : base.toInt + records.length ≤ i64Max)
    (hoffset : offset ≤ base) :
    recordsFrom id offset batch (numbered records) = delivered base nowMs records := by
  have hall : ∀ record ∈ numbered records,
      offset ≤ batch.baseOffset + record.offsetDelta.toInt64 := by
    intro record hrecord
    obtain ⟨i, hi, rfl⟩ := List.mem_mapIdx.mp hrecord
    rw [hbase, delta_toInt64 (by omega), Int64.le_iff_toInt_le,
      base_add_toInt (by omega) (by omega)]
    have := Int64.le_iff_toInt_le.mp hoffset
    omega
  rw [recordsFrom, List.filter_eq_self.mpr fun record hrecord => by simpa using hall record hrecord]
  refine List.ext_getElem (by simp [numbered, delivered]) fun i h₁ h₂ => ?_
  have hi : i < records.length := by simpa [delivered] using h₂
  simp only [numbered, delivered, List.getElem_map, List.getElem_mapIdx, consumed, id, hbase, htime,
    delta_toInt64 (Nat.lt_of_lt_of_le hi hlen)]

end Delivered

section Growth

/-- What decoding an uncompressed batch charges: its vectors' growth, which is
settled by how many records there are and how many headers each has. -/
def plainCharges (records : List Record) : List Charge :=
  itemsCharges recordSize Record.charges records 0 ++ pushCharges recordBatchSize 0

def BudgetCovers (codec : Compression) (records : List Record) : Prop :=
  if codec = .none then
    granted (batchOverhead + 12 + (records.flatMap Record.bytes).length) (plainCharges records)
  else RecordsGranted records

/-- An empty record vector's growth is always granted. -/
theorem granted_push_batch (len : Nat) : granted len (pushCharges recordBatchSize 0) := by
  have hpeak : peak 0 (pushCharges recordBatchSize 0) = 352 := by decide
  have hfloor : defaultMinAllocBytes ≤ Limits.default.allocBytesFor len :=
    Nat.le_min.mpr ⟨Nat.le_max_right _ _, by decide⟩
  rw [granted, hpeak]
  exact Nat.le_trans (by decide) hfloor

end Growth

section Fetch

variable {codecs : Codecs} {offset : Int64} {batch : RecordBatch} {records : List Record}
  {entry : PartitionData}

theorem decodeSet_one (hfits : batch.Fits) (hcoherent : batch.Coherent) :
    DecodesTo Ledger.charge [] decodeSet batch.bytes [batch]
      (batch.charges ++ pushCharges recordBatchSize 0) := by
  have h := decodeSet_decodes (fun b (hb : b ∈ [batch]) => by
      obtain rfl := List.mem_singleton.mp hb
      exact ⟨hfits, hcoherent⟩) (.inl rfl)
  simpa [itemsCharges] using h

/-- Under read_uncommitted a data batch is kept. -/
theorem keeps_data (aborted : Option (List AbortedTransaction)) (h : batch.isControl = false) :
    (BatchFilter.new .readUncommitted aborted).keeps batch =
      (true, BatchFilter.new .readUncommitted aborted) := by
  simp [BatchFilter.keeps, BatchFilter.reach, BatchFilter.new, h]

/-- A kept batch is walked whole exactly when the budget covers it. -/
theorem materialiseBatch_covers (offset : Int64) (walk : Walk ConsumedRecord)
    (hholds : Holds codecs batch records) (hkept : walk.filter.keeps batch = (true, walk.filter)) :
    (walk.budget.Covers batch records → ∃ walk', materialiseBatch codecs id offset walk batch =
        .ok walk' ∧ walk'.records = walk.records ++ recordsFrom id offset batch records) ∧
      ∀ walk', materialiseBatch codecs id offset walk batch = .ok walk' →
        walk.budget.Covers batch records := by
  constructor
  · intro hcovers
    refine ⟨_, (materialiseBatch_ok_iff hholds).mpr ⟨fun _ => hcovers, rfl⟩, ?_⟩
    simp only [Walk.past, hkept, if_true]
  · intro walk' hwalk
    exact ((materialiseBatch_ok_iff hholds).mp hwalk).1 (by rw [hkept])

theorem fetchEntry_one (codecs : Codecs) (offset : Int64) (config : ConsumerConfig)
    (hentry : entry.records = some batch.bytes)
    (hfits : batch.Fits) (hcoherent : batch.Coherent)
    (hgranted : granted batch.bytes.length (batch.charges ++ pushCharges recordBatchSize 0)) :
    fetchEntry codecs id config offset entry =
      (materialiseBatch codecs id offset (.start config offset entry) batch).map
        (·.result entry) := by
  have hrun := runDecode_granted (decodeSet_one hfits hcoherent) (by rwa [List.append_nil])
  rw [List.append_nil] at hrun
  rw [fetchEntry_decoded (by rw [hentry]; exact hrun)]
  simp only [materialise, bind, Except.bind]
  generalize materialiseBatch codecs id offset _ batch = walked
  cases walked <;> rfl

theorem fetchEntry_refused (codecs : Codecs) (offset : Int64) (config : ConsumerConfig)
    (hentry : entry.records = some batch.bytes)
    (hfits : batch.Fits) (hcoherent : batch.Coherent)
    (hrefused : ¬ granted batch.bytes.length (batch.charges ++ pushCharges recordBatchSize 0)) :
    ∃ e, fetchEntry codecs id config offset entry = .error e := by
  obtain ⟨e, he⟩ := runDecode_refused (decodeSet_one hfits hcoherent) (by rwa [List.append_nil])
  rw [List.append_nil] at he
  exact fetchEntry_undecoded (by rw [hentry]; exact he)

end Fetch

section Agreement

variable {codecs : Codecs} {nowMs base offset : Int64} {records : List Record}
  {codec : Compression} {stamp : Option BatchStamp} {bytes : Bytes} {entry : PartitionData}

/-- The fetch hands over exactly the producer's records. -/
def Agrees (codecs : Codecs) (offset base nowMs : Int64) (records : List Record)
    (entry : PartitionData) : Prop :=
  ∃ result, fetchEntry codecs id ConsumerConfig.default offset entry = .ok result ∧
    result.records = delivered base nowMs records

variable {batch : RecordBatch}

theorem maxFetchRecords_le : ConsumerConfig.default.maxFetchRecords ≤ i32Max := by decide

theorem agrees_of_walk {walk : Walk ConsumedRecord} (hbase : batch.baseOffset = base)
    (htime : batch.baseTimestamp = nowMs)
    (hcount : records.length ≤ ConsumerConfig.default.maxFetchRecords)
    (hroom : base.toInt + records.length ≤ i64Max) (hoffset : offset ≤ base)
    (hfetch : fetchEntry codecs id ConsumerConfig.default offset entry =
      (materialiseBatch codecs id offset (.start .default offset entry) batch).map (·.result entry))
    (hwalk : materialiseBatch codecs id offset (.start .default offset entry) batch = .ok walk)
    (hrecords : walk.records = [] ++ recordsFrom id offset batch (numbered records)) :
    Agrees codecs offset base nowMs records entry := by
  have hlen : records.length ≤ 2 ^ 31 := by
    have := maxFetchRecords_le
    unfold i32Max at this
    omega
  refine ⟨walk.result entry, by rw [hfetch, hwalk]; rfl, ?_⟩
  show walk.records = _
  rw [hrecords, List.nil_append, recordsFrom_numbered hbase htime hlen hroom hoffset]

/-- An uncompressed batch agrees when its vectors' growth is granted. -/
theorem agrees_plain (codecs : Codecs) (records : List Record)
    (hentry : entry.records = some batch.bytes) (hfits : batch.Fits)
    (hcompression : batch.compression = .none) (hcontrol : batch.isControl = false)
    (hrecords : batch.records = .plain (numbered records)) (hbase : batch.baseOffset = base)
    (htime : batch.baseTimestamp = nowMs)
    (hcount : records.length ≤ ConsumerConfig.default.maxFetchRecords)
    (hroom : base.toInt + records.length ≤ i64Max) (hoffset : offset ≤ base) :
    Agrees codecs offset base nowMs records entry ↔
      granted batch.bytes.length (plainCharges (numbered records)) := by
  have hcoherent : batch.Coherent := by
    simp only [RecordBatch.Coherent, hrecords]
    exact hcompression
  have hcharges : batch.charges ++ pushCharges recordBatchSize 0 =
      plainCharges (numbered records) := by
    simp only [RecordBatch.charges, hrecords, plainCharges]
  rw [← hcharges]
  constructor
  · rintro ⟨result, hfetch, _⟩
    refine Decidable.of_not_not fun hrefused => ?_
    obtain ⟨e, he⟩ := fetchEntry_refused codecs offset .default hentry hfits hcoherent hrefused
    rw [he] at hfetch
    cases hfetch
  · intro hgranted
    have hfetch := fetchEntry_one codecs offset .default hentry hfits hcoherent hgranted
    have hholds : Holds codecs batch (numbered records) := by simp only [Holds, hrecords]
    obtain ⟨hread, _⟩ := materialiseBatch_covers offset (.start .default offset entry) hholds
      (keeps_data _ hcontrol)
    have hsize : decompressedSize batch (numbered records) = 0 := by
      simp only [decompressedSize, hrecords]
    obtain ⟨walk, hwalk, hread⟩ := hread ⟨by rw [length_numbered]; exact hcount,
      hsize ▸ Nat.zero_le _, by simp only [PayloadGranted, hrecords]⟩
    exact agrees_of_walk hbase htime hcount hroom hoffset hfetch hwalk hread

/-- A compressed one agrees when each record is granted what is left of the data. -/
theorem agrees_compressed (records : List Record) {payload : Bytes}
    (hentry : entry.records = some batch.bytes)
    (hfits : batch.Fits) (hcompression : batch.compression = codec) (hne : codec ≠ .none)
    (hcontrol : batch.isControl = false)
    (hrecords : batch.records = .compressed (saturatingI32 (numbered records).length) payload)
    (hdata : decompress codecs codec payload = .ok ((numbered records).flatMap Record.bytes))
    (hall : ∀ record ∈ numbered records, record.Fits) (hbase : batch.baseOffset = base)
    (htime : batch.baseTimestamp = nowMs)
    (hcount : records.length ≤ ConsumerConfig.default.maxFetchRecords)
    (hsize : ((numbered records).flatMap Record.bytes).length ≤ maxDecompressed)
    (hroom : base.toInt + records.length ≤ i64Max) (hoffset : offset ≤ base) :
    Agrees codecs offset base nowMs records entry ↔ RecordsGranted (numbered records) := by
  have hlen : (numbered records).length ≤ i32Max := by
    rw [length_numbered]
    exact Nat.le_trans hcount maxFetchRecords_le
  have hcoherent : batch.Coherent := by
    simp only [RecordBatch.Coherent, hrecords]
    refine ⟨hcompression ▸ hne, ?_⟩
    rw [saturatingI32, Nat.min_eq_left hlen, (int32_ofNat hlen).1]
    omega
  have hgranted : granted batch.bytes.length
      (batch.charges ++ pushCharges recordBatchSize 0) := by
    simp only [RecordBatch.charges, hrecords, List.nil_append]
    exact granted_push_batch _
  have hfetch := fetchEntry_one codecs offset .default hentry hfits hcoherent hgranted
  have hholds : Holds codecs batch (numbered records) := by
    simp only [Holds, hrecords]
    refine ⟨hcompression ▸ hdata, ?_, hall⟩
    rw [saturatingI32, Nat.min_eq_left hlen, (int32_ofNat hlen).1]
  have hpayload : PayloadGranted batch (numbered records) ↔ RecordsGranted (numbered records) := by
    simp only [PayloadGranted, hrecords]
  have hdecompressed : decompressedSize batch (numbered records) =
      ((numbered records).flatMap Record.bytes).length := by
    simp only [decompressedSize, hrecords]
  obtain ⟨hread, hspent⟩ := materialiseBatch_covers offset (.start .default offset entry) hholds
    (keeps_data _ hcontrol)
  constructor
  · rintro ⟨result, hok, _⟩
    rw [hfetch] at hok
    cases hwalk : materialiseBatch codecs id offset (.start .default offset entry) batch with
    | error e =>
        rw [hwalk] at hok
        cases hok
    | ok walk => exact hpayload.mp (hspent walk hwalk).2.2
  · intro hgranted
    obtain ⟨walk, hwalk, hread⟩ := hread ⟨by rw [length_numbered]; exact hcount,
      hdecompressed ▸ hsize, hpayload.mpr hgranted⟩
    exact agrees_of_walk hbase htime hcount hroom hoffset hfetch hwalk hread

theorem length_bytes_plain (hrecords : batch.records = .plain records) :
    batch.bytes.length = batchOverhead + 12 + (records.flatMap Record.bytes).length := by
  rw [RecordBatch.length_bytes, RecordBatch.length_body, RecordBatch.payload, hrecords]
  unfold batchOverhead
  show 12 + (4 + 1 + 4 + (40 + (records.flatMap Record.bytes).length)) = _
  omega

/-- The consumer reads back what the producer encoded if and only if its decode
budget covers the growth of the vectors the records ask for. -/
theorem agrees_iff_budgetCovers (hcodecs : codecs.Faithful)
    (hencode : encodeBatch codecs nowMs records codec stamp = .ok bytes)
    (hcount : records.length ≤ ConsumerConfig.default.maxFetchRecords)
    (hsize : ((numbered records).flatMap Record.bytes).length ≤ maxDecompressed)
    (hroom : base.toInt + records.length ≤ i64Max) (hoffset : offset ≤ base)
    (hentry : entry.records = some (assignOffset base bytes)) :
    Agrees codecs offset base nowMs records entry ↔ BudgetCovers codec (numbered records) := by
  obtain ⟨_, packed, hpacked, rfl, hfits⟩ := encodeBatch_eq_ok hencode
  obtain ⟨hknown, hrecords⟩ := batchRecords_eq_ok hcodecs hpacked hsize
  have hattributes := assembled_attributes nowMs (numbered records) stamp packed hknown
  rw [assignOffset_bytes] at hentry
  unfold BudgetCovers
  rcases hrecords with ⟨hnone, rfl⟩ | ⟨hne, hall, payload, rfl, hdata⟩
  · rw [if_pos hnone]
    have hiff := agrees_plain codecs records hentry hfits (hattributes.1.trans hnone)
      hattributes.2 rfl rfl rfl hcount hroom hoffset
    rwa [length_bytes_plain rfl] at hiff
  · rw [if_neg hne]
    exact agrees_compressed records hentry hfits hattributes.1 hne hattributes.2 rfl hdata hall rfl
      rfl hcount hsize hroom hoffset

/-- Two records, one with a key, and headers with a value and without. -/
def gzippedRecords : List Record :=
  [{ Record.minimal with
      timestampDelta := 5
      key := some [0x6b]
      value := some [1, 2]
      headers := [{ key := "h", value := some [3] }, { key := "g", value := none }] },
    { Record.minimal with value := some [4, 5, 6] }]

def gzippedBatch : RecordBatch :=
  assembled 0 (numbered gzippedRecords) .gzip none
    (.compressed 2 ((numbered gzippedRecords).flatMap Record.bytes))

/-- Delivered at offset 5, compressed. -/
theorem agrees_iff_budgetCovers_gzipped :
    Agrees Codecs.stored 0 5 0 gzippedRecords
      { partitionIndex := 0
        errorCode := ⟨0⟩
        highWatermark := 7
        lastStableOffset := 7
        abortedTransactions := none
        records := some (assignOffset 5 gzippedBatch.bytes) } := by
  have hencode : encodeBatch Codecs.stored 0 gzippedRecords .gzip none =
    .ok gzippedBatch.bytes := by
    decide +kernel
  refine (agrees_iff_budgetCovers Codecs.stored_faithful hencode (by decide) (by decide +kernel)
    (by decide) (by decide) rfl).mpr ?_
  rw [BudgetCovers, if_neg (by decide)]
  refine ⟨?_, ?_, trivial⟩
  · decide +kernel
  · decide +kernel

end Agreement

section Plain

variable {records : List Record}

theorem assembled_plain_fits (nowMs : Int64) (codec : Compression) (stamp : Option BatchStamp)
    (hall : ∀ record ∈ records, record.Fits) (hcount : records.length ≤ i32Max)
    (hsize : batchOverhead + 12 + (records.flatMap Record.bytes).length ≤ i32Max) :
    (assembled nowMs records codec stamp (.plain records)).Fits := by
  have hbytes : (assembled nowMs records codec stamp (.plain records)).bytes.length = _ :=
    length_bytes_plain rfl
  rw [RecordBatch.length_bytes] at hbytes
  refine ⟨?_, hcount, hall⟩
  omega

theorem encodeBatch_plain (codecs : Codecs) (nowMs : Int64) (stamp : Option BatchStamp)
    (hne : records ≠ []) (hall : ∀ record ∈ numbered records, record.Fits)
    (hcount : records.length ≤ i32Max)
    (hsize : batchOverhead + 12 + ((numbered records).flatMap Record.bytes).length ≤ i32Max) :
    encodeBatch codecs nowMs records .none stamp =
      .ok (assembled nowMs (numbered records) .none stamp (.plain (numbered records))).bytes := by
  have hfits := assembled_plain_fits nowMs .none stamp hall (by rwa [length_numbered]) hsize
  rw [encodeBatch, if_neg hne, if_neg (by omega)]
  simp only [batchRecords, if_pos, bind, Except.bind]
  rw [RecordBatch.encode_of_fits hfits]
  rfl

/-- A partition answering with the one batch of `records` at offset 0. -/
def onlyBatch (records : List Record) : PartitionData :=
  { partitionIndex := 0
    errorCode := ⟨0⟩
    highWatermark := Int64.ofNat records.length
    lastStableOffset := Int64.ofNat records.length
    abortedTransactions := none
    records := some (assignOffset 0
      (assembled 0 (numbered records) .none none (.plain (numbered records))).bytes) }

theorem not_agrees_onlyBatch (codecs : Codecs) (hall : ∀ record ∈ numbered records, record.Fits)
    (hcount : records.length ≤ ConsumerConfig.default.maxFetchRecords)
    (hsize : batchOverhead + 12 + ((numbered records).flatMap Record.bytes).length ≤ i32Max)
    (hrefused : ¬ BudgetCovers .none (numbered records)) :
    ¬ Agrees codecs 0 0 0 records (onlyBatch records) := by
  have hmax := maxFetchRecords_le
  unfold i32Max at hmax
  have hentry : (onlyBatch records).records =
      some (assembled 0 (numbered records) .none none (.plain (numbered records))).bytes :=
    congrArg some (assignOffset_bytes _ _)
  have hfits := assembled_plain_fits 0 .none none hall
    (by rw [length_numbered]; exact Nat.le_trans hcount maxFetchRecords_le) hsize
  have hattributes := assembled_attributes 0 (numbered records) none (.plain (numbered records))
    (fun bits (h : Compression.none = .unknown bits) => by cases h)
  have hroom : (0 : Int64).toInt + records.length ≤ i64Max := by
    rw [Int64.toInt_zero]
    unfold i64Max
    omega
  intro hagrees
  have hgranted := (agrees_plain codecs records hentry hfits hattributes.1 hattributes.2 rfl rfl
    rfl hcount hroom (Int64.le_refl 0)).mp hagrees
  rw [length_bytes_plain rfl] at hgranted
  exact hrefused (by rwa [BudgetCovers, if_pos rfl])

end Plain

section Crowd

/-- One minimal record more than a vector of 256 holds. -/
def crowd : List Record := List.replicate 257 Record.minimal

def crowdRecord (i : Nat) : Record := { Record.minimal with offsetDelta := Int32.ofNat i }

theorem length_body_crowdRecord (i : Fin 257) : (crowdRecord i).body.length ≤ 7 := by
  have hdelta : ∀ i : Fin 257, varintLen (Int32.ofNat i).toInt64 ≤ 2 := by decide +kernel
  have hnull : varintLen (-1) = 1 := by decide
  have hzero : varintLen 0 = 1 ∧ varintLen (Int64.ofNat 0) = 1 := by decide
  have hone := hdelta i
  rw [Record.length_body]
  simp only [Record.bodyLen, crowdRecord, Record.minimal, varintBytesLen, List.map_nil,
    List.sum_nil, List.length_nil, hnull, hzero.1, hzero.2]
  omega

theorem length_bytes_crowdRecord (i : Fin 257) : (crowdRecord i).bytes.length ≤ 8 := by
  have hstarts : ∀ n : Fin 8, varintLen (Int64.ofNat n) ≤ 1 := by decide
  have hbody := length_body_crowdRecord i
  have hlen := hstarts ⟨_, Nat.lt_succ_of_le hbody⟩
  rw [Record.length_bytes]
  simp only at hlen
  omega

theorem crowd_record {record : Record} (h : record ∈ numbered crowd) :
    ∃ i : Fin 257, record = crowdRecord i := by
  obtain ⟨i, hi, rfl⟩ := List.mem_mapIdx.mp h
  have hminimal : crowd[i] = Record.minimal := List.getElem_replicate _
  refine ⟨⟨i, by rwa [crowd, List.length_replicate] at hi⟩, ?_⟩
  rw [hminimal]
  rfl

theorem crowd_fits {record : Record} (h : record ∈ numbered crowd) : record.Fits := by
  obtain ⟨i, rfl⟩ := crowd_record h
  refine ⟨?_, ?_, Nat.zero_le _, ?_, ?_⟩
  · intro v hv
    cases hv
  · intro v hv
    cases hv
  · exact Nat.le_trans (length_body_crowdRecord i) (by decide)
  · intro header hmem
    exact absurd hmem List.not_mem_nil

theorem length_crowd : ((numbered crowd).flatMap Record.bytes).length ≤ 8 * 257 := by
  have hsum : ∀ records : List Record, (∀ record ∈ records, record.bytes.length ≤ 8) →
      (records.flatMap Record.bytes).length ≤ 8 * records.length := by
    intro records hrecords
    induction records with
    | nil => exact Nat.le_refl _
    | cons record records ih =>
        have hhead := hrecords record List.mem_cons_self
        have htail := ih fun r hr => hrecords r (List.mem_cons_of_mem _ hr)
        rw [List.flatMap_cons, List.length_append, List.length_cons, Nat.mul_succ]
        omega
  have h := hsum (numbered crowd) fun record hrecord => by
    obtain ⟨i, rfl⟩ := crowd_record hrecord
    exact length_bytes_crowdRecord i
  rwa [length_numbered, crowd, List.length_replicate] at h

theorem crowd_size :
    batchOverhead + 12 + ((numbered crowd).flatMap Record.bytes).length ≤ 4096 :=
  Nat.le_trans (Nat.add_le_add_left length_crowd _) (by decide)

theorem allocBytesFor_small {n : Nat} (h : n ≤ 4096) :
    Limits.default.allocBytesFor n ≤ 65536 := by
  simp only [Limits.allocBytesFor, satMul, Limits.default, defaultAllocFactor,
    defaultMinAllocBytes, defaultMaxAllocBytes]
  omega

theorem crowd_refused : ¬ BudgetCovers .none (numbered crowd) := by
  rw [BudgetCovers, if_pos rfl, granted]
  have hpeak : 79872 ≤ peak 0 (plainCharges (numbered crowd)) := by decide +kernel
  intro hcovers
  have hle := Nat.le_trans hpeak (Nat.le_trans hcovers (allocBytesFor_small crowd_size))
  exact absurd hle (by decide)

/-- A batch the producer encodes and the consumer refuses. -/
theorem not_agrees :
    ¬ ∀ (codecs : Codecs) (nowMs : Int64) (records : List Record) (codec : Compression)
        (stamp : Option BatchStamp) (bytes : Bytes) (base offset : Int64) (entry : PartitionData),
      codecs.Faithful → encodeBatch codecs nowMs records codec stamp = .ok bytes →
      records.length ≤ ConsumerConfig.default.maxFetchRecords →
      ((numbered records).flatMap Record.bytes).length ≤ maxDecompressed →
      base.toInt + records.length ≤ i64Max → offset ≤ base →
      entry.records = some (assignOffset base bytes) →
      Agrees codecs offset base nowMs records entry := by
  intro hagrees
  have hcount : crowd.length = 257 := List.length_replicate
  have hne : crowd ≠ [] := by
    intro h
    rw [h] at hcount
    cases hcount
  have hsize := Nat.le_trans crowd_size (show 4096 ≤ i32Max by decide)
  have hfits := fun record (h : record ∈ numbered crowd) => crowd_fits h
  have hmax : crowd.length ≤ ConsumerConfig.default.maxFetchRecords := by rw [hcount]; decide
  refine not_agrees_onlyBatch Codecs.stored hfits hmax hsize crowd_refused ?_
  refine hagrees Codecs.stored 0 crowd .none none _ 0 0 _ Codecs.stored_faithful
    (encodeBatch_plain Codecs.stored 0 none hne hfits (by rw [hcount]; decide) hsize) hmax
    (Nat.le_trans length_crowd (by decide)) ?_ (Int64.le_refl 0) rfl
  rw [hcount]
  decide

end Crowd

end Odradek.Client
