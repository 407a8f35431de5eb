import Odradek.Client.Consumer
import Odradek.Library.Results
import Odradek.Protocol.RecordsRoundTrip

/-!
What the materialisation loop makes of batches whose contents are known. A
compressed batch is granted when each of its records, decoded from what is left
of the data, stays within the budget that this much data buys.
-/

namespace Odradek.Client

open Library Library.Decoder Odradek.Protocol

section Budget

variable {α : Type} {d : Decode α} {bytes suffix : Bytes} {a : α} {cs : List Charge}

def granted (len : Nat) (cs : List Charge) : Prop :=
  peak 0 cs ≤ Limits.default.allocBytesFor len

instance decidableGranted (len : Nat) (cs : List Charge) : Decidable (granted len cs) :=
  inferInstanceAs (Decidable (_ ≤ _))

theorem runDecode_granted (h : DecodesTo Ledger.charge suffix d bytes a cs)
    (hgranted : granted (bytes ++ suffix).length cs) :
    runDecode Limits.default d (bytes ++ suffix) = .ok (a, suffix) :=
  runDecode_decodes h hgranted

theorem runDecode_refused (h : DecodesTo Ledger.charge suffix d bytes a cs)
    (hrefused : ¬ granted (bytes ++ suffix).length cs) :
    ∃ e, runDecode Limits.default d (bytes ++ suffix) = .error e := by
  have hiff := spend_default cs (bytes ++ suffix).length
  cases hspend : spend Ledger.charge cs
      { budget := Limits.default.budget (bytes ++ suffix).length, decoded := 0 } with
  | ok ledger => exact absurd (hiff.mp ⟨ledger, hspend⟩) hrefused
  | error e =>
      obtain ⟨t, ht⟩ := (h _).2 e hspend
      exact ⟨e, by rw [runDecode, ht]⟩

/-- A decode that returns, returns what was encoded. -/
theorem runDecode_ok (h : DecodesTo Ledger.charge suffix d bytes a cs) {read : α × Bytes}
    (hread : runDecode Limits.default d (bytes ++ suffix) = .ok read) : read = (a, suffix) := by
  by_cases hgranted : granted (bytes ++ suffix).length cs
  · rw [runDecode_granted h hgranted] at hread
    cases hread
    rfl
  · obtain ⟨e, he⟩ := runDecode_refused h hgranted
    rw [he] at hread
    cases hread

end Budget

section Records

variable {ρ : Type} {codecs : Codecs} {map : ConsumedRecord → ρ}

/-- The records of a batch that do not predate `offset`, with absolute
coordinates. -/
def recordsFrom (map : ConsumedRecord → ρ) (offset : Int64) (batch : RecordBatch)
    (records : List Record) : List ρ :=
  (records.filter fun record => offset ≤ batch.baseOffset + record.offsetDelta.toInt64).map
    fun record => map (consumed batch record)

theorem pushRecord_eq (out : List ρ) (batch : RecordBatch) (record : Record) (offset : Int64) :
    pushRecord map out batch record offset = out ++ recordsFrom map offset batch [record] := by
  unfold pushRecord recordsFrom
  by_cases h : batch.baseOffset + record.offsetDelta.toInt64 < offset
  · simp [h, Int64.not_le.mpr h]
  · simp [h, Int64.not_lt.mp h]

theorem recordsFrom_cons (batch : RecordBatch) (record : Record) (records : List Record)
    (offset : Int64) :
    recordsFrom map offset batch (record :: records) =
      recordsFrom map offset batch [record] ++ recordsFrom map offset batch records := by
  unfold recordsFrom
  rw [← List.map_append, ← List.filter_append, List.singleton_append]

theorem foldl_pushRecord (out : List ρ) (batch : RecordBatch) (records : List Record)
    (offset : Int64) :
    records.foldl (fun out record => pushRecord map out batch record offset) out =
      out ++ recordsFrom map offset batch records := by
  induction records generalizing out with
  | nil => simp [recordsFrom]
  | cons record records ih =>
      rw [List.foldl_cons, ih, pushRecord_eq, List.append_assoc, ← recordsFrom_cons]

/-- Every record in turn is granted what is left of the data. -/
def RecordsGranted : List Record → Prop
  | [] => True
  | record :: records =>
    granted ((record :: records).flatMap Record.bytes).length record.charges ∧
      RecordsGranted records

theorem decodeCompressedRecords_granted (batch : RecordBatch) (offset : Int64)
    (records : List Record) (out : List ρ) (hfits : ∀ record ∈ records, record.Fits)
    (hgranted : RecordsGranted records) :
    decodeCompressedRecords map batch offset records.length (records.flatMap Record.bytes) out =
      .ok (out ++ recordsFrom map offset batch records, []) := by
  induction records generalizing out with
  | nil => simp [decodeCompressedRecords, recordsFrom]
  | cons record records ih =>
      obtain ⟨hhead, htail⟩ := hgranted
      have hdecode := Record.decode_decodes (hfits record List.mem_cons_self)
        (records.flatMap Record.bytes)
      rw [List.flatMap_cons] at hhead
      rw [List.flatMap_cons, List.length_cons, decodeCompressedRecords,
        runDecode_granted hdecode hhead, recordsFrom_cons, ← List.append_assoc, ← pushRecord_eq]
      exact ih _ (fun r hr => hfits r (List.mem_cons_of_mem _ hr)) htail

/-- The loop stops at the first record that is not granted. -/
theorem decodeCompressedRecords_refused (batch : RecordBatch) (offset : Int64)
    (records : List Record) (out : List ρ) (hfits : ∀ record ∈ records, record.Fits)
    (hrefused : ¬ RecordsGranted records) :
    ∃ e, decodeCompressedRecords map batch offset records.length
      (records.flatMap Record.bytes) out = .error e := by
  induction records generalizing out with
  | nil => exact absurd trivial hrefused
  | cons record records ih =>
      have hdecode := Record.decode_decodes (hfits record List.mem_cons_self)
        (records.flatMap Record.bytes)
      rw [List.flatMap_cons, List.length_cons, decodeCompressedRecords]
      by_cases hhead : granted (record.bytes ++ records.flatMap Record.bytes).length record.charges
      · rw [runDecode_granted hdecode hhead]
        refine ih _ (fun r hr => hfits r (List.mem_cons_of_mem _ hr)) fun htail => hrefused ?_
        exact ⟨by rw [List.flatMap_cons]; exact hhead, htail⟩
      · obtain ⟨e, he⟩ := runDecode_refused hdecode hhead
        rw [he]
        cases e with
        | error e => exact ⟨_, rfl⟩
        | panic => exact ⟨_, rfl⟩

end Records

section Contents

variable {ρ : Type} {codecs : Codecs} {map : ConsumedRecord → ρ} {batch : RecordBatch}
  {records : List Record} {offset : Int64}

def Holds (codecs : Codecs) (batch : RecordBatch) (records : List Record) : Prop :=
  match batch.records with
  | .plain plain => records = plain
  | .compressed count payload =>
    decompress codecs batch.compression payload = .ok (records.flatMap Record.bytes) ∧
      count.toInt = records.length ∧ ∀ record ∈ records, record.Fits

/-- The bytes that a batch of these records decompresses to. -/
def decompressedSize (batch : RecordBatch) (records : List Record) : Nat :=
  match batch.records with
  | .plain _ => 0
  | .compressed _ _ => (records.flatMap Record.bytes).length

def PayloadGranted (batch : RecordBatch) (records : List Record) : Prop :=
  match batch.records with
  | .plain _ => True
  | .compressed _ _ => RecordsGranted records

/-- What a fetch may still spend covers one more batch of these records. -/
def FetchBudget.Covers (budget : FetchBudget) (batch : RecordBatch) (records : List Record) :
    Prop :=
  records.length ≤ budget.recordsLeft ∧
    decompressedSize batch records ≤ budget.decompressedLeft ∧ PayloadGranted batch records

def FetchBudget.after (budget : FetchBudget) (batch : RecordBatch) (records : List Record) :
    FetchBudget :=
  { recordsLeft := budget.recordsLeft - records.length
    decompressedLeft := budget.decompressedLeft - decompressedSize batch records }

theorem length_bytes_ge (record : Record) : minRecordWireLen ≤ record.bytes.length := by
  have hpos : ∀ value : Int64, 1 ≤ (putVarint value).length := fun value =>
    List.length_pos_iff.mpr (putVarint_ne_nil value)
  have hbytes : ∀ value, 1 ≤ (putVarintBytes value).length := by
    intro value
    cases value with
    | none => exact hpos _
    | some value =>
        have := hpos (Int64.ofNat value.length)
        rw [putVarintBytes, List.length_append]
        omega
  have h₁ := hpos (Int64.ofNat record.body.length)
  have h₂ := hpos record.timestampDelta
  have h₃ := hpos record.offsetDelta.toInt64
  have h₄ := hpos (Int64.ofNat record.headers.length)
  have h₅ := hbytes record.key
  have h₆ := hbytes record.value
  have hbody : 6 ≤ record.body.length := by
    simp only [Record.body, List.length_append, putI8, length_toBigEndian]
    omega
  rw [Record.bytes, List.length_append, minRecordWireLen]
  omega

theorem length_flatMap_bytes (records : List Record) :
    minRecordWireLen * records.length ≤ (records.flatMap Record.bytes).length := by
  induction records with
  | nil => exact Nat.le_refl _
  | cons record records ih =>
      have := length_bytes_ge record
      rw [List.flatMap_cons, List.length_append, List.length_cons, Nat.mul_succ]
      omega

theorem claimRecords_ok_iff {budget budget' : FetchBudget} {count : Nat} :
    budget.claimRecords count = .ok budget' ↔ count ≤ budget.recordsLeft ∧
      budget' = { budget with recordsLeft := budget.recordsLeft - count } := by
  unfold FetchBudget.claimRecords
  split
  next h => exact iff_of_false nofun fun hok => absurd hok.1 (Nat.not_le.mpr h)
  next h =>
      rw [Except.ok.injEq]
      exact ⟨fun heq => ⟨Nat.not_lt.mp h, heq.symm⟩, fun hok => hok.2.symm⟩

theorem claimDecompressed_ok_iff {budget budget' : FetchBudget} {len : Nat} :
    budget.claimDecompressed len = .ok budget' ↔ len ≤ budget.decompressedLeft ∧
      budget' = { budget with decompressedLeft := budget.decompressedLeft - len } := by
  unfold FetchBudget.claimDecompressed
  split
  next h => exact iff_of_false nofun fun hok => absurd hok.1 (Nat.not_le.mpr h)
  next h =>
      rw [Except.ok.injEq]
      exact ⟨fun heq => ⟨Nat.not_lt.mp h, heq.symm⟩, fun hok => hok.2.symm⟩

theorem decodeCompressedRecords_ok_iff {out : List ρ} {read : List ρ × Bytes}
    (hfits : ∀ record ∈ records, record.Fits) :
    decodeCompressedRecords map batch offset records.length (records.flatMap Record.bytes) out =
        .ok read ↔
      RecordsGranted records ∧ read = (out ++ recordsFrom map offset batch records, []) := by
  constructor
  · intro h
    by_cases hgranted : RecordsGranted records
    · rw [decodeCompressedRecords_granted batch offset records out hfits hgranted] at h
      exact ⟨hgranted, (Except.ok.inj h).symm⟩
    · obtain ⟨e, he⟩ := decodeCompressedRecords_refused batch offset records out hfits hgranted
      rw [he] at h
      cases h
  · rintro ⟨hgranted, rfl⟩
    exact decodeCompressedRecords_granted batch offset records out hfits hgranted

/-- A compressed batch is read when the budget covers it, and to the last record. -/
theorem decodeCompressed_ok_iff {out : List ρ} {budget : FetchBudget} {count : Int32}
    {payload : Bytes} {read : List ρ × FetchBudget}
    (hrecords : batch.records = .compressed count payload) (hholds : Holds codecs batch records) :
    decodeCompressed codecs map out budget batch count payload offset = .ok read ↔
      budget.Covers batch records ∧
        read = (out ++ recordsFrom map offset batch records, budget.after batch records) := by
  unfold Holds at hholds
  simp only [hrecords] at hholds
  obtain ⟨hdata, hcount, hfits⟩ := hholds
  have hpossible : ¬ (records.flatMap Record.bytes).length / minRecordWireLen < records.length := by
    rw [Nat.not_lt, Nat.le_div_iff_mul_le (by decide), Nat.mul_comm]
    exact length_flatMap_bytes records
  have hspent : budget.after batch records =
      { recordsLeft := budget.recordsLeft - records.length
        decompressedLeft := budget.decompressedLeft - (records.flatMap Record.bytes).length } := by
    simp only [FetchBudget.after, decompressedSize, hrecords]
  simp only [hspent, FetchBudget.Covers, decompressedSize, PayloadGranted, hrecords]
  unfold decodeCompressed
  rw [if_neg (by omega), hdata, hcount, Int.toNat_natCast]
  constructor
  · intro h
    obtain ⟨data, hlift, h⟩ := except_bind_eq_ok.mp h
    obtain rfl : records.flatMap Record.bytes = data := Except.ok.inj hlift
    obtain ⟨_, hspend, h⟩ := except_bind_eq_ok.mp h
    obtain ⟨hsize, rfl⟩ := claimDecompressed_ok_iff.mp hspend
    simp only [if_neg hpossible] at h
    obtain ⟨_, hclaim, h⟩ := except_bind_eq_ok.mp h
    obtain ⟨hlen, rfl⟩ := claimRecords_ok_iff.mp hclaim
    obtain ⟨_, hread, h⟩ := except_bind_eq_ok.mp h
    obtain ⟨hgranted, rfl⟩ := (decodeCompressedRecords_ok_iff hfits).mp hread
    exact ⟨⟨hlen, hsize, hgranted⟩, (Except.ok.inj h).symm⟩
  · rintro ⟨⟨hlen, hsize, hgranted⟩, rfl⟩
    refine except_bind_eq_ok.mpr ⟨_, rfl, ?_⟩
    refine except_bind_eq_ok.mpr ⟨_, claimDecompressed_ok_iff.mpr ⟨hsize, rfl⟩, ?_⟩
    simp only [if_neg hpossible]
    refine except_bind_eq_ok.mpr ⟨_, claimRecords_ok_iff.mpr ⟨hlen, rfl⟩, ?_⟩
    refine except_bind_eq_ok.mpr
      ⟨_, (decodeCompressedRecords_ok_iff hfits).mpr ⟨hgranted, rfl⟩, ?_⟩
    rfl

/-- A walk that has read one more batch. -/
def Walk.past (map : ConsumedRecord → ρ) (offset : Int64) (walk : Walk ρ) (batch : RecordBatch)
    (records : List Record) : Walk ρ :=
  let walk := { walk with nextOffset := maxI64 walk.nextOffset (batchLast batch + 1) }
  if (walk.filter.keeps batch).1 then
    { walk with
      records := walk.records ++ recordsFrom map offset batch records
      budget := walk.budget.after batch records
      filter := (walk.filter.keeps batch).2 }
  else { walk with filter := (walk.filter.keeps batch).2 }

/-- The step: a batch is read unless it is surfaced and the budget does not cover it. -/
theorem materialiseBatch_ok_iff {walk walk' : Walk ρ} (hholds : Holds codecs batch records) :
    materialiseBatch codecs map offset walk batch = .ok walk' ↔
      ((walk.filter.keeps batch).1 = true → walk.budget.Covers batch records) ∧
        walk' = walk.past map offset batch records := by
  unfold materialiseBatch Walk.past
  simp only
  by_cases hkept : (walk.filter.keeps batch).1 = true
  · simp only [hkept, if_true, true_imp_iff]
    cases hrecords : batch.records with
    | plain plain =>
        have hplain := hholds
        simp only [Holds, hrecords] at hplain
        subst hplain
        have hafter : walk.budget.after batch records =
            { walk.budget with recordsLeft := walk.budget.recordsLeft - records.length } := by
          simp only [FetchBudget.after, decompressedSize, hrecords, Nat.sub_zero]
        simp only [FetchBudget.Covers, decompressedSize, PayloadGranted, hrecords, hafter,
          foldl_pushRecord, Nat.zero_le, and_true]
        constructor
        · intro h
          obtain ⟨_, hclaim, h⟩ := except_bind_eq_ok.mp h
          obtain ⟨hlen, rfl⟩ := claimRecords_ok_iff.mp hclaim
          exact ⟨hlen, (Except.ok.inj h).symm⟩
        · rintro ⟨hlen, rfl⟩
          exact except_bind_eq_ok.mpr ⟨_, claimRecords_ok_iff.mpr ⟨hlen, rfl⟩, rfl⟩
    | compressed count payload =>
        simp only
        constructor
        · intro h
          obtain ⟨_, hread, h⟩ := except_bind_eq_ok.mp h
          obtain ⟨hcovers, rfl⟩ := (decodeCompressed_ok_iff hrecords hholds).mp hread
          exact ⟨hcovers, (Except.ok.inj h).symm⟩
        · rintro ⟨hcovers, rfl⟩
          exact except_bind_eq_ok.mpr
            ⟨_, (decodeCompressed_ok_iff hrecords hholds).mpr ⟨hcovers, rfl⟩, rfl⟩
  · simp only [hkept, Bool.false_eq_true, if_false, false_imp_iff, true_and]
    exact ⟨fun h => (Except.ok.inj h).symm, fun h => congrArg _ h.symm⟩

/-- The run: the records of the surfaced batches, and the end of every batch. -/
theorem materialise_ok {contents : RecordBatch → List Record} {batches : List RecordBatch}
    {walk walk' : Walk ρ} (hholds : ∀ b ∈ batches, Holds codecs b (contents b))
    (h : materialise codecs map offset batches walk = .ok walk') :
    walk'.records = walk.records ++ (walk.filter.surfaced batches).flatMap
        (fun b => recordsFrom map offset b (contents b)) ∧
      walk'.nextOffset = batches.foldl (fun next b => maxI64 next (batchLast b + 1))
        walk.nextOffset := by
  induction batches generalizing walk with
  | nil =>
      cases h
      exact ⟨(List.append_nil _).symm, rfl⟩
  | cons batch batches ih =>
      obtain ⟨_, hbatch, h⟩ := except_bind_eq_ok.mp h
      obtain ⟨_, rfl⟩ := (materialiseBatch_ok_iff (hholds batch List.mem_cons_self)).mp hbatch
      obtain ⟨hrest, hend⟩ := ih (fun b hb => hholds b (List.mem_cons_of_mem _ hb)) h
      rw [hrest, hend, BatchFilter.surfaced, List.foldl_cons]
      cases hkept : (walk.filter.keeps batch).1 <;> simp [Walk.past, hkept]

/-- What a fetch may spend covers these batches, one after another. -/
structure FetchBudget.Affords (budget : FetchBudget) (contents : RecordBatch → List Record)
    (batches : List RecordBatch) : Prop where
  records : (batches.map fun b => (contents b).length).sum ≤ budget.recordsLeft
  decompressed : (batches.map fun b => decompressedSize b (contents b)).sum ≤
    budget.decompressedLeft
  granted : ∀ batch ∈ batches, PayloadGranted batch (contents batch)

/-- The first batch is covered, and the others with what it leaves. -/
theorem FetchBudget.affords_cons {budget : FetchBudget} {contents : RecordBatch → List Record}
    {batches : List RecordBatch} :
    budget.Affords contents (batch :: batches) ↔ budget.Covers batch (contents batch) ∧
      (budget.after batch (contents batch)).Affords contents batches := by
  constructor
  · rintro ⟨hlen, hsize, hgranted⟩
    rw [List.map_cons, List.sum_cons] at hlen hsize
    refine ⟨⟨by omega, by omega, hgranted batch List.mem_cons_self⟩, ?_, ?_, ?_⟩
    · exact Nat.le_sub_of_add_le' hlen
    · exact Nat.le_sub_of_add_le' hsize
    · exact fun b hb => hgranted b (List.mem_cons_of_mem _ hb)
  · rintro ⟨⟨hlen, hsize, hfirst⟩, hlens, hsizes, hgranted⟩
    refine ⟨?_, ?_, fun b hb => ?_⟩
    · rw [List.map_cons, List.sum_cons]
      exact Nat.add_le_of_le_sub' hlen hlens
    · rw [List.map_cons, List.sum_cons]
      exact Nat.add_le_of_le_sub' hsize hsizes
    · rcases List.mem_cons.mp hb with rfl | hb
      · exact hfirst
      · exact hgranted b hb

/-- The run is read to its end when the budget covers the batches it surfaces. -/
theorem materialise_affords (map : ConsumedRecord → ρ) (offset : Int64) (walk : Walk ρ)
    {contents : RecordBatch → List Record} {batches : List RecordBatch}
    (hholds : ∀ b ∈ batches, Holds codecs b (contents b)) :
    (∃ walk', materialise codecs map offset batches walk = .ok walk') ↔
      walk.budget.Affords contents (walk.filter.surfaced batches) := by
  induction batches generalizing walk with
  | nil => exact iff_of_true ⟨walk, rfl⟩ ⟨Nat.zero_le _, Nat.zero_le _, nofun⟩
  | cons batch batches ih =>
      have ih := ih (walk.past map offset batch (contents batch))
        fun b hb => hholds b (List.mem_cons_of_mem _ hb)
      have hstep : (∃ walk', materialise codecs map offset (batch :: batches) walk = .ok walk') ↔
          ((walk.filter.keeps batch).1 = true → walk.budget.Covers batch (contents batch)) ∧
            ∃ walk', materialise codecs map offset batches
              (walk.past map offset batch (contents batch)) = .ok walk' := by
        constructor
        · rintro ⟨walk', h⟩
          obtain ⟨_, hbatch, h⟩ := except_bind_eq_ok.mp h
          obtain ⟨hcovers, rfl⟩ :=
            (materialiseBatch_ok_iff (hholds batch List.mem_cons_self)).mp hbatch
          exact ⟨hcovers, walk', h⟩
        · rintro ⟨hcovers, walk', h⟩
          exact ⟨walk', except_bind_eq_ok.mpr
            ⟨_, (materialiseBatch_ok_iff (hholds batch List.mem_cons_self)).mpr ⟨hcovers, rfl⟩,
              h⟩⟩
      rw [hstep, ih, BatchFilter.surfaced]
      cases hkept : (walk.filter.keeps batch).1 with
      | true =>
          simp only [Walk.past, hkept, if_true, true_imp_iff]
          exact FetchBudget.affords_cons.symm
      | false => simp [Walk.past, hkept]

end Contents

section Entry

variable {ρ : Type} {codecs : Codecs} {map : ConsumedRecord → ρ} {offset : Int64}
  {config : ConsumerConfig} {entry : PartitionData} {batches : List RecordBatch} {left : Bytes}

theorem liftDecode_bind {α β : Type} {r : Except Halt α} {a : α} {f : α → Fetch β}
    (h : r = .ok a) : (liftDecode r >>= f) = f a := by
  rw [h]
  rfl

def Walk.start (config : ConsumerConfig) (offset : Int64) (entry : PartitionData) : Walk ρ :=
  { records := []
    budget := { recordsLeft := config.maxFetchRecords, decompressedLeft := maxDecompressed }
    filter := BatchFilter.new config.isolationLevel entry.abortedTransactions
    nextOffset := offset }

/-- What a fetch returns once its walk is over. -/
def Walk.result (walk : Walk ρ) (entry : PartitionData) : FetchResult ρ :=
  { records := walk.records
    nextOffset := walk.nextOffset
    highWatermark := entry.highWatermark
    lastStableOffset := entry.lastStableOffset }

theorem fetchEntry_decoded
    (hdecode : runDecode Limits.default decodeSet (entry.records.getD []) = .ok (batches, left)) :
    fetchEntry codecs map config offset entry =
      (materialise codecs map offset batches (.start config offset entry)).map
        (·.result entry) := by
  have h : fetchEntry codecs map config offset entry =
      (materialise codecs map offset batches (.start config offset entry) >>= fun walk =>
        pure (walk.result entry)) := by
    rw [fetchEntry]
    exact liftDecode_bind hdecode
  rw [h]
  cases materialise codecs map offset batches (.start config offset entry) <;> rfl

theorem fetchEntry_undecoded {e : Halt}
    (hdecode : runDecode Limits.default decodeSet (entry.records.getD []) = .error e) :
    ∃ e, fetchEntry codecs map config offset entry = .error e := by
  rw [fetchEntry]
  simp only [hdecode]
  cases e with
  | error e => exact ⟨_, rfl⟩
  | panic => exact ⟨_, rfl⟩

end Entry

end Odradek.Client
