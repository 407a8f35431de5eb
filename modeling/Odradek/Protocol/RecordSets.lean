import Mathlib.Data.List.Forall2
import Odradek.Protocol.RecordsRoundTrip

/-!
Batches and record sets read back under the unlimited budget. A set may end in
a fragment, which is dropped; damage inside a whole batch is an error. The two
are told apart by the length field alone.
-/

namespace Odradek.Protocol

open Library Library.Decoder

/-- `encode_set`, with the buffer it appends to: a failing batch leaves the
whole batches before it behind. -/
def encodeSet : List RecordBatch → Bytes → Except EncodeError Unit × Bytes
  | [], buf => (.ok (), buf)
  | batch :: batches, buf =>
    match batch.encode with
    | .ok bytes => encodeSet batches (buf ++ bytes)
    | .error e => (.error e, buf)

/-- A set encodes exactly when each batch fits, to their bytes. -/
theorem encodeSet_ok_iff {batches : List RecordBatch} {buf out : Bytes} :
    encodeSet batches buf = (.ok (), out) ↔
      out = buf ++ batches.flatMap RecordBatch.bytes ∧ ∀ batch ∈ batches, batch.Fits := by
  induction batches generalizing buf with
  | nil =>
      simp only [encodeSet, List.flatMap_nil, List.append_nil, Prod.mk.injEq, true_and]
      exact ⟨fun h => ⟨h.symm, fun _ hmem => absurd hmem List.not_mem_nil⟩, fun h => h.1.symm⟩
  | cons batch batches ih =>
      rw [encodeSet]
      cases hencode : batch.encode with
      | error e =>
          refine ⟨fun h => (nomatch h), fun h => ?_⟩
          rw [RecordBatch.encode_of_fits (h.2 batch List.mem_cons_self)] at hencode
          cases hencode
      | ok bytes =>
          obtain ⟨rfl, hfits⟩ := RecordBatch.encode_eq_ok hencode
          simp only [ih, List.flatMap_cons, List.append_assoc, List.forall_mem_cons]
          exact ⟨fun h => ⟨h.1, hfits, h.2⟩, fun h => ⟨h.1, h.2.2⟩⟩

section Unlimited

variable {α : Type} {d : Decode α} {bytes suffix : Bytes} {a : α} {cs : List Charge}

theorem Limits.unlimited_limit (n : Nat) : (Limits.unlimited.budget n).limit = usizeMax := by
  simp only [Limits.budget, Limits.allocBytesFor, Limits.unlimited, Budget.new]
  omega

theorem DecodesTo.unlimited (h : DecodesTo Ledger.charge suffix d bytes a cs) (ledger : Ledger)
    (hlimit : ledger.budget.limit = usizeMax) :
    ∃ ledger', ledger'.budget.limit = usizeMax ∧
      d ⟨bytes ++ suffix, ledger⟩ = .ok a ⟨suffix, ledger'⟩ := by
  obtain ⟨ledger', hspend, hlimit'⟩ := spend_unlimited cs ledger hlimit
  exact ⟨ledger', hlimit', (h ledger).1 ledger' hspend⟩

theorem runDecode_unlimited (h : DecodesTo Ledger.charge suffix d bytes a cs) :
    runDecode .unlimited d (bytes ++ suffix) = .ok (a, suffix) := by
  obtain ⟨ledger', _, hrun⟩ := DecodesTo.unlimited h
    { budget := Limits.unlimited.budget (bytes ++ suffix).length, decoded := 0 }
    (Limits.unlimited_limit _)
  rw [runDecode, hrun]

end Unlimited

section Batch

namespace RecordBatch

/-- The attribute codec bits agree with the records variant. -/
def Agrees (batch : RecordBatch) : Prop :=
  match batch.records with
  | .plain _ => batch.compression = .none
  | .compressed _ _ => batch.compression ≠ .none

theorem Agrees.coherent {batch : RecordBatch} (h : batch.Agrees)
    (hcount : ∀ count payload, batch.records = .compressed count payload → 0 ≤ count.toInt) :
    batch.Coherent := by
  unfold Agrees at h
  unfold Coherent
  cases hrecords : batch.records with
  | plain records => simpa only [hrecords] using h
  | compressed count payload =>
      simp only [hrecords] at h
      exact ⟨h, hcount count payload hrecords⟩

end RecordBatch

/-- A varint that is the number of bytes behind it. -/
def Record.Prefixed (bytes : Bytes) : Prop :=
  ∃ body : Bytes, bytes = putVarint (Int64.ofNat body.length) ++ body ∧
    (Int64.ofNat body.length).toInt = body.length

/-- Behind the base offset comes the number of bytes that follow, and so it is
for each plain record. -/
def RecordBatch.Prefixed (batch : RecordBatch) (bytes : Bytes) : Prop :=
  ∃ body : Bytes, bytes = putI64 batch.baseOffset ++ (putI32 (Int32.ofNat body.length) ++ body) ∧
    (Int32.ofNat body.length).toInt = body.length ∧
    ∀ records, batch.records = .plain records → ∃ front written,
      body = front ++ List.flatten written ∧
      List.Forall₂ (fun record bs => Record.encode record = .ok bs ∧ Record.Prefixed bs)
        records written

theorem Record.Fits.prefixed {record : Record} (h : record.Fits) :
    record.encode = .ok record.bytes ∧ Record.Prefixed record.bytes :=
  ⟨encode_of_fits h, record.body, rfl, (int64_ofNat h.2.2.2.1).1⟩

theorem RecordBatch.Fits.prefixed {batch : RecordBatch} (h : batch.Fits) :
    batch.Prefixed batch.bytes := by
  have hlen : (putI32 batch.partitionLeaderEpoch ++ (putI8 magic ++
      (putU32 (crc32c batch.body) ++ batch.body))).length = 4 + 1 + 4 + batch.body.length := by
    simp only [List.length_append, putI32, putI8, putU32, length_toBigEndian]
    omega
  refine ⟨_, by rw [hlen, bytes], by rw [hlen]; exact (int32_ofNat h.1).1, ?_⟩
  intro records hrecords
  refine ⟨putI32 batch.partitionLeaderEpoch ++ (putI8 magic ++ (putU32 (crc32c batch.body) ++
    batch.fixedFields batch.count)), records.map Record.bytes, ?_, ?_⟩
  · simp only [body, payload, hrecords, List.append_assoc, List.flatMap]
  · rw [List.forall₂_map_right_iff, List.forall₂_same]
    unfold Fits at h
    simp only [hrecords] at h
    exact fun record hmem => (h.2.2 record hmem).prefixed

/-- The amended round trip: a carried count is a count. -/
theorem RecordBatch.encode_roundTrips {batch : RecordBatch} {bytes : Bytes}
    (hencode : batch.encode = .ok bytes) :
    batch.Prefixed bytes ∧
    (batch.Agrees →
      (∀ count payload, batch.records = .compressed count payload → 0 ≤ count.toInt) →
      ∀ suffix,
        runDecode .unlimited RecordBatch.decode (bytes ++ suffix) = .ok (batch, suffix)) := by
  obtain ⟨rfl, hfits⟩ := encode_eq_ok hencode
  refine ⟨hfits.prefixed, ?_⟩
  intro hagrees hcount suffix
  exact runDecode_unlimited (decode_decodes hfits (hagrees.coherent hcount) suffix)

/-- A compressed batch of two empty bytes that claims a count. -/
def countedBatch (count : Int32) : RecordBatch :=
  { baseOffset := 7, partitionLeaderEpoch := 1, attributes := 1, lastOffsetDelta := 2
    baseTimestamp := 5, maxTimestamp := 6, producerId := -1, producerEpoch := -1
    baseSequence := -1, records := .compressed count [0, 0] }

theorem countedBatch_fits (count : Int32) : (countedBatch count).Fits :=
  ⟨by rw [RecordBatch.length_body]; exact (by decide : 4 + 1 + 4 + (40 + 2) ≤ i32Max), trivial⟩

/-- Three records, with keys, values and headers and without. -/
def plainBatch : RecordBatch :=
  { baseOffset := 12, partitionLeaderEpoch := 2, attributes := 0x10, lastOffsetDelta := 2
    baseTimestamp := 1000, maxTimestamp := 1300, producerId := 9, producerEpoch := 1
    baseSequence := 40
    records := .plain
      [{ Record.minimal with key := some [0x6b], value := some [1, 2] },
        { Record.minimal with
          timestampDelta := 300
          offsetDelta := 1
          value := some []
          headers := [{ key := "h", value := some [3] }, { key := "g", value := none }] },
        { Record.minimal with timestampDelta := -5, offsetDelta := 2, key := some [] }] }

theorem plainBatch_encodes : plainBatch.encode = .ok plainBatch.bytes := by decide +kernel

theorem RecordBatch.encode_roundTrips_counted :
    (plainBatch.Prefixed plainBatch.bytes ∧
      runDecode .unlimited RecordBatch.decode (plainBatch.bytes ++ [1, 2]) =
        .ok (plainBatch, [1, 2])) ∧
    (countedBatch 3).Prefixed (countedBatch 3).bytes ∧
      runDecode .unlimited RecordBatch.decode ((countedBatch 3).bytes ++ [1, 2]) =
        .ok (countedBatch 3, [1, 2]) := by
  obtain ⟨hplain, hrecords⟩ := encode_roundTrips plainBatch_encodes
  obtain ⟨hprefixed, hround⟩ := encode_roundTrips (encode_of_fits (countedBatch_fits 3))
  have hagrees : (countedBatch 3).compression ≠ .none := by decide
  refine ⟨⟨hplain, hrecords rfl nofun [1, 2]⟩, hprefixed, hround hagrees ?_ [1, 2]⟩
  rintro _ _ ⟨⟩
  decide

/-- A count below zero is written, and refused when it is read. -/
theorem RecordBatch.negativeCount_refused :
    ¬ ∀ (batch : RecordBatch) (bytes suffix : Bytes), batch.encode = .ok bytes → batch.Agrees →
      runDecode .unlimited RecordBatch.decode (bytes ++ suffix) = .ok (batch, suffix) := by
  intro h
  have hagrees : (countedBatch (-1)).compression ≠ .none := by decide
  have hround := h (countedBatch (-1)) _ [] (encode_of_fits (countedBatch_fits (-1))) hagrees
  have hrefused : (runDecode .unlimited decode ((countedBatch (-1)).bytes ++ [])).toOption =
      none := by
    decide +kernel
  rw [hround] at hrefused
  cases hrefused

end Batch

section Rounds

def batchLength (bytes : Bytes) : Int :=
  (Int32.ofBitVec (BitVec.ofNat 32 (ofBigEndian ((bytes.drop 8).take 4)))).toInt

/-- A fragment of a batch: not even its length, or less than its length says. -/
def Fragment (bytes : Bytes) : Prop :=
  bytes.length < 12 ∨ 0 ≤ batchLength bytes ∧ bytes.length < 12 + batchLength bytes

variable {rounds : Nat} {read : Vec RecordBatch} {s : Reader Ledger}

/-- One turn of the loop, with a batch that is there. -/
def decodeSetTurn (rounds : Nat) (read : Vec RecordBatch) : Decode (Vec RecordBatch) := do
  let batch ← RecordBatch.decode
  let read ← push recordBatchSize read batch
  decodeSetRounds rounds read

theorem decodeSetRounds_fragment (h : Fragment s.bytes) :
    decodeSetRounds (rounds + 1) read s = .ok read { s with bytes := [] } := by
  rw [decodeSetRounds, bind_apply]
  simp only [remaining]
  by_cases hshort : s.bytes.length < 12
  · rw [if_pos hshort]
    rfl
  · obtain hlt | ⟨hnonneg, hlt⟩ := h
    · exact absurd hlt hshort
    · rw [if_neg hshort, bind_apply, peekBatchLength]
      show (lenFrom (batchLength s.bytes) >>= _) s = _
      rw [lenFrom, if_neg (Int.not_lt.mpr hnonneg), bind_apply, pure_apply]
      simp only
      rw [if_pos (by omega)]
      rfl

theorem decodeSetRounds_refused (hlen : 12 ≤ s.bytes.length) (h : batchLength s.bytes < 0) :
    decodeSetRounds (rounds + 1) read s =
      .error (.error (.invalidLength (batchLength s.bytes))) s := by
  rw [decodeSetRounds, bind_apply]
  simp only [remaining]
  rw [if_neg (Nat.not_lt.mpr hlen), bind_apply, peekBatchLength]
  show (lenFrom (batchLength s.bytes) >>= _) s = _
  rw [lenFrom, if_pos h, bind_apply]
  rfl

theorem decodeSetRounds_whole (hlen : 12 ≤ s.bytes.length) (hnonneg : 0 ≤ batchLength s.bytes)
    (hwhole : 12 + batchLength s.bytes ≤ s.bytes.length) :
    decodeSetRounds (rounds + 1) read s = decodeSetTurn rounds read s := by
  rw [decodeSetRounds, bind_apply]
  simp only [remaining]
  rw [if_neg (Nat.not_lt.mpr hlen), bind_apply, peekBatchLength]
  show (lenFrom (batchLength s.bytes) >>= _) s = _
  rw [lenFrom, if_neg (Int.not_lt.mpr hnonneg), bind_apply, pure_apply]
  simp only
  rw [if_neg (by omega)]
  rfl

theorem decodeSetTurn_read {batch : RecordBatch} {t u : Reader Ledger}
    (hdecode : RecordBatch.decode s = .ok batch t)
    (hpush : push recordBatchSize read batch t = .ok (read.append recordBatchSize batch) u) :
    decodeSetTurn rounds read s = decodeSetRounds rounds (read.append recordBatchSize batch) u := by
  rw [decodeSetTurn]
  simp only [bind_apply, hdecode, hpush]

theorem decodeSetTurn_failed {e : Halt} {t : Reader Ledger}
    (hdecode : RecordBatch.decode s = .error e t) : decodeSetTurn rounds read s = .error e t := by
  rw [decodeSetTurn]
  simp only [bind_apply, hdecode]

theorem runDecode_decodeSet {limits : Limits} {bytes : Bytes} {e : Halt} {t : Reader Ledger}
    (h : decodeSetRounds (bytes.length + 1) (Vec.new recordBatchSize)
      ⟨bytes, { budget := limits.budget bytes.length, decoded := 0 }⟩ = .error e t) :
    runDecode limits decodeSet bytes = .error e := by
  rw [runDecode, decodeSet]
  simp only [bind_apply, remaining, h]

end Rounds

section Damage

theorem Reads.bind_run {α β : Type} {d : Decode α} {f : α → Decode β} {bytes rest : Bytes} {a : α}
    {ledger : Ledger} (h : Reads d bytes a) :
    (d >>= f) ⟨bytes ++ rest, ledger⟩ = f a ⟨rest, ledger⟩ := by
  rw [bind_apply, (h rest ledger).1 ledger rfl]

namespace RecordBatch

/-- A batch whose crc-covered bytes have been written over. -/
def overwritten (batch : RecordBatch) (body : Bytes) : Bytes :=
  putI64 batch.baseOffset ++ (putI32 (Int32.ofNat (4 + 1 + 4 + body.length)) ++
    (putI32 batch.partitionLeaderEpoch ++ (putI8 magic ++ (putU32 (crc32c batch.body) ++ body))))

theorem overwritten_eq {batch : RecordBatch} {body : Bytes}
    (hlen : body.length = batch.body.length) :
    batch.overwritten body = batch.bytes.take 21 ++ body := by
  have hsplit : batch.bytes = (putI64 batch.baseOffset ++
      (putI32 (Int32.ofNat (4 + 1 + 4 + batch.body.length)) ++
        (putI32 batch.partitionLeaderEpoch ++ (putI8 magic ++ putU32 (crc32c batch.body))))) ++
          batch.body := by
    simp only [bytes, List.append_assoc]
  rw [hsplit, List.take_left' (by simp only [List.length_append, putI64, putI32, putI8, putU32,
    length_toBigEndian]), overwritten, hlen]
  simp only [List.append_assoc]

/-- Overwritten bytes are reported by their check. -/
theorem decode_overwritten {batch : RecordBatch} {body : Bytes} (tail : Bytes) (ledger : Ledger)
    (hfits : batch.Fits) (hlen : body.length = batch.body.length)
    (hdetected : crc32c body ≠ crc32c batch.body) :
    ∃ t, RecordBatch.decode ⟨batch.overwritten body ++ tail, ledger⟩ =
      .error (.error (.crcMismatch (crc32c batch.body) (crc32c body))) t := by
  have hbody := batch.length_body
  obtain ⟨hint, _⟩ := int32_ofNat (hlen ▸ hfits.1)
  have hcopy : Reads (copyToBytes body.length) body body := .split Halt.panic body
  have hwidth : 4 + 1 + 4 + body.length - 9 = body.length := by omega
  refine ⟨⟨tail, ledger⟩, ?_⟩
  unfold RecordBatch.decode overwritten
  rw [bind_apply, ensure_apply (by
    simp only [List.length_append, putI64, putI32, length_toBigEndian]
    omega)]
  simp only [List.append_assoc]
  rw [(rawI64_reads _).bind_run, (rawI32_reads _).bind_run, hint, lenFrom_ofNat, bind_apply,
    pure_apply]
  simp only
  rw [failIf_neg (by unfold batchOverhead; omega), bind_apply, pure_apply]
  simp only
  rw [bind_apply, ensure_apply (by
    simp only [List.length_append, putI32, putI8, putU32, length_toBigEndian]
    omega)]
  simp only
  rw [(rawI32_reads _).bind_run, (rawI8_reads _).bind_run, failIf_neg (by simp), bind_apply,
    pure_apply]
  simp only
  rw [(rawU32_reads _).bind_run, hwidth, hcopy.bind_run, failIf, if_pos hdetected]
  rfl

theorem batchLength_append {batch : RecordBatch} {front rest : Bytes} (h : batch.Fits)
    (hfront : front <+: batch.bytes) (hlen : 12 ≤ front.length) :
    batchLength (front ++ rest) = (4 + 1 + 4 + batch.body.length : Nat) :=
  lengthField h hfront hlen

theorem batchLength_overwritten {batch : RecordBatch} {body : Bytes} (rest : Bytes) (h : batch.Fits)
    (hlen : body.length = batch.body.length) :
    batchLength (batch.overwritten body ++ rest) = (4 + 1 + 4 + batch.body.length : Nat) := by
  have hbytes := batch.length_bytes
  rw [overwritten_eq hlen, List.append_assoc]
  exact batchLength_append h (List.take_prefix _ _) (by simp only [List.length_take]; omega)

theorem length_overwritten {batch : RecordBatch} {body : Bytes} :
    (batch.overwritten body).length = 12 + (4 + 1 + 4 + body.length) := by
  simp only [overwritten, List.length_append, putI64, putI32, putI8, putU32, length_toBigEndian]
  omega

end RecordBatch

open RecordBatch in
/-- Whole batches in front are read; the loop goes on behind them. -/
theorem decodeSetRounds_front (rest : Bytes) (batches : List RecordBatch) (rounds : Nat)
    (read : Vec RecordBatch) (ledger : Ledger) (hlimit : ledger.budget.limit = usizeMax)
    (hread : read.Pushed recordBatchSize)
    (hbatches : ∀ batch ∈ batches, batch.Fits ∧ batch.Coherent) :
    ∃ ledger', ledger'.budget.limit = usizeMax ∧
      decodeSetRounds (rounds + batches.length) read
        ⟨batches.flatMap RecordBatch.bytes ++ rest, ledger⟩ =
      decodeSetRounds rounds (read.extend recordBatchSize batches) ⟨rest, ledger'⟩ := by
  induction batches generalizing read ledger with
  | nil =>
      refine ⟨ledger, hlimit, ?_⟩
      simp only [List.flatMap_nil, List.nil_append, List.length_nil, Nat.add_zero, hread.extend_nil]
  | cons batch batches ih =>
      obtain ⟨hfits, hcoherent⟩ := hbatches batch List.mem_cons_self
      have hlen := batch.length_bytes
      have hfield : batchLength (batch.bytes ++ (batches.flatMap RecordBatch.bytes ++ rest)) = _ :=
        batchLength_append hfits List.prefix_rfl (by omega)
      obtain ⟨ledger₁, hlimit₁, hdecode⟩ := DecodesTo.unlimited
        (decode_decodes hfits hcoherent (batches.flatMap RecordBatch.bytes ++ rest)) ledger hlimit
      obtain ⟨ledger₂, hlimit₂, hpush⟩ := DecodesTo.unlimited
        (push_decodes hread batch (batches.flatMap RecordBatch.bytes ++ rest)) ledger₁ hlimit₁
      rw [List.nil_append] at hpush
      obtain ⟨ledger', hlimit', hrest⟩ := ih (read.append recordBatchSize batch) ledger₂ hlimit₂
        (.append batch) fun b hb => hbatches b (List.mem_cons_of_mem _ hb)
      refine ⟨ledger', hlimit', ?_⟩
      rw [List.flatMap_cons, List.append_assoc, List.length_cons, ← Nat.add_assoc,
        decodeSetRounds_whole (by simp only [List.length_append]; omega)
          (by simp only [hfield]; omega) (by simp only [hfield, List.length_append]; omega),
        decodeSetTurn_read hdecode hpush, hrest, Vec.append_extend]

theorem length_flatMap_bytes (batches : List RecordBatch) :
    batches.length ≤ (batches.flatMap RecordBatch.bytes).length := by
  induction batches with
  | nil => exact Nat.le_refl _
  | cons batch batches ih =>
      have hlen := batch.length_bytes
      simp only [List.flatMap_cons, List.length_append, List.length_cons]
      omega

/-- The bytes of a set with one batch's crc-covered bytes written over, and
anything behind it. -/
theorem decodeSet_overwritten {before : List RecordBatch} {batch : RecordBatch} {body tail : Bytes}
    (hbefore : ∀ b ∈ before, b.Fits ∧ b.Coherent) (hfits : batch.Fits)
    (hlen : body.length = batch.body.length) (hdetected : crc32c body ≠ crc32c batch.body) :
    runDecode .unlimited decodeSet
        (before.flatMap RecordBatch.bytes ++ (batch.overwritten body ++ tail)) =
      .error (.error (.crcMismatch (crc32c batch.body) (crc32c body))) := by
  have hcount := length_flatMap_bytes before
  have hlong : (batch.overwritten body).length = _ := RecordBatch.length_overwritten
  have hfield := RecordBatch.batchLength_overwritten tail hfits hlen
  obtain ⟨rounds, hrounds⟩ : ∃ n, (before.flatMap RecordBatch.bytes ++
      (batch.overwritten body ++ tail)).length + 1 = n + 1 + before.length := by
    refine ⟨(before.flatMap RecordBatch.bytes ++
      (batch.overwritten body ++ tail)).length - before.length, ?_⟩
    simp only [List.length_append]
    omega
  obtain ⟨ledger, _, hfront⟩ := decodeSetRounds_front (batch.overwritten body ++ tail)
    before (rounds + 1) (Vec.new recordBatchSize)
    { budget := Limits.unlimited.budget _, decoded := 0 } (Limits.unlimited_limit _) .new hbefore
  obtain ⟨t, hbatch⟩ := RecordBatch.decode_overwritten tail ledger
    hfits hlen hdetected
  refine runDecode_decodeSet (t := t) ?_
  rw [hrounds, hfront, decodeSetRounds_whole, decodeSetTurn_failed hbatch]
  · simp only [List.length_append]
    omega
  · simp only [hfield]
    omega
  · simp only [hfield, List.length_append]
    omega

end Damage

section Cut

/-- A cut falls at the end of a batch or inside the next one. -/
theorem flatMap_bytes_cut {batches : List RecordBatch} {cut : Bytes}
    (hcut : cut <+: batches.flatMap RecordBatch.bytes) :
    ∃ whole rest tail, batches = whole ++ rest ∧
      cut = whole.flatMap RecordBatch.bytes ++ tail ∧
      (rest = [] ∧ tail = [] ∨ ∃ next after, rest = next :: after ∧ next.Cut tail) := by
  induction batches generalizing cut with
  | nil => exact ⟨[], [], cut, rfl, rfl, .inl ⟨rfl, List.prefix_nil.mp hcut⟩⟩
  | cons batch batches ih =>
      rw [List.flatMap_cons] at hcut
      by_cases hlen : cut.length < batch.bytes.length
      · exact ⟨[], batch :: batches, cut, rfl, rfl, .inr ⟨batch, batches, rfl,
          List.prefix_of_prefix_length_le hcut (List.prefix_append _ _) (by omega), hlen⟩⟩
      · obtain ⟨back, rfl⟩ := List.prefix_of_prefix_length_le (List.prefix_append _ _) hcut
          (Nat.le_of_not_lt hlen)
        obtain ⟨whole, rest, tail, rfl, rfl, hrest⟩ :=
          ih ((List.prefix_append_right_inj _).mp hcut)
        exact ⟨batch :: whole, rest, tail, rfl, by simp only [List.flatMap_cons, List.append_assoc],
          hrest⟩

/-- `damaged` is `cut` with crc-covered bytes of a batch of `whole` written
over, in a way that the crc detects. -/
def Damages (whole : List RecordBatch) (cut damaged : Bytes) : Prop :=
  ∃ before batch after body tail, whole = before ++ batch :: after ∧
    cut = before.flatMap RecordBatch.bytes ++ (batch.bytes ++ tail) ∧
    damaged = before.flatMap RecordBatch.bytes ++ (batch.bytes.take 21 ++ body ++ tail) ∧
    body.length = (batch.bytes.drop 21).length ∧
    crc32c body ≠ crc32c (batch.bytes.drop 21)

theorem RecordBatch.drop_bytes (batch : RecordBatch) : batch.bytes.drop 21 = batch.body := by
  have hsplit : batch.bytes = (putI64 batch.baseOffset ++
      (putI32 (Int32.ofNat (4 + 1 + 4 + batch.body.length)) ++
        (putI32 batch.partitionLeaderEpoch ++ (putI8 magic ++ putU32 (crc32c batch.body))))) ++
          batch.body := by
    simp only [bytes, List.append_assoc]
  rw [hsplit, List.drop_left' (by simp only [List.length_append, putI64, putI32, putI8, putU32,
    length_toBigEndian])]

/-- Exactly the batches that lie wholly in the cut are read, in order; nothing
is left; and damage to one of them is an error. -/
def ReadsWhole (batches : List RecordBatch) (cut : Bytes) : Prop :=
  ∃ whole rest kept, batches = whole ++ rest ∧
    encodeSet whole [] = (.ok (), kept) ∧ kept <+: cut ∧
    (∀ next ∈ rest.head?, ∀ longer, encodeSet (whole ++ [next]) [] = (.ok (), longer) →
      cut.length < longer.length) ∧
    runDecode .unlimited decodeSet cut = .ok (whole, []) ∧
    ∀ damaged, Damages whole cut damaged →
      ∃ e, runDecode .unlimited decodeSet damaged = .error (.error e)

theorem decodeSet_cut {batches : List RecordBatch} {out cut : Bytes}
    (hencode : encodeSet batches [] = (.ok (), out))
    (hcoherent : ∀ batch ∈ batches, batch.Coherent) (hcut : cut <+: out) :
    ReadsWhole batches cut := by
  obtain ⟨rfl, hfits⟩ := encodeSet_ok_iff.mp hencode
  rw [List.nil_append] at hcut
  obtain ⟨whole, rest, tail, rfl, rfl, hrest⟩ := flatMap_bytes_cut hcut
  have hwhole : ∀ batch ∈ whole, batch.Fits ∧ batch.Coherent := fun batch hmem =>
    ⟨hfits batch (List.mem_append_left _ hmem), hcoherent batch (List.mem_append_left _ hmem)⟩
  refine ⟨whole, rest, whole.flatMap RecordBatch.bytes, rfl,
    encodeSet_ok_iff.mpr ⟨rfl, fun b hb => (hwhole b hb).1⟩, List.prefix_append _ _, ?_, ?_, ?_⟩
  · rintro next hnext longer hlonger
    obtain ⟨rfl, _⟩ := encodeSet_ok_iff.mp hlonger
    obtain ⟨rfl, _⟩ | ⟨next', after, rfl, _, hlt⟩ := hrest
    · cases hnext
    · cases hnext
      simp only [List.nil_append, List.flatMap_append, List.flatMap_cons, List.flatMap_nil,
        List.append_nil, List.length_append]
      omega
  · have hdecodes := @decodeSet_decodes tail whole hwhole (by
      obtain ⟨_, rfl⟩ | ⟨next, after, rfl, hnext⟩ := hrest
      · exact .inl rfl
      · exact .inr ⟨next, hfits next (by simp), hnext⟩)
    have hrun := runDecode_unlimited hdecodes
    rwa [List.append_nil] at hrun
  · rintro damaged ⟨before, batch, after, body, tail', rfl, -, rfl, hlen, hdetected⟩
    rw [RecordBatch.drop_bytes] at hlen hdetected
    refine ⟨.crcMismatch (crc32c batch.body) (crc32c body), ?_⟩
    rw [← RecordBatch.overwritten_eq hlen]
    exact decodeSet_overwritten (fun b hb => hwhole b (List.mem_append_left _ hb))
      (hwhole batch (by simp)).1 hlen hdetected

theorem decodeSet_cut_counted :
    ReadsWhole [countedBatch 3, countedBatch 4]
      ([countedBatch 3, countedBatch 4].flatMap RecordBatch.bytes |>.take 70) := by
  have hfits : ∀ batch ∈ [countedBatch 3, countedBatch 4], batch.Fits := by
    simp only [List.forall_mem_cons, List.not_mem_nil, false_implies, implies_true, and_true]
    exact ⟨countedBatch_fits 3, countedBatch_fits 4⟩
  have hcoherent : ∀ batch ∈ [countedBatch 3, countedBatch 4], batch.Coherent := by
    simp only [List.forall_mem_cons, List.not_mem_nil, false_implies, implies_true, and_true]
    exact ⟨⟨by decide, by decide⟩, by decide, by decide⟩
  exact decodeSet_cut (encodeSet_ok_iff.mpr ⟨rfl, hfits⟩) hcoherent (List.take_prefix _ _)

/-- Plain records under a codec's bits come back as that codec's payload. -/
def mislabelled : RecordBatch := { countedBatch 0 with records := .plain [] }

theorem mislabelled_readsOther :
    ¬ ∀ (batches : List RecordBatch) (out cut : Bytes), encodeSet batches [] = (.ok (), out) →
      cut <+: out → ReadsWhole batches cut := by
  intro h
  have hfits : mislabelled.Fits := by
    refine ⟨?_, by decide, fun record hmem => absurd hmem List.not_mem_nil⟩
    rw [RecordBatch.length_body]
    exact (by decide : 4 + 1 + 4 + (40 + 0) ≤ i32Max)
  obtain ⟨whole, rest, _, hsplit, _, _, _, hread, _⟩ := h [mislabelled] _ _
    (encodeSet_ok_iff.mpr ⟨rfl, List.forall_mem_singleton.mpr hfits⟩) List.prefix_rfl
  have hother : (runDecode .unlimited decodeSet
      ([] ++ [mislabelled].flatMap RecordBatch.bytes)).toOption =
        some ([{ mislabelled with records := .compressed 0 [] }], []) := by
    decide +kernel
  rw [hread] at hother
  cases hother
  cases hsplit

end Cut

end Odradek.Protocol
