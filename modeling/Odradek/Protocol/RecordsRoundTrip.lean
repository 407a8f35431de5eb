import Odradek.Protocol.Records
import Odradek.Protocol.WireRoundTrip

/-!
A record batch reads back what it encoded. The charges are those of its header
and record vectors, and depend on nothing but how many of each there are.
-/

namespace Odradek.Protocol

open Library Library.Decoder

section Lengths

theorem shiftRight_seven_log2 {value : Nat} (h : 128 ≤ value) :
    Nat.log2 value = Nat.log2 (value / 2 ^ 7) + 7 := by
  rw [show 2 ^ 7 = 128 from rfl]
  have hpos : value ≠ 0 := by omega
  have hdiv : value / 128 ≠ 0 := by
    have := Nat.div_pos h (by omega)
    omega
  have hlow := Nat.log2_self_le hdiv
  have hhigh : value / 128 < 2 ^ (Nat.log2 (value / 128) + 1) := Nat.lt_log2_self
  have hle : Nat.log2 (value / 128) + 7 ≤ Nat.log2 value := by
    rw [Nat.le_log2 hpos, Nat.pow_add]
    omega
  have hlt : Nat.log2 value < Nat.log2 (value / 128) + 8 := by
    rw [Nat.log2_lt hpos, show Nat.log2 (value / 128) + 8 = Nat.log2 (value / 128) + 1 + 7 by omega,
      Nat.pow_add]
    omega
  omega

/-- One byte per started group of seven bits. -/
theorem length_putVarintRounds (rounds value : Nat) (h : value < 2 ^ (7 * rounds))
    (hrounds : 0 < rounds) :
    (putVarintRounds rounds value).length =
      max (((if value = 0 then 0 else Nat.log2 value + 1) + 6) / 7) 1 := by
  induction rounds generalizing value with
  | zero => omega
  | succ rounds ih =>
      rw [putVarintRounds, Nat.shiftRight_eq_div_pow]
      by_cases hmore : value / 2 ^ 7 = 0
      · have hlt : value < 128 := by
          have := Nat.div_eq_zero_iff.mp hmore
          omega
        rw [if_neg (by simpa using hmore)]
        split
        · rfl
        · have hlog : Nat.log2 value < 7 := by
            rw [Nat.log2_lt ‹_›]
            omega
          simp only [List.length_singleton]
          omega
      · have hge : 128 ≤ value :=
          Nat.le_of_not_lt fun hlt => hmore (Nat.div_eq_of_lt (by omega))
        have hrest : 0 < rounds := by
          refine Nat.pos_of_ne_zero fun hzero => ?_
          subst hzero
          omega
        have hbound : value / 2 ^ 7 < 2 ^ (7 * rounds) := by
          rw [Nat.div_lt_iff_lt_mul (by omega), ← Nat.pow_add]
          exact h
        rw [if_pos hmore, List.length_cons, ih _ hbound hrest, if_neg hmore,
          if_neg (by omega), shiftRight_seven_log2 hge]
        omega

theorem length_putUnsignedVarint (value : UInt64) :
    (putUnsignedVarint value.toNat).length = unsignedVarintLen value := by
  have hlt := value.toNat_lt
  rw [putUnsignedVarint, length_putVarintRounds 10 _ (by omega) (by omega), unsignedVarintLen,
    bitLen]
  have hzero : value = 0 ↔ value.toNat = 0 := by
    rw [← UInt64.toNat_inj]
    rfl
  simp only [hzero]

theorem length_putVarint (value : Int64) : (putVarint value).length = varintLen value :=
  length_putUnsignedVarint _

theorem length_putVarintBytes (value : Option Bytes) :
    (putVarintBytes value).length = varintBytesLen value := by
  cases value with
  | none => exact length_putVarint _
  | some value =>
      simp only [putVarintBytes, varintBytesLen, List.length_append, length_putVarint]

theorem RecordHeader.length_put (header : RecordHeader) :
    header.put.length = varintBytesLen (some (utf8 header.key)) + varintBytesLen header.value := by
  simp only [RecordHeader.put, List.length_append, length_putVarintBytes]

theorem Record.length_body (record : Record) :
    record.body.length = record.bodyLen (Int64.ofNat record.headers.length) := by
  have hheaders : (record.headers.flatMap RecordHeader.put).length =
      (record.headers.map fun header =>
        varintBytesLen (some (utf8 header.key)) + varintBytesLen header.value).sum := by
    rw [List.length_flatMap]
    congr 1
    exact List.map_congr_left fun header _ => header.length_put
  simp only [Record.body, Record.bodyLen, List.length_append, length_putVarint,
    length_putVarintBytes, hheaders, putI8, length_toBigEndian]
  omega

theorem putVarint_ne_nil (value : Int64) : putVarint value ≠ [] := by
  have h := length_putVarint value
  intro hnil
  rw [hnil] at h
  simp only [varintLen, unsignedVarintLen, List.length_nil] at h
  omega

end Lengths

section Raw

theorem rawFixed_reads (width : Nat) {value : Nat} (h : value < 256 ^ width) :
    Reads (rawFixed width) (toBigEndian width value) value := by
  have hread : Reads (copyToBytes (toBigEndian width value).length) (toBigEndian width value)
      (toBigEndian width value) := .split Halt.panic (toBigEndian width value)
  have hsplit := hread.bind_pure ofBigEndian
  rwa [length_toBigEndian, ofBigEndian_toBigEndian, Nat.mod_eq_of_lt h] at hsplit

theorem rawI8_reads (value : Int8) : Reads rawI8 (putI8 value) value := by
  have h := (rawFixed_reads 1 value.toBitVec.isLt).bind_pure fun raw =>
    Int8.ofBitVec (BitVec.ofNat 8 raw)
  rwa [BitVec.ofNat_toNat, BitVec.setWidth_eq] at h

theorem rawI16_reads (value : Int16) : Reads rawI16 (putI16 value) value := by
  have h := (rawFixed_reads 2 value.toBitVec.isLt).bind_pure fun raw =>
    Int16.ofBitVec (BitVec.ofNat 16 raw)
  rwa [BitVec.ofNat_toNat, BitVec.setWidth_eq] at h

theorem rawI32_reads (value : Int32) : Reads rawI32 (putI32 value) value := by
  have h := (rawFixed_reads 4 value.toBitVec.isLt).bind_pure fun raw =>
    Int32.ofBitVec (BitVec.ofNat 32 raw)
  rwa [BitVec.ofNat_toNat, BitVec.setWidth_eq] at h

theorem rawI64_reads (value : Int64) : Reads rawI64 (putI64 value) value := by
  have h := (rawFixed_reads 8 value.toBitVec.isLt).bind_pure fun raw =>
    Int64.ofBitVec (BitVec.ofNat 64 raw)
  rwa [BitVec.ofNat_toNat, BitVec.setWidth_eq] at h

theorem rawU32_reads (value : UInt32) : Reads rawU32 (putU32 value) value := by
  have h := (rawFixed_reads 4 value.toNat_lt).bind_pure UInt32.ofNat
  rwa [UInt32.ofNat_toNat] at h

/-- Nothing is left at the end of a whole buffer. -/
theorem drained_before {α : Type} {f : Unit → Decode α} {a : α} {cs : List Charge}
    (hf : DecodesTo Ledger.charge [] (f ()) [] a cs) :
    DecodesTo Ledger.charge [] (drained >>= f) [] a cs := by
  have hdrained : DecodesTo Ledger.charge [] drained [] () [] := by
    intro r
    refine ⟨fun r' h => ?_, fun e h => nomatch h⟩
    cases h
    rfl
  exact hdrained.bind hf

end Raw

section Records

theorem int64_ofNat {n : Nat} (h : n ≤ i64Max) :
    (Int64.ofNat n).toInt = n ∧ Int64.ofNat n ≠ -1 := by
  have hint : (Int64.ofNat n).toInt = n := Int64.toInt_ofNat_of_lt (by unfold i64Max at h; omega)
  refine ⟨hint, fun hneg => ?_⟩
  rw [hneg] at hint
  exact absurd hint (by show (-1 : Int) ≠ n; omega)

theorem getVarintBytes_reads {value : Option Bytes}
    (h : ∀ v, value = some v → v.length ≤ i64Max) :
    Reads getVarintBytes (putVarintBytes value) value := by
  cases value with
  | none =>
      refine (getVarint_reads (-1)).bind_last ?_
      rw [if_pos rfl]
      exact .pure
  | some value =>
      obtain ⟨hint, hne⟩ := int64_ofNat (h value rfl)
      refine (getVarint_reads _).bind_free ?_
      rw [if_neg hne, hint, lenFrom_ofNat]
      exact .bind_look .pure ((takeBytes_reads value).bind_pure some)

/-- Every length prefix of a header fits an `i64`. -/
def RecordHeader.Fits (header : RecordHeader) : Prop :=
  (utf8 header.key).length ≤ i64Max ∧ ∀ v, header.value = some v → v.length ≤ i64Max

theorem getHeader_reads {header : RecordHeader} (h : header.Fits) :
    Reads getHeader header.put header := by
  have hkey : ∀ v, some (utf8 header.key) = some v → v.length ≤ i64Max := by
    rintro _ ⟨⟩
    exact h.1
  refine (getVarintBytes_reads hkey).bind_free ?_
  rw [notNull]
  refine .bind_look .pure ?_
  rw [parseUtf8_utf8]
  exact .bind_look .pure ((getVarintBytes_reads h.2).bind_last .pure)

theorem RecordHeader.put_ne_nil (header : RecordHeader) : header.put ≠ [] := by
  simp only [RecordHeader.put, putVarintBytes, ne_eq, List.append_eq_nil_iff, not_and]
  intro h
  exact absurd h.1 (putVarint_ne_nil _)

namespace Record

def Fits (record : Record) : Prop :=
  (∀ v, record.key = some v → v.length ≤ i64Max) ∧
  (∀ v, record.value = some v → v.length ≤ i64Max) ∧
  record.headers.length ≤ i64Max ∧ record.body.length ≤ i64Max ∧
  ∀ header ∈ record.headers, header.Fits

def charges (record : Record) : List Charge :=
  itemsCharges recordHeaderSize (fun _ => []) record.headers 0

theorem decodeBody_decodes {record : Record} (h : record.Fits) :
    DecodesTo Ledger.charge [] decodeBody record.body record record.charges := by
  obtain ⟨hkey, hvalue, hcount, _, hheaders⟩ := h
  obtain ⟨hlen, _⟩ := int64_ofNat hcount
  have hread := getItems_decodes record.headers (Vec.new recordHeaderSize) .new
    fun header hmem =>
      progressing_decodes (getHeader_reads (hheaders header hmem)) header.put_ne_nil
  have hdelta : record.offsetDelta.toInt64.toInt = record.offsetDelta.toInt :=
    Int32.toInt_toInt64 _
  have hback : record.offsetDelta.toInt64.toInt32 = record.offsetDelta := by simp
  refine .remaining ?_
  rw [failIf_neg (by simp [body, putI8, length_toBigEndian])]
  refine Decodes.pure.before_look ((rawI8_reads _).before_free ((getVarint_reads _).before_free
    ((getVarint_reads _).before_free ?_)))
  rw [failIf_neg (not_or.mpr ⟨Int.not_lt.mpr (hdelta ▸ record.offsetDelta.minValue_le_toInt),
    Int.not_lt.mpr (hdelta ▸ record.offsetDelta.toInt_le)⟩)]
  refine Decodes.pure.before_look ((getVarintBytes_reads hkey).before_free
    ((getVarintBytes_reads hvalue).before_free ((getVarint_reads _).before_free ?_)))
  rw [hlen, failIf_neg (by omega), Int.toNat_natCast]
  refine Decodes.pure.before_look ?_
  rw [← List.append_nil (List.flatMap _ _), ← List.append_nil (charges _)]
  refine hread.before (drained_before ?_)
  rw [hback]
  exact Decodes.pure []

def bytes (record : Record) : Bytes := putVarint (Int64.ofNat record.body.length) ++ record.body

/-- A record that encodes fits its prefixes. -/
theorem encode_eq_ok {record : Record} {bs : Bytes} (h : record.encode = .ok bs) :
    bs = record.bytes ∧ record.Fits := by
  unfold encode at h
  split at h
  · cases h
  · rename_i hcount
    simp only [← record.length_body] at h
    split at h
    · cases h
    · rename_i hbody
      cases h
      have hbytes : ∀ v, (putVarintBytes (some v)).length ≤ i64Max → v.length ≤ i64Max := by
        intro v hv
        rw [putVarintBytes, List.length_append] at hv
        omega
      have hparts := Nat.le_of_not_lt hbody
      simp only [body, List.length_append] at hparts
      refine ⟨rfl, ?_, ?_, Nat.le_of_not_lt hcount, Nat.le_of_not_lt hbody, ?_⟩
      · intro v hv
        rw [hv] at hparts
        exact hbytes v (by omega)
      · intro v hv
        rw [hv] at hparts
        exact hbytes v (by omega)
      · intro header hmem
        have hput : header.put.length ≤ (record.headers.flatMap RecordHeader.put).length :=
          (List.sublist_flatten_of_mem (List.mem_map_of_mem hmem)).length_le
        rw [RecordHeader.put, List.length_append] at hput
        refine ⟨hbytes _ (by omega), fun v hv => ?_⟩
        rw [hv] at hput
        exact hbytes v (by omega)

theorem decode_decodes {record : Record} (h : record.Fits) :
    Decodes Ledger.charge decode record.bytes record record.charges := by
  have hfits := h
  obtain ⟨_, _, _, hbody, _⟩ := h
  obtain ⟨hlen, _⟩ := int64_ofNat hbody
  refine (getVarint_reads _).bind_free ?_
  rw [hlen, lenFrom_ofNat]
  exact Decodes.pure.bind_look
    ((takeBytes_reads record.body).bind_rest (decodeBody_decodes hfits).within)

theorem length_bytes (record : Record) :
    record.bytes.length = varintLen (Int64.ofNat record.body.length) + record.body.length := by
  rw [bytes, List.length_append, length_putVarint]

theorem encode_of_fits {record : Record} (h : record.Fits) :
    record.encode = .ok record.bytes := by
  obtain ⟨_, _, hcount, hbody, _⟩ := h
  rw [encode, if_neg (Nat.not_lt.mpr hcount)]
  simp only [← record.length_body, if_neg (Nat.not_lt.mpr hbody)]
  rfl

theorem encodeAll_of_fits {records : List Record} (h : ∀ record ∈ records, record.Fits) :
    encodeAll records = .ok (records.flatMap bytes) := by
  induction records with
  | nil => rfl
  | cons record records ih =>
      rw [encodeAll, encode_of_fits (h record List.mem_cons_self),
        ih fun r hr => h r (List.mem_cons_of_mem _ hr)]
      rfl

theorem bytes_ne_nil (record : Record) : record.bytes ≠ [] := by
  simp only [bytes, ne_eq, List.append_eq_nil_iff, not_and]
  intro h
  exact absurd h (putVarint_ne_nil _)

theorem encodeAll_eq_ok {records : List Record} {bs : Bytes} (h : encodeAll records = .ok bs) :
    bs = records.flatMap bytes ∧ ∀ record ∈ records, record.Fits := by
  induction records generalizing bs with
  | nil =>
      cases h
      exact ⟨rfl, fun _ hmem => absurd hmem List.not_mem_nil⟩
  | cons record records ih =>
      rw [encodeAll] at h
      cases hhead : record.encode with
      | error e =>
          rw [hhead] at h
          cases h
      | ok head =>
          cases htail : encodeAll records with
          | error e =>
              rw [hhead, htail] at h
              cases h
          | ok tail =>
              rw [hhead, htail] at h
              cases h
              obtain ⟨rfl, hfits⟩ := encode_eq_ok hhead
              obtain ⟨rfl, hall⟩ := ih htail
              refine ⟨rfl, ?_⟩
              intro r hr
              cases hr with
              | head => exact hfits
              | tail _ hr => exact hall r hr

end Record

namespace RecordBatch

/-- The attribute bits agree with the variant, and a carried count is a count. -/
def Coherent (batch : RecordBatch) : Prop :=
  match batch.records with
  | .plain _ => batch.compression = .none
  | .compressed count _ => batch.compression ≠ .none ∧ 0 ≤ count.toInt

def charges (batch : RecordBatch) : List Charge :=
  match batch.records with
  | .plain records => itemsCharges recordSize Record.charges records 0
  | .compressed _ _ => []

/-- The bytes of the records, behind the fixed fields. -/
def payload (batch : RecordBatch) : Bytes :=
  match batch.records with
  | .plain records => records.flatMap Record.bytes
  | .compressed _ payload => payload

def count (batch : RecordBatch) : Int32 :=
  match batch.records with
  | .plain records => Int32.ofNat records.length
  | .compressed count _ => count

def body (batch : RecordBatch) : Bytes := batch.fixedFields batch.count ++ batch.payload

def bytes (batch : RecordBatch) : Bytes :=
  putI64 batch.baseOffset ++ (putI32 (Int32.ofNat (4 + 1 + 4 + batch.body.length)) ++
    (putI32 batch.partitionLeaderEpoch ++ (putI8 magic ++
      (putU32 (crc32c batch.body) ++ batch.body))))

def Fits (batch : RecordBatch) : Prop :=
  4 + 1 + 4 + batch.body.length ≤ i32Max ∧
  match batch.records with
  | .plain records => records.length ≤ i32Max ∧ ∀ record ∈ records, record.Fits
  | .compressed _ _ => True

theorem encode_eq_ok {batch : RecordBatch} {bs : Bytes} (h : batch.encode = .ok bs) :
    bs = batch.bytes ∧ batch.Fits := by
  unfold encode recordCount at h
  unfold bytes Fits body payload count
  cases hrecords : batch.records with
  | plain records =>
      simp only [hrecords] at h ⊢
      split at h
      · cases h
      · cases hall : Record.encodeAll records with
        | error e =>
            rw [hall] at h
            cases h
        | ok tail =>
            obtain ⟨rfl, hfits⟩ := Record.encodeAll_eq_ok hall
            simp only [hall, bind, Except.bind] at h
            split at h
            · cases h
            · cases h
              exact ⟨rfl, Nat.le_of_not_lt ‹_›, Nat.le_of_not_lt ‹_›, hfits⟩
  | compressed count payload =>
      simp only [hrecords, bind, Except.bind, pure, Except.pure] at h ⊢
      split at h
      · cases h
      · cases h
        exact ⟨rfl, Nat.le_of_not_lt ‹_›, trivial⟩

theorem encode_of_fits {batch : RecordBatch} (h : batch.Fits) : batch.encode = .ok batch.bytes := by
  obtain ⟨hlen, hrecords⟩ := h
  unfold encode recordCount
  unfold bytes
  unfold body payload count at hlen ⊢
  cases hbatch : batch.records with
  | plain records =>
      simp only [hbatch] at hlen hrecords ⊢
      rw [if_neg (Nat.not_lt.mpr hrecords.1), Record.encodeAll_of_fits hrecords.2]
      simp only [bind, Except.bind, if_neg (Nat.not_lt.mpr hlen)]
      rfl
  | compressed count payload =>
      simp only [hbatch] at hlen ⊢
      simp only [bind, Except.bind, pure, Except.pure, if_neg (Nat.not_lt.mpr hlen)]

theorem decodeBody_decodes {batch : RecordBatch} (h : batch.Fits) (hcoherent : batch.Coherent) :
    DecodesTo Ledger.charge [] (decodeBody batch.baseOffset batch.partitionLeaderEpoch) batch.body
      batch batch.charges := by
  have hcount : 0 ≤ batch.count.toInt := by
    unfold count
    unfold Fits at h
    unfold Coherent at hcoherent
    cases hrecords : batch.records with
    | plain records =>
        simp only [hrecords] at h ⊢
        rw [(int32_ofNat h.2.1).1]
        omega
    | compressed count payload =>
        simp only [hrecords] at hcoherent ⊢
        exact hcoherent.2
  simp only [body, fixedFields, List.append_assoc]
  refine (rawI16_reads _).before_free ((rawI32_reads _).before_free ((rawI64_reads _).before_free
    ((rawI64_reads _).before_free ((rawI64_reads _).before_free ((rawI16_reads _).before_free
    ((rawI32_reads _).before_free ((rawI32_reads _).before_free ?_)))))))
  rw [failIf_neg (by omega)]
  refine Decodes.pure.before_look ?_
  unfold Coherent compression at hcoherent
  unfold Fits at h
  cases hrecords : batch.records with
  | plain records =>
      simp only [hrecords] at hcoherent h
      have hread := getItems_decodes records (Vec.new recordSize) .new fun record hmem =>
        progressing_decodes (Record.decode_decodes (h.2.2 record hmem)) record.bytes_ne_nil
      rw [if_pos hcoherent]
      simp only [count, payload, charges, hrecords, (int32_ofNat h.2.1).1, Int.toNat_natCast]
      rw [← List.append_nil (List.flatMap _ _), ← List.append_nil (itemsCharges _ _ _ _)]
      refine hread.before (drained_before (Decodes.pure.before_look ?_))
      cases batch
      cases hrecords
      exact Decodes.pure []
  | compressed count payload =>
      simp only [hrecords] at hcoherent
      rw [if_neg hcoherent.1]
      simp only [RecordBatch.count, RecordBatch.payload, charges, hrecords]
      refine .remaining ?_
      have hread : Reads (copyToBytes (payload.length + 0)) payload payload :=
        .split Halt.panic payload
      refine hread.before_rest (Decodes.pure.before_look ?_)
      cases batch
      cases hrecords
      exact Decodes.pure []

theorem length_body (batch : RecordBatch) : batch.body.length = 40 + batch.payload.length := by
  simp only [body, fixedFields, List.length_append, putI16, putI32, putI64, length_toBigEndian]

/-- A batch reads back from its bytes, whatever follows. -/
theorem decode_decodes {batch : RecordBatch} (h : batch.Fits) (hcoherent : batch.Coherent) :
    Decodes Ledger.charge decode batch.bytes batch batch.charges := by
  have hlen := batch.length_body
  obtain ⟨hint, _⟩ := int32_ofNat h.1
  intro suffix
  refine ensure_before ?_ ?_
  · simp only [bytes, List.length_append, putI64, putI32, length_toBigEndian]
    omega
  refine (rawI64_reads _).before_free ((rawI32_reads _).before_free ?_)
  rw [hint, lenFrom_ofNat]
  refine Decodes.pure.before_look ?_
  rw [failIf_neg (by unfold batchOverhead; omega)]
  refine Decodes.pure.before_look (ensure_before ?_ ?_)
  · simp only [List.length_append, putI32, putI8, putU32, length_toBigEndian]
    omega
  · refine (rawI32_reads _).before_free ((rawI8_reads _).before_free ?_)
    rw [failIf_neg (by simp)]
    refine Decodes.pure.before_look ((rawU32_reads _).before_free ?_)
    have hread : Reads (copyToBytes batch.body.length) batch.body batch.body :=
      .split Halt.panic batch.body
    have hwidth : 4 + 1 + 4 + batch.body.length - 9 = batch.body.length := by omega
    rw [hwidth]
    refine hread.before_rest ?_
    rw [failIf_neg (by simp)]
    exact Decodes.pure.before_look ((decodeBody_decodes h hcoherent).within suffix)

theorem length_bytes (batch : RecordBatch) :
    batch.bytes.length = 12 + (4 + 1 + 4 + batch.body.length) := by
  simp only [bytes, List.length_append, putI64, putI32, putI8, putU32, length_toBigEndian]
  omega

/-- What a fetch's size limit may leave of a batch: anything but all of it. -/
def Cut (batch : RecordBatch) (tail : Bytes) : Prop :=
  tail <+: batch.bytes ∧ tail.length < batch.bytes.length

theorem lengthField {batch : RecordBatch} {front rest : Bytes} (h : batch.Fits)
    (hfront : front <+: batch.bytes) (hlen : 12 ≤ front.length) :
    (Int32.ofBitVec (BitVec.ofNat 32 (ofBigEndian (((front ++ rest).drop 8).take 4)))).toInt =
      (4 + 1 + 4 + batch.body.length : Nat) := by
  obtain ⟨back, hback⟩ := hfront
  have hfield : ((front ++ rest).drop 8).take 4 = (batch.bytes.drop 8).take 4 := by
    rw [← hback, List.drop_append_of_le_length (by omega),
      List.drop_append_of_le_length (by omega),
      List.take_append_of_le_length (by simp only [List.length_drop]; omega),
      List.take_append_of_le_length (by simp only [List.length_drop]; omega)]
  have hput : (batch.bytes.drop 8).take 4 =
      putI32 (Int32.ofNat (4 + 1 + 4 + batch.body.length)) := by
    rw [bytes, List.drop_left' (by rw [putI64, length_toBigEndian]),
      List.take_left' (by rw [putI32, length_toBigEndian])]
  have hread : ofBigEndian (putI32 (Int32.ofNat (4 + 1 + 4 + batch.body.length))) =
      (Int32.ofNat (4 + 1 + 4 + batch.body.length)).toBitVec.toNat := by
    rw [putI32, ofBigEndian_toBigEndian]
    exact Nat.mod_eq_of_lt (BitVec.isLt _)
  rw [hfield, hput, hread, BitVec.ofNat_toNat, BitVec.setWidth_eq]
  exact (int32_ofNat h.1).1

variable {α : Type} {a : α} {cs : List Charge}

theorem peekBatchLength_before {batch : RecordBatch} {front rest suffix : Bytes}
    {f : Int → Decode α} (h : batch.Fits) (hfront : front <+: batch.bytes)
    (hlen : 12 ≤ front.length)
    (hf : DecodesTo Ledger.charge suffix (f (4 + 1 + 4 + batch.body.length : Nat))
      (front ++ rest) a cs) :
    DecodesTo Ledger.charge suffix (peekBatchLength >>= f) (front ++ rest) a cs := by
  intro r
  have hlook : (peekBatchLength >>= f) ⟨front ++ rest ++ suffix, r⟩ =
      f (4 + 1 + 4 + batch.body.length : Nat) ⟨front ++ rest ++ suffix, r⟩ := by
    rw [bind_apply, peekBatchLength]
    simp only [List.append_assoc, lengthField h hfront hlen]
  rw [hlook]
  exact hf r

theorem clear_before {tail : Bytes} {f : Unit → Decode α}
    (hf : DecodesTo Ledger.charge [] (f ()) [] a cs) :
    DecodesTo Ledger.charge [] (clear >>= f) tail a cs := by
  intro r
  have hlook : (clear >>= f) ⟨tail ++ [], r⟩ = f () ⟨[] ++ [], r⟩ := rfl
  rw [hlook]
  exact hf r

end RecordBatch

open RecordBatch in
/-- Whole batches, and at most a cut one behind them. -/
theorem decodeSetRounds_decodes {tail : Bytes} (batches : List RecordBatch) (rounds : Nat)
    (read : Vec RecordBatch) (hread : read.Pushed recordBatchSize)
    (hbatches : ∀ batch ∈ batches, batch.Fits ∧ batch.Coherent)
    (htail : tail = [] ∨ ∃ batch : RecordBatch, batch.Fits ∧ batch.Cut tail)
    (hrounds : batches.length < rounds) :
    DecodesTo Ledger.charge [] (decodeSetRounds rounds read)
      (batches.flatMap RecordBatch.bytes ++ tail) (read.extend recordBatchSize batches)
      (itemsCharges recordBatchSize RecordBatch.charges batches read.items.length) := by
  induction batches generalizing rounds read with
  | nil =>
      obtain ⟨rounds, rfl⟩ : ∃ n, rounds = n + 1 := ⟨rounds - 1, by simp at hrounds; omega⟩
      rw [hread.extend_nil]
      refine .remaining ?_
      simp only [List.flatMap_nil, List.nil_append, List.length_nil, Nat.add_zero]
      by_cases hshort : tail.length < 12
      · rw [if_pos hshort]
        exact clear_before (Decodes.pure [])
      · rw [if_neg hshort]
        obtain rfl | ⟨batch, hfits, hstarts, hcut⟩ := htail
        · exact absurd (by simp) hshort
        · have hlen := batch.length_bytes
          rw [← List.append_nil tail]
          refine peekBatchLength_before hfits hstarts (by omega) ?_
          rw [lenFrom_ofNat]
          refine Decodes.pure.before_look ?_
          rw [if_pos (by simp only [List.append_nil]; omega)]
          exact clear_before (Decodes.pure [])
  | cons batch batches ih =>
      obtain ⟨rounds, rfl⟩ : ∃ n, rounds = n + 1 := ⟨rounds - 1, by simp at hrounds; omega⟩
      obtain ⟨hfits, hcoherent⟩ := hbatches batch List.mem_cons_self
      have hlen := batch.length_bytes
      have hrest := ih rounds (read.append recordBatchSize batch) (Vec.Pushed.append batch)
        (fun b hb => hbatches b (List.mem_cons_of_mem _ hb))
        (by simp only [List.length_cons] at hrounds; omega)
      rw [Vec.append_extend] at hrest
      have hcount : (read.append recordBatchSize batch).items.length = read.items.length + 1 := by
        simp [Vec.append]
      rw [hcount] at hrest
      refine .remaining ?_
      simp only [List.flatMap_cons, List.append_assoc, List.length_append, List.length_nil,
        Nat.add_zero]
      rw [if_neg (by omega)]
      refine peekBatchLength_before hfits List.prefix_rfl (by omega) ?_
      rw [lenFrom_ofNat]
      refine Decodes.pure.before_look ?_
      rw [if_neg (by omega)]
      exact (decode_decodes hfits hcoherent).before ((push_decodes hread batch).before hrest)

open RecordBatch in
/-- A record set reads back as its whole batches, and nothing is left. -/
theorem decodeSet_decodes {tail : Bytes} {batches : List RecordBatch}
    (hbatches : ∀ batch ∈ batches, batch.Fits ∧ batch.Coherent)
    (htail : tail = [] ∨ ∃ batch : RecordBatch, batch.Fits ∧ batch.Cut tail) :
    DecodesTo Ledger.charge [] decodeSet (batches.flatMap RecordBatch.bytes ++ tail) batches
      (itemsCharges recordBatchSize RecordBatch.charges batches 0) := by
  have hcount : ∀ bs : List RecordBatch, bs.length ≤ (bs.flatMap RecordBatch.bytes).length := by
    intro bs
    induction bs with
    | nil => exact Nat.le_refl _
    | cons batch bs ih =>
        have hlen := batch.length_bytes
        simp only [List.flatMap_cons, List.length_append, List.length_cons]
        omega
  have hrounds := hcount batches
  refine .remaining ?_
  rw [← List.append_nil (_ ++ tail), ← List.append_nil (itemsCharges _ _ _ _)]
  refine (decodeSetRounds_decodes batches _ (Vec.new recordBatchSize) .new hbatches
    htail ?_).bind ?_
  · simp only [List.length_append]
    omega
  · exact Decodes.pure []

end Records

end Odradek.Protocol
