import Odradek.Protocol.RecordSets

/-!
The batch encoder as it writes: the fields first, with the length and the crc
left open, then the records, then both patched in. Every way out of it on an
error is cut back to where the batch began, so the set encoder over a scratch
buffer and the one in place leave the same bytes behind.
-/

namespace Odradek.Protocol

open Library

/-- The result of an encoder, and the buffer it leaves. -/
abbrev Written := Except EncodeError Unit × Bytes

/-- `Record::encode`: what it checks comes before what it writes. -/
def Record.encodeOnto (record : Record) (buf : Bytes) : Written :=
  match record.encode with
  | .ok bytes => (.ok (), buf ++ bytes)
  | .error e => (.error e, buf)

def encodeRecords : List Record → Bytes → Written
  | [], buf => (.ok (), buf)
  | record :: records, buf =>
    match record.encodeOnto buf with
    | (.ok (), buf) => encodeRecords records buf
    | (.error e, buf) => (.error e, buf)

/-- `buf[at..at + bytes.len()].copy_from_slice(bytes)`. -/
def patch (buf : Bytes) (start : Nat) (bytes : Bytes) : Bytes :=
  buf.take start ++ (bytes ++ buf.drop (start + bytes.length))

namespace RecordBatch

/-- What comes before the body, with the length and the crc open. -/
def openHead (batch : RecordBatch) : Bytes :=
  putI64 batch.baseOffset ++ (putI32 0 ++ (putI32 batch.partitionLeaderEpoch ++
    (putI8 magic ++ putU32 0)))

def encodeContents (batch : RecordBatch) (buf : Bytes) : Written :=
  match batch.records with
  | .plain records => encodeRecords records buf
  | .compressed _ payload => (.ok (), buf ++ payload)

def encodeInPlace (batch : RecordBatch) (buf : Bytes) (start : Nat) : Written :=
  match batch.recordCount with
  | .error e => (.error e, buf)
  | .ok count =>
    let buf := buf ++ batch.openHead
    let body := buf.length
    match batch.encodeContents (buf ++ batch.fixedFields count) with
    | (.error e, buf) => (.error e, buf)
    | (.ok (), buf) =>
      let batchLength := 4 + 1 + 4 + (buf.length - body)
      if i32Max < batchLength then (.error (.tooLong batchLength i32Max), buf)
      else
        let crc := crc32c (buf.drop body)
        (.ok (), patch (patch buf (start + 8) (putI32 (Int32.ofNat batchLength))) (body - 4)
          (putU32 crc))

def encodeTo (batch : RecordBatch) (buf : Bytes) : Written :=
  match batch.encodeInPlace buf buf.length with
  | (.ok (), buf) => (.ok (), buf)
  | (.error e, left) => (.error e, left.take buf.length)

end RecordBatch

def encodeSetTo : List RecordBatch → Bytes → Written
  | [], buf => (.ok (), buf)
  | batch :: batches, buf =>
    match batch.encodeTo buf with
    | (.ok (), buf) => encodeSetTo batches buf
    | (.error e, buf) => (.error e, buf)

/-- The loop of `encode_set`, over the scratch buffer it clears each time. -/
def encodeSetVia : (scratch : Bytes) → List RecordBatch → Bytes → Written
  | _, [], buf => (.ok (), buf)
  | scratch, batch :: batches, buf =>
    match batch.encodeTo (scratch.take 0) with
    | (.ok (), scratch) => encodeSetVia scratch batches (buf ++ scratch)
    | (.error e, _) => (.error e, buf)

section InPlace

/-- Whatever the records are, the buffer only grows; on success by their bytes. -/
theorem encodeRecords_eq (records : List Record) (buf : Bytes) :
    ∃ written, (encodeRecords records buf).2 = buf ++ written ∧
      match Record.encodeAll records with
      | .ok bytes => (encodeRecords records buf).1 = .ok () ∧ written = bytes
      | .error e => (encodeRecords records buf).1 = .error e := by
  induction records generalizing buf with
  | nil => exact ⟨[], (List.append_nil buf).symm, rfl, rfl⟩
  | cons record records ih =>
      rw [encodeRecords, Record.encodeOnto, Record.encodeAll]
      cases hrecord : record.encode with
      | error e => exact ⟨[], (List.append_nil buf).symm, rfl⟩
      | ok bytes =>
          obtain ⟨written, hbuf, hresult⟩ := ih (buf ++ bytes)
          refine ⟨bytes ++ written, by simp only [hbuf, List.append_assoc], ?_⟩
          cases hall : Record.encodeAll records with
          | error e =>
              rw [hall] at hresult
              exact hresult
          | ok tail =>
              rw [hall] at hresult
              exact ⟨hresult.1, by rw [hresult.2]⟩

theorem patch_append {front old back bytes : Bytes} {start : Nat} (hstart : front.length = start)
    (hlen : old.length = bytes.length) :
    patch (front ++ (old ++ back)) start bytes = front ++ (bytes ++ back) := by
  have hdrop : (front ++ (old ++ back)).drop (start + bytes.length) = back := by
    rw [← List.append_assoc, List.drop_left']
    rw [List.length_append, hlen, hstart]
  rw [patch, List.take_left' hstart, hdrop]

/-- Both patches land in the fields that were left open. -/
theorem patch_head (batch : RecordBatch) (buf body : Bytes) (length : Int32) (crc : UInt32) :
    patch (patch (buf ++ batch.openHead ++ body) (buf.length + 8) (putI32 length))
        ((buf ++ batch.openHead).length - 4) (putU32 crc) =
      buf ++ (putI64 batch.baseOffset ++ (putI32 length ++ (putI32 batch.partitionLeaderEpoch ++
        (putI8 magic ++ (putU32 crc ++ body))))) := by
  have hfirst : buf ++ batch.openHead ++ body = (buf ++ putI64 batch.baseOffset) ++ (putI32 0 ++
      (putI32 batch.partitionLeaderEpoch ++ (putI8 magic ++ (putU32 0 ++ body)))) := by
    simp only [RecordBatch.openHead, List.append_assoc]
  have hsecond : (buf ++ putI64 batch.baseOffset) ++ (putI32 length ++
      (putI32 batch.partitionLeaderEpoch ++ (putI8 magic ++ (putU32 0 ++ body)))) =
      (buf ++ (putI64 batch.baseOffset ++ (putI32 length ++ (putI32 batch.partitionLeaderEpoch ++
        putI8 magic)))) ++ (putU32 0 ++ body) := by
    simp only [List.append_assoc]
  rw [hfirst, patch_append (by simp [putI64]) (by simp [putI32]), hsecond,
    patch_append (by simp [RecordBatch.openHead, putI64, putI32, putI8, putU32])
      (by simp [putU32])]
  simp only [List.append_assoc]

/-- The records of a batch as bytes of their own. -/
def RecordBatch.contents (batch : RecordBatch) : Except EncodeError Bytes :=
  match batch.records with
  | .plain records => Record.encodeAll records
  | .compressed _ payload => pure payload

theorem RecordBatch.encodeContents_eq (batch : RecordBatch) (buf : Bytes) :
    ∃ written, (batch.encodeContents buf).2 = buf ++ written ∧
      match batch.contents with
      | .ok bytes => (batch.encodeContents buf).1 = .ok () ∧ written = bytes
      | .error e => (batch.encodeContents buf).1 = .error e := by
  unfold encodeContents contents
  cases batch.records with
  | plain records => exact encodeRecords_eq records buf
  | compressed count payload => exact ⟨payload, rfl, rfl, rfl⟩

/-- What a batch appends, and that it appends nothing when it fails. -/
theorem RecordBatch.encodeTo_eq (batch : RecordBatch) (buf : Bytes) :
    batch.encodeTo buf = match batch.encode with
      | .ok bytes => (.ok (), buf ++ bytes)
      | .error e => (.error e, buf) := by
  have hencode : batch.encode = batch.recordCount >>= fun count => batch.contents >>= fun records =>
      if i32Max < 4 + 1 + 4 + (batch.fixedFields count ++ records).length then
        .error (.tooLong (4 + 1 + 4 + (batch.fixedFields count ++ records).length) i32Max)
      else pure (putI64 batch.baseOffset ++ (putI32 (Int32.ofNat
          (4 + 1 + 4 + (batch.fixedFields count ++ records).length)) ++
        (putI32 batch.partitionLeaderEpoch ++ (putI8 magic ++
          (putU32 (crc32c (batch.fixedFields count ++ records)) ++
            (batch.fixedFields count ++ records)))))) := by
    unfold encode contents
    cases batch.records <;> rfl
  rw [hencode, encodeTo, encodeInPlace]
  cases batch.recordCount with
  | error e => simp only [List.take_length, bind, Except.bind]
  | ok count =>
      obtain ⟨written, hbuf, hresult⟩ :=
        batch.encodeContents_eq (buf ++ batch.openHead ++ batch.fixedFields count)
      have hcut : ∀ more, (buf ++ batch.openHead ++ more).take buf.length = buf := by
        intro more
        rw [List.append_assoc, List.take_left' rfl]
      cases hwrite : batch.encodeContents (buf ++ batch.openHead ++ batch.fixedFields count) with
      | mk result left =>
          rw [hwrite] at hbuf hresult
          simp only at hbuf hresult
          rw [List.append_assoc _ _ written] at hbuf
          subst hbuf
          cases hcontents : batch.contents with
          | error e =>
              rw [hcontents] at hresult
              simp only at hresult
              subst hresult
              simp only [hwrite, hcut, bind, Except.bind]
          | ok bytes =>
              rw [hcontents] at hresult
              obtain ⟨rfl, rfl⟩ := hresult
              have hbody : (buf ++ batch.openHead ++ (batch.fixedFields count ++ written)).drop
                  (buf ++ batch.openHead).length = batch.fixedFields count ++ written :=
                List.drop_left' rfl
              have hlen : (buf ++ batch.openHead ++ (batch.fixedFields count ++ written)).length -
                  (buf ++ batch.openHead).length = (batch.fixedFields count ++ written).length := by
                rw [List.length_append, Nat.add_sub_cancel_left]
              simp only [hwrite, hlen, hbody, bind, Except.bind]
              by_cases hlong : i32Max < 4 + 1 + 4 + (batch.fixedFields count ++ written).length
              · simp only [if_pos hlong, hcut]
              · simp only [if_neg hlong, patch_head]
                rfl

end InPlace

section Sets

/-- The two loops leave the same buffer, and the same verdict. -/
theorem encodeSetVia_eq (scratch : Bytes) (batches : List RecordBatch) (buf : Bytes) :
    encodeSetVia scratch batches buf = encodeSetTo batches buf := by
  induction batches generalizing scratch buf with
  | nil => rfl
  | cons batch batches ih =>
      rw [encodeSetVia, encodeSetTo, RecordBatch.encodeTo_eq, RecordBatch.encodeTo_eq]
      cases batch.encode with
      | error e => rfl
      | ok bytes => exact ih bytes (buf ++ bytes)

/-- The bytes of batches that all encode: those of the format, and those of an
encoder with a buffer of its own. -/
def EncodeAlone (batches : List RecordBatch) (encodings : List Bytes) : Prop :=
  List.Forall₂ (fun batch bytes => batch.encode = .ok bytes ∧ batch.encodeTo [] = (.ok (), bytes))
    batches encodings

theorem RecordBatch.encodeTo_alone (batch : RecordBatch) (buf : Bytes) :
    (∃ bytes, (batch.encode = .ok bytes ∧ batch.encodeTo [] = (.ok (), bytes)) ∧
        batch.encodeTo buf = (.ok (), buf ++ bytes)) ∨
      ∃ e, (batch.encode = .error e ∧ batch.encodeTo [] = (.error e, [])) ∧
        batch.encodeTo buf = (.error e, buf) := by
  rw [encodeTo_eq, encodeTo_eq]
  cases batch.encode with
  | error e => exact .inr ⟨e, ⟨rfl, rfl⟩, rfl⟩
  | ok bytes => exact .inl ⟨bytes, ⟨rfl, rfl⟩, rfl⟩

/-- Up to the batch that fails, a set is its batches one by one. -/
theorem encodeSetTo_leaves (batches : List RecordBatch) (buf : Bytes) :
    match encodeSetTo batches buf with
    | (.ok (), out) => ∃ encodings, EncodeAlone batches encodings ∧ out = buf ++ encodings.flatten
    | (.error e, out) => ∃ whole batch rest encodings, batches = whole ++ batch :: rest ∧
        EncodeAlone whole encodings ∧
        (batch.encode = .error e ∧ batch.encodeTo [] = (.error e, [])) ∧
        out = buf ++ encodings.flatten := by
  induction batches generalizing buf with
  | nil => exact ⟨[], .nil, (List.append_nil buf).symm⟩
  | cons batch batches ih =>
      obtain ⟨bytes, halone, hbuf⟩ | ⟨e, halone, hbuf⟩ := batch.encodeTo_alone buf
      · have hrest := ih (buf ++ bytes)
        rw [encodeSetTo, hbuf]
        simp only
        cases hset : encodeSetTo batches (buf ++ bytes) with
        | mk result out =>
            rw [hset] at hrest
            cases result with
            | ok u =>
                obtain ⟨encodings, hall, rfl⟩ := hrest
                exact ⟨bytes :: encodings, .cons halone hall,
                  by rw [List.flatten_cons, List.append_assoc]⟩
            | error e =>
                obtain ⟨whole, failing, rest, encodings, rfl, hall, hfails, rfl⟩ := hrest
                exact ⟨batch :: whole, failing, rest, bytes :: encodings, rfl, .cons halone hall,
                  hfails, by rw [List.flatten_cons, List.append_assoc]⟩
      · rw [encodeSetTo, hbuf]
        exact ⟨[], batch, batches, [], rfl, .nil, halone, (List.append_nil buf).symm⟩

/-- Both set encoders agree, on the bytes and on the error; one that fails
leaves the whole batches before the failing one and nothing of it. -/
theorem encodeSets_agree (batches : List RecordBatch) (buf : Bytes) :
    encodeSetVia [] batches buf = encodeSetTo batches buf ∧
    match encodeSetTo batches buf with
    | (.ok (), out) => ∃ encodings, EncodeAlone batches encodings ∧ out = buf ++ encodings.flatten
    | (.error e, out) => ∃ whole batch rest encodings, batches = whole ++ batch :: rest ∧
        EncodeAlone whole encodings ∧
        (batch.encode = .error e ∧ batch.encodeTo [] = (.error e, [])) ∧
        out = buf ++ encodings.flatten :=
  ⟨encodeSetVia_eq [] batches buf, encodeSetTo_leaves batches buf⟩

/-- The set encoder of the round trips is both of them. -/
theorem encodeSet_eq (batches : List RecordBatch) (buf : Bytes) :
    encodeSet batches buf = encodeSetTo batches buf := by
  induction batches generalizing buf with
  | nil => rfl
  | cons batch batches ih =>
      rw [encodeSet, encodeSetTo, RecordBatch.encodeTo_eq]
      cases batch.encode with
      | error e => rfl
      | ok bytes => exact ih (buf ++ bytes)

end Sets

end Odradek.Protocol
