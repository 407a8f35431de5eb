import Odradek.Protocol.Wire

/-!
Every primitive decoder reads back what its encoder wrote, whatever follows.
The only charges are those of the tagged-field vector.
-/

namespace Odradek.Protocol

open Library Library.Decoder

/-- `d` reads `a` from `bytes` and makes no charge. -/
abbrev Reads {α : Type} (d : Decode α) (bytes : Bytes) (a : α) : Prop :=
  Decodes Ledger.charge d bytes a []

theorem ensure_apply {n : Nat} {s : Reader Ledger} (h : n ≤ s.bytes.length) :
    ensure n s = .ok () s := by
  unfold ensure
  rw [bind_apply]
  simp only [remaining, failIf, if_neg (Nat.not_lt.mpr h), pure_apply]

/-- A check that the bytes are there. -/
theorem ensure_before {α : Type} {n : Nat} {f : Unit → Decode α} {bytes suffix : Bytes} {a : α}
    {cs : List Charge} (h : n ≤ bytes.length)
    (hf : DecodesTo Ledger.charge suffix (f ()) bytes a cs) :
    DecodesTo Ledger.charge suffix (ensure n >>= f) bytes a cs := by
  intro r
  have hlook : (ensure n >>= f) ⟨bytes ++ suffix, r⟩ = f () ⟨bytes ++ suffix, r⟩ := by
    rw [bind_apply, ensure_apply (by simp only [List.length_append]; omega)]
  rw [hlook]
  exact hf r

theorem takeBytes_reads (bytes : Bytes) : Reads (takeBytes bytes.length) bytes bytes := by
  intro suffix r
  refine ⟨fun r' h => ?_, fun e h => nomatch h⟩
  cases h
  have hlen : bytes.length ≤ (bytes ++ suffix).length := by simp
  rw [takeBytes, bind_apply, ensure_apply hlen]
  simp [copyToBytes, Decoder.split]

section Fixed

theorem getFixed_reads (width : Nat) {value : Nat} (h : value < 256 ^ width) :
    Reads (getFixed width) (toBigEndian width value) value := by
  have htake := (takeBytes_reads (toBigEndian width value)).bind_pure ofBigEndian
  rwa [length_toBigEndian, ofBigEndian_toBigEndian, Nat.mod_eq_of_lt h] at htake

theorem getI8_reads (value : Int8) : Reads getI8 (putI8 value) value := by
  have h := (getFixed_reads 1 value.toBitVec.isLt).bind_pure fun raw =>
    Int8.ofBitVec (BitVec.ofNat 8 raw)
  rwa [BitVec.ofNat_toNat, BitVec.setWidth_eq] at h

theorem getI16_reads (value : Int16) : Reads getI16 (putI16 value) value := by
  have h := (getFixed_reads 2 value.toBitVec.isLt).bind_pure fun raw =>
    Int16.ofBitVec (BitVec.ofNat 16 raw)
  rwa [BitVec.ofNat_toNat, BitVec.setWidth_eq] at h

theorem getI32_reads (value : Int32) : Reads getI32 (putI32 value) value := by
  have h := (getFixed_reads 4 value.toBitVec.isLt).bind_pure fun raw =>
    Int32.ofBitVec (BitVec.ofNat 32 raw)
  rwa [BitVec.ofNat_toNat, BitVec.setWidth_eq] at h

theorem getI64_reads (value : Int64) : Reads getI64 (putI64 value) value := by
  have h := (getFixed_reads 8 value.toBitVec.isLt).bind_pure fun raw =>
    Int64.ofBitVec (BitVec.ofNat 64 raw)
  rwa [BitVec.ofNat_toNat, BitVec.setWidth_eq] at h

theorem getU16_reads (value : UInt16) : Reads getU16 (putU16 value) value := by
  have h := (getFixed_reads 2 value.toNat_lt).bind_pure UInt16.ofNat
  rwa [UInt16.ofNat_toNat] at h

theorem getU32_reads (value : UInt32) : Reads getU32 (putU32 value) value := by
  have h := (getFixed_reads 4 value.toNat_lt).bind_pure UInt32.ofNat
  rwa [UInt32.ofNat_toNat] at h

theorem getF64_reads (bits : UInt64) : Reads getF64 (putF64 bits) bits := by
  have h := (getFixed_reads 8 bits.toNat_lt).bind_pure UInt64.ofNat
  rwa [UInt64.ofNat_toNat] at h

theorem getBool_reads (value : Bool) : Reads getBool (putBool value) value := by
  have hlt : value.toNat < 256 ^ 1 := by cases value <;> decide
  have h := (getFixed_reads 1 hlt).bind_pure (· != 0)
  cases value <;> exact h

end Fixed

section Varint

theorem byte_and_low (value : Nat) : value &&& 0x7f = value % 128 :=
  Nat.and_two_pow_sub_one_eq_mod value 7

/-- Groups are added above the bits read so far. -/
theorem or_shifted {low shift : Nat} (h : low < 2 ^ shift) (group : Nat) :
    low ||| (group <<< shift) = low + group * 2 ^ shift := by
  rw [Nat.shiftLeft_eq, Nat.mul_comm, Nat.or_comm, ← Nat.two_pow_add_eq_or_of_lt h, Nat.add_comm]

private theorem group_bits : ∀ g : Fin 128,
    g.val &&& 0x80 = 0 ∧ g.val &&& 0x7f = g.val ∧ (g.val ||| 0x80) &&& 0x80 ≠ 0 ∧
      (g.val ||| 0x80) &&& 0x7f = g.val ∧ g.val ||| 0x80 < 256 ∧
      (g.val < 2 → g.val &&& 0xfe = 0) := by
  decide

theorem getByte_reads {byte : Nat} (h : byte < 256) :
    Reads (getFixed 1) [UInt8.ofNat byte] byte := by
  have hread := getFixed_reads 1 h
  simpa [toBigEndian] using hread

/-- What the loop has read so far is below the shift; it adds the rest above. -/
theorem getVarintRounds_reads (rounds shift value low : Nat) (hlow : low < 2 ^ shift)
    (hshift : shift + 7 * rounds = 70) (hvalue : value < 2 ^ (64 - shift)) (hr : shift ≤ 63) :
    Reads (getVarintRounds rounds shift low) (putVarintRounds rounds value)
      (low + value * 2 ^ shift) := by
  induction rounds generalizing shift value low with
  | zero => omega
  | succ rounds ih =>
      obtain ⟨hsmall, hgroup, hbig, hbigGroup, hbyte, hlast⟩ :=
        group_bits ⟨value % 128, Nat.mod_lt _ (by omega)⟩
      simp only at hsmall hgroup hbig hbigGroup hbyte hlast
      rw [getVarintRounds, putVarintRounds, byte_and_low, Nat.shiftRight_eq_div_pow]
      by_cases hmore : value / 2 ^ 7 = 0
      · -- The last group: nothing is left above it.
        have hlt : value < 128 := by
          have := Nat.div_eq_zero_iff.mp hmore
          omega
        have hmod : value % 128 = value := Nat.mod_eq_of_lt hlt
        rw [hmod] at hsmall hgroup hlast
        have hten : ¬ (shift = 63 ∧ value &&& 0xfe ≠ 0) := by
          rintro ⟨rfl, hne⟩
          exact hne (hlast (by simpa using hvalue))
        rw [if_neg (by simpa using hmore), hmod]
        show Reads _ ([UInt8.ofNat value] ++ []) _
        refine Decodes.bind_free (getByte_reads (by omega)) ?_
        rw [if_neg hten, hgroup, or_shifted hlow]
        simp only [hsmall, if_true]
        exact .pure
      · have hge : 128 ≤ value :=
          Nat.le_of_not_lt fun hlt => hmore (Nat.div_eq_of_lt (by omega))
        have hshift' : shift + 7 ≤ 63 := by
          refine Nat.le_of_not_lt fun hgt => ?_
          have hpow : 2 ^ (64 - shift) ≤ 2 ^ 7 := Nat.pow_le_pow_right (by omega) (by omega)
          omega
        rw [if_pos hmore]
        refine Decodes.bind_free (getByte_reads hbyte) ?_
        rw [if_neg (by omega), if_neg hbig, if_neg (by omega), hbigGroup, or_shifted hlow]
        have hmul : value % 128 * 2 ^ shift ≤ 127 * 2 ^ shift :=
          Nat.mul_le_mul_right _ (by omega)
        have hpow : 2 ^ (shift + 7) = 128 * 2 ^ shift := by
          rw [Nat.pow_add, Nat.mul_comm]
        have hsplit : value % 128 * 2 ^ shift + value / 2 ^ 7 * 2 ^ (shift + 7) =
            value * 2 ^ shift := by
          rw [hpow, ← Nat.mul_assoc, ← Nat.add_mul]
          congr 1
          omega
        have hrest := ih (shift + 7) (value / 2 ^ 7) (low + value % 128 * 2 ^ shift)
          (by rw [hpow]; omega) (by omega) ?_ hshift'
        · rwa [Nat.add_assoc, hsplit] at hrest
        · rw [Nat.div_lt_iff_lt_mul (by omega), ← Nat.pow_add]
          exact Nat.lt_of_lt_of_le hvalue (Nat.pow_le_pow_right (by omega) (by omega))

theorem getUnsignedVarint_reads {value : Nat} (h : value < 2 ^ 64) :
    Reads getUnsignedVarint (putUnsignedVarint value) value := by
  have hread := getVarintRounds_reads 10 0 value 0 (by omega) (by omega) h (by omega)
  rwa [Nat.zero_add, Nat.pow_zero, Nat.mul_one] at hread

theorem sshiftRight_sign (v : BitVec 64) :
    v.sshiftRight 63 = if v.msb then BitVec.allOnes 64 else 0#64 := by
  apply BitVec.eq_of_getLsbD_eq
  intro i hi
  have hbit : (if 63 + i < 64 then v.getLsbD (63 + i) else v.msb) = v.msb := by
    by_cases hlast : 63 + i < 64
    · obtain rfl : i = 0 := by omega
      simp [BitVec.msb_eq_getLsbD_last]
    · rw [if_neg hlast]
  rw [BitVec.getLsbD_sshiftRight, hbit]
  cases v.msb with
  | true =>
      rw [if_pos rfl, BitVec.getLsbD_allOnes]
      simp [hi]
  | false =>
      simp [hi]

/-- Bit 0 of the zigzag form is the sign, and the rest is the value, inverted
when it is negative. -/
theorem unzigzag (v : BitVec 64) :
    (v <<< 1 ^^^ v.sshiftRight 63) >>> 1 ^^^ -((v <<< 1 ^^^ v.sshiftRight 63) &&& 1#64) = v := by
  rw [sshiftRight_sign]
  cases h : v.msb with
  | false =>
      have hlow : (v <<< 1 ^^^ 0#64) &&& 1#64 = 0#64 := by
        apply BitVec.eq_of_getLsbD_eq
        intro i hi
        rw [BitVec.getLsbD_and, BitVec.xor_zero, BitVec.getLsbD_shiftLeft]
        cases i <;> simp
      simp only [Bool.false_eq_true, ite_false, hlow]
      apply BitVec.eq_of_getLsbD_eq
      intro i hi
      rw [BitVec.msb_eq_getLsbD_last] at h
      by_cases hlast : i = 63
      · subst hlast
        simpa using h.symm
      · have hnext : 1 + i < 64 := by omega
        simp [hnext, BitVec.getLsbD_eq_getElem hi]
  | true =>
      have hlow : (v <<< 1 ^^^ BitVec.allOnes 64) &&& 1#64 = 1#64 := by
        apply BitVec.eq_of_getLsbD_eq
        intro i hi
        rw [BitVec.getLsbD_and, BitVec.getLsbD_xor, BitVec.getLsbD_shiftLeft,
          BitVec.getLsbD_allOnes]
        cases i <;> simp
      have hneg : -(1#64) = BitVec.allOnes 64 := by decide
      simp only [ite_true, hlow, hneg]
      apply BitVec.eq_of_getLsbD_eq
      intro i hi
      rw [BitVec.msb_eq_getLsbD_last] at h
      rw [BitVec.getLsbD_xor, BitVec.getLsbD_ushiftRight, BitVec.getLsbD_xor,
        BitVec.getLsbD_shiftLeft, BitVec.getLsbD_allOnes, BitVec.getLsbD_allOnes]
      by_cases hlast : i = 63
      · subst hlast
        simpa using h.symm
      · have hnext : 1 + i < 64 := by omega
        simp [hnext, hi]

theorem zigzagDecode_zigzagEncode (value : Int64) : zigzagDecode (zigzagEncode value) = value := by
  apply Int64.toBitVec_inj.mp
  simpa [zigzagDecode, zigzagEncode] using unzigzag value.toBitVec

theorem getVarint_reads (value : Int64) : Reads getVarint (putVarint value) value := by
  have h := (getUnsignedVarint_reads (zigzagEncode value).toNat_lt).bind_pure fun raw =>
    zigzagDecode (UInt64.ofNat raw)
  rwa [UInt64.ofNat_toNat, zigzagDecode_zigzagEncode] at h

end Varint

section Lengths

variable {α : Type}

theorem fromUtf8_utf8 (value : String) : fromUtf8 (utf8 value) = some value := by
  have hvalid : value.toUTF8.IsValidUTF8 := value.isValidUTF8
  have harray : (⟨(utf8 value).toArray⟩ : ByteArray) = value.toUTF8 := by
    rw [utf8, Array.toArray_toList]
  rw [fromUtf8, harray, String.fromUTF8?, dif_pos hvalid]
  rfl

theorem fromUtf8_some {bytes : Bytes} {value : String} (h : fromUtf8 bytes = some value) :
    utf8 value = bytes := by
  unfold fromUtf8 String.fromUTF8? at h
  split at h
  · cases h
    rfl
  · cases h

theorem parseUtf8_utf8 (value : String) : parseUtf8 (utf8 value) = pure value := by
  rw [parseUtf8, fromUtf8_utf8]

theorem lenFrom_ofNat {n : Nat} : lenFrom (n : Int) = pure n := by
  rw [lenFrom, if_neg (by omega), Int.toNat_natCast]

theorem compactLen_pred {n : Nat} (h : n < 2 ^ 64) : compactLen n = pure n := by
  rw [compactLen, if_neg (by unfold usizeMax; omega)]

theorem int16_ofNat {n : Nat} (h : n ≤ i16Max) :
    (Int16.ofNat n).toInt = n ∧ Int16.ofNat n ≠ -1 := by
  have hint : (Int16.ofNat n).toInt = n := Int16.toInt_ofNat_of_lt (by unfold i16Max at h; omega)
  refine ⟨hint, fun hneg => ?_⟩
  rw [hneg] at hint
  exact absurd hint (by show (-1 : Int) ≠ n; omega)

theorem int32_ofNat {n : Nat} (h : n ≤ i32Max) :
    (Int32.ofNat n).toInt = n ∧ Int32.ofNat n ≠ -1 := by
  have hint : (Int32.ofNat n).toInt = n := Int32.toInt_ofNat_of_lt (by unfold i32Max at h; omega)
  refine ⟨hint, fun hneg => ?_⟩
  rw [hneg] at hint
  exact absurd hint (by show (-1 : Int) ≠ n; omega)

theorem readUtf8_reads (value : String) :
    Reads (readUtf8 (utf8 value).length) (utf8 value) value := by
  refine (takeBytes_reads (utf8 value)).bind_last ?_
  rw [parseUtf8_utf8]
  exact .pure

theorem getNullableString_reads {value : Option String} {bytes : Bytes}
    (h : putNullableString value = .ok bytes) : Reads getNullableString bytes value := by
  cases value with
  | none =>
      cases h
      refine (getI16_reads (-1)).bind_last ?_
      rw [if_pos rfl]
      exact .pure
  | some value =>
      simp only [putNullableString, putString] at h
      split at h
      · cases h
      · obtain ⟨hint, hne⟩ := int16_ofNat (Nat.le_of_not_lt ‹_›)
        cases h
        refine (getI16_reads _).bind_free ?_
        rw [if_neg hne, hint, lenFrom_ofNat]
        exact .bind_look .pure ((readUtf8_reads value).bind_pure some)

theorem notNull_reads {d : Decode (Option α)} {bytes : Bytes} {value : α}
    (h : Reads d bytes (some value)) : Reads (d >>= notNull) bytes value :=
  h.bind_last .pure

theorem getString_reads {value : String} {bytes : Bytes} (h : putString value = .ok bytes) :
    Reads getString bytes value :=
  notNull_reads (getNullableString_reads h)

theorem getCompactNullableString_reads {value : Option String}
    (h : ∀ v, value = some v → (utf8 v).length < i64Max) :
    Reads getCompactNullableString (putCompactNullableString value) value := by
  cases value with
  | none =>
      refine (getUnsignedVarint_reads (by omega)).bind_last ?_
      rw [if_pos rfl]
      exact .pure
  | some value =>
      have hlen := h value rfl
      unfold i64Max at hlen
      refine (getUnsignedVarint_reads (by omega)).bind_free ?_
      rw [if_neg (by omega), Nat.add_sub_cancel, compactLen_pred (by omega)]
      exact .bind_look .pure ((readUtf8_reads value).bind_pure some)

theorem getCompactString_reads {value : String} (h : (utf8 value).length < i64Max) :
    Reads getCompactString (putCompactString value) value := by
  have hsome : ∀ v, some value = some v → (utf8 v).length < i64Max := by
    rintro _ ⟨⟩
    exact h
  exact notNull_reads (getCompactNullableString_reads hsome)

theorem getNullableBytes_reads {value : Option Bytes} {bytes : Bytes}
    (h : putNullableBytes value = .ok bytes) : Reads getNullableBytes bytes value := by
  cases value with
  | none =>
      cases h
      refine (getI32_reads (-1)).bind_last ?_
      rw [if_pos rfl]
      exact .pure
  | some value =>
      simp only [putNullableBytes, putBytes] at h
      split at h
      · cases h
      · obtain ⟨hint, hne⟩ := int32_ofNat (Nat.le_of_not_lt ‹_›)
        cases h
        refine (getI32_reads _).bind_free ?_
        rw [if_neg hne, hint, lenFrom_ofNat]
        exact .bind_look .pure ((takeBytes_reads value).bind_pure some)

theorem getCompactNullableBytes_reads {value : Option Bytes}
    (h : ∀ v, value = some v → v.length < i64Max) :
    Reads getCompactNullableBytes (putCompactNullableBytes value) value := by
  cases value with
  | none =>
      refine (getUnsignedVarint_reads (by omega)).bind_last ?_
      rw [if_pos rfl]
      exact .pure
  | some value =>
      have hlen := h value rfl
      unfold i64Max at hlen
      refine (getUnsignedVarint_reads (by omega)).bind_free ?_
      rw [if_neg (by omega), Nat.add_sub_cancel, compactLen_pred (by omega)]
      exact .bind_look .pure ((takeBytes_reads value).bind_pure some)

theorem getArrayLen_reads {len : Option Nat} {bytes : Bytes} (h : putArrayLen len = .ok bytes) :
    Reads getArrayLen bytes len := by
  cases len with
  | none =>
      cases h
      refine (getI32_reads (-1)).bind_last ?_
      rw [if_pos rfl]
      exact .pure
  | some len =>
      simp only [putArrayLen] at h
      split at h
      · cases h
      · obtain ⟨hint, hne⟩ := int32_ofNat (Nat.le_of_not_lt ‹_›)
        cases h
        refine (getI32_reads _).bind_last ?_
        rw [if_neg hne, hint, lenFrom_ofNat]
        exact .bind_look .pure .pure

theorem getCompactArrayLen_reads {len : Option Nat} (h : ∀ n, len = some n → n < i64Max) :
    Reads getCompactArrayLen (putCompactArrayLen len) len := by
  cases len with
  | none =>
      refine (getUnsignedVarint_reads (by omega)).bind_last ?_
      rw [if_pos rfl]
      exact .pure
  | some len =>
      have hlen := h len rfl
      unfold i64Max at hlen
      refine (getUnsignedVarint_reads (by omega)).bind_last ?_
      rw [if_neg (by omega), Nat.add_sub_cancel, compactLen_pred (by omega)]
      exact .bind_look .pure .pure

end Lengths

section TaggedFields

/-- Tags strictly ascend from `previous` on, and every size fits its varint. -/
def TagsAscend : Option Nat → List RawTaggedField → Prop
  | _, [] => True
  | previous, field :: fields =>
    (∀ tag, previous = some tag → tag < field.tag) ∧ field.tag ≤ u32Max ∧
      field.data.length < i64Max ∧ TagsAscend (some field.tag) fields

theorem getTaggedField_reads {previous : Option Nat} {field : RawTaggedField}
    (horder : ∀ tag, previous = some tag → tag < field.tag) (htag : field.tag ≤ u32Max)
    (hlen : field.data.length ≤ i64Max) :
    Reads (getTaggedField previous) (putTaggedField field) field := by
  unfold u32Max at htag
  unfold i64Max at hlen
  have hcheck : checkTagOrder previous field.tag = pure () := by
    cases previous with
    | none => rfl
    | some tag => exact failIf_neg (Nat.not_le.mpr (horder tag rfl))
  rw [putTaggedField, List.append_assoc]
  refine (getUnsignedVarint_reads (by omega)).bind_free ?_
  rw [failIf_neg (by unfold u32Max; omega), hcheck]
  refine .bind_look .pure (.bind_look .pure ((getUnsignedVarint_reads (by omega)).bind_free ?_))
  rw [taggedLen, if_pos (by unfold i64Max; omega), lenFrom_ofNat]
  exact .bind_look .pure ((takeBytes_reads field.data).bind_last .pure)

/-- The section's loop reads back the fields it is to read, and charges for each. -/
theorem getTaggedFieldsLoop_decodes (fields : List RawTaggedField) (previous : Option Nat)
    (read : Vec RawTaggedField) (hread : read.Pushed rawTaggedFieldSize)
    (hascend : TagsAscend previous fields) :
    Decodes Ledger.charge (getTaggedFieldsLoop fields.length previous read)
      (fields.flatMap putTaggedField)
      (read.extend rawTaggedFieldSize fields)
      (itemsCharges rawTaggedFieldSize (fun _ => []) fields read.items.length) := by
  induction fields generalizing previous read with
  | nil =>
      rw [hread.extend_nil]
      exact .pure
  | cons field fields ih =>
      obtain ⟨horder, htag, hlen, hrest⟩ := hascend
      have hpush := push_decodes hread field
      have htail := ih (some field.tag) (read.append rawTaggedFieldSize field)
        (Vec.Pushed.append field) hrest
      rw [Vec.append_extend] at htail
      have hcount : (read.append rawTaggedFieldSize field).items.length =
        read.items.length + 1 := by
        simp [Vec.append]
      rw [hcount] at htail
      exact (getTaggedField_reads horder htag (Nat.le_of_lt hlen)).bind_free
        (hpush.bind_unread htail)

theorem getTaggedFields_decodes {fields : List RawTaggedField} (hcount : fields.length < 2 ^ 64)
    (hascend : TagsAscend none fields) :
    Decodes Ledger.charge getTaggedFields (putTaggedFields fields) fields
      (itemsCharges rawTaggedFieldSize (fun _ => []) fields 0) := by
  have hloop := getTaggedFieldsLoop_decodes fields none (Vec.new rawTaggedFieldSize) .new hascend
  exact (getUnsignedVarint_reads hcount).bind_free (hloop.bind_pure Vec.items)

end TaggedFields

end Odradek.Protocol
