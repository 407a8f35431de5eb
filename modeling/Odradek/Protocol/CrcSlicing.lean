import Odradek.Library.ReflectedCrc
import Odradek.Protocol.Crc

/-!
`crc32c_portable` over the tables `crc32c_tables` builds, and the CRC-32C of a
message taken one bit at a time. An entry of table `n` is its index advanced
over `n + 1` bytes; a register of four message bytes advances over its own four
bytes and over what follows them, a table a byte.
-/

namespace Odradek.Protocol

open Library

abbrev CrcTable := Vector UInt32 256

/-- `(x & 0xff) as usize`. -/
def lowByte (x : UInt32) : Fin 256 :=
  ⟨(x &&& 0xff).toNat, Nat.lt_of_le_of_lt Nat.and_le_right (by decide)⟩

/-- `(x >> 24) as usize`. -/
def highByte (x : UInt32) : Fin 256 :=
  ⟨(x >>> 24).toNat, by
    rw [UInt32.toNat_shiftRight, Nat.shiftRight_eq_div_pow]
    exact Nat.div_lt_of_lt_mul x.toNat_lt⟩

def firstTable : CrcTable := .ofFn fun i => Nat.repeat crcBit 8 (UInt32.ofNat i)

def nextTable (previous : CrcTable) : CrcTable :=
  .ofFn fun i => (previous[i] >>> 8) ^^^ firstTable[lowByte previous[i]]

def tableAt : Nat → CrcTable
  | 0 => firstTable
  | slice + 1 => nextTable (tableAt slice)

def crc32cTables : Vector CrcTable 8 := .ofFn fun slice => tableAt slice

/-- The wide loop's body, with the words as read. -/
def foldChunk (crc low high : UInt32) : UInt32 :=
  let low := low ^^^ crc
  crc32cTables[7][lowByte low] ^^^ crc32cTables[6][lowByte (low >>> 8)] ^^^
    crc32cTables[5][lowByte (low >>> 16)] ^^^ crc32cTables[4][highByte low] ^^^
    crc32cTables[3][lowByte high] ^^^ crc32cTables[2][lowByte (high >>> 8)] ^^^
    crc32cTables[1][lowByte (high >>> 16)] ^^^ crc32cTables[0][highByte high]

def foldByte (crc : UInt32) (byte : UInt8) : UInt32 :=
  (crc >>> 8) ^^^ crc32cTables[0][lowByte (crc ^^^ byte.toUInt32)]

def portableLoop : UInt32 → Bytes → UInt32
  | crc, b0 :: b1 :: b2 :: b3 :: b4 :: b5 :: b6 :: b7 :: rest =>
    portableLoop (foldChunk crc (fromLittleEndian b0 b1 b2 b3) (fromLittleEndian b4 b5 b6 b7)) rest
  | crc, rest => rest.foldl foldByte crc

def crc32cPortable (data : Bytes) : UInt32 := ~~~portableLoop 0xffffffff data

def castagnoli : BitVec 32 := 0x82f63b78

/-- The bits of a byte in the order a reflected check takes them. -/
def byteBits (byte : UInt8) : List Bool := List.ofFn fun i : Fin 8 => byte.toBitVec.getLsbD i

/-- CRC-32C from its definition: all ones, every message bit, complement. -/
def crc32cBitwise (data : Bytes) : UInt32 :=
  ⟨~~~ReflectedCrc.feed castagnoli (BitVec.allOnes 32) (data.flatMap byteBits)⟩

section Tables

abbrev advance (n : Nat) (x : UInt32) : UInt32 :=
  ⟨ReflectedCrc.steps castagnoli (8 * n) x.toBitVec⟩

theorem crcBit_toBitVec (x : UInt32) :
    (crcBit x).toBitVec = ReflectedCrc.step castagnoli x.toBitVec := by
  have hbit : (x &&& 1 ≠ 0) ↔ x.toBitVec.getLsbD 0 = true := by
    rw [Ne, ← UInt32.toBitVec_inj, UInt32.toBitVec_and]
    show x.toBitVec &&& 1#32 ≠ 0#32 ↔ _
    rw [BitVec.and_one_eq_setWidth_ofBool_getLsbD]
    cases x.toBitVec.getLsbD 0 <;> decide
  unfold crcBit ReflectedCrc.step
  by_cases h : x.toBitVec.getLsbD 0 = true
  · rw [if_pos (hbit.mpr h), if_pos h]
    rfl
  · rw [if_neg (fun hne => h (hbit.mp hne)), if_neg h]
    rfl

theorem repeat_crcBit (n : Nat) (x : UInt32) :
    (Nat.repeat crcBit n x).toBitVec = ReflectedCrc.steps castagnoli n x.toBitVec := by
  induction n generalizing x with
  | zero => rfl
  | succ n ih =>
      have hlast : ReflectedCrc.steps castagnoli _ _ = _ :=
        ReflectedCrc.steps_add n 1 x.toBitVec
      rw [Nat.repeat, crcBit_toBitVec, ih, hlast]
      rfl

theorem advance_xor (n : Nat) (x y : UInt32) :
    advance n (x ^^^ y) = advance n x ^^^ advance n y :=
  congrArg UInt32.ofBitVec (ReflectedCrc.steps_xor (8 * n) x.toBitVec y.toBitVec)

theorem advance_add (m n : Nat) (x : UInt32) : advance (m + n) x = advance n (advance m x) := by
  rw [advance, Nat.mul_add, ReflectedCrc.steps_add]

/-- The low byte falls out over the first of the bytes, the others move down. -/
theorem advance_split (n : Nat) (x : UInt32) :
    advance (n + 1) x = advance (n + 1) (x &&& 0xff) ^^^ advance n (x >>> 8) := by
  have hlow : x.toBitVec ^^^ (x.toBitVec >>> 8) <<< 8 = (x &&& 0xff).toBitVec := by
    apply BitVec.eq_of_getLsbD_eq
    intro i hi
    have hmask : (255#32).getLsbD i = decide (i < 8) := by
      rw [BitVec.getLsbD_ofNat]
      show (decide (i < 32) && (2 ^ 8 - 1).testBit i) = _
      rw [Nat.testBit_two_pow_sub_one]
      simp [hi]
    show _ = (x.toBitVec &&& 255#32).getLsbD i
    rw [BitVec.getLsbD_xor, BitVec.getLsbD_shiftLeft, BitVec.getLsbD_ushiftRight,
      BitVec.getLsbD_and, hmask]
    by_cases hbyte : i < 8
    · simp [hbyte]
    · simp [hbyte, hi, Nat.add_sub_cancel' (Nat.le_of_not_lt hbyte)]
  have hsplit : ReflectedCrc.steps castagnoli _ _ = _ :=
    ReflectedCrc.steps_split 8 (8 * n) _ _ hlow
  rw [show 8 + 8 * n = 8 * (n + 1) by omega] at hsplit
  exact congrArg UInt32.ofBitVec hsplit

theorem firstTable_entry (i : Fin 256) : firstTable[i] = advance 1 (UInt32.ofNat i) := by
  simp only [firstTable, Fin.getElem_fin, Vector.getElem_ofFn]
  exact UInt32.toBitVec_inj.mp (repeat_crcBit 8 _)

theorem tableAt_entry (slice : Nat) (i : Fin 256) :
    (tableAt slice)[i] = advance (slice + 1) (UInt32.ofNat i) := by
  induction slice with
  | zero => exact firstTable_entry i
  | succ slice ih =>
      have hlow : UInt32.ofNat (lowByte (tableAt slice)[i]) = (tableAt slice)[i] &&& 0xff :=
        UInt32.ofNat_toNat
      have hnext : (tableAt (slice + 1))[i] = advance 1 (tableAt slice)[i] := by
        rw [advance_split 0, ← hlow, ← firstTable_entry, UInt32.xor_comm]
        simp only [tableAt, nextTable, Fin.getElem_fin, Vector.getElem_ofFn]
        rfl
      rw [hnext, ih, ← advance_add]

theorem lookup_low (slice : Nat) (h : slice < 8) (x : UInt32) :
    crc32cTables[slice][lowByte x] = advance (slice + 1) (x &&& 0xff) := by
  have hentry := tableAt_entry slice (lowByte x)
  have hindex : UInt32.ofNat (lowByte x) = x &&& 0xff := UInt32.ofNat_toNat
  rw [hindex] at hentry
  rw [← hentry]
  simp only [crc32cTables, Fin.getElem_fin, Vector.getElem_ofFn]

theorem lookup_high (slice : Nat) (h : slice < 8) (x : UInt32) :
    crc32cTables[slice][highByte x] = advance (slice + 1) (x >>> 24) := by
  have hentry := tableAt_entry slice (highByte x)
  have hindex : UInt32.ofNat (highByte x) = x >>> 24 := UInt32.ofNat_toNat
  rw [hindex] at hentry
  rw [← hentry]
  simp only [crc32cTables, Fin.getElem_fin, Vector.getElem_ofFn]

end Tables

section Loops

theorem shiftRight_byte (x : UInt32) : x >>> 8 >>> 8 = x >>> 16 ∧ x >>> 16 >>> 8 = x >>> 24 := by
  refine ⟨?_, ?_⟩ <;> apply UInt32.toNat_inj.mp
  · show x.toNat >>> 8 >>> 8 = x.toNat >>> 16
    rw [← Nat.shiftRight_add]
  · show x.toNat >>> 16 >>> 8 = x.toNat >>> 24
    rw [← Nat.shiftRight_add]

/-- A register of four bytes advances a byte at a time. -/
theorem advance_word (n : Nat) (x : UInt32) :
    advance (n + 4) x = advance (n + 4) (x &&& 0xff) ^^^ advance (n + 3) ((x >>> 8) &&& 0xff) ^^^
      advance (n + 2) ((x >>> 16) &&& 0xff) ^^^ advance (n + 1) (x >>> 24) := by
  obtain ⟨htwo, hthree⟩ := shiftRight_byte x
  rw [advance_split (n + 3) x, advance_split (n + 2) (x >>> 8),
    advance_split (n + 1) (x >>> 8 >>> 8), htwo, hthree, UInt32.xor_assoc, UInt32.xor_assoc]

theorem foldChunk_eq (crc low high : UInt32) :
    foldChunk crc low high = advance 8 (low ^^^ crc) ^^^ advance 4 high := by
  have hlow := advance_word 4 (low ^^^ crc)
  have hhigh := advance_word 0 high
  unfold foldChunk
  rw [hlow, hhigh]
  simp only [UInt32.xor_assoc]
  rw [lookup_low 7, lookup_low 6, lookup_low 5, lookup_high 4, lookup_low 3, lookup_low 2,
    lookup_low 1, lookup_high 0]

theorem word_byteBits (b : UInt8) : ReflectedCrc.word 32 (byteBits b) = b.toUInt32.toBitVec := by
  apply BitVec.eq_of_getLsbD_eq
  intro i hi
  show _ = (b.toBitVec.setWidth 32).getLsbD i
  rw [ReflectedCrc.word_getLsbD, BitVec.getLsbD_setWidth, byteBits]
  by_cases h : i < 8
  · rw [List.getElem?_ofFn, dif_pos h, Option.getD_some]
  · rw [List.getElem?_ofFn, dif_neg h, BitVec.getLsbD_of_ge b.toBitVec i (by omega)]
    rfl

theorem length_byteBits (b : UInt8) : (byteBits b).length = 8 := List.length_ofFn

theorem foldByte_eq (crc : UInt32) (b : UInt8) :
    foldByte crc b = advance 1 (crc ^^^ b.toUInt32) := by
  have hdown : (crc ^^^ b.toUInt32) >>> 8 = crc >>> 8 := by
    apply UInt32.toBitVec_inj.mp
    apply BitVec.eq_of_getLsbD_eq
    intro i hi
    show ((crc.toBitVec ^^^ b.toBitVec.setWidth 32) >>> 8).getLsbD i =
      (crc.toBitVec >>> 8).getLsbD i
    rw [BitVec.getLsbD_ushiftRight, BitVec.getLsbD_ushiftRight, BitVec.getLsbD_xor,
      BitVec.getLsbD_setWidth, BitVec.getLsbD_of_ge b.toBitVec (8 + i) (by omega)]
    simp
  rw [foldByte, lookup_low 0, UInt32.xor_comm]
  show _ = advance (0 + 1) (crc ^^^ b.toUInt32)
  rw [advance_split 0 (crc ^^^ b.toUInt32), hdown]
  rfl

theorem xor_above (b : UInt8) (rest : BitVec 32) :
    b.toBitVec.setWidth 32 ^^^ rest <<< 8 = b.toBitVec.setWidth 32 ||| rest <<< 8 := by
  apply BitVec.eq_of_getLsbD_eq
  intro i hi
  rw [BitVec.getLsbD_xor, BitVec.getLsbD_or, BitVec.getLsbD_shiftLeft, BitVec.getLsbD_setWidth]
  by_cases h : i < 8
  · simp [h]
  · simp [BitVec.getLsbD_of_ge b.toBitVec i (by omega)]

/-- The message bits of four bytes in one register. -/
theorem word_bytes (b0 b1 b2 b3 : UInt8) :
    ReflectedCrc.word 32 ([b0, b1, b2, b3].flatMap byteBits) =
      (fromLittleEndian b0 b1 b2 b3).toBitVec := by
  have hflat : [b0, b1, b2, b3].flatMap byteBits =
      byteBits b0 ++ (byteBits b1 ++ (byteBits b2 ++ byteBits b3)) := by simp
  rw [hflat]
  simp only [ReflectedCrc.word_append, word_byteBits, length_byteBits]
  show b0.toBitVec.setWidth 32 ^^^ (b1.toBitVec.setWidth 32 ^^^ (b2.toBitVec.setWidth 32 ^^^
    b3.toBitVec.setWidth 32 <<< 8) <<< 8) <<< 8 =
      b0.toBitVec.setWidth 32 ||| b1.toBitVec.setWidth 32 <<< 8 |||
        b2.toBitVec.setWidth 32 <<< 16 ||| b3.toBitVec.setWidth 32 <<< 24
  rw [xor_above, xor_above, xor_above]
  simp only [BitVec.shiftLeft_or_distrib, ← BitVec.shiftLeft_add, BitVec.or_assoc]

theorem feed_byte (crc : UInt32) (b : UInt8) :
    ReflectedCrc.feed castagnoli crc.toBitVec (byteBits b) = (foldByte crc b).toBitVec := by
  rw [ReflectedCrc.feed_eq _ _ (by rw [length_byteBits]; decide), length_byteBits, word_byteBits,
    foldByte_eq]
  rfl

theorem feed_chunk (crc : UInt32) (b0 b1 b2 b3 b4 b5 b6 b7 : UInt8) :
    ReflectedCrc.feed castagnoli crc.toBitVec
      ([b0, b1, b2, b3].flatMap byteBits ++ [b4, b5, b6, b7].flatMap byteBits) =
      (foldChunk crc (fromLittleEndian b0 b1 b2 b3) (fromLittleEndian b4 b5 b6 b7)).toBitVec := by
  have hlen : ∀ a b c d : UInt8, ([a, b, c, d].flatMap byteBits).length = 32 := by
    intro a b c d
    simp [length_byteBits]
  have hfour : ∀ (a b c d : UInt8) (x : UInt32),
      ReflectedCrc.feed castagnoli x.toBitVec ([a, b, c, d].flatMap byteBits) =
        (advance 4 (x ^^^ fromLittleEndian a b c d)).toBitVec := by
    intro a b c d x
    rw [ReflectedCrc.feed_eq _ _ (Nat.le_of_eq (hlen a b c d)), hlen, word_bytes,
      ← UInt32.toBitVec_xor]
  rw [ReflectedCrc.feed_append, hfour, hfour, advance_xor, ← advance_add 4 4, foldChunk_eq,
    UInt32.xor_comm crc]

/-- The table-driven loop feeds the register bit by bit. -/
theorem portableLoop_eq (crc : UInt32) (data : Bytes) :
    (portableLoop crc data).toBitVec =
      ReflectedCrc.feed castagnoli crc.toBitVec (data.flatMap byteBits) := by
  induction crc, data using portableLoop.induct with
  | case1 crc b0 b1 b2 b3 b4 b5 b6 b7 rest ih =>
      have hflat : (b0 :: b1 :: b2 :: b3 :: b4 :: b5 :: b6 :: b7 :: rest).flatMap byteBits =
          ([b0, b1, b2, b3].flatMap byteBits ++ [b4, b5, b6, b7].flatMap byteBits) ++
            rest.flatMap byteBits := by simp
      rw [hflat, ReflectedCrc.feed_append, feed_chunk, portableLoop, ih]
  | case2 crc rest hshort =>
      rw [portableLoop]
      · clear hshort
        induction rest generalizing crc with
        | nil => rfl
        | cons b rest ih =>
            rw [List.foldl_cons, ih, List.flatMap_cons, ReflectedCrc.feed_append, feed_byte]
      · exact hshort

theorem crcTable_eq (slice : Nat) (i : UInt32) : crcTable slice i = advance (slice + 1) i := by
  have hzero : ∀ x, crcTableZero x = advance 1 x := fun x =>
    UInt32.toBitVec_inj.mp (repeat_crcBit 8 x)
  induction slice with
  | zero => exact hzero i
  | succ slice ih =>
      rw [crcTable, ih, hzero, UInt32.xor_comm, advance_add (slice + 1) 1,
        advance_split 0 (advance (slice + 1) i)]
      rfl

/-- The checksum the batch codecs use is the one over the built tables. -/
theorem crc32c_eq_portable (data : Bytes) : crc32c data = crc32cPortable data := by
  have hchunk : ∀ crc low high, crcChunk crc low high = foldChunk crc low high := by
    intro crc low high
    simp only [crcChunk, foldChunk, crcTable_eq]
    rw [lookup_low 7, lookup_low 6, lookup_low 5, lookup_high 4, lookup_low 3, lookup_low 2,
      lookup_low 1, lookup_high 0]
  have hbyte : crcByte = foldByte := by
    funext crc b
    rw [crcByte, foldByte, crcTable_eq, lookup_low 0]
  have hloop : ∀ crc, crcLoop crc data = portableLoop crc data := by
    intro crc
    induction crc, data using portableLoop.induct with
    | case1 crc b0 b1 b2 b3 b4 b5 b6 b7 rest ih => rw [crcLoop, portableLoop, hchunk, ih]
    | case2 crc rest hshort => rw [crcLoop, portableLoop, hbyte] <;> exact hshort
  rw [crc32c, crc32cPortable, hloop]

/-- The tables and the loops over them compute CRC-32C. -/
theorem crc32cPortable_eq_bitwise (data : Bytes) : crc32cPortable data = crc32cBitwise data := by
  apply UInt32.toBitVec_inj.mp
  show ~~~(portableLoop 0xffffffff data).toBitVec = _
  rw [portableLoop_eq]
  rfl

end Loops

end Odradek.Protocol
