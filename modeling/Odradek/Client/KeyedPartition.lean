import Mathlib.Data.List.GetD
import Odradek.Client.Partitioner
import Odradek.Client.Producer

/-!
The Java client's partitioner beside the one of `producer.rs`: `int`s wrap, a `byte`
is extended with its sign and masked, `>>>` fills with zeros, and the `switch` on
what is left of the key falls through. Read as bits, every `int` of the one hash is
the word of the other.
-/

namespace Odradek.Client

open Odradek.Protocol

namespace Java

/-- `x >>> n`. -/
def unsignedShiftRight (x : Int32) (n : UInt32) : Int32 := (x.toUInt32 >>> n).toInt32

/-- `data[i] & 0xff`. -/
def masked (data : List Int8) (i : Int32) : Int32 := (data.getD i.toInt.toNat 0).toInt32 &&& 0xff

def m : Int32 := 0x5bd1e995

def r : UInt32 := 24

def word (data : List Int8) (i4 : Int32) : Int32 :=
  masked data (i4 + 0) + (masked data (i4 + 1) <<< 8) + (masked data (i4 + 2) <<< 16) +
    (masked data (i4 + 3) <<< 24)

/-- What the loop over the words does with one of them. -/
def mix (h k : Int32) : Int32 :=
  let k := k * m
  let k := k ^^^ unsignedShiftRight k r
  let k := k * m
  let h := h * m
  h ^^^ k

/-- `for (int i = 0; i < length4; i++)`. -/
def words (data : List Int8) (length4 : Int32) (h : Int32) : Int32 :=
  ((List.range length4.toInt.toNat).map Int32.ofNat).foldl (fun h i => mix h (word data (i * 4))) h

/-- `switch (length % 4)`, each case falling through to the one below it. -/
def tail (data : List Int8) (length : Int32) (h : Int32) : Int32 :=
  let last := length &&& ~~~3
  let case1 (h : Int32) := (h ^^^ masked data last) * m
  let case2 (h : Int32) := case1 (h ^^^ (masked data (last + 1) <<< 8))
  let case3 (h : Int32) := case2 (h ^^^ (masked data (last + 2) <<< 16))
  match (length % 4).toInt with
  | 3 => case3 h
  | 2 => case2 h
  | 1 => case1 h
  | _ => h

def murmur2 (data : List Int8) : Int32 :=
  let length := Int32.ofNat data.length
  let h := (0x9747b28c : Int32) ^^^ length
  let h := tail data length (words data (length / 4) h)
  let h := h ^^^ unsignedShiftRight h 13
  let h := h * m
  h ^^^ unsignedShiftRight h 15

end Java

def javaBytes (key : Bytes) : List Int8 := key.map UInt8.toInt8

section Words

theorem signExtend_masked (b : BitVec 8) : b.signExtend 32 &&& 0xff#32 = b.setWidth 32 := by
  have hmask : ∀ i, i < 32 → (0xff#32).getLsbD i = decide (i < 8) := by decide
  apply BitVec.eq_of_getLsbD_eq
  intro i hi
  rw [BitVec.getLsbD_and, BitVec.getLsbD_signExtend, BitVec.getLsbD_setWidth, hmask i hi]
  by_cases hlow : i < 8
  · simp [hi, hlow]
  · simp [hi, hlow, BitVec.getLsbD_of_ge b i (by omega)]

theorem toInt32_masked (b : UInt8) : b.toInt8.toInt32 &&& 0xff = b.toUInt32.toInt32 :=
  Int32.toBitVec_inj.mp (signExtend_masked b.toBitVec)

/-- Above what `x` holds, the bits of a shifted byte are set or added alike. -/
theorem or_shiftLeft {x : UInt32} {n : Nat} (b : UInt8) (hn : n ≤ 24) (hx : x.toNat < 2 ^ n) :
    x ||| (b.toUInt32 <<< UInt32.ofNat n) = x + (b.toUInt32 <<< UInt32.ofNat n) ∧
      (x + (b.toUInt32 <<< UInt32.ofNat n)).toNat < 2 ^ (n + 8) := by
  have hb := b.toNat_lt
  have hpow : 2 ^ (n + 8) ≤ 2 ^ 32 := Nat.pow_le_pow_right (by omega) (by omega)
  have hfits : b.toNat * 2 ^ n + x.toNat < 2 ^ (n + 8) := by
    have hmul : (b.toNat + 1) * 2 ^ n ≤ 2 ^ 8 * 2 ^ n := Nat.mul_le_mul_right _ hb
    rw [Nat.add_mul] at hmul
    rw [Nat.pow_add]
    omega
  have hshift : (b.toUInt32 <<< UInt32.ofNat n).toNat = b.toNat <<< n := by
    have hsmall : n < 2 ^ 32 := by omega
    rw [UInt32.toNat_shiftLeft, UInt8.toNat_toUInt32, UInt32.toNat_ofNat',
      Nat.mod_eq_of_lt hsmall, Nat.mod_eq_of_lt (show n < 32 by omega), Nat.shiftLeft_eq,
      Nat.mod_eq_of_lt (by omega)]
  have hsum : (x + (b.toUInt32 <<< UInt32.ofNat n)).toNat = b.toNat <<< n + x.toNat := by
    rw [UInt32.toNat_add, hshift, Nat.add_comm, Nat.shiftLeft_eq, Nat.mod_eq_of_lt (by omega)]
  constructor
  · apply UInt32.toNat_inj.mp
    rw [UInt32.toNat_or, hsum, hshift, Nat.or_comm, Nat.shiftLeft_add_eq_or_of_lt hx]
  · rw [hsum, Nat.shiftLeft_eq]
    exact hfits

theorem fromLittleEndian_eq_add (b0 b1 b2 b3 : UInt8) :
    fromLittleEndian b0 b1 b2 b3 =
      b0.toUInt32 + (b1.toUInt32 <<< 8) + (b2.toUInt32 <<< 16) + (b3.toUInt32 <<< 24) := by
  have h0 : b0.toUInt32.toNat < 2 ^ 8 := b0.toNat_lt
  obtain ⟨h1, hlt1⟩ := or_shiftLeft (n := 8) b1 (by decide) h0
  obtain ⟨h2, hlt2⟩ := or_shiftLeft (n := 16) b2 (by decide) hlt1
  obtain ⟨h3, _⟩ := or_shiftLeft (n := 24) b3 (by decide) hlt2
  calc
    fromLittleEndian b0 b1 b2 b3
      = (b0.toUInt32 + (b1.toUInt32 <<< 8) ||| (b2.toUInt32 <<< 16)) ||| (b3.toUInt32 <<< 24) :=
        congrArg (fun x => (x ||| (b2.toUInt32 <<< 16)) ||| (b3.toUInt32 <<< 24)) h1
    _ = (b0.toUInt32 + (b1.toUInt32 <<< 8) + (b2.toUInt32 <<< 16)) ||| (b3.toUInt32 <<< 24) :=
        congrArg (fun x => x ||| (b3.toUInt32 <<< 24)) h2
    _ = _ := h3

theorem mix_toInt32 (h k : UInt32) : Java.mix h.toInt32 k.toInt32 = (murmurChunk h k).toInt32 := by
  rfl

end Words

section Indices

variable {n : Nat} (hn : n < 2 ^ 31)

theorem index_toInt (hn : n < 2 ^ 31) : (Int32.ofNat n).toInt = n := Int32.toInt_ofNat_of_lt hn

theorem index_div (hn : n < 2 ^ 31) : (Int32.ofNat n / 4).toInt = (n / 4 : Nat) := by
  rw [Int32.toInt_div_of_ne_right _ _ (by decide), index_toInt hn]
  exact Int.ofNat_tdiv n 4

theorem index_mod (hn : n < 2 ^ 31) : (Int32.ofNat n % 4).toInt = (n % 4 : Nat) := by
  rw [Int32.toInt_mod, index_toInt hn]
  exact Int.ofNat_tmod n 4

theorem and_not_three (x : BitVec 32) : x &&& ~~~3#32 = (x >>> 2) <<< 2 := by
  have hmask : ∀ i, i < 32 → (~~~3#32).getLsbD i = decide (2 ≤ i) := by decide
  apply BitVec.eq_of_getLsbD_eq
  intro i hi
  rw [BitVec.getLsbD_and, hmask i hi, BitVec.getLsbD_shiftLeft, BitVec.getLsbD_ushiftRight]
  by_cases hlow : i < 2
  · simp [hlow]
  · simp [hi, hlow, show 2 ≤ i by omega]

theorem index_and (hn : n < 2 ^ 31) : Int32.ofNat n &&& ~~~3 = Int32.ofNat (n / 4 * 4) := by
  have hbits : BitVec.ofNat 32 n &&& ~~~3#32 = BitVec.ofNat 32 (n / 4 * 4) := by
    apply BitVec.eq_of_toNat_eq
    rw [and_not_three, BitVec.toNat_shiftLeft, BitVec.toNat_ushiftRight, BitVec.toNat_ofNat,
      BitVec.toNat_ofNat, Nat.mod_eq_of_lt (show n < 2 ^ 32 by omega), Nat.shiftRight_eq_div_pow,
      Nat.shiftLeft_eq]
  exact Int32.toBitVec_inj.mp hbits

theorem index_add (a b : Nat) : Int32.ofNat a + Int32.ofNat b = Int32.ofNat (a + b) :=
  (Int32.ofNat_add a b).symm

theorem masked_at {key : Bytes} {k : Nat} (hk : k < 2 ^ 31) :
    Java.masked (javaBytes key) (Int32.ofNat k) = (key.getD k 0).toUInt32.toInt32 := by
  rw [Java.masked, index_toInt hk, Int.toNat_natCast, javaBytes]
  have hbyte : (key.map UInt8.toInt8).getD k 0 = (key.getD k 0).toInt8 :=
    List.getD_map key 0 UInt8.toInt8
  rw [hbyte, toInt32_masked]

end Indices

section Runs

variable {key pre rest : Bytes} {i : Nat} {h : UInt32}

theorem masked_rest (hkey : key = pre ++ rest) (hlength : key.length < 2 ^ 31) {j : Nat}
    (hj : j < rest.length) :
    Java.masked (javaBytes key) (Int32.ofNat (pre.length + j)) =
      (rest.getD j 0).toUInt32.toInt32 := by
  have hbound : pre.length + j < 2 ^ 31 := by
    rw [hkey, List.length_append] at hlength
    omega
  rw [masked_at hbound, hkey, List.getD_append_right _ _ _ _ (Nat.le_add_right _ _),
    Nat.add_sub_cancel_left]

theorem word_at {b0 b1 b2 b3 : UInt8} (hkey : key = pre ++ b0 :: b1 :: b2 :: b3 :: rest)
    (hlength : key.length < 2 ^ 31) :
    Java.word (javaBytes key) (Int32.ofNat pre.length) =
      (fromLittleEndian b0 b1 b2 b3).toInt32 := by
  have hbyte {j : Nat} (hj : j < 4) := masked_rest hkey hlength (j := j) (by simp; omega)
  have h0 := hbyte (show 0 < 4 by decide)
  have h1 := hbyte (show 1 < 4 by decide)
  have h2 := hbyte (show 2 < 4 by decide)
  have h3 := hbyte (show 3 < 4 by decide)
  rw [← index_add] at h0 h1 h2 h3
  rw [fromLittleEndian_eq_add]
  show Java.masked (javaBytes key) (Int32.ofNat pre.length + Int32.ofNat 0) +
      (Java.masked (javaBytes key) (Int32.ofNat pre.length + Int32.ofNat 1) <<< 8) +
      (Java.masked (javaBytes key) (Int32.ofNat pre.length + Int32.ofNat 2) <<< 16) +
      (Java.masked (javaBytes key) (Int32.ofNat pre.length + Int32.ofNat 3) <<< 24) = _
  rw [h0, h1, h2, h3]
  rfl

/-- The last of the key, after its words. -/
theorem tail_at (hkey : key = pre ++ rest) (hlength : key.length < 2 ^ 31)
    (hpre : pre.length = i * 4) (hrest : rest.length < 4) :
    Java.tail (javaBytes key) (Int32.ofNat key.length) h.toInt32 =
      (murmurBytes h rest).toInt32 := by
  have hlen : key.length = pre.length + rest.length := by rw [hkey, List.length_append]
  have hlast : Int32.ofNat key.length &&& ~~~3 = Int32.ofNat pre.length := by
    rw [index_and hlength]
    congr 1
    omega
  have hmod : (Int32.ofNat key.length % 4).toInt = (rest.length : Nat) := by
    rw [index_mod hlength]
    omega
  have hbyte {j : Nat} (hj : j < rest.length) := masked_rest hkey hlength hj
  simp only [Java.tail, hlast, hmod]
  match rest, hrest with
  | [], _ => rfl
  | [b0], _ =>
      have h0 := hbyte (show 0 < 1 by decide)
      show (h.toInt32 ^^^ Java.masked _ (Int32.ofNat (pre.length + 0))) * Java.m = _
      rw [h0]
      rfl
  | [b0, b1], _ =>
      have h0 := hbyte (show 0 < 2 by decide)
      have h1 := hbyte (show 1 < 2 by decide)
      rw [← index_add] at h1
      show (h.toInt32 ^^^ (Java.masked _ (Int32.ofNat pre.length + Int32.ofNat 1) <<< 8) ^^^
        Java.masked _ (Int32.ofNat (pre.length + 0))) * Java.m = _
      rw [h0, h1]
      rfl
  | [b0, b1, b2], _ =>
      have h0 := hbyte (show 0 < 3 by decide)
      have h1 := hbyte (show 1 < 3 by decide)
      have h2 := hbyte (show 2 < 3 by decide)
      rw [← index_add] at h1 h2
      show (h.toInt32 ^^^ (Java.masked _ (Int32.ofNat pre.length + Int32.ofNat 2) <<< 16) ^^^
        (Java.masked _ (Int32.ofNat pre.length + Int32.ofNat 1) <<< 8) ^^^
        Java.masked _ (Int32.ofNat (pre.length + 0))) * Java.m = _
      rw [h0, h1, h2]
      rfl

/-- From a word on, the loop and the `switch` are what the chunks and the remainder do. -/
theorem words_at (hkey : key = pre ++ rest) (hlength : key.length < 2 ^ 31)
    (hpre : pre.length = i * 4) :
    Java.tail (javaBytes key) (Int32.ofNat key.length)
        (((List.range' i (rest.length / 4)).map Int32.ofNat).foldl
          (fun h i => Java.mix h (Java.word (javaBytes key) (i * 4))) h.toInt32) =
      (murmurBytes h rest).toInt32 := by
  induction h, rest using murmurBytes.induct generalizing pre i with
  | case1 h b0 b1 b2 b3 rest ih =>
      have hrounds : (b0 :: b1 :: b2 :: b3 :: rest).length / 4 = rest.length / 4 + 1 := by
        simp only [List.length_cons]
        omega
      have hword : Java.word (javaBytes key) (Int32.ofNat i * 4) =
          (fromLittleEndian b0 b1 b2 b3).toInt32 := by
        rw [← word_at hkey hlength, hpre, Int32.ofNat_mul]
        rfl
      rw [hrounds, List.range'_succ, List.map_cons, List.foldl_cons, hword, mix_toInt32]
      have hnext : key = (pre ++ [b0, b1, b2, b3]) ++ rest := by
        rw [hkey, List.append_assoc]
        rfl
      refine ih hnext ?_
      rw [List.length_append, hpre, Nat.add_mul]
      rfl
  | case2 h b0 b1 b2 =>
      rw [Nat.div_eq_of_lt (show [b0, b1, b2].length < 4 by simp)]
      exact tail_at hkey hlength hpre (by simp)
  | case3 h b0 b1 =>
      rw [Nat.div_eq_of_lt (show [b0, b1].length < 4 by simp)]
      exact tail_at hkey hlength hpre (by simp)
  | case4 h b0 =>
      rw [Nat.div_eq_of_lt (show [b0].length < 4 by simp)]
      exact tail_at hkey hlength hpre (by simp)
  | case5 h => exact tail_at hkey hlength hpre (by simp)

end Runs

section Partitions

variable {key : Bytes} {count : Nat}

theorem murmur2_java (hlength : key.length < 2 ^ 31) :
    murmur2 key = Java.murmur2 (javaBytes key) := by
  have hwords : Java.words (javaBytes key) (Int32.ofNat key.length / 4) =
      fun h => ((List.range' 0 (key.length / 4)).map Int32.ofNat).foldl
        (fun h i => Java.mix h (Java.word (javaBytes key) (i * 4))) h := by
    funext h
    rw [Java.words, index_div hlength, Int.toNat_natCast, List.range_eq_range']
  have hrun := words_at (i := 0) (h := murmurSeed ^^^ UInt32.ofNat key.length)
    (List.nil_append key).symm hlength rfl
  have hjava : (javaBytes key).length = key.length := List.length_map _
  simp only [Java.murmur2, hjava, hwords]
  have hseed : (0x9747b28c : Int32) ^^^ Int32.ofNat key.length =
      (murmurSeed ^^^ UInt32.ofNat key.length).toInt32 := rfl
  rw [hseed, hrun]
  rfl

theorem nonneg_of_masked (x : Int32) : 0 ≤ (x &&& 0x7fffffff).toInt := by
  have hmsb : (x.toBitVec &&& 0x7fffffff#32).msb = false := by
    rw [BitVec.msb_and, show (0x7fffffff#32).msb = false by decide, Bool.and_false]
  have hint := BitVec.toInt_eq_toNat_of_msb hmsb
  show 0 ≤ (x.toBitVec &&& 0x7fffffff#32).toInt
  omega

/-- What a positive number leaves when it is divided by a count. -/
theorem partitionForKey_toInt (hhigh : count ≤ i32Max) :
    (partitionForKey key (saturatingI32 count)).toInt =
      (murmur2 key &&& 0x7fffffff).toInt % count := by
  rw [partitionForKey, Int32.toInt_mod, toInt_saturatingI32, Nat.min_eq_left hhigh]
  exact Int.tmod_eq_emod_of_nonneg (nonneg_of_masked _)

/-- A record with a key goes where the Java client sends it. -/
theorem enqueueKeyed_partition (config : ProducerConfig) (topic : String) (record : Record)
    (hkey : record.key = some key) (hlength : key.length < 2 ^ 31) :
    (Producer.enqueueKeyed config topic record = do
      let count ← Producer.partitionCount topic
      Producer.enqueue config (topic, partitionForKey key (saturatingI32 count)) record) ∧
    ∀ count : Nat, 1 ≤ count → count ≤ i32Max →
      0 ≤ (partitionForKey key (saturatingI32 count)).toInt ∧
      (partitionForKey key (saturatingI32 count)).toInt < count ∧
      (partitionForKey key (saturatingI32 count)).toInt =
        (Java.murmur2 (javaBytes key) &&& 0x7fffffff).toInt % count := by
  constructor
  · simp only [Producer.enqueueKeyed, hkey]
    rfl
  · intro count hlow hhigh
    rw [partitionForKey_toInt hhigh, murmur2_java hlength]
    exact ⟨Int.emod_nonneg _ (by omega), Int.emod_lt_of_pos _ (by omega), rfl⟩

theorem enqueueKeyed_partition_high :
    (partitionForKey [0x80, 0xff, 0x7f, 0xfe, 0x90] (saturatingI32 7)).toInt = 5 :=
  ((enqueueKeyed_partition ProducerConfig.default "t"
    { Record.minimal with key := some [0x80, 0xff, 0x7f, 0xfe, 0x90] } rfl (by decide)).2 7
    (by decide) (by decide)).2.2.trans (by decide)

end Partitions

end Odradek.Client
