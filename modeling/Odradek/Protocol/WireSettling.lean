import Odradek.Protocol.KnownTags
import Odradek.Protocol.VarintReading

/-!
What the primitive decoders accept can be written again, in no more bytes than
it came in: a varint may come with more groups than it needs, a Boolean as any
byte, and everything else is written as it was read.
-/

namespace Odradek.Protocol

open Library Library.Decoder

/-- What `d` accepts `put` writes, in some bytes and no more than were taken. -/
def Rewrites {α : Type} (d : Decode α) (put : α → Except EncodeError Bytes) : Prop :=
  ∀ s a t, d s = .ok a t → ∃ used bytes, s.bytes = used ++ t.bytes ∧ put a = .ok bytes ∧
    bytes ≠ [] ∧ bytes.length ≤ used.length

section Fixed

variable {s t : Reader Ledger}

theorem getFixed_raw {width value : Nat} (h : getFixed width s = .ok value t) :
    rawFixed width s = .ok value t := by
  obtain ⟨bytes, u, htake, hpure⟩ := bind_eq_ok.mp h
  obtain ⟨_, v, hensure, hcopy⟩ := bind_eq_ok.mp htake
  obtain ⟨left, w, hleft, hfail⟩ := bind_eq_ok.mp hensure
  cases hleft
  obtain ⟨_, rfl⟩ := failIf_ok hfail
  exact bind_eq_ok.mpr ⟨bytes, u, hcopy, hpure⟩

/-- A checked read returns what the unchecked one does. -/
theorem fixed_raw {α : Type} {width : Nat} {f : Nat → Decode α} {a : α}
    (h : (getFixed width >>= f) s = .ok a t) : (rawFixed width >>= f) s = .ok a t := by
  obtain ⟨raw, u, hraw, h⟩ := bind_eq_ok.mp h
  exact bind_eq_ok.mpr ⟨raw, u, getFixed_raw hraw, h⟩

theorem putI8_ne_nil (value : Int8) : putI8 value ≠ [] :=
  List.ne_nil_of_length_pos (by rw [putI8, length_toBigEndian]; decide)

theorem putI16_ne_nil (value : Int16) : putI16 value ≠ [] :=
  List.ne_nil_of_length_pos (by rw [putI16, length_toBigEndian]; decide)

theorem putI32_ne_nil (value : Int32) : putI32 value ≠ [] :=
  List.ne_nil_of_length_pos (by rw [putI32, length_toBigEndian]; decide)

theorem Rewrites.of_exact {α : Type} {d : Decode α} {put : α → Bytes} (hput : ∀ a, put a ≠ [])
    (h : ∀ s a t, d s = .ok a t → s.bytes = put a ++ t.bytes) : Rewrites d fun a => .ok (put a) :=
  fun s a t hd => ⟨put a, put a, h s a t hd, rfl, hput a, Nat.le_refl _⟩

theorem getI8_rewrites : Rewrites getI8 fun n => .ok (putI8 n) :=
  .of_exact putI8_ne_nil fun _ _ _ h => rawI8_ok (fixed_raw h)

theorem getI16_rewrites : Rewrites getI16 fun n => .ok (putI16 n) :=
  .of_exact putI16_ne_nil fun _ _ _ h => rawI16_ok (fixed_raw h)

theorem getI32_rewrites : Rewrites getI32 fun n => .ok (putI32 n) :=
  .of_exact putI32_ne_nil fun _ _ _ h => rawI32_ok (fixed_raw h)

theorem getI64_rewrites : Rewrites getI64 fun n => .ok (putI64 n) :=
  .of_exact (fun n => List.ne_nil_of_length_pos (by rw [putI64, length_toBigEndian]; decide))
    fun _ _ _ h => rawI64_ok (fixed_raw h)

theorem getU32_rewrites : Rewrites getU32 fun n => .ok (putU32 n) :=
  .of_exact (fun n => List.ne_nil_of_length_pos (by rw [putU32, length_toBigEndian]; decide))
    fun _ _ _ h => rawU32_ok (fixed_raw h)

theorem getU16_rewrites : Rewrites getU16 fun n => .ok (putU16 n) := by
  refine .of_exact (fun n => List.ne_nil_of_length_pos (by rw [putU16, length_toBigEndian]; decide))
    fun s value t h => ?_
  obtain ⟨raw, u, hraw, h⟩ := bind_eq_ok.mp (fixed_raw h)
  cases h
  obtain ⟨hbytes, hlt⟩ := rawFixed_split hraw
  rw [hbytes, putU16, UInt16.toNat_ofNat_of_lt' hlt]

theorem getF64_rewrites : Rewrites getF64 fun bits => .ok (putF64 bits) := by
  refine .of_exact (fun n => List.ne_nil_of_length_pos (by rw [putF64, length_toBigEndian]; decide))
    fun s value t h => ?_
  obtain ⟨raw, u, hraw, h⟩ := bind_eq_ok.mp (fixed_raw h)
  cases h
  obtain ⟨hbytes, hlt⟩ := rawFixed_split hraw
  rw [hbytes, putF64, UInt64.toNat_ofNat_of_lt' hlt]

/-- A Boolean comes in any non-zero byte, and goes out in one. -/
theorem getBool_rewrites : Rewrites getBool fun b => .ok (putBool b) := by
  intro s b t h
  obtain ⟨byte, u, hbyte, h⟩ := bind_eq_ok.mp h
  cases h
  obtain ⟨bytes, hbytes, hlen, _⟩ := rawFixed_ok (getFixed_raw hbyte)
  refine ⟨bytes, _, hbytes, rfl, ?_, ?_⟩
  · exact List.ne_nil_of_length_pos (by rw [putBool, length_toBigEndian]; decide)
  · rw [putBool, length_toBigEndian, hlen]

theorem getUuid_ok {bytes : Bytes} (h : getUuid s = .ok bytes t) :
    s.bytes = bytes ++ t.bytes ∧ bytes.length = uuidLen :=
  takeBytes_ok h

end Fixed

section Varint

/-- Seven bits a byte: how many bytes a number takes. -/
theorem length_putVarintRounds_le (rounds : Nat) {n value : Nat} (h : value < 128 ^ (n + 1)) :
    (putVarintRounds rounds value).length ≤ n + 1 := by
  induction rounds generalizing n value with
  | zero => exact Nat.zero_le _
  | succ rounds ih =>
      rw [putVarintRounds, Nat.shiftRight_eq_div_pow]
      by_cases hmore : value / 2 ^ 7 = 0
      · rw [if_neg (not_not.mpr hmore)]
        exact Nat.le_add_left 1 n
      · rw [if_pos hmore]
        cases n with
        | zero => exact absurd (Nat.div_eq_of_lt (by omega)) hmore
        | succ n =>
            have hless : value / 2 ^ 7 < 128 ^ (n + 1) :=
              Nat.div_lt_of_lt_mul (by rw [Nat.pow_succ'] at h; exact h)
            exact Nat.succ_le_succ (ih hless)

theorem base128_lt (bytes : Bytes) : base128 bytes < 128 ^ bytes.length := by
  induction bytes with
  | nil => exact Nat.one_pos
  | cons b rest ih =>
      rw [base128, List.length_cons, Nat.pow_succ']
      have hlow : b.toNat % 128 < 128 := Nat.mod_lt _ (by decide)
      omega

/-- The writer spells no value longer than it was read, nor a lesser one. -/
theorem Spells.length_le {used : Bytes} {value n : Nat} (h : Spells used value) (hn : n ≤ value) :
    (putUnsignedVarint n).length ≤ used.length := by
  have hlt := base128_lt used
  have hpos := h.length_pos
  rw [h.sum] at hlt
  obtain ⟨len, hlen⟩ := Nat.exists_eq_add_one.mpr hpos
  rw [hlen] at hlt ⊢
  exact length_putVarintRounds_le 10 (Nat.lt_of_le_of_lt hn hlt)

theorem getUnsignedVarint_rewrites :
    Rewrites getUnsignedVarint fun n => .ok (putUnsignedVarint n) := by
  intro s n t h
  obtain ⟨used, hused, _, hspells⟩ := getUnsignedVarint_ok h
  exact ⟨used, _, hused, rfl, putUnsignedVarint_ne_nil n, hspells.length_le (Nat.le_refl n)⟩

/-- Reading keeps tags to 32 bits. -/
theorem getTaggedField_fits {previous : Option Nat} {field : RawTaggedField} {s t : Reader Ledger}
    (h : getTaggedField previous s = .ok field t) : field.tag ≤ u32Max := by
  obtain ⟨tag, u, htag, h⟩ := bind_eq_ok.mp h
  obtain ⟨_, v, hmax, h⟩ := bind_eq_ok.mp h
  obtain ⟨_, w, horder, h⟩ := bind_eq_ok.mp h
  obtain ⟨raw, x, hraw, h⟩ := bind_eq_ok.mp h
  obtain ⟨len, y, hlen, h⟩ := bind_eq_ok.mp h
  obtain ⟨data, z, hdata, h⟩ := bind_eq_ok.mp h
  cases h
  exact Nat.le_of_not_lt (failIf_ok hmax).1

theorem getTaggedFieldsLoop_fits (count : Nat) {previous : Option Nat}
    {read vec : Vec RawTaggedField} {s t : Reader Ledger}
    (h : getTaggedFieldsLoop count previous read s = .ok vec t)
    (hread : ∀ field ∈ read.items, field.tag ≤ u32Max) :
    ∀ field ∈ vec.items, field.tag ≤ u32Max := by
  induction count generalizing previous read s with
  | zero =>
      cases h
      exact hread
  | succ count ih =>
      obtain ⟨field, u, hfield, h⟩ := bind_eq_ok.mp h
      obtain ⟨pushed, v, hpush, h⟩ := bind_eq_ok.mp h
      refine ih h fun other hmem => ?_
      rw [(push_items hpush).1] at hmem
      obtain hmem | hmem := List.mem_append.mp hmem
      · exact hread other hmem
      · rw [List.mem_singleton.mp hmem]
        exact getTaggedField_fits hfield

theorem getTaggedFields_fits {fields : List RawTaggedField} {s t : Reader Ledger}
    (h : getTaggedFields s = .ok fields t) : ∀ field ∈ fields, field.tag ≤ u32Max := by
  obtain ⟨count, u, hcount, h⟩ := bind_eq_ok.mp h
  obtain ⟨vec, v, hloop, h⟩ := bind_eq_ok.mp h
  cases h
  exact getTaggedFieldsLoop_fits count hloop fun _ hmem => absurd hmem List.not_mem_nil

end Varint

section Lengths

variable {α : Type} {s t : Reader Ledger}

theorem compactLen_ok {raw n : Nat} (h : compactLen raw s = .ok n t) : t = s ∧ n = raw := by
  unfold compactLen at h
  split at h <;> cases h
  exact ⟨rfl, rfl⟩

theorem readUtf8_ok {len : Nat} {value : String} (h : readUtf8 len s = .ok value t) :
    s.bytes = utf8 value ++ t.bytes ∧ (utf8 value).length = len := by
  obtain ⟨bytes, u, htake, h⟩ := bind_eq_ok.mp h
  obtain ⟨rfl, rfl⟩ := parseUtf8_ok h
  exact takeBytes_ok htake

/-- A prefix of its own kind and the bytes it counts. -/
theorem Rewrites.prefixed {used front bytes data : Bytes} (hfront : front ≠ [])
    (hle : front.length ≤ used.length) (hbytes : bytes = front ++ data) :
    bytes ≠ [] ∧ bytes.length ≤ (used ++ data).length := by
  subst hbytes
  refine ⟨fun h => hfront (List.append_eq_nil_iff.mp h).1, ?_⟩
  simp only [List.length_append]
  omega

theorem int16_ofNat_toNat {raw : Int16} (h : 0 ≤ raw.toInt) :
    Int16.ofNat raw.toInt.toNat = raw ∧ raw.toInt.toNat ≤ i16Max := by
  have hle : raw.toInt ≤ i16Max := raw.toInt_le
  refine ⟨Int16.toInt_inj.mp ?_, by omega⟩
  rw [Int16.toInt_ofNat_of_lt (by unfold i16Max at hle; omega)]
  omega

theorem int32_ofNat_toNat {raw : Int32} (h : 0 ≤ raw.toInt) :
    Int32.ofNat raw.toInt.toNat = raw ∧ raw.toInt.toNat ≤ i32Max := by
  have hle : raw.toInt ≤ i32Max := raw.toInt_le
  refine ⟨Int32.toInt_inj.mp ?_, by omega⟩
  rw [Int32.toInt_ofNat_of_lt (by unfold i32Max at hle; omega)]
  omega

theorem getNullableString_rewrites : Rewrites getNullableString putNullableString := by
  intro s value t h
  obtain ⟨raw, u, hraw, h⟩ := bind_eq_ok.mp h
  obtain ⟨used, front, hused, hfront, hne, hle⟩ := getI16_rewrites _ _ _ hraw
  cases hfront
  by_cases hnull : raw = -1
  · rw [if_pos hnull] at h
    cases h
    exact ⟨used, _, hused, by rw [putNullableString, ← hnull], hne, hle⟩
  · rw [if_neg hnull] at h
    obtain ⟨len, v, hlen, h⟩ := bind_eq_ok.mp h
    obtain ⟨rfl, hnonneg, rfl⟩ := lenFrom_ok hlen
    obtain ⟨value', w, hvalue, h⟩ := bind_eq_ok.mp h
    cases h
    obtain ⟨hsplit, hcount⟩ := readUtf8_ok hvalue
    obtain ⟨hof, hmax⟩ := int16_ofNat_toNat hnonneg
    refine ⟨used ++ utf8 value', _, by rw [hused, hsplit, List.append_assoc], ?_,
      Rewrites.prefixed hne hle rfl⟩
    rw [putNullableString, putString, if_neg (Nat.not_lt.mpr (hcount ▸ hmax)), hcount, hof]

theorem getNullableBytes_rewrites : Rewrites getNullableBytes putNullableBytes := by
  intro s value t h
  obtain ⟨raw, u, hraw, h⟩ := bind_eq_ok.mp h
  obtain ⟨used, front, hused, hfront, hne, hle⟩ := getI32_rewrites _ _ _ hraw
  cases hfront
  by_cases hnull : raw = -1
  · rw [if_pos hnull] at h
    cases h
    exact ⟨used, _, hused, by rw [putNullableBytes, ← hnull], hne, hle⟩
  · rw [if_neg hnull] at h
    obtain ⟨len, v, hlen, h⟩ := bind_eq_ok.mp h
    obtain ⟨rfl, hnonneg, rfl⟩ := lenFrom_ok hlen
    obtain ⟨data, w, hdata, h⟩ := bind_eq_ok.mp h
    cases h
    obtain ⟨hsplit, hcount⟩ := takeBytes_ok hdata
    obtain ⟨hof, hmax⟩ := int32_ofNat_toNat hnonneg
    refine ⟨used ++ data, _, by rw [hused, hsplit, List.append_assoc], ?_,
      Rewrites.prefixed hne hle rfl⟩
    rw [putNullableBytes, putBytes, if_neg (Nat.not_lt.mpr (hcount ▸ hmax)), hcount, hof]

theorem getCompactNullableString_rewrites :
    Rewrites getCompactNullableString fun s => .ok (putCompactNullableString s) := by
  intro s value t h
  obtain ⟨n, u, hn, h⟩ := bind_eq_ok.mp h
  obtain ⟨used, front, hused, hfront, hne, hle⟩ := getUnsignedVarint_rewrites _ _ _ hn
  cases hfront
  by_cases hnull : n = 0
  · rw [if_pos hnull] at h
    cases h
    rw [hnull] at hne hle
    exact ⟨used, _, hused, rfl, hne, hle⟩
  · rw [if_neg hnull] at h
    obtain ⟨len, v, hlen, h⟩ := bind_eq_ok.mp h
    obtain ⟨rfl, rfl⟩ := compactLen_ok hlen
    obtain ⟨value', w, hvalue, h⟩ := bind_eq_ok.mp h
    cases h
    obtain ⟨hsplit, hcount⟩ := readUtf8_ok hvalue
    have hback : (utf8 value').length + 1 = n := by omega
    refine ⟨used ++ utf8 value', _, by rw [hused, hsplit, List.append_assoc], rfl,
      Rewrites.prefixed hne hle ?_⟩
    rw [putCompactNullableString, putCompactString, hback]

theorem getCompactNullableBytes_rewrites :
    Rewrites getCompactNullableBytes fun b => .ok (putCompactNullableBytes b) := by
  intro s value t h
  obtain ⟨n, u, hn, h⟩ := bind_eq_ok.mp h
  obtain ⟨used, front, hused, hfront, hne, hle⟩ := getUnsignedVarint_rewrites _ _ _ hn
  cases hfront
  by_cases hnull : n = 0
  · rw [if_pos hnull] at h
    cases h
    rw [hnull] at hne hle
    exact ⟨used, _, hused, rfl, hne, hle⟩
  · rw [if_neg hnull] at h
    obtain ⟨len, v, hlen, h⟩ := bind_eq_ok.mp h
    obtain ⟨rfl, rfl⟩ := compactLen_ok hlen
    obtain ⟨data, w, hdata, h⟩ := bind_eq_ok.mp h
    cases h
    obtain ⟨hsplit, hcount⟩ := takeBytes_ok hdata
    have hback : data.length + 1 = n := by omega
    refine ⟨used ++ data, _, by rw [hused, hsplit, List.append_assoc], rfl,
      Rewrites.prefixed hne hle ?_⟩
    rw [putCompactNullableBytes, putCompactBytes, hback]

/-- Where null is an error, what is accepted is not null. -/
theorem Rewrites.notNull {d : Decode (Option α)} {put : Option α → Except EncodeError Bytes}
    (h : Rewrites d put) : Rewrites (d >>= notNull) fun a => put (some a) := by
  intro s a t hd
  obtain ⟨value, u, hvalue, hd⟩ := bind_eq_ok.mp hd
  cases value with
  | none => cases hd
  | some value =>
      cases hd
      exact h s (some a) t hvalue

theorem getString_rewrites : Rewrites getString putString := getNullableString_rewrites.notNull

/-- The length of a compact string may be spelled in any way. -/
theorem getCompactString_spelled {used : Bytes} {value : String}
    (h : Spells used ((utf8 value).length + 1)) (hlen : (utf8 value).length < i64Max) :
    Reads getCompactString (used ++ utf8 value) value := by
  unfold i64Max at hlen
  have hread : Reads getCompactNullableString (used ++ utf8 value) (some value) := by
    refine (h.reads (by omega)).bind_free ?_
    rw [if_neg (by omega), Nat.add_sub_cancel, compactLen_pred (by omega)]
    exact .bind_look .pure ((readUtf8_reads value).bind_pure some)
  exact notNull_reads hread

theorem getCompactString_rewrites :
    Rewrites getCompactString fun s => .ok (putCompactString s) :=
  getCompactNullableString_rewrites.notNull

theorem getArrayLen_rewrites : Rewrites getArrayLen putArrayLen := by
  intro s value t h
  obtain ⟨raw, u, hraw, h⟩ := bind_eq_ok.mp h
  obtain ⟨used, front, hused, hfront, hne, hle⟩ := getI32_rewrites _ _ _ hraw
  cases hfront
  by_cases hnull : raw = -1
  · rw [if_pos hnull] at h
    cases h
    exact ⟨used, _, hused, by rw [putArrayLen, ← hnull], hne, hle⟩
  · rw [if_neg hnull] at h
    obtain ⟨len, v, hlen, h⟩ := bind_eq_ok.mp h
    obtain ⟨rfl, hnonneg, rfl⟩ := lenFrom_ok hlen
    cases h
    obtain ⟨hof, hmax⟩ := int32_ofNat_toNat hnonneg
    refine ⟨used, _, hused, ?_, hne, hle⟩
    rw [putArrayLen, if_neg (Nat.not_lt.mpr hmax), hof]

theorem getCompactArrayLen_rewrites :
    Rewrites getCompactArrayLen fun len => .ok (putCompactArrayLen len) := by
  intro s value t h
  obtain ⟨n, u, hn, h⟩ := bind_eq_ok.mp h
  obtain ⟨used, front, hused, hfront, hne, hle⟩ := getUnsignedVarint_rewrites _ _ _ hn
  cases hfront
  by_cases hnull : n = 0
  · rw [if_pos hnull] at h
    cases h
    rw [hnull] at hne hle
    exact ⟨used, _, hused, rfl, hne, hle⟩
  · rw [if_neg hnull] at h
    obtain ⟨len, v, hlen, h⟩ := bind_eq_ok.mp h
    obtain ⟨rfl, rfl⟩ := compactLen_ok hlen
    cases h
    refine ⟨used, _, hused, rfl, ?_, ?_⟩ <;>
      rw [putCompactArrayLen, Nat.sub_add_cancel (Nat.one_le_iff_ne_zero.mpr hnull)]
    · exact hne
    · exact hle

/-- An element past the progress check has taken bytes. -/
theorem progressing_consumes (item : Decode α) : Consumes (progressing item) := by
  intro s a t h
  obtain ⟨before, u, hbefore, h⟩ := bind_eq_ok.mp h
  cases hbefore
  obtain ⟨value, v, hvalue, h⟩ := bind_eq_ok.mp h
  obtain ⟨after, w, hafter, h⟩ := bind_eq_ok.mp h
  cases hafter
  obtain ⟨_, x, hprogress, h⟩ := bind_eq_ok.mp h
  cases h
  obtain ⟨hlt, rfl⟩ := failIf_ok hprogress
  exact Nat.not_le.mp hlt

end Lengths

end Odradek.Protocol
