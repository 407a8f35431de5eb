import Mathlib.Data.Fintype.EquivFin
import Odradek.Protocol.RecordSets

/-!
A record set that decodes is encoded again. The decoder takes any spelling of
a varint and the encoder writes the shortest, so the bytes come back exactly
when every varint inside the plain batches was spelled in the fewest bytes.
`varintSpellings` finds them in the input; it skips everything else.
-/

namespace Odradek.Protocol

open Library Library.Decoder

/-- A walk over bytes that keeps the varint spellings it passes. -/
abbrev Scan (α : Type) := Decoder Unit (List Bytes) α

/-- More than one byte, the last of which adds nothing. -/
def Overlong (spelling : Bytes) : Prop := 1 < spelling.length ∧ spelling.getLast? = some 0

instance (spelling : Bytes) : Decidable (Overlong spelling) := by
  unfold Overlong
  infer_instance

namespace Scan

def skip (n : Nat) : Scan Unit := do
  let _ ← split () n
  pure ()

def field (width : Nat) : Scan Nat := do
  let bytes ← split () width
  pure (ofBigEndian bytes)

/-- The varint in front, and the bytes that spell it. -/
def varint : Scan Int64 := fun s =>
  match getVarint ⟨s.bytes, { budget := .new 0, decoded := 0 }⟩ with
  | .ok value t =>
    .ok value ⟨t.bytes, s.state ++ [s.bytes.take (s.bytes.length - t.bytes.length)]⟩
  | .error _ _ => .error () s

def varintBytes : Scan Unit := do
  let length ← varint
  skip length.toInt.toNat

def times (m : Scan Unit) : Nat → Scan Unit
  | 0 => pure ()
  | n + 1 => do
    m
    times m n

def header : Scan Unit := do
  varintBytes
  varintBytes

def recordBody : Scan Unit := do
  skip 1
  let _ ← varint
  let _ ← varint
  varintBytes
  varintBytes
  let headers ← varint
  times header headers.toInt.toNat

def record : Scan Unit := do
  let _ ← varint
  recordBody

/-- The records behind the fixed fields, when they are plain. -/
def batchBody : Scan Unit := do
  let attributes ← field 2
  skip (4 + 8 + 8 + 8 + 2 + 4)
  let count ← field 4
  if Compression.fromAttributes (Int16.ofBitVec (BitVec.ofNat 16 attributes)) = .none then
    times record count
  else pure ()

def batch : Scan Unit := do
  skip 21
  batchBody

end Scan

/-- How the varints inside one batch are spelled. -/
def varintSpellings (batch : Bytes) : List Bytes :=
  match Scan.batch ⟨batch, []⟩ with
  | .ok _ t => t.state
  | .error _ t => t.state

def wholeBatches : (rounds : Nat) → Bytes → List Bytes
  | 0, _ => []
  | rounds + 1, bytes =>
    if bytes.length < 12 ∨ bytes.length < 12 + batchLength bytes then []
    else
      bytes.take (12 + batchLength bytes).toNat ::
        wholeBatches rounds (bytes.drop (12 + batchLength bytes).toNat)

/-- No varint of a plain batch takes more bytes than it needs. -/
def ShortestSpelled (bytes : Bytes) : Prop :=
  ∀ batch ∈ wholeBatches bytes.length bytes, ∀ spelling ∈ varintSpellings batch, ¬ Overlong spelling

section Spelling

/-- `used` says what `canonical` says, at least as long; the two are the same
bytes when no spelling in it is overlong, and of different lengths when one is. -/
structure Respelled (canonical used : Bytes) (spellings : List Bytes) : Prop where
  length_le : canonical.length ≤ used.length
  shortest : used.length = canonical.length → ∀ spelling ∈ spellings, ¬ Overlong spelling
  same : (∀ spelling ∈ spellings, ¬ Overlong spelling) → canonical = used

theorem Respelled.refl (bytes : Bytes) : Respelled bytes bytes [] :=
  ⟨Nat.le_refl _, fun _ _ h => absurd h List.not_mem_nil, fun _ => rfl⟩

theorem Respelled.append {c₁ u₁ c₂ u₂ : Bytes} {s₁ s₂ : List Bytes} (h₁ : Respelled c₁ u₁ s₁)
    (h₂ : Respelled c₂ u₂ s₂) : Respelled (c₁ ++ c₂) (u₁ ++ u₂) (s₁ ++ s₂) := by
  have hle₁ := h₁.length_le
  have hle₂ := h₂.length_le
  refine ⟨by simp only [List.length_append]; omega, ?_, ?_⟩
  · intro hlen spelling hmem
    simp only [List.length_append] at hlen
    obtain hmem | hmem := List.mem_append.mp hmem
    · exact h₁.shortest (by omega) spelling hmem
    · exact h₂.shortest (by omega) spelling hmem
  · intro hshort
    rw [h₁.same fun sp h => hshort sp (List.mem_append_left _ h),
      h₂.same fun sp h => hshort sp (List.mem_append_right _ h)]

/-- The scan passes `used` and finds these spellings in it. -/
def Scans {α : Type} (m : Scan α) (used : Bytes) (spellings : List Bytes) (a : α) : Prop :=
  ∀ rest log, m ⟨used ++ rest, log⟩ = .ok a ⟨rest, log ++ spellings⟩

variable {α β : Type} {m : Scan α} {f : α → Scan β} {u₁ u₂ : Bytes} {s₁ s₂ : List Bytes} {a : α}
  {b : β}

theorem Scans.pure (a : α) : Scans (pure a) [] [] a := by
  intro rest log
  rw [pure_apply, List.nil_append, List.append_nil]

theorem Scans.bind (hm : Scans m u₁ s₁ a) (hf : Scans (f a) u₂ s₂ b) :
    Scans (m >>= f) (u₁ ++ u₂) (s₁ ++ s₂) b := by
  intro rest log
  rw [List.append_assoc, bind_apply, hm, ← List.append_assoc]
  exact hf rest (log ++ s₁)

theorem Scans.bind_last (hm : Scans m u₁ s₁ a) (hf : Scans (f a) [] [] b) :
    Scans (m >>= f) u₁ s₁ b := by
  have h := hm.bind hf
  rwa [List.append_nil, List.append_nil] at h

theorem Scans.split (bytes : Bytes) : Scans (split () bytes.length) bytes [] bytes := by
  intro rest log
  simp [Decoder.split]

theorem Scans.skip {n : Nat} {bytes : Bytes} (h : bytes.length = n) :
    Scans (Scan.skip n) bytes [] () := by
  subst h
  exact (Scans.split bytes).bind_last (.pure ())

theorem Scans.field {width : Nat} {bytes : Bytes} (h : bytes.length = width) :
    Scans (Scan.field width) bytes [] (ofBigEndian bytes) := by
  subst h
  exact (Scans.split bytes).bind_last (.pure _)

end Spelling

section Varint

theorem zigzagEncode_zigzagDecode (value : UInt64) : zigzagEncode (zigzagDecode value) = value := by
  let f : BitVec 64 → BitVec 64 := fun v => (zigzagEncode (Int64.ofBitVec v)).toBitVec
  have hinj : Function.Injective f := by
    intro v w h
    have hencode : zigzagEncode (Int64.ofBitVec v) = zigzagEncode (Int64.ofBitVec w) :=
      UInt64.toBitVec_inj.mp h
    have hdecode := congrArg zigzagDecode hencode
    rw [zigzagDecode_zigzagEncode, zigzagDecode_zigzagEncode] at hdecode
    exact Int64.ofBitVec_inj.mp hdecode
  have : Finite (BitVec 64) := Finite.of_injective BitVec.toFin fun _ _ h => BitVec.toFin_inj.mp h
  obtain ⟨v, hv⟩ := Finite.surjective_of_injective hinj value.toBitVec
  have hv : zigzagEncode (Int64.ofBitVec v) = value := UInt64.toBitVec_inj.mp hv
  rw [← hv, zigzagDecode_zigzagEncode]

/-- What the loop took, and what the writer makes of the same value. The last
byte tells the two apart: it is zero when there is nothing above it. -/
structure Groups (rounds group : Nat) (used : Bytes) : Prop where
  ne_nil : used ≠ []
  shortest : used.getLast? ≠ some 0 → putVarintRounds rounds group = used
  zero : used.getLast? = some 0 →
    group = 0 ∧ used = [0] ∨ (putVarintRounds rounds group).length < used.length

theorem getByte_cons (byte : UInt8) (rest : Bytes) (ledger : Ledger) :
    getFixed 1 ⟨byte :: rest, ledger⟩ = .ok byte.toNat ⟨rest, ledger⟩ := by
  rw [getFixed, takeBytes]
  simp only [bind_apply, ensure_apply (n := 1) (s := ⟨byte :: rest, ledger⟩) (by simp),
    copyToBytes, Decoder.split]
  simp [pure_apply, ofBigEndian]

theorem getByte_ok {s t : Reader Ledger} {byte : Nat} (h : getFixed 1 s = .ok byte t) :
    ∃ b : UInt8, s.bytes = b :: t.bytes ∧ byte = b.toNat ∧ t.state = s.state := by
  obtain ⟨bytes, ledger⟩ := s
  cases bytes with
  | nil => cases h
  | cons b rest =>
      rw [getByte_cons] at h
      cases h
      exact ⟨b, rfl, rfl, rfl⟩

private theorem byte_bits : ∀ b : Fin 256,
    (b.val &&& 0x80 = 0 ↔ b.val < 128) ∧ b.val &&& 0x7f = b.val % 128 ∧
      (b.val % 128 ||| 0x80) = b.val % 128 + 128 ∧ (b.val &&& 0xfe = 0 → b.val < 2) := by
  decide +kernel

theorem byte_ofNat {b : UInt8} {n : Nat} (h : n = b.toNat) : UInt8.ofNat n = b := by
  rw [h, UInt8.ofNat_toNat]

/-- A last group is spelled in one byte. -/
theorem Groups.last {rounds : Nat} {b : UInt8} (h : b.toNat < 128) :
    Groups (rounds + 1) b.toNat [b] := by
  have hput : putVarintRounds (rounds + 1) b.toNat = [b] := by
    rw [putVarintRounds, Nat.shiftRight_eq_div_pow, byte_and_low,
      if_neg (by rw [Nat.div_eq_of_lt h]; exact fun hne => hne rfl),
      byte_ofNat (Nat.mod_eq_of_lt h)]
  refine ⟨List.cons_ne_nil _ _, fun _ => hput, fun hzero => .inl ?_⟩
  simp only [List.getLast?_singleton, Option.some.injEq] at hzero
  subst hzero
  exact ⟨rfl, rfl⟩

/-- One more group below the others. -/
theorem Groups.more {rounds group : Nat} {b : UInt8} {used : Bytes} (h : Groups rounds group used)
    (hb : 128 ≤ b.toNat) (hrounds : 0 < rounds) :
    Groups (rounds + 1) (b.toNat % 128 + group * 128) (b :: used) := by
  obtain ⟨_, _, hbits, _⟩ := byte_bits ⟨b.toNat, b.toNat_lt⟩
  simp only at hbits
  have hlt := b.toNat_lt
  have hlast : (b :: used).getLast? = used.getLast? := by
    obtain ⟨c, rest, rfl⟩ := List.exists_cons_of_ne_nil h.ne_nil
    rfl
  have hlong : 0 < used.length := List.length_pos_iff.mpr h.ne_nil
  have hdiv : (b.toNat % 128 + group * 128) >>> 7 = group := by
    rw [Nat.shiftRight_eq_div_pow]
    omega
  have hmod : (b.toNat % 128 + group * 128) &&& 0x7f = b.toNat % 128 := by
    rw [byte_and_low]
    omega
  have hput : group ≠ 0 →
      putVarintRounds (rounds + 1) (b.toNat % 128 + group * 128) =
        b :: putVarintRounds rounds group := by
    intro hgroup
    rw [putVarintRounds, hdiv, if_pos hgroup, hmod, byte_ofNat]
    omega
  have hshort : group = 0 →
      (putVarintRounds (rounds + 1) (b.toNat % 128 + group * 128)).length = 1 := by
    rintro rfl
    rw [putVarintRounds, hdiv, if_neg (fun hne => hne rfl)]
    rfl
  refine ⟨List.cons_ne_nil _ _, ?_, ?_⟩
  · rw [hlast]
    intro hne
    have hgroup : group ≠ 0 := by
      rintro rfl
      obtain ⟨n, rfl⟩ := Nat.exists_eq_add_one.mpr hrounds
      have hzero := h.shortest hne
      rw [← hzero] at hne
      exact hne rfl
    rw [hput hgroup, h.shortest hne]
  · rw [hlast]
    intro hzero
    refine .inr ?_
    by_cases hgroup : group = 0
    · rw [hshort hgroup, List.length_cons]
      omega
    · obtain ⟨hgroup', _⟩ | hlt := h.zero hzero
      · exact absurd hgroup' hgroup
      · rw [hput hgroup, List.length_cons, List.length_cons]
        omega

/-- What the varint loop took, and what it would take again. -/
theorem getVarintRounds_ok (rounds shift low : Nat) {s t : Reader Ledger} {value : Nat}
    (hlow : low < 2 ^ shift) (hshift : shift + 7 * rounds = 70)
    (h : getVarintRounds rounds shift low s = .ok value t) :
    ∃ used group, s.bytes = used ++ t.bytes ∧ t.state = s.state ∧
      value = low + group * 2 ^ shift ∧ group < 2 ^ (64 - shift) ∧ Groups rounds group used ∧
      ∀ rest ledger, getVarintRounds rounds shift low ⟨used ++ rest, ledger⟩ =
        .ok value ⟨rest, ledger⟩ := by
  induction rounds generalizing shift low s with
  | zero => cases h
  | succ rounds ih =>
      rw [getVarintRounds] at h
      obtain ⟨byte, u, hbyte, h⟩ := bind_eq_ok.mp h
      obtain ⟨b, hb, rfl, hstate⟩ := getByte_ok hbyte
      have hbits := byte_bits ⟨b.toNat, b.toNat_lt⟩
      obtain ⟨hsmall, hgroup, _, htwo⟩ := hbits
      simp only at hsmall hgroup htwo
      rw [hgroup, or_shifted hlow] at h
      have hrun : ∀ rest ledger, getVarintRounds (rounds + 1) shift low ⟨b :: rest, ledger⟩ =
          (if shift = 63 ∧ b.toNat &&& 0xfe ≠ 0 then fail .varintOverflow
            else if b.toNat &&& 0x80 = 0 then pure (low + b.toNat % 128 * 2 ^ shift)
            else if 63 < shift + 7 then fail .varintOverflow
            else getVarintRounds rounds (shift + 7) (low + b.toNat % 128 * 2 ^ shift))
              ⟨rest, ledger⟩ := by
        intro rest ledger
        rw [getVarintRounds, bind_apply, getByte_cons]
        simp only [hgroup, or_shifted hlow]
      by_cases hover : shift = 63 ∧ b.toNat &&& 0xfe ≠ 0
      · rw [if_pos hover] at h
        cases h
      · simp only [if_neg hover] at h hrun
        by_cases hlast : b.toNat &&& 0x80 = 0
        · simp only [if_pos hlast] at h hrun
          cases h
          have hlt := hsmall.mp hlast
          have hmod := Nat.mod_eq_of_lt hlt
          refine ⟨[b], b.toNat, hb, hstate, by rw [hmod], ?_, .last hlt, hrun⟩
          by_cases hten : shift = 63
          · subst hten
            have hne := not_and_not_right.mp hover rfl
            have := htwo hne
            omega
          · have hpow : 2 ^ 7 ≤ 2 ^ (64 - shift) := Nat.pow_le_pow_right (by omega) (by omega)
            omega
        · simp only [if_neg hlast] at h hrun
          by_cases hend : 63 < shift + 7
          · rw [if_pos hend] at h
            cases h
          · simp only [if_neg hend] at h hrun
            have hge : 128 ≤ b.toNat := Nat.le_of_not_lt fun hlt => hlast (hsmall.mpr hlt)
            have hmul : b.toNat % 128 * 2 ^ shift ≤ 127 * 2 ^ shift :=
              Nat.mul_le_mul_right _ (by omega)
            have hpow : 2 ^ (shift + 7) = 128 * 2 ^ shift := by rw [Nat.pow_add, Nat.mul_comm]
            obtain ⟨used, group, hused, hstate', hvalue, hgroup', hgroups, hagain⟩ :=
              ih (shift + 7) _ (by rw [hpow]; omega) (by omega) h
            refine ⟨b :: used, b.toNat % 128 + group * 128, by rw [hb, hused]; rfl,
              hstate'.trans hstate, ?_, ?_, hgroups.more hge (by omega), ?_⟩
            · rw [hvalue, hpow, Nat.add_mul, Nat.mul_assoc]
              omega
            · have hsplit : 2 ^ (64 - shift) = 128 * 2 ^ (64 - (shift + 7)) := by
                rw [show 64 - shift = 64 - (shift + 7) + 7 by omega, Nat.pow_add, Nat.mul_comm]
              omega
            · intro rest ledger
              rw [List.cons_append, hrun]
              exact hagain rest ledger

/-- A varint read, and its spelling. -/
theorem getVarint_ok {s t : Reader Ledger} {value : Int64} (h : getVarint s = .ok value t) :
    ∃ used, s.bytes = used ++ t.bytes ∧ t.state = s.state ∧
      Scans Scan.varint used [used] value ∧ Respelled (putVarint value) used [used] := by
  obtain ⟨raw, u, hraw, h⟩ := bind_eq_ok.mp h
  cases h
  obtain ⟨used, group, hused, hstate, hvalue, hlt, hgroups, hagain⟩ :=
    getVarintRounds_ok 10 0 0 (by omega) (by omega) hraw
  rw [Nat.pow_zero, Nat.mul_one, Nat.zero_add] at hvalue
  subst hvalue
  have hput : putVarint (zigzagDecode (UInt64.ofNat raw)) = putVarintRounds 10 raw := by
    rw [putVarint, zigzagEncode_zigzagDecode, putUnsignedVarint, UInt64.toNat_ofNat_of_lt' hlt]
  refine ⟨used, hused, hstate, ?_, ?_⟩
  · intro rest log
    have hread : getVarint ⟨used ++ rest, { budget := .new 0, decoded := 0 }⟩ =
        .ok (zigzagDecode (UInt64.ofNat raw)) ⟨rest, { budget := .new 0, decoded := 0 }⟩ := by
      rw [getVarint, getUnsignedVarint, bind_apply, hagain]
      rfl
    simp only [Scan.varint, hread, List.length_append, Nat.add_sub_cancel, List.take_left']
  · have hpos : 0 < used.length := List.length_pos_iff.mpr hgroups.ne_nil
    rw [hput]
    by_cases hzero : used.getLast? = some 0
    · obtain ⟨rfl, rfl⟩ | hshorter := hgroups.zero hzero
      · exact ⟨by decide, by decide, fun _ => by decide⟩
      · refine ⟨Nat.le_of_lt hshorter, fun hlen => absurd hlen (by omega), fun hshort => ?_⟩
        have hnot := hshort used (List.mem_singleton_self used)
        have hone : (putVarintRounds 10 raw).length ≠ 0 := by
          rw [← hput]
          exact fun hnil => putVarint_ne_nil _ (List.length_eq_zero_iff.mp hnil)
        exact absurd ⟨by omega, hzero⟩ hnot
    · have hsame := hgroups.shortest hzero
      rw [hsame]
      refine ⟨Nat.le_refl _, fun _ spelling hmem => ?_, fun _ => rfl⟩
      obtain rfl := List.mem_singleton.mp hmem
      exact fun hover => hzero hover.2

end Varint

section Pieces

variable {α : Type} {s t : Reader Ledger}

theorem failIf_ok {c : Prop} [Decidable c] {e : DecodeError} {u : Unit}
    (h : failIf c e s = .ok u t) : ¬ c ∧ t = s := by
  unfold failIf at h
  split at h
  · cases h
  · cases h
    exact ⟨‹_›, rfl⟩

theorem lenFrom_ok {raw : Int} {n : Nat} (h : lenFrom raw s = .ok n t) :
    t = s ∧ 0 ≤ raw ∧ n = raw.toNat := by
  unfold lenFrom at h
  split at h
  · cases h
  · cases h
    exact ⟨rfl, Int.not_lt.mp ‹_›, rfl⟩

theorem copyToBytes_ok {n : Nat} {bytes : Bytes} (h : copyToBytes n s = .ok bytes t) :
    s.bytes = bytes ++ t.bytes ∧ bytes.length = n := by
  unfold copyToBytes Decoder.split at h
  split at h
  · cases h
    exact ⟨(List.take_append_drop n s.bytes).symm, List.length_take_of_le ‹_›⟩
  · cases h

theorem rawFixed_ok {width value : Nat} (h : rawFixed width s = .ok value t) :
    ∃ bytes, s.bytes = bytes ++ t.bytes ∧ bytes.length = width ∧ value = ofBigEndian bytes ∧
      toBigEndian width value = bytes := by
  obtain ⟨bytes, u, hcopy, h⟩ := bind_eq_ok.mp h
  cases h
  obtain ⟨hbytes, hlen⟩ := copyToBytes_ok hcopy
  refine ⟨bytes, hbytes, hlen, rfl, ?_⟩
  rw [← hlen, toBigEndian_ofBigEndian]

theorem takeBytes_ok {n : Nat} {bytes : Bytes} (h : takeBytes n s = .ok bytes t) :
    s.bytes = bytes ++ t.bytes ∧ bytes.length = n := by
  obtain ⟨_, u, hensure, hcopy⟩ := bind_eq_ok.mp h
  obtain ⟨left, v, hleft, hfail⟩ := bind_eq_ok.mp hensure
  cases hleft
  obtain ⟨_, rfl⟩ := failIf_ok hfail
  exact copyToBytes_ok hcopy

/-- Whatever the decoder accepts, the scan passes; and the value's own bytes
are a respelling of what was accepted. -/
def Accepts (d : Decode α) (m : Scan Unit) (put : α → Bytes) : Prop :=
  ∀ s a t, d s = .ok a t → ∃ used spellings, s.bytes = used ++ t.bytes ∧
    Scans m used spellings () ∧ Respelled (put a) used spellings

theorem int64_ofNat_toNat {value : Int64} (h : 0 ≤ value.toInt) :
    Int64.ofNat value.toInt.toNat = value := by
  apply Int64.toInt_inj.mp
  have hle := value.toInt_le
  rw [Int64.toInt_ofNat_of_lt (by simp only [Int64.toInt_maxValue] at hle; omega)]
  omega

theorem getVarintBytes_accepts : Accepts getVarintBytes Scan.varintBytes putVarintBytes := by
  intro s a t h
  obtain ⟨length, u, hlength, h⟩ := bind_eq_ok.mp h
  obtain ⟨used, hused, _, hscan, hspell⟩ := getVarint_ok hlength
  by_cases hnull : length = -1
  · rw [if_pos hnull] at h
    cases h
    subst hnull
    exact ⟨used, [used], hused, hscan.bind_last (.skip rfl), hspell⟩
  · rw [if_neg hnull] at h
    obtain ⟨n, v, hn, h⟩ := bind_eq_ok.mp h
    obtain ⟨rfl, hnonneg, rfl⟩ := lenFrom_ok hn
    obtain ⟨bytes, w, hbytes, h⟩ := bind_eq_ok.mp h
    cases h
    obtain ⟨hsplit, hlen⟩ := takeBytes_ok hbytes
    refine ⟨used ++ bytes, [used] ++ [], by rw [hused, hsplit, List.append_assoc],
      hscan.bind (.skip hlen), ?_⟩
    rw [putVarintBytes, hlen, int64_ofNat_toNat hnonneg]
    exact hspell.append (.refl bytes)

theorem parseUtf8_ok {bytes : Bytes} {value : String} (h : parseUtf8 bytes s = .ok value t) :
    t = s ∧ utf8 value = bytes := by
  unfold parseUtf8 at h
  cases hvalue : fromUtf8 bytes with
  | none =>
      rw [hvalue] at h
      cases h
  | some found =>
      rw [hvalue] at h
      cases h
      exact ⟨rfl, fromUtf8_some hvalue⟩

theorem getHeader_accepts : Accepts getHeader Scan.header RecordHeader.put := by
  intro s a t h
  obtain ⟨key, u₁, hkey, h⟩ := bind_eq_ok.mp h
  obtain ⟨raw, u₂, hraw, h⟩ := bind_eq_ok.mp h
  obtain ⟨name, u₃, hname, h⟩ := bind_eq_ok.mp h
  obtain ⟨value, u₄, hvalue, h⟩ := bind_eq_ok.mp h
  cases h
  obtain ⟨used₁, sp₁, hused₁, hscan₁, hspell₁⟩ := getVarintBytes_accepts _ _ _ hkey
  obtain ⟨used₂, sp₂, hused₂, hscan₂, hspell₂⟩ := getVarintBytes_accepts _ _ _ hvalue
  cases key with
  | none => cases hraw
  | some bytes =>
      cases hraw
      obtain ⟨rfl, rfl⟩ := parseUtf8_ok hname
      exact ⟨used₁ ++ used₂, sp₁ ++ sp₂, by rw [hused₁, hused₂, List.append_assoc],
        hscan₁.bind hscan₂, hspell₁.append hspell₂⟩

theorem progressing_ok {item : Decode α} {a : α} (h : progressing item s = .ok a t) :
    item s = .ok a t := by
  obtain ⟨before, u₁, hbefore, hrest⟩ := bind_eq_ok.mp h
  cases hbefore
  obtain ⟨value, u₂, hvalue, hrest'⟩ := bind_eq_ok.mp hrest
  obtain ⟨after, u₃, hafter, hcheck⟩ := bind_eq_ok.mp hrest'
  cases hafter
  obtain ⟨_, u₄, hprogress, hpure⟩ := bind_eq_ok.mp hcheck
  cases hpure
  obtain ⟨_, rfl⟩ := failIf_ok hprogress
  exact hvalue

theorem growFor_items {elem : Nat} {items grown : Vec α} (h : growFor elem items s = .ok grown t) :
    grown.items = items.items ∧ t.bytes = s.bytes := by
  unfold growFor at h
  split at h
  · cases h
    exact ⟨rfl, rfl⟩
  · obtain ⟨_, u, hdraw, h⟩ := bind_eq_ok.mp h
    cases h
    unfold Decoder.draw at hdraw
    split at hdraw <;> cases hdraw
    exact ⟨rfl, rfl⟩

theorem push_items {elem : Nat} {items pushed : Vec α} {value : α}
    (h : push elem items value s = .ok pushed t) :
    pushed.items = items.items ++ [value] ∧ t.bytes = s.bytes := by
  unfold push at h
  by_cases hfull : items.items.length = items.capacity
  · rw [if_pos hfull] at h
    obtain ⟨grown, u, hgrown, hcount⟩ := bind_eq_ok.mp h
    obtain ⟨hitems, hbytes⟩ := growFor_items hgrown
    cases hcount
    exact ⟨by rw [hitems], hbytes⟩
  · rw [if_neg hfull] at h
    cases h
    exact ⟨rfl, rfl⟩

/-- A counted loop accepts what its items do. -/
theorem getItems_accepts {elem : Nat} {item : Decode α} {m : Scan Unit} {put : α → Bytes}
    (hitem : Accepts item m put) (count : Nat) {items read : Vec α}
    (h : getItems elem (progressing item) count items s = .ok read t) :
    ∃ values used spellings, read.items = items.items ++ values ∧ values.length = count ∧
      s.bytes = used ++ t.bytes ∧ Scans (Scan.times m count) used spellings () ∧
      Respelled (values.flatMap put) used spellings := by
  induction count generalizing items s with
  | zero =>
      cases h
      exact ⟨[], [], [], (List.append_nil _).symm, rfl, rfl, .pure (), .refl []⟩
  | succ count ih =>
      obtain ⟨value, u, hvalue, h⟩ := bind_eq_ok.mp h
      obtain ⟨pushed, v, hpush, h⟩ := bind_eq_ok.mp h
      obtain ⟨hitems, hbytes⟩ := push_items hpush
      obtain ⟨used₁, sp₁, hused₁, hscan₁, hspell₁⟩ := hitem _ _ _ (progressing_ok hvalue)
      obtain ⟨values, used₂, sp₂, hread, hlen, hused₂, hscan₂, hspell₂⟩ := ih h
      refine ⟨value :: values, used₁ ++ used₂, sp₁ ++ sp₂, ?_, by rw [List.length_cons, hlen], ?_,
        hscan₁.bind hscan₂, hspell₁.append hspell₂⟩
      · rw [hread, hitems, List.append_assoc, List.singleton_append]
      · rw [hused₁, ← hbytes, hused₂, List.append_assoc]

end Pieces

section Raw

variable {s t : Reader Ledger}

theorem rawFixed_split {width value : Nat} (h : rawFixed width s = .ok value t) :
    s.bytes = toBigEndian width value ++ t.bytes ∧ value < 256 ^ width := by
  obtain ⟨bytes, hbytes, hlen, hvalue, hput⟩ := rawFixed_ok h
  refine ⟨by rw [hput, hbytes], ?_⟩
  rw [hvalue, ← hlen]
  exact ofBigEndian_lt bytes

theorem rawI8_ok {value : Int8} (h : rawI8 s = .ok value t) : s.bytes = putI8 value ++ t.bytes := by
  obtain ⟨raw, u, hraw, h⟩ := bind_eq_ok.mp h
  cases h
  obtain ⟨hbytes, hlt⟩ := rawFixed_split hraw
  rw [hbytes, putI8, Int8.toBitVec_ofBitVec, BitVec.toNat_ofNat,
    Nat.mod_eq_of_lt (b := 2 ^ 8) hlt]

theorem rawI16_ok {value : Int16} (h : rawI16 s = .ok value t) :
    s.bytes = putI16 value ++ t.bytes := by
  obtain ⟨raw, u, hraw, h⟩ := bind_eq_ok.mp h
  cases h
  obtain ⟨hbytes, hlt⟩ := rawFixed_split hraw
  rw [hbytes, putI16, Int16.toBitVec_ofBitVec, BitVec.toNat_ofNat,
    Nat.mod_eq_of_lt (b := 2 ^ 16) hlt]

theorem rawI32_ok {value : Int32} (h : rawI32 s = .ok value t) :
    s.bytes = putI32 value ++ t.bytes := by
  obtain ⟨raw, u, hraw, h⟩ := bind_eq_ok.mp h
  cases h
  obtain ⟨hbytes, hlt⟩ := rawFixed_split hraw
  rw [hbytes, putI32, Int32.toBitVec_ofBitVec, BitVec.toNat_ofNat,
    Nat.mod_eq_of_lt (b := 2 ^ 32) hlt]

theorem rawI64_ok {value : Int64} (h : rawI64 s = .ok value t) :
    s.bytes = putI64 value ++ t.bytes := by
  obtain ⟨raw, u, hraw, h⟩ := bind_eq_ok.mp h
  cases h
  obtain ⟨hbytes, hlt⟩ := rawFixed_split hraw
  rw [hbytes, putI64, Int64.toBitVec_ofBitVec, BitVec.toNat_ofNat,
    Nat.mod_eq_of_lt (b := 2 ^ 64) hlt]

theorem rawU32_ok {value : UInt32} (h : rawU32 s = .ok value t) :
    s.bytes = putU32 value ++ t.bytes := by
  obtain ⟨raw, u, hraw, h⟩ := bind_eq_ok.mp h
  cases h
  obtain ⟨hbytes, hlt⟩ := rawFixed_split hraw
  rw [hbytes, putU32, UInt32.toNat_ofNat_of_lt' hlt]

theorem drained_ok {u : Unit} (h : drained s = .ok u t) : s.bytes = [] ∧ t = s := by
  obtain ⟨left, v, hleft, hfail⟩ := bind_eq_ok.mp h
  cases hleft
  obtain ⟨hzero, rfl⟩ := failIf_ok hfail
  exact ⟨List.length_eq_zero_iff.mp (not_not.mp hzero), rfl⟩

end Raw

section Record

variable {s t : Reader Ledger}

theorem toInt64_toInt32 {value : Int64} (hlow : Int32.minValue.toInt ≤ value.toInt)
    (hhigh : value.toInt ≤ Int32.maxValue.toInt) : value.toInt32.toInt64 = value := by
  apply Int64.toInt_inj.mp
  have hmin : Int32.minValue.toInt = -2147483648 := rfl
  have hmax : Int32.maxValue.toInt = 2147483647 := rfl
  rw [Int32.toInt_toInt64, Int64.toInt_toInt32]
  exact Int.bmod_eq_of_le (by omega) (by omega)

theorem Record.decodeBody_ok {record : Record} (h : Record.decodeBody s = .ok record t) :
    ∃ spellings, Scans Scan.recordBody s.bytes spellings () ∧
      Respelled record.body s.bytes spellings := by
  obtain ⟨left, u₀, hleft, h₁⟩ := bind_eq_ok.mp h
  cases hleft
  obtain ⟨_, u₁, hempty, h₂⟩ := bind_eq_ok.mp h₁
  obtain ⟨_, rfl⟩ := failIf_ok hempty
  obtain ⟨attributes, u₂, hattributes, h₃⟩ := bind_eq_ok.mp h₂
  obtain ⟨timestamp, u₃, htimestamp, h₄⟩ := bind_eq_ok.mp h₃
  obtain ⟨offset, u₄, hoffset, h₅⟩ := bind_eq_ok.mp h₄
  obtain ⟨_, u₅, hcheck, h₆⟩ := bind_eq_ok.mp h₅
  obtain ⟨hrange, rfl⟩ := failIf_ok hcheck
  obtain ⟨key, u₆, hkey, h₇⟩ := bind_eq_ok.mp h₆
  obtain ⟨value, u₇, hvalue, h₈⟩ := bind_eq_ok.mp h₇
  obtain ⟨count, u₈, hcount, h₉⟩ := bind_eq_ok.mp h₈
  obtain ⟨_, u₉, hcheck', h₁₀⟩ := bind_eq_ok.mp h₉
  obtain ⟨hnonneg, rfl⟩ := failIf_ok hcheck'
  obtain ⟨headers, u₁₀, hheaders, h₁₁⟩ := bind_eq_ok.mp h₁₀
  obtain ⟨_, u₁₁, hdrained, h₁₂⟩ := bind_eq_ok.mp h₁₁
  obtain ⟨hnil, rfl⟩ := drained_ok hdrained
  cases h₁₂
  have hused₂ := rawI8_ok hattributes
  obtain ⟨used₃, hused₃, _, hscan₃, hspell₃⟩ := getVarint_ok htimestamp
  obtain ⟨used₄, hused₄, _, hscan₄, hspell₄⟩ := getVarint_ok hoffset
  obtain ⟨used₆, sp₆, hused₆, hscan₆, hspell₆⟩ := getVarintBytes_accepts _ _ _ hkey
  obtain ⟨used₇, sp₇, hused₇, hscan₇, hspell₇⟩ := getVarintBytes_accepts _ _ _ hvalue
  obtain ⟨used₈, hused₈, _, hscan₈, hspell₈⟩ := getVarint_ok hcount
  obtain ⟨values, used₁₀, sp₁₀, hread, hlen, hused₁₀, hscan₁₀, hspell₁₀⟩ :=
    getItems_accepts getHeader_accepts _ hheaders
  rw [show headers.items = values from hread]
  obtain ⟨hlow, hhigh⟩ := not_or.mp hrange
  have hsplit : u₁.bytes = putI8 attributes ++ (used₃ ++ (used₄ ++ (used₆ ++ (used₇ ++
      (used₈ ++ used₁₀))))) := by
    rw [hused₂, hused₃, hused₄, hused₆, hused₇, hused₈, hused₁₀, hnil, List.append_nil]
  refine ⟨[] ++ ([used₃] ++ ([used₄] ++ (sp₆ ++ (sp₇ ++ ([used₈] ++ sp₁₀))))), ?_, ?_⟩
  · rw [hsplit]
    exact (Scans.skip (length_toBigEndian _ _)).bind (hscan₃.bind (hscan₄.bind (hscan₆.bind
      (hscan₇.bind (hscan₈.bind hscan₁₀)))))
  · rw [hsplit, Record.body]
    simp only [toInt64_toInt32 (Int.not_lt.mp hlow) (Int.not_lt.mp hhigh), hlen,
      int64_ofNat_toNat (Int.not_lt.mp hnonneg)]
    exact (Respelled.refl _).append (hspell₃.append (hspell₄.append (hspell₆.append
      (hspell₇.append (hspell₈.append hspell₁₀)))))

theorem zigzagEncode_ofNat {n : Nat} (h : n ≤ i64Max) :
    (zigzagEncode (Int64.ofNat n)).toNat = 2 * n := by
  have hlt : n < 2 ^ 63 := by
    unfold i64Max at h
    omega
  have hmsb : (BitVec.ofNat 64 n).msb = false := by
    rw [BitVec.msb_eq_false_iff_two_mul_lt, BitVec.toNat_ofNat, Nat.mod_eq_of_lt (by omega)]
    omega
  have hbits : (zigzagEncode (Int64.ofNat n)).toBitVec =
      BitVec.ofNat 64 n <<< 1 ^^^ (BitVec.ofNat 64 n).sshiftRight 63 := by
    simp [zigzagEncode]
  rw [← UInt64.toNat_toBitVec, hbits, sshiftRight_sign, hmsb]
  simp only [Bool.false_eq_true, ite_false, BitVec.xor_zero, BitVec.toNat_shiftLeft,
    BitVec.toNat_ofNat]
  omega

theorem log2_le_log2 {m n : Nat} (h : m ≤ n) (hm : m ≠ 0) : Nat.log2 m ≤ Nat.log2 n :=
  (Nat.le_log2 (by omega)).mpr (Nat.le_trans (Nat.log2_self_le hm) h)

/-- A smaller length is spelled no longer. -/
theorem length_putVarint_le {m n : Nat} (hmn : m ≤ n) (hn : n ≤ i64Max) :
    (putVarint (Int64.ofNat m)).length ≤ (putVarint (Int64.ofNat n)).length := by
  have hm := zigzagEncode_ofNat (n := m) (by omega)
  have hn := zigzagEncode_ofNat hn
  have hzero : ∀ value : UInt64, value = 0 ↔ value.toNat = 0 := fun value => by
    rw [← UInt64.toNat_inj]
    rfl
  rw [length_putVarint, length_putVarint, varintLen, varintLen, unsignedVarintLen,
    unsignedVarintLen, bitLen, bitLen]
  simp only [hzero, hm, hn]
  by_cases hmzero : 2 * m = 0
  · rw [if_pos hmzero]
    omega
  · have hlog := log2_le_log2 (Nat.mul_le_mul_left 2 hmn) hmzero
    rw [if_neg hmzero, if_neg (by omega)]
    omega

/-- A respelled body takes its length prefix with it. -/
theorem Respelled.prefixed {body used spelled : Bytes} {spellings : List Bytes} {length : Int64}
    (hbody : Respelled body used spellings) (hnonneg : 0 ≤ length.toInt)
    (hlen : used.length = length.toInt.toNat)
    (hlead : Respelled (putVarint length) spelled [spelled]) :
    Respelled (putVarint (Int64.ofNat body.length) ++ body) (spelled ++ used)
      ([spelled] ++ spellings) := by
  have hback : Int64.ofNat used.length = length := by rw [hlen, int64_ofNat_toNat hnonneg]
  have hmax : used.length ≤ i64Max := by
    have hle := length.toInt_le
    simp only [Int64.toInt_maxValue] at hle
    unfold i64Max
    omega
  have hle := hbody.length_le
  have hprefixes := length_putVarint_le hle hmax
  have hspelled := hlead.length_le
  rw [hback] at hprefixes
  refine ⟨by simp only [List.length_append]; omega, ?_, ?_⟩
  · intro heq spelling hmem
    simp only [List.length_append] at heq
    obtain hmem | hmem := List.mem_append.mp hmem
    · exact hlead.shortest (by omega) spelling hmem
    · exact hbody.shortest (by omega) spelling hmem
  · intro hshort
    rw [hbody.same fun sp h => hshort sp (List.mem_append_right _ h), hback,
      hlead.same fun sp h => hshort sp (List.mem_append_left _ h)]

theorem length_headers_le (record : Record) : record.headers.length ≤ record.body.length := by
  have hput : record.headers.length ≤ (record.headers.flatMap RecordHeader.put).length := by
    induction record.headers with
    | nil => exact Nat.le_refl _
    | cons header headers ih =>
        have hpos := List.length_pos_iff.mpr header.put_ne_nil
        simp only [List.flatMap_cons, List.length_append, List.length_cons]
        omega
  simp only [Record.body, List.length_append]
  omega

/-- A body that fits its prefix has everything else fit too. -/
theorem Record.fits_of_length {record : Record} (h : record.body.length ≤ i64Max) :
    record.Fits := by
  have hheaders := length_headers_le record
  have hencode : record.encode = .ok record.bytes := by
    rw [encode, if_neg (by omega)]
    simp only [← record.length_body, if_neg (Nat.not_lt.mpr h)]
    rfl
  exact (encode_eq_ok hencode).2

/-- A record that decodes is respelled by its own encoder. -/
theorem Record.decode_accepts : Accepts Record.decode Scan.record Record.bytes := by
  intro s a t h
  obtain ⟨length, u₁, hlength, h₁⟩ := bind_eq_ok.mp h
  obtain ⟨n, u₂, hn, h₂⟩ := bind_eq_ok.mp h₁
  obtain ⟨rfl, hnonneg, rfl⟩ := lenFrom_ok hn
  obtain ⟨body, u₃, htake, h₃⟩ := bind_eq_ok.mp h₂
  obtain ⟨hbody, hlen⟩ := takeBytes_ok htake
  obtain ⟨spelled, hspelled, _, hscan, hlead⟩ := getVarint_ok hlength
  unfold within at h₃
  cases hinner : Record.decodeBody { u₃ with bytes := body } with
  | error e v =>
      rw [hinner] at h₃
      cases h₃
  | ok record v =>
      rw [hinner] at h₃
      cases h₃
      obtain ⟨spellings, hscan', hrespelled⟩ := Record.decodeBody_ok hinner
      exact ⟨spelled ++ body, [spelled] ++ spellings,
        by rw [hspelled, hbody, List.append_assoc], hscan.bind hscan',
        hrespelled.prefixed hnonneg hlen hlead⟩

end Record

section Batch

variable {s t : Reader Ledger}

theorem field_attributes (attributes : Int16) :
    Int16.ofBitVec (BitVec.ofNat 16 (ofBigEndian (putI16 attributes))) = attributes := by
  rw [putI16, ofBigEndian_toBigEndian, Nat.mod_eq_of_lt (b := 256 ^ 2)
    attributes.toBitVec.isLt, BitVec.ofNat_toNat, BitVec.setWidth_eq, Int16.ofBitVec_toBitVec]

theorem field_count {count : Int32} (h : 0 ≤ count.toInt) :
    ofBigEndian (putI32 count) = count.toInt.toNat := by
  have hlt := count.toBitVec.isLt
  rw [putI32, ofBigEndian_toBigEndian, Nat.mod_eq_of_lt (b := 256 ^ 4) hlt]
  have hint : count.toBitVec.toInt = count.toInt := rfl
  rw [← hint] at h ⊢
  rw [BitVec.toInt_eq_toNat_cond] at h ⊢
  split at h <;> omega

/-- The scan of a body, from what it finds in the records. -/
theorem Scans.batchBody {attributes : Int16} {count : Int32} {between records : Bytes}
    {spellings : List Bytes} (hbetween : between.length = 4 + 8 + 8 + 8 + 2 + 4)
    (hcount : 0 ≤ count.toInt)
    (hrecords : Scans (if Compression.fromAttributes attributes = .none then
      Scan.times Scan.record count.toInt.toNat else Pure.pure ()) records spellings ()) :
    Scans Scan.batchBody (putI16 attributes ++ (between ++ (putI32 count ++ records)))
      spellings () := by
  have hattributes : Scans (Scan.field 2) (putI16 attributes) []
      (ofBigEndian (putI16 attributes)) :=
    .field (length_toBigEndian _ _)
  have hfield : Scans (Scan.field 4) (putI32 count) [] (ofBigEndian (putI32 count)) :=
    .field (length_toBigEndian _ _)
  have hlast : Scans (if Compression.fromAttributes (Int16.ofBitVec (BitVec.ofNat 16
      (ofBigEndian (putI16 attributes)))) = .none then
        Scan.times Scan.record (ofBigEndian (putI32 count)) else Pure.pure ()) records
          spellings () := by
    rwa [field_attributes, field_count hcount]
  exact hattributes.bind ((Scans.skip hbetween).bind (hfield.bind hlast))

/-- What a body's records read as, and how they are spelled. -/
theorem RecordBatch.plain_ok {attributes : Int16} {count : Int32} {read : Vec Record}
    {u : Reader Ledger} (hplain : Compression.fromAttributes attributes = .none)
    (hread : getItems recordSize (progressing Record.decode) count.toInt.toNat
      (Vec.new recordSize) s = .ok read u) (hnil : u.bytes = []) (hnonneg : 0 ≤ count.toInt) :
    ∃ spellings, Scans (if Compression.fromAttributes attributes = .none then
        Scan.times Scan.record count.toInt.toNat else pure ()) s.bytes spellings () ∧
      Respelled (read.items.flatMap Record.bytes) s.bytes spellings ∧
      Int32.ofNat read.items.length = count ∧ read.items.length ≤ i32Max := by
  obtain ⟨values, used, spellings, hitems, hlen, hused, hscan, hspell⟩ :=
    getItems_accepts Record.decode_accepts _ hread
  rw [hnil, List.append_nil] at hused
  rw [show read.items = values from hitems, hlen, hused, if_pos hplain]
  have hle := count.toInt_le
  have hmax : Int32.maxValue.toInt = 2147483647 := rfl
  refine ⟨spellings, hscan, hspell, ?_, by unfold i32Max; omega⟩
  apply Int32.toInt_inj.mp
  rw [Int32.toInt_ofNat_of_lt (by omega)]
  omega

theorem RecordBatch.fits_of_length {batch : RecordBatch}
    (hlen : 4 + 1 + 4 + batch.body.length ≤ i32Max)
    (hcount : ∀ records, batch.records = .plain records → records.length ≤ i32Max) :
    batch.Fits := by
  refine ⟨hlen, ?_⟩
  cases hrecords : batch.records with
  | compressed count payload => exact trivial
  | plain records =>
      refine ⟨hcount records hrecords, fun record hmem => Record.fits_of_length ?_⟩
      have hpart : record.bytes.length ≤ (records.flatMap Record.bytes).length :=
        (List.sublist_flatten_of_mem (List.mem_map_of_mem hmem)).length_le
      rw [RecordBatch.length_body, payload, hrecords] at hlen
      simp only [Record.bytes, List.length_append] at hpart hlen
      unfold i32Max at hlen
      unfold i64Max
      omega

theorem RecordBatch.decodeBody_ok {baseOffset : Int64} {epoch : Int32} {batch : RecordBatch}
    (h : RecordBatch.decodeBody baseOffset epoch s = .ok batch t)
    (hlen : 4 + 1 + 4 + s.bytes.length ≤ i32Max) :
    batch.Fits ∧ batch.baseOffset = baseOffset ∧ batch.partitionLeaderEpoch = epoch ∧
    ∃ front back spellings, s.bytes = front ++ back ∧
      Scans Scan.batchBody front spellings () ∧ Respelled batch.body s.bytes spellings := by
  obtain ⟨attributes, u₁, h₁, hrest⟩ := bind_eq_ok.mp h
  obtain ⟨lastOffsetDelta, u₂, h₂, hrest⟩ := bind_eq_ok.mp hrest
  obtain ⟨baseTimestamp, u₃, h₃, hrest⟩ := bind_eq_ok.mp hrest
  obtain ⟨maxTimestamp, u₄, h₄, hrest⟩ := bind_eq_ok.mp hrest
  obtain ⟨producerId, u₅, h₅, hrest⟩ := bind_eq_ok.mp hrest
  obtain ⟨producerEpoch, u₆, h₆, hrest⟩ := bind_eq_ok.mp hrest
  obtain ⟨baseSequence, u₇, h₇, hrest⟩ := bind_eq_ok.mp hrest
  obtain ⟨count, u₈, h₈, hrest⟩ := bind_eq_ok.mp hrest
  obtain ⟨_, u₉, hcheck, hrecords⟩ := bind_eq_ok.mp hrest
  obtain ⟨hnonneg, rfl⟩ := failIf_ok hcheck
  have hnonneg := Int.not_lt.mp hnonneg
  have hfields : s.bytes = putI16 attributes ++ ((putI32 lastOffsetDelta ++ (putI64 baseTimestamp ++
      (putI64 maxTimestamp ++ (putI64 producerId ++ (putI16 producerEpoch ++
        putI32 baseSequence))))) ++ (putI32 count ++ u₉.bytes)) := by
    rw [rawI16_ok h₁, rawI32_ok h₂, rawI64_ok h₃, rawI64_ok h₄, rawI64_ok h₅, rawI16_ok h₆,
      rawI32_ok h₇, rawI32_ok h₈]
    simp only [List.append_assoc]
  have hskip : (putI32 lastOffsetDelta ++ (putI64 baseTimestamp ++ (putI64 maxTimestamp ++
      (putI64 producerId ++ (putI16 producerEpoch ++ putI32 baseSequence))))).length =
        4 + 8 + 8 + 8 + 2 + 4 := by
    simp only [List.length_append, putI16, putI32, putI64, length_toBigEndian]
  have hfixed : s.bytes = (putI16 attributes ++ (putI32 lastOffsetDelta ++ (putI64 baseTimestamp ++
      (putI64 maxTimestamp ++ (putI64 producerId ++ (putI16 producerEpoch ++
        (putI32 baseSequence ++ putI32 count))))))) ++ u₉.bytes := by
    rw [hfields]
    simp only [List.append_assoc]
  by_cases hplain : Compression.fromAttributes attributes = .none
  · simp only [if_pos hplain] at hrecords
    obtain ⟨read, v, hread, hrest⟩ := bind_eq_ok.mp hrecords
    obtain ⟨_, w, hdrained, hpure⟩ := bind_eq_ok.mp hrest
    cases hpure
    obtain ⟨hnil, rfl⟩ := drained_ok hdrained
    obtain ⟨spellings, hscan, hspell, hcount, hmax⟩ := plain_ok hplain hread hnil hnonneg
    have hbody := (Respelled.refl (putI16 attributes ++ (putI32 lastOffsetDelta ++
      (putI64 baseTimestamp ++ (putI64 maxTimestamp ++ (putI64 producerId ++
        (putI16 producerEpoch ++ (putI32 baseSequence ++ putI32 count)))))))).append hspell
    rw [← hfixed, ← hcount] at hbody
    have hle := hbody.length_le
    refine ⟨fits_of_length (Nat.le_trans (Nat.add_le_add_left hle _) hlen) ?_, rfl, rfl,
      s.bytes, [], spellings, (List.append_nil _).symm, ?_, hbody⟩
    · rintro _ ⟨⟩
      exact hmax
    · rw [hfields]
      exact .batchBody hskip hnonneg hscan
  · simp only [if_neg hplain] at hrecords
    obtain ⟨left, v, hleft, hrest⟩ := bind_eq_ok.mp hrecords
    cases hleft
    obtain ⟨bytes, w, hcopy, hpure⟩ := bind_eq_ok.mp hrest
    cases hpure
    obtain ⟨hbytes, hall⟩ := copyToBytes_ok hcopy
    have hpayload : bytes = u₉.bytes := by
      rw [hbytes, List.length_append] at hall
      rw [hbytes, List.length_eq_zero_iff.mp (by omega : t.bytes.length = 0), List.append_nil]
    have hscan := @Scans.batchBody attributes count _ [] [] hskip hnonneg
      (by rw [if_neg hplain]; exact .pure ())
    refine ⟨fits_of_length (Nat.le_trans (Nat.le_of_eq ?_) hlen)
      (fun _ h => (by cases h)), rfl, rfl,
      _, u₉.bytes, [], ?_, hscan, ?_⟩
    · rw [hfixed, ← hpayload]
      rfl
    · rw [hfields]
      simp only [List.append_assoc, List.append_nil]
    · rw [hfixed, ← hpayload]
      exact .refl _

theorem ensure_ok {n : Nat} {u : Unit} (h : ensure n s = .ok u t) :
    t = s ∧ n ≤ s.bytes.length := by
  obtain ⟨left, v, hleft, hfail⟩ := bind_eq_ok.mp h
  cases hleft
  obtain ⟨hlen, rfl⟩ := failIf_ok hfail
  exact ⟨rfl, Nat.le_of_not_lt hlen⟩

theorem batchLength_put (offset : Int64) (length : Int32) (rest : Bytes) :
    batchLength (putI64 offset ++ (putI32 length ++ rest)) = length.toInt := by
  rw [batchLength, List.drop_left' (by rw [putI64, length_toBigEndian]),
    List.take_left' (by rw [putI32, length_toBigEndian]), putI32, ofBigEndian_toBigEndian,
    Nat.mod_eq_of_lt (b := 256 ^ 4) length.toBitVec.isLt,
    BitVec.ofNat_toNat, BitVec.setWidth_eq, Int32.ofBitVec_toBitVec]

/-- What a frame of the set is to the batch read from it. -/
structure FrameOf (batch : RecordBatch) (frame : Bytes) : Prop where
  fits : batch.Fits
  length : (frame.length : Int) = 12 + batchLength frame
  respelled : Respelled batch.bytes frame (varintSpellings frame)

theorem varintSpellings_append {header front back : Bytes} {spellings : List Bytes}
    (hheader : header.length = 21) (hscan : Scans Scan.batchBody front spellings ()) :
    varintSpellings (header ++ (front ++ back)) = spellings := by
  have hall : Scans Scan.batch (header ++ front) ([] ++ spellings) () :=
    (Scans.skip hheader).bind hscan
  have hrun := hall back []
  rw [List.append_assoc] at hrun
  simp only [varintSpellings, hrun, List.nil_append]

/-- The frame's header, spelled out. -/
theorem FrameOf.intro {batch : RecordBatch} {front back : Bytes} {spellings : List Bytes}
    (hfits : batch.Fits) (hlen : 4 + 1 + 4 + (front ++ back).length ≤ i32Max)
    (hscan : Scans Scan.batchBody front spellings ())
    (hbody : Respelled batch.body (front ++ back) spellings) :
    FrameOf batch (putI64 batch.baseOffset ++ (putI32 (Int32.ofNat (4 + 1 + 4 +
      (front ++ back).length)) ++ (putI32 batch.partitionLeaderEpoch ++ (putI8 magic ++
        (putU32 (crc32c (front ++ back)) ++ (front ++ back)))))) := by
  have hsplit : putI64 batch.baseOffset ++ (putI32 (Int32.ofNat (4 + 1 + 4 +
      (front ++ back).length)) ++ (putI32 batch.partitionLeaderEpoch ++ (putI8 magic ++
        (putU32 (crc32c (front ++ back)) ++ (front ++ back))))) =
      (putI64 batch.baseOffset ++ (putI32 (Int32.ofNat (4 + 1 + 4 + (front ++ back).length)) ++
        (putI32 batch.partitionLeaderEpoch ++ (putI8 magic ++ putU32 (crc32c (front ++ back)))))) ++
          (front ++ back) := by
    simp only [List.append_assoc]
  have hheader : (putI64 batch.baseOffset ++ (putI32 (Int32.ofNat (4 + 1 + 4 +
      (front ++ back).length)) ++ (putI32 batch.partitionLeaderEpoch ++ (putI8 magic ++
        putU32 (crc32c (front ++ back)))))).length = 21 := by
    simp only [List.length_append, putI64, putI32, putI8, putU32, length_toBigEndian]
  have hbytes := batch.length_bytes
  have hle := hbody.length_le
  rw [hsplit]
  refine ⟨hfits, ?_, ?_⟩
  · rw [← hsplit, batchLength_put, (int32_ofNat hlen).1, hsplit, List.length_append, hheader]
    omega
  · rw [varintSpellings_append hheader hscan]
    refine ⟨?_, ?_, ?_⟩
    · rw [List.length_append, hheader]
      omega
    · intro hlen
      rw [List.length_append, hheader] at hlen
      exact hbody.shortest (by omega)
    · intro hshort
      rw [← hsplit, ← hbody.same hshort]
      rfl

/-- The frame in front: its header, and the body that the batch is read from. -/
theorem RecordBatch.decode_frame {batch : RecordBatch} (h : RecordBatch.decode s = .ok batch t) :
    ∃ baseOffset epoch body u v,
      s.bytes = putI64 baseOffset ++ (putI32 (Int32.ofNat (4 + 1 + 4 + body.length)) ++
        (putI32 epoch ++ (putI8 magic ++ (putU32 (crc32c body) ++ (body ++ t.bytes))))) ∧
      4 + 1 + 4 + body.length ≤ i32Max ∧ u.bytes = body ∧
      RecordBatch.decodeBody baseOffset epoch u = .ok batch v := by
  obtain ⟨_, u₁, hensure, hrest⟩ := bind_eq_ok.mp h
  obtain ⟨rfl, _⟩ := ensure_ok hensure
  obtain ⟨baseOffset, u₂, hoffset, hrest₂⟩ := bind_eq_ok.mp hrest
  obtain ⟨length, u₃, hlength, hrest₃⟩ := bind_eq_ok.mp hrest₂
  obtain ⟨n, u₄, hn, hrest₄⟩ := bind_eq_ok.mp hrest₃
  obtain ⟨rfl, hnonneg, rfl⟩ := lenFrom_ok hn
  obtain ⟨_, u₅, hcheck₅, hrest₅⟩ := bind_eq_ok.mp hrest₄
  obtain ⟨hleast, rfl⟩ := failIf_ok hcheck₅
  obtain ⟨_, u₆, hthere, hrest₆⟩ := bind_eq_ok.mp hrest₅
  obtain ⟨rfl, _⟩ := ensure_ok hthere
  obtain ⟨epoch, u₇, hepoch, hrest₇⟩ := bind_eq_ok.mp hrest₆
  obtain ⟨found, u₈, hfound, hrest₈⟩ := bind_eq_ok.mp hrest₇
  obtain ⟨_, u₉, hcheck₉, hrest₉⟩ := bind_eq_ok.mp hrest₈
  obtain ⟨hmagic, rfl⟩ := failIf_ok hcheck₉
  obtain ⟨crc, u₁₀, hcrc, hrest₁₀⟩ := bind_eq_ok.mp hrest₉
  obtain ⟨body, u₁₁, hbody, hrest₁₁⟩ := bind_eq_ok.mp hrest₁₀
  obtain ⟨_, u₁₂, hcheck₁₂, hrest₁₂⟩ := bind_eq_ok.mp hrest₁₁
  obtain ⟨hcrc', rfl⟩ := failIf_ok hcheck₁₂
  obtain ⟨hsplit, hwidth⟩ := copyToBytes_ok hbody
  have hle := length.toInt_le
  have hmax : Int32.maxValue.toInt = 2147483647 := rfl
  have hlen : 4 + 1 + 4 + body.length = length.toInt.toNat := by
    unfold batchOverhead at hleast
    omega
  have hback : Int32.ofNat (4 + 1 + 4 + body.length) = length := by
    apply Int32.toInt_inj.mp
    rw [hlen, Int32.toInt_ofNat_of_lt (by omega)]
    omega
  unfold within at hrest₁₂
  cases hinner : RecordBatch.decodeBody baseOffset epoch { u₁₂ with bytes := body } with
  | error e v =>
      rw [hinner] at hrest₁₂
      cases hrest₁₂
  | ok found' v =>
      rw [hinner] at hrest₁₂
      cases hrest₁₂
      refine ⟨baseOffset, epoch, body, _, v, ?_, by rw [hlen]; unfold i32Max; omega, rfl, hinner⟩
      rw [rawI64_ok hoffset, rawI32_ok hlength, rawI32_ok hepoch, rawI8_ok hfound, rawU32_ok hcrc,
        hsplit, hback, not_not.mp hmagic, not_not.mp hcrc']

theorem RecordBatch.decode_ok {batch : RecordBatch} (h : RecordBatch.decode s = .ok batch t) :
    ∃ frame, s.bytes = frame ++ t.bytes ∧ FrameOf batch frame := by
  obtain ⟨baseOffset, epoch, body, u, v, hbytes, hlen, rfl, hinner⟩ := RecordBatch.decode_frame h
  obtain ⟨hfits, rfl, rfl, front, back, spellings, hparts, hscan, hrespelled⟩ :=
    RecordBatch.decodeBody_ok hinner (by omega)
  rw [hparts] at hbytes hlen hrespelled
  refine ⟨_, ?_, FrameOf.intro hfits hlen hscan hrespelled⟩
  rw [hbytes]
  simp only [List.append_assoc]

end Batch

section Set

theorem batchLength_append {front : Bytes} (rest : Bytes) (h : 12 ≤ front.length) :
    batchLength (front ++ rest) = batchLength front := by
  rw [batchLength, batchLength, List.drop_append_of_le_length (by omega),
    List.take_append_of_le_length (by simp only [List.length_drop]; omega)]

theorem FrameOf.length_le {batch : RecordBatch} {frame : Bytes} (h : FrameOf batch frame) :
    12 ≤ frame.length := by
  have hle := h.respelled.length_le
  have hbytes := batch.length_bytes
  omega

/-- The frame is what the length field says it is. -/
theorem FrameOf.batchLength_eq {batch : RecordBatch} {frame : Bytes} (h : FrameOf batch frame)
    (rest : Bytes) : 12 + batchLength (frame ++ rest) = frame.length := by
  rw [batchLength_append rest h.length_le, h.length]

theorem Fragment.wholeBatches {bytes : Bytes} (h : Fragment bytes) (rounds : Nat) :
    wholeBatches rounds bytes = [] := by
  cases rounds with
  | zero => rfl
  | succ rounds => exact if_pos (h.imp_right fun h => h.2)

theorem FrameOf.wholeBatches {batch : RecordBatch} {frame : Bytes} (h : FrameOf batch frame)
    (rounds : Nat) (rest : Bytes) :
    wholeBatches (rounds + 1) (frame ++ rest) = frame :: wholeBatches rounds rest := by
  have hlen := h.length_le
  have hfield := h.batchLength_eq rest
  rw [Odradek.Protocol.wholeBatches, if_neg, hfield, Int.toNat_natCast, List.take_left,
    List.drop_left]
  simp only [List.length_append]
  omega

/-- The loop reads frame after frame, up to a fragment. -/
theorem decodeSetRounds_ok (rounds : Nat) {read vec : Vec RecordBatch} {s t : Reader Ledger}
    (h : decodeSetRounds rounds read s = .ok vec t) :
    ∃ batches frames tail, vec.items = read.items ++ batches ∧ s.bytes = frames.flatten ++ tail ∧
      Fragment tail ∧ List.Forall₂ FrameOf batches frames ∧ t.bytes = [] := by
  induction rounds generalizing read s with
  | zero => cases h
  | succ rounds ih =>
      by_cases hfragment : Fragment s.bytes
      · rw [decodeSetRounds_fragment hfragment] at h
        cases h
        exact ⟨[], [], s.bytes, (List.append_nil _).symm, rfl, hfragment, .nil, rfl⟩
      · obtain ⟨hlong, hnot⟩ := not_or.mp hfragment
        by_cases hneg : batchLength s.bytes < 0
        · rw [decodeSetRounds_refused (Nat.le_of_not_lt hlong) hneg] at h
          cases h
        · have hwhole := not_and.mp hnot (Int.not_lt.mp hneg)
          rw [decodeSetRounds_whole (Nat.le_of_not_lt hlong) (Int.not_lt.mp hneg)
            (Int.not_lt.mp hwhole)] at h
          obtain ⟨batch, u, hbatch, h₁⟩ := bind_eq_ok.mp h
          obtain ⟨pushed, v, hpush, h₂⟩ := bind_eq_ok.mp h₁
          obtain ⟨hitems, hbytes⟩ := push_items hpush
          obtain ⟨frame, hframe, hof⟩ := RecordBatch.decode_ok hbatch
          obtain ⟨batches, frames, tail, hvec, hrest, htail, hall, hnil⟩ := ih h₂
          refine ⟨batch :: batches, frame :: frames, tail, ?_, ?_, htail, .cons hof hall, hnil⟩
          · rw [hvec, hitems, List.append_assoc, List.singleton_append]
          · rw [hframe, ← hbytes, hrest, List.flatten_cons, List.append_assoc]

theorem wholeBatches_flatten {batches : List RecordBatch} {frames : List Bytes} {tail : Bytes}
    (hall : List.Forall₂ FrameOf batches frames) (htail : Fragment tail) (rounds : Nat)
    (hrounds : frames.length ≤ rounds) :
    wholeBatches rounds (frames.flatten ++ tail) = frames := by
  induction hall generalizing rounds with
  | nil => exact htail.wholeBatches rounds
  | cons hof _ ih =>
      obtain ⟨n, rfl⟩ : ∃ n, rounds = n + 1 :=
        ⟨rounds - 1, by simp only [List.length_cons] at hrounds; omega⟩
      rw [List.flatten_cons, List.append_assoc, hof.wholeBatches,
        ih n (by simp only [List.length_cons] at hrounds; omega)]

theorem length_le_flatten {batches : List RecordBatch} {frames : List Bytes}
    (hall : List.Forall₂ FrameOf batches frames) : frames.length ≤ frames.flatten.length := by
  induction hall with
  | nil => exact Nat.le_refl _
  | cons hof _ ih =>
      have hlen := hof.length_le
      simp only [List.length_cons, List.flatten_cons, List.length_append]
      omega

theorem fits_of_frames {batches : List RecordBatch} {frames : List Bytes}
    (hall : List.Forall₂ FrameOf batches frames) : ∀ batch ∈ batches, batch.Fits := by
  induction hall with
  | nil => exact fun _ h => absurd h List.not_mem_nil
  | cons hof _ ih => exact List.forall_mem_cons.mpr ⟨hof.fits, ih⟩

/-- Encoding again gives a prefix of the bytes, and leaves a fragment of them. -/
def Reencodes (batches : List RecordBatch) (bytes : Bytes) : Prop :=
  ∃ out, encodeSet batches [] = (.ok (), out) ∧ out <+: bytes ∧ Fragment (bytes.drop out.length)

/-- A batch whose bytes start the frame is the frame. -/
theorem FrameOf.of_prefix {batch : RecordBatch} {frame more rest : Bytes} (h : FrameOf batch frame)
    (hlead : batch.bytes ++ more <+: frame ++ rest) :
    batch.bytes = frame ∧ ∀ spelling ∈ varintSpellings frame, ¬ Overlong spelling := by
  obtain ⟨back, hback⟩ := hlead
  have hlen := batch.length_bytes
  have hfield : batchLength (batch.bytes ++ (more ++ back)) = _ :=
    RecordBatch.batchLength_append h.fits List.prefix_rfl (by omega)
  rw [← List.append_assoc, hback] at hfield
  have hframe := h.batchLength_eq rest
  have hsame : frame.length = batch.bytes.length := by omega
  have hshort := h.respelled.shortest hsame
  exact ⟨h.respelled.same hshort, hshort⟩

theorem shortest_of_prefix {batches : List RecordBatch} {frames : List Bytes} {tail : Bytes}
    (hall : List.Forall₂ FrameOf batches frames)
    (hlead : batches.flatMap RecordBatch.bytes <+: frames.flatten ++ tail) :
    ∀ frame ∈ frames, ∀ spelling ∈ varintSpellings frame, ¬ Overlong spelling := by
  induction hall with
  | nil => exact fun _ h => absurd h List.not_mem_nil
  | cons hof _ ih =>
      rw [List.flatMap_cons, List.flatten_cons, List.append_assoc] at hlead
      obtain ⟨hsame, hshort⟩ := hof.of_prefix hlead
      rw [hsame, List.prefix_append_right_inj] at hlead
      exact List.forall_mem_cons.mpr ⟨hshort, ih hlead⟩

theorem flatMap_of_shortest {batches : List RecordBatch} {frames : List Bytes}
    (hall : List.Forall₂ FrameOf batches frames)
    (hshort : ∀ frame ∈ frames, ∀ spelling ∈ varintSpellings frame, ¬ Overlong spelling) :
    batches.flatMap RecordBatch.bytes = frames.flatten := by
  induction hall with
  | nil => rfl
  | cons hof _ ih =>
      obtain ⟨hhead, htail⟩ := List.forall_mem_cons.mp hshort
      rw [List.flatMap_cons, List.flatten_cons, hof.respelled.same hhead, ih htail]

/-- What was decoded is the frames of its batches, and a fragment behind them. -/
theorem decodeSet_frames {limits : Limits} {bytes left : Bytes} {batches : List RecordBatch}
    (h : runDecode limits decodeSet bytes = .ok (batches, left)) :
    ∃ frames tail, bytes = frames.flatten ++ tail ∧ Fragment tail ∧
      List.Forall₂ FrameOf batches frames ∧ wholeBatches bytes.length bytes = frames := by
  unfold runDecode at h
  cases hrun : decodeSet ⟨bytes, { budget := limits.budget bytes.length, decoded := 0 }⟩ with
  | error e t =>
      rw [hrun] at h
      cases h
  | ok found t =>
      rw [hrun] at h
      cases h
      obtain ⟨n, u, hremaining, hrest⟩ := bind_eq_ok.mp hrun
      cases hremaining
      obtain ⟨vec, v, hrounds, hpure⟩ := bind_eq_ok.mp hrest
      cases hpure
      obtain ⟨batches, frames, tail, hitems, rfl, htail, hall, _⟩ := decodeSetRounds_ok _ hrounds
      rw [show vec.items = batches from hitems]
      refine ⟨frames, tail, rfl, htail, hall, wholeBatches_flatten hall htail _ ?_⟩
      have hle := length_le_flatten hall
      simp only [List.length_append]
      omega

/-- A decoded set reproduces its bytes exactly when none of its plain batches
spells a varint in more bytes than it needs. -/
theorem decodeSet_reencodes_iff {limits : Limits} {bytes left : Bytes} {batches : List RecordBatch}
    (h : runDecode limits decodeSet bytes = .ok (batches, left)) :
    Reencodes batches bytes ↔ ShortestSpelled bytes := by
  obtain ⟨frames, tail, rfl, htail, hall, hframes⟩ := decodeSet_frames h
  rw [ShortestSpelled, hframes]
  refine ⟨?_, ?_⟩
  · rintro ⟨out, hencode, hlead, _⟩
    obtain ⟨rfl, _⟩ := encodeSet_ok_iff.mp hencode
    exact shortest_of_prefix hall hlead
  · intro hshort
    have hsame := flatMap_of_shortest hall hshort
    exact ⟨frames.flatten, encodeSet_ok_iff.mpr ⟨by rw [hsame]; rfl, fits_of_frames hall⟩,
      List.prefix_append _ _, by rwa [List.drop_left]⟩

end Set

section Overlong

/-- One record with a null key, a null value and a timestamp delta of zero. -/
def bareRecord : RecordBatch :=
  { baseOffset := 0, partitionLeaderEpoch := 0, attributes := 0, lastOffsetDelta := 0
    baseTimestamp := 0, maxTimestamp := 0, producerId := -1, producerEpoch := -1
    baseSequence := -1, records := .plain [Record.minimal] }

/-- The same batch, its timestamp delta spelled in two bytes. -/
def overlongBody : Bytes := bareRecord.fixedFields 1 ++ [14, 0, 0x80, 0, 0, 1, 1, 0]

def overlongSet : Bytes :=
  putI64 0 ++ (putI32 57 ++ (putI32 0 ++ (putI8 magic ++ (putU32 (crc32c overlongBody) ++
    overlongBody))))

theorem overlongSet_reads : runDecode .default decodeSet overlongSet = .ok ([bareRecord], []) := by
  have hread : (runDecode .default decodeSet overlongSet).toOption = some ([bareRecord], []) := by
    decide +kernel
  cases hrun : runDecode .default decodeSet overlongSet with
  | error e =>
      rw [hrun] at hread
      cases hread
  | ok read =>
      rw [hrun] at hread
      cases hread
      rfl

/-- The batch of the shortest spelling twice, and the beginning of a third. -/
def shortestSet : Bytes := bareRecord.bytes ++ (bareRecord.bytes ++ bareRecord.bytes.take 20)

theorem shortestSet_reads :
    runDecode .default decodeSet shortestSet = .ok ([bareRecord, bareRecord], []) := by
  have hread : (runDecode .default decodeSet shortestSet).toOption =
      some ([bareRecord, bareRecord], []) := by
    decide +kernel
  cases hrun : runDecode .default decodeSet shortestSet with
  | error e =>
      rw [hrun] at hread
      cases hread
  | ok read =>
      rw [hrun] at hread
      cases hread
      rfl

/-- One set spells its varints shortest, the other does not. -/
theorem decodeSet_reencodes_iff_spelled :
    (Reencodes [bareRecord, bareRecord] shortestSet ∧ ShortestSpelled shortestSet) ∧
      (Reencodes [bareRecord] overlongSet ↔ ShortestSpelled overlongSet) := by
  have hshortest : ShortestSpelled shortestSet := by
    unfold ShortestSpelled
    decide +kernel
  exact ⟨⟨(decodeSet_reencodes_iff shortestSet_reads).mpr hshortest, hshortest⟩,
    decodeSet_reencodes_iff overlongSet_reads⟩

/-- The crc is valid, the set decodes, and other bytes come back. -/
theorem overlongSet_rewritten :
    ¬ ∀ (bytes left : Bytes) (batches : List RecordBatch),
      runDecode .default decodeSet bytes = .ok (batches, left) → Reencodes batches bytes := by
  intro h
  obtain ⟨out, hencode, hlead, _⟩ := h overlongSet [] [bareRecord] overlongSet_reads
  have hother : ¬ (encodeSet [bareRecord] []).2 <+: overlongSet := by decide +kernel
  rw [hencode] at hother
  exact hother hlead

end Overlong

end Odradek.Protocol
