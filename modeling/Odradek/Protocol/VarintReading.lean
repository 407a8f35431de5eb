import Odradek.Protocol.Reencoding

/-!
What the varint reader does with any bytes. It reads up to the first byte whose
continuation bit is clear, if that is one of the first ten and the groups so
far sum to a `u64`; anything else is an error.
-/

namespace Odradek.Protocol

open Library Library.Decoder

def EndsVarint (b : UInt8) : Prop := b.toNat < 128

instance (b : UInt8) : Decidable (EndsVarint b) := inferInstanceAs (Decidable (b.toNat < 128))

/-- Up to the first byte that ends a varint. -/
def varintFront : Bytes → Bytes
  | [] => []
  | b :: rest => if EndsVarint b then [b] else b :: varintFront rest

/-- Groups of seven bits, the lowest first. -/
def base128 : Bytes → Nat
  | [] => 0
  | b :: rest => b.toNat % 128 + 128 * base128 rest

/-- A byte among the first `rounds` ends a varint. -/
def EndsWithin (rounds : Nat) (bytes : Bytes) : Prop := ∃ b ∈ bytes.take rounds, EndsVarint b

theorem endsWithin_cons {rounds : Nat} {b : UInt8} {rest : Bytes} (h : ¬ EndsVarint b) :
    EndsWithin (rounds + 1) (b :: rest) ↔ EndsWithin rounds rest := by
  simp only [EndsWithin, List.take_succ_cons, List.mem_cons]
  refine ⟨?_, fun ⟨c, hc, hend⟩ => ⟨c, .inr hc, hend⟩⟩
  rintro ⟨c, rfl | hc, hend⟩
  · exact absurd hend h
  · exact ⟨c, hc, hend⟩

private theorem byte_tests : ∀ b : Fin 256,
    (b.val &&& 0x80 = 0 ↔ b.val < 128) ∧ b.val &&& 0x7f = b.val % 128 ∧
      (b.val &&& 0xfe = 0 ↔ b.val < 2) := by
  decide +kernel

/-- The loop with `low` read so far below `shift`. -/
def Readable (rounds shift low : Nat) (bytes : Bytes) : Prop :=
  EndsWithin rounds bytes ∧ low + base128 (varintFront bytes) * 2 ^ shift < 2 ^ 64

/-- The last group fits what is left of the word. -/
theorem last_fits {shift low byte : Nat} (hlow : low < 2 ^ shift) (hbyte : byte < 128)
    (hshift : shift ≤ 56 ∨ shift = 63) :
    low + byte * 2 ^ shift < 2 ^ 64 ↔ ¬ (shift = 63 ∧ 2 ≤ byte) := by
  obtain hshift | rfl := hshift
  · have hpow : 2 ^ shift ≤ 2 ^ 56 := Nat.pow_le_pow_right (by omega) hshift
    have hmul : byte * 2 ^ shift ≤ 127 * 2 ^ shift := Nat.mul_le_mul_right _ (by omega)
    refine ⟨fun _ h => by omega, fun _ => by omega⟩
  · refine ⟨fun h ⟨_, htwo⟩ => by omega, fun h => ?_⟩
    have htwo : byte < 2 := Nat.lt_of_not_le fun hle => h ⟨rfl, hle⟩
    omega

/-- The varint loop, by what stands in front. -/
theorem getVarintRounds_spec (rounds shift low : Nat) (bytes : Bytes) (ledger : Ledger)
    (hlow : low < 2 ^ shift) (hshift : shift + 7 * rounds = 70) :
    (Readable rounds shift low bytes →
      getVarintRounds rounds shift low ⟨bytes, ledger⟩ =
        .ok (low + base128 (varintFront bytes) * 2 ^ shift)
          ⟨bytes.drop (varintFront bytes).length, ledger⟩) ∧
    (¬ Readable rounds shift low bytes →
      ∃ e t, getVarintRounds rounds shift low ⟨bytes, ledger⟩ = .error (.error e) t) := by
  induction rounds generalizing shift low bytes with
  | zero =>
      refine ⟨?_, fun _ => ⟨.varintOverflow, _, rfl⟩⟩
      rintro ⟨⟨b, hb, _⟩, _⟩
      simp at hb
  | succ rounds ih =>
      cases bytes with
      | nil =>
          refine ⟨?_, fun _ => ⟨.truncated 1, _, rfl⟩⟩
          rintro ⟨⟨b, hb, _⟩, _⟩
          simp at hb
      | cons b rest =>
          obtain ⟨hclear, hgroup, htwo⟩ := byte_tests ⟨b.toNat, b.toNat_lt⟩
          simp only at hclear hgroup htwo
          rw [getVarintRounds, bind_apply, getByte_cons]
          simp only [hgroup, or_shifted hlow]
          by_cases hend : EndsVarint b
          · -- The last group.
            have hlast : b.toNat % 128 = b.toNat := Nat.mod_eq_of_lt hend
            have hwithin : EndsWithin (rounds + 1) (b :: rest) :=
              ⟨b, by simp, hend⟩
            have hfront : varintFront (b :: rest) = [b] := if_pos hend
            have hsum : base128 [b] = b.toNat := by
              rw [base128, base128, Nat.mul_zero, Nat.add_zero, hlast]
            have hread : Readable (rounds + 1) shift low (b :: rest) ↔
                ¬ (shift = 63 ∧ b.toNat &&& 0xfe ≠ 0) := by
              rw [Readable, hfront, hsum, last_fits hlow hend (by omega), Ne, htwo, Nat.not_lt]
              exact ⟨fun h => h.2, fun h => ⟨hwithin, h⟩⟩
            rw [hread, hfront, hsum, if_pos (hclear.mpr hend), hlast]
            refine ⟨fun h => ?_, fun h => ?_⟩
            · rw [if_neg h]
              rfl
            · rw [if_pos (not_not.mp h)]
              exact ⟨_, _, rfl⟩
          · have hfront : varintFront (b :: rest) = b :: varintFront rest := if_neg hend
            have hmore : ¬ (b.toNat &&& 0x80 = 0) := fun h => hend (hclear.mp h)
            have hge : 128 ≤ b.toNat := Nat.le_of_not_lt hend
            rw [if_neg hmore]
            by_cases hten : shift = 63
            · -- The tenth byte may not go on.
              obtain rfl : rounds = 0 := by omega
              rw [if_pos ⟨hten, fun h => by have := htwo.mp h; omega⟩]
              refine ⟨fun h => ?_, fun _ => ⟨_, _, rfl⟩⟩
              obtain ⟨c, hc, _⟩ := (endsWithin_cons hend).mp h.1
              simp at hc
            · have hpow : 2 ^ (shift + 7) = 128 * 2 ^ shift := by rw [Nat.pow_add, Nat.mul_comm]
              have hmul : b.toNat % 128 * 2 ^ shift ≤ 127 * 2 ^ shift :=
                Nat.mul_le_mul_right _ (by omega)
              have hsum : low + base128 (b :: varintFront rest) * 2 ^ shift =
                  low + b.toNat % 128 * 2 ^ shift +
                    base128 (varintFront rest) * 2 ^ (shift + 7) := by
                rw [base128, hpow, Nat.add_mul, Nat.add_assoc, Nat.mul_comm 128, Nat.mul_assoc]
              have hread : Readable (rounds + 1) shift low (b :: rest) ↔
                  Readable rounds (shift + 7) (low + b.toNat % 128 * 2 ^ shift) rest := by
                rw [Readable, Readable, endsWithin_cons hend, hfront, hsum]
              rw [if_neg (fun h => hten h.1), if_neg (by omega), hread, hfront, hsum]
              exact ih (shift + 7) _ rest (by omega) (by omega)

/-- The reader succeeds on just the spellings of a `u64`. -/
theorem getUnsignedVarint_spec (bytes : Bytes) (ledger : Ledger) :
    (EndsWithin 10 bytes ∧ base128 (varintFront bytes) < 2 ^ 64 →
      getUnsignedVarint ⟨bytes, ledger⟩ = .ok (base128 (varintFront bytes))
        ⟨bytes.drop (varintFront bytes).length, ledger⟩) ∧
    (¬ (EndsWithin 10 bytes ∧ base128 (varintFront bytes) < 2 ^ 64) →
      ∃ e t, getUnsignedVarint ⟨bytes, ledger⟩ = .error (.error e) t) := by
  have h := getVarintRounds_spec 10 0 0 bytes ledger (by decide) (by decide)
  simp only [Readable, Nat.zero_add, Nat.pow_zero, Nat.mul_one] at h
  exact h

/-- `used` is one varint and no more. -/
structure Spells (used : Bytes) (value : Nat) : Prop where
  ends : EndsWithin 10 used
  front : varintFront used = used
  sum : base128 used = value

theorem varintFront_append (bytes : Bytes) :
    varintFront bytes ++ bytes.drop (varintFront bytes).length = bytes := by
  induction bytes with
  | nil => rfl
  | cons b rest ih =>
      unfold varintFront
      split
      · rfl
      · simp only [List.cons_append, List.length_cons, List.drop_succ_cons, ih]

theorem varintFront_front (bytes : Bytes) :
    varintFront (varintFront bytes) = varintFront bytes := by
  induction bytes with
  | nil => rfl
  | cons b rest ih =>
      by_cases hend : EndsVarint b
      · simp only [varintFront, if_pos hend]
      · simp only [varintFront, if_neg hend, ih]

theorem endsWithin_front {rounds : Nat} {bytes : Bytes} (h : EndsWithin rounds bytes) :
    EndsWithin rounds (varintFront bytes) := by
  induction bytes generalizing rounds with
  | nil => exact h
  | cons b rest ih =>
      cases rounds with
      | zero =>
          obtain ⟨_, hmem, _⟩ := h
          cases hmem
      | succ rounds =>
          by_cases hend : EndsVarint b
          · rw [varintFront, if_pos hend]
            exact ⟨b, List.mem_cons_self, hend⟩
          · rw [varintFront, if_neg hend, endsWithin_cons hend]
            exact ih ((endsWithin_cons hend).mp h)

/-- A varint that was read was spelled by the bytes taken. -/
theorem getUnsignedVarint_ok {s t : Reader Ledger} {value : Nat}
    (h : getUnsignedVarint s = .ok value t) :
    ∃ used, s.bytes = used ++ t.bytes ∧ t.state = s.state ∧ Spells used value := by
  obtain ⟨hok, herr⟩ := getUnsignedVarint_spec s.bytes s.state
  by_cases hread : EndsWithin 10 s.bytes ∧ base128 (varintFront s.bytes) < 2 ^ 64
  · have h' := (hok hread).symm.trans h
    cases h'
    exact ⟨varintFront s.bytes, (varintFront_append s.bytes).symm, rfl, endsWithin_front hread.1,
      varintFront_front s.bytes, rfl⟩
  · obtain ⟨e, u, he⟩ := herr hread
    have h' := he.symm.trans h
    cases h'

theorem Spells.length_pos {used : Bytes} {value : Nat} (h : Spells used value) :
    0 < used.length := by
  obtain ⟨b, hmem, _⟩ := h.ends
  exact List.length_pos_of_mem (List.mem_of_mem_take hmem)

theorem varintFront_of_ends {rounds : Nat} {used : Bytes} (h : EndsWithin rounds used)
    (suffix : Bytes) : varintFront (used ++ suffix) = varintFront used := by
  induction used generalizing rounds with
  | nil =>
      obtain ⟨b, hmem, _⟩ := h
      rw [List.take_nil] at hmem
      cases hmem
  | cons b rest ih =>
      cases rounds with
      | zero =>
          obtain ⟨_, hmem, _⟩ := h
          cases hmem
      | succ rounds =>
          by_cases hend : EndsVarint b
          · simp only [List.cons_append, varintFront, if_pos hend]
          · simp only [List.cons_append, varintFront, if_neg hend,
              ih ((endsWithin_cons hend).mp h)]

/-- Every spelling of a `u64` is read, whatever follows. -/
theorem Spells.reads {used : Bytes} {value : Nat} (h : Spells used value) (hfits : value < 2 ^ 64) :
    Reads getUnsignedVarint used value := by
  intro suffix ledger
  have hfront : varintFront (used ++ suffix) = used := by
    rw [varintFront_of_ends h.ends, h.front]
  have hends : EndsWithin 10 (used ++ suffix) := by
    obtain ⟨b, hmem, hend⟩ := h.ends
    refine ⟨b, ?_, hend⟩
    rw [List.take_append]
    exact List.mem_append_left _ hmem
  have hread := (getUnsignedVarint_spec (used ++ suffix) ledger).1
    ⟨hends, by rw [hfront, h.sum]; exact hfits⟩
  rw [hfront, h.sum, List.drop_left] at hread
  refine ⟨fun ledger' hspend => ?_, fun e hspend => nomatch hspend⟩
  cases hspend
  exact hread

/-- Varints are read back whatever follows and are as long as announced, and
the reader takes every spelling of a `u64` and nothing else. -/
theorem varints_codec :
    (∀ (value : UInt64) (suffix : Bytes) (ledger : Ledger),
      getUnsignedVarint ⟨putUnsignedVarint value.toNat ++ suffix, ledger⟩ =
        .ok value.toNat ⟨suffix, ledger⟩ ∧
      unsignedVarintLen value = (putUnsignedVarint value.toNat).length) ∧
    (∀ (value : Int64) (suffix : Bytes) (ledger : Ledger),
      getVarint ⟨putVarint value ++ suffix, ledger⟩ = .ok value ⟨suffix, ledger⟩ ∧
      varintLen value = (putVarint value).length) ∧
    ∀ (bytes : Bytes) (ledger : Ledger),
      (EndsWithin 10 bytes ∧ base128 (varintFront bytes) < 2 ^ 64 →
        getUnsignedVarint ⟨bytes, ledger⟩ = .ok (base128 (varintFront bytes))
          ⟨bytes.drop (varintFront bytes).length, ledger⟩) ∧
      (¬ (EndsWithin 10 bytes ∧ base128 (varintFront bytes) < 2 ^ 64) →
        ∃ e t, getUnsignedVarint ⟨bytes, ledger⟩ = .error (.error e) t) := by
  refine ⟨fun value suffix ledger => ⟨?_, (length_putUnsignedVarint value).symm⟩,
    fun value suffix ledger => ⟨?_, (length_putVarint value).symm⟩, getUnsignedVarint_spec⟩
  · exact (getUnsignedVarint_reads value.toNat_lt suffix ledger).1 ledger rfl
  · exact (getVarint_reads value suffix ledger).1 ledger rfl

end Odradek.Protocol
