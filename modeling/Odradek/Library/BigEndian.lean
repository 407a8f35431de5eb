import Mathlib.Algebra.Group.Nat.Defs

/-!
Unsigned numbers as a fixed count of bytes, most significant first.
-/

namespace Library

/-- The low `width` bytes of a number. -/
def toBigEndian : (width value : Nat) → List UInt8
  | 0, _ => []
  | width + 1, value => UInt8.ofNat (value / 256 ^ width) :: toBigEndian width value

def ofBigEndian : List UInt8 → Nat
  | [] => 0
  | byte :: rest => byte.toNat * 256 ^ rest.length + ofBigEndian rest

@[simp] theorem length_toBigEndian (width value : Nat) :
    (toBigEndian width value).length = width := by
  induction width with
  | zero => rfl
  | succ width ih => simp [toBigEndian, ih]

theorem ofBigEndian_lt (bytes : List UInt8) : ofBigEndian bytes < 256 ^ bytes.length := by
  induction bytes with
  | nil => simp [ofBigEndian]
  | cons byte rest ih =>
      have hbyte : byte.toNat ≤ 255 := by
        have := byte.toNat_lt
        omega
      have hmul := Nat.mul_le_mul_right (256 ^ rest.length) hbyte
      rw [ofBigEndian, List.length_cons, Nat.pow_succ]
      omega

/-- Reading back what was written keeps the low bytes. -/
theorem ofBigEndian_toBigEndian (width value : Nat) :
    ofBigEndian (toBigEndian width value) = value % 256 ^ width := by
  induction width with
  | zero => simp [toBigEndian, ofBigEndian, Nat.mod_one]
  | succ width ih =>
      have hbyte : (UInt8.ofNat (value / 256 ^ width)).toNat = value / 256 ^ width % 256 :=
        UInt8.toNat_ofNat'
      rw [toBigEndian, ofBigEndian, ih, length_toBigEndian, hbyte, Nat.pow_succ, Nat.mod_mul,
        Nat.mul_comm (256 ^ width)]
      omega

/-- Writing what was read gives the bytes back. -/
theorem toBigEndian_ofBigEndian (bytes : List UInt8) :
    toBigEndian bytes.length (ofBigEndian bytes) = bytes := by
  have high : ∀ (width value extra : Nat),
      toBigEndian width (extra * 256 ^ width + value) = toBigEndian width value := by
    intro width
    induction width with
    | zero => exact fun _ _ => rfl
    | succ width ih =>
        intro value extra
        have hassoc : extra * 256 ^ (width + 1) = extra * 256 * 256 ^ width := by
          rw [Nat.pow_succ, Nat.mul_assoc, Nat.mul_comm (256 ^ width)]
        rw [toBigEndian, toBigEndian, hassoc, ih value (extra * 256)]
        congr 1
        rw [Nat.add_comm, Nat.add_mul_div_right _ _ (Nat.pow_pos (by omega))]
        apply UInt8.toNat_inj.mp
        rw [UInt8.toNat_ofNat', UInt8.toNat_ofNat', Nat.add_mul_mod_self_right]
  induction bytes with
  | nil => rfl
  | cons byte rest ih =>
      rw [List.length_cons, toBigEndian, ofBigEndian, high, ih]
      congr 1
      rw [Nat.add_comm, Nat.add_mul_div_right _ _ (Nat.pow_pos (by omega)),
        Nat.div_eq_of_lt (ofBigEndian_lt rest), Nat.zero_add]
      apply UInt8.toNat_inj.mp
      rw [UInt8.toNat_ofNat']
      exact Nat.mod_eq_of_lt byte.toNat_lt

end Library
