import Mathlib.Init

/-!
A reflected cyclic redundancy check of any width and polynomial, one message
bit at a time. The shift register is linear over exclusive or, so up to a
register of message bits may be added at once before the register is advanced,
and an advance splits at any bit.
-/

namespace Library.ReflectedCrc

variable {w : Nat} (poly : BitVec w)

/-- The register moves down one bit; what falls out decides on the polynomial. -/
def step (x : BitVec w) : BitVec w := if x.getLsbD 0 then (x >>> 1) ^^^ poly else x >>> 1

def steps : Nat → BitVec w → BitVec w
  | 0, x => x
  | n + 1, x => steps n (step poly x)

def feedBit (crc : BitVec w) (bit : Bool) : BitVec w :=
  if crc.getLsbD 0 ^^ bit then (crc >>> 1) ^^^ poly else crc >>> 1

def feed (crc : BitVec w) (bits : List Bool) : BitVec w := bits.foldl (feedBit poly) crc

/-- Message bits side by side in a register, the first one lowest. -/
def word (w : Nat) (bits : List Bool) : BitVec w := (BitVec.ofBoolListLE bits).setWidth w

variable {poly}

theorem step_xor (x y : BitVec w) : step poly (x ^^^ y) = step poly x ^^^ step poly y := by
  unfold step
  rw [BitVec.getLsbD_xor, BitVec.ushiftRight_xor_distrib]
  cases hx : x.getLsbD 0 <;> cases hy : y.getLsbD 0 <;>
    simp only [Bool.xor_false, Bool.xor_true, Bool.not_true, Bool.not_false, Bool.false_eq_true,
      if_true, if_false]
  · rw [BitVec.xor_assoc]
  · rw [BitVec.xor_assoc, BitVec.xor_assoc, BitVec.xor_comm poly]
  · rw [BitVec.xor_comm (y >>> 1), BitVec.xor_assoc, ← BitVec.xor_assoc poly, BitVec.xor_self,
      BitVec.zero_xor]

theorem steps_xor (n : Nat) (x y : BitVec w) :
    steps poly n (x ^^^ y) = steps poly n x ^^^ steps poly n y := by
  induction n generalizing x y with
  | zero => rfl
  | succ n ih => rw [steps, step_xor, ih, steps, steps]

theorem steps_add (m n : Nat) (x : BitVec w) :
    steps poly (m + n) x = steps poly n (steps poly m x) := by
  induction m generalizing x with
  | zero => rw [Nat.zero_add, steps]
  | succ m ih => rw [Nat.succ_add, steps, ih, steps]

/-- Nothing falls out of clear low bits. -/
theorem steps_clear (n : Nat) (x : BitVec w) (h : ∀ i < n, x.getLsbD i = false) :
    steps poly n x = x >>> n := by
  induction n generalizing x with
  | zero => rw [steps, BitVec.ushiftRight_zero]
  | succ n ih =>
      have hstep : step poly x = x >>> 1 := if_neg (by simp [h 0 (Nat.succ_pos n)])
      rw [steps, hstep, ih, Nat.add_comm, BitVec.shiftRight_add]
      intro i hi
      rw [BitVec.getLsbD_ushiftRight]
      exact h (1 + i) (by omega)

theorem low_xor_high (n : Nat) (x : BitVec w) :
    x = (x ^^^ (x >>> n) <<< n) ^^^ (x >>> n) <<< n := by
  rw [BitVec.xor_assoc, BitVec.xor_self, BitVec.xor_zero]

/-- An advance splits at bit `m`: the bits below it fall out, the rest moves down. -/
theorem steps_split (m n : Nat) (x low : BitVec w) (h : x ^^^ (x >>> m) <<< m = low) :
    steps poly (m + n) x = steps poly (m + n) low ^^^ steps poly n (x >>> m) := by
  have hhigh : steps poly m ((x >>> m) <<< m) = x >>> m := by
    rw [steps_clear m _ fun i hi => by rw [BitVec.getLsbD_shiftLeft]; simp [hi]]
    apply BitVec.eq_of_getLsbD_eq
    intro i hi
    rw [BitVec.getLsbD_ushiftRight, BitVec.getLsbD_shiftLeft, BitVec.getLsbD_ushiftRight]
    by_cases hlt : m + i < w
    · simp [hlt]
    · simp [hlt, BitVec.getLsbD_of_ge x (m + i) (by omega)]
  conv => lhs; rw [low_xor_high m x, h]
  rw [steps_xor, steps_add m n ((x >>> m) <<< m), hhigh]

theorem word_getLsbD (bits : List Bool) (i : Nat) :
    (word w bits).getLsbD i = (decide (i < w) && bits[i]?.getD false) := by
  rw [word, BitVec.getLsbD_setWidth, BitVec.getLsbD_ofBoolListLE, List.getD_eq_getElem?_getD]

theorem word_nil : word w [] = 0#w := by
  apply BitVec.eq_of_getLsbD_eq
  intro i hi
  rw [word_getLsbD]
  simp

theorem word_append (bits more : List Bool) :
    word w (bits ++ more) = word w bits ^^^ word w more <<< bits.length := by
  apply BitVec.eq_of_getLsbD_eq
  intro i hi
  rw [BitVec.getLsbD_xor, BitVec.getLsbD_shiftLeft, word_getLsbD, word_getLsbD, word_getLsbD]
  by_cases h : i < bits.length
  · simp [h, hi, List.getElem?_append_left h]
  · have hsub : i - bits.length < w := by omega
    simp [h, hi, hsub, List.getElem?_append_right (Nat.le_of_not_lt h)]

theorem feedBit_eq (crc : BitVec w) (bit : Bool) :
    feedBit poly crc bit = step poly (crc ^^^ word w [bit]) := by
  have hshift : word w [bit] >>> 1 = 0#w := by
    apply BitVec.eq_of_getLsbD_eq
    intro i hi
    rw [BitVec.getLsbD_ushiftRight, word_getLsbD]
    simp [Nat.add_comm 1 i]
  unfold feedBit step
  rw [BitVec.ushiftRight_xor_distrib, hshift, BitVec.xor_zero, BitVec.getLsbD_xor, word_getLsbD]
  by_cases hw : 0 < w
  · simp [hw]
  · obtain rfl : w = 0 := by omega
    exact Subsingleton.elim _ _

/-- A register of message bits may be added before it is advanced over them. -/
theorem feed_eq (bits : List Bool) (crc : BitVec w) (h : bits.length ≤ w) :
    feed poly crc bits = steps poly bits.length (crc ^^^ word w bits) := by
  induction bits generalizing crc with
  | nil => simp [feed, steps, word_nil]
  | cons bit bits ih =>
      have hlow : ∀ i < 1, (word w bits <<< 1).getLsbD i = false := by
        intro i hi
        rw [BitVec.getLsbD_shiftLeft]
        simp [hi]
      have hdown : step poly (word w bits <<< 1) = word w bits := by
        have hclear : steps poly 1 _ = _ := steps_clear 1 _ hlow
        rw [steps, steps] at hclear
        rw [hclear]
        apply BitVec.eq_of_getLsbD_eq
        intro i hi
        rw [BitVec.getLsbD_ushiftRight, BitVec.getLsbD_shiftLeft, word_getLsbD, word_getLsbD]
        by_cases hlen : i < bits.length
        · have hlt : 1 + i < w := by simp only [List.length_cons] at h; omega
          simp [hlt, hi]
        · simp [List.getElem?_eq_none (Nat.le_of_not_lt hlen)]
      have htail := ih (feedBit poly crc bit) (by simp only [List.length_cons] at h; omega)
      have hword : word w (bit :: bits) = word w [bit] ^^^ word w bits <<< 1 :=
        word_append [bit] bits
      unfold feed at htail ⊢
      rw [List.foldl_cons, htail, List.length_cons, steps, hword, ← BitVec.xor_assoc, step_xor,
        hdown, feedBit_eq]

theorem feed_append (crc : BitVec w) (bits more : List Bool) :
    feed poly crc (bits ++ more) = feed poly (feed poly crc bits) more :=
  List.foldl_append

end Library.ReflectedCrc
