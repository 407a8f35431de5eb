import Odradek.Library.Text

/-!
Base64 with the standard alphabet and canonical padding: three bytes to four
characters, the last group filled up with `=`. Decoding undoes encoding, and an
encoded text holds characters of the alphabet and padding only.
-/

namespace Library.Base64

def digit (n : Nat) : Char :=
  if n < 26 then Char.ofNat (65 + n)
  else if n < 52 then Char.ofNat (71 + n)
  else if n < 62 then Char.ofNat (n - 4)
  else if n = 62 then '+'
  else '/'

def value (c : Char) : Option Nat :=
  if 'A' ≤ c ∧ c ≤ 'Z' then some (c.toNat - 65)
  else if 'a' ≤ c ∧ c ≤ 'z' then some (c.toNat - 71)
  else if '0' ≤ c ∧ c ≤ '9' then some (c.toNat + 4)
  else if c = '+' then some 62
  else if c = '/' then some 63
  else none

def encode : List UInt8 → Text
  | [] => []
  | [a] => [digit (a.toNat / 4), digit (a.toNat % 4 * 16), '=', '=']
  | [a, b] =>
    [digit (a.toNat / 4), digit (a.toNat % 4 * 16 + b.toNat / 16), digit (b.toNat % 16 * 4), '=']
  | a :: b :: c :: bytes =>
    digit (a.toNat / 4) :: digit (a.toNat % 4 * 16 + b.toNat / 16) ::
      digit (b.toNat % 16 * 4 + c.toNat / 64) :: digit (c.toNat % 64) :: encode bytes

/-- Bits a padded group does not need must be zero. -/
def decodeLast (w x y : Char) : Option (List UInt8) := do
  let w ← value w
  let x ← value x
  if y = '=' then
    if x % 16 = 0 then some [UInt8.ofNat (w * 4 + x / 16)] else none
  else
    let y ← value y
    if y % 4 = 0 then some [UInt8.ofNat (w * 4 + x / 16), UInt8.ofNat (x % 16 * 16 + y / 4)]
    else none

def decodeGroup (w x y z : Char) : Option (List UInt8) := do
  let w ← value w
  let x ← value x
  let y ← value y
  let z ← value z
  some [UInt8.ofNat (w * 4 + x / 16), UInt8.ofNat (x % 16 * 16 + y / 4),
    UInt8.ofNat (y % 4 * 64 + z)]

def decode : Text → Option (List UInt8)
  | [] => some []
  | w :: x :: y :: z :: text =>
    if z = '=' ∧ text = [] then decodeLast w x y
    else (decodeGroup w x y z).bind fun bytes => (decode text).map (bytes ++ ·)
  | _ => none

theorem value_digit {n : Nat} (h : n < 64) : value (digit n) = some n :=
  (by decide : ∀ n : Fin 64, value (digit n) = some n.val) ⟨n, h⟩

theorem digit_ne_pad {n : Nat} (h : n < 64) : digit n ≠ '=' :=
  (by decide : ∀ n : Fin 64, digit n ≠ '=') ⟨n, h⟩

theorem digit_ne_comma {n : Nat} (h : n < 64) : digit n ≠ ',' :=
  (by decide : ∀ n : Fin 64, digit n ≠ ',') ⟨n, h⟩

theorem ofNat_eq (a : UInt8) {n : Nat} (h : n = a.toNat) : UInt8.ofNat n = a := by
  rw [h, UInt8.ofNat_toNat]

/-- Decoding undoes encoding. -/
theorem decode_encode (bytes : List UInt8) : decode (encode bytes) = some bytes := by
  induction bytes using encode.induct with
  | case1 => rfl
  | case2 a =>
      have ha := a.toNat_lt
      rw [encode, decode, if_pos ⟨rfl, rfl⟩, decodeLast, value_digit (by omega),
        value_digit (by omega)]
      simp only [Option.bind_eq_bind, Option.bind_some, if_true]
      rw [if_pos (by omega), ofNat_eq a (by omega)]
  | case3 a b =>
      have ha := a.toNat_lt
      have hb := b.toNat_lt
      rw [encode, decode, if_pos ⟨rfl, rfl⟩, decodeLast, value_digit (by omega),
        value_digit (by omega)]
      simp only [Option.bind_eq_bind, Option.bind_some]
      rw [if_neg (digit_ne_pad (by omega)), value_digit (by omega)]
      simp only [Option.bind_some]
      rw [if_pos (by omega), ofNat_eq a (by omega), ofNat_eq b (by omega)]
  | case4 a b c bytes ih =>
      have ha := a.toNat_lt
      have hb := b.toNat_lt
      have hc := c.toNat_lt
      rw [encode, decode, if_neg (fun h => digit_ne_pad (by omega) h.1), decodeGroup,
        value_digit (by omega), value_digit (by omega), value_digit (by omega),
        value_digit (by omega), ih]
      simp only [Option.bind_eq_bind, Option.bind_some, Option.map_some]
      rw [ofNat_eq a (by omega), ofNat_eq b (by omega), ofNat_eq c (by omega)]
      rfl

theorem comma_not_mem_encode (bytes : List UInt8) : ',' ∉ encode bytes := by
  induction bytes using encode.induct with
  | case1 => exact List.not_mem_nil
  | case2 a =>
      have ha := a.toNat_lt
      simp only [encode, List.mem_cons, not_or, List.not_mem_nil, not_false_eq_true, and_true]
      exact ⟨(digit_ne_comma (by omega)).symm, (digit_ne_comma (by omega)).symm, by decide,
        by decide⟩
  | case3 a b =>
      have ha := a.toNat_lt
      have hb := b.toNat_lt
      simp only [encode, List.mem_cons, not_or, List.not_mem_nil, not_false_eq_true, and_true]
      exact ⟨(digit_ne_comma (by omega)).symm, (digit_ne_comma (by omega)).symm,
        (digit_ne_comma (by omega)).symm, by decide⟩
  | case4 a b c bytes ih =>
      have ha := a.toNat_lt
      have hb := b.toNat_lt
      have hc := c.toNat_lt
      simp only [encode, List.mem_cons, not_or]
      exact ⟨(digit_ne_comma (by omega)).symm, (digit_ne_comma (by omega)).symm,
        (digit_ne_comma (by omega)).symm, (digit_ne_comma (by omega)).symm, ih⟩

theorem length_encode (bytes : List UInt8) :
    (encode bytes).length = (bytes.length + 2) / 3 * 4 := by
  induction bytes using encode.induct with
  | case1 => rfl
  | case2 a => simp only [encode, List.length_cons, List.length_nil]
  | case3 a b => simp only [encode, List.length_cons, List.length_nil]
  | case4 a b c bytes ih =>
      simp only [encode, List.length_cons, ih]
      omega

end Library.Base64
