import Mathlib.Algebra.Group.Nat.Defs

/-!
Text as the characters it holds: decimal numbers with an optional sign, the two
parts around a separator, blanks trimmed from both ends, a pattern replaced
everywhere. What is printed reads back, and where two joined texts part is known
from the separators in front of it.
-/

namespace Library

abbrev Text := List Char

namespace Text

def print : Int → Text
  | .ofNat n => Nat.toDigits 10 n
  | .negSucc n => '-' :: Nat.toDigits 10 (n + 1)

/-- At least one decimal digit and nothing else. -/
def readDigits (text : Text) : Option Nat :=
  if text ≠ [] ∧ text.all Char.isDigit then some (Nat.ofDigitChars 10 text 0) else none

def readInt : Text → Option Int
  | '+' :: text => (readDigits text).map Int.ofNat
  | '-' :: text => (readDigits text).map fun n => -Int.ofNat n
  | text => (readDigits text).map Int.ofNat

def readWithin (low high : Int) (text : Text) : Option Int :=
  (readInt text).filter fun n => low ≤ n ∧ n ≤ high

theorem readDigits_toDigits (n : Nat) : readDigits (Nat.toDigits 10 n) = some n := by
  have hdigits : (Nat.toDigits 10 n).all Char.isDigit = true :=
    List.all_eq_true.mpr fun c hc => Nat.isDigit_of_mem_toDigits (by decide) (by decide) hc
  rw [readDigits, if_pos ⟨Nat.toDigits_ne_nil, hdigits⟩,
    Nat.ofDigitChars_toDigits (by decide) (by decide)]

/-- The first character of a number without sign is a digit. -/
theorem readInt_toDigits (n : Nat) : readInt (Nat.toDigits 10 n) = some (Int.ofNat n) := by
  have hread := readDigits_toDigits n
  cases htext : Nat.toDigits 10 n with
  | nil => exact absurd htext Nat.toDigits_ne_nil
  | cons c text =>
      have hdigit : c.isDigit = true :=
        Nat.isDigit_of_mem_toDigits (b := 10) (n := n) (by decide) (by decide)
          (htext ▸ List.mem_cons_self)
      unfold readInt
      split
      · cases ‹_ :: _ = _›
        exact absurd hdigit (by decide)
      · cases ‹_ :: _ = _›
        exact absurd hdigit (by decide)
      · rw [← htext, hread]
        rfl

theorem ofDigitChars_zeros (k : Nat) (text : Text) :
    Nat.ofDigitChars 10 (List.replicate k '0' ++ text) 0 = Nat.ofDigitChars 10 text 0 := by
  induction k with
  | zero => rfl
  | succ k ih => exact ih

theorem readInt_print (n : Int) : readInt (print n) = some n := by
  cases n with
  | ofNat n => exact readInt_toDigits n
  | negSucc n =>
      rw [print, readInt, readDigits_toDigits]
      rfl

theorem readWithin_print {low high n : Int} (hlow : low ≤ n) (hhigh : n ≤ high) :
    readWithin low high (print n) = some n := by
  rw [readWithin, readInt_print, Option.filter_some, if_pos (decide_eq_true ⟨hlow, hhigh⟩)]

theorem readWithin_bounds {low high n : Int} {text : Text}
    (h : readWithin low high text = some n) : low ≤ n ∧ n ≤ high :=
  of_decide_eq_true (Option.filter_eq_some_iff.mp h).2

theorem mem_print {n : Int} {c : Char} (h : c ∈ print n) : c = '-' ∨ c.isDigit = true := by
  cases n with
  | ofNat n => exact .inr (Nat.isDigit_of_mem_toDigits (by decide) (by decide) h)
  | negSucc n =>
      rcases List.mem_cons.mp h with rfl | h
      · exact .inl rfl
      · exact .inr (Nat.isDigit_of_mem_toDigits (by decide) (by decide) h)

theorem print_ne_nil (n : Int) : print n ≠ [] := by
  cases n with
  | ofNat n => exact Nat.toDigits_ne_nil
  | negSucc n => exact List.cons_ne_nil _ _

/-- A number filled up with zeros on the left, behind its sign. -/
def printPadded (width : Nat) : Int → Text
  | .ofNat n => (Nat.toDigits 10 n).leftpad width '0'
  | .negSucc n => '-' :: (Nat.toDigits 10 (n + 1)).leftpad (width - 1) '0'

theorem readDigits_printPadded (width n : Nat) : readDigits (printPadded width n) = some n := by
  have hdigits : ∀ c ∈ (Nat.toDigits 10 n).leftpad width '0', c.isDigit = true := by
    intro c hc
    rcases List.mem_append.mp hc with hc | hc
    · rw [List.eq_of_mem_replicate hc]
      rfl
    · exact Nat.isDigit_of_mem_toDigits (by decide) (by decide) hc
  show readDigits ((Nat.toDigits 10 n).leftpad width '0') = some n
  rw [readDigits, if_pos ⟨List.append_ne_nil_of_right_ne_nil _ Nat.toDigits_ne_nil,
    List.all_eq_true.mpr hdigits⟩]
  exact congrArg some
    ((ofDigitChars_zeros _ _).trans (Nat.ofDigitChars_toDigits (by decide) (by decide)))

theorem length_printPadded {width n : Nat} (hwidth : 0 < width) (h : n < 10 ^ width) :
    (printPadded width n).length = width := by
  show ((Nat.toDigits 10 n).leftpad width '0').length = width
  rw [List.length_leftpad, Nat.max_eq_left]
  exact (Nat.length_toDigits_le_iff (by decide) hwidth).mpr h

/-- `White_Space`. -/
def isBlank (c : Char) : Bool :=
  (9 ≤ c.toNat ∧ c.toNat ≤ 13) || c.toNat = 0x20 || c.toNat = 0x85 || c.toNat = 0xa0 ||
    c.toNat = 0x1680 || (0x2000 ≤ c.toNat ∧ c.toNat ≤ 0x200a) || c.toNat = 0x2028 ||
    c.toNat = 0x2029 || c.toNat = 0x202f || c.toNat = 0x205f || c.toNat = 0x3000

def trim (text : Text) : Text :=
  ((text.dropWhile isBlank).reverse.dropWhile isBlank).reverse

theorem dropWhile_eq_self {text : Text} (h : ∀ c ∈ text, isBlank c = false) :
    text.dropWhile isBlank = text := by
  cases text with
  | nil => rfl
  | cons c text => rw [List.dropWhile_cons_of_neg (by simp [h c List.mem_cons_self])]

theorem trim_eq_self {text : Text} (h : ∀ c ∈ text, isBlank c = false) : trim text = text := by
  rw [trim, dropWhile_eq_self h,
    dropWhile_eq_self fun c hc => h c (List.mem_reverse.mp hc), List.reverse_reverse]

theorem isBlank_of_mem_print {n : Int} {c : Char} (h : c ∈ print n) : isBlank c = false := by
  rcases mem_print h with rfl | hdigit
  · rfl
  · have hrange : 48 ≤ c.toNat ∧ c.toNat ≤ 57 := Char.isDigit_iff_toNat.mp hdigit
    unfold isBlank
    simp
    omega

theorem trim_print (n : Int) : trim (print n) = print n :=
  trim_eq_self fun _ => isBlank_of_mem_print

def splitOnce (sep : Char) : Text → Option (Text × Text)
  | [] => none
  | c :: text =>
    if c = sep then some ([], text)
    else (splitOnce sep text).map fun parts => (c :: parts.1, parts.2)

theorem splitOnce_append {sep : Char} {head : Text} (rest : Text) (h : sep ∉ head) :
    splitOnce sep (head ++ sep :: rest) = some (head, rest) := by
  induction head with
  | nil => rw [List.nil_append, splitOnce, if_pos rfl]
  | cons c head ih =>
      rw [List.mem_cons, not_or] at h
      rw [List.cons_append, splitOnce, if_neg (Ne.symm h.1), ih h.2]
      rfl

theorem splitOnce_eq_some {sep : Char} {text head rest : Text}
    (h : splitOnce sep text = some (head, rest)) : text = head ++ sep :: rest ∧ sep ∉ head := by
  induction text generalizing head with
  | nil => cases h
  | cons c text ih =>
      rw [splitOnce] at h
      split at h
      · cases h
        exact ⟨by rw [‹c = sep›, List.nil_append], List.not_mem_nil⟩
      · obtain ⟨⟨front, tail⟩, hparts, hpair⟩ := Option.map_eq_some_iff.mp h
        cases hpair
        obtain ⟨rfl, hfront⟩ := ih hparts
        exact ⟨rfl, by rw [List.mem_cons, not_or]; exact ⟨Ne.symm ‹_›, hfront⟩⟩

/-- A number without a minus sign, up to `high`. -/
def readNat (high : Nat) : Text → Option Nat
  | '+' :: text => (readDigits text).filter (· ≤ high)
  | text => (readDigits text).filter (· ≤ high)

theorem readNat_toDigits_filter (high n : Nat) :
    readNat high (Nat.toDigits 10 n) = (some n).filter (· ≤ high) := by
  unfold readNat
  split
  · have hplus : '+' ∈ Nat.toDigits 10 n := ‹_ = '+' :: _› ▸ List.mem_cons_self
    exact absurd (Nat.isDigit_of_mem_toDigits (by decide) (by decide) hplus) (by decide)
  · rw [readDigits_toDigits]

theorem readNat_toDigits {high n : Nat} (h : n ≤ high) :
    readNat high (Nat.toDigits 10 n) = some n := by
  rw [readNat_toDigits_filter, Option.filter_some, if_pos (decide_eq_true h)]

theorem eq_of_readNat_toDigits {high n m : Nat}
    (h : readNat high (Nat.toDigits 10 n) = some m) : m = n := by
  rw [readNat_toDigits_filter, Option.filter_eq_some_iff] at h
  exact (Option.some.inj h.1).symm

theorem not_mem_toDigits {c : Char} (h : c.isDigit = false) (n : Nat) :
    c ∉ Nat.toDigits 10 n := fun hmem => by
  rw [Nat.isDigit_of_mem_toDigits (by decide) (by decide) hmem] at h
  cases h

/-- The parts around the last occurrence of a pattern. -/
def rsplitOnce (pattern : Text) : Text → Option (Text × Text)
  | [] => none
  | c :: text =>
    match rsplitOnce pattern text with
    | some (head, tail) => some (c :: head, tail)
    | none =>
      if pattern.isPrefixOf (c :: text) then some ([], (c :: text).drop pattern.length) else none

theorem rsplitOnce_none {sep : Char} {pattern text : Text} (h : sep ∉ text) :
    rsplitOnce (sep :: pattern) text = none := by
  induction text with
  | nil => rfl
  | cons c text ih =>
      rw [List.mem_cons, not_or] at h
      rw [rsplitOnce, ih h.2]
      simp [List.isPrefixOf, h.1]

/-- A pattern that begins with a separator the tail lacks is found before it. -/
theorem rsplitOnce_append {sep : Char} {pattern : Text} (head : Text) {tail : Text}
    (hpattern : sep ∉ pattern) (htail : sep ∉ tail) :
    rsplitOnce (sep :: pattern) (head ++ sep :: (pattern ++ tail)) = some (head, tail) := by
  have hself : rsplitOnce (sep :: pattern) (sep :: (pattern ++ tail)) = some ([], tail) := by
    rw [rsplitOnce, rsplitOnce_none (by simp [hpattern, htail])]
    simp
  induction head with
  | nil => exact hself
  | cons c head ih => rw [List.cons_append, rsplitOnce, ih]

/-- `replace`, with `skip` characters of the last match still to pass. -/
def replaceFrom (pattern filler : Text) (skip : Nat) : Text → Text
  | [] => []
  | c :: text =>
    match skip with
    | skip + 1 => replaceFrom pattern filler skip text
    | 0 =>
      if pattern.isPrefixOf (c :: text) then
        filler ++ replaceFrom pattern filler (pattern.length - 1) text
      else c :: replaceFrom pattern filler 0 text

def replace (pattern filler text : Text) : Text := replaceFrom pattern filler 0 text

theorem replace_cons_of_ne {first c : Char} {pattern filler text : Text} (h : c ≠ first) :
    replace (first :: pattern) filler (c :: text) = c ::
      replace (first :: pattern) filler text := by
  rw [replace, replaceFrom, if_neg (by simp [List.isPrefixOf, Ne.symm h])]
  rfl

theorem replaceFrom_skip (pattern filler : Text) (skipped text : Text) :
    replaceFrom pattern filler skipped.length (skipped ++ text) = replace pattern filler text := by
  induction skipped with
  | nil => rfl
  | cons c skipped ih => rw [List.length_cons, List.cons_append, replaceFrom, ih]

theorem replace_match (first : Char) (pattern filler text : Text) :
    replace (first :: pattern) filler (first :: (pattern ++ text)) =
      filler ++ replace (first :: pattern) filler text := by
  rw [replace, replaceFrom, if_pos (by simp)]
  exact congrArg (filler ++ ·) (replaceFrom_skip (first :: pattern) filler pattern text)

/-- Two joined texts part at the same place when the separators in front say so. -/
theorem append_sep_inj {sep : Char} {a b x y : Text} (h : a ++ sep :: x = b ++ sep :: y)
    (hcount : a.count sep = b.count sep) : a = b ∧ x = y := by
  induction a generalizing b with
  | nil =>
      cases b with
      | nil => exact ⟨rfl, (List.cons.inj h).2⟩
      | cons c b =>
          obtain ⟨rfl, _⟩ := List.cons.inj h
          simp at hcount
  | cons c a ih =>
      cases b with
      | nil =>
          obtain ⟨rfl, _⟩ := List.cons.inj h
          simp at hcount
      | cons d b =>
          obtain ⟨rfl, htail⟩ := List.cons.inj h
          have hrest : a.count sep = b.count sep := by
            simpa [List.count_cons] using hcount
          obtain ⟨rfl, rfl⟩ := ih htail hrest
          exact ⟨rfl, rfl⟩

def utf8 (text : Text) : List UInt8 := text.flatMap String.utf8EncodeChar

theorem utf8_injective {a b : Text} (h : utf8 a = utf8 b) : a = b := by
  refine String.ofList_injective (String.toByteArray_inj.mp ?_)
  rw [String.toByteArray_ofList, String.toByteArray_ofList]
  exact congrArg List.toByteArray h

theorem utf8_append (a b : Text) : utf8 (a ++ b) = utf8 a ++ utf8 b := List.flatMap_append

theorem utf8_cons (c : Char) (text : Text) : utf8 (c :: text) = utf8 [c] ++ utf8 text :=
  utf8_append [c] text

theorem utf8_ne_nil {text : Text} (h : text ≠ []) : utf8 text ≠ [] := fun hnil =>
  h (utf8_injective (b := []) hnil)

/-- A byte below 128 is the character it stands for. -/
theorem toNat_of_mem_utf8EncodeChar {c : Char} {b : UInt8} (h : b ∈ String.utf8EncodeChar c)
    (hascii : b.toNat < 128) : c.toNat = b.toNat := by
  have hval : c.toNat = c.val.toNat := rfl
  have hrange : c.val.toNat < 0x110000 := c.valid.elim (by omega) (by omega)
  unfold String.utf8EncodeChar at h
  simp only at h
  split at h
  · rw [List.mem_singleton] at h
    rw [h, UInt8.toNat_ofNat']
    omega
  · have high : ∀ low n : Nat, b = UInt8.ofNat n → 128 ≤ n → n < 256 → False := by
      rintro low n rfl hlow hhigh
      rw [UInt8.toNat_ofNat'] at hascii
      omega
    split at h
    · simp only [List.mem_cons, List.not_mem_nil, or_false] at h
      rcases h with h | h <;> exact (high 0 _ h (by omega) (by omega)).elim
    · split at h
      · simp only [List.mem_cons, List.not_mem_nil, or_false] at h
        rcases h with h | h | h <;> exact (high 0 _ h (by omega) (by omega)).elim
      · simp only [List.mem_cons, List.not_mem_nil, or_false] at h
        rcases h with h | h | h | h <;> exact (high 0 _ h (by omega) (by omega)).elim

theorem not_mem_utf8 {c : Char} {text : Text} {b : UInt8} (hbyte : c.toNat = b.toNat)
    (hascii : b.toNat < 128) (h : c ∉ text) : b ∉ utf8 text := fun hmem => by
  obtain ⟨d, hd, hb⟩ := List.mem_flatMap.mp hmem
  have hsame : d.toNat = c.toNat := (toNat_of_mem_utf8EncodeChar hb hascii).trans hbyte.symm
  exact h (Char.toNat_inj.mp hsame ▸ hd)

def fromUtf8 (bytes : List UInt8) : Option Text :=
  (String.fromUTF8? ⟨bytes.toArray⟩).map String.toList

theorem utf8_toList (value : String) : utf8 value.toList = value.toUTF8.data.toList := by
  have h := congrArg String.toByteArray (String.ofList_toList (s := value))
  rw [String.toByteArray_ofList] at h
  rw [String.toUTF8_eq_toByteArray, ← h]
  exact (List.toList_data_toByteArray).symm

theorem fromUtf8_utf8 (text : Text) : fromUtf8 (utf8 text) = some text := by
  have hbytes : (⟨(utf8 text).toArray⟩ : ByteArray) = (String.ofList text).toUTF8 := by
    have h := utf8_toList (String.ofList text)
    rw [String.toList_ofList] at h
    rw [h, Array.toArray_toList]
  have hvalid : (String.ofList text).toUTF8.IsValidUTF8 := (String.ofList text).isValidUTF8
  rw [fromUtf8, hbytes, String.fromUTF8?, dif_pos hvalid, Option.map_some]
  exact congrArg some String.toList_ofList

theorem utf8_of_fromUtf8 {bytes : List UInt8} {text : Text} (h : fromUtf8 bytes = some text) :
    utf8 text = bytes := by
  obtain ⟨value, hvalue, rfl⟩ := Option.map_eq_some_iff.mp h
  unfold String.fromUTF8? at hvalue
  split at hvalue
  · cases hvalue
    exact utf8_toList _
  · cases hvalue

section Lossy

/-- May `second` follow this first byte of a longer character? -/
def continues (lead second : UInt8) : Bool :=
  if 0xc2 ≤ lead ∧ lead ≤ 0xdf then 0x80 ≤ second ∧ second ≤ 0xbf
  else if lead = 0xe0 then 0xa0 ≤ second ∧ second ≤ 0xbf
  else if lead = 0xed then 0x80 ≤ second ∧ second ≤ 0x9f
  else if 0xe1 ≤ lead ∧ lead ≤ 0xef then 0x80 ≤ second ∧ second ≤ 0xbf
  else if lead = 0xf0 then 0x90 ≤ second ∧ second ≤ 0xbf
  else if 0xf1 ≤ lead ∧ lead ≤ 0xf3 then 0x80 ≤ second ∧ second ≤ 0xbf
  else if lead = 0xf4 then 0x80 ≤ second ∧ second ≤ 0x8f
  else false

/-- The bytes that one replacement character stands for where no character does:
as many as a character could begin with. -/
def brokenLength : List UInt8 → Nat
  | lead :: second :: rest =>
    if continues lead second then
      if lead ≤ 0xef then 2
      else if (rest.head?.map fun third => decide (0x80 ≤ third ∧ third ≤ 0xbf)) = some true then 3
      else 2
    else 1
  | _ => 1

/-- The first character and the bytes it takes. -/
def lossyChar (bytes : List UInt8) : Char × Nat :=
  match bytes.toByteArray.utf8DecodeChar? 0 with
  | some c => (c, c.utf8Size)
  | none => ('\uFFFD', brokenLength bytes)

def lossyFrom : Nat → List UInt8 → Text
  | 0, _ => []
  | _ + 1, [] => []
  | fuel + 1, b :: bytes =>
    (lossyChar (b :: bytes)).1 :: lossyFrom fuel ((b :: bytes).drop (lossyChar (b :: bytes)).2)

def fromUtf8Lossy (bytes : List UInt8) : Text := lossyFrom bytes.length bytes

theorem lossyChar_utf8 (c : Char) (rest : List UInt8) :
    lossyChar (String.utf8EncodeChar c ++ rest) = (c, c.utf8Size) := by
  have h : (String.utf8EncodeChar c ++ rest).toByteArray.utf8DecodeChar? 0 = some c := by
    rw [List.toByteArray_append]
    exact ByteArray.utf8DecodeChar?_utf8EncodeChar_append
  rw [lossyChar, h]

theorem lossyFrom_utf8 {fuel : Nat} {text : Text} (h : (utf8 text).length ≤ fuel) :
    lossyFrom fuel (utf8 text) = text := by
  induction text generalizing fuel with
  | nil => cases fuel <;> rfl
  | cons c text ih =>
      have hsize := String.length_utf8EncodeChar c
      have hpos := c.utf8Size_pos
      have hsplit : utf8 (c :: text) = String.utf8EncodeChar c ++ utf8 text := List.flatMap_cons
      rw [hsplit, List.length_append] at h
      rw [hsplit]
      cases hbytes : String.utf8EncodeChar c ++ utf8 text with
      | nil =>
          rw [(List.append_eq_nil_iff.mp hbytes).1, List.length_nil] at hsize
          omega
      | cons b bytes =>
          cases fuel with
          | zero => omega
          | succ fuel =>
              rw [lossyFrom, ← hbytes, lossyChar_utf8, ← hsize, List.drop_left, ih (by omega)]

/-- Valid bytes lose nothing. -/
theorem fromUtf8Lossy_utf8 (text : Text) : fromUtf8Lossy (utf8 text) = text :=
  lossyFrom_utf8 (Nat.le_refl _)

example : fromUtf8Lossy [0x61, 0xe2, 0x82, 0x62, 0xff, 0xf0, 0x9f, 0x98] =
    ['a', '\uFFFD', 'b', '\uFFFD', '\uFFFD'] := by decide +kernel

theorem length_utf8_le (text : Text) : (utf8 text).length ≤ 4 * text.length := by
  induction text with
  | nil => exact Nat.zero_le _
  | cons c text ih =>
      have hsize := String.length_utf8EncodeChar c
      have hle := c.utf8Size_le_four
      rw [utf8_cons, List.length_append, List.length_cons]
      simp only [utf8, List.flatMap_cons, List.flatMap_nil, List.append_nil] at ih ⊢
      omega

end Lossy

end Text

end Library
