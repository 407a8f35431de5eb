import Odradek.Library.Text

/-!
The proleptic Gregorian calendar: dates that exist, the day after one, and the
number of a day counted from 1 January 1970. Months and years are counted by
their lengths; the whole repeats after 400 years. A date is written without
separators, its last four digits the month and the day.
-/

namespace Library

namespace Gregorian

def IsLeap (year : Int) : Prop := year % 4 = 0 ∧ (year % 100 ≠ 0 ∨ year % 400 = 0)

instance (year : Int) : Decidable (IsLeap year) :=
  inferInstanceAs (Decidable (year % 4 = 0 ∧ (year % 100 ≠ 0 ∨ year % 400 = 0)))

def daysInMonth (year : Int) : Nat → Nat
  | 2 => if IsLeap year then 29 else 28
  | 4 | 6 | 9 | 11 => 30
  | _ => 31

def daysInYear (year : Int) : Nat := if IsLeap year then 366 else 365

def daysBeforeYear (year : Int) : Int :=
  365 * (year - 1) + (year - 1) / 4 - (year - 1) / 100 + (year - 1) / 400

def daysBeforeMonth (year : Int) : Nat → Nat
  | 0 | 1 => 0
  | month + 2 => daysBeforeMonth year (month + 1) + daysInMonth year (month + 1)

/-- A date that exists. -/
@[ext] structure Date where
  year : Int
  month : Nat
  day : Nat
  month_range : 1 ≤ month ∧ month ≤ 12
  day_range : 1 ≤ day ∧ day ≤ daysInMonth year month
  deriving DecidableEq

theorem daysInMonth_range (year : Int) (month : Nat) :
    28 ≤ daysInMonth year month ∧ daysInMonth year month ≤ 31 := by
  unfold daysInMonth
  split
  · split <;> omega
  all_goals omega

namespace Date

def next (date : Date) : Date :=
  if h : date.day < daysInMonth date.year date.month then
    { date with day := date.day + 1, day_range := ⟨by omega, h⟩ }
  else if h : date.month < 12 then
    { year := date.year, month := date.month + 1, day := 1, month_range := ⟨by omega, h⟩
      day_range := ⟨Nat.le_refl 1, by have := daysInMonth_range date.year (date.month + 1); omega⟩ }
  else
    { year := date.year + 1, month := 1, day := 1, month_range := by omega
      day_range := by have := daysInMonth_range (date.year + 1) 1; omega }

/-- Days since 1 January 1970. -/
def number (date : Date) : Int :=
  daysBeforeYear date.year + daysBeforeMonth date.year date.month + date.day - 1 - 719162

end Date

theorem daysBeforeYear_succ (year : Int) :
    daysBeforeYear (year + 1) = daysBeforeYear year + daysInYear year := by
  by_cases hleap : IsLeap year
  · rw [daysInYear, if_pos hleap]
    unfold IsLeap at hleap
    unfold daysBeforeYear
    omega
  · rw [daysInYear, if_neg hleap]
    unfold IsLeap at hleap
    unfold daysBeforeYear
    omega

theorem daysBeforeYear_mono {a b : Int} (h : a ≤ b) : daysBeforeYear a ≤ daysBeforeYear b := by
  obtain ⟨n, rfl⟩ := Int.le.dest h
  induction n with
  | zero => exact Int.le_of_eq (by rw [Int.ofNat_zero, Int.add_zero])
  | succ n ih =>
      have hsucc := daysBeforeYear_succ (a + n)
      have hstep := ih (by omega)
      rw [show a + ((n + 1 : Nat) : Int) = a + n + 1 by omega]
      omega

/-- Four hundred years are 146,097 days. -/
theorem daysBeforeYear_era (year era : Int) :
    daysBeforeYear (year + era * 400) = daysBeforeYear year + era * 146097 := by
  unfold daysBeforeYear
  omega

theorem daysBeforeMonth_succ (year : Int) {month : Nat} (h : 1 ≤ month) :
    daysBeforeMonth year (month + 1) = daysBeforeMonth year month + daysInMonth year month := by
  obtain ⟨n, rfl⟩ := Nat.exists_eq_add_of_le' h
  rfl

theorem daysBeforeMonth_mono (year : Int) {a b : Nat} (ha : 1 ≤ a) (h : a ≤ b) :
    daysBeforeMonth year a ≤ daysBeforeMonth year b := by
  obtain ⟨n, rfl⟩ := Nat.exists_eq_add_of_le h
  induction n with
  | zero => exact Nat.le_refl _
  | succ n ih =>
      have hmonth : 1 ≤ a + n := by omega
      have hsucc := daysBeforeMonth_succ year hmonth
      have hstep := ih (by omega)
      rw [← Nat.add_assoc]
      omega

/-- Twelve months are a year. -/
theorem daysBeforeMonth_thirteen (year : Int) : daysBeforeMonth year 13 = daysInYear year := by
  simp only [daysBeforeMonth, daysInMonth, daysInYear]
  split <;> omega

namespace Date

variable {a b : Date}

/-- Days are numbered one after the other. -/
theorem number_next (date : Date) : date.next.number = date.number + 1 := by
  have hmonth := date.month_range
  have hday := date.day_range
  unfold next
  split
  · unfold number
    simp only
    omega
  · split
    · have hsucc := daysBeforeMonth_succ date.year hmonth.1
      unfold number
      simp only
      omega
    · have hyear := daysBeforeYear_succ date.year
      have htwelve : date.month = 12 := by omega
      have hsucc := daysBeforeMonth_succ date.year hmonth.1
      rw [htwelve, daysBeforeMonth_thirteen] at hsucc
      have hfirst : daysBeforeMonth (date.year + 1) 1 = 0 := rfl
      have hlast : daysBeforeMonth date.year 12 + date.day = daysInYear date.year := by
        have hle := hday.2
        rw [htwelve] at hle
        have hge : daysInMonth date.year 12 ≤ date.day := htwelve ▸ Nat.not_lt.mp ‹_›
        omega
      unfold number
      rw [htwelve, hfirst, hyear, ← hlast]
      simp only
      omega

theorem number_lt_of_year_lt (h : a.year < b.year) : a.number < b.number := by
  have hyear := daysBeforeYear_succ a.year
  have hmono : daysBeforeYear (a.year + 1) ≤ daysBeforeYear b.year := daysBeforeYear_mono h
  have hmonth := daysBeforeMonth_mono a.year (b := 13) (a := a.month + 1) (by omega)
    (by have := a.month_range; omega)
  rw [daysBeforeMonth_thirteen, daysBeforeMonth_succ a.year a.month_range.1] at hmonth
  have ha := a.day_range
  have hb := b.day_range
  unfold number
  omega

theorem number_lt_of_month_lt (hyear : a.year = b.year) (h : a.month < b.month) :
    a.number < b.number := by
  have hmonth := daysBeforeMonth_mono a.year (a := a.month + 1) (b := b.month) (by omega) h
  rw [daysBeforeMonth_succ a.year a.month_range.1] at hmonth
  have ha := a.day_range
  have hb := b.day_range
  unfold number
  rw [← hyear]
  omega

/-- No two dates have the same number. -/
theorem number_injective (h : a.number = b.number) : a = b := by
  have hyear : a.year = b.year := by
    rcases Int.lt_trichotomy a.year b.year with hlt | heq | hlt
    · exact absurd (number_lt_of_year_lt hlt) (by omega)
    · exact heq
    · exact absurd (number_lt_of_year_lt hlt) (by omega)
  have hmonth : a.month = b.month := by
    rcases Nat.lt_trichotomy a.month b.month with hlt | heq | hlt
    · exact absurd (number_lt_of_month_lt hyear hlt) (by omega)
    · exact heq
    · exact absurd (number_lt_of_month_lt hyear.symm hlt) (by omega)
  refine Date.ext hyear hmonth ?_
  unfold number at h
  rw [hyear, hmonth] at h
  omega

/-- `YYYYMMDD`, with as many digits of the year as it has. -/
def basic (date : Date) : Text :=
  Text.printPadded 4 date.year ++ Text.printPadded 2 date.month ++ Text.printPadded 2 date.day

def lastTwo (text : Text) : Text × Text :=
  (text.take (text.length - 2), text.drop (text.length - 2))

def readBasic (text : Text) : Option (Nat × Nat × Nat) := do
  let (rest, day) := lastTwo text
  let (year, month) := lastTwo rest
  some (← Text.readDigits year, ← Text.readDigits month, ← Text.readDigits day)

theorem lastTwo_append (text : Text) {n : Nat} (h : n < 100) :
    lastTwo (text ++ Text.printPadded 2 n) = (text, Text.printPadded 2 n) := by
  have hlength : (text ++ Text.printPadded 2 n).length - 2 = text.length := by
    rw [List.length_append, Text.length_printPadded (by decide) h, Nat.add_sub_cancel]
  rw [lastTwo, hlength, List.take_left, List.drop_left]

theorem readBasic_basic {date : Date} {year : Nat} (hyear : date.year = year) :
    readBasic date.basic = some (year, date.month, date.day) := by
  have hmonth := date.month_range
  have hday := date.day_range
  have hlength := daysInMonth_range date.year date.month
  rw [readBasic, basic, lastTwo_append _ (by omega)]
  simp only
  rw [lastTwo_append _ (by omega), hyear, Text.readDigits_printPadded, Text.readDigits_printPadded,
    Text.readDigits_printPadded]
  rfl

/-- The epoch is day 0. -/
example : (⟨1970, 1, 1, by decide, by decide⟩ : Date).number = 0 := by decide

end Date

end Gregorian

end Library
