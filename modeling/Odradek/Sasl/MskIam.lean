import Odradek.Library.Gregorian
import Mathlib.Algebra.Group.Int.Defs

/-!
The dates of `AWS_MSK_IAM` (`msk_iam.rs`). A timestamp is cut into a day and the
seconds of it, and the day is turned into a date by counting eras of 400 years
that begin on 1 March, so that a leap day ends its year.
-/

namespace Odradek.Sasl

open Library Gregorian

section Conversion

def asU32 (n : Int) : Nat := (n % 2 ^ 32).toNat

/-- Days since the epoch to a year, a month and a day. -/
def civilFromDays (z : Int) : Int × Nat × Nat :=
  let z := z + 719468
  let era := z / 146097
  let doe := z % 146097
  let yoe := (doe - doe.tdiv 1460 + doe.tdiv 36524 - doe.tdiv 146096).tdiv 365
  let y := yoe + era * 400
  let doy := doe - (365 * yoe + yoe.tdiv 4 - yoe.tdiv 100)
  let mp := (5 * doy + 2).tdiv 153
  let d := asU32 (doy - (153 * mp + 2).tdiv 5 + 1)
  let m := asU32 (if mp < 10 then mp + 3 else mp - 9)
  (if m ≤ 2 then y + 1 else y, m, d)

def formatTimestamps (timestamp : UInt64) : Text × Text :=
  let days := timestamp / 86400
  let seconds := timestamp % 86400
  let (year, month, day) := civilFromDays days.toInt64.toInt
  let date := Text.printPadded 4 year ++ Text.printPadded 2 month ++ Text.printPadded 2 day
  (date ++ 'T' :: (Text.printPadded 2 (seconds / 3600).toNat ++
      Text.printPadded 2 ((seconds % 3600) / 60).toNat ++
      Text.printPadded 2 (seconds % 60).toNat ++ ['Z']),
    date)

end Conversion

section Era

/-- From 1 March of an era's first year to 1 March of this one. -/
def daysBeforeMarch (yoe : Int) : Int := 365 * yoe + yoe / 4 - yoe / 100 + yoe / 400

theorem daysBeforeMarch_succ (yoe : Int) :
    daysBeforeMarch (yoe + 1) = daysBeforeMarch yoe + daysInYear (yoe + 1) := by
  have h := daysBeforeYear_succ (yoe + 1)
  unfold daysBeforeYear at h
  unfold daysBeforeMarch
  simp only [Int.add_sub_cancel] at h
  omega

/-- The year of an era, of a day of it. -/
def yearOfEra (doe : Int) : Int := (doe - doe / 1460 + doe / 36524 - doe / 146096) / 365

/-- The corrections for leap days find the year that a day is in: they differ from
the exact count only within it. -/
theorem yearOfEra_spec {doe : Int} (hlow : 0 ≤ doe) (hhigh : doe < 146097) :
    0 ≤ yearOfEra doe ∧ yearOfEra doe < 400 ∧ daysBeforeMarch (yearOfEra doe) ≤ doe ∧
      doe < daysBeforeMarch (yearOfEra doe + 1) := by
  unfold daysBeforeMarch
  generalize hyear : yearOfEra doe = yoe
  unfold yearOfEra at hyear
  have hyoe : yoe * 365 ≤ doe - doe / 1460 + doe / 36524 - doe / 146096 ∧
      doe - doe / 1460 + doe / 36524 - doe / 146096 < yoe * 365 + 365 := by omega
  have hrange : 0 ≤ yoe ∧ yoe < 400 := by omega
  clear hyear
  have hlast : doe / 146096 = doe / 36524 / 4 := by omega
  have hbelow : yoe / 4 ≤ doe / 1460 ∨ doe / 1460 + 1 ≤ yoe / 4 := by omega
  have habove : doe / 1460 ≤ (yoe + 1) / 4 ∨ (yoe + 1) / 4 + 1 ≤ doe / 1460 := by omega
  have hcentury : yoe / 100 = doe / 36524 ∨ doe / 36524 = 4 ∧ yoe / 100 = 3 := by omega
  have hround : (yoe + 1) / 100 = yoe / 100 ∧ (yoe + 1) / 400 = 0 ∨
      yoe + 1 = 100 * (yoe / 100 + 1) := by omega
  rw [hlast] at hyoe
  refine ⟨hrange.1, hrange.2, ?_, ?_⟩
  · omega
  · omega

/-- March to December are as long as the rounding of 153 days over five months says. -/
theorem daysInMonth_march (year : Int) {k : Nat} (h : k < 10) :
    daysInMonth year (k + 3) + (153 * k + 2) / 5 = (153 * (k + 1) + 2) / 5 := by
  match k, h with
  | 0, _ | 1, _ | 2, _ | 3, _ | 4, _ | 5, _ | 6, _ | 7, _ | 8, _ | 9, _ => rfl

theorem daysBeforeMonth_march (year : Int) {k : Nat} (h : k < 10) :
    daysBeforeMonth year (k + 3) + 306 = daysInYear year + (153 * k + 2) / 5 := by
  induction k with
  | zero =>
      simp only [daysBeforeMonth, daysInMonth, daysInYear]
      split <;> rfl
  | succ k ih =>
      have hlength := daysInMonth_march year (Nat.lt_of_succ_lt h)
      have hbefore := ih (Nat.lt_of_succ_lt h)
      rw [show k + 1 + 3 = k + 3 + 1 by omega, daysBeforeMonth_succ year (by omega)]
      omega

theorem asU32_ofNat {n : Nat} (h : n < 2 ^ 32) : asU32 n = n := by
  unfold asU32
  omega

/-- A date from the era, its year that begins in March, the months since and the days. -/
def dateOf (era yoe : Int) (k day : Nat) : Int × Nat × Nat :=
  if k < 10 then (yoe + era * 400, k + 3, day) else (yoe + era * 400 + 1, k - 9, day)

/-- The computed date names the era, the year and the day of the year it should. -/
theorem civilFromDays_eq (z : Int) : ∃ era yoe : Int, ∃ k doy : Nat,
    z + 719468 = era * 146097 + daysBeforeMarch yoe + doy ∧ doy < daysInYear (yoe + 1) ∧
      k ≤ 11 ∧ (153 * k + 2) / 5 ≤ doy ∧ doy < (153 * (k + 1) + 2) / 5 ∧
      civilFromDays z = dateOf era yoe k (doy - (153 * k + 2) / 5 + 1) := by
  have hlow : 0 ≤ (z + 719468) % 146097 := Int.emod_nonneg _ (by decide)
  have hhigh : (z + 719468) % 146097 < 146097 := Int.emod_lt_of_pos _ (by decide)
  have hsplit := Int.mul_ediv_add_emod (z + 719468) 146097
  generalize hera : (z + 719468) / 146097 = era at hsplit
  generalize hdoe : (z + 719468) % 146097 = doe at hlow hhigh hsplit
  obtain ⟨hyoe, hyoe', hbefore, hafter⟩ := yearOfEra_spec hlow hhigh
  generalize hyear : yearOfEra doe = yoe at hyoe hyoe' hbefore hafter
  rw [daysBeforeMarch_succ] at hafter
  have hlength : daysInYear (yoe + 1) ≤ 366 := by
    unfold daysInYear
    split <;> decide
  obtain ⟨doy, hdoy⟩ := Int.eq_ofNat_of_zero_le (a := doe - daysBeforeMarch yoe) (by omega)
  refine ⟨era, yoe, (5 * doy + 2) / 153, doy, by omega, by omega, by omega, by omega, by omega, ?_⟩
  have hmarch : doe - (365 * yoe + yoe / 4 - yoe / 100) = doy := by
    unfold daysBeforeMarch at hdoy
    omega
  have hyearOf : (doe - doe.tdiv 1460 + doe.tdiv 36524 - doe.tdiv 146096).tdiv 365 = yoe := by
    rw [Int.tdiv_eq_ediv_of_nonneg hlow, Int.tdiv_eq_ediv_of_nonneg hlow,
      Int.tdiv_eq_ediv_of_nonneg hlow, Int.tdiv_eq_ediv_of_nonneg (by omega)]
    exact hyear
  unfold civilFromDays
  simp only [hera, hdoe]
  rw [hyearOf, Int.tdiv_eq_ediv_of_nonneg hyoe, Int.tdiv_eq_ediv_of_nonneg hyoe, hmarch,
    Int.tdiv_eq_ediv_of_nonneg (a := 5 * (doy : Int) + 2) (by omega)]
  generalize hk : (5 * doy + 2) / 153 = k
  have hk' : (5 * (doy : Int) + 2) / 153 = k := by omega
  rw [hk', Int.tdiv_eq_ediv_of_nonneg (by omega)]
  have hday : asU32 (doy - (153 * k + 2) / 5 + 1) = doy - (153 * k + 2) / 5 + 1 := by
    rw [show (doy : Int) - (153 * k + 2) / 5 + 1 = ((doy - (153 * k + 2) / 5 + 1 : Nat) : Int) by
      omega]
    exact asU32_ofNat (by omega)
  rw [hday]
  unfold dateOf
  by_cases hfirst : k < 10
  · have hmonth : asU32 (if (k : Int) < 10 then (k : Int) + 3 else k - 9) = k + 3 := by
      rw [if_pos (by omega)]
      exact asU32_ofNat (n := k + 3) (by omega)
    rw [hmonth, if_pos hfirst, if_neg (by omega)]
  · have hmonth : asU32 (if (k : Int) < 10 then (k : Int) + 3 else k - 9) = k - 9 := by
      rw [if_neg (by omega), show (k : Int) - 9 = ((k - 9 : Nat) : Int) by omega]
      exact asU32_ofNat (by omega)
    rw [hmonth, if_neg hfirst, if_pos (by omega)]

theorem daysInYear_era (year era : Int) : daysInYear (year + era * 400) = daysInYear year := by
  have hleap : IsLeap (year + era * 400) ↔ IsLeap year := by
    unfold IsLeap
    omega
  simp only [daysInYear, hleap]

/-- Years that begin in March, counted as ones that begin in January. -/
theorem daysBeforeYear_march (era yoe : Int) :
    daysBeforeYear (yoe + era * 400 + 1) = daysBeforeMarch yoe + era * 146097 := by
  rw [show yoe + era * 400 + 1 = yoe + 1 + era * 400 by omega, daysBeforeYear_era]
  unfold daysBeforeYear daysBeforeMarch
  simp only [Int.add_sub_cancel]

/-- A day of a year that begins in March is a date, with the number it should have. -/
theorem dateOf_date (era : Int) {yoe : Int} {k doy : Nat} (hlast : doy < daysInYear (yoe + 1))
    (hk : k ≤ 11) (hlow : (153 * k + 2) / 5 ≤ doy) (hhigh : doy < (153 * (k + 1) + 2) / 5) :
    ∃ date : Date,
      dateOf era yoe k (doy - (153 * k + 2) / 5 + 1) = (date.year, date.month, date.day) ∧
        date.number = era * 146097 + daysBeforeMarch yoe + doy - 719468 := by
  have hyear := daysBeforeYear_march era yoe
  by_cases hfirst : k < 10
  · have hlength := daysInMonth_march (yoe + era * 400) hfirst
    have hbefore := daysBeforeMonth_march (yoe + era * 400) hfirst
    have hnext := daysBeforeYear_succ (yoe + era * 400)
    refine ⟨⟨yoe + era * 400, k + 3, doy - (153 * k + 2) / 5 + 1, by omega, by omega⟩,
      if_pos hfirst, ?_⟩
    unfold Date.number
    simp only
    omega
  · rw [← daysInYear_era _ era, show yoe + 1 + era * 400 = yoe + era * 400 + 1 by omega] at hlast
    obtain rfl | rfl : k = 10 ∨ k = 11 := by omega
    · refine ⟨⟨yoe + era * 400 + 1, 1, doy - 306 + 1, by decide, by
        show 1 ≤ doy - 306 + 1 ∧ doy - 306 + 1 ≤ 31
        omega⟩, rfl, ?_⟩
      have hbefore : daysBeforeMonth (yoe + era * 400 + 1) 1 = 0 := rfl
      unfold Date.number
      simp only
      omega
    · have hfebruary : daysInMonth (yoe + era * 400 + 1) 2 + 337 =
          daysInYear (yoe + era * 400 + 1) := by
        simp only [daysInMonth, daysInYear]
        split <;> rfl
      have hbefore : daysBeforeMonth (yoe + era * 400 + 1) 2 = 31 := rfl
      refine ⟨⟨yoe + era * 400 + 1, 2, doy - 337 + 1, by decide, by omega⟩, rfl, ?_⟩
      unfold Date.number
      simp only
      omega

/-- Every day number is turned into the date that has it. -/
theorem civilFromDays_date (z : Int) : ∃ date : Date,
    civilFromDays z = (date.year, date.month, date.day) ∧ date.number = z := by
  obtain ⟨era, yoe, k, doy, hz, hlast, hk, hlow, hhigh, hcivil⟩ := civilFromDays_eq z
  obtain ⟨date, hdate, hnumber⟩ := dateOf_date era hlast hk hlow hhigh
  exact ⟨date, hcivil.trans hdate, by omega⟩

/-- And the day after it into the date after. -/
theorem civilFromDays_next {z : Int} {date : Date} (h : date.number = z) :
    civilFromDays (z + 1) = (date.next.year, date.next.month, date.next.day) := by
  obtain ⟨after, hafter, hnumber⟩ := civilFromDays_date (z + 1)
  have hsame : after = date.next := Date.number_injective (by rw [hnumber, Date.number_next, h])
  rw [hafter, hsame]

end Era

section Timestamps

/-- `2^64` seconds are fewer than `2^48` days. -/
theorem days_toInt (timestamp : UInt64) :
    (timestamp / 86400).toInt64.toInt = timestamp.toNat / 86400 := by
  have hbound := timestamp.toNat_lt
  have hdays : (timestamp / 86400).toNat = timestamp.toNat / 86400 := UInt64.toNat_div _ _
  show (timestamp / 86400).toBitVec.toInt = _
  rw [BitVec.toInt_eq_toNat_of_lt (by rw [UInt64.toNat_toBitVec, hdays]; omega),
    UInt64.toNat_toBitVec, hdays]
  rfl

/-- A day that is not before the epoch has a year that is not. -/
theorem year_of_number {date : Date} (h : 0 ≤ date.number) : 1970 ≤ date.year := by
  refine Int.not_lt.mp fun hyear => ?_
  have hlt := Date.number_lt_of_year_lt (a := date) (b := ⟨1970, 1, 1, by decide, by decide⟩) hyear
  exact absurd hlt (Int.not_lt.mpr h)

/-- Both texts of a timestamp are those of its date and time in the calendar, and
the day after is the date after. -/
theorem formatTimestamps_calendar (timestamp : UInt64) :
    ∃ (date : Date) (hour minute second : Nat), hour < 24 ∧ minute < 60 ∧ second < 60 ∧
      (timestamp.toNat : Int) = 86400 * date.number + 3600 * hour + 60 * minute + second ∧
      civilFromDays (timestamp.toNat / 86400) = (date.year, date.month, date.day) ∧
      civilFromDays (timestamp.toNat / 86400 + 1) =
        (date.next.year, date.next.month, date.next.day) ∧
      (formatTimestamps timestamp).1 = date.basic ++ 'T' :: (Text.printPadded 2 hour ++
        Text.printPadded 2 minute ++ Text.printPadded 2 second ++ ['Z']) ∧
      (formatTimestamps timestamp).2 = date.basic ∧
      Date.readBasic date.basic = some (date.year.toNat, date.month, date.day) := by
  obtain ⟨date, hdate, hnumber⟩ := civilFromDays_date (timestamp.toNat / 86400)
  have hyear : 1970 ≤ date.year := year_of_number (by omega)
  have hseconds : (timestamp % 86400).toNat = timestamp.toNat % 86400 := UInt64.toNat_mod _ _
  have hhour : (timestamp % 86400 / 3600).toNat = timestamp.toNat % 86400 / 3600 := by
    rw [UInt64.toNat_div, hseconds]
    rfl
  have hminute : (timestamp % 86400 % 3600 / 60).toNat =
      timestamp.toNat % 86400 % 3600 / 60 := by
    rw [UInt64.toNat_div, UInt64.toNat_mod, hseconds]
    rfl
  have hsecond : (timestamp % 86400 % 60).toNat = timestamp.toNat % 86400 % 60 := by
    rw [UInt64.toNat_mod, hseconds]
    rfl
  have htexts : formatTimestamps timestamp = (date.basic ++ 'T' ::
      (Text.printPadded 2 (timestamp.toNat % 86400 / 3600 : Nat) ++
        Text.printPadded 2 (timestamp.toNat % 86400 % 3600 / 60 : Nat) ++
        Text.printPadded 2 (timestamp.toNat % 86400 % 60 : Nat) ++ ['Z']), date.basic) := by
    unfold formatTimestamps
    simp only [days_toInt, hdate, hhour, hminute, hsecond]
    rfl
  refine ⟨date, timestamp.toNat % 86400 / 3600, timestamp.toNat % 86400 % 3600 / 60,
    timestamp.toNat % 86400 % 60, by omega, by omega, by omega, by omega, hdate,
    civilFromDays_next hnumber, ?_, ?_, Date.readBasic_basic (by omega)⟩
  · rw [htexts]
  · rw [htexts]

example : formatTimestamps 1789776900 = ("20260919T001500Z".toList, "20260919".toList) := by
  decide

end Timestamps

end Odradek.Sasl
