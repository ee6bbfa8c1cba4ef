import AlLanguage.Library.Calendar
import Mathlib.Tactic.IntervalCases

/-!
# Day counts and dates

- A Date is the number of days since 0001-01-01.
- The count of a date and the date of a count are inverse, and the counts are in the order of the dates.
-/

namespace AlLanguage.Runtime

open Library Calendar

/-- Days from 0001-01-01 to 1970-01-01. -/
def alEpochToUnixDays : Int := 719162

/-- Days since 1970-01-01. Divisions truncate. -/
def daysFromCivil (year month day : Int) : Int :=
  let y := if month ≤ 2 then year - 1 else year
  let era := (if 0 ≤ y then y else y - 399).tdiv 400
  let yoe := y - era * 400
  let doy := (153 * (if 2 < month then month - 3 else month + 9) + 2).tdiv 5 + day - 1
  let doe := yoe * 365 + yoe.tdiv 4 - yoe.tdiv 100 + doy
  era * 146097 + doe - 719468

def alDaysFromYmd (year month day : Int) : Int := daysFromCivil year month day + alEpochToUnixDays

/-- Year, month and day of a count of days since 1970-01-01. -/
def civilFromDays (days : Int) : Int × Int × Int :=
  let z := days + 719468
  let era := (if 0 ≤ z then z else z - 146096).tdiv 146097
  let doe := z - era * 146097
  let yoe := (doe - doe.tdiv 1460 + doe.tdiv 36524 - doe.tdiv 146096).tdiv 365
  let y := yoe + era * 400
  let doy := doe - (365 * yoe + yoe.tdiv 4 - yoe.tdiv 100)
  let mp := (5 * doy + 2).tdiv 153
  let day := doy - (153 * mp + 2).tdiv 5 + 1
  let month := if mp < 10 then mp + 3 else mp - 9
  (if month ≤ 2 then y + 1 else y, month, day)

def ymdFromAlDays (days : Int) : Int × Int × Int := civilFromDays (days - alEpochToUnixDays)

/-- The day count of a valid date of the years 1 to 9999. -/
def checkedAlDate (year month day : Int) : Option Int :=
  if ¬ (1 ≤ year ∧ year ≤ 9999) ∨ ¬ (1 ≤ month ∧ month ≤ 12) then none
  else
    let leap := year.tmod 4 = 0 ∧ (year.tmod 100 ≠ 0 ∨ year.tmod 400 = 0)
    let maxDay := if month = 1 ∨ month = 3 ∨ month = 5 ∨ month = 7 ∨ month = 8 ∨ month = 10 ∨ month = 12 then 31
      else if month = 4 ∨ month = 6 ∨ month = 9 ∨ month = 11 then 30
      else if month = 2 ∧ leap then 29
      else 28
    if ¬ (1 ≤ day ∧ day ≤ maxDay) then none else some (alDaysFromYmd year month day)

/-! ## Divisions that round down -/

theorem tdiv_floor (a : Int) {n : Int} (positive : 0 < n) : (if 0 ≤ a then a else a - (n - 1)).tdiv n = a / n := by
  split
  next nonneg => exact Int.tdiv_eq_ediv_of_nonneg nonneg
  next negative =>
    have turned : a - (n - 1) = -(n - 1 - a) := by ring
    rw [turned, Int.neg_tdiv, Int.tdiv_eq_ediv_of_nonneg (by omega)]
    symm
    have left := Int.mul_ediv_add_emod (n - 1 - a) n
    have low := Int.emod_nonneg (n - 1 - a) (Int.ne_of_gt positive)
    have high := Int.emod_lt_of_pos (n - 1 - a) positive
    rw [Int.ediv_eq_iff_of_pos positive, show -((n - 1 - a) / n) * n = -(n * ((n - 1 - a) / n)) by ring]
    omega

/-- The count without truncating divisions. The year begins in March. -/
def marchCount (y mp day : Int) : Int := 365 * y + y / 4 - y / 100 + y / 400 + (153 * mp + 2) / 5 + day - 719469

theorem daysFromCivil_eq {month : Int} (year day : Int) (monthIn : 1 ≤ month ∧ month ≤ 12) :
    daysFromCivil year month day =
      if month ≤ 2 then marchCount (year - 1) (month + 9) day else marchCount year (month - 3) day := by
  have era (y : Int) : (if 0 ≤ y then y else y - 399).tdiv 400 = y / 400 := tdiv_floor y (n := 400) (by decide)
  have count (y mp : Int) (nonneg : 0 ≤ mp) : y / 400 * 146097 +
      ((y - y / 400 * 400) * 365 + (y - y / 400 * 400).tdiv 4 - (y - y / 400 * 400).tdiv 100 +
        ((153 * mp + 2).tdiv 5 + day - 1)) - 719468 = marchCount y mp day := by
    have yoe : 0 ≤ y - y / 400 * 400 := by omega
    rw [Int.tdiv_eq_ediv_of_nonneg yoe, Int.tdiv_eq_ediv_of_nonneg yoe,
      Int.tdiv_eq_ediv_of_nonneg (show 0 ≤ 153 * mp + 2 by omega), marchCount]
    omega
  unfold daysFromCivil
  dsimp only
  by_cases early : month ≤ 2
  · rw [if_pos early, if_pos early, if_neg (show ¬ 2 < month by omega), era]
    exact count _ _ (by omega)
  · rw [if_neg early, if_neg early, if_pos (show 2 < month by omega), era]
    exact count _ _ (by omega)

/-! ## From one date to the next -/

theorem daysFromCivil_day (year month day : Int) : daysFromCivil year month (day + 1) = daysFromCivil year month day + 1 := by
  unfold daysFromCivil
  dsimp only
  ring

theorem daysFromCivil_month (year month : Int) (positive : 1 ≤ month) (inYear : month < 12) :
    daysFromCivil year (month + 1) 1 = daysFromCivil year month (monthLength year month) + 1 := by
  rw [daysFromCivil_eq _ _ (by omega), daysFromCivil_eq _ _ (by omega)]
  unfold marchCount
  by_cases february : month = 2
  · rw [february, monthLength, if_pos rfl, isLeap]
    simp only [Bool.decide_and, Bool.decide_or, Bool.and_eq_true, Bool.or_eq_true, decide_eq_true_eq]
    split <;> split <;> omega
  · unfold monthLength
    rw [if_neg february]
    interval_cases month <;> split <;> split <;> split <;> omega

theorem daysFromCivil_year (year : Int) : daysFromCivil (year + 1) 1 1 = daysFromCivil year 12 31 + 1 := by
  rw [daysFromCivil_eq _ _ (by omega), daysFromCivil_eq _ _ (by omega), if_pos (by decide), if_neg (by decide)]
  unfold marchCount
  omega

/-! ## From a count to the date -/

/-- The year of an era for the day of an era. The last day of a leap year and that of an era are the ones to check. -/
theorem yoe_eq {doe c q r doy : Int} (century : 0 ≤ c ∧ c ≤ 3) (quarter : 0 ≤ q ∧ q ≤ 24) (rest : 0 ≤ r ∧ r ≤ 3)
    (day : 0 ≤ doy ∧ doy ≤ 365) (leap : doy = 365 → r = 3 ∧ (q < 24 ∨ c = 3))
    (parts : doe = 36524 * c + 1461 * q + 365 * r + doy) :
    (doe - doe / 1460 + doe / 36524 - doe / 146096) / 365 = 100 * c + 4 * q + r := by
  have fourYears : doe / 1460 = 25 * c + q ∨ doe / 1460 = 25 * c + q + 1 := by omega
  have centuries : doe / 36524 = c ∨ doe / 36524 = c + 1 := by omega
  have lastDay : doe / 146096 = 0 ∨ doe / 146096 = 1 := by omega
  rcases fourYears with four | four <;> rcases centuries with hundred | hundred <;> rcases lastDay with last | last <;>
    rw [four, hundred, last] <;> omega

/-- The part of `civil_from_days` behind the era and the day of the era, which is nonnegative. -/
def civilOfEra (era doe : Int) : Int × Int × Int :=
  let yoe := (doe - doe / 1460 + doe / 36524 - doe / 146096) / 365
  let doy := doe - (365 * yoe + yoe / 4 - yoe / 100)
  let mp := (5 * doy + 2).tdiv 153
  let month := if mp < 10 then mp + 3 else mp - 9
  (if month ≤ 2 then yoe + era * 400 + 1 else yoe + era * 400, month, doy - (153 * mp + 2).tdiv 5 + 1)

theorem civilFromDays_era {era doe : Int} (within : 0 ≤ doe ∧ doe < 146097) :
    civilFromDays (146097 * era + doe - 719468) = civilOfEra era doe := by
  have z : 146097 * era + doe - 719468 + 719468 = 146097 * era + doe := by ring
  have floor (z : Int) : (if 0 ≤ z then z else z - 146096).tdiv 146097 = z / 146097 :=
    tdiv_floor z (n := 146097) (by decide)
  have eraOf : (146097 * era + doe) / 146097 = era := by omega
  have doeOf : 146097 * era + doe - era * 146097 = doe := by ring
  have years : 0 ≤ doe - doe / 1460 + doe / 36524 - doe / 146096 := by omega
  have yoe : 0 ≤ (doe - doe / 1460 + doe / 36524 - doe / 146096) / 365 := Int.ediv_nonneg years (by decide)
  unfold civilFromDays civilOfEra
  dsimp only
  rw [z, floor, eraOf, doeOf, Int.tdiv_eq_ediv_of_nonneg (b := 1460) within.1, Int.tdiv_eq_ediv_of_nonneg (b := 36524) within.1,
    Int.tdiv_eq_ediv_of_nonneg (b := 146096) within.1, Int.tdiv_eq_ediv_of_nonneg (b := 365) years,
    Int.tdiv_eq_ediv_of_nonneg (b := 4) yoe, Int.tdiv_eq_ediv_of_nonneg (b := 100) yoe]

theorem yoe_quarters (c q : Int) {r : Int} (rest : 0 ≤ r ∧ r ≤ 3) : (100 * c + 4 * q + r) / 4 = 25 * c + q := by
  omega

theorem yoe_centuries (c : Int) {q r : Int} (quarter : 0 ≤ q ∧ q ≤ 24) (rest : 0 ≤ r ∧ r ≤ 3) :
    (100 * c + 4 * q + r) / 100 = c := by
  omega

/-- The date of a count whose parts are known. -/
theorem civilFromDays_parts {era c q r doy doe : Int} (century : 0 ≤ c ∧ c ≤ 3) (quarter : 0 ≤ q ∧ q ≤ 24)
    (rest : 0 ≤ r ∧ r ≤ 3) (day : 0 ≤ doy ∧ doy ≤ 365) (leap : doy = 365 → r = 3 ∧ (q < 24 ∨ c = 3))
    (parts : doe = 36524 * c + 1461 * q + 365 * r + doy) :
    civilFromDays (146097 * era + doe - 719468) =
      (let mp := (5 * doy + 2) / 153
       let month := if mp < 10 then mp + 3 else mp - 9
       let y := 100 * c + 4 * q + r + era * 400
       (if month ≤ 2 then y + 1 else y, month, doy - (153 * mp + 2) / 5 + 1)) := by
  have within : 0 ≤ doe ∧ doe < 146097 := by omega
  have doyOf : doe - (365 * (100 * c + 4 * q + r) + (25 * c + q) - c) = doy := by
    rw [parts]
    ring
  have fifths : 0 ≤ 5 * doy + 2 := by omega
  have mp : 0 ≤ (5 * doy + 2) / 153 := Int.ediv_nonneg fifths (by decide)
  have days : 0 ≤ 153 * ((5 * doy + 2) / 153) + 2 := Int.add_nonneg (Int.mul_nonneg (by decide) mp) (by decide)
  have yoe := yoe_eq century quarter rest day leap parts
  rw [civilFromDays_era within]
  unfold civilOfEra
  dsimp only
  rw [yoe, yoe_quarters c q rest, yoe_centuries c quarter rest, doyOf, Int.tdiv_eq_ediv_of_nonneg fifths,
    Int.tdiv_eq_ediv_of_nonneg days]

theorem exists_yearParts (y : Int) : ∃ era c q r : Int, (0 ≤ c ∧ c ≤ 3) ∧ (0 ≤ q ∧ q ≤ 24) ∧ (0 ≤ r ∧ r ≤ 3) ∧
    y = 100 * c + 4 * q + r + era * 400 := by
  refine ⟨y / 400, y % 400 / 100, y % 100 / 4, y % 4, ?_, ?_, ?_, ?_⟩
  · omega
  · omega
  · omega
  · omega

theorem marchCount_parts {era c q r doe mp day : Int} (century : 0 ≤ c ∧ c ≤ 3) (quarter : 0 ≤ q ∧ q ≤ 24)
    (rest : 0 ≤ r ∧ r ≤ 3) (parts : doe = 36524 * c + 1461 * q + 365 * r + ((153 * mp + 2) / 5 + day - 1)) :
    marchCount (100 * c + 4 * q + r + era * 400) mp day = 146097 * era + doe - 719468 := by
  have fours : (100 * c + 4 * q + r + era * 400) / 4 = 25 * c + q + 100 * era := by omega
  have hundreds : (100 * c + 4 * q + r + era * 400) / 100 = c + 4 * era := by omega
  have eras : (100 * c + 4 * q + r + era * 400) / 400 = era := by omega
  unfold marchCount
  rw [fours, hundreds, eras, parts]
  ring

/-- A leap year's last day of February is the last day of a year that begins in March. -/
theorem isLeap_parts {era c q r : Int} (century : 0 ≤ c ∧ c ≤ 3) (quarter : 0 ≤ q ∧ q ≤ 24) (rest : 0 ≤ r ∧ r ≤ 3)
    (leap : isLeap (100 * c + 4 * q + r + era * 400 + 1) = true) : r = 3 ∧ (q < 24 ∨ c = 3) := by
  have rule := of_decide_eq_true leap
  have fours : (100 * c + 4 * q + r + era * 400 + 1) % 4 = (r + 1) % 4 := by omega
  have third : r = 3 := by omega
  refine ⟨third, ?_⟩
  by_contra late
  have same : q = 24 := by omega
  rw [third, same] at rule
  omega

/-- The day of a year that begins in March. -/
theorem marchDay {mp day : Int} (month : 0 ≤ mp ∧ mp ≤ 11) (dayIn : 1 ≤ day ∧ day ≤ 31)
    (short : mp = 1 ∨ mp = 3 ∨ mp = 6 ∨ mp = 8 → day ≤ 30) (february : mp = 11 → day ≤ 29) :
    (0 ≤ (153 * mp + 2) / 5 + day - 1 ∧ (153 * mp + 2) / 5 + day - 1 ≤ 365) ∧
    (5 * ((153 * mp + 2) / 5 + day - 1) + 2) / 153 = mp ∧
    ((153 * mp + 2) / 5 + day - 1 = 365 → mp = 11 ∧ day = 29) := by
  obtain ⟨low, high⟩ := month
  interval_cases mp
  all_goals
    simp only [Int.reduceEq, or_false, or_true, true_implies, false_implies] at short february
    norm_num
    omega

/-- The date of the count of a day in a year that begins in March. -/
theorem civilFromDays_march {y mp day : Int} (month : 0 ≤ mp ∧ mp ≤ 11) (dayIn : 1 ≤ day ∧ day ≤ 31)
    (short : mp = 1 ∨ mp = 3 ∨ mp = 6 ∨ mp = 8 → day ≤ 30) (february : mp = 11 → day ≤ if isLeap (y + 1) then 29 else 28) :
    civilFromDays (marchCount y mp day) =
      (if mp < 10 then y else y + 1, if mp < 10 then mp + 3 else mp - 9, day) := by
  obtain ⟨era, c, q, r, century, quarter, rest, rfl⟩ := exists_yearParts y
  have leap : mp = 11 → day ≤ 29 ∧ (day = 29 → r = 3 ∧ (q < 24 ∨ c = 3)) := by
    intro last
    have bound := february last
    split at bound
    next holds => exact ⟨bound, fun _ => isLeap_parts century quarter rest holds⟩
    next => exact ⟨by omega, fun same => absurd bound (by omega)⟩
  obtain ⟨dayOf, mpOf, lastDay⟩ := marchDay month dayIn short (fun last => (leap last).1)
  rw [marchCount_parts century quarter rest rfl, civilFromDays_parts century quarter rest dayOf
    (fun full => (leap (lastDay full).1).2 (lastDay full).2) rfl]
  dsimp only
  rw [mpOf]
  clear february leap lastDay mpOf dayOf
  by_cases early : mp < 10
  · rw [if_pos early, if_neg (show ¬ mp + 3 ≤ 2 by omega), if_pos early]
    congr 2
    ring
  · rw [if_neg early, if_pos (show mp - 9 ≤ 2 by omega), if_neg early]
    congr 2
    ring

/-! ## Dates and counts -/

def dayCount (date : Date) : Int := daysFromCivil date.year date.month date.day

theorem civilFromDays_dayCount (date : Date) : civilFromDays (dayCount date) = (date.year, date.month, date.day) := by
  obtain ⟨year, month, day, ⟨low, high⟩, ⟨positive, bound⟩⟩ := date
  unfold dayCount
  dsimp only
  rw [daysFromCivil_eq _ _ ⟨low, high⟩]
  have long := (monthLength_bounds year month).2
  by_cases early : month ≤ 2
  · rw [if_pos early, civilFromDays_march (by omega) (by omega) (by omega)]
    · rw [if_neg (show ¬ month + 9 < 10 by omega), if_neg (show ¬ month + 9 < 10 by omega)]
      congr 2
      · ring
      · ring
    · intro last
      rw [Int.sub_add_cancel]
      rwa [monthLength, if_pos (show month = 2 by omega)] at bound
  · rw [if_neg early, civilFromDays_march (by omega) (by omega)]
    · rw [if_pos (show month - 3 < 10 by omega), if_pos (show month - 3 < 10 by omega), Int.sub_add_cancel]
    · intro short
      rwa [monthLength, if_neg (by omega), if_pos (by omega)] at bound
    · intro last
      omega

theorem dayCount_next (date : Date) : dayCount date.next = dayCount date + 1 :=
  Date.count_next daysFromCivil_day daysFromCivil_month daysFromCivil_year date

theorem dayCount_low (n : Int) : ∃ date, dayCount date ≤ n := by
  refine ⟨Date.first (-(n.natAbs : Int)) 1 (by decide), ?_⟩
  unfold dayCount Date.first
  dsimp only
  rw [daysFromCivil_eq _ _ (by decide), if_pos (by decide), marchCount]
  omega

theorem exists_date (n : Int) : ∃ date, civilFromDays n = (date.year, date.month, date.day) ∧ dayCount date = n := by
  obtain ⟨date, rfl⟩ := Count.exists_count dayCount_next dayCount_low n
  exact ⟨date, civilFromDays_dayCount date, rfl⟩

/-- The date of a day count. -/
def dateOfDays (n : Int) : Date where
  year := (civilFromDays n).1
  month := (civilFromDays n).2.1
  day := (civilFromDays n).2.2
  monthIn := by
    obtain ⟨date, same, -⟩ := exists_date n
    rw [same]
    exact date.monthIn
  dayIn := by
    obtain ⟨date, same, -⟩ := exists_date n
    rw [same]
    exact date.dayIn

theorem dateOfDays_dayCount (date : Date) : dateOfDays (dayCount date) = date := by
  have same := civilFromDays_dayCount date
  apply Date.ext
  · exact congrArg (·.1) same
  · exact congrArg (·.2.1) same
  · exact congrArg (·.2.2) same

theorem dayCount_dateOfDays (n : Int) : dayCount (dateOfDays n) = n :=
  Count.count_find dateOfDays_dayCount dayCount_next dayCount_low n

theorem dateOfDays_succ (n : Int) : dateOfDays (n + 1) = (dateOfDays n).next :=
  Count.find_succ dateOfDays_dayCount dayCount_next dayCount_low n

theorem before_iff_dayCount (a b : Date) : a.Before b ↔ dayCount a < dayCount b :=
  Count.before_iff dateOfDays_dayCount dayCount_next dayCount_low Date.before_next Date.before_irrefl Date.before_trans a b

theorem dayCount_le_iff (a b : Date) : dayCount a ≤ dayCount b ↔ ¬ b.Before a := by
  rw [before_iff_dayCount, Int.not_lt]

/-- The count of AL days. -/
theorem alDaysFromYmd_date (n : Int) :
    alDaysFromYmd (ymdFromAlDays n).1 (ymdFromAlDays n).2.1 (ymdFromAlDays n).2.2 = n := by
  have same : daysFromCivil (ymdFromAlDays n).1 (ymdFromAlDays n).2.1 (ymdFromAlDays n).2.2 = n - alEpochToUnixDays :=
    dayCount_dateOfDays (n - alEpochToUnixDays)
  unfold alDaysFromYmd
  rw [same, Int.sub_add_cancel]

theorem checkedAlDate_eq_some {year month day n : Int} : checkedAlDate year month day = some n ↔
    (1 ≤ year ∧ year ≤ 9999) ∧ (1 ≤ month ∧ month ≤ 12) ∧ (1 ≤ day ∧ day ≤ monthLength year month) ∧
      n = alDaysFromYmd year month day := by
  unfold checkedAlDate
  by_cases years : 1 ≤ year ∧ year ≤ 9999
  · by_cases months : 1 ≤ month ∧ month ≤ 12
    · rw [if_neg (by simp [years, months])]
      have leap : (year.tmod 4 = 0 ∧ (year.tmod 100 ≠ 0 ∨ year.tmod 400 = 0)) ↔ isLeap year = true := by
        have nonneg : 0 ≤ year := by omega
        rw [Int.tmod_eq_emod_of_nonneg nonneg, Int.tmod_eq_emod_of_nonneg nonneg, Int.tmod_eq_emod_of_nonneg nonneg,
          isLeap, decide_eq_true_eq]
      have length : (if month = 1 ∨ month = 3 ∨ month = 5 ∨ month = 7 ∨ month = 8 ∨ month = 10 ∨ month = 12 then (31 : Int)
          else if month = 4 ∨ month = 6 ∨ month = 9 ∨ month = 11 then 30
          else if month = 2 ∧ (year.tmod 4 = 0 ∧ (year.tmod 100 ≠ 0 ∨ year.tmod 400 = 0)) then 29
          else 28) = monthLength year month := by
        obtain ⟨low, high⟩ := months
        simp only [leap, monthLength]
        interval_cases month <;> simp
      dsimp only
      rw [length]
      split
      next outside => simp [outside]
      next inside =>
        rw [not_not] at inside
        simp only [Option.some.injEq, years, months, inside, true_and, and_self, eq_comm]
    · simp [months]
  · simp [years]

/-! ## The conversion -/

/-- The conversion is a monotone bijection between the integers and the dates. -/
theorem calendar_conversion :
    (∀ date : Date, civilFromDays (daysFromCivil date.year date.month date.day) = (date.year, date.month, date.day)) ∧
    (∀ n, ∃ date : Date, civilFromDays n = (date.year, date.month, date.day) ∧
      daysFromCivil date.year date.month date.day = n) ∧
    (∀ a b : Date, a.Before b ↔ daysFromCivil a.year a.month a.day < daysFromCivil b.year b.month b.day) ∧
    (∀ (n : Int) (date : Date), civilFromDays n = (date.year, date.month, date.day) →
      civilFromDays (n + 1) = (date.next.year, date.next.month, date.next.day)) ∧
    (∀ date : Date, ymdFromAlDays (alDaysFromYmd date.year date.month date.day) = (date.year, date.month, date.day)) ∧
    (∀ n, ∃ date : Date, ymdFromAlDays n = (date.year, date.month, date.day) ∧
      alDaysFromYmd date.year date.month date.day = n) ∧
    alDaysFromYmd 1 1 1 = 0 ∧
    (∀ year month day n, checkedAlDate year month day = some n ↔
      ∃ date : Date, date.year = year ∧ date.month = month ∧ date.day = day ∧ (1 ≤ year ∧ year ≤ 9999) ∧
        n = alDaysFromYmd year month day) := by
  refine ⟨civilFromDays_dayCount, exists_date, before_iff_dayCount, ?_, ?_, ?_, by decide, ?_⟩
  · intro n date found
    have same : dateOfDays n = date := by
      apply Date.ext
      · exact congrArg (·.1) found
      · exact congrArg (·.2.1) found
      · exact congrArg (·.2.2) found
    rw [← same, ← dateOfDays_succ]
    rfl
  · intro date
    unfold ymdFromAlDays alDaysFromYmd
    rw [Int.add_sub_cancel]
    exact civilFromDays_dayCount date
  · intro n
    exact ⟨dateOfDays (n - alEpochToUnixDays), rfl, alDaysFromYmd_date n⟩
  · intro year month day n
    rw [checkedAlDate_eq_some]
    constructor
    · rintro ⟨years, months, days, counted⟩
      exact ⟨⟨year, month, day, months, days⟩, rfl, rfl, rfl, years, counted⟩
    · rintro ⟨date, rfl, rfl, rfl, years, counted⟩
      exact ⟨years, date.monthIn, date.dayIn, counted⟩

end AlLanguage.Runtime
