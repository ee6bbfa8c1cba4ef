import AlLanguage.Runtime.Dates
import AlLanguage.Runtime.Value

/-!
# Weeks

A week belongs to the year of its Thursday.
-/

namespace AlLanguage.Runtime

open Library Calendar

/-- Monday is 1. 1970-01-01 was a Thursday. -/
def weekdayOf (date : Int) : Int := ((date - alEpochToUnixDays) % 7 + 3).tmod 7 + 1

/-- The week number and the year it belongs to. -/
def isoWeek (date : Int) : Int × Int :=
  let thursday := date - weekdayOf date + 4
  let year := (ymdFromAlDays thursday).1
  ((thursday - alDaysFromYmd year 1 1).tdiv 7 + 1, year)

def builtinDate2dwy (args : List Value) : Except String Value :=
  match args with
  | [.date date, .integer what] =>
      if date = 0 then .error "Date2DWY is undefined for 0D"
      else
        let (week, year) := isoWeek date.toInt
        if what = 1 then .ok (.integer (.ofInt (weekdayOf date.toInt)))
        else if what = 2 then .ok (.integer (.ofInt week))
        else if what = 3 then .ok (.integer (.ofInt year))
        else .error ("Date2DWY: the what argument must be 1, 2 or 3, got " ++ toString what.toInt)
  | _ => .error "Date2DWY expects (Date, Integer)"

/-! ## Years -/

def yearOf (date : Int) : Int := (ymdFromAlDays date).1

def firstDay (year : Int) : Int := alDaysFromYmd year 1 1

theorem firstDay_eq (year : Int) :
    firstDay year = 365 * (year - 1) + (year - 1) / 4 - (year - 1) / 100 + (year - 1) / 400 := by
  unfold firstDay alDaysFromYmd alEpochToUnixDays
  rw [daysFromCivil_eq _ _ (by decide), if_pos (by decide), marchCount]
  omega

theorem firstDay_succ (year : Int) : firstDay year + 365 ≤ firstDay (year + 1) ∧ firstDay (year + 1) ≤ firstDay year + 366 := by
  rw [firstDay_eq, firstDay_eq, Int.add_sub_cancel]
  omega

/-- The days of a year are those from its first one to the next year's. -/
theorem yearOf_bounds (date : Int) : firstDay (yearOf date) ≤ date ∧ date < firstDay (yearOf date + 1) := by
  have counted : dayCount (dateOfDays (date - alEpochToUnixDays)) = date - alEpochToUnixDays := dayCount_dateOfDays _
  have first (year : Int) : dayCount (.first year 1 (by decide)) = firstDay year - alEpochToUnixDays :=
    (Int.add_sub_cancel ..).symm
  have monthIn := (dateOfDays (date - alEpochToUnixDays)).monthIn
  have dayIn := (dateOfDays (date - alEpochToUnixDays)).dayIn
  have same : (dateOfDays (date - alEpochToUnixDays)).year = yearOf date := rfl
  constructor
  · have low : dayCount (.first (yearOf date) 1 (by decide)) ≤ dayCount (dateOfDays (date - alEpochToUnixDays)) := by
      rw [dayCount_le_iff, Date.Before, same]
      simp only [Date.first]
      omega
    rw [first, counted] at low
    omega
  · have high : dayCount (dateOfDays (date - alEpochToUnixDays)) < dayCount (.first (yearOf date + 1) 1 (by decide)) := by
      rw [← before_iff_dayCount, Date.Before, same]
      exact .inl (Int.lt_succ _)
    rw [first, counted] at high
    omega

theorem firstDay_mono {a b : Int} (less : a ≤ b) : firstDay a ≤ firstDay b := by
  rw [firstDay_eq, firstDay_eq]
  omega

theorem yearOf_eq {date year : Int} (low : firstDay year ≤ date) (high : date < firstDay (year + 1)) : yearOf date = year := by
  obtain ⟨from_, until_⟩ := yearOf_bounds date
  rcases Int.lt_trichotomy (yearOf date) year with less | same | more
  · have := firstDay_mono (show yearOf date + 1 ≤ year from less)
    omega
  · exact same
  · have := firstDay_mono (show year + 1 ≤ yearOf date from more)
    omega

theorem yearOf_mono {a b : Int} (less : a ≤ b) : yearOf a ≤ yearOf b := by
  by_contra back
  have := firstDay_mono (show yearOf b + 1 ≤ yearOf a by omega)
  have := yearOf_bounds a
  have := yearOf_bounds b
  omega

/-! ## Weeks -/

/-- The number of a week among all weeks. -/
def weekIndex (date : Int) : Int := (date - alEpochToUnixDays + 3) / 7

def thursdayOf (date : Int) : Int := 7 * weekIndex date + alEpochToUnixDays

theorem weekdayOf_eq (date : Int) : weekdayOf date = date - 7 * weekIndex date - alEpochToUnixDays + 4 := by
  unfold weekdayOf weekIndex
  rw [Int.tmod_eq_emod_of_nonneg (by omega)]
  omega

theorem weekdayOf_bounds (date : Int) : 1 ≤ weekdayOf date ∧ weekdayOf date ≤ 7 := by
  rw [weekdayOf_eq, weekIndex]
  omega

theorem isoWeek_eq (date : Int) :
    isoWeek date = ((thursdayOf date - firstDay (yearOf (thursdayOf date))) / 7 + 1, yearOf (thursdayOf date)) := by
  have thursday : date - weekdayOf date + 4 = thursdayOf date := by
    rw [weekdayOf_eq, thursdayOf]
    ring
  have low := (yearOf_bounds (thursdayOf date)).1
  have week : (thursdayOf date - firstDay (yearOf (thursdayOf date))).tdiv 7 =
      (thursdayOf date - firstDay (yearOf (thursdayOf date))) / 7 := Int.tdiv_eq_ediv_of_nonneg (Int.sub_nonneg.mpr low)
  unfold isoWeek
  dsimp only
  rw [thursday]
  exact Prod.ext (congrArg (· + 1) week) rfl

/-- The weeks are in the order of their years and numbers. -/
theorem isoWeek_less {a b : Int} (less : weekIndex a < weekIndex b) :
    (isoWeek a).2 < (isoWeek b).2 ∨ (isoWeek a).2 = (isoWeek b).2 ∧ (isoWeek a).1 < (isoWeek b).1 := by
  have apart : thursdayOf a + 7 ≤ thursdayOf b := by
    unfold thursdayOf
    omega
  rw [isoWeek_eq, isoWeek_eq]
  rcases Int.lt_or_eq_of_le (yearOf_mono (show thursdayOf a ≤ thursdayOf b by omega)) with earlier | same
  · exact .inl earlier
  · refine .inr ⟨same, ?_⟩
    dsimp only
    rw [same]
    omega

theorem isoWeek_congr {a b : Int} (same : weekIndex a = weekIndex b) : isoWeek a = isoWeek b := by
  rw [isoWeek_eq, isoWeek_eq, thursdayOf, thursdayOf, same]

theorem isoWeek_bounds (date : Int) : 1 ≤ (isoWeek date).1 ∧ (isoWeek date).1 ≤ 53 := by
  have bounds := yearOf_bounds (thursdayOf date)
  have length := firstDay_succ (yearOf (thursdayOf date))
  rw [isoWeek_eq]
  dsimp only
  omega

/-- The Thursday of the week of 4 January is one of the first seven days of the year. -/
theorem isoWeek_fourth (year : Int) : isoWeek (alDaysFromYmd year 1 4) = (1, year) := by
  have fourth : alDaysFromYmd year 1 4 = firstDay year + 3 := by
    unfold firstDay alDaysFromYmd
    rw [show (4 : Int) = 1 + 1 + 1 + 1 from rfl, daysFromCivil_day, daysFromCivil_day, daysFromCivil_day]
    ring
  have thursday : firstDay year ≤ thursdayOf (firstDay year + 3) ∧ thursdayOf (firstDay year + 3) ≤ firstDay year + 6 := by
    unfold thursdayOf weekIndex
    omega
  have length := firstDay_succ year
  have same : yearOf (thursdayOf (firstDay year + 3)) = year := yearOf_eq thursday.1 (by omega)
  rw [fourth, isoWeek_eq, same]
  have week : (thursdayOf (firstDay year + 3) - firstDay year) / 7 = 0 := by omega
  rw [week]
  rfl

/-- Year, week and weekday in this order. -/
def DwyBefore (a b : Int) : Prop :=
  (isoWeek a).2 < (isoWeek b).2 ∨ (isoWeek a).2 = (isoWeek b).2 ∧
    ((isoWeek a).1 < (isoWeek b).1 ∨ (isoWeek a).1 = (isoWeek b).1 ∧ weekdayOf a < weekdayOf b)

theorem lt_dwyBefore {a b : Int} (less : a < b) : DwyBefore a b := by
  have weeks : weekIndex a ≤ weekIndex b := by
    unfold weekIndex
    omega
  rcases Int.lt_or_eq_of_le weeks with earlier | same
  · have first := isoWeek_less earlier
    unfold DwyBefore
    omega
  · have weekdays : weekdayOf a < weekdayOf b := by
      rw [weekdayOf_eq, weekdayOf_eq, same]
      omega
    rw [DwyBefore, isoWeek_congr same]
    exact .inr ⟨rfl, .inr ⟨rfl, weekdays⟩⟩

theorem lt_iff_dwyBefore (a b : Int) : a < b ↔ DwyBefore a b := by
  constructor
  · exact lt_dwyBefore
  · intro before
    by_contra late
    rcases Int.lt_or_eq_of_le (Int.not_lt.mp late) with less | same
    · have back := lt_dwyBefore less
      unfold DwyBefore at before back
      omega
    · rw [same, DwyBefore] at before
      omega

end AlLanguage.Runtime
