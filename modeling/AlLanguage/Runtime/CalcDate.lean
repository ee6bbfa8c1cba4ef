import AlLanguage.Runtime.DateFormulas

/-!
# Exact date formulas

- The calendar's 64-bit arithmetic is exact on the day counts it can read and faults on the others.
- `CalcDate` is compared with the same terms in unbounded arithmetic.
-/

namespace AlLanguage.Runtime

open Library Calendar

/-! ## Readable day counts -/

/-- The day counts that the calendar's arithmetic reaches without a fault. -/
def Readable (n : Int) : Prop := -9223372036854775808 + 719162 ≤ n ∧ n ≤ 9223372036854775807 - 306

instance (n : Int) : Decidable (Readable n) := inferInstanceAs (Decidable (_ ∧ _))

theorem Readable.inI64 {n : Int} (readable : Readable n) : InI64 n := by
  unfold Readable InI64 at *
  omega

theorem checked_ok {α : Type} {steps : List Int} (value : α) (fits : ∀ step ∈ steps, InI64 step) :
    checked steps value = .ok value :=
  if_pos fits

theorem checked_overflow {α : Type} {steps : List Int} (value : α) {step : Int} (member : step ∈ steps)
    (outside : ¬ InI64 step) : checked steps value = .error .overflow :=
  if_neg fun fits => outside (fits step member)

theorem checked_eq {α : Type} {steps : List Int} (value : α) {Fits : Prop} [Decidable Fits]
    (same : (∀ step ∈ steps, InI64 step) ↔ Fits) : checked steps value = if Fits then .ok value else .error .overflow := by
  by_cases fits : Fits
  · rw [if_pos fits, checked_ok value (same.mpr fits)]
  · rw [if_neg fits, checked, if_neg (fun every => fits (same.mp every))]

/-- The parts that the count of a date goes through. -/
theorem daysFromCivilSteps_parts {month day : Int} (year : Int) (monthIn : 1 ≤ month ∧ month ≤ 12) (dayIn : 1 ≤ day ∧ day ≤ 31) :
    ∃ y era yoe quarters centuries mp doy : Int,
      daysFromCivilSteps year month day =
        [y, if 0 ≤ y then y else y - 399, era * 400, yoe, mp, 153 * mp, 153 * mp + 2, doy + 1, doy,
          yoe * 365, yoe * 365 + quarters, yoe * 365 + quarters - centuries, yoe * 365 + quarters - centuries + doy,
          era * 146097, era * 146097 + (yoe * 365 + quarters - centuries + doy),
          era * 146097 + (yoe * 365 + quarters - centuries + doy) - 719468] ∧
      alDaysFromYmd year month day = era * 146097 + (yoe * 365 + quarters - centuries + doy) - 306 ∧
      y = era * 400 + yoe ∧ (0 ≤ yoe ∧ yoe ≤ 399) ∧ (0 ≤ quarters ∧ quarters ≤ 99) ∧ (0 ≤ centuries ∧ centuries ≤ 3) ∧
      (0 ≤ mp ∧ mp ≤ 11) ∧ (0 ≤ doy ∧ doy ≤ 400) := by
  let y := if month ≤ 2 then year - 1 else year
  let mp := if 2 < month then month - 3 else month + 9
  have eraOf (y : Int) : (if 0 ≤ y then y else y - 399).tdiv 400 = y / 400 := tdiv_floor y (n := 400) (by decide)
  have mpIn : 0 ≤ mp ∧ mp ≤ 11 := by
    dsimp only [mp]
    split <;> omega
  have fifths : (153 * mp + 2).tdiv 5 = (153 * mp + 2) / 5 := Int.tdiv_eq_ediv_of_nonneg (by omega)
  have yoeIn : 0 ≤ y - y / 400 * 400 ∧ y - y / 400 * 400 ≤ 399 := by omega
  have quarters : (y - y / 400 * 400).tdiv 4 = (y - y / 400 * 400) / 4 := Int.tdiv_eq_ediv_of_nonneg yoeIn.1
  have centuries : (y - y / 400 * 400).tdiv 100 = (y - y / 400 * 400) / 100 := Int.tdiv_eq_ediv_of_nonneg yoeIn.1
  refine ⟨y, y / 400, y - y / 400 * 400, (y - y / 400 * 400) / 4, (y - y / 400 * 400) / 100, mp,
    (153 * mp + 2) / 5 + day - 1, ?_, ?_, by ring, yoeIn, by omega, by omega, mpIn, by omega⟩
  · unfold daysFromCivilSteps
    dsimp only
    change [y, _, _, _, mp, _, _, _, _, _, _, _, _, _, _, _] = _
    rw [Int.sub_add_cancel]
    rw [eraOf y, fifths, quarters, centuries]
  · unfold alDaysFromYmd daysFromCivil alEpochToUnixDays
    dsimp only
    rw [eraOf y, fifths, quarters, centuries]
    ring

theorem alDays_eq {month day : Int} (year : Int) (monthIn : 1 ≤ month ∧ month ≤ 12) (dayIn : 1 ≤ day ∧ day ≤ 31) :
    alDays year month day =
      if Readable (alDaysFromYmd year month day) then .ok (alDaysFromYmd year month day) else .error .overflow := by
  apply checked_eq
  obtain ⟨y, era, yoe, quarters, centuries, mp, doy, steps, count, yearOf, yoeIn, quartersIn, centuriesIn, mpIn, doyIn⟩ :=
    daysFromCivilSteps_parts year monthIn dayIn
  rw [steps, count]
  simp only [List.cons_append, List.nil_append, List.forall_mem_cons, List.not_mem_nil, false_implies, implies_true,
    and_true, InI64, Readable]
  constructor
  · intro fits
    omega
  · intro readable
    split <;> omega

theorem tdiv_within {a bound : Int} (n : Int) (low : -bound ≤ a) (high : a ≤ bound) :
    -bound ≤ a.tdiv n ∧ a.tdiv n ≤ bound := by
  have smaller := Int.natAbs_tdiv_le_natAbs a n
  omega

/-- Behind the era nothing is larger than a few multiples of its days. -/
theorem civilFromDaysSteps_fit {days : Int} (z : InI64 (days + 719468))
    (shifted : InI64 (if 0 ≤ days + 719468 then days + 719468 else days + 719468 - 146096)) :
    ∀ step ∈ civilFromDaysSteps days, InI64 step := by
  unfold civilFromDaysSteps
  dsimp only
  have eraOf (z : Int) : (if 0 ≤ z then z else z - 146096).tdiv 146097 = z / 146097 :=
    tdiv_floor z (n := 146097) (by decide)
  rw [eraOf]
  obtain ⟨era, eraIs⟩ : ∃ era, (days + 719468) / 146097 = era := ⟨_, rfl⟩
  obtain ⟨doe, doeIs⟩ : ∃ doe, days + 719468 - era * 146097 = doe := ⟨_, rfl⟩
  have doeIn : 0 ≤ doe ∧ doe ≤ 146096 := by omega
  have eraLow : -9223372036854775808 ≤ era * 146097 := by
    unfold InI64 at shifted
    split at shifted <;> omega
  rw [eraIs, doeIs]
  have fours := tdiv_within 1460 (show -146096 ≤ doe by omega) doeIn.2
  have hundreds := tdiv_within 36524 (show -146096 ≤ doe by omega) doeIn.2
  have last := tdiv_within 146096 (show -146096 ≤ doe by omega) doeIn.2
  generalize doe.tdiv 1460 = a at *
  generalize doe.tdiv 36524 = b at *
  generalize doe.tdiv 146096 = c at *
  have yoeIn := tdiv_within 365 (show -600000 ≤ doe - a + b - c by omega) (show doe - a + b - c ≤ 600000 by omega)
  generalize (doe - a + b - c).tdiv 365 = yoe at *
  have quarters := tdiv_within 4 yoeIn.1 yoeIn.2
  have centuries := tdiv_within 100 yoeIn.1 yoeIn.2
  generalize yoe.tdiv 4 = d at *
  generalize yoe.tdiv 100 = e at *
  obtain ⟨doy, doyIs⟩ : ∃ doy, doe - (365 * yoe + d - e) = doy := ⟨_, rfl⟩
  have doyIn : -1000000000 ≤ doy ∧ doy ≤ 1000000000 := by omega
  rw [doyIs]
  have mpIn := tdiv_within 153 (show -6000000000 ≤ 5 * doy + 2 by omega) (show 5 * doy + 2 ≤ 6000000000 by omega)
  generalize (5 * doy + 2).tdiv 153 = mp at *
  have monthsIn := tdiv_within 5 (show -1000000000000 ≤ 153 * mp + 2 by omega) (show 153 * mp + 2 ≤ 1000000000000 by omega)
  generalize (153 * mp + 2).tdiv 5 = f at *
  simp only [List.forall_mem_cons, List.not_mem_nil, false_implies, implies_true, and_true]
  refine ⟨z, shifted, ?_⟩
  unfold InI64 at *
  clear shifted
  refine ⟨?_, ?_, ?_, ?_, ?_, ?_, ?_, ?_, ?_, ?_, ?_, ?_, ?_, ?_, ?_, ?_, ?_, ?_, ?_⟩
  all_goals omega

theorem ymdOf_eq (days : Int) :
    ymdOf days = if Readable days then .ok (ymdFromAlDays days) else .error .overflow := by
  apply checked_eq
  rw [List.forall_mem_cons]
  unfold alEpochToUnixDays
  constructor
  · rintro ⟨first, steps⟩
    have z := steps (days - 719162 + 719468) List.mem_cons_self
    unfold InI64 Readable at *
    omega
  · intro readable
    refine ⟨?_, civilFromDaysSteps_fit ?_ ?_⟩
    · unfold InI64 Readable at *
      omega
    · unfold InI64 Readable at *
      omega
    · unfold InI64 Readable at *
      split <;> omega

/-! ## Months -/

/-- The first day of the month with an index counted from January of the year 0. -/
def monthStart (index : Int) : Int := alDaysFromYmd (index / 12) (index % 12 + 1) 1

theorem alDaysFromYmd_day (year month day : Int) : alDaysFromYmd year month day = alDaysFromYmd year month 1 + (day - 1) := by
  unfold alDaysFromYmd daysFromCivil
  dsimp only
  ring

theorem alDaysFromYmd_first {month : Int} (year : Int) (monthIn : 1 ≤ month ∧ month ≤ 12) :
    alDaysFromYmd year month 1 = monthStart (year * 12 + (month - 1)) := by
  unfold monthStart
  congr 1 <;> omega

theorem monthStart_succ (index : Int) :
    monthStart (index + 1) = monthStart index + monthLength (index / 12) (index % 12 + 1) := by
  unfold monthStart
  by_cases december : index % 12 = 11
  · have year : (index + 1) / 12 = index / 12 + 1 := by omega
    have month : (index + 1) % 12 = 0 := by omega
    have length : monthLength (index / 12) 12 = 31 := rfl
    rw [year, month, december, alDaysFromYmd, alDaysFromYmd, show (0 : Int) + 1 = 1 from rfl,
      show (11 : Int) + 1 = 12 from rfl, daysFromCivil_year, length]
    have december := alDaysFromYmd_day (index / 12) 12 31
    unfold alDaysFromYmd at december
    omega
  · have year : (index + 1) / 12 = index / 12 := by omega
    have month : (index + 1) % 12 = index % 12 + 1 := by omega
    have next := daysFromCivil_month (index / 12) (index % 12 + 1) (by omega) (by omega)
    have last := alDaysFromYmd_day (index / 12) (index % 12 + 1) (monthLength (index / 12) (index % 12 + 1))
    rw [year, month]
    unfold alDaysFromYmd at *
    omega

/-- A month whose first day can be read has a small index. -/
theorem index_of_readable {index : Int} (readable : Readable (monthStart index)) :
    -400000000000000000 ≤ index ∧ index ≤ 400000000000000000 := by
  unfold monthStart alDaysFromYmd alEpochToUnixDays Readable at readable
  rw [daysFromCivil_eq _ _ (Date.monthOf_index index)] at readable
  unfold marchCount at readable
  split at readable <;> omega

theorem daysInMonth_eq {month : Int} (year : Int) (monthIn : 1 ≤ month ∧ month ≤ 12) :
    daysInMonth year month =
      if Readable (monthStart (year * 12 + (month - 1))) ∧ Readable (monthStart (year * 12 + (month - 1) + 1)) then
        .ok (monthLength year month)
      else .error .overflow := by
  have first := @alDays_eq month 1 year monthIn (by decide)
  rw [alDaysFromYmd_first year monthIn] at first
  have length : monthStart (year * 12 + (month - 1) + 1) - monthStart (year * 12 + (month - 1)) = monthLength year month := by
    rw [monthStart_succ, show (year * 12 + (month - 1)) / 12 = year by omega,
      show (year * 12 + (month - 1)) % 12 + 1 = month by omega]
    ring
  have lengthIn := monthLength_bounds year month
  have difference : checked [monthLength year month] (monthLength year month) = .ok (monthLength year month) := by
    apply checked_ok
    simp only [List.mem_singleton, forall_eq, InI64]
    omega
  -- Behind the following month both cases go on alike.
  have rest {nextYear nextMonth : Int} (nextIn : 1 ≤ nextMonth ∧ nextMonth ≤ 12)
      (following : nextYear * 12 + (nextMonth - 1) = year * 12 + (month - 1) + 1) :
      (do
        let next ← alDays nextYear nextMonth 1
        let first ← alDays year month 1
        checked [next - first] (next - first)) =
      if Readable (monthStart (year * 12 + (month - 1))) ∧ Readable (monthStart (year * 12 + (month - 1) + 1)) then
        Except.ok (monthLength year month)
      else .error .overflow := by
    have next := @alDays_eq nextMonth 1 nextYear nextIn (by decide)
    rw [alDaysFromYmd_first nextYear nextIn, following] at next
    rw [next, first]
    by_cases nextRead : Readable (monthStart (year * 12 + (month - 1) + 1))
    · by_cases firstRead : Readable (monthStart (year * 12 + (month - 1)))
      · rw [if_pos nextRead, if_pos firstRead, if_pos ⟨firstRead, nextRead⟩]
        change checked [_] _ = _
        rw [length, difference]
      · rw [if_pos nextRead, if_neg firstRead, if_neg (fun both => firstRead both.1)]
        rfl
    · have neither : ¬ (Readable (monthStart (year * 12 + (month - 1))) ∧
          Readable (monthStart (year * 12 + (month - 1) + 1))) := fun both => nextRead both.2
      rw [if_neg nextRead, if_neg neither]
      rfl
  unfold daysInMonth
  by_cases december : month = 12
  · rw [if_pos december]
    by_cases fits : InI64 (year + 1)
    · rw [checked_ok _ (by simpa using fits)]
      exact @rest (year + 1) 1 (by decide) (by omega)
    · rw [checked_overflow _ List.mem_cons_self fits, if_neg]
      · rfl
      · intro both
        have small := index_of_readable both.2
        unfold InI64 at fits
        omega
  · rw [if_neg december, checked_ok]
    · exact @rest year (month + 1) (by omega) (by omega)
    · simp only [List.mem_singleton, forall_eq, InI64]
      omega

theorem monthStart_le (index : Int) {day : Int} (dayIn : 1 ≤ day ∧ day ≤ monthLength (index / 12) (index % 12 + 1))
    (first : Readable (monthStart index)) (next : Readable (monthStart (index + 1))) :
    Readable (alDaysFromYmd (index / 12) (index % 12 + 1) day) := by
  have step := monthStart_succ index
  have count := alDaysFromYmd_day (index / 12) (index % 12 + 1) day
  unfold monthStart at *
  unfold Readable at *
  omega

/-! ## Exact terms -/

def alDate (n : Int) : Date := dateOfDays (n - alEpochToUnixDays)

def alCount (date : Date) : Int := alDaysFromYmd date.year date.month date.day

theorem ymdFromAlDays_eq (n : Int) : ymdFromAlDays n = ((alDate n).year, (alDate n).month, (alDate n).day) :=
  Prod.ext rfl (Prod.ext rfl rfl)

/-- The index of the month of a day. -/
def monthIndex (n : Int) : Int := (alDate n).year * 12 + ((alDate n).month - 1)

theorem alCount_alDate (n : Int) : alCount (alDate n) = n := alDaysFromYmd_date n

theorem monthIndex_of_readable {date : Int} (readable : Readable date) :
    -400000000000000000 ≤ monthIndex date ∧ monthIndex date ≤ 400000000000000000 := by
  have monthIn := (alDate date).monthIn
  have dayIn := (alDate date).dayIn
  have length := monthLength_bounds (alDate date).year (alDate date).month
  have count := alCount_alDate date
  unfold alCount alDaysFromYmd alEpochToUnixDays at count
  rw [daysFromCivil_eq _ _ monthIn] at count
  unfold marchCount at count
  unfold monthIndex Readable at *
  split at count <;> omega

theorem addMonths_eq (date months : Int) :
    addMonths date months =
      if Readable date ∧ Readable (monthStart (monthIndex date + months)) ∧
          Readable (monthStart (monthIndex date + months + 1)) then
        .ok (alCount ((alDate date).addMonths months))
      else .error .overflow := by
  have monthIn := (alDate date).monthIn
  have dayIn := (alDate date).dayIn
  unfold addMonths
  rw [ymdOf_eq, ymdFromAlDays_eq]
  by_cases readable : Readable date
  · have small := monthIndex_of_readable readable
    obtain ⟨index, indexIs⟩ : ∃ index, monthIndex date + months = index := ⟨_, rfl⟩
    have indexOf : (alDate date).year * 12 + ((alDate date).month - 1) + months = index := indexIs
    have target : alCount ((alDate date).addMonths months) = alDaysFromYmd (index / 12) (index % 12 + 1)
        (min (alDate date).day (monthLength (index / 12) (index % 12 + 1))) := by
      rw [← indexOf]
      rfl
    rw [if_pos readable, target, indexIs]
    change (do
      let index ← checked [_, _, _, (alDate date).year * 12 + ((alDate date).month - 1) + months]
        ((alDate date).year * 12 + ((alDate date).month - 1) + months)
      let length ← daysInMonth (index / 12) (index % 12 + 1)
      alDays (index / 12) (index % 12 + 1) (min (alDate date).day length)) = _
    rw [indexOf]
    by_cases indexFits : InI64 index
    · have before : ∀ step ∈ [(alDate date).year * 12, (alDate date).month - 1,
          (alDate date).year * 12 + ((alDate date).month - 1), index], InI64 step := by
        simp only [List.forall_mem_cons, List.not_mem_nil, false_implies, implies_true, and_true]
        unfold monthIndex at small
        unfold InI64 at *
        omega
      have length := daysInMonth_eq (index / 12) (Date.monthOf_index index)
      rw [show index / 12 * 12 + (index % 12 + 1 - 1) = index by omega] at length
      rw [checked_ok _ before]
      change (do
        let length ← daysInMonth (index / 12) (index % 12 + 1)
        alDays (index / 12) (index % 12 + 1) (min (alDate date).day length)) = _
      rw [length]
      by_cases both : Readable (monthStart index) ∧ Readable (monthStart (index + 1))
      · have bounds := monthLength_bounds (index / 12) (index % 12 + 1)
        rw [if_pos both, if_pos ⟨readable, both⟩]
        change alDays _ _ _ = _
        rw [alDays_eq _ (Date.monthOf_index index) (by omega), if_pos (monthStart_le index (by omega) both.1 both.2)]
      · have none : ¬ (Readable date ∧ Readable (monthStart index) ∧ Readable (monthStart (index + 1))) :=
          fun all => both all.2
        rw [if_neg both, if_neg none]
        rfl
    · rw [@checked_overflow _ _ _ index (by simp) indexFits, if_neg]
      · rfl
      · rintro ⟨-, first, -⟩
        have inside := index_of_readable first
        unfold InI64 at indexFits
        omega
  · have none : ¬ (Readable date ∧ Readable (monthStart (monthIndex date + months)) ∧
        Readable (monthStart (monthIndex date + months + 1))) := fun all => readable all.1
    rw [if_neg readable, if_neg none]
    rfl

/-- The first or the last day of the period around a date. -/
def periodDay (date : Int) (forward : Bool) (unit : Char) : Option Int :=
  let { year, month, monthIn, .. } := alDate date
  match unit with
  | 'D' => some date
  | 'W' => some (if forward then thursdayOf date + 3 else thursdayOf date - 3)
  | 'M' => some (alCount (if forward then .last year month monthIn else .first year month monthIn))
  | 'Q' => some (alCount (if forward then .last year ((month - 1) / 3 * 3 + 1 + 2) (Date.quarter_months monthIn).2
      else .first year ((month - 1) / 3 * 3 + 1) (Date.quarter_months monthIn).1))
  | 'Y' => some (alCount (if forward then .last year 12 (by decide) else .first year 1 (by decide)))
  | _ => none

/-- A number of units later or earlier. -/
def unitsLater (date count : Int) (unit : Char) : Option Int :=
  match unit with
  | 'D' => some (date + count)
  | 'W' => some (date + 7 * count)
  | 'M' => some (alCount ((alDate date).addMonths count))
  | 'Q' => some (alCount ((alDate date).addMonths (3 * count)))
  | 'Y' => some (alCount ((alDate date).addMonths (12 * count)))
  | _ => none

/-- The first days of a month and of the following one. -/
def monthsRead (index : Int) : List Int := [monthStart index, monthStart (index + 1)]

/-- The day counts that a period goes through. -/
def periodReads (date : Int) (forward : Bool) (unit : Char) : List Int :=
  let year := (alDate date).year
  let quarter := year * 12 + ((alDate date).month - 1) / 3 * 3
  match unit with
  | 'M' => if forward then monthsRead (monthIndex date) else [monthStart (monthIndex date)]
  | 'Q' => if forward then monthsRead (quarter + 2) else [monthStart quarter]
  | 'Y' => if forward then [alDaysFromYmd year 12 31] else [monthStart (year * 12)]
  | _ => []

/-- The day counts that a number of units goes through. -/
def unitsReads (date count : Int) (unit : Char) : List Int :=
  match unit with
  | 'M' => monthsRead (monthIndex date + count)
  | 'Q' => monthsRead (monthIndex date + 3 * count)
  | 'Y' => monthsRead (monthIndex date + 12 * count)
  | _ => []

/-- The sums and products of a number of days or weeks. -/
def unitsSums (date count : Int) (unit : Char) : List Int :=
  match unit with
  | 'D' => [date + count]
  | 'W' => [7 * count, date + 7 * count]
  | _ => []

def AllReadable (days : List Int) : Prop := ∀ n ∈ days, Readable n

instance (days : List Int) : Decidable (AllReadable days) := inferInstanceAs (Decidable (∀ n ∈ days, Readable n))

@[simp] theorem allReadable_nil : AllReadable [] := by
  simp [AllReadable]

@[simp] theorem allReadable_one (n : Int) : AllReadable [n] ↔ Readable n := by
  simp [AllReadable]

theorem allReadable_months (index : Int) :
    AllReadable (monthsRead index) ↔ Readable (monthStart index) ∧ Readable (monthStart (index + 1)) := by
  simp [AllReadable, monthsRead]

/-- Months whose number does not fit are not readable either. -/
theorem scaledMonths_eq {date : Int} (months : Int) (readable : Readable date) :
    (do
      let months ← checked [months] months
      addMonths date months) =
      if AllReadable (monthsRead (monthIndex date + months)) then
        Except.ok (alCount ((alDate date).addMonths months))
      else .error .overflow := by
  simp only [allReadable_months]
  by_cases fits : InI64 months
  · rw [checked_ok months (by simpa using fits)]
    change addMonths date months = _
    rw [addMonths_eq]
    simp [readable]
  · rw [checked_overflow _ List.mem_cons_self fits, if_neg]
    · rfl
    · rintro ⟨first, -⟩
      have small := index_of_readable first
      have near := monthIndex_of_readable readable
      unfold InI64 at fits
      omega

theorem calcUnit_eq {date : Int} (formula : String) (count : Int) (unit : Char) (readable : Readable date) :
    calcUnit formula date count unit =
      if AllReadable (unitsReads date count unit) ∧ ∀ n ∈ unitsSums date count unit, InI64 n then
        match unitsLater date count unit with
        | some next => .ok next
        | none => .error (.report ("unsupported unit '" ++ unit.toString ++ "' in '" ++ formula ++ "'"))
      else .error .overflow := by
  unfold calcUnit unitsReads unitsSums unitsLater
  split
  · simp [checked]
  · simp [checked]
  · rw [addMonths_eq]
    simp [allReadable_months, readable]
  · rw [scaledMonths_eq _ readable]
    simp
  · rw [scaledMonths_eq _ readable]
    simp
  · simp

theorem month_of_index (year : Int) {month : Int} (monthIn : 1 ≤ month ∧ month ≤ 12) :
    (year * 12 + (month - 1)) / 12 = year ∧ (year * 12 + (month - 1)) % 12 + 1 = month := by
  omega

/-- The last day of a month through the length of the month. -/
theorem lastOfMonth_eq {year month : Int} (monthIn : 1 ≤ month ∧ month ≤ 12) :
    (do
      let length ← daysInMonth year month
      alDays year month length) =
      if AllReadable (monthsRead (year * 12 + (month - 1))) then
        Except.ok (alCount (.last year month monthIn))
      else .error .overflow := by
  have bounds := monthLength_bounds year month
  obtain ⟨yearOf, monthOf⟩ := month_of_index year monthIn
  rw [daysInMonth_eq year monthIn]
  simp only [allReadable_months]
  by_cases both : Readable (monthStart (year * 12 + (month - 1))) ∧ Readable (monthStart (year * 12 + (month - 1) + 1))
  · have inside : Readable (alDaysFromYmd year month (monthLength year month)) := by
      have last := @monthStart_le (year * 12 + (month - 1)) (monthLength year month)
      rw [yearOf, monthOf] at last
      exact last (by omega) both.1 both.2
    rw [if_pos both, if_pos both]
    change alDays _ _ _ = _
    rw [alDays_eq year monthIn (by omega), if_pos inside]
    rfl
  · rw [if_neg both, if_neg both]
    rfl

theorem firstOfMonth_eq {year month : Int} (monthIn : 1 ≤ month ∧ month ≤ 12) :
    alDays year month 1 =
      if Readable (monthStart (year * 12 + (month - 1))) then
        Except.ok (alCount (.first year month monthIn))
      else .error .overflow := by
  rw [alDays_eq year monthIn (by decide)]
  simp only [← alDaysFromYmd_first year monthIn]
  rfl

theorem weekdayOf_thursday (date : Int) : thursdayOf date + 3 = date + (7 - weekdayOf date) ∧
    thursdayOf date - 3 = date - (weekdayOf date - 1) := by
  rw [weekdayOf_eq, thursdayOf]
  omega

theorem calcPeriod_eq {date : Int} (formula : String) (forward : Bool) (unit : Char) (readable : Readable date) :
    calcPeriod formula date (alDate date).year (alDate date).month forward unit =
      if AllReadable (periodReads date forward unit) then
        match periodDay date forward unit with
        | some next => .ok next
        | none => .error (.report ("unsupported period 'C" ++ unit.toString ++ "' in '" ++ formula ++ "'"))
      else .error .overflow := by
  have monthIn := (alDate date).monthIn
  unfold calcPeriod periodReads periodDay
  dsimp only
  split
  · simp
  · obtain ⟨sunday, monday⟩ := weekdayOf_thursday date
    have bounds := weekdayOf_bounds date
    have before : InI64 (date - alEpochToUnixDays) := by
      unfold alEpochToUnixDays Readable InI64 at *
      omega
    have forwards : ∀ step ∈ [7 - weekdayOf date, date + (7 - weekdayOf date)], InI64 step := by
      simp only [List.forall_mem_cons, List.not_mem_nil, false_implies, implies_true, and_true]
      unfold Readable InI64 at *
      omega
    have backwards : ∀ step ∈ [weekdayOf date - 1, date - (weekdayOf date - 1)], InI64 step := by
      simp only [List.forall_mem_cons, List.not_mem_nil, false_implies, implies_true, and_true]
      unfold Readable InI64 at *
      omega
    rw [checked_ok _ (by simpa using before), sunday, monday]
    cases forward with
    | true =>
        simp only [if_true]
        exact checked_ok _ forwards
    | false =>
        simp only [Bool.false_eq_true, if_false]
        exact checked_ok _ backwards
  · cases forward with
    | true => simpa [monthIndex] using lastOfMonth_eq monthIn
    | false => simpa [monthIndex] using firstOfMonth_eq monthIn
  · obtain ⟨first, last⟩ := Date.quarter_months monthIn
    have truncated : ((alDate date).month - 1).tdiv 3 = ((alDate date).month - 1) / 3 :=
      Int.tdiv_eq_ediv_of_nonneg (by omega)
    rw [truncated]
    cases forward with
    | true =>
        have month := @lastOfMonth_eq (alDate date).year _ last
        have index : (alDate date).year * 12 + (((alDate date).month - 1) / 3 * 3 + 1 + 2 - 1) =
            (alDate date).year * 12 + ((alDate date).month - 1) / 3 * 3 + 2 := by ring
        rw [index] at month
        simpa using month
    | false =>
        have month := @firstOfMonth_eq (alDate date).year _ first
        rw [Int.add_sub_cancel] at month
        simpa using month
  · cases forward with
    | true =>
        have day := @alDays_eq 12 31 (alDate date).year (by decide) (by decide)
        have length : monthLength (alDate date).year 12 = 31 := rfl
        simpa [alCount, Date.last, length] using day
    | false =>
        have month := @firstOfMonth_eq (alDate date).year 1 (by decide)
        rw [Int.sub_self, Int.add_zero] at month
        simpa using month
  · simp

/-! ## Reading -/

namespace FormulaTerm

def text (term : FormulaTerm) : List Char :=
  term.sign.toList ++ (if term.current then ['C'] else []) ++ term.digits ++ term.unit.toList

/-- The count without a bound. -/
def exactCount (term : FormulaTerm) : Int :=
  if term.digits = [] then 1 else (Nat.ofDigitChars 10 term.digits 0 : Nat)

theorem exactCount_nonneg (term : FormulaTerm) : 0 ≤ term.exactCount := by
  unfold exactCount
  split
  · decide
  · exact Int.natCast_nonneg _

theorem count_eq {term : FormulaTerm} (digits : ∀ c ∈ term.digits, c.isDigit = true) :
    term.count = if InI64 term.exactCount then term.exactCount else 0 := by
  unfold count exactCount
  by_cases none : term.digits = []
  · rw [if_pos none, if_pos none]
    rfl
  · have value : digitsValue term.digits = some (Nat.ofDigitChars 10 term.digits 0) :=
      if_pos ⟨none, List.all_eq_true.mpr digits⟩
    have parsed : parseI64 (String.ofList term.digits) = i64OfInt (Nat.ofDigitChars 10 term.digits 0 : Nat) := by
      unfold parseI64
      rw [String.toList_ofList]
      split
      next shape => exact absurd (digits '-' (by simp [shape])) (by decide)
      next shape => exact absurd (digits '+' (by simp [shape])) (by decide)
      next => simp [value]
    rw [if_neg none, if_neg none, parsed]
    by_cases fits : InI64 (Nat.ofDigitChars 10 term.digits 0 : Nat)
    · have low : (-2 ^ 63 : Int) ≤ (Nat.ofDigitChars 10 term.digits 0 : Nat) := fits.1
      have high : ((Nat.ofDigitChars 10 term.digits 0 : Nat) : Int) < 2 ^ 63 := Int.lt_of_le_sub_one fits.2
      have read : i64OfInt (Nat.ofDigitChars 10 term.digits 0 : Nat) = some _ := if_pos fits
      rw [if_pos fits, read]
      exact Int64.toInt_ofInt_of_le low high
    · have unread : i64OfInt (Nat.ofDigitChars 10 term.digits 0 : Nat) = Option.none := if_neg fits
      rw [if_neg fits, unread]
      rfl

end FormulaTerm

theorem readTerm_text (text : List Char) : (readTerm text).1.text ++ (readTerm text).2 = text := by
  have signed (text : List Char) : (readSign text).1.toList ++ (readSign text).2 = text := by
    unfold readSign
    split <;> rfl
  have marked (text : List Char) : (if (readCurrent text).1 then ['C'] else []) ++ (readCurrent text).2 = text := by
    unfold readCurrent
    split <;> rfl
  have digits := List.takeWhile_append_dropWhile (p := Char.isDigit) (l := (readCurrent (readSign text).2).2)
  unfold readTerm FormulaTerm.text
  cases following : (readCurrent (readSign text).2).2.dropWhile Char.isDigit with
  | nil =>
      rw [following, List.append_nil] at digits
      simp [following, digits, marked, signed]
  | cons unit rest =>
      rw [following] at digits
      simp [following, digits, marked, signed]

theorem readTerm_digits (text : List Char) : ∀ c ∈ (readTerm text).1.digits, c.isDigit = true := by
  intro c member
  unfold readTerm at member
  cases following : (readCurrent (readSign text).2).2.dropWhile Char.isDigit with
  | nil =>
      simp only [following] at member
      exact List.mem_takeWhile_imp member
  | cons unit rest =>
      simp only [following] at member
      exact List.mem_takeWhile_imp member

theorem readTerm_unit (text : List Char) : (readTerm text).1.unit = none ∧ (readTerm text).2 = [] ∨
    ∃ unit, (readTerm text).1.unit = some unit := by
  unfold readTerm
  cases following : (readCurrent (readSign text).2).2.dropWhile Char.isDigit with
  | nil => simp [following]
  | cons unit rest => simp [following]

theorem readTerm_shorter (c : Char) (text : List Char) : (readTerm (c :: text)).2.length ≤ text.length := by
  rcases readTerm_unit (c :: text) with ⟨-, nothing⟩ | ⟨unit, read⟩
  · rw [nothing]
    exact Nat.zero_le _
  · have whole := congrArg List.length (readTerm_text (c :: text))
    rw [FormulaTerm.text, read, List.length_append, List.length_append, List.length_cons] at whole
    have one : (some unit).toList.length = 1 := rfl
    omega

/-- Nothing of a formula is left out. -/
theorem readTerms_text : ∀ (fuel : Nat) (text : List Char), text.length ≤ fuel →
    (readTerms fuel text).flatMap FormulaTerm.text = text := by
  intro fuel
  induction fuel with
  | zero =>
      intro text short
      rw [List.length_eq_zero_iff.mp (Nat.le_zero.mp short)]
      rfl
  | succ fuel ih =>
      intro text short
      cases text with
      | nil => rfl
      | cons c text =>
          have shorter := readTerm_shorter c text
          have bound : (readTerm (c :: text)).2.length ≤ fuel := by
            rw [List.length_cons] at short
            omega
          rw [readTerms, List.flatMap_cons, ih _ bound, readTerm_text]

theorem formulaTerms_text (formula : String) :
    (formulaTerms formula).flatMap FormulaTerm.text = formulaText formula :=
  readTerms_text _ _ (Nat.le_refl _)

theorem readTerms_digits (fuel : Nat) (text : List Char) :
    ∀ term ∈ readTerms fuel text, ∀ c ∈ term.digits, c.isDigit = true := by
  induction fuel generalizing text with
  | zero => simp [readTerms]
  | succ fuel ih =>
      cases text with
      | nil => simp [readTerms]
      | cons c text =>
          intro term member
          rcases List.mem_cons.mp member with rfl | later
          · exact readTerm_digits _
          · exact ih _ term later

/-! ## Runs of terms -/

namespace FormulaTerm

/-- What the term's unit makes of a date in unbounded arithmetic. -/
def apply (term : FormulaTerm) (count date : Int) : Option Int :=
  term.unit.bind fun unit =>
    if term.current then periodDay date (0 < term.signOf) unit else unitsLater date (term.signOf * count) unit

def Supported (term : FormulaTerm) : Prop := ∃ unit, term.unit = some unit ∧ unit ∈ ['D', 'W', 'M', 'Q', 'Y']

/-- The day counts of a unit are readable and its sums fit. -/
def UnitWithin (term : FormulaTerm) (date : Int) (unit : Char) : Prop :=
  if term.current then AllReadable (periodReads date (0 < term.signOf) unit)
  else AllReadable (unitsReads date (term.signOf * term.count) unit) ∧
    ∀ n ∈ unitsSums date (term.signOf * term.count) unit, InI64 n

instance (term : FormulaTerm) (date : Int) (unit : Char) : Decidable (term.UnitWithin date unit) := by
  unfold UnitWithin
  infer_instance

theorem apply_isSome (term : FormulaTerm) (count date : Int) : (term.apply count date).isSome = true ↔ term.Supported := by
  have period (forward : Bool) (unit : Char) :
      (periodDay date forward unit).isSome = true ↔ unit ∈ ['D', 'W', 'M', 'Q', 'Y'] := by
    unfold periodDay
    dsimp only
    split <;> simp_all
  have later (count : Int) (unit : Char) :
      (unitsLater date count unit).isSome = true ↔ unit ∈ ['D', 'W', 'M', 'Q', 'Y'] := by
    unfold unitsLater
    split <;> simp_all
  unfold apply Supported
  cases term.unit with
  | none => simp
  | some unit =>
      rw [Option.bind_some]
      simp only [Option.some.injEq, exists_eq_left']
      split
      · exact period _ unit
      · exact later _ unit

theorem signed_count {term : FormulaTerm} (digits : ∀ c ∈ term.digits, c.isDigit = true) : InI64 (term.signOf * term.count) := by
  have nonneg := term.exactCount_nonneg
  rw [count_eq digits]
  unfold signOf
  split
  next => 
    split
    next fits =>
      unfold InI64 at *
      omega
    next => decide
  next =>
    split
    next fits => simpa using fits
    next => decide

end FormulaTerm

theorem calcTerm_none {term : FormulaTerm} (formula : String) (date : Int) (ends : term.unit = none) :
    ∃ text, calcTerm formula date term = .error (.report text) := by
  unfold calcTerm
  rw [ends]
  exact ⟨_, rfl⟩

/-- A term with a unit is exact where its day counts are readable. -/
theorem calcTerm_some {term : FormulaTerm} (formula : String) (date : Int) (digits : ∀ c ∈ term.digits, c.isDigit = true)
    {unit : Char} (read : term.unit = some unit) :
    ∃ text, calcTerm formula date term =
      if Readable date ∧ term.UnitWithin date unit then
        match term.apply term.count date with
        | some next => .ok next
        | none => .error (.report text)
      else .error .overflow := by
  unfold calcTerm FormulaTerm.apply
  rw [read, Option.bind_some]
  by_cases readable : Readable date
  · have ymd : ymdOf date = .ok (ymdFromAlDays date) := by rw [ymdOf_eq, if_pos readable]
    dsimp only
    rw [ymd]
    by_cases current : term.current = true
    · have within : term.UnitWithin date unit ↔ AllReadable (periodReads date (0 < term.signOf) unit) := by
        simp [FormulaTerm.UnitWithin, current]
      refine ⟨"unsupported period 'C" ++ unit.toString ++ "' in '" ++ formula ++ "'", ?_⟩
      simp only [within, readable, true_and, current, if_true]
      exact calcPeriod_eq formula (0 < term.signOf) unit readable
    · have within : term.UnitWithin date unit ↔ AllReadable (unitsReads date (term.signOf * term.count) unit) ∧
          ∀ n ∈ unitsSums date (term.signOf * term.count) unit, InI64 n := by
        simp [FormulaTerm.UnitWithin, current]
      have count : checked [term.signOf * term.count] (term.signOf * term.count) = .ok (term.signOf * term.count) :=
        checked_ok _ (by simpa using FormulaTerm.signed_count digits)
      refine ⟨"unsupported unit '" ++ unit.toString ++ "' in '" ++ formula ++ "'", ?_⟩
      simp only [within, readable, true_and, current]
      change (do
        let count ← checked [term.signOf * term.count] (term.signOf * term.count)
        calcUnit formula date count unit) = _
      rw [count]
      exact calcUnit_eq formula (term.signOf * term.count) unit readable
  · have ymd : ymdOf date = .error .overflow := by rw [ymdOf_eq, if_neg readable]
    refine ⟨"", ?_⟩
    dsimp only
    rw [ymd, if_neg (fun both => readable both.1)]
    rfl

/-- No term up to the first one without a unit or with another one leaves the readable day counts. -/
def Runs : List FormulaTerm → Int → Prop
  | [], _ => True
  | term :: terms, date =>
      match term.unit with
      | none => True
      | some unit => (Readable date ∧ term.UnitWithin date unit) ∧
          match term.apply term.count date with
          | none => True
          | some next => Runs terms next

/-- The terms in unbounded arithmetic. -/
def exactDate (terms : List FormulaTerm) (date : Int) : Option Int :=
  terms.foldlM (fun date term => term.apply term.exactCount date) date

/-- What a formula comes to, by whether its run is readable and its terms are supported. -/
theorem calcTerms_outcome (formula : String) (terms : List FormulaTerm)
    (digits : ∀ term ∈ terms, ∀ c ∈ term.digits, c.isDigit = true) (date : Int) :
    (¬ Runs terms date → terms.foldlM (calcTerm formula) date = .error .overflow) ∧
    (Runs terms date → (∃ term ∈ terms, ¬ term.Supported) →
      ∃ text, terms.foldlM (calcTerm formula) date = .error (.report text)) ∧
    (Runs terms date → (∀ term ∈ terms, term.Supported) →
      ∃ result, terms.foldlM (calcTerm formula) date = .ok result ∧
        ((∀ term ∈ terms, InI64 term.exactCount) → exactDate terms date = some result)) := by
  induction terms generalizing date with
  | nil => simp [Runs, exactDate, pure, Except.pure]
  | cons term terms ih =>
      obtain ⟨here, later⟩ := List.forall_mem_cons.mp digits
      rw [List.foldlM_cons]
      cases read : term.unit with
      | none =>
          obtain ⟨text, report⟩ := calcTerm_none formula date read
          have unsupported : ¬ term.Supported := by
            rintro ⟨unit, has, -⟩
            rw [read] at has
            exact absurd has (by simp)
          rw [report]
          refine ⟨fun none => absurd (by simp [Runs, read]) none, fun _ _ => ⟨text, rfl⟩, ?_⟩
          intro _ supported
          exact absurd (supported term List.mem_cons_self) unsupported
      | some unit =>
          obtain ⟨text, calculated⟩ := calcTerm_some formula date here read
          have supported := term.apply_isSome term.count date
          by_cases within : Readable date ∧ term.UnitWithin date unit
          · rw [if_pos within] at calculated
            cases applied : term.apply term.count date with
            | none =>
                rw [applied] at calculated supported
                rw [calculated]
                have unsupported : ¬ term.Supported := fun has => absurd (supported.mpr has) (by simp)
                refine ⟨fun none => absurd (by simp [Runs, read, within, applied]) none, fun _ _ => ⟨text, rfl⟩, ?_⟩
                intro _ every
                exact absurd (every term List.mem_cons_self) unsupported
            | some next =>
                rw [applied] at calculated supported
                rw [calculated]
                obtain ⟨faults, reports, results⟩ := ih later next
                have runs : Runs (term :: terms) date ↔ Runs terms next := by simp [Runs, read, within, applied]
                have has : term.Supported := supported.mp rfl
                rw [runs]
                refine ⟨faults, ?_, ?_⟩
                · rintro run ⟨other, member, not⟩
                  rcases List.mem_cons.mp member with rfl | behind
                  · exact absurd has not
                  · exact reports run ⟨other, behind, not⟩
                · intro run every
                  obtain ⟨result, computed, exact_⟩ := results run (fun other member => every other (List.mem_cons_of_mem _ member))
                  refine ⟨result, computed, ?_⟩
                  intro counts
                  obtain ⟨count, counts⟩ := List.forall_mem_cons.mp counts
                  have same : term.count = term.exactCount := by rw [FormulaTerm.count_eq here, if_pos count]
                  rw [exactDate, List.foldlM_cons, ← same, applied]
                  exact exact_ counts
          · rw [if_neg within] at calculated
            rw [calculated]
            have outside : ¬ Runs (term :: terms) date := by simp [Runs, read, within]
            exact ⟨fun _ => rfl, fun run => absurd run outside, fun run => absurd run outside⟩

/-! ## The calculation -/

def ValidYear (date : Int) : Prop := 1 ≤ yearOf date ∧ yearOf date ≤ 9999

instance (date : Int) : Decidable (ValidYear date) := inferInstanceAs (Decidable (_ ∧ _))

/-- A report, or the exact date of the terms, every count of which fits, and again a date of the years 1 to 9999. -/
def ExactOrReported (formula : String) (date : Int) : Prop :=
  match calcDate formula date with
  | .error (.report _) => True
  | .error .overflow => False
  | .ok result => (∀ term ∈ formulaTerms formula, InI64 term.exactCount) ∧
      exactDate (formulaTerms formula) date = some result ∧ ValidYear result

/-- The run is readable, and there is a term to report or the counts fit and the exact date is valid. -/
def Calculable (formula : String) (date : Int) : Prop :=
  Runs (formulaTerms formula) date ∧
    ((∃ term ∈ formulaTerms formula, ¬ term.Supported) ∨
      (∀ term ∈ formulaTerms formula, InI64 term.exactCount) ∧
        ∀ result, exactDate (formulaTerms formula) date = some result → ValidYear result)

theorem calcDate_exact_iff (formula : String) (date : Int) (valid : ValidYear date) :
    ExactOrReported formula date ↔ Calculable formula date := by
  have digits : ∀ term ∈ formulaTerms formula, ∀ c ∈ term.digits, c.isDigit = true := readTerms_digits _ _
  unfold ExactOrReported Calculable calcDate
  by_cases empty : formulaText formula = []
  · have none : formulaTerms formula = [] := by
      unfold formulaTerms
      rw [empty]
      rfl
    rw [if_pos empty, none]
    simp [Runs, exactDate, valid]
  · rw [if_neg empty]
    generalize formulaTerms formula = terms at digits ⊢
    obtain ⟨faults, reports, results⟩ := calcTerms_outcome formula terms digits date
    by_cases run : Runs terms date
    · by_cases supported : ∀ term ∈ terms, term.Supported
      · obtain ⟨result, computed, exact_⟩ := results run supported
        rw [computed]
        dsimp only
        constructor
        · rintro ⟨counts, same, inYears⟩
          refine ⟨run, .inr ⟨counts, ?_⟩⟩
          intro other computed
          rw [same] at computed
          rwa [← Option.some.inj computed]
        · rintro ⟨-, ⟨term, member, not⟩ | ⟨counts, years⟩⟩
          · exact absurd (supported term member) not
          · exact ⟨counts, exact_ counts, years result (exact_ counts)⟩
      · have unsupported : ∃ term ∈ terms, ¬ term.Supported := by
          simpa only [not_forall, exists_prop] using supported
        obtain ⟨text, reported⟩ := reports run unsupported
        rw [reported]
        exact ⟨fun _ => ⟨run, .inl unsupported⟩, fun _ => trivial⟩
    · rw [faults run]
      exact ⟨False.elim, fun calculable => run calculable.1⟩

/-- The last day of the month of 2024-02-15. -/
theorem calcDate_exact_iff_month : ValidYear 738930 ∧ (ExactOrReported "<CM>" 738930 ↔ Calculable "<CM>" 738930) :=
  ⟨by decide, calcDate_exact_iff "<CM>" 738930 (by decide)⟩

/-- A count that does not fit leaves the date where it is. -/
theorem large_count_ignored : ValidYear 738885 ∧ calcDate "<99999999999999999999D>" 738885 = .ok 738885 ∧
    ¬ ExactOrReported "<99999999999999999999D>" 738885 := by
  have computed : calcDate "<99999999999999999999D>" 738885 = .ok 738885 := by decide
  refine ⟨by decide, computed, ?_⟩
  unfold ExactOrReported
  rw [computed]
  rintro ⟨counts, -⟩
  exact absurd counts (by decide)

end AlLanguage.Runtime
