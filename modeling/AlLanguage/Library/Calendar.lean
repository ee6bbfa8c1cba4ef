import Mathlib

/-!
# The proleptic Gregorian calendar

- A count that goes up by one from each element to the next one, and from which the element can be found again, is an
  order isomorphism with the integers.
- Dates by year, month and day, and the date after a date.
-/

namespace AlLanguage.Library

universe u

/-! ## Counts -/

namespace Count

variable {α : Type u} {count : α → Int} {find : Int → α} {next : α → α}

theorem exists_count (step : ∀ a, count (next a) = count a + 1) (low : ∀ n, ∃ a, count a ≤ n) (n : Int) :
    ∃ a, count a = n := by
  have climb : ∀ (k : Nat) (a : α), ∃ b, count b = count a + k := by
    intro k
    induction k with
    | zero => exact fun a => ⟨a, (Int.add_zero _).symm⟩
    | succ k ih =>
        intro a
        obtain ⟨b, counted⟩ := ih (next a)
        refine ⟨b, ?_⟩
        rw [counted, step]
        push_cast
        ring
  obtain ⟨a, below⟩ := low n
  obtain ⟨b, counted⟩ := climb (n - count a).toNat a
  refine ⟨b, ?_⟩
  rw [counted, Int.toNat_of_nonneg (Int.sub_nonneg.mpr below)]
  ring

theorem count_find (left : ∀ a, find (count a) = a) (step : ∀ a, count (next a) = count a + 1)
    (low : ∀ n, ∃ a, count a ≤ n) (n : Int) : count (find n) = n := by
  obtain ⟨a, rfl⟩ := exists_count step low n
  rw [left]

theorem find_succ (left : ∀ a, find (count a) = a) (step : ∀ a, count (next a) = count a + 1)
    (low : ∀ n, ∃ a, count a ≤ n) (n : Int) : find (n + 1) = next (find n) := by
  obtain ⟨a, rfl⟩ := exists_count step low n
  rw [← step, left, left]

/-- An order in which each element comes before the next one is the order of the counts. -/
theorem before_iff {before : α → α → Prop} (left : ∀ a, find (count a) = a) (step : ∀ a, count (next a) = count a + 1)
    (low : ∀ n, ∃ a, count a ≤ n) (before_next : ∀ a, before a (next a)) (irrefl : ∀ a, ¬ before a a)
    (trans : ∀ a b c, before a b → before b c → before a c) (a b : α) : before a b ↔ count a < count b := by
  have climb : ∀ (k : Nat) (n : Int), before (find n) (find (n + k + 1)) := by
    intro k n
    induction k with
    | zero =>
        rw [Nat.cast_zero, Int.add_zero, find_succ left step low]
        exact before_next _
    | succ k ih =>
        refine trans _ _ _ ih ?_
        rw [Nat.cast_succ, ← Int.add_assoc, find_succ left step low (n + k + 1)]
        exact before_next _
  have upward : ∀ a b, count a < count b → before a b := by
    intro a b less
    have reached := climb (count b - count a - 1).toNat (count a)
    rw [Int.toNat_of_nonneg (by omega), left] at reached
    rwa [show count a + (count b - count a - 1) + 1 = count b by ring, left] at reached
  constructor
  · intro first
    rcases Int.lt_trichotomy (count a) (count b) with less | same | more
    · exact less
    · rw [← left a, same, left] at first
      exact absurd first (irrefl b)
    · exact absurd (trans a b a first (upward b a more)) (irrefl a)
  · exact upward a b

end Count

/-! ## Dates -/

namespace Calendar

def isLeap (year : Int) : Bool := year % 4 = 0 ∧ (year % 100 ≠ 0 ∨ year % 400 = 0)

def monthLength (year month : Int) : Int :=
  if month = 2 then if isLeap year then 29 else 28
  else if month = 4 ∨ month = 6 ∨ month = 9 ∨ month = 11 then 30
  else 31

theorem monthLength_bounds (year month : Int) : 28 ≤ monthLength year month ∧ monthLength year month ≤ 31 := by
  unfold monthLength
  split
  · split <;> omega
  · split <;> omega

/-- A date of the calendar. -/
@[ext] structure Date where
  year : Int
  month : Int
  day : Int
  monthIn : 1 ≤ month ∧ month ≤ 12
  dayIn : 1 ≤ day ∧ day ≤ monthLength year month

namespace Date

/-- The first day of a month. -/
def first (year month : Int) (monthIn : 1 ≤ month ∧ month ≤ 12) : Date where
  year := year
  month := month
  day := 1
  monthIn := monthIn
  dayIn := ⟨Int.le_refl 1, by have := (monthLength_bounds year month).1; omega⟩

def next (date : Date) : Date :=
  if within : date.day < monthLength date.year date.month then
    ⟨date.year, date.month, date.day + 1, date.monthIn, by have := date.dayIn; omega⟩
  else if inYear : date.month < 12 then first date.year (date.month + 1) (by have := date.monthIn; omega)
  else first (date.year + 1) 1 (by omega)

/-- The last day of a month. -/
def last (year month : Int) (monthIn : 1 ≤ month ∧ month ≤ 12) : Date where
  year := year
  month := month
  day := monthLength year month
  monthIn := monthIn
  dayIn := ⟨by have := (monthLength_bounds year month).1; omega, Int.le_refl _⟩

theorem monthOf_index (index : Int) : 1 ≤ index % 12 + 1 ∧ index % 12 + 1 ≤ 12 := by
  omega

/-- A number of months later or earlier. The day is the target month's last one at most. -/
def addMonths (date : Date) (months : Int) : Date :=
  let index := date.year * 12 + (date.month - 1) + months
  { year := index / 12
    month := index % 12 + 1
    day := min date.day (monthLength (index / 12) (index % 12 + 1))
    monthIn := monthOf_index index
    dayIn := by
      have length := (monthLength_bounds (index / 12) (index % 12 + 1)).1
      have day := date.dayIn.1
      omega }

/-- The first and the last month of the quarter of a month. -/
theorem quarter_months {month : Int} (monthIn : 1 ≤ month ∧ month ≤ 12) :
    (1 ≤ (month - 1) / 3 * 3 + 1 ∧ (month - 1) / 3 * 3 + 1 ≤ 12) ∧
    (1 ≤ (month - 1) / 3 * 3 + 1 + 2 ∧ (month - 1) / 3 * 3 + 1 + 2 ≤ 12) := by
  omega

/-- Year, month and day in this order. -/
def Before (a b : Date) : Prop :=
  a.year < b.year ∨ a.year = b.year ∧ (a.month < b.month ∨ a.month = b.month ∧ a.day < b.day)

instance (a b : Date) : Decidable (a.Before b) := inferInstanceAs (Decidable (_ ∨ _))

theorem before_next (date : Date) : date.Before date.next := by
  unfold next Before
  split
  · simp
  · split
    · simp [first]
    · simp [first]

theorem before_irrefl (date : Date) : ¬ date.Before date := by
  simp [Before]

theorem before_trans (a b c : Date) (first : a.Before b) (second : b.Before c) : a.Before c := by
  unfold Before at *
  omega

/-- A count goes up by one when it does so within a month, to the next month and to the next year. -/
theorem count_next {count : Int → Int → Int → Int} (day : ∀ year month day, count year month (day + 1) = count year month day + 1)
    (month : ∀ year month, 1 ≤ month → month < 12 →
      count year (month + 1) 1 = count year month (monthLength year month) + 1)
    (year : ∀ year, count (year + 1) 1 1 = count year 12 31 + 1) (date : Date) :
    count date.next.year date.next.month date.next.day = count date.year date.month date.day + 1 := by
  have monthIn := date.monthIn
  have dayIn := date.dayIn
  unfold next
  split
  next => exact day _ _ _
  next last =>
    have same : date.day = monthLength date.year date.month := by omega
    split
    next inYear =>
      rw [same]
      exact month _ _ monthIn.1 inYear
    next =>
      have december : date.month = 12 := by omega
      have lastDay : monthLength date.year 12 = 31 := rfl
      rw [same, december, lastDay]
      exact year _

end Date

end Calendar

end AlLanguage.Library
