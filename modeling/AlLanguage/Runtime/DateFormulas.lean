import AlLanguage.Runtime.Weeks

/-!
# Date formulas

- `CalcDate` reads terms such as `+1D`, `-2W`, `3M`, `CM` and applies them left to right.
- The day counts are 64-bit integers. A step outside of them is a fault of the calculation.
-/

namespace AlLanguage.Runtime

open Library Calendar

def InI64 (n : Int) : Prop := -9223372036854775808 ≤ n ∧ n ≤ 9223372036854775807

instance (n : Int) : Decidable (InI64 n) := inferInstanceAs (Decidable (_ ∧ _))

/-- What ends a calculation. -/
inductive Fault where
  | report (text : String)
  | overflow
deriving DecidableEq

/-- A value that is computed through the listed intermediate ones. -/
def checked {α : Type} (steps : List Int) (value : α) : Except Fault α :=
  if ∀ step ∈ steps, InI64 step then .ok value else .error .overflow

/-! ## The calendar's 64-bit arithmetic -/

def daysFromCivilSteps (year month day : Int) : List Int :=
  let y := if month ≤ 2 then year - 1 else year
  let shifted := if 0 ≤ y then y else y - 399
  let era := shifted.tdiv 400
  let yoe := y - era * 400
  let mp := if 2 < month then month - 3 else month + 9
  let doy := (153 * mp + 2).tdiv 5 + day - 1
  let doe := yoe * 365 + yoe.tdiv 4 - yoe.tdiv 100 + doy
  [y, shifted, era * 400, yoe, mp, 153 * mp, 153 * mp + 2, (153 * mp + 2).tdiv 5 + day, doy,
    yoe * 365, yoe * 365 + yoe.tdiv 4, yoe * 365 + yoe.tdiv 4 - yoe.tdiv 100, doe,
    era * 146097, era * 146097 + doe, era * 146097 + doe - 719468]

def civilFromDaysSteps (days : Int) : List Int :=
  let z := days + 719468
  let shifted := if 0 ≤ z then z else z - 146096
  let era := shifted.tdiv 146097
  let doe := z - era * 146097
  let yoe := (doe - doe.tdiv 1460 + doe.tdiv 36524 - doe.tdiv 146096).tdiv 365
  let y := yoe + era * 400
  let doy := doe - (365 * yoe + yoe.tdiv 4 - yoe.tdiv 100)
  let mp := (5 * doy + 2).tdiv 153
  let month := if mp < 10 then mp + 3 else mp - 9
  [z, shifted, era * 146097, doe, doe - doe.tdiv 1460, doe - doe.tdiv 1460 + doe.tdiv 36524,
    doe - doe.tdiv 1460 + doe.tdiv 36524 - doe.tdiv 146096, era * 400, y, 365 * yoe, 365 * yoe + yoe.tdiv 4,
    365 * yoe + yoe.tdiv 4 - yoe.tdiv 100, doy, 5 * doy, 5 * doy + 2, 153 * mp, 153 * mp + 2,
    doy - (153 * mp + 2).tdiv 5, doy - (153 * mp + 2).tdiv 5 + 1, month, if month ≤ 2 then y + 1 else y]

def alDays (year month day : Int) : Except Fault Int :=
  checked (daysFromCivilSteps year month day ++ [alDaysFromYmd year month day]) (alDaysFromYmd year month day)

def ymdOf (days : Int) : Except Fault (Int × Int × Int) :=
  checked ((days - alEpochToUnixDays) :: civilFromDaysSteps (days - alEpochToUnixDays)) (ymdFromAlDays days)

def daysInMonth (year month : Int) : Except Fault Int := do
  let (nextYear, nextMonth) ← if month = 12 then checked [year + 1] (year + 1, 1) else checked [month + 1] (year, month + 1)
  let next ← alDays nextYear nextMonth 1
  let first ← alDays year month 1
  checked [next - first] (next - first)

def addMonths (date months : Int) : Except Fault Int := do
  let (year, month, day) ← ymdOf date
  let index ← checked [year * 12, month - 1, year * 12 + (month - 1), year * 12 + (month - 1) + months]
    (year * 12 + (month - 1) + months)
  let year := index / 12
  let month := index % 12 + 1
  let length ← daysInMonth year month
  alDays year month (min day length)

/-! ## Terms -/

/-- A term as it is read. A formula can end before the unit. -/
structure FormulaTerm where
  sign : Option Char
  current : Bool
  digits : List Char
  unit : Option Char
deriving DecidableEq

namespace FormulaTerm

def signOf (term : FormulaTerm) : Int := if term.sign = some '-' then -1 else 1

/-- Digits that do not fit `i64` count as 0. -/
def count (term : FormulaTerm) : Int :=
  if term.digits = [] then 1 else ((parseI64 (String.ofList term.digits)).map Int64.toInt).getD 0

end FormulaTerm

def readSign : List Char → Option Char × List Char
  | '+' :: rest => (some '+', rest)
  | '-' :: rest => (some '-', rest)
  | text => (none, text)

def readCurrent : List Char → Bool × List Char
  | 'C' :: rest => (true, rest)
  | text => (false, text)

def readTerm (text : List Char) : FormulaTerm × List Char :=
  let (sign, text) := readSign text
  let (current, text) := readCurrent text
  let digits := text.takeWhile Char.isDigit
  match text.dropWhile Char.isDigit with
  | [] => (⟨sign, current, digits, none⟩, [])
  | unit :: rest => (⟨sign, current, digits, some unit⟩, rest)

/-- The terms of a text. The fuel is its length. -/
def readTerms : Nat → List Char → List FormulaTerm
  | 0, _ => []
  | _ + 1, [] => []
  | fuel + 1, c :: text =>
      let (term, rest) := readTerm (c :: text)
      term :: readTerms fuel rest

def formulaText (formula : String) : List Char :=
  let bare := ((trim formula).toList.dropWhile (· = '<')).rdropWhile (· = '>')
  (bare.filter fun c => !isWhitespace c).map Char.toUpper

def formulaTerms (formula : String) : List FormulaTerm :=
  readTerms (formulaText formula).length (formulaText formula)

/-! ## The calculation -/

def calcPeriod (formula : String) (date year month : Int) (forward : Bool) (unit : Char) : Except Fault Int :=
  match unit with
  | 'D' => .ok date
  | 'W' => do
      let weekday ← checked [date - alEpochToUnixDays] (weekdayOf date)
      if forward then checked [7 - weekday, date + (7 - weekday)] (date + (7 - weekday))
      else checked [weekday - 1, date - (weekday - 1)] (date - (weekday - 1))
  | 'M' => do
      if forward then
        let length ← daysInMonth year month
        alDays year month length
      else alDays year month 1
  | 'Q' => do
      let first := (month - 1).tdiv 3 * 3 + 1
      if forward then
        let length ← daysInMonth year (first + 2)
        alDays year (first + 2) length
      else alDays year first 1
  | 'Y' => if forward then alDays year 12 31 else alDays year 1 1
  | other => .error (.report ("unsupported period 'C" ++ other.toString ++ "' in '" ++ formula ++ "'"))

def calcUnit (formula : String) (date count : Int) (unit : Char) : Except Fault Int :=
  match unit with
  | 'D' => checked [date + count] (date + count)
  | 'W' => checked [7 * count, date + 7 * count] (date + 7 * count)
  | 'M' => addMonths date count
  | 'Q' => do
      let months ← checked [3 * count] (3 * count)
      addMonths date months
  | 'Y' => do
      let months ← checked [12 * count] (12 * count)
      addMonths date months
  | other => .error (.report ("unsupported unit '" ++ other.toString ++ "' in '" ++ formula ++ "'"))

def calcTerm (formula : String) (date : Int) (term : FormulaTerm) : Except Fault Int :=
  match term.unit with
  | none => .error (.report ("'" ++ formula ++ "' ends without a unit"))
  | some unit => do
      let (year, month, _) ← ymdOf date
      if term.current then calcPeriod formula date year month (0 < term.signOf) unit
      else
        let count ← checked [term.signOf * term.count] (term.signOf * term.count)
        calcUnit formula date count unit

def calcDate (formula : String) (date : Int) : Except Fault Int :=
  if formulaText formula = [] then .error (.report ("'" ++ formula ++ "' is not a date formula"))
  else (formulaTerms formula).foldlM (calcTerm formula) date

def builtinCalcdate (today : Int64) (args : List Value) : Except Fault Value :=
  let calculate (formula : String) (date : Int64) : Except Fault Value :=
    if date = 0 then .error (.report "CalcDate is undefined for 0D")
    else
      match calcDate formula date.toInt with
      | .ok result => .ok (.date (.ofInt result))
      | .error (.report text) => .error (.report ("CalcDate: " ++ text))
      | .error .overflow => .error .overflow
  match args with
  | [.text formula] | [.code formula] => calculate formula today
  | [.text formula, .date date] | [.code formula, .date date] => calculate formula date
  | _ => .error (.report "CalcDate expects (Text[, Date])")

end AlLanguage.Runtime
