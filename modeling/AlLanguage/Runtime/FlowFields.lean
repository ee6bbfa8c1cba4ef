import AlLanguage.Runtime.Record

/-!
# FlowFields

The aggregates of a field over the rows of a table, and the arithmetic of decimals that they use.
-/

namespace AlLanguage.Runtime

open Library

/-! ## Arithmetic -/

/-- `Decimal::checked_add` and `Decimal::checked_div` of the decimal package. -/
class DecimalArithmetic where
  checkedAdd : Decimal → Decimal → Option Decimal
  checkedDiv : Decimal → Decimal → Option Decimal

/-- The value of a result depends on the values of the operands. A sum that is a decimal is exact. -/
class LawfulDecimalArithmetic [DecimalArithmetic] : Prop where
  add_congr : ∀ a b a' b' : Decimal, a.units = a'.units → b.units = b'.units →
    (DecimalArithmetic.checkedAdd a b).map Decimal.units = (DecimalArithmetic.checkedAdd a' b').map Decimal.units
  add_exact : ∀ a b d : Decimal, d.units = a.units + b.units →
    (DecimalArithmetic.checkedAdd a b).map Decimal.units = some d.units
  zero_div : ∀ a b : Decimal, a.units = 0 → b.units ≠ 0 →
    (DecimalArithmetic.checkedDiv a b).map Decimal.units = some 0
  div_congr : ∀ a b a' : Decimal, a.units = a'.units →
    (DecimalArithmetic.checkedDiv a b).map Decimal.units = (DecimalArithmetic.checkedDiv a' b).map Decimal.units

namespace Decimal

/-- The decimal with so many units, if there is one. -/
def ofUnits (units : Int) : Option Decimal :=
  if bound : (stripZeros units 28).1.natAbs < 2 ^ 96 then
    some ⟨(stripZeros units 28).1, (stripZeros units 28).2, bound, (stripZeros_spec units 28).1⟩
  else none

theorem ofUnits_units (d : Decimal) : (ofUnits d.units).map units = some d.units := by
  have scaled := stripZeros_scaled d.mantissa (28 - d.scale) d.scale
  rw [Nat.add_sub_cancel' d.scaleBound] at scaled
  have bound : (stripZeros d.units 28).1.natAbs < 2 ^ 96 := by
    rw [units, scaled]
    exact (stripZeros_spec d.mantissa d.scale).2.1.trans_lt d.mantissaBound
  rw [ofUnits, dif_pos bound, Option.map_some]
  exact congrArg some (stripZeros_spec d.units 28).2.2

end Decimal

/-- Sums and quotients that are decimals. -/
@[reducible] def DecimalArithmetic.plain : DecimalArithmetic where
  checkedAdd a b := Decimal.ofUnits (a.units + b.units)
  checkedDiv a b :=
    if b.units = 0 ∨ a.units * 10 ^ 28 % b.units ≠ 0 then none else Decimal.ofUnits (a.units * 10 ^ 28 / b.units)

theorem lawfulDecimalArithmetic_plain : @LawfulDecimalArithmetic .plain :=
  @LawfulDecimalArithmetic.mk .plain
    (fun a b a' b' left right => by
      change (Decimal.ofUnits (a.units + b.units)).map _ = (Decimal.ofUnits (a'.units + b'.units)).map _
      rw [left, right])
    (fun a b d sum => by
      change (Decimal.ofUnits (a.units + b.units)).map _ = _
      rw [← sum]
      exact d.ofUnits_units)
    (fun a b zero divisor => by
      have exact_ : ¬(b.units = 0 ∨ a.units * 10 ^ 28 % b.units ≠ 0) := by simp [zero, divisor]
      change (if b.units = 0 ∨ a.units * 10 ^ 28 % b.units ≠ 0 then none else _).map _ = _
      rw [if_neg exact_, zero, zero_mul, Int.zero_ediv]
      exact Decimal.zero.ofUnits_units)
    (fun a b a' same => by
      change (if b.units = 0 ∨ a.units * 10 ^ 28 % b.units ≠ 0 then none else Decimal.ofUnits (a.units * 10 ^ 28 / b.units)).map
        _ = _
      rw [same]
      rfl)

theorem Decimal.ofUsize_scaleBound : 0 ≤ 28 := by decide

/-- `Decimal::from(usize)`. -/
def Decimal.ofUsize (n : Nat) : Decimal where
  mantissa := (n % 2 ^ 64 : Nat)
  scale := 0
  mantissaBound := by
    have bound := Nat.mod_lt n (y := 2 ^ 64) (by decide)
    omega
  scaleBound := Decimal.ofUsize_scaleBound

/-- `i64::checked_add`. -/
def checkedAddI64 (a b : Int64) : Option Int64 := i64OfInt (a.toInt + b.toInt)

/-- `Option::ok_or`. -/
def orOverflow {α : Type} (aggregate : String) : Option α → Except RecordError α
  | some a => .ok a
  | none => .error (.flowArithmeticOverflow aggregate)

/-! ## Aggregates -/

inductive FlowAgg where
  | sum | average | min | max | count | exist | lookup
  deriving DecidableEq

/-- One resolved condition of a `WHERE` clause. -/
inductive FlowFilter where
  | eq (want : Value)
  | expr (parsed : FilterExpr)

/-- The sum of the integers, that of all numbers, and whether a decimal was among them. -/
structure CellSum where
  int : Int64
  dec : Decimal
  anyDecimal : Bool

section Evaluation

variable [DecimalArithmetic]

open DecimalArithmetic

def CellSum.start : CellSum := ⟨0, .zero, false⟩

def CellSum.add (sum : CellSum) (cell : Value) : Except RecordError CellSum :=
  match cell with
  | .integer n | .bigInteger n => do
    let int ← orOverflow "Sum" (checkedAddI64 sum.int n)
    let dec ← orOverflow "Sum" (checkedAdd sum.dec (.ofInt64 n))
    return { sum with int, dec }
  | .decimal d => do
    let dec ← orOverflow "Sum" (checkedAdd sum.dec d)
    return { sum with dec, anyDecimal := true }
  | _ => .ok sum

def CellSum.total (sum : CellSum) : Value := if sum.anyDecimal then .decimal sum.dec else .integer sum.int

/-- Integer when every number is one, Decimal otherwise. -/
def sumCells (cells : List Value) : Except RecordError Value := (cells.foldlM CellSum.add .start).map CellSum.total

def averageCells (cells : List Value) : Except RecordError Value :=
  match cells.filterMap Value.asDecimal with
  | [] => .ok (.decimal .zero)
  | nums => do
    let sum ← nums.foldlM (fun sum value => orOverflow "Average" (checkedAdd sum value)) .zero
    let quotient ← orOverflow "Average" (checkedDiv sum (.ofUsize nums.length))
    return .decimal quotient

omit [DecimalArithmetic] in
/-- The cell with the least or the greatest number, the first of them. -/
def bestCell (least : Bool) (best : Option Value) (cell : Value) : Option Value :=
  match cell.asDecimal with
  | none => best
  | some cur =>
    match best with
    | none => some cell
    | some prev =>
      let prevNumber := prev.asDecimal.getD cur
      let take := if least then compare cur prevNumber == .lt else compare cur prevNumber == .gt
      if take then some cell else some prev

section Filters

variable [CaseMapping]

omit [DecimalArithmetic] in
def flowValueEq (a b : Value) : Bool :=
  a == b ||
    match a.asDecimal, b.asDecimal with
    | some x, some y => compare x y == .eq
    | _, _ =>
      match flowText a, flowText b with
      | some x, some y => toUppercase x == toUppercase y
      | _, _ => false

variable [DecimalSyntax]

omit [DecimalArithmetic] in
def flowFilterMatches (filter : FlowFilter) (cell : Value) : Bool :=
  match filter with
  | .eq want => flowValueEq want cell
  | .expr parsed => Filter.matchesExpr parsed cell

omit [DecimalArithmetic] in
/-- All conditions match the cells of the row. -/
def selectsRow (conditions : List (FieldNo × FlowFilter)) (row : Row) : Bool :=
  conditions.all fun (field, filter) => flowFilterMatches filter ((row.get? field).getD .empty)

namespace MockRecord

variable (table : MockRecord)

def calcSumIn (view : RecordView) (field : FieldNo) : Except RecordError Value := do
  let total ← sumCells ((table.rows.values.filter (rowMatchesFilters view.filters)).filterMap (·.get? field))
  let declaredDecimal : Bool := table.fieldDefaults.get? field matches some (.decimal _)
  match total with
  | .integer n => return if declaredDecimal then .decimal (.ofInt64 n) else .integer n
  | other => return other

def calcFlow (conditions : List (FieldNo × FlowFilter)) (target : Option FieldNo) (agg : FlowAgg) : Except RecordError Value :=
  let matching := table.rows.values.filter (selectsRow conditions)
  let cellOf (row : Row) : Option Value := target.bind row.get?
  let targetCells := matching.filterMap cellOf
  match agg with
  | .count =>
    if matching.length < 2 ^ 63 then .ok (.integer (Int64.ofNat matching.length))
    else .error (.flowArithmeticOverflow "Count")
  | .exist => .ok (.boolean (!matching.isEmpty))
  | .sum => sumCells targetCells
  | .average => averageCells targetCells
  | .min | .max =>
    -- an unset cell counts as the declared zero
    let zero := target.bind table.fieldDefaults.get?
    let cells := matching.filterMap fun row => (cellOf row).or zero
    .ok ((cells.foldl (bestCell (agg = .min)) none).getD (.integer 0))
  | .lookup => .ok (targetCells.head?.getD .empty)

end MockRecord

end Filters

end Evaluation

end AlLanguage.Runtime
