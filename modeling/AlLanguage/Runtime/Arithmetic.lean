import AlLanguage.Runtime.FlowFields
import AlLanguage.Runtime.Operators
import AlLanguage.Runtime.SetFilter
import AlLanguage.Runtime.Tables

/-!
# Arithmetic

- Unary and binary operators.
- Abs, Maximum and Minimum.
- Evaluate, and writing its value back to the argument.
- An integer argument takes the width of its parameter.
-/

namespace AlLanguage.Runtime

open DecimalArithmetic

/-- `Decimal::checked_sub` and `Decimal::checked_mul` of the decimal package. -/
class DecimalProducts where
  checkedSub : Decimal → Decimal → Option Decimal
  checkedMul : Decimal → Decimal → Option Decimal

namespace Decimal

def neg (d : Decimal) : Decimal := ⟨-d.mantissa, d.scale, by rw [Int.natAbs_neg]; exact d.mantissaBound, d.scaleBound⟩

def abs (d : Decimal) : Decimal := ⟨d.mantissa.natAbs, d.scale, d.mantissaBound, d.scaleBound⟩

/-- `Decimal::fract` is zero. -/
def isWhole (d : Decimal) : Bool := d.mantissa % 10 ^ d.scale = 0

end Decimal

/-! ## 64-bit integers -/

def checkedSubI64 (a b : Int64) : Option Int64 := i64OfInt (a.toInt - b.toInt)

def checkedMulI64 (a b : Int64) : Option Int64 := i64OfInt (a.toInt * b.toInt)

def checkedNegI64 (a : Int64) : Option Int64 := i64OfInt (-a.toInt)

def checkedAbsI64 (a : Int64) : Option Int64 := i64OfInt a.toInt.natAbs

/-- `i64::checked_div`. -/
def checkedDivI64 (a b : Int64) : Option Int64 := if b = 0 then none else i64OfInt (a.toInt.tdiv b.toInt)

/-- `i64::checked_rem`, which refuses what `checked_div` refuses. -/
def checkedRemI64 (a b : Int64) : Option Int64 := (checkedDivI64 a b).bind fun _ => i64OfInt (a.toInt.tmod b.toInt)

/-- An integer result of the width of its operands. -/
def checkedInt (result : Option Int64) (big : Bool) : Except String Value :=
  match result with
  | some n =>
      if big then .ok (.bigInteger n)
      else if inInt32Range n then .ok (.integer n)
      else .error "integer overflow"
  | none => .error "integer overflow"

def checkedDecimal : Option Decimal → Except String Value
  | some d => .ok (.decimal d)
  | none => .error "decimal arithmetic overflow"

/-! ## Operators -/

inductive UnaryOp where
  | plus | minus | not
  | other (text : String)

def UnaryOp.text : UnaryOp → String
  | plus => "+"
  | minus => "-"
  | not => "not"
  | other text => text

def applyUnary (op : UnaryOp) (operand : Value) : Except String Value :=
  match op, operand with
  | .plus, .integer n => .ok (.integer n)
  | .plus, .bigInteger n => .ok (.bigInteger n)
  | .plus, .decimal d => .ok (.decimal d)
  | .plus, .option _ _ ordinal => .ok (.integer ordinal)
  | .minus, .integer n => checkedInt (checkedNegI64 n) false
  | .minus, .bigInteger n => checkedInt (checkedNegI64 n) true
  | .minus, .decimal d => .ok (.decimal d.neg)
  | .minus, .option _ _ ordinal => checkedInt (checkedNegI64 ordinal) false
  | .not, .boolean b => .ok (.boolean !b)
  | op, v => .error ("unary operator `" ++ op.text ++ "` not supported on " ++ v.typeName)

/-- An operator in lower case. -/
inductive BinaryOp where
  | add | sub | mul | divide | div | mod
  | eq | ne | lt | le | gt | ge
  | and | or | xor
  | range | member
  | other (text : String)

def BinaryOp.text : BinaryOp → String
  | add => "+"
  | sub => "-"
  | mul => "*"
  | divide => "/"
  | div => "div"
  | mod => "mod"
  | eq => "="
  | ne => "<>"
  | lt => "<"
  | le => "<="
  | gt => ">"
  | ge => ">="
  | and => "and"
  | or => "or"
  | xor => "xor"
  | range => ".."
  | member => "in"
  | other text => text

/-- The offset of a date or a time. A decimal must be written without a fraction. -/
def wholeOffset (value : Value) : Except String Int64 :=
  match value with
  | .duration ms => .ok ms
  | value =>
    match classifyNumeric value with
    | some (.int val _) => .ok val
    | some (.dec d) =>
        if d.isWhole then
          match parseI64 d.render with
          | some n => .ok n
          | none => .error "Date/Time arithmetic offset is out of range"
        else .error "Date/Time arithmetic requires a whole-number offset"
    | none => .error ("Date/Time arithmetic does not support " ++ value.typeName)

def msPerDay : Int := 86400000

/-- A carrier moved by an offset. The zero carrier cannot be moved. -/
def moveCarrier (kind zero : String) (make : Int64 → Value) (move : Int64 → Int64 → Option Int64) (carrier : Int64)
    (offset : Value) : Except String Value := do
  if carrier = 0 then throw (kind ++ " arithmetic is undefined for " ++ zero)
  let offset ← wholeOffset offset
  match move carrier offset with
  | some value => return make value
  | none => throw (kind ++ " arithmetic overflow")

/-- A time stays within its day. -/
def withinDay (move : Int64 → Int64 → Option Int64) (a b : Int64) : Option Int64 :=
  (move a b).filter fun n => 0 ≤ n.toInt && n.toInt < msPerDay

/-- The milliseconds between two carriers. -/
def carrierDifference (kind zero : String) (left right : Int64) : Except String Value :=
  if left = 0 ∨ right = 0 then .error (kind ++ " arithmetic is undefined for " ++ zero)
  else
    match checkedSubI64 left right with
    | some ms => .ok (.duration ms)
    | none => .error (kind ++ " arithmetic overflow")

def moveDuration (move : Int64 → Int64 → Option Int64) (ms : Int64) (offset : Value) : Except String Value := do
  let offset ← wholeOffset offset
  match move ms offset with
  | some value => return .duration value
  | none => throw "Duration arithmetic overflow"

def applyTemporalArithmetic (op : BinaryOp) (left right : Value) : Option (Except String Value) :=
  match op, left, right with
  | .sub, .dateTime l, .dateTime r => some (carrierDifference "DateTime" "the zero DateTime" l r)
  | .add, .dateTime dt, offset | .add, offset, .dateTime dt =>
      some (moveCarrier "DateTime" "the zero DateTime" .dateTime checkedAddI64 dt offset)
  | .sub, .dateTime dt, offset => some (moveCarrier "DateTime" "the zero DateTime" .dateTime checkedSubI64 dt offset)
  | .add, .date date, offset | .add, offset, .date date => some (moveCarrier "Date" "0D" .date checkedAddI64 date offset)
  | .sub, .date l, .date r =>
      some (if l = 0 ∨ r = 0 then .error "Date arithmetic is undefined for 0D" else checkedInt (checkedSubI64 l r) false)
  | .sub, .date date, offset => some (moveCarrier "Date" "0D" .date checkedSubI64 date offset)
  | .add, .time time, offset | .add, offset, .time time =>
      some (moveCarrier "Time" "0T" .time (withinDay checkedAddI64) time offset)
  | .sub, .time l, .time r => some (carrierDifference "Time" "0T" l r)
  | .sub, .time time, offset => some (moveCarrier "Time" "0T" .time (withinDay checkedSubI64) time offset)
  | .add, .duration l, offset | .add, offset, .duration l => some (moveDuration checkedAddI64 l offset)
  | .sub, .duration l, offset => some (moveDuration checkedSubI64 l offset)
  | _, _, _ => none

/-- Inclusive membership in a range. -/
def valueInRange (value start stop : Value) : Except String Bool := do
  let low ← valueOrdering value start
  if low.isGE then
    let high ← valueOrdering value stop
    return high.isLE
  else return false

def memberOf (value : Value) : List Value → Except String Bool
  | [] => .ok false
  | .range start stop :: members => do
      if ← valueInRange value start stop then return true
      memberOf value members
  | member :: members => if valuesEqual value member then .ok true else memberOf value members

section Operators

variable [DecimalArithmetic] [DecimalProducts]

def applyNumeric (op : BinaryOp) (l r : Num) : Except String Value :=
  match op with
  | .divide =>
      if r.toDecimal.units = 0 then .error "division by zero" else checkedDecimal (checkedDiv l.toDecimal r.toDecimal)
  | op =>
    match l, r with
    | .int a ab, .int b bb =>
      match op with
      | .add => checkedInt (checkedAddI64 a b) (ab || bb)
      | .sub => checkedInt (checkedSubI64 a b) (ab || bb)
      | .mul => checkedInt (checkedMulI64 a b) (ab || bb)
      | .div => if b = 0 then .error "division by zero" else checkedInt (checkedDivI64 a b) (ab || bb)
      | .mod => if b = 0 then .error "modulo by zero" else checkedInt (checkedRemI64 a b) (ab || bb)
      | op => .error ("internal error: entered unreachable code: op pre-filtered by apply_binary: " ++ op.text)
    | l, r =>
      match op with
      | .add => checkedDecimal (checkedAdd l.toDecimal r.toDecimal)
      | .sub => checkedDecimal (DecimalProducts.checkedSub l.toDecimal r.toDecimal)
      | .mul => checkedDecimal (DecimalProducts.checkedMul l.toDecimal r.toDecimal)
      | .div | .mod =>
          .error ("binary operator `" ++ op.text ++ "` is integer-only (not supported on Decimal)")
      | op => .error ("internal error: entered unreachable code: op pre-filtered by apply_binary: " ++ op.text)

def BinaryOp.isArithmetic : BinaryOp → Bool
  | add | sub | mul | divide | div | mod => true
  | _ => false

omit [DecimalArithmetic] [DecimalProducts] in
def compareWith (test : Ordering → Bool) (a b : Value) : Except String Value :=
  (valueOrdering a b).map fun order => .boolean (test order)

omit [DecimalArithmetic] [DecimalProducts] in
def concatenate (make : String → Value) (a b : String) : Except String Value := do
  checkTextSize "Text concatenation" (byteLength a + byteLength b)
  return make (a ++ b)

omit [DecimalArithmetic] [DecimalProducts] in
/-- The operators that are no arithmetic of numbers or dates. -/
def applyOther (op : BinaryOp) (left right : Value) : Except String Value :=
  match op, left, right with
  | .add, .text a, .text b | .add, .text a, .code b | .add, .code a, .text b => concatenate .text a b
  | .add, .code a, .code b => concatenate .code a b
  | .eq, a, b => .ok (.boolean (valuesEqual a b))
  | .ne, a, b => .ok (.boolean !valuesEqual a b)
  | .lt, a, b => compareWith (·.isLT) a b
  | .le, a, b => compareWith (·.isLE) a b
  | .gt, a, b => compareWith (·.isGT) a b
  | .ge, a, b => compareWith (·.isGE) a b
  | .and, .boolean a, .boolean b => .ok (.boolean (a && b))
  | .or, .boolean a, .boolean b => .ok (.boolean (a || b))
  | .xor, .boolean a, .boolean b => .ok (.boolean (a ^^ b))
  | .range, start, stop => .ok (.range start stop)
  | .member, value, .array members => (memberOf value members).map .boolean
  | op, a, b =>
      .error ("binary operator `" ++ op.text ++ "` not supported on (" ++ a.typeName ++ ", " ++ b.typeName ++ ")")

def applyBinary (op : BinaryOp) (left right : Value) : Except String Value :=
  match applyTemporalArithmetic op left right with
  | some result => result
  | none =>
    match op.isArithmetic, classifyNumeric left, classifyNumeric right with
    | true, some l, some r => applyNumeric op l r
    | _, _, _ => applyOther op left right

end Operators

/-! ## Abs, Maximum and Minimum -/

def builtinAbs (args : List Value) : Except String Value :=
  match args with
  | [.integer n] =>
    match checkedAbsI64 n with
    | some a => if inInt32Range a then .ok (.integer a) else .error "Abs: integer overflow"
    | none => .error "Abs: integer overflow"
  | [.bigInteger n] =>
    match checkedAbsI64 n with
    | some a => .ok (.bigInteger a)
    | none => .error "Abs: integer overflow"
  | [.decimal d] => .ok (.decimal d.abs)
  | [v] => .error ("Abs expects a numeric value, got " ++ v.typeName)
  | _ => .error "Abs expects exactly 1 argument"

/-- `Maximum` or `Minimum`. Operands of two types are compared and returned as decimals. -/
def builtinExtreme (args : List Value) (maximum : Bool) : Except String Value :=
  let name := if maximum then "Maximum" else "Minimum"
  match args with
  | [.integer a, .integer b] => .ok (.integer (if decide (b ≤ a) = maximum then a else b))
  | [a, b] =>
    match a.asDecimal, b.asDecimal with
    | some x, some y => .ok (.decimal (if (compare x y).isGE = maximum then x else y))
    | _, _ => .error (name ++ " expects two numbers")
  | _ => .error (name ++ " expects exactly 2 arguments")

/-! ## Evaluate -/

def dropCommas (text : String) : String := String.ofList (text.toList.filter (· ≠ ','))

def trimSuffixL (text : String) : String := String.ofList (text.toList.rdropWhile fun c => c = 'l' || c = 'L')

def parseBoolean (text : String) : Option Bool :=
  let lower := toAsciiLowercase text
  if lower = "true" ∨ lower = "yes" ∨ lower = "1" then some true
  else if lower = "false" ∨ lower = "no" ∨ lower = "0" then some false
  else none

/-- The value that a text spells, of the type of the target. Numbers may be grouped by commas. -/
def evaluateText [CaseMapping] [DecimalSyntax] (target : Value) (raw : String) : Except String (Option Value) :=
  let text := trim raw
  let number := dropCommas text
  match target with
  | .integer _ => .ok ((parseI64 number).map .integer)
  | .bigInteger _ => .ok ((parseI64 (trimSuffixL number)).map .bigInteger)
  | .decimal _ => .ok ((parseDecimal number).map .decimal)
  | .boolean _ => .ok ((parseBoolean text).map .boolean)
  | .text _ => .ok (some (.text raw))
  | .code _ => .ok (some (.code (toUppercase text)))
  | other => .error ("Evaluate into " ++ other.typeName ++ " is not supported by the local runtime")

def builtinEvaluate [CaseMapping] [DecimalSyntax] (args : List Value) : Except String (Option Value) :=
  match args with
  | [target, .text raw] | [target, .code raw] => evaluateText target raw
  | [_, other] => .error ("Evaluate expects Text as its second argument, got " ++ other.typeName)
  | _ => .error "Evaluate expects (var Variable, Text)"

/-- What a `var` argument names: a variable, an element of an array, or a field with its declared zero and length. -/
inductive ArgumentPlace where
  | variable
  | element
  | field (declared : Option Value) (capacity : Option Nat)

/-- The value whose type the place keeps. A variable takes any value. -/
def ArgumentPlace.slot (place : ArgumentPlace) (current : Value) : Option Value :=
  match place with
  | .variable => none
  | .element => some current
  | .field declared _ => declared

def ArgumentPlace.capacity : ArgumentPlace → Option Nat
  | .variable | .element => none
  | .field _ capacity => capacity

def writeVarArgument [CaseMapping] (place : ArgumentPlace) (current value : Value) : Except String Value :=
  match place.slot current with
  | none => .ok value
  | some slot => coerceIntoSlot slot value place.capacity

/-- What a call of `Evaluate` leaves in its first argument. A failed one is an error as a statement and leaves the
argument as it is in an expression. -/
def evaluateInto [CaseMapping] [DecimalSyntax] (statement : Bool) (place : ArgumentPlace) (target : Value) (raw : String) :
    Except String (Option Value) := do
  match ← builtinEvaluate [target, .text raw] with
  | some value => return some (← writeVarArgument place target value)
  | none =>
    if statement then throw ("Evaluate: '" ++ raw ++ "' is not a valid " ++ target.typeName)
    return none

/-! ## Arguments -/

def coerceIntWidth (val : Value) (typeName : String) : Value :=
  match val with
  | .integer n => if eqIgnoreAsciiCase typeName "biginteger" then .bigInteger n else .integer n
  | .bigInteger n => if eqIgnoreAsciiCase typeName "integer" then .integer n else .bigInteger n
  | other => other

/-! ## Totals in the buffer -/

section Totals

variable [DecimalArithmetic] [CaseMapping] [DecimalSyntax]

/-- `CalcSums` of one field. -/
def calcSumsInto (table : MockRecord) (view : RecordView) (field : FieldNo) : Except RecordError RecordView :=
  (table.calcSumIn view field).map fun total => MockRecord.fieldSetIn view field total

/-- `CalcFields` of one FlowField over another table. -/
def calcFieldInto (referenced : MockRecord) (conditions : List (FieldNo × FlowFilter)) (target : Option FieldNo) (agg : FlowAgg)
    (view : RecordView) (field : FieldNo) : Except RecordError RecordView :=
  (referenced.calcFlow conditions target agg).map fun value => MockRecord.fieldSetIn view field value

end Totals

end AlLanguage.Runtime
