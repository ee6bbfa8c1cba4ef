import AlLanguage.Runtime.Value

/-!
# Comparison operators

What `=`, `<` and the other comparisons of two values answer.
-/

namespace AlLanguage.Runtime

/-- A numeric operand. The flag tells a BigInteger from the 32-bit types. -/
inductive Num where
  | int (val : Int64) (big : Bool)
  | dec (d : Decimal)

def Num.toDecimal : Num → Decimal
  | int val _ => .ofInt64 val
  | dec d => d

def classifyNumeric : Value → Option Num
  | .integer n => some (.int n false)
  | .bigInteger n => some (.int n true)
  | .char c => some (.int (Int64.ofNat c.toNat) false)
  | .option _ _ ordinal => some (.int ordinal false)
  | .decimal d => some (.dec d)
  | _ => none

/-- The `=` operator. -/
def valuesEqual (a b : Value) : Bool :=
  match classifyNumeric a, classifyNumeric b with
  | some left, some right => compare left.toDecimal right.toDecimal == .eq
  | _, _ =>
    match a, b with
    | .code x, .code y | .text x, .code y | .code y, .text x => eqIgnoreAsciiCase x y
    | a, b => a == b

/-- The order behind `<`, `<=`, `>` and `>=`. -/
def valueOrdering (a b : Value) : Except String Ordering :=
  match classifyNumeric a, classifyNumeric b with
  | some (.int left _), some (.int right _) => .ok (compare left right)
  | some left, some right => .ok (compare left.toDecimal right.toDecimal)
  | _, _ =>
    match a, b with
    | .boolean left, .boolean right => .ok (compare left right)
    | .text x, .text y => .ok (compare x y)
    | .code x, .code y | .text x, .code y | .code x, .text y =>
        .ok (compare (toAsciiUppercase x) (toAsciiUppercase y))
    | .date x, .date y | .time x, .time y | .dateTime x, .dateTime y => .ok (compare x y)
    | l, r => .error ("cannot compare " ++ l.typeName ++ " and " ++ r.typeName)

end AlLanguage.Runtime
