import AlLanguage.Runtime.FilterSyntax
import AlLanguage.Runtime.Value

/-!
# Filter evaluation

Whether a cell satisfies a filter expression.
-/

namespace AlLanguage.Runtime.Filter

/-! ## Wildcards

The table of `wildcard_match` row by row: after a pattern prefix, entry `j` says whether the prefix
matches the first `j` characters of the text.
-/

/-- The rest of a row, given the previous row from its diagonal entry on and the entry to the left. -/
def fillRow (c : Char) : Bool → List Bool → Bool → List Char → List Bool
  | diagonal, up :: ups, left, x :: xs =>
      let entry := if c = '*' then up || left else (c == '?' || c == x) && diagonal
      entry :: fillRow c up ups entry xs
  | _, _, _, _ => []

def nextRow (text : List Char) (row : List Bool) (c : Char) : List Bool :=
  match row with
  | [] => []
  | corner :: ups =>
      let first := c == '*' && corner
      first :: fillRow c corner ups first text

def firstRow (text : List Char) : List Bool := true :: text.map fun _ => false

def wildcardMatchChars (pattern text : List Char) : Bool :=
  (pattern.foldl (nextRow text) (firstRow text)).getLast?.getD false

section Evaluation

variable [CaseMapping]

def wildcardMatch (pattern text : String) (caseInsensitive : Bool) : Bool :=
  if caseInsensitive then wildcardMatchChars (toLowercase pattern).toList (toLowercase text).toList
  else wildcardMatchChars pattern.toList text.toList

/-! ## Cells -/

def renderBool (b : Bool) : String := if b then "true" else "false"

def valueToFilterString : Value → String
  | .text s | .code s => s
  | .integer n | .bigInteger n => renderI64 n
  | .decimal d => d.normalize.render
  | .boolean b => renderBool b
  | .char c => String.singleton c
  | .date n | .time n | .dateTime n => renderI64 n
  | .option _ member _ => member
  | _ => ""

def caselessCell : Value → Bool
  | .code _ | .guid _ | .option .. => true
  | _ => false

def patternMatches [DecimalSyntax] (pattern : Pattern) (value : Value) : Bool :=
  match value with
  | .empty =>
      match parseDecimal pattern.text with
      | some number => compare number Decimal.zero == .eq
      | none => wildcardMatch pattern.text "" (!pattern.caseSensitive)
  | .option _ member ordinal =>
      wildcardMatch pattern.text member true || wildcardMatch pattern.text (renderI64 ordinal) true
  | value => wildcardMatch pattern.text (valueToFilterString value) (!pattern.caseSensitive || caselessCell value)

def cmpValue : Value → OrderableValue → Option Ordering
  | .integer a, .integer b | .bigInteger a, .integer b => some (compare a b)
  | .integer a, .decimal b | .bigInteger a, .decimal b => some (compare (Decimal.ofInt64 a) b)
  | .decimal a, .decimal b => some (compare a b)
  | .decimal a, .integer b => some (compare a (Decimal.ofInt64 b))
  | .code a, .text b => some (compare (toUppercase a) (toUppercase b))
  | .text a, .text b => some (compare a b)
  | .date a, .integer b | .time a, .integer b | .dateTime a, .integer b => some (compare a b)
  | .option _ _ ordinal, .integer b => some (compare ordinal b)
  | .empty, .integer b => some (compare 0 b)
  | .empty, .decimal b => some (compare Decimal.zero b)
  | .empty, .text b => some (compare "" b)
  | _, _ => none

/-- `Option::is_some_and` on an ordering. -/
def holds (test : Ordering → Bool) (order : Option Ordering) : Bool := order.any test

def atomMatches [DecimalSyntax] (atom : FilterAtom) (value : Value) : Bool :=
  match atom with
  | .equals pattern => patternMatches pattern value
  | .notEqual pattern => !patternMatches pattern value
  | .lessThan bound => holds Ordering.isLT (cmpValue value bound)
  | .lessEqual bound => holds Ordering.isLE (cmpValue value bound)
  | .greaterThan bound => holds Ordering.isGT (cmpValue value bound)
  | .greaterEqual bound => holds Ordering.isGE (cmpValue value bound)
  | .range low high => holds Ordering.isGE (cmpValue value low) && holds Ordering.isLE (cmpValue value high)

mutual

def matchesExpr [DecimalSyntax] : FilterExpr → Value → Bool
  | .or terms, value => anyMatches terms value
  | .and terms, value => allMatch terms value
  | .atom atom, value => atomMatches atom value

def anyMatches [DecimalSyntax] : List FilterExpr → Value → Bool
  | [], _ => false
  | term :: terms, value => matchesExpr term value || anyMatches terms value

def allMatch [DecimalSyntax] : List FilterExpr → Value → Bool
  | [], _ => true
  | term :: terms, value => matchesExpr term value && allMatch terms value

end

end Evaluation

end AlLanguage.Runtime.Filter
