import AlLanguage.Library.Substrings
import AlLanguage.Runtime.Text

/-!
# Tables named in property values

The tables of a TableRelation, and the table that a CalcFormula reads.
-/

namespace AlLanguage.Insight

open Library.Substrings
open AlLanguage.Runtime (isWhitespace)

abbrev Text := List Char

/-- The Unicode letters and digits. -/
class Alphanumeric where
  isAlphanumeric : Char → Bool

def trimText (s : Text) : Text := (s.dropWhile isWhitespace).rdropWhile isWhitespace

def trimMatches (c : Char) (s : Text) : Text := (s.dropWhile (· = c)).rdropWhile (· = c)

/-- The position of the parenthesis that closes the one the text starts with, behind `depth` open ones. -/
def closingParen : Text → (depth position : Nat) → Option Nat
  | [], _, _ => none
  | '(' :: rest, depth, position => closingParen rest (depth + 1) (position + 1)
  | ')' :: rest, depth, position => if depth ≤ 1 then some position else closingParen rest (depth - 1) (position + 1)
  | _ :: rest, depth, position => closingParen rest depth (position + 1)

def matchingParen (text : Text) : Option Nat := if text.head? = some '(' then closingParen text 0 0 else none

/-- A table name in quotes, or up to white space, a dot or a parenthesis, and what follows it. -/
def takeTableName (text : Text) : Option Text × Text :=
  match text.dropWhile isWhitespace with
  | '"' :: afterOpen =>
      match find ['"'] afterOpen with
      | none => (none, [])
      | some position =>
          let name := afterOpen.take position
          (if name = [] then none else some name, afterOpen.drop (position + 1))
  | text =>
      let bare := trimMatches (Char.ofNat 39) (text.takeWhile fun c => !(isWhitespace c || c = '.' || c = '('))
      (if bare = [] then none else some bare, text.dropWhile fun c => !(isWhitespace c || c = '.' || c = '('))

section Keywords

variable [Alphanumeric]

def inWord (c : Char) : Bool := Alphanumeric.isAlphanumeric c || c = '_'

/-- The search for a whole word from a position on. A position behind the text ends it. -/
def findKeywordFrom (text keyword : Text) : (turns start : Nat) → Option Nat
  | 0, _ => none
  | turns + 1, start =>
    match find keyword ((text.map Char.toLower).drop start) with
    | none => none
    | some relative =>
        let position := start + relative
        let after := position + keyword.length
        let prevOk := !(text.take position).getLast?.any inWord
        let nextOk := !(text.drop after).head?.any inWord
        if prevOk && nextOk then some position else findKeywordFrom text keyword turns after

def findKeyword (text : Text) (keyword : String) : Option Nat := findKeywordFrom text keyword.toList (text.length + 1) 0

/-- The branches of a conditional relation, each behind its condition. -/
def relationBranches : (turns : Nat) → Text → List Text
  | 0, _ => []
  | turns + 1, rest =>
    let rest := rest.dropWhile isWhitespace
    let behindCondition : Option Text :=
      if findKeyword rest "if" = some 0 then
        let condition := (rest.drop 2).dropWhile isWhitespace
        (matchingParen condition).map fun close => condition.drop (close + 1)
      else some rest
    match behindCondition with
    | none => []
    | some rest =>
        let (name, remainder) := takeTableName rest
        name.toList ++ match findKeyword remainder "else" with
          | some position => relationBranches turns (remainder.drop (position + 4))
          | none => []

/-- Names that differ in ASCII case only are one table. -/
def retainFirst : List Text → (seen : List Text) → List Text
  | [], _ => []
  | table :: rest, seen =>
    if table.map Char.toLower ∈ seen then retainFirst rest seen else table :: retainFirst rest (table.map Char.toLower :: seen)

def extractTableRelationTables (value : String) : List String :=
  let trimmed := trimText value.toList
  if trimmed = [] then []
  else if findKeyword trimmed "if" ≠ some 0 then (takeTableName trimmed).1.toList.map String.ofList
  else (retainFirst (relationBranches (trimmed.length + 1) trimmed) []).map String.ofList

/-! ## CalcFormulas -/

/-- Split on commas outside parentheses and double quotes. The part that was read is in reverse. -/
def splitTopLevelCommas : Text → (depth : Int) → (quoted : Bool) → (part : Text) → List Text
  | [], _, _, part => [part.reverse]
  | c :: rest, depth, quoted, part =>
    if c = '"' then splitTopLevelCommas rest depth (!quoted) (c :: part)
    else if c = '(' ∧ !quoted then splitTopLevelCommas rest (depth + 1) quoted (c :: part)
    else if c = ')' ∧ !quoted then splitTopLevelCommas rest (depth - 1) quoted (c :: part)
    else if c = ',' ∧ !quoted ∧ depth = 0 then part.reverse :: splitTopLevelCommas rest depth quoted []
    else splitTopLevelCommas rest depth quoted (c :: part)

/-- The left side of a condition. -/
def conditionField (condition : Text) : Option Text :=
  let name := trimMatches '"' (trimText (condition.takeWhile (· ≠ '=')))
  if name = [] then none else some name

/-- The fields of the WHERE clause behind a table. -/
def filterFields (rest : Text) : List Text :=
  match findKeyword rest "where" with
  | none => []
  | some position =>
      let after := (rest.drop (position + 5)).dropWhile isWhitespace
      match matchingParen after with
      | none => []
      | some close => (splitTopLevelCommas ((after.drop 1).take (close - 1)) 0 false []).filterMap conditionField

structure CalcFormula where
  method : String
  table : String
  filterFields : List String
  deriving DecidableEq

def calcMethods : List String := ["count", "sum", "lookup", "exist", "average", "min", "max"]

def parseCalcFormula (value : String) : Option CalcFormula :=
  let text := ((trimText value.toList).dropWhile (· = '-')).dropWhile isWhitespace
  match find ['('] text with
  | none => none
  | some opening =>
      let method := String.ofList ((trimText (text.take opening)).map Char.toLower)
      if method ∉ calcMethods then none
      else
        match matchingParen (text.drop opening) with
        | none => none
        | some close =>
            let inner := (text.drop (opening + 1)).take (close - 1)
            let (table, rest) := takeTableName inner
            table.map fun table => ⟨method, String.ofList table, (filterFields rest).map String.ofList⟩

end Keywords

section Examples

/-- The ASCII letters and digits. -/
@[reducible] def Alphanumeric.ascii : Alphanumeric := ⟨Char.isAlphanum⟩

attribute [local instance] Alphanumeric.ascii

example : extractTableRelationTables "IF (Type = CONST(Item)) Item.\"No.\" ELSE \"G/L Account\"" = ["Item", "G/L Account"] := by
  decide +kernel

end Examples

end AlLanguage.Insight
