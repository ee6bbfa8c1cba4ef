import AlLanguage.Library.StableSort
import AlLanguage.Runtime.Text
import AlLanguage.Syntax.Lexical
import Mathlib.Data.String.Basic

/-!
# Sorting the properties of an object

The pass of the formatter that sorts each run of property statements in the body of an object, with the helpers that read a line.
-/

namespace AlLanguage.Syntax

open Library

/-! ## Settings -/

inductive KeywordCasing where
  | preserve
  | lower
  | upper
  deriving DecidableEq

inductive BlankLinesBetweenProcedures where
  | preserve
  | one
  | two
  deriving DecidableEq

inductive BraceStyle where
  | sameLine
  | nextLine
  deriving DecidableEq

structure FormatOptions where
  tabSize : Nat := 4
  insertSpaces : Bool := true
  keywordCasing : KeywordCasing := .preserve
  blankLinesBetweenProcedures : BlankLinesBetweenProcedures := .preserve
  maxLineLength : Nat := 0
  braceStyle : BraceStyle := .nextLine
  sortProperties : Bool := false

/-! ## Lines -/

/-- `str::lines`. -/
def textLines (text : List Char) : List (List Char) := (fileLines text).map Prod.fst

def joinLines (lines : List (List Char)) : List Char := ['\n'].intercalate lines ++ ['\n']

def trim (s : List Char) : List Char := (s.dropWhile Runtime.isWhitespace).rdropWhile Runtime.isWhitespace

/-- The characters that start between two bytes, the first character at the byte `at`. -/
def sliceFrom (start stop : Nat) : (position : Nat) → List Char → List Char
  | _, [] => []
  | position, c :: rest =>
      let behind := sliceFrom start stop (position + c.utf8Size) rest
      if start ≤ position ∧ position < stop then c :: behind else behind

/-- `&s[start..stop]`. -/
def slice (s : List Char) (start stop : Nat) : List Char := sliceFrom start stop 0 s

/-! ## The code of a line -/

def openParen : UInt8 := 40

def closeParen : UInt8 := 41

def openBracket : UInt8 := 91

def closeBracket : UInt8 := 93

def equalSign : UInt8 := 61

def semicolon : UInt8 := 59

/-- The bytes of the code spans with their offsets. -/
def codeBytes (line : List Char) (inBlock : Bool) : List (UInt8 × Nat) :=
  ((scanLine line inBlock).1.filter (·.kind = .code)).flatMap fun span => span.text.zipIdx span.start

/-- The first byte outside parentheses and brackets that the test accepts. -/
def firstOutside (accepts : UInt8 → Nat → Bool) : (paren bracket : Int) → List (UInt8 × Nat) → Option Nat
  | _, _, [] => none
  | paren, bracket, (b, offset) :: rest =>
      if b = openParen then firstOutside accepts (paren + 1) bracket rest
      else if b = closeParen then firstOutside accepts (paren - 1) bracket rest
      else if b = openBracket then firstOutside accepts paren (bracket + 1) rest
      else if b = closeBracket then firstOutside accepts paren (bracket - 1) rest
      else if accepts b offset ∧ paren = 0 ∧ bracket = 0 then some offset
      else firstOutside accepts paren bracket rest

def firstTopLevel (s : List Char) (target : UInt8) : Option Nat := firstOutside (fun b _ => b = target) 0 0 (codeBytes s false)

/-- Not part of `:=`, `<=`, `>=`, `!=` or `==`. -/
def assigns (bytes : List UInt8) (b : UInt8) (absolute : Nat) : Bool :=
  let prev := if 0 < absolute then bytes.getD (absolute - 1) 0 else 0
  let next := bytes.getD (absolute + 1) 0
  b = equalSign ∧ prev ∉ [58, 60, 62, 33, equalSign] ∧ next ≠ equalSign

def propertyEqPos (s : List Char) : Option Nat := firstOutside (assigns (asBytes s)) 0 0 (codeBytes s false)

def isPropertyName (name : List Char) : Bool := name ≠ [] ∧ name.all fun c => c.isAlphanum || c = '_'

def isPropertyOpener (trimmed : List Char) : Bool :=
  if trimmed = [] ∨ ['/', '/'].isPrefixOf trimmed ∨ ['/', '*'].isPrefixOf trimmed ∨ trimmed.head? = some '*' ∨
      trimmed.head? = some '[' ∨ trimmed.getLast? = some '{' then false
  else match propertyEqPos trimmed with
  | some pos => isPropertyName (trim (slice trimmed 0 pos))
  | none => false

def propertySortKey (firstLine : List Char) : String :=
  let t := trim firstLine
  match propertyEqPos t with
  | some pos => String.ofList ((trim (slice t 0 pos)).map Char.toLower)
  | none => String.ofList (t.map Char.toLower)

/-! ## Braces -/

/-- The characters of a span. -/
def spanText (line : List Char) (span : Span) : List Char := slice line span.start (span.start + span.text.length)

/-- What is left of a span. A comment leaves a blank for each of its delimiters. -/
def withoutComment (line : List Char) (span : Span) : List Char :=
  match span.kind with
  | .code | .string => spanText line span
  | .lineComment => []
  | .blockComment =>
      (if [slash, star].isPrefixOf span.text then [' '] else []) ++ (if [star, slash].isSuffixOf span.text then [' '] else [])

def stripComments (line : List Char) (inBlock : Bool) : List Char × Bool :=
  let (spans, scanner) := scanLine line inBlock
  (trim (spans.flatMap (withoutComment line)), scanner.endsInBlockComment)

def countNetDelimiters (line : List Char) (opening closing : Char) : Int :=
  let code := ((scanLine line false).1.filter (·.kind = .code)).flatMap (spanText line)
  code.countP (· = opening) - code.countP (· = closing)

/-! ## The pass -/

/-- The brace depth and the open block comment behind a line, or behind some lines. -/
def braceDelta (state : Int × Bool) (line : List Char) : Int × Bool :=
  let (code, stillOpen) := stripComments line state.2
  (state.1 + countNetDelimiters code '{' '}', stillOpen)

def braceDeltas (state : Int × Bool) (lines : List (List Char)) : Int × Bool :=
  let (depth, inBlock) := lines.foldl braceDelta state
  (max depth 0, inBlock)

/-- The lines of a property, up to the one that shows a `;` outside its own parentheses, and the lines behind. -/
def takeProperty (line : List Char) : List (List Char) → List (List Char) × List (List Char)
  | [] => ([line], [])
  | next :: rest =>
      if (firstTopLevel line semicolon).isSome then ([line], next :: rest)
      else
        let (prop, behind) := takeProperty next rest
        (line :: prop, behind)

theorem takeProperty_length (line : List Char) (rest : List (List Char)) : (takeProperty line rest).2.length ≤ rest.length := by
  induction rest generalizing line with
  | nil => exact Nat.le_refl 0
  | cons next rest ih =>
      rw [takeProperty]
      split
      · exact Nat.le_refl _
      · exact Nat.le_succ_of_le (ih next)

def propertyKey (prop : List (List Char)) : String := propertySortKey (prop.headD [])

def flush (run : List (List (List Char))) (out : List (List Char)) : List (List Char) := out ++ (sortBy propertyKey run).flatten

/-- The loop over the lines. `run` holds the properties that wait to be sorted. -/
def sortLines (run : List (List (List Char))) (depth : Int) (inBlock : Bool) (out : List (List Char)) :
    (lines : List (List Char)) → List (List Char)
  | [] => flush run out
  | line :: rest =>
      if depth = 1 ∧ inBlock = false ∧ isPropertyOpener (trim line) then
        let taken := takeProperty line rest
        let state := braceDeltas (depth, inBlock) taken.1
        sortLines (run ++ [taken.1]) state.1 state.2 out taken.2
      else
        let state := braceDeltas (depth, inBlock) [line]
        sortLines [] state.1 state.2 (flush run out ++ [line]) rest
termination_by lines => lines.length
decreasing_by
  · exact Nat.lt_succ_of_le (takeProperty_length line rest)
  · exact Nat.lt_succ_self _

def sortObjectProperties (text : List Char) (options : FormatOptions) : List Char :=
  if options.sortProperties then joinLines (sortLines [] 0 false [] (textLines text)) else text

end AlLanguage.Syntax
