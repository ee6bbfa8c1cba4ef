import AlLanguage.Runtime.JsonPaths

/-!
# The syntax of paths

- The parser of `SelectToken` paths, on fuel. Each parser of a part returns the text behind it.
- Every text has an answer, and a path that is accepted never ends in a descent.
-/

namespace AlLanguage.Runtime.Json

namespace PathSyntax

/-- Why a path does not parse. -/
inductive PathError where
  | invalid (message : String)
  | unsupported (message : String)

def PathError.intoMessage : PathError → String
  | invalid message | unsupported message => message

def unsupported (what text path : String) : PathError :=
  .unsupported s!"the {what} '{text}' in path '{path}' is not supported by the local runtime"

/-- `none` is running out of fuel. -/
abbrev PathParse := ExceptT PathError Option

def outOfFuel {α : Type} : PathParse α := ExceptT.mk none

def lift {α : Type} (parsed : Except PathError α) : PathParse α := ExceptT.mk (some parsed)

def trimStart (text : List Char) : List Char := text.dropWhile isWhitespace

/-! ## Steps without filters -/

/-- In a filter a name also ends at white space and at an operator. -/
def endsName (inFilter : Bool) (c : Char) : Bool :=
  c = '.' || c = '[' || (inFilter && (isWhitespace c || ['=', '!', '<', '>', '&', '|', ')'].contains c))

def nameAndRest (inFilter : Bool) (text : List Char) : List Char × List Char := text.span fun c => !endsName inFilter c

/-- The step after a dot: a star or a name. -/
def dottedStep (path : String) (inFilter : Bool) : List Char → Except PathError (PathStep × List Char)
  | '*' :: after => .ok (.wildcard, after)
  | text =>
    match nameAndRest inFilter text with
    | ([], _) => .error (.invalid s!"a name is missing after '.' in path '{path}'")
    | (name, after) => .ok (.member (String.ofList name), after)

/-- A text up to the first character of a kind, which is stepped over. -/
def splitAt (stop : Char) (text : List Char) : Option (List Char × List Char) :=
  match text.span (· ≠ stop) with
  | (_, []) => none
  | (before, _ :: after) => some (before, after)

/-- The step `['name']`, from behind its first quote. -/
def quotedStep (path : String) (text : List Char) : Except PathError (PathStep × List Char) :=
  match splitAt '\'' text with
  | none => .error (.invalid s!"unclosed quote in path '{path}'")
  | some (key, after) =>
    match trimStart after with
    | ']' :: rest => .ok (.member (String.ofList key), rest)
    | _ =>
        let step := match splitAt ']' ('[' :: '\'' :: text) with
          | some (inside, _) => inside ++ [']']
          | none => '[' :: '\'' :: text
        .error (unsupported "step" (String.ofList step) path)

/-- The largest `usize` and one. -/
def usizeRange : Nat := 2 ^ 64

/-- The steps `[*]` and `[n]`, from behind the bracket. -/
def plainStep (path : String) (inner : List Char) : Except PathError (PathStep × List Char) :=
  match splitAt ']' inner with
  | none => .error (.invalid s!"unclosed '[' in path '{path}'")
  | some (between, rest) =>
      let inside := (trimStart between).rdropWhile isWhitespace
      if inside = ['*'] then .ok (.wildcard, rest)
      else
        match digitsValue inside with
        | some place =>
            if place < usizeRange then .ok (.index place, rest)
            else .error (.invalid s!"index {String.ofList inside} is too large in path '{path}'")
        | none => .error (unsupported "step" (String.ofList ('[' :: between ++ [']'])) path)

/-- The filter up to the parenthesis that closes it, which a bracket follows. -/
def filterEnd : List Char → (depth : Nat) → (quoted : Bool) → (before : List Char) → Option (List Char × List Char)
  | [], _, _, _ => none
  | c :: rest, depth, quoted, before =>
      if c = '\'' then filterEnd rest depth (!quoted) (c :: before)
      else if c = '(' ∧ quoted = false then filterEnd rest (depth + 1) quoted (c :: before)
      else if c = ')' ∧ quoted = false then
        if depth = 1 then
          match rest with
          | ']' :: after => some (before.reverse, after)
          | _ => none
        else filterEnd rest (depth - 1) quoted (c :: before)
      else filterEnd rest depth quoted (c :: before)

/-! ## Filters -/

def readOp : List Char → Option (CompareOp × List Char)
  | '=' :: '=' :: rest => some (.eq, rest)
  | '!' :: '=' :: rest => some (.ne, rest)
  | '<' :: '=' :: rest => some (.le, rest)
  | '>' :: '=' :: rest => some (.ge, rest)
  | '<' :: rest => some (.lt, rest)
  | '>' :: rest => some (.gt, rest)
  | _ => none

/-- One part is not joined. -/
def joined (join : List PathFilter → PathFilter) : List PathFilter → PathFilter
  | [part] => part
  | parts => join parts

def isPath : FilterOperand → Bool
  | .path .. => true
  | .literal _ => false

section Syntax

variable (parseNumber : String → Option Decimal)

def numberOperand (refuse : PathError) (text : List Char) : Except PathError (FilterOperand × List Char) :=
  let (number, after) := text.span fun c => c.isDigit || ['+', '-', '.', 'e', 'E'].contains c
  match parseNumber (String.ofList number) with
  | some value => .ok (.literal (.number value), after)
  | none => .error refuse

/-- The part of a filter that starts with an operand: a comparison, or the path alone. -/
def partFrom (refuse : PathError) (operandAt : List Char → PathParse (FilterOperand × List Char)) (left : FilterOperand) (text : List Char) :
    PathParse (PathFilter × List Char) :=
  match readOp text with
  | some (op, after) => do
      let (right, after) ← operandAt (trimStart after)
      return (.compare left op right, trimStart after)
  | none => if isPath left then return (.exists_ left, text) else throw refuse

mutual

/-- Steps until none starts. -/
def parseSteps (path : String) (inFilter : Bool) : Nat → List Char → PathParse (List PathStep × List Char)
  | 0, _ => outOfFuel
  | fuel + 1, '.' :: '.' :: '[' :: after => do
      let (steps, rest) ← parseSteps path inFilter fuel ('[' :: after)
      return (.descend :: steps, rest)
  | fuel + 1, '.' :: '.' :: after => do
      let (step, after) ← lift (dottedStep path inFilter after)
      let (steps, rest) ← parseSteps path inFilter fuel after
      return (.descend :: step :: steps, rest)
  | fuel + 1, '.' :: after => do
      let (step, after) ← lift (dottedStep path inFilter after)
      let (steps, rest) ← parseSteps path inFilter fuel after
      return (step :: steps, rest)
  | fuel + 1, '[' :: inner => do
      let (step, after) ← bracketStep path fuel inner
      let (steps, rest) ← parseSteps path inFilter fuel after
      return (step :: steps, rest)
  | _ + 1, text => return ([], text)

/-- The step in brackets, from behind the first one. -/
def bracketStep (path : String) : Nat → List Char → PathParse (PathStep × List Char)
  | 0, _ => outOfFuel
  | fuel + 1, '?' :: '(' :: after =>
    match filterEnd after 1 false [] with
    | none => throw (.invalid s!"unclosed filter in path '{path}'")
    | some (expression, rest) => do
        let filter ← parseFilter path expression fuel [] [] expression
        return (.filter filter, rest)
  | _ + 1, '\'' :: text => lift (quotedStep path text)
  | _ + 1, inner => lift (plainStep path inner)

/-- The loop of `parse_filter` over the parts of an expression. -/
def parseFilter (path : String) (expression : List Char) : Nat → (any all : List PathFilter) → List Char → PathParse PathFilter
  | 0, _, _, _ => outOfFuel
  | fuel + 1, any, all, text => do
      let refuse := unsupported "filter" (String.ofList expression) path
      let text := trimStart text
      if text.head? = some '(' ∨ text.head? = some '!' then throw refuse
      let (left, after) ← parseOperand path refuse fuel text
      let (part, rest) ← partFrom refuse (parseOperand path refuse fuel) left (trimStart after)
      match rest with
      | '&' :: '&' :: rest => parseFilter path expression fuel any (all ++ [part]) rest
      | '|' :: '|' :: rest => parseFilter path expression fuel (any ++ [joined .all (all ++ [part])]) [] rest
      | [] => return joined .any (any ++ [joined .all (all ++ [part])])
      | _ => throw refuse

/-- One side of a comparison. Whatever is wrong with it, the filter is refused. -/
def parseOperand (path : String) (refuse : PathError) : Nat → List Char → PathParse (FilterOperand × List Char)
  | 0, _ => outOfFuel
  | fuel + 1, '@' :: rest => do
      let (steps, rest) ← (parseSteps path true fuel rest).adapt fun _ => refuse
      return (.path false steps, rest)
  | fuel + 1, '$' :: rest => do
      let (steps, rest) ← (parseSteps path true fuel rest).adapt fun _ => refuse
      return (.path true steps, rest)
  | _ + 1, '\'' :: rest =>
    match splitAt '\'' rest with
    | some (text, after) => return (.literal (.text (String.ofList text)), after)
    | none => throw refuse
  | _ + 1, 't' :: 'r' :: 'u' :: 'e' :: rest => return (.literal (.bool true), rest)
  | _ + 1, 'f' :: 'a' :: 'l' :: 's' :: 'e' :: rest => return (.literal (.bool false), rest)
  | _ + 1, 'n' :: 'u' :: 'l' :: 'l' :: rest => return (.literal .null, rest)
  | _ + 1, text => lift (numberOperand parseNumber refuse text)

end

/-- A relative path starts with a name. -/
def parseFrom (path : String) (fuel : Nat) (text : List Char) : PathParse (List PathStep × List Char) :=
  match text with
  | '$' :: rest => parseSteps parseNumber path false fuel rest
  | [] => parseSteps parseNumber path false fuel []
  | c :: _ =>
      if c = '.' ∨ c = '[' then parseSteps parseNumber path false fuel text
      else do
        let (name, rest) := nameAndRest false text
        let (steps, rest) ← parseSteps parseNumber path false fuel rest
        return (.member (String.ofList name) :: steps, rest)

/-- No part is parsed three times without a character read. -/
def fuelFor (text : List Char) : Nat := 3 * text.length + 1

def parseTrimmed (path : String) (text : List Char) : PathParse (List PathStep) := do
  let (steps, rest) ← parseFrom parseNumber path (fuelFor text) text
  if rest.isEmpty then return steps else throw (.invalid s!"unexpected '{String.ofList rest}' in path '{path}'")

def parsePath (path : String) : Except PathError (List PathStep) :=
  (parseTrimmed parseNumber path (trim path).toList).run.getD (.error (.invalid ""))

end Syntax

end PathSyntax

end AlLanguage.Runtime.Json
