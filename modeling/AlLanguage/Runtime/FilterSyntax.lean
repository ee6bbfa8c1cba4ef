import AlLanguage.Runtime.Decimal

/-!
# Filter expressions

The syntax of filter expressions and its parser. The parser state is the text that remains and the
byte position it starts at.
-/

namespace AlLanguage.Runtime

inductive FilterParseError where
  | unexpectedEnd
  | unexpectedChar (c : Char) (position : Nat)
  | empty
  | unmatchedParen
  | invalidRange (low high : String)
deriving DecidableEq

def FilterParseError.message : FilterParseError → String
  | unexpectedEnd => "unexpected end of filter expression"
  | unexpectedChar c position =>
      "unexpected character '" ++ String.singleton c ++ "' at position " ++ toString position
  | empty => "empty filter expression"
  | unmatchedParen => "unmatched parenthesis"
  | invalidRange low high => "invalid range: '" ++ low ++ ".." ++ high ++ "'"

/-- The operand of an equality test, possibly with wildcards. -/
structure Pattern where
  text : String
  caseSensitive : Bool
deriving DecidableEq

inductive OrderableValue where
  | integer (n : Int64)
  | decimal (d : Decimal)
  | text (s : String)
deriving DecidableEq

inductive FilterAtom where
  | equals (pattern : Pattern)
  | notEqual (pattern : Pattern)
  | lessThan (bound : OrderableValue)
  | lessEqual (bound : OrderableValue)
  | greaterThan (bound : OrderableValue)
  | greaterEqual (bound : OrderableValue)
  | range (low high : OrderableValue)
deriving DecidableEq

inductive FilterExpr where
  | or (terms : List FilterExpr)
  | and (terms : List FilterExpr)
  | atom (atom : FilterAtom)

def parseOrderableStr [DecimalSyntax] (s : String) : Option OrderableValue :=
  match parseI64 s with
  | some n => some (.integer n)
  | none =>
    match parseDecimal s with
    | some d => some (.decimal d)
    | none => some (.text s)

namespace Filter

/-! ## Parser state -/

structure Parser where
  remaining : List Char
  pos : Nat
deriving DecidableEq

namespace Parser

def peek (p : Parser) : Option Char := p.remaining.head?

def atEnd (p : Parser) : Bool := p.remaining.isEmpty

/-- Step over one character. -/
def advance (p : Parser) : Parser :=
  match p.remaining with
  | [] => p
  | c :: rest => ⟨rest, p.pos + c.utf8Size⟩

def skipBlanks : List Char → Nat → Parser
  | [], pos => ⟨[], pos⟩
  | c :: rest, pos => if c = ' ' ∨ c = '\t' then skipBlanks rest (pos + c.utf8Size) else ⟨c :: rest, pos⟩

def skipWhitespace (p : Parser) : Parser := skipBlanks p.remaining p.pos

end Parser

/-! ## Tokens -/

/-- The text up to the closing quote, which is stepped over. -/
def readQuoted (quote : Char) : List Char → Nat → List Char → Except FilterParseError (String × Parser)
  | [], _, _ => .error .unexpectedEnd
  | c :: rest, pos, read =>
      if c = quote then .ok (String.ofList read.reverse, ⟨rest, pos + c.utf8Size⟩)
      else readQuoted quote rest (pos + c.utf8Size) (c :: read)

def endsToken (c : Char) (rest : List Char) : Bool :=
  c == ' ' || c == '\t' || c == '|' || c == '&' || c == ')' || (c == '.' && rest.head? == some '.')

def readPlain : List Char → Nat → List Char → List Char × Parser
  | [], pos, read => (read.reverse, ⟨[], pos⟩)
  | c :: rest, pos, read =>
      if endsToken c rest then (read.reverse, ⟨c :: rest, pos⟩)
      else readPlain rest (pos + c.utf8Size) (c :: read)

/-- A quoted text in full, or the text before the next delimiter. Only a quoted token may be empty. -/
def readToken (p : Parser) : Except FilterParseError (String × Parser) :=
  let p := p.skipWhitespace
  match p.remaining with
  | [] => .error .unexpectedEnd
  | c :: rest =>
      if c = '\'' ∨ c = '"' then readQuoted c rest (p.pos + c.utf8Size) []
      else
        match readPlain p.remaining p.pos [] with
        | ([], _) => .error .unexpectedEnd
        | (read, p) => .ok (String.ofList read, p)

/-- The `@` prefix asks for a case-insensitive match. -/
def patternOf (token : String) : Pattern :=
  match token.toList with
  | '@' :: text => ⟨String.ofList text, false⟩
  | _ => ⟨token, true⟩

def parsePattern (p : Parser) : Except FilterParseError (Pattern × Parser) := do
  let (token, p) ← readToken p
  return (patternOf token, p)

section Syntax

variable [DecimalSyntax]

def parseOrderable (p : Parser) : Except FilterParseError (OrderableValue × Parser) := do
  let (token, p) ← readToken p
  match parseOrderableStr token with
  | some value => return (value, p)
  | none => throw .unexpectedEnd

def parseAtom (p : Parser) : Except FilterParseError (FilterAtom × Parser) := do
  let p := p.skipWhitespace
  match p.remaining with
  | [] => throw .unexpectedEnd
  | '<' :: '>' :: _ =>
      let (pattern, p) ← parsePattern p.advance.advance
      return (.notEqual pattern, p)
  | '<' :: '=' :: _ =>
      let (value, p) ← parseOrderable p.advance.advance
      return (.lessEqual value, p)
  | '<' :: _ =>
      let (value, p) ← parseOrderable p.advance
      return (.lessThan value, p)
  | '>' :: '=' :: _ =>
      let (value, p) ← parseOrderable p.advance.advance
      return (.greaterEqual value, p)
  | '>' :: _ =>
      let (value, p) ← parseOrderable p.advance
      return (.greaterThan value, p)
  | _ =>
      let (first, p) ← readToken p
      let p := p.skipWhitespace
      match p.remaining with
      | '.' :: '.' :: rest =>
          let (second, p) ← readToken ⟨rest, p.pos + 2⟩
          match parseOrderableStr first, parseOrderableStr second with
          | some low, some high => return (.range low high, p)
          | _, _ => throw (.invalidRange first second)
      | _ => return (.equals (patternOf first), p)

/-! ## Expressions

The recursion through parentheses and the two loops run on fuel; `none` is running out of it.
-/

def single (join : List FilterExpr → FilterExpr) : List FilterExpr → FilterExpr
  | [term] => term
  | terms => join terms

def outOfFuel {α : Type} : ExceptT FilterParseError Option α := ExceptT.mk none

mutual

def parseExpr : Nat → Parser → ExceptT FilterParseError Option (FilterExpr × Parser)
  | 0, _ => outOfFuel
  | fuel + 1, p => do
      let (first, p) ← parseAnd fuel p
      parseOrTerms fuel [first] p

/-- The loop of `parseExpr` over `|`. -/
def parseOrTerms : Nat → List FilterExpr → Parser → ExceptT FilterParseError Option (FilterExpr × Parser)
  | 0, _, _ => outOfFuel
  | fuel + 1, terms, p =>
      let p := p.skipWhitespace
      if p.peek = some '|' then do
        let (term, p) ← parseAnd fuel p.advance
        parseOrTerms fuel (terms ++ [term]) p
      else return (single .or terms, p)

def parseAnd : Nat → Parser → ExceptT FilterParseError Option (FilterExpr × Parser)
  | 0, _ => outOfFuel
  | fuel + 1, p => do
      let (first, p) ← parsePrimary fuel p
      parseAndTerms fuel [first] p

/-- The loop of `parseAnd` over `&`. -/
def parseAndTerms : Nat → List FilterExpr → Parser → ExceptT FilterParseError Option (FilterExpr × Parser)
  | 0, _, _ => outOfFuel
  | fuel + 1, terms, p =>
      let p := p.skipWhitespace
      if p.peek = some '&' then do
        let (term, p) ← parsePrimary fuel p.advance
        parseAndTerms fuel (terms ++ [term]) p
      else return (single .and terms, p)

def parsePrimary : Nat → Parser → ExceptT FilterParseError Option (FilterExpr × Parser)
  | 0, _ => outOfFuel
  | fuel + 1, p =>
      let p := p.skipWhitespace
      if p.peek = some '(' then do
        let (inner, p) ← parseExpr fuel p.advance
        let p := p.skipWhitespace
        if p.peek = some ')' then return (inner, p.advance) else throw .unmatchedParen
      else do
        let (atom, p) ← ExceptT.mk (some (parseAtom p))
        return (.atom atom, p)

end

def parseTrimmed (fuel : Nat) (text : List Char) : ExceptT FilterParseError Option FilterExpr := do
  let (result, p) ← parseExpr fuel ⟨text, 0⟩
  let p := p.skipWhitespace
  match p.remaining with
  | [] => return result
  | c :: _ => throw (.unexpectedChar c p.pos)

/-- At most three calls are made between one character and the next. -/
def fuelFor (text : List Char) : Nat := 3 * text.length + 3

def parse (expr : String) : Except FilterParseError FilterExpr :=
  let trimmed := (trim expr).toList
  if trimmed.isEmpty then .error .empty
  else (parseTrimmed (fuelFor trimmed) trimmed).run.getD (.error .unexpectedEnd)

end Syntax

end Filter

end AlLanguage.Runtime
