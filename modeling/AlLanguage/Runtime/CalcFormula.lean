import AlLanguage.Insight.Relations
import AlLanguage.Runtime.Text

/-!
# CalcFormulas

The formulas of FlowFields and their parser. The parser state is the text that remains and the byte position it starts at.
-/

namespace AlLanguage.Runtime.Calc

open Insight (Alphanumeric)

inductive CalcParseError where
  | empty
  | unknownType (keyword : String)
  | missingOpenParen
  | missingTableName
  | unexpectedEnd
  | unmatchedParen
  | unexpectedToken (token : String) (position : Nat)
  | invalidWhereClause (reason : String)
  | emptyFilterExpression (field : String)
  | emptyFieldArgument (field : String)
  | emptyConstArgument (field : String)
  deriving DecidableEq

def CalcParseError.message : CalcParseError → String
  | empty => "empty formula"
  | unknownType keyword => "unknown formula type: '" ++ keyword ++ "'"
  | missingOpenParen => "missing opening parenthesis after formula type"
  | missingTableName => "missing table name"
  | unexpectedEnd => "unexpected end of formula"
  | unmatchedParen => "unmatched parenthesis in formula"
  | unexpectedToken token position => "unexpected token '" ++ token ++ "' at position " ++ toString position
  | invalidWhereClause reason => "invalid where clause: " ++ reason
  | emptyFilterExpression field => "FILTER() with empty expression in WHERE clause for field '" ++ field ++ "'"
  | emptyFieldArgument field => "FIELD() with empty argument in WHERE clause for field '" ++ field ++ "'"
  | emptyConstArgument field => "CONST() with empty argument in WHERE clause for field '" ++ field ++ "'"

inductive FormulaType where
  | sum
  | count
  | lookup
  | average
  | min
  | max
  | exist
  | linked
  deriving DecidableEq

def FormulaType.display : FormulaType → String
  | sum => "Sum"
  | count => "Count"
  | lookup => "Lookup"
  | average => "Average"
  | min => "Min"
  | max => "Max"
  | exist => "Exist"
  | linked => "Linked"

inductive WhereOperator where
  | equal
  deriving DecidableEq

inductive WhereValue where
  | const (value : String)
  | field (name : String)
  | filter (expression : String)
  deriving DecidableEq

structure WhereCondition where
  field : String
  operator : WhereOperator
  value : WhereValue
  deriving DecidableEq

structure CalcFormula where
  formulaType : FormulaType
  tableName : String
  fieldName : Option String
  whereClause : List WhereCondition
  deriving DecidableEq

/-! ## Parser state -/

structure Parser where
  remaining : List Char
  pos : Nat
  deriving DecidableEq

/-- `char::is_ascii_whitespace`. -/
def isAsciiWhitespace (c : Char) : Bool := c == ' ' || c == '\t' || c == '\n' || c == '\x0c' || c == '\r'

namespace Parser

def peek (p : Parser) : Option Char := p.remaining.head?

def atEnd (p : Parser) : Bool := p.remaining.isEmpty

/-- Step over one character. -/
def advance (p : Parser) : Parser :=
  match p.remaining with
  | [] => p
  | c :: rest => ⟨rest, p.pos + c.utf8Size⟩

def skipBlanks : List Char → Nat → Parser
  | [], pos => ⟨[], pos⟩
  | c :: rest, pos => if isAsciiWhitespace c then skipBlanks rest (pos + c.utf8Size) else ⟨c :: rest, pos⟩

def skipWhitespace (p : Parser) : Parser := skipBlanks p.remaining p.pos

end Parser

/-! ## Tokens -/

/-- The text up to the closing quote, which is stepped over. -/
def readQuoted (quote : Char) : List Char → Nat → List Char → Except CalcParseError (String × Parser)
  | [], _, _ => .error .unexpectedEnd
  | c :: rest, pos, read =>
    if c = quote then .ok (String.ofList read.reverse, ⟨rest, pos + c.utf8Size⟩)
    else readQuoted quote rest (pos + c.utf8Size) (c :: read)

/-- The characters of a class from here on. -/
def readWhile (isTokenChar : Char → Bool) : List Char → Nat → List Char → List Char × Parser
  | [], pos, read => (read.reverse, ⟨[], pos⟩)
  | c :: rest, pos, read =>
    if isTokenChar c then readWhile isTokenChar rest (pos + c.utf8Size) (c :: read) else (read.reverse, ⟨c :: rest, pos⟩)

def readToken (isTokenChar : Char → Bool) (p : Parser) : Except CalcParseError (String × Parser) :=
  let p := p.skipWhitespace
  match p.remaining with
  | [] => .error .unexpectedEnd
  | c :: rest =>
    if c = '"' ∨ c = '\'' then readQuoted c rest (p.pos + c.utf8Size) []
    else
      match readWhile isTokenChar p.remaining p.pos [] with
      | ([], _) => .error .unexpectedEnd
      | (read, p) => .ok (String.ofList read, p)

def expectChar (expected : Char) (p : Parser) : Except CalcParseError Parser :=
  let p := p.skipWhitespace
  match p.remaining with
  | [] => .error .unexpectedEnd
  | c :: _ => if c = expected then .ok p.advance else .error (.unexpectedToken (String.singleton c) p.pos)

def isKeywordChar (c : Char) : Bool := !(c == '(' || c == ')' || c == ',' || c == ' ' || c == '\t')

def readKeyword (p : Parser) : Except CalcParseError (String × Parser) :=
  let p := p.skipWhitespace
  match readWhile isKeywordChar p.remaining p.pos [] with
  | ([], _) => .error .unexpectedEnd
  | (read, p) => .ok (String.ofList read, p)

/-- The text up to a comma or parenthesis outside of parentheses, which are counted in quotes too. -/
def readUntil : List Char → Nat → (depth : Nat) → List Char → Except CalcParseError (List Char × Parser)
  | [], _, _, _ => .error .unexpectedEnd
  | c :: rest, pos, depth, read =>
    if c = '(' then readUntil rest (pos + c.utf8Size) (depth + 1) (c :: read)
    else if c = ')' ∧ 0 < depth then readUntil rest (pos + c.utf8Size) (depth - 1) (c :: read)
    else if c = ')' ∨ c = ',' ∧ depth = 0 then .ok (read.reverse, ⟨c :: rest, pos⟩)
    else readUntil rest (pos + c.utf8Size) depth (c :: read)

def readUntilClose (p : Parser) : Except CalcParseError (String × Parser) := do
  let (read, p) ← readUntil p.remaining p.pos 0 []
  return (trim (String.ofList read), p)

section Names

variable [Alphanumeric]

def isNameChar (c : Char) : Bool := Alphanumeric.isAlphanumeric c || c == '_'

def isConstChar (c : Char) : Bool :=
  Alphanumeric.isAlphanumeric c || c == '_' || c == '.' || c == '-' || c == '/'

def readName (p : Parser) : Except CalcParseError (String × Parser) := readToken isNameChar p

def readConstValue (p : Parser) : Except CalcParseError (String × Parser) := readToken isConstChar p

end Names

/-! ## How the tokens are spelled -/

def Blank (text : List Char) : Prop := ∀ c ∈ text, isAsciiWhitespace c = true

/-- A name in quotes, or the characters of a class. -/
inductive Token (isTokenChar : Char → Bool) : List Char → String → Prop where
  | quoted (quote : Char) (name : List Char) : quote = '"' ∨ quote = '\'' → quote ∉ name →
      Token isTokenChar (quote :: name ++ [quote]) (String.ofList name)
  | plain (name : List Char) : name ≠ [] → (∀ c ∈ name, isTokenChar c = true) → Token isTokenChar name (String.ofList name)

/-- Parentheses are balanced, and no comma is outside of them. -/
inductive Balanced : (depth : Nat) → List Char → Prop where
  | nil : Balanced 0 []
  | opens {depth : Nat} {text : List Char} : Balanced (depth + 1) text → Balanced depth ('(' :: text)
  | closes {depth : Nat} {text : List Char} : Balanced depth text → Balanced (depth + 1) (')' :: text)
  | inner {depth : Nat} {c : Char} {text : List Char} : c ≠ '(' → c ≠ ')' → ¬(c = ',' ∧ depth = 0) → Balanced depth text →
      Balanced depth (c :: text)

theorem bind_ok {ε α β : Type} {first : Except ε α} {next : α → Except ε β} {b : β} :
    (first >>= next) = .ok b ↔ ∃ a, first = .ok a ∧ next a = .ok b := by
  cases first with
  | error e =>
      constructor
      · intro done
        cases done
      · rintro ⟨a, done, -⟩
        cases done
  | ok a => exact ⟨fun done => ⟨a, rfl, done⟩, fun ⟨_, same, done⟩ => Except.ok.inj same ▸ done⟩

theorem skipWhitespace_split (p : Parser) :
    ∃ blanks, Blank blanks ∧ p.remaining = blanks ++ p.skipWhitespace.remaining := by
  rw [Parser.skipWhitespace]
  generalize p.pos = pos
  induction p.remaining generalizing pos with
  | nil => exact ⟨[], by simp [Blank], rfl⟩
  | cons c rest ih =>
      rw [Parser.skipBlanks]
      split
      next blank =>
        obtain ⟨blanks, all, split⟩ := ih (pos + c.utf8Size)
        refine ⟨c :: blanks, ?_, ?_⟩
        · intro d member
          rcases List.mem_cons.mp member with rfl | later
          · exact blank
          · exact all d later
        · rw [List.cons_append, ← split]
      · exact ⟨[], by simp [Blank], rfl⟩

theorem readQuoted_split {quote : Char} {text : List Char} {pos : Nat} {read : List Char} {token : String} {q : Parser}
    (done : readQuoted quote text pos read = .ok (token, q)) :
    ∃ name, quote ∉ name ∧ token = String.ofList (read.reverse ++ name) ∧ text = name ++ quote :: q.remaining := by
  induction text generalizing pos read with
  | nil => cases done
  | cons c rest ih =>
      rw [readQuoted] at done
      split at done
      next closes =>
        cases done
        exact ⟨[], by simp, by simp, by rw [closes]; rfl⟩
      next other =>
        obtain ⟨name, free, named, split⟩ := ih done
        refine ⟨c :: name, ?_, ?_, ?_⟩
        · simpa [free] using fun same => other same.symm
        · simpa using named
        · rw [split, List.cons_append]

theorem readWhile_split (isTokenChar : Char → Bool) (text : List Char) (pos : Nat) (read : List Char) :
    ∃ name, (∀ c ∈ name, isTokenChar c = true) ∧ (readWhile isTokenChar text pos read).1 = read.reverse ++ name ∧
      text = name ++ (readWhile isTokenChar text pos read).2.remaining := by
  induction text generalizing pos read with
  | nil => exact ⟨[], by simp, by simp [readWhile], rfl⟩
  | cons c rest ih =>
      rw [readWhile]
      split
      next inside =>
        obtain ⟨name, all, named, split⟩ := ih (pos + c.utf8Size) (c :: read)
        refine ⟨c :: name, ?_, ?_, ?_⟩
        · intro d member
          rcases List.mem_cons.mp member with rfl | later
          · exact inside
          · exact all d later
        · rw [named, List.reverse_cons, List.append_assoc, List.singleton_append]
        · rw [List.cons_append, ← split]
      · exact ⟨[], by simp, by simp, rfl⟩

theorem readToken_split {isTokenChar : Char → Bool} {p q : Parser} {token : String}
    (done : readToken isTokenChar p = .ok (token, q)) :
    ∃ blanks text, Blank blanks ∧ Token isTokenChar text token ∧ p.remaining = blanks ++ text ++ q.remaining := by
  obtain ⟨blanks, blank, skipped⟩ := skipWhitespace_split p
  rw [readToken] at done
  split at done
  · cases done
  next c rest shape =>
    split at done
    next quote =>
      obtain ⟨name, free, rfl, split⟩ := readQuoted_split done
      refine ⟨blanks, c :: name ++ [c], blank, Token.quoted c name quote free, ?_⟩
      rw [skipped, shape, split]
      simp
    next =>
      obtain ⟨name, all, named, split⟩ := readWhile_split isTokenChar p.skipWhitespace.remaining p.skipWhitespace.pos []
      split at done
      · cases done
      next read rest' nonempty plain =>
        cases done
        rw [plain] at named split
        obtain rfl : read = name := named
        refine ⟨blanks, read, blank, Token.plain read (fun empty => nonempty empty) all, ?_⟩
        rw [skipped, split, List.append_assoc]

theorem advance_split {p : Parser} {c : Char} {rest : List Char} (shape : p.remaining = c :: rest) :
    p.advance.remaining = rest := by
  rw [Parser.advance, shape]

theorem expectChar_split {c : Char} {p q : Parser} (done : expectChar c p = .ok q) :
    ∃ blanks, Blank blanks ∧ p.remaining = blanks ++ c :: q.remaining := by
  obtain ⟨blanks, blank, skipped⟩ := skipWhitespace_split p
  rw [expectChar] at done
  split at done
  · cases done
  next d rest shape =>
    split at done
    next same =>
      cases done
      exact ⟨blanks, blank, by rw [skipped, advance_split shape, shape, same]⟩
    · cases done

theorem readKeyword_split {p q : Parser} {keyword : String} (done : readKeyword p = .ok (keyword, q)) :
    ∃ blanks, Blank blanks ∧ p.remaining = blanks ++ keyword.toList ++ q.remaining := by
  obtain ⟨blanks, blank, skipped⟩ := skipWhitespace_split p
  obtain ⟨name, -, named, split⟩ := readWhile_split isKeywordChar p.skipWhitespace.remaining p.skipWhitespace.pos []
  rw [readKeyword] at done
  split at done
  · cases done
  next read rest nonempty plain =>
    cases done
    rw [plain] at named split
    obtain rfl : read = name := named
    refine ⟨blanks, blank, ?_⟩
    rw [skipped, split, String.toList_ofList, List.append_assoc]

theorem readUntil_split {text : List Char} {pos depth : Nat} {read result : List Char} {q : Parser}
    (done : readUntil text pos depth read = .ok (result, q)) :
    ∃ inner, Balanced depth inner ∧ result = read.reverse ++ inner ∧ text = inner ++ q.remaining ∧
      ∃ c rest, q.remaining = c :: rest ∧ isAsciiWhitespace c = false := by
  induction text generalizing pos depth read with
  | nil => cases done
  | cons c rest ih =>
      rw [readUntil] at done
      split at done
      next opens =>
        obtain ⟨inner, balanced, rfl, split, stop⟩ := ih done
        exact ⟨c :: inner, opens ▸ .opens balanced, by simp, by rw [split, List.cons_append], stop⟩
      next notOpen =>
        split at done
        next closes =>
          obtain ⟨rfl, positive⟩ := closes
          obtain ⟨inner, balanced, rfl, split, stop⟩ := ih done
          obtain ⟨outer, rfl⟩ := Nat.exists_eq_succ_of_ne_zero positive.ne'
          exact ⟨')' :: inner, .closes balanced, by simp, by rw [split, List.cons_append], stop⟩
        next notClose =>
          split at done
          next ends =>
            cases done
            refine ⟨[], ?_, by simp, rfl, c, rest, rfl, ?_⟩
            · have outside : depth = 0 := by
                rcases ends with rfl | ⟨-, outside⟩
                · simpa using notClose
                · exact outside
              exact outside ▸ .nil
            · rcases ends with rfl | ⟨rfl, -⟩ <;> decide
          next goesOn =>
            obtain ⟨inner, balanced, rfl, split, stop⟩ := ih done
            have notEnd := not_or.mp goesOn
            exact ⟨c :: inner, .inner notOpen notEnd.1 notEnd.2 balanced, by simp, by rw [split, List.cons_append], stop⟩

section Parsing

variable [Alphanumeric] [CaseMapping]

/-! ## Conditions -/

/-- The argument of `CONST`, `FIELD` or `FILTER`, with the parenthesis that closes it. -/
def parseValue (field keyword : String) (p : Parser) : Except CalcParseError (WhereValue × Parser) :=
  match toUppercase keyword with
  | "CONST" => do
    let (inner, p) ← readConstValue p
    let p ← expectChar ')' p
    if (trim inner).isEmpty then throw (.emptyConstArgument field) else return (.const inner, p)
  | "FIELD" => do
    let (inner, p) ← readName p
    let p ← expectChar ')' p
    if (trim inner).isEmpty then throw (.emptyFieldArgument field) else return (.field inner, p)
  | "FILTER" => do
    let (inner, p) ← readUntilClose p
    let p ← expectChar ')' p
    if (trim inner).isEmpty then throw (.emptyFilterExpression field) else return (.filter inner, p)
  | other => throw (.invalidWhereClause ("unknown value token '" ++ other ++ "'"))

def parseOneCondition (p : Parser) : Except CalcParseError (WhereCondition × Parser) := do
  let (field, p) ← readName p
  let p := p.skipWhitespace
  let p ← expectChar '=' p
  let p := p.skipWhitespace
  let (keyword, p) ← readKeyword p
  let p ← expectChar '(' p
  let (value, p) ← parseValue field keyword p
  return (⟨field, .equal, value⟩, p)

/-- A token that is not blank, with blanks around it. -/
def Argument (isTokenChar : Char → Bool) (argument : List Char) (value : String) : Prop :=
  ∃ before text after, Blank before ∧ Blank after ∧ Token isTokenChar text value ∧ (trim value).isEmpty = false ∧
    argument = before ++ text ++ after

/-- A constant, a field or a filter in parentheses, behind its keyword. -/
inductive ValueText : List Char → WhereValue → Prop where
  | const (keyword blanks argument : List Char) (value : String) : toUppercase (String.ofList keyword) = "CONST" →
      Blank blanks → Argument isConstChar argument value →
      ValueText (keyword ++ (blanks ++ '(' :: (argument ++ [')']))) (.const value)
  | field (keyword blanks argument : List Char) (value : String) : toUppercase (String.ofList keyword) = "FIELD" →
      Blank blanks → Argument isNameChar argument value →
      ValueText (keyword ++ (blanks ++ '(' :: (argument ++ [')']))) (.field value)
  | filter (keyword blanks text : List Char) : toUppercase (String.ofList keyword) = "FILTER" →
      Blank blanks → Balanced 0 text → (trim (trim (String.ofList text))).isEmpty = false →
      ValueText (keyword ++ (blanks ++ '(' :: (text ++ [')']))) (.filter (trim (String.ofList text)))

/-- A field name, an equals sign and a value. -/
inductive ConditionText : List Char → WhereCondition → Prop where
  | mk (name before after value : List Char) (condition : WhereCondition) : Token isNameChar name condition.field →
      Blank before → Blank after → ValueText value condition.value →
      ConditionText (name ++ before ++ '=' :: (after ++ value)) condition

omit [CaseMapping] [Alphanumeric] in
theorem blank_append {first second : List Char} (left : Blank first) (right : Blank second) : Blank (first ++ second) := by
  intro c member
  exact (List.mem_append.mp member).elim (left c) (right c)

omit [Alphanumeric] [CaseMapping] in
theorem argument_split {isTokenChar : Char → Bool} {p p' q : Parser} {value : String}
    (read : readToken isTokenChar p = .ok (value, p')) (closed : expectChar ')' p' = .ok q)
    (filled : (trim value).isEmpty = false) :
    ∃ argument, Argument isTokenChar argument value ∧ p.remaining = argument ++ ')' :: q.remaining := by
  obtain ⟨before, text, leading, token, split⟩ := readToken_split read
  obtain ⟨after, trailing, split'⟩ := expectChar_split closed
  refine ⟨before ++ text ++ after, ⟨before, text, after, leading, trailing, token, filled, rfl⟩, ?_⟩
  rw [split, split', List.append_assoc _ after]

omit [Alphanumeric] [CaseMapping] in
theorem filter_split {p p' q : Parser} {value : String} (read : readUntilClose p = .ok (value, p'))
    (closed : expectChar ')' p' = .ok q) :
    ∃ text, Balanced 0 text ∧ value = trim (String.ofList text) ∧ p.remaining = text ++ ')' :: q.remaining := by
  obtain ⟨⟨inner, p₁⟩, raw, made⟩ := bind_ok.mp read
  obtain ⟨rfl, rfl⟩ := Prod.mk.inj (Except.ok.inj made)
  obtain ⟨text, balanced, same, split, c, rest, stop, solid⟩ := readUntil_split raw
  obtain rfl : inner = text := same
  obtain ⟨after, trailing, split'⟩ := expectChar_split closed
  refine ⟨inner, balanced, rfl, ?_⟩
  cases after with
  | nil => rw [split, split', List.nil_append]
  | cons d others =>
      rw [split', List.cons_append] at stop
      have blank := trailing d List.mem_cons_self
      rw [(List.cons.inj stop).1, solid] at blank
      cases blank

theorem parseValue_split {field keyword : String} {p p' q : Parser} {value : WhereValue} {blanks : List Char}
    (blank : Blank blanks) (opening : p.remaining = blanks ++ '(' :: p'.remaining)
    (done : parseValue field keyword p' = .ok (value, q)) :
    ∃ text, ValueText (keyword.toList ++ text) value ∧ p.remaining = text ++ q.remaining := by
  have spelled : String.ofList keyword.toList = keyword := String.ofList_toList
  rw [parseValue] at done
  split at done
  next upper =>
    obtain ⟨⟨inner, p₁⟩, read, done⟩ := bind_ok.mp done
    obtain ⟨p₂, closed, done⟩ := bind_ok.mp done
    split at done
    · cases done
    next filled =>
      cases done
      obtain ⟨argument, whole, split⟩ := argument_split read closed (by simpa using filled)
      exact ⟨_, .const _ _ argument _ (by rw [spelled]; exact upper) blank whole, by simp [opening, split]⟩
  next upper =>
    obtain ⟨⟨inner, p₁⟩, read, done⟩ := bind_ok.mp done
    obtain ⟨p₂, closed, done⟩ := bind_ok.mp done
    split at done
    · cases done
    next filled =>
      cases done
      obtain ⟨argument, whole, split⟩ := argument_split read closed (by simpa using filled)
      exact ⟨_, .field _ _ argument _ (by rw [spelled]; exact upper) blank whole, by simp [opening, split]⟩
  next upper =>
    obtain ⟨⟨inner, p₁⟩, read, done⟩ := bind_ok.mp done
    obtain ⟨p₂, closed, done⟩ := bind_ok.mp done
    split at done
    · cases done
    next filled =>
      cases done
      obtain ⟨text, balanced, rfl, split⟩ := filter_split read closed
      exact ⟨_, .filter _ _ text (by rw [spelled]; exact upper) blank balanced (by simpa using filled),
        by simp [opening, split]⟩
  · cases done

theorem parseOneCondition_split {p q : Parser} {condition : WhereCondition} (done : parseOneCondition p = .ok (condition, q)) :
    ∃ blanks text, Blank blanks ∧ ConditionText text condition ∧ p.remaining = blanks ++ text ++ q.remaining := by
  obtain ⟨⟨field, p₁⟩, named, done⟩ := bind_ok.mp done
  obtain ⟨p₂, equals, done⟩ := bind_ok.mp done
  obtain ⟨⟨keyword, p₃⟩, keyed, done⟩ := bind_ok.mp done
  obtain ⟨p₄, opened, done⟩ := bind_ok.mp done
  obtain ⟨⟨value, p₅⟩, valued, made⟩ := bind_ok.mp done
  obtain ⟨rfl, rfl⟩ := Prod.mk.inj (Except.ok.inj made)
  obtain ⟨blanks, name, leading, token, split⟩ := readToken_split named
  obtain ⟨blank₁, all₁, skipped₁⟩ := skipWhitespace_split p₁
  obtain ⟨blank₂, all₂, split₂⟩ := expectChar_split equals
  obtain ⟨blank₃, all₃, skipped₃⟩ := skipWhitespace_split p₂
  obtain ⟨blank₄, all₄, split₄⟩ := readKeyword_split keyed
  obtain ⟨blank₅, all₅, split₅⟩ := expectChar_split opened
  obtain ⟨text, valueText, split₆⟩ := parseValue_split all₅ split₅ valued
  refine ⟨blanks, name ++ (blank₁ ++ blank₂) ++ '=' :: ((blank₃ ++ blank₄) ++ (keyword.toList ++ text)), leading,
    .mk _ _ _ _ ⟨field, .equal, value⟩ token (blank_append all₁ all₂) (blank_append all₃ all₄) valueText, ?_⟩
  rw [split, skipped₁, split₂, skipped₃, split₄, split₆]
  simp

theorem parseOneCondition_length {p q : Parser} {condition : WhereCondition}
    (done : parseOneCondition p = .ok (condition, q)) : q.remaining.length ≤ p.remaining.length := by
  obtain ⟨blanks, text, -, -, split⟩ := parseOneCondition_split done
  rw [split, List.length_append]
  exact Nat.le_add_left ..

omit [Alphanumeric] [CaseMapping] in
theorem skipWhitespace_length (p : Parser) : p.skipWhitespace.remaining.length ≤ p.remaining.length := by
  obtain ⟨blanks, -, split⟩ := skipWhitespace_split p
  simp [split]

omit [Alphanumeric] [CaseMapping] in
theorem advance_length {p : Parser} {c : Char} (here : p.peek = some c) :
    p.advance.remaining.length < p.remaining.length := by
  obtain ⟨rest, shape⟩ := List.head?_eq_some_iff.mp here
  simp [advance_split shape, shape]

/-! ## Formulas -/

/-- The loop of `parse_where_clause`. -/
def parseConditions (p : Parser) (conditions : List WhereCondition) :
    Except CalcParseError (List WhereCondition × Parser) :=
  if p.skipWhitespace.peek = some ')' then .ok (conditions, p.skipWhitespace.advance)
  else
    match _parsed : parseOneCondition p.skipWhitespace with
    | .error e => .error e
    | .ok (condition, q) =>
      match _peeked : q.skipWhitespace.peek with
      | some ',' => parseConditions q.skipWhitespace.advance (conditions ++ [condition])
      | some ')' => .ok (conditions ++ [condition], q.skipWhitespace.advance)
      | some c => .error (.unexpectedToken (String.singleton c) q.skipWhitespace.pos)
      | none => .error .unexpectedEnd
  termination_by p.remaining.length
  decreasing_by
    have shorter := advance_length _peeked
    have skipped := skipWhitespace_length q
    have read := parseOneCondition_length _parsed
    have before := skipWhitespace_length p
    omega

def parseWhereClause (p : Parser) : Except CalcParseError (List WhereCondition × Parser) := do
  let (keyword, p) ← readKeyword p
  if !eqIgnoreAsciiCase keyword "where" then
    throw (.invalidWhereClause ("expected WHERE, got '" ++ keyword ++ "'"))
  else
    let p ← expectChar '(' p
    parseConditions p []

def FormulaType.parse (keyword : String) : Option FormulaType :=
  match toUppercase keyword with
  | "SUM" => some sum
  | "COUNT" => some count
  | "LOOKUP" => some lookup
  | "AVERAGE" => some average
  | "MIN" => some min
  | "MAX" => some max
  | "EXIST" => some exist
  | "LINKED" => some linked
  | _ => none

/-- Whether a field follows the table. -/
def FormulaType.takesField : FormulaType → Bool
  | sum | average | min | max | lookup => true
  | count | exist | linked => false

def parseFieldName (formulaType : FormulaType) (p : Parser) : Except CalcParseError (Option String × Parser) :=
  if formulaType.takesField then do
    let p ← expectChar '.' p
    let p := p.skipWhitespace
    let (field, p) ← readName p
    return (some field, p)
  else return (none, p)

/-- Whether the text goes on with `WHERE`, in any case. -/
def startsWhere (p : Parser) : Bool :=
  ['W', 'H', 'E', 'R', 'E'].isPrefixOf ((p.remaining.dropWhile isWhitespace).flatMap CaseMapping.upperChar)

def parseOptionalWhere (p : Parser) : Except CalcParseError (List WhereCondition × Parser) :=
  if startsWhere p then parseWhereClause p.skipWhitespace else return ([], p)

def parse (formula : String) : Except CalcParseError CalcFormula :=
  let trimmed := trim formula
  if trimmed.isEmpty then throw .empty
  else do
    let (keyword, p) ← readKeyword ⟨trimmed.toList, 0⟩
    match FormulaType.parse keyword with
    | none => throw (.unknownType keyword)
    | some formulaType =>
      let p ← expectChar '(' p
      let p := p.skipWhitespace
      let (tableName, p) ← readName p
      if tableName.isEmpty then throw .missingTableName
      else
        let p := p.skipWhitespace
        let (fieldName, p) ← parseFieldName formulaType p
        let p := p.skipWhitespace
        let (whereClause, p) ← parseOptionalWhere p
        let p := p.skipWhitespace
        if p.peek ≠ some ')' ∧ !p.atEnd then throw .unmatchedParen
        else return { formulaType, tableName, fieldName, whereClause }

end Parsing

end AlLanguage.Runtime.Calc
