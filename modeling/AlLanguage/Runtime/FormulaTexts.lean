import AlLanguage.Runtime.CalcFormula
import AlLanguage.Runtime.Caseless

/-!
# The texts of CalcFormulas

- What the parser accepts is a formula, up to its end: it may end before the closing parenthesis or go on behind it.
- A printed formula is read back.
-/

namespace AlLanguage.Runtime.Calc

open Insight (Alphanumeric)

section Formulas

variable [Alphanumeric] [CaseMapping]

/-! ## Spelled formulas -/

/-- The conditions of a WHERE clause with the parenthesis that closes it, at its beginning or behind a comma. -/
inductive ConditionsText : (comma : Bool) → List Char → List WhereCondition → (trailing : Bool) → Prop where
  | close (comma : Bool) (blanks : List Char) : Blank blanks → ConditionsText comma (blanks ++ [')']) [] comma
  | last (comma : Bool) (before text after : List Char) (condition : WhereCondition) : Blank before →
      ConditionText text condition → Blank after →
      ConditionsText comma (before ++ text ++ after ++ [')']) [condition] false
  | more (comma trailing : Bool) (before text after rest : List Char) (condition : WhereCondition)
      (others : List WhereCondition) : Blank before → ConditionText text condition → Blank after →
      ConditionsText true rest others trailing →
      ConditionsText comma (before ++ text ++ after ++ ',' :: rest) (condition :: others) trailing

inductive WhereText : List Char → List WhereCondition → (trailing : Bool) → Prop where
  | none (blanks : List Char) : Blank blanks → WhereText blanks [] false
  | some (before keyword blanks text : List Char) (conditions : List WhereCondition) (trailing : Bool) : Blank before →
      eqIgnoreAsciiCase (String.ofList keyword) "where" = true → Blank blanks →
      ConditionsText false text conditions trailing →
      WhereText (before ++ keyword ++ (blanks ++ '(' :: text)) conditions trailing

inductive FieldText (formulaType : FormulaType) : List Char → Option String → Prop where
  | none (blanks : List Char) : formulaType.takesField = false → Blank blanks → FieldText formulaType blanks none
  | some (before after text : List Char) (name : String) : formulaType.takesField = true → Blank before → Blank after →
      Token isNameChar text name → FieldText formulaType (before ++ '.' :: (after ++ text)) (some name)

/-- A formula before its closing parenthesis, and what comes then. -/
inductive Reading : List Char → CalcFormula → (trailing : Bool) → (ending : List Char) → Prop where
  | mk (keyword blanks before table field clause ending : List Char) (f : CalcFormula) (trailing : Bool) :
      FormulaType.parse (String.ofList keyword) = some f.formulaType → Blank blanks → Blank before →
      Token isNameChar table f.tableName → f.tableName.isEmpty = false → FieldText f.formulaType field f.fieldName →
      WhereText clause f.whereClause trailing →
      Reading (keyword ++ (blanks ++ '(' :: (before ++ table ++ (field ++ (clause ++ ending))))) f trailing ending

/-- The formula ends with its parenthesis. -/
def Ends (ending : List Char) : Prop := ∃ blanks, Blank blanks ∧ ending = blanks ++ [')']

/-- The text ends before the parenthesis, or it goes on behind it. -/
def Loose (ending : List Char) : Prop :=
  Blank ending ∨ ∃ blanks c rest, Blank blanks ∧ ending = blanks ++ ')' :: c :: rest

/-- The text is one formula. -/
def Whole (text : List Char) (f : CalcFormula) : Prop := ∃ ending, Reading text f false ending ∧ Ends ending

/-- A formula with a comma before the end of its WHERE clause, without its end, or with something behind it. -/
def Unfinished (text : List Char) (f : CalcFormula) : Prop :=
  ∃ trailing ending, Reading text f trailing ending ∧ (trailing = true ∨ Loose ending)

omit [CaseMapping] in
theorem FieldText.blanks {formulaType : FormulaType} {text blanks : List Char} {name : Option String}
    (fieldText : FieldText formulaType text name) (blank : Blank blanks) : FieldText formulaType (blanks ++ text) name := by
  cases fieldText with
  | none others none rest => exact .none _ none (blank_append blank rest)
  | some before after text name takes leading trailing token =>
      rw [← List.append_assoc]
      exact .some _ after text name takes (blank_append blank leading) trailing token

theorem WhereText.blanks {text blanks : List Char} {conditions : List WhereCondition} {trailing : Bool}
    (whereText : WhereText text conditions trailing) (blank : Blank blanks) :
    WhereText (blanks ++ text) conditions trailing := by
  cases whereText with
  | none others rest => exact .none _ (blank_append blank rest)
  | some before keyword others text conditions trailing leading where_ later conditionsText =>
      have whole : blanks ++ (before ++ keyword ++ (others ++ '(' :: text)) =
          (blanks ++ before) ++ keyword ++ (others ++ '(' :: text) := by simp
      rw [whole]
      exact .some _ keyword others text conditions trailing (blank_append blank leading) where_ later conditionsText

/-! ## What is accepted -/

theorem parseConditions_eq (p : Parser) (seen : List WhereCondition) :
    parseConditions p seen =
      if p.skipWhitespace.peek = some ')' then .ok (seen, p.skipWhitespace.advance)
      else parseOneCondition p.skipWhitespace >>= fun (condition, q) =>
        match q.skipWhitespace.peek with
        | some ',' => parseConditions q.skipWhitespace.advance (seen ++ [condition])
        | some ')' => .ok (seen ++ [condition], q.skipWhitespace.advance)
        | some c => .error (.unexpectedToken (String.singleton c) q.skipWhitespace.pos)
        | none => .error .unexpectedEnd := by
  rw [parseConditions]
  split
  · rfl
  · split
    next e failed => rw [failed]; rfl
    next condition q parsed =>
      rw [parsed]
      change _ = match q.skipWhitespace.peek with | some ',' => _ | some ')' => _ | some c => _ | none => _
      split <;> simp_all

theorem condition_split {p q : Parser} {condition : WhereCondition} {c : Char}
    (parsed : parseOneCondition p.skipWhitespace = .ok (condition, q)) (peeked : q.skipWhitespace.peek = some c) :
    ∃ before text after, Blank before ∧ ConditionText text condition ∧ Blank after ∧
      p.remaining = before ++ text ++ after ++ c :: q.skipWhitespace.advance.remaining := by
  obtain ⟨blanks, blank, skipped⟩ := skipWhitespace_split p
  obtain ⟨blanks', text, blank', conditionText, split⟩ := parseOneCondition_split parsed
  obtain ⟨after, trailing, skipped'⟩ := skipWhitespace_split q
  obtain ⟨rest, shape⟩ := List.head?_eq_some_iff.mp peeked
  refine ⟨blanks ++ blanks', text, after, blank_append blank blank', conditionText, trailing, ?_⟩
  rw [skipped, split, skipped', shape, advance_split shape]
  simp

theorem parseConditions_split {seen conditions : List WhereCondition} {q : Parser} :
    ∀ {p : Parser} (comma : Bool), parseConditions p seen = .ok (conditions, q) →
      ∃ text new trailing, conditions = seen ++ new ∧ ConditionsText comma text new trailing ∧
        p.remaining = text ++ q.remaining := by
  intro p
  induction p, seen using parseConditions.induct with
  | case1 p seen closing =>
      intro comma done
      rw [parseConditions_eq, if_pos closing] at done
      cases done
      obtain ⟨blanks, blank, split⟩ := skipWhitespace_split p
      obtain ⟨rest, shape⟩ := List.head?_eq_some_iff.mp closing
      refine ⟨_, [], comma, by simp, .close comma blanks blank, ?_⟩
      rw [split, advance_split shape, shape]
      simp
  | case2 p seen goesOn e failed =>
      intro comma done
      rw [parseConditions_eq, if_neg goesOn, failed] at done
      cases done
  | case3 p seen goesOn condition q' parsed peeked ih =>
      intro comma done
      rw [parseConditions_eq, if_neg goesOn, parsed] at done
      dsimp only [bind, Except.bind] at done
      rw [peeked] at done
      obtain ⟨before, text, after, leading, conditionText, trailing, split⟩ := condition_split parsed peeked
      obtain ⟨rest, others, comma', rfl, later, split'⟩ := ih true done
      refine ⟨_, condition :: others, comma', by simp, .more comma comma' before text after rest condition others leading
        conditionText trailing later, ?_⟩
      rw [split, split']
      simp
  | case4 p seen goesOn condition q' parsed peeked =>
      intro comma done
      rw [parseConditions_eq, if_neg goesOn, parsed] at done
      dsimp only [bind, Except.bind] at done
      rw [peeked] at done
      cases done
      obtain ⟨before, text, after, leading, conditionText, trailing, split⟩ := condition_split parsed peeked
      refine ⟨_, [condition], false, rfl, .last comma before text after condition leading conditionText trailing, ?_⟩
      rw [split]
      simp
  | case5 p seen goesOn condition q' parsed c other other' peeked =>
      intro comma done
      rw [parseConditions_eq, if_neg goesOn, parsed] at done
      dsimp only [bind, Except.bind] at done
      rw [peeked] at done
      split at done <;> simp_all
  | case6 p seen goesOn condition q' parsed peeked =>
      intro comma done
      rw [parseConditions_eq, if_neg goesOn, parsed] at done
      dsimp only [bind, Except.bind] at done
      rw [peeked] at done
      cases done

omit [CaseMapping] in
theorem parseFieldName_split {formulaType : FormulaType} {p q : Parser} {name : Option String}
    (done : parseFieldName formulaType p = .ok (name, q)) :
    ∃ text, FieldText formulaType text name ∧ p.remaining = text ++ q.remaining := by
  rw [parseFieldName] at done
  split at done
  next takes =>
    obtain ⟨p₁, dot, done⟩ := bind_ok.mp done
    obtain ⟨⟨field, p₂⟩, named, made⟩ := bind_ok.mp done
    obtain ⟨rfl, rfl⟩ := Prod.mk.inj (Except.ok.inj made)
    obtain ⟨before, leading, split⟩ := expectChar_split dot
    obtain ⟨blanks, blank, skipped⟩ := skipWhitespace_split p₁
    obtain ⟨blanks', text, blank', token, split'⟩ := readToken_split named
    refine ⟨_, .some before (blanks ++ blanks') text field takes leading (blank_append blank blank') token, ?_⟩
    rw [split, skipped, split']
    simp
  next none =>
    obtain ⟨rfl, rfl⟩ := Prod.mk.inj (Except.ok.inj done)
    exact ⟨[], .none [] (by simpa using none) (by simp [Blank]), rfl⟩

theorem parseOptionalWhere_split {p q : Parser} {conditions : List WhereCondition}
    (done : parseOptionalWhere p = .ok (conditions, q)) :
    ∃ text trailing, WhereText text conditions trailing ∧ p.remaining = text ++ q.remaining := by
  rw [parseOptionalWhere] at done
  split at done
  · rw [parseWhereClause] at done
    obtain ⟨⟨keyword, p₁⟩, keyed, done⟩ := bind_ok.mp done
    dsimp only at done
    split at done
    · cases done
    next where_ =>
      obtain ⟨p₂, opened, done⟩ := bind_ok.mp done
      obtain ⟨blanks, blank, skipped⟩ := skipWhitespace_split p
      obtain ⟨blanks', blank', split⟩ := readKeyword_split keyed
      obtain ⟨after, trailing, split'⟩ := expectChar_split opened
      obtain ⟨text, new, comma, rfl, conditionsText, split''⟩ := parseConditions_split false done
      have named : eqIgnoreAsciiCase (String.ofList keyword.toList) "where" = true := by
        rw [String.ofList_toList]
        simpa using where_
      refine ⟨_, comma, .some (blanks ++ blanks') keyword.toList after text _ comma (blank_append blank blank') named
        trailing conditionsText, ?_⟩
      rw [skipped, split, split', split'']
      simp
  · obtain ⟨rfl, rfl⟩ := Prod.mk.inj (Except.ok.inj done)
    exact ⟨[], false, .none [] (by simp [Blank]), rfl⟩

omit [Alphanumeric] [CaseMapping] in
theorem trim_solid_head {s : String} {c : Char} {rest : List Char} (shape : (trim s).toList = c :: rest) :
    isWhitespace c = false := by
  rw [trim, String.toList_ofList] at shape
  obtain ⟨back, split⟩ := List.rdropWhile_prefix isWhitespace (s.toList.dropWhile isWhitespace)
  rw [shape, List.cons_append] at split
  have first := List.head?_dropWhile_not isWhitespace s.toList
  rw [← split] at first
  simpa using first

omit [Alphanumeric] [CaseMapping] in
theorem isWhitespace_of_ascii {c : Char} (blank : isAsciiWhitespace c = true) : isWhitespace c = true := by
  simp only [isAsciiWhitespace, Bool.or_eq_true, beq_iff_eq] at blank
  obtain (((rfl | rfl) | rfl) | rfl) | rfl := blank <;> decide

omit [Alphanumeric] [CaseMapping] in
theorem ending_split {p : Parser} (accepted : ¬(p.skipWhitespace.peek ≠ some ')' ∧ !p.skipWhitespace.atEnd)) :
    Ends p.remaining ∨ Loose p.remaining := by
  obtain ⟨blanks, blank, split⟩ := skipWhitespace_split p
  rw [split]
  cases shape : p.skipWhitespace.remaining with
  | nil => exact .inr (.inl (by simpa using blank))
  | cons c rest =>
      by_cases closes : c = ')'
      · rw [closes]
        cases rest with
        | nil => exact .inl ⟨blanks, blank, rfl⟩
        | cons d rest => exact .inr (.inr ⟨blanks, d, rest, blank, rfl⟩)
      · exact absurd ⟨by simp [Parser.peek, shape, closes], by simp [Parser.atEnd, shape]⟩ accepted

omit [Alphanumeric] [CaseMapping] in
theorem readKeyword_trimmed {formula keyword : String} {p : Parser}
    (keyed : readKeyword ⟨(trim formula).toList, 0⟩ = .ok (keyword, p)) :
    (trim formula).toList = keyword.toList ++ p.remaining := by
  obtain ⟨blanks, blank, split⟩ := readKeyword_split keyed
  cases blanks with
  | nil => simpa using split
  | cons c rest =>
      have solid := trim_solid_head split
      rw [isWhitespace_of_ascii (blank c List.mem_cons_self)] at solid
      cases solid

/-- What is accepted reads as a formula up to its end. -/
theorem parse_reads {formula : String} {f : CalcFormula} (done : parse formula = .ok f) :
    ∃ trailing ending, Reading (trim formula).toList f trailing ending ∧ (Ends ending ∨ Loose ending) := by
  rw [parse] at done
  dsimp only at done
  split at done
  · cases done
  next filled =>
    obtain ⟨⟨keyword, p₁⟩, keyed, done⟩ := bind_ok.mp done
    dsimp only at done
    split at done
    · cases done
    next formulaType known =>
      obtain ⟨p₂, opened, done⟩ := bind_ok.mp done
      obtain ⟨⟨tableName, p₃⟩, tabled, done⟩ := bind_ok.mp done
      dsimp only at done
      split at done
      · cases done
      next named =>
        obtain ⟨⟨fieldName, p₄⟩, fielded, done⟩ := bind_ok.mp done
        obtain ⟨⟨whereClause, p₅⟩, filtered, done⟩ := bind_ok.mp done
        dsimp only at done
        split at done
        · cases done
        next accepted =>
          cases done
          obtain ⟨blanks₁, blank₁, split₁⟩ := expectChar_split opened
          obtain ⟨blanks₂, blank₂, skipped₂⟩ := skipWhitespace_split p₂
          obtain ⟨blanks₃, table, blank₃, token, split₃⟩ := readToken_split tabled
          obtain ⟨blanks₄, blank₄, skipped₄⟩ := skipWhitespace_split p₃
          obtain ⟨field, fieldText, split₅⟩ := parseFieldName_split fielded
          obtain ⟨blanks₆, blank₆, skipped₆⟩ := skipWhitespace_split p₄
          obtain ⟨clause, trailing, whereText, split₇⟩ := parseOptionalWhere_split filtered
          have whole : (trim formula).toList = keyword.toList ++ (blanks₁ ++ '(' :: ((blanks₂ ++ blanks₃) ++ table ++
              ((blanks₄ ++ field) ++ ((blanks₆ ++ clause) ++ p₅.remaining)))) := by
            rw [readKeyword_trimmed keyed, split₁, skipped₂, split₃, skipped₄, split₅, skipped₆, split₇]
            simp
          refine ⟨trailing, p₅.remaining, ?_, ending_split accepted⟩
          rw [whole]
          exact .mk keyword.toList blanks₁ (blanks₂ ++ blanks₃) table (blanks₄ ++ field) (blanks₆ ++ clause) p₅.remaining
            _ trailing (by rw [String.ofList_toList]; exact known) blank₁ (blank_append blank₂ blank₃) token
            (by simpa using named) (fieldText.blanks blank₄) (whereText.blanks blank₆)

/-! ## Printing -/

/-- A name in quotes. -/
def printName (name : String) : List Char := '"' :: name.toList ++ ['"']

def WhereValue.keyword : WhereValue → String
  | const _ => "CONST"
  | field _ => "FIELD"
  | filter _ => "FILTER"

def WhereValue.argument : WhereValue → List Char
  | const value => printName value
  | field name => printName name
  | filter expression => expression.toList

def WhereValue.print (value : WhereValue) : List Char := value.keyword.toList ++ '(' :: (value.argument ++ [')'])

def WhereCondition.print (condition : WhereCondition) : List Char :=
  printName condition.field ++ '=' :: condition.value.print

def printConditions : List WhereCondition → List Char
  | [] => []
  | [condition] => condition.print
  | condition :: rest => condition.print ++ ',' :: printConditions rest

def printField : Option String → List Char
  | none => []
  | some name => '.' :: printName name

def printWhere : List WhereCondition → List Char
  | [] => []
  | conditions => " WHERE (".toList ++ printConditions conditions ++ [')']

def CalcFormula.print (f : CalcFormula) : String :=
  String.ofList (f.formulaType.display.toList ++
    '(' :: (printName f.tableName ++ printField f.fieldName ++ printWhere f.whereClause ++ [')']))

/-- An argument without quotes that is not blank, or a trimmed filter expression with balanced parentheses. -/
def WhereValue.Printable : WhereValue → Prop
  | const value => '"' ∉ value.toList ∧ (trim value).isEmpty = false
  | field name => '"' ∉ name.toList ∧ (trim name).isEmpty = false
  | filter expression => Balanced 0 expression.toList ∧ trim expression = expression ∧ expression.isEmpty = false

/-- A field comes with the types that take one, and nothing that is printed in quotes holds one. -/
structure CalcFormula.Printable (f : CalcFormula) : Prop where
  table : '"' ∉ f.tableName.toList
  named : f.tableName.isEmpty = false
  takesField : f.fieldName.isSome = f.formulaType.takesField
  field : ∀ name, f.fieldName = some name → '"' ∉ name.toList
  conditions : ∀ condition ∈ f.whereClause, '"' ∉ condition.field.toList ∧ condition.value.Printable

/-! ## Reading printed formulas -/

/-- The parser takes the text for the value, wherever it stands. -/
def Takes {α : Type} (parser : Parser → Except CalcParseError (α × Parser)) (text rest : List Char) (a : α) : Prop :=
  ∀ pos, ∃ pos', parser ⟨text ++ rest, pos⟩ = .ok (a, ⟨rest, pos'⟩)

omit [Alphanumeric] [CaseMapping] in
theorem skipWhitespace_solid {c : Char} (solid : isAsciiWhitespace c = false) (rest : List Char) (pos : Nat) :
    Parser.skipWhitespace ⟨c :: rest, pos⟩ = ⟨c :: rest, pos⟩ := by
  rw [Parser.skipWhitespace, Parser.skipBlanks, solid]
  rfl

omit [Alphanumeric] [CaseMapping] in
theorem readQuoted_print {name : List Char} (free : '"' ∉ name) (rest read : List Char) (pos : Nat) :
    ∃ pos', readQuoted '"' (name ++ '"' :: rest) pos read = .ok (String.ofList (read.reverse ++ name), ⟨rest, pos'⟩) := by
  induction name generalizing pos read with
  | nil => exact ⟨_, by rw [List.nil_append, readQuoted, if_pos rfl, List.append_nil]⟩
  | cons c name ih =>
      obtain ⟨other, later⟩ := not_or.mp (List.mem_cons.not.mp free)
      obtain ⟨pos', done⟩ := ih later (c :: read) (pos + c.utf8Size)
      refine ⟨pos', ?_⟩
      rw [List.cons_append, readQuoted, if_neg (Ne.symm other), done]
      simp

omit [Alphanumeric] [CaseMapping] in
theorem takes_name {isTokenChar : Char → Bool} {name : String} (free : '"' ∉ name.toList) (rest : List Char) :
    Takes (readToken isTokenChar) (printName name) rest name := by
  intro pos
  obtain ⟨pos', done⟩ := readQuoted_print free rest [] (pos + ('"' : Char).utf8Size)
  refine ⟨pos', ?_⟩
  rw [readToken, printName, List.cons_append, List.cons_append, skipWhitespace_solid (by decide)]
  simpa using done

omit [Alphanumeric] [CaseMapping] in
theorem skipWhitespace_name (name : String) (rest : List Char) (pos : Nat) :
    Parser.skipWhitespace ⟨printName name ++ rest, pos⟩ = ⟨printName name ++ rest, pos⟩ :=
  skipWhitespace_solid (by decide) _ pos

omit [Alphanumeric] [CaseMapping] in
theorem expectChar_solid {c : Char} (solid : isAsciiWhitespace c = false) (rest : List Char) (pos : Nat) :
    expectChar c ⟨c :: rest, pos⟩ = .ok ⟨rest, pos + c.utf8Size⟩ := by
  rw [expectChar, skipWhitespace_solid solid]
  simp [Parser.advance]

omit [Alphanumeric] [CaseMapping] in
theorem readWhile_print {isTokenChar : Char → Bool} {name : List Char} (all : ∀ c ∈ name, isTokenChar c = true) {c : Char}
    (stop : isTokenChar c = false) (rest read : List Char) (pos : Nat) :
    ∃ pos', readWhile isTokenChar (name ++ c :: rest) pos read = (read.reverse ++ name, ⟨c :: rest, pos'⟩) := by
  induction name generalizing pos read with
  | nil =>
      refine ⟨pos, ?_⟩
      rw [List.nil_append, readWhile, stop, List.append_nil]
      rfl
  | cons d name ih =>
      obtain ⟨pos', done⟩ := ih (fun c member => all c (List.mem_cons_of_mem _ member)) (d :: read) (pos + d.utf8Size)
      refine ⟨pos', ?_⟩
      rw [List.cons_append, readWhile, if_pos (all d List.mem_cons_self), done]
      simp

omit [Alphanumeric] [CaseMapping] in
theorem takes_keyword {first : Char} {keyword : List Char} (solid : isAsciiWhitespace first = false)
    (all : ∀ c ∈ first :: keyword, isKeywordChar c = true) {stop : Char} (stops : isKeywordChar stop = false)
    (rest : List Char) : Takes readKeyword (first :: keyword) (stop :: rest) (String.ofList (first :: keyword)) := by
  intro pos
  obtain ⟨pos', done⟩ := readWhile_print all stops rest [] pos
  refine ⟨pos', ?_⟩
  rw [readKeyword, List.cons_append, skipWhitespace_solid solid]
  rw [List.cons_append] at done
  simp [done]

omit [Alphanumeric] [CaseMapping] in
theorem readUntil_print {text : List Char} {depth : Nat} (balanced : Balanced depth text) (rest read : List Char) (pos : Nat) :
    ∃ pos', readUntil (text ++ ')' :: rest) pos depth read = .ok (read.reverse ++ text, ⟨')' :: rest, pos'⟩) := by
  induction balanced generalizing pos read with
  | nil => exact ⟨pos, by simp [readUntil]⟩
  | opens inner ih =>
      obtain ⟨pos', done⟩ := ih ('(' :: read) (pos + ('(' : Char).utf8Size)
      exact ⟨pos', by simp [readUntil, done]⟩
  | closes outer ih =>
      obtain ⟨pos', done⟩ := ih (')' :: read) (pos + (')' : Char).utf8Size)
      exact ⟨pos', by simp [readUntil, done]⟩
  | @inner depth c text notOpen notClose notComma later ih =>
      obtain ⟨pos', done⟩ := ih (c :: read) (pos + c.utf8Size)
      refine ⟨pos', ?_⟩
      rw [List.cons_append, readUntil, if_neg notOpen, if_neg fun both => notClose both.1,
        if_neg (not_or.mpr ⟨notClose, notComma⟩), done]
      simp

omit [Alphanumeric] in
theorem toUppercase_upper {s : String}
    (upper : (s.toList.all fun c => decide (c.toNat < 128) && decide (c.toUpper = c)) = true) : toUppercase s = s := by
  have each : ∀ c ∈ s.toList, c.toNat < 128 ∧ c.toUpper = c := by
    intro c member
    simpa using List.all_eq_true.mp upper c member
  have same : s.toList.map Char.toUpper = s.toList := by
    rw [List.map_congr_left fun c member => (each c member).2, List.map_id']
  rw [toUppercase_ascii fun c member => (each c member).1, toAsciiUppercase, same, String.ofList_toList]

theorem takes_value {value : WhereValue} (printable : value.Printable) (field : String) (rest : List Char) :
    Takes (parseValue field value.keyword) (value.argument ++ [')']) rest value := by
  intro pos
  rw [List.append_assoc, List.singleton_append]
  cases value with
  | const value =>
      obtain ⟨free, filled⟩ := printable
      obtain ⟨pos', read⟩ := @takes_name isConstChar value free (')' :: rest) pos
      refine ⟨pos' + (')' : Char).utf8Size, ?_⟩
      have upper : toUppercase "CONST" = "CONST" := toUppercase_upper (by decide)
      rw [WhereValue.keyword, parseValue, upper]
      refine bind_ok.mpr ⟨_, read, bind_ok.mpr ⟨_, expectChar_solid (by decide) rest pos', ?_⟩⟩
      simp [filled, pure, Except.pure]
  | field name =>
      obtain ⟨free, filled⟩ := printable
      obtain ⟨pos', read⟩ := @takes_name isNameChar name free (')' :: rest) pos
      refine ⟨pos' + (')' : Char).utf8Size, ?_⟩
      have upper : toUppercase "FIELD" = "FIELD" := toUppercase_upper (by decide)
      rw [WhereValue.keyword, parseValue, upper]
      refine bind_ok.mpr ⟨_, read, bind_ok.mpr ⟨_, expectChar_solid (by decide) rest pos', ?_⟩⟩
      simp [filled, pure, Except.pure]
  | filter expression =>
      obtain ⟨balanced, trimmed, filled⟩ := printable
      obtain ⟨pos', read⟩ := readUntil_print balanced rest [] pos
      refine ⟨pos' + (')' : Char).utf8Size, ?_⟩
      have upper : toUppercase "FILTER" = "FILTER" := toUppercase_upper (by decide)
      have close : readUntilClose ⟨expression.toList ++ ')' :: rest, pos⟩ = .ok (expression, ⟨')' :: rest, pos'⟩) := by
        refine bind_ok.mpr ⟨_, read, ?_⟩
        simp [trimmed, pure, Except.pure]
      rw [WhereValue.keyword, parseValue, upper]
      refine bind_ok.mpr ⟨_, close, bind_ok.mpr ⟨_, expectChar_solid (by decide) rest pos', ?_⟩⟩
      simp [trimmed, filled, pure, Except.pure]

omit [Alphanumeric] [CaseMapping] in
theorem valueKeyword_spelled (value : WhereValue) : ∃ first keyword, value.keyword.toList = first :: keyword ∧
    isAsciiWhitespace first = false ∧ (first :: keyword).all isKeywordChar = true := by
  cases value with
  | const value => exact ⟨'C', ['O', 'N', 'S', 'T'], by rw [WhereValue.keyword]; decide⟩
  | field name => exact ⟨'F', ['I', 'E', 'L', 'D'], by rw [WhereValue.keyword]; decide⟩
  | filter expression => exact ⟨'F', ['I', 'L', 'T', 'E', 'R'], by rw [WhereValue.keyword]; decide⟩

omit [Alphanumeric] [CaseMapping] in
theorem skipWhitespace_keyword (value : WhereValue) (rest : List Char) (pos : Nat) :
    Parser.skipWhitespace ⟨value.keyword.toList ++ rest, pos⟩ = ⟨value.keyword.toList ++ rest, pos⟩ := by
  obtain ⟨first, keyword, spelled, solid, -⟩ := valueKeyword_spelled value
  rw [spelled, List.cons_append]
  exact skipWhitespace_solid solid _ pos

omit [Alphanumeric] [CaseMapping] in
theorem takes_valueKeyword (value : WhereValue) (rest : List Char) :
    Takes readKeyword value.keyword.toList ('(' :: rest) value.keyword := by
  obtain ⟨first, keyword, spelled, solid, all⟩ := valueKeyword_spelled value
  have taken := @takes_keyword first keyword solid (List.all_eq_true.mp all) '(' (by decide) rest
  rw [← spelled, String.ofList_toList] at taken
  exact taken

theorem takes_condition {condition : WhereCondition} (free : '"' ∉ condition.field.toList)
    (printable : condition.value.Printable) (rest : List Char) :
    Takes parseOneCondition condition.print rest condition := by
  intro pos
  obtain ⟨field, operator, value⟩ := condition
  obtain ⟨pos₁, named⟩ := @takes_name isNameChar field free
    ('=' :: (value.keyword.toList ++ '(' :: (value.argument ++ [')'] ++ rest))) pos
  obtain ⟨pos₂, keyed⟩ := takes_valueKeyword value (value.argument ++ [')'] ++ rest) (pos₁ + ('=' : Char).utf8Size)
  obtain ⟨pos₃, valued⟩ := takes_value printable field rest (pos₂ + ('(' : Char).utf8Size)
  refine ⟨pos₃, ?_⟩
  have text : WhereCondition.print ⟨field, operator, value⟩ ++ rest =
      printName field ++ '=' :: (value.keyword.toList ++ '(' :: (value.argument ++ [')'] ++ rest)) := by
    simp [WhereCondition.print, WhereValue.print]
  rw [text]
  refine bind_ok.mpr ⟨_, named, ?_⟩
  dsimp only
  rw [skipWhitespace_solid (by decide)]
  refine bind_ok.mpr ⟨_, expectChar_solid (by decide) _ pos₁, ?_⟩
  rw [skipWhitespace_keyword]
  exact bind_ok.mpr ⟨_, keyed, bind_ok.mpr ⟨_, expectChar_solid (by decide) _ pos₂, bind_ok.mpr ⟨_, valued, rfl⟩⟩⟩

omit [Alphanumeric] [CaseMapping] in
theorem condition_print_cons (condition : WhereCondition) : ∃ rest, condition.print = '"' :: rest :=
  ⟨_, rfl⟩

theorem parseConditions_step {condition : WhereCondition} (free : '"' ∉ condition.field.toList)
    (printable : condition.value.Printable) (seen : List WhereCondition) {c : Char} (solid : isAsciiWhitespace c = false)
    (rest : List Char) (pos : Nat) :
    ∃ pos', parseConditions ⟨condition.print ++ c :: rest, pos⟩ seen =
      match some c with
      | some ',' => parseConditions ⟨rest, pos' + c.utf8Size⟩ (seen ++ [condition])
      | some ')' => .ok (seen ++ [condition], ⟨rest, pos' + c.utf8Size⟩)
      | some c => .error (.unexpectedToken (String.singleton c) pos')
      | none => .error .unexpectedEnd := by
  obtain ⟨pos', parsed⟩ := takes_condition free printable (c :: rest) pos
  obtain ⟨tail, quoted⟩ := condition_print_cons condition
  refine ⟨pos', ?_⟩
  rw [parseConditions_eq, quoted, List.cons_append, skipWhitespace_solid (by decide), if_neg (by simp [Parser.peek])]
  rw [quoted, List.cons_append] at parsed
  rw [parsed]
  dsimp only [bind, Except.bind]
  rw [skipWhitespace_solid solid]
  rfl

theorem parseConditions_print {condition : WhereCondition} {others : List WhereCondition}
    (printable : ∀ c ∈ condition :: others, '"' ∉ c.field.toList ∧ c.value.Printable) (seen : List WhereCondition)
    (rest : List Char) (pos : Nat) :
    ∃ pos', parseConditions ⟨printConditions (condition :: others) ++ ')' :: rest, pos⟩ seen =
      .ok (seen ++ condition :: others, ⟨rest, pos'⟩) := by
  obtain ⟨free, value⟩ := printable condition List.mem_cons_self
  induction others generalizing condition seen pos with
  | nil =>
      obtain ⟨pos', step⟩ := parseConditions_step free value seen (c := ')') (by decide) rest pos
      exact ⟨_, step⟩
  | cons next others ih =>
      obtain ⟨pos', step⟩ := parseConditions_step free value seen (c := ',') (by decide)
        (printConditions (next :: others) ++ ')' :: rest) pos
      have later : ∀ c ∈ next :: others, '"' ∉ c.field.toList ∧ c.value.Printable :=
        fun c member => printable c (List.mem_cons_of_mem _ member)
      obtain ⟨free', value'⟩ := later next List.mem_cons_self
      obtain ⟨pos'', done⟩ := ih later (seen ++ [condition]) (pos' + (',' : Char).utf8Size) free' value'
      refine ⟨pos'', ?_⟩
      rw [printConditions, List.append_assoc, List.cons_append, step]
      · simpa using done
      · simp

omit [Alphanumeric] [CaseMapping] in
theorem display_spelled (formulaType : FormulaType) : ∃ first keyword, formulaType.display.toList = first :: keyword ∧
    isAsciiWhitespace first = false ∧ isWhitespace first = false ∧ (first :: keyword).all isKeywordChar = true := by
  have each : ∀ formulaType : FormulaType, formulaType.display.toList ≠ [] ∧
      formulaType.display.toList.all (fun c => !isAsciiWhitespace c && !isWhitespace c && isKeywordChar c) = true := by
    intro formulaType
    cases formulaType <;> decide
  obtain ⟨nonempty, all⟩ := each formulaType
  cases spelled : formulaType.display.toList with
  | nil => exact absurd spelled nonempty
  | cons first keyword =>
      rw [spelled] at all
      simp only [List.all_cons, List.all_eq_true, Bool.and_eq_true, Bool.not_eq_true'] at all
      refine ⟨first, keyword, rfl, all.1.1.1, all.1.1.2, ?_⟩
      simp only [List.all_cons, List.all_eq_true, Bool.and_eq_true]
      exact ⟨all.1.2, fun c member => (all.2 c member).2⟩

omit [Alphanumeric] in
theorem parse_display (formulaType : FormulaType) : FormulaType.parse formulaType.display = some formulaType := by
  have upper : toUppercase formulaType.display = toAsciiUppercase formulaType.display := by
    apply toUppercase_ascii
    intro c member
    have small : formulaType.display.toList.all (·.toNat < 128) = true := by cases formulaType <;> decide
    exact of_decide_eq_true (List.all_eq_true.mp small c member)
  rw [FormulaType.parse, upper]
  cases formulaType <;> decide

omit [Alphanumeric] [CaseMapping] in
theorem takes_display (formulaType : FormulaType) (rest : List Char) :
    Takes readKeyword formulaType.display.toList ('(' :: rest) formulaType.display := by
  obtain ⟨first, keyword, spelled, solid, -, all⟩ := display_spelled formulaType
  have taken := @takes_keyword first keyword solid (List.all_eq_true.mp all) '(' (by decide) rest
  rw [← spelled, String.ofList_toList] at taken
  exact taken

omit [Alphanumeric] [CaseMapping] in
theorem trim_print (f : CalcFormula) : trim f.print = f.print := by
  obtain ⟨first, keyword, spelled, -, solid, -⟩ := display_spelled f.formulaType
  have whole : f.print.toList = first :: (keyword ++
      '(' :: (printName f.tableName ++ printField f.fieldName ++ printWhere f.whereClause)) ++ [')'] := by
    rw [CalcFormula.print, String.toList_ofList, spelled]
    simp
  rw [trim, whole, List.cons_append, List.dropWhile_cons_of_neg (by simp [solid]), ← List.cons_append,
    List.rdropWhile_concat_neg _ _ _ (by decide), ← whole, String.ofList_toList]

omit [CaseMapping] in
theorem takes_field {formulaType : FormulaType} {fieldName : Option String}
    (takes : fieldName.isSome = formulaType.takesField) (free : ∀ name, fieldName = some name → '"' ∉ name.toList)
    (rest : List Char) : Takes (parseFieldName formulaType) (printField fieldName) rest fieldName := by
  intro pos
  cases fieldName with
  | none =>
      refine ⟨pos, ?_⟩
      rw [parseFieldName, ← takes]
      rfl
  | some name =>
      obtain ⟨pos', read⟩ := @takes_name isNameChar name (free name rfl) rest (pos + ('.' : Char).utf8Size)
      refine ⟨pos', ?_⟩
      rw [parseFieldName, ← takes]
      refine bind_ok.mpr ⟨⟨printName name ++ rest, _⟩, expectChar_solid (by decide) _ pos, ?_⟩
      rw [skipWhitespace_name]
      exact bind_ok.mpr ⟨_, read, rfl⟩

omit [Alphanumeric] [CaseMapping] in
theorem skipBlanks_again (text : List Char) (pos : Nat) :
    (Parser.skipBlanks text pos).skipWhitespace = Parser.skipBlanks text pos := by
  induction text generalizing pos with
  | nil => rfl
  | cons c rest ih =>
      rw [Parser.skipBlanks]
      split
      · exact ih _
      next solid => exact skipWhitespace_solid (by simpa using solid) rest pos

omit [CaseMapping] in
/-- The field, and what is left behind the blanks after it. -/
theorem parseFieldName_print {formulaType : FormulaType} {fieldName : Option String}
    (takes : fieldName.isSome = formulaType.takesField) (free : ∀ name, fieldName = some name → '"' ∉ name.toList)
    (rest : List Char) (pos : Nat) :
    ∃ p pos', parseFieldName formulaType (Parser.skipWhitespace ⟨printField fieldName ++ rest, pos⟩) =
      .ok (fieldName, p) ∧ p.skipWhitespace = Parser.skipWhitespace ⟨rest, pos'⟩ := by
  cases fieldName with
  | none =>
      refine ⟨Parser.skipWhitespace ⟨rest, pos⟩, pos, ?_, skipBlanks_again rest pos⟩
      rw [parseFieldName, ← takes]
      rfl
  | some name =>
      obtain ⟨pos', read⟩ := takes_field takes free rest pos
      refine ⟨⟨rest, pos'⟩, pos', ?_, rfl⟩
      rw [printField, List.cons_append, skipWhitespace_solid (by decide)]
      exact read

omit [Alphanumeric] [CaseMapping] in
theorem skipWhitespace_space (rest : List Char) (pos : Nat) :
    Parser.skipWhitespace ⟨' ' :: rest, pos⟩ = Parser.skipWhitespace ⟨rest, pos + (' ' : Char).utf8Size⟩ := by
  rw [Parser.skipWhitespace, Parser.skipBlanks, if_pos (by decide)]
  rfl

omit [Alphanumeric] in
theorem startsWhere_where (rest : List Char) (pos : Nat) :
    startsWhere ⟨['W', 'H', 'E', 'R', 'E'] ++ rest, pos⟩ = true := by
  rw [startsWhere, List.cons_append, List.dropWhile_cons_of_neg (by decide)]
  simp [CaseMapping.upper_ascii]

omit [Alphanumeric] in
theorem startsWhere_close (pos : Nat) : startsWhere ⟨[')'], pos⟩ = false := by
  have upper : CaseMapping.upperChar ')' = [')'] := CaseMapping.upper_ascii _ (by decide)
  rw [startsWhere, List.dropWhile_cons_of_neg (by decide), List.flatMap_cons, upper]
  rfl

/-- An optional WHERE clause in front of the closing parenthesis. -/
theorem takes_where {conditions : List WhereCondition}
    (printable : ∀ c ∈ conditions, '"' ∉ c.field.toList ∧ c.value.Printable) (pos : Nat) :
    ∃ pos', parseOptionalWhere (Parser.skipWhitespace ⟨printWhere conditions ++ [')'], pos⟩) =
      .ok (conditions, ⟨[')'], pos'⟩) := by
  cases conditions with
  | nil =>
      refine ⟨pos, ?_⟩
      rw [printWhere, List.nil_append, skipWhitespace_solid (by decide), parseOptionalWhere, startsWhere_close]
      rfl
  | cons condition others =>
      have text : printWhere (condition :: others) ++ [')'] =
          ' ' :: (['W', 'H', 'E', 'R', 'E'] ++ ' ' :: '(' :: (printConditions (condition :: others) ++ ')' :: [')'])) := by
        have spelled : " WHERE (".toList = [' ', 'W', 'H', 'E', 'R', 'E', ' ', '('] := by decide
        simp [printWhere, spelled]
      have solid : ∀ rest pos, Parser.skipWhitespace ⟨['W', 'H', 'E', 'R', 'E'] ++ rest, pos⟩ =
          ⟨['W', 'H', 'E', 'R', 'E'] ++ rest, pos⟩ := fun _ _ => skipWhitespace_solid (by decide) _ _
      rw [text, skipWhitespace_space, solid, parseOptionalWhere, startsWhere_where, if_pos rfl, solid]
      obtain ⟨pos₁, keyed⟩ := @takes_keyword 'W' ['H', 'E', 'R', 'E'] (by decide)
        (List.all_eq_true.mp (by decide)) ' ' (by decide)
        ('(' :: (printConditions (condition :: others) ++ ')' :: [')'])) (pos + (' ' : Char).utf8Size)
      obtain ⟨pos₂, parsed⟩ := parseConditions_print printable [] [')']
        (pos₁ + (' ' : Char).utf8Size + ('(' : Char).utf8Size)
      refine ⟨pos₂, bind_ok.mpr ⟨_, keyed, ?_⟩⟩
      have named : eqIgnoreAsciiCase (String.ofList ['W', 'H', 'E', 'R', 'E']) "where" = true := by decide
      dsimp only
      rw [named, if_neg (by decide)]
      have opened := expectChar_solid (c := '(') (by decide) (printConditions (condition :: others) ++ ')' :: [')'])
        (pos₁ + (' ' : Char).utf8Size)
      rw [expectChar, skipWhitespace_solid (by decide)] at opened
      refine bind_ok.mpr ⟨_, ?_, parsed⟩
      rw [expectChar, skipWhitespace_space, skipWhitespace_solid (by decide)]
      exact opened

/-- A printed formula is read back. -/
theorem parse_print {f : CalcFormula} (printable : f.Printable) : parse f.print = .ok f := by
  obtain ⟨table, named, takesField, field, conditions⟩ := printable
  obtain ⟨formulaType, tableName, fieldName, whereClause⟩ := f
  obtain ⟨pos₁, keyed⟩ := takes_display formulaType
    (printName tableName ++ (printField fieldName ++ (printWhere whereClause ++ [')']))) 0
  have text : (CalcFormula.print ⟨formulaType, tableName, fieldName, whereClause⟩).toList =
      formulaType.display.toList ++ '(' ::
        (printName tableName ++ (printField fieldName ++ (printWhere whereClause ++ [')']))) := by
    simp [CalcFormula.print]
  have filled : (CalcFormula.print ⟨formulaType, tableName, fieldName, whereClause⟩).isEmpty = false := by
    rw [← Bool.not_eq_true, String.isEmpty_iff, ← String.toList_eq_nil_iff, text]
    simp
  obtain ⟨pos₂, tabled⟩ := @takes_name isNameChar tableName table
    (printField fieldName ++ (printWhere whereClause ++ [')'])) (pos₁ + ('(' : Char).utf8Size)
  rw [parse, trim_print, filled, text]
  refine bind_ok.mpr ⟨_, keyed, ?_⟩
  dsimp only
  rw [parse_display]
  refine bind_ok.mpr ⟨_, expectChar_solid (by decide) _ pos₁, ?_⟩
  rw [skipWhitespace_name]
  refine bind_ok.mpr ⟨_, tabled, ?_⟩
  dsimp only at named ⊢
  rw [named, if_neg (by decide)]
  obtain ⟨p, pos₃, fielded, same⟩ := parseFieldName_print takesField field (printWhere whereClause ++ [')']) pos₂
  obtain ⟨pos₄, filtered⟩ := takes_where conditions pos₃
  refine bind_ok.mpr ⟨_, fielded, ?_⟩
  dsimp only
  rw [same]
  refine bind_ok.mpr ⟨_, filtered, ?_⟩
  dsimp only
  rw [skipWhitespace_solid (by decide)]
  rfl

/-- Only formulas are accepted, the unfinished ones apart, and printed formulas are read back. -/
theorem formulas_read (formula : String) (f : CalcFormula) :
    (parse formula = .ok f → Whole (trim formula).toList f ∨ Unfinished (trim formula).toList f) ∧
      (f.Printable → parse f.print = .ok f) := by
  constructor
  · intro done
    obtain ⟨trailing, ending, reading, ends | loose⟩ := parse_reads done
    · cases trailing with
      | false => exact .inl ⟨ending, reading, ends⟩
      | true => exact .inr ⟨true, ending, reading, .inl rfl⟩
    · exact .inr ⟨trailing, ending, reading, .inr loose⟩
  · exact parse_print

end Formulas

section Examples

attribute [local instance] CaseMapping.latin1 Insight.Alphanumeric.ascii

/-- `Sum("Sales Line"."Amount" WHERE ("Type"=FILTER(1|(2))))`. -/
def salesAmount : CalcFormula :=
  ⟨.sum, "Sales Line", some "Amount", [⟨"Type", .equal, .filter "1|(2)"⟩]⟩

theorem salesAmount_printable : salesAmount.Printable := by
  refine ⟨by decide, by decide, rfl, ?_, ?_⟩
  · rintro name ⟨⟩
    decide
  · intro condition member
    obtain rfl := List.mem_singleton.mp member
    refine ⟨by decide, ?_, by decide, by decide⟩
    have text : "1|(2)".toList = ['1', '|', '(', '2', ')'] := by decide
    rw [text]
    exact .inner (by decide) (by decide) (by decide) (.inner (by decide) (by decide) (by decide)
      (.opens (.inner (by decide) (by decide) (by decide) (.closes .nil))))

theorem formulas_read_salesAmount : parse salesAmount.print = .ok salesAmount :=
  (formulas_read "" salesAmount).2 salesAmount_printable

/-- A blank constant is refused. -/
theorem blank_const_refused :
    let f : CalcFormula := ⟨.count, "Item", none, [⟨"Type", .equal, .const ""⟩]⟩
    f.print = "Count(\"Item\" WHERE (\"Type\"=CONST(\"\")))" ∧ parse f.print = .error (.emptyConstArgument "Type") := by
  decide +kernel

end Examples

end AlLanguage.Runtime.Calc
