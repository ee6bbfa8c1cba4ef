import AlLanguage.Insight.Scanners
import AlLanguage.Runtime.FormulaTexts

/-!
# Two readers of one formula

The scanner reads a printed formula as the parser does, if what it counts in quotes does not mislead it.
-/

namespace AlLanguage.Insight

open Library.Substrings
open AlLanguage.Runtime
open AlLanguage.Runtime.Calc (FormulaType WhereValue WhereCondition printName printConditions printField printWhere)

/-! ## Splitting -/

/-- The state of the splitter behind a text, unless it holds a comma on top level. -/
def pieceEnd : Text → (depth : Int) → (quoted : Bool) → Option (Int × Bool)
  | [], depth, quoted => some (depth, quoted)
  | c :: rest, depth, quoted =>
    if c = '"' then pieceEnd rest depth (!quoted)
    else if c = '(' ∧ !quoted then pieceEnd rest (depth + 1) quoted
    else if c = ')' ∧ !quoted then pieceEnd rest (depth - 1) quoted
    else if c = ',' ∧ !quoted ∧ depth = 0 then none
    else pieceEnd rest depth quoted

theorem pieceEnd_append (text rest : Text) (depth : Int) (quoted : Bool) :
    pieceEnd (text ++ rest) depth quoted =
      (pieceEnd text depth quoted).bind fun behind => pieceEnd rest behind.1 behind.2 := by
  induction text generalizing depth quoted with
  | nil => rfl
  | cons c text ih =>
      rw [List.cons_append, pieceEnd, pieceEnd]
      split_ifs
      · exact ih ..
      · exact ih ..
      · exact ih ..
      · rfl
      · exact ih ..

theorem splitTopLevelCommas_piece {text : Text} {depth depth' : Int} {quoted quoted' : Bool}
    (piece : pieceEnd text depth quoted = some (depth', quoted')) (rest part : Text) :
    splitTopLevelCommas (text ++ rest) depth quoted part = splitTopLevelCommas rest depth' quoted' (text.reverse ++ part) := by
  induction text generalizing depth quoted part with
  | nil =>
      cases piece
      rfl
  | cons c text ih =>
      rw [pieceEnd] at piece
      rw [List.cons_append, splitTopLevelCommas, List.reverse_cons, List.append_assoc, List.singleton_append]
      split_ifs at piece ⊢
      · exact ih piece _
      · exact ih piece _
      · exact ih piece _
      · exact ih piece _

theorem pieceEnd_quoted {name : Text} (free : '"' ∉ name) (depth : Int) : pieceEnd name depth true = some (depth, true) := by
  induction name with
  | nil => rfl
  | cons c name ih =>
      obtain ⟨other, later⟩ := not_or.mp (List.mem_cons.not.mp free)
      rw [pieceEnd, if_neg (Ne.symm other), if_neg (by simp), if_neg (by simp), if_neg (by simp), ih later]

theorem pieceEnd_name {name : String} (free : '"' ∉ name.toList) (depth : Int) :
    pieceEnd (printName name) depth false = some (depth, false) := by
  rw [printName, List.cons_append, pieceEnd, if_pos rfl, pieceEnd_append, Bool.not_false, pieceEnd_quoted free]
  rfl

/-- Only the commas between conditions are on top level. -/
def Unsplit : List WhereCondition → Prop
  | [] => True
  | [condition] => pieceEnd condition.value.print 0 false ≠ none
  | condition :: rest => pieceEnd condition.value.print 0 false = some (0, false) ∧ Unsplit rest

theorem pieceEnd_condition {condition : WhereCondition} (free : '"' ∉ condition.field.toList) :
    pieceEnd condition.print 0 false = pieceEnd condition.value.print 0 false := by
  rw [WhereCondition.print, pieceEnd_append, pieceEnd_name free]
  rfl

theorem splitTopLevelCommas_conditions {condition : WhereCondition} {others : List WhereCondition}
    (free : ∀ c ∈ condition :: others, '"' ∉ c.field.toList) (unsplit : Unsplit (condition :: others)) :
    splitTopLevelCommas (printConditions (condition :: others)) 0 false [] = (condition :: others).map (·.print) := by
  induction others generalizing condition with
  | nil =>
      have here := pieceEnd_condition (free condition List.mem_cons_self)
      obtain ⟨⟨depth, quoted⟩, piece⟩ := Option.ne_none_iff_exists'.mp unsplit
      have split := splitTopLevelCommas_piece (here.trans piece) [] []
      rw [List.append_nil, List.append_nil] at split
      rw [printConditions, split, splitTopLevelCommas, List.reverse_reverse]
      rfl
  | cons next others ih =>
      have here := pieceEnd_condition (free condition List.mem_cons_self)
      have split := splitTopLevelCommas_piece (here.trans unsplit.1) (',' :: printConditions (next :: others)) []
      rw [printConditions, split, splitTopLevelCommas, if_neg (by decide), if_neg (by decide), if_neg (by decide),
        if_pos (by decide), ih (fun c member => free c (List.mem_cons_of_mem _ member)) unsplit.2]
      · simp
      · intro same
        cases same

theorem conditionField_print {condition : WhereCondition} (free : '"' ∉ condition.field.toList)
    (plain : '=' ∉ condition.field.toList) (filled : condition.field ≠ "") :
    conditionField condition.print = some condition.field.toList := by
  have filled' : condition.field.toList ≠ [] := fun empty => filled (String.toList_eq_nil_iff.mp empty)
  have left : condition.print.takeWhile (· ≠ '=') = printName condition.field := by
    rw [WhereCondition.print, List.takeWhile_append_of_pos]
    · simp
    · intro c member
      rw [printName] at member
      simp only [List.cons_append, List.mem_cons, List.mem_append, List.not_mem_nil, or_false] at member
      rcases member with rfl | inside | rfl
      · decide
      · exact decide_eq_true fun same => plain (same ▸ inside)
      · decide
  have trimmed : trimText (printName condition.field) = printName condition.field := by
    rw [trimText, printName, List.cons_append, List.dropWhile_cons_of_neg (by decide), ← List.cons_append,
      List.rdropWhile_concat_neg _ _ _ (by decide)]
  have unquoted : trimMatches '"' (printName condition.field) = condition.field.toList := by
    rw [trimMatches, printName, List.cons_append, List.dropWhile_cons_of_pos (by decide)]
    obtain ⟨c, others, shape⟩ := List.exists_cons_of_ne_nil filled'
    have first : c ≠ '"' := by
      rintro rfl
      exact free (shape ▸ List.mem_cons_self)
    rw [shape, List.cons_append, List.dropWhile_cons_of_neg (by simpa using first), ← List.cons_append, ← shape,
      List.rdropWhile_concat_pos _ _ _ (by decide), List.rdropWhile_eq_self_iff.mpr]
    intro nonempty
    rw [decide_eq_true_iff]
    intro last
    exact free (last ▸ List.getLast_mem nonempty)
  rw [conditionField, left, trimmed, unquoted]
  exact if_neg filled'

/-! ## Agreement -/

section Agreement

variable [Alphanumeric] [LawfulAlphanumeric]

omit [LawfulAlphanumeric] in
theorem printField_lacks {fieldName : Option String}
    (noWhere : ∀ name, fieldName = some name → Lacks name.toList "where") : Lacks (printField fieldName) "where" := by
  have empty : Lacks [] "where" := lacks_nil (by decide)
  cases fieldName with
  | none => exact empty
  | some name =>
      have quoted := lacks_around empty (lacks_around (noWhere name rfl) empty (c := '"') (by decide)) (c := '"') (by decide)
      exact lacks_around empty quoted (c := '.') (by decide)

theorem filterFields_print {fieldName : Option String} {conditions : List WhereCondition}
    (noWhere : ∀ name, fieldName = some name → Lacks name.toList "where") (level : Level (printConditions conditions))
    (free : ∀ c ∈ conditions, '"' ∉ c.field.toList) (unsplit : Unsplit conditions)
    (plain : ∀ c ∈ conditions, '=' ∉ c.field.toList ∧ c.field ≠ "") :
    filterFields (printField fieldName ++ printWhere conditions) = conditions.map (·.field.toList) := by
  have lacks := printField_lacks noWhere
  have spaced : Lacks (printField fieldName ++ [' ']) "where" :=
    lacks_around lacks (lacks_nil (by decide)) (c := ' ') (by decide)
  cases conditions with
  | nil =>
      rw [filterFields, printWhere, List.append_nil, findKeyword_none lacks]
      rfl
  | cons condition others =>
      have text : printField fieldName ++ printWhere (condition :: others) = (printField fieldName ++ [' ']) ++
          ("WHERE".toList ++ (' ' :: '(' :: (printConditions (condition :: others) ++ ')' :: []))) := by
        have spelled : " WHERE (".toList = ' ' :: ("WHERE".toList ++ [' ', '(']) := by decide
        simp [printWhere, spelled]
      have found : findKeyword ((printField fieldName ++ [' ']) ++
          ("WHERE".toList ++ (' ' :: '(' :: (printConditions (condition :: others) ++ ')' :: [])))) "where" =
            some (printField fieldName ++ [' ']).length := by
        apply findKeyword_append (by decide) (by decide) (by decide) spaced
        · rw [List.getLast?_concat, Option.any_some]
          exact inWord_white (by decide)
        · exact inWord_white (by decide)
      rw [text, filterFields, found]
      dsimp only
      have split : (printField fieldName ++ [' ']) ++
          ("WHERE".toList ++ (' ' :: '(' :: (printConditions (condition :: others) ++ ')' :: []))) =
          ((printField fieldName ++ [' ']) ++ "WHERE".toList) ++
            (' ' :: '(' :: (printConditions (condition :: others) ++ ')' :: [])) := by simp
      rw [split, List.drop_left' (by simp), List.dropWhile_cons_of_pos (by decide), List.dropWhile_cons_of_neg (by decide),
        matchingParen_level level]
      dsimp only
      rw [List.drop_succ_cons, List.drop_zero, Nat.add_sub_cancel, List.take_left,
        splitTopLevelCommas_conditions free unsplit, List.filterMap_map]
      apply List.filterMap_eq_map_iff_forall_eq_some.mpr
      intro c member
      exact conditionField_print (free c member) (plain c member).1 (plain c member).2

/-- What the scanner counts is not in quotes, or it does not mislead it. -/
structure Clear (f : Calc.CalcFormula) : Prop where
  known : f.formulaType ≠ .linked
  names : Level (printName f.tableName ++ printField f.fieldName)
  noWhere : ∀ name, f.fieldName = some name → Lacks name.toList "where"
  level : Level (printConditions f.whereClause)
  unsplit : Unsplit f.whereClause
  fields : ∀ c ∈ f.whereClause, '=' ∉ c.field.toList ∧ c.field ≠ ""

/-- The scanner's name of a type. -/
def methodName (formulaType : FormulaType) : String := String.ofList (formulaType.display.toList.map Char.toLower)

omit [Alphanumeric] [LawfulAlphanumeric] in
theorem display_scanned (formulaType : FormulaType) (known : formulaType ≠ .linked) :
    '(' ∉ formulaType.display.toList ∧ trimText formulaType.display.toList = formulaType.display.toList ∧
      methodName formulaType ∈ calcMethods := by
  cases formulaType <;> first | exact absurd rfl known | decide

omit [Alphanumeric] [LawfulAlphanumeric] in
theorem display_head (formulaType : FormulaType) :
    ∃ first rest, formulaType.display.toList = first :: rest ∧ first ≠ '-' ∧ isWhitespace first = false := by
  cases formulaType <;> exact ⟨_, _, rfl, by decide, by decide⟩

omit [Alphanumeric] [LawfulAlphanumeric] in
theorem printWhere_level {conditions : List WhereCondition} (level : Level (printConditions conditions)) :
    Level (printWhere conditions) := by
  cases conditions with
  | nil => rfl
  | cons condition others =>
      have text : printWhere (condition :: others) = " WHERE ".toList ++ ('(' :: printConditions (condition :: others) ++ [')']) := by
        have spelled : " WHERE (".toList = " WHERE ".toList ++ ['('] := by decide
        simp [printWhere, spelled]
      rw [text]
      exact (Level.plain (by decide) (by decide)).append level.group

variable [CaseMapping]

theorem readers_agree (f : Calc.CalcFormula) (printable : f.Printable) (clear : Clear f) :
    Calc.parse f.print = .ok f ∧
      parseCalcFormula f.print = some ⟨methodName f.formulaType, f.tableName, f.whereClause.map (·.field)⟩ := by
  refine ⟨Calc.parse_print printable, ?_⟩
  obtain ⟨noParen, trimmed, method⟩ := display_scanned f.formulaType clear.known
  obtain ⟨first, others, spelled, noMinus, solid⟩ := display_head f.formulaType
  have named : f.tableName.toList ≠ [] := by
    intro empty
    have filled := printable.named
    rw [String.toList_eq_nil_iff.mp empty] at filled
    cases filled
  have text : trimText f.print.toList = f.formulaType.display.toList ++
      '(' :: ((printName f.tableName ++ printField f.fieldName ++ printWhere f.whereClause) ++ ')' :: []) := by
    have whole := congrArg String.toList (Calc.trim_print f)
    rw [trim, String.toList_ofList] at whole
    rw [trimText, whole, Calc.CalcFormula.print, String.toList_ofList]
  have inner : Level (printName f.tableName ++ printField f.fieldName ++ printWhere f.whereClause) :=
    clear.names.append (printWhere_level clear.level)
  have fields := filterFields_print clear.noWhere clear.level (fun c member => (printable.conditions c member).1)
    clear.unsplit clear.fields
  rw [parseCalcFormula, text]
  dsimp only
  rw [spelled, List.cons_append, List.dropWhile_cons_of_neg (by simpa using noMinus),
    List.dropWhile_cons_of_neg (by simp [solid]), ← List.cons_append, ← spelled, find_mark noParen]
  dsimp only
  rw [List.take_left, trimmed, ← methodName, if_neg (not_not.mpr method), List.drop_left, matchingParen_level inner]
  dsimp only
  have split : f.formulaType.display.toList ++
      '(' :: ((printName f.tableName ++ printField f.fieldName ++ printWhere f.whereClause) ++ ')' :: []) =
      (f.formulaType.display.toList ++ ['(']) ++
        ((printName f.tableName ++ printField f.fieldName ++ printWhere f.whereClause) ++ ')' :: []) := by simp
  have quoted : printName f.tableName ++ printField f.fieldName ++ printWhere f.whereClause =
      '"' :: (f.tableName.toList ++ '"' :: (printField f.fieldName ++ printWhere f.whereClause)) := by
    simp [printName]
  rw [split, List.drop_left' (by simp), Nat.add_sub_cancel, List.take_left, quoted,
    takeTableName_quoted printable.table named, Option.map_some, fields]
  simp [String.ofList_toList]

end Agreement

section Examples

attribute [local instance] CaseMapping.latin1 Alphanumeric.ascii

theorem readers_agree_salesAmount :
    parseCalcFormula "Sum(\"Sales Line\".\"Amount\" WHERE (\"Type\"=FILTER(1|(2))))" =
      some ⟨"sum", "Sales Line", ["Type"]⟩ := by
  have clear : Clear Calc.salesAmount := by
    refine ⟨by decide, by decide, ?_, by decide, ?_, ?_⟩
    · rintro name ⟨⟩
      exact lacks_of_findKeyword (by decide) (by decide) (by decide +kernel)
    · change pieceEnd _ _ _ ≠ none
      decide
    · intro condition member
      obtain rfl := List.mem_singleton.mp member
      decide
  have text : Calc.CalcFormula.print Calc.salesAmount = "Sum(\"Sales Line\".\"Amount\" WHERE (\"Type\"=FILTER(1|(2))))" := by
    decide
  rw [← text]
  exact (readers_agree Calc.salesAmount Calc.salesAmount_printable clear).2

/-- `Count("Entry (LCY")`. -/
def entryCount : Calc.CalcFormula := ⟨.count, "Entry (LCY", none, []⟩

theorem readers_differ :
    entryCount.Printable ∧ Calc.parse entryCount.print = .ok entryCount ∧ parseCalcFormula entryCount.print = none := by
  refine ⟨⟨by decide, by decide, rfl, nofun, nofun⟩, ?_, ?_⟩
  · decide +kernel
  · decide +kernel

-- The formula is cut inside of the field name, where nothing of it is needed any more.
example : parseCalcFormula "Sum(\"Item\".\"Net)\")" = some ⟨"sum", "Item", []⟩ := by
  decide +kernel

end Examples

end AlLanguage.Insight
