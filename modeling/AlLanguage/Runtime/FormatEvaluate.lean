import AlLanguage.Runtime.Pictures

/-!
# Evaluate reads what Format writes

The grouping of the digits is dropped again, and the spellings of the booleans are read. A text is kept as it is.
-/

namespace AlLanguage.Runtime

/-! ## Grouped digits -/

theorem mem_groupThousands {digits : List Char} {c : Char} (member : c ∈ groupThousands digits) : c = ',' ∨ c ∈ digits := by
  unfold groupThousands at member
  obtain ⟨⟨digit, index⟩, inside, shown⟩ := List.mem_flatMap.mp member
  have here : digit ∈ digits := (List.mem_zipIdx' inside).2 ▸ List.getElem_mem _
  dsimp only at shown
  split at shown
  · rcases List.mem_cons.mp shown with comma | same
    · exact .inl comma
    · exact .inr (List.mem_singleton.mp same ▸ here)
  · exact .inr (List.mem_singleton.mp shown ▸ here)

theorem filter_zipIdx (split : Nat → Bool) (digits : List Char) (start : Nat) :
    ((digits.zipIdx start).flatMap fun (digit, index) => if split index then [',', digit] else [digit]).filter (· ≠ ',') =
      digits.filter (· ≠ ',') := by
  induction digits generalizing start with
  | nil => rfl
  | cons digit digits ih =>
      rw [List.zipIdx_cons, List.flatMap_cons, List.filter_append, ih, ← List.singleton_append, List.filter_append]
      congr 1
      dsimp only
      split <;> simp [List.filter_cons]

/-- Without its commas a grouped number is the number. -/
theorem filter_groupThousands {digits : List Char} (plain : ∀ c ∈ digits, c.isDigit = true) :
    (groupThousands digits).filter (· ≠ ',') = digits := by
  have split := filter_zipIdx (fun index => decide (0 < index ∧ ((digits.map Char.utf8Size).sum - index) % 3 = 0)) digits 0
  have kept : digits.filter (· ≠ ',') = digits := by
    rw [List.filter_eq_self]
    intro c member
    simp only [ne_eq, decide_eq_true_eq]
    rintro rfl
    exact absurd (plain ',' member) (by decide)
  rw [kept] at split
  simpa [groupThousands] using split

/-! ## Numbers -/

/-- The characters of a number. -/
def isNumeral (c : Char) : Bool := c.isDigit || c = '-' || c = '.' || c = ','

theorem isNumeral_iff {c : Char} : isNumeral c = true ↔ c ∈ ['0', '1', '2', '3', '4', '5', '6', '7', '8', '9', '-', '.', ','] := by
  constructor
  · intro numeral
    simp only [isNumeral, Bool.or_eq_true, decide_eq_true_eq] at numeral
    rcases numeral with ((digit | rfl) | rfl) | rfl
    · exact List.mem_append_left ['-', '.', ','] (isDigit_mem digit)
    all_goals decide
  · have each : ['0', '1', '2', '3', '4', '5', '6', '7', '8', '9', '-', '.', ','].all isNumeral = true := by decide
    exact List.all_eq_true.mp each c

theorem numeral_solid {c : Char} (numeral : isNumeral c = true) : isWhitespace c = false ∧ (c = 'l' || c = 'L') = false := by
  have each : ['0', '1', '2', '3', '4', '5', '6', '7', '8', '9', '-', '.', ','].all
      (fun c => decide (isWhitespace c = false ∧ (c = 'l' || c = 'L') = false)) = true := by decide
  exact of_decide_eq_true (List.all_eq_true.mp each c (isNumeral_iff.mp numeral))

theorem trimSuffixL_numeral {s : String} (numeral : ∀ c ∈ s.toList, isNumeral c = true) : trimSuffixL s = s := by
  have kept : s.toList.rdropWhile (fun c => c = 'l' || c = 'L') = s.toList := by
    rw [List.rdropWhile_eq_self_iff]
    intro nonempty
    rw [(numeral_solid (numeral _ (List.getLast_mem nonempty))).2]
    decide
  rw [trimSuffixL, kept, String.ofList_toList]

/-- A number with its whole digits grouped. -/
def groupedNumber (sign whole fraction : List Char) : List Char :=
  sign ++ groupThousands whole ++ (if fraction = [] then [] else '.' :: fraction)

namespace NumberText

variable {text sign whole fraction : List Char} (number : NumberText text sign whole fraction)

include number

theorem numeral : ∀ c ∈ text, isNumeral c = true := by
  intro c member
  rw [number.shape, List.mem_append, List.mem_append] at member
  rcases member with (inSign | inWhole) | inFraction
  · rcases number.sign with rfl | rfl
    · cases inSign
    · rw [List.mem_singleton.mp inSign]
      decide
  · simp [isNumeral, number.wholeDigits c inWhole]
  · split at inFraction
    · cases inFraction
    · rcases List.mem_cons.mp inFraction with rfl | digit
      · decide
      · simp [isNumeral, number.fractionDigits c digit]

theorem noComma : ',' ∉ sign ∧ ',' ∉ whole ∧ ',' ∉ fraction := by
  refine ⟨?_, fun member => ?_, fun member => ?_⟩
  · rcases number.sign with rfl | rfl <;> decide
  · exact absurd (number.wholeDigits _ member) (by decide)
  · exact absurd (number.fractionDigits _ member) (by decide)

theorem dropCommas_grouped : dropCommas (String.ofList (groupedNumber sign whole fraction)) = String.ofList text := by
  obtain ⟨noSign, _, noFraction⟩ := number.noComma
  have keep {cs : List Char} (none : ',' ∉ cs) : cs.filter (· ≠ ',') = cs := by
    rw [List.filter_eq_self]
    intro c member
    simpa using fun comma : c = ',' => none (comma ▸ member)
  rw [dropCommas, String.toList_ofList, groupedNumber, List.filter_append, List.filter_append, keep noSign,
    filter_groupThousands number.wholeDigits, number.shape]
  congr 2
  split
  · rfl
  · exact keep (by simpa using noFraction)

theorem numeral_grouped : ∀ c ∈ groupedNumber sign whole fraction, isNumeral c = true := by
  intro c member
  rw [groupedNumber, List.mem_append, List.mem_append] at member
  have inText {c : Char} (within : c ∈ sign ∨ c ∈ whole ∨ c ∈ (if fraction = [] then [] else '.' :: fraction)) :
      isNumeral c = true := by
    apply number.numeral
    rw [number.shape, List.append_assoc, List.mem_append, List.mem_append]
    exact within
  rcases member with (inSign | inWhole) | inFraction
  · exact inText (.inl inSign)
  · rcases mem_groupThousands inWhole with rfl | digit
    · decide
    · exact inText (.inr (.inl digit))
  · exact inText (.inr (.inr inFraction))

/-- `Evaluate` reads a grouped number as the number. -/
theorem read_grouped : dropCommas (trim (String.ofList (groupedNumber sign whole fraction))) = String.ofList text := by
  rw [Filter.trim_solid, number.dropCommas_grouped]
  intro c member
  rw [String.toList_ofList] at member
  exact (numeral_solid (number.numeral_grouped c member)).1

theorem dropCommas_plain : dropCommas (String.ofList text) = String.ofList text := by
  rw [dropCommas, String.toList_ofList, List.filter_eq_self.mpr]
  intro c member
  obtain ⟨noSign, noWhole, noFraction⟩ := number.noComma
  rw [number.shape] at member
  simp only [ne_eq, decide_eq_true_eq]
  rintro rfl
  split at member <;> simp_all

theorem read_plain : dropCommas (trim (String.ofList text)) = String.ofList text := by
  rw [Filter.trim_solid, number.dropCommas_plain]
  intro c member
  rw [String.toList_ofList] at member
  exact (numeral_solid (number.numeral c member)).1

theorem splitOnce_point : splitOnce '.' (whole ++ (if fraction = [] then [] else '.' :: fraction)) =
    if fraction = [] then none else some (whole, fraction) := by
  have noPoint : ∀ c ∈ whole, (decide (c ≠ '.')) = true := fun c member => by simp [digit_ne_dot (number.wholeDigits c member)]
  rw [splitOnce, List.span_eq_takeWhile_dropWhile, List.takeWhile_append_of_pos noPoint, List.dropWhile_append_of_pos noPoint]
  cases fraction with
  | nil => simp
  | cons c rest => simp

theorem splitMinus_text : splitMinus text = (String.ofList sign, whole ++ (if fraction = [] then [] else '.' :: fraction)) := by
  obtain ⟨c, rest, first⟩ := List.exists_cons_of_ne_nil number.nonempty
  have digit := number.wholeDigits c (first ▸ List.mem_cons_self ..)
  rw [number.shape, List.append_assoc]
  rcases number.sign with rfl | rfl
  · unfold splitMinus
    split
    next starts =>
      rw [List.nil_append, first] at starts
      cases starts
      exact absurd digit (by decide)
    next => rfl
  · rfl

end NumberText

/-! ## What Format writes -/

theorem toList_toString (i : Int) : (toString i).toList = (if i < 0 then ['-'] else []) ++ Nat.toDigits 10 i.natAbs := by
  cases i with
  | ofNat m => exact (Nat.toList_repr : (toString (Int.ofNat m)).toList = Nat.toDigits 10 m)
  | negSucc m => simp [toString, Int.repr, Nat.toList_repr]

theorem numberText_signed (n : Int64) :
    NumberText (renderI64 n).toList (if n < 0 then ['-'] else []) (Nat.toDigits 10 n.toInt.natAbs) [] where
  shape := by
    have negative : n < 0 ↔ n.toInt < 0 := Int64.lt_iff_toInt_lt
    rw [renderI64, toList_toString, if_pos rfl, List.append_nil]
    simp only [negative]
  sign := by split <;> simp
  nonempty := Nat.toDigits_ne_nil
  wholeDigits _ member := Nat.isDigit_of_mem_toDigits (by decide) (by decide) member
  fractionDigits := by simp

theorem renderValue_number (n : Int64) :
    renderValue (.integer n) = String.ofList (groupedNumber (if n < 0 then ['-'] else []) (Nat.toDigits 10 n.toInt.natAbs) []) := by
  rw [renderValue, groupedNumber, if_pos rfl, List.append_nil, String.ofList_append]
  congr 1
  split <;> rfl

theorem renderValue_decimal (d : Decimal) : ∃ sign whole fraction, NumberText d.normalize.render.toList sign whole fraction ∧
    renderValue (.decimal d) = String.ofList (groupedNumber sign whole fraction) := by
  have number := d.normalize.numberText_render
  refine ⟨_, _, _, number, ?_⟩
  generalize d.normalize.padded.take _ = whole at number ⊢
  generalize d.normalize.padded.drop _ = fraction at number ⊢
  generalize (if d.normalize.mantissa < 0 then ['-'] else []) = sign at number ⊢
  have point := number.splitOnce_point
  rw [renderValue, number.splitMinus_text]
  dsimp only
  rw [point, groupedNumber]
  by_cases none : fraction = []
  · rw [if_pos none, if_pos none, List.append_nil, List.append_nil, String.ofList_append]
  · rw [if_neg none, if_neg none, String.ofList_append, String.ofList_append]
    have point : String.ofList ('.' :: fraction) = "." ++ String.ofList fraction := @String.ofList_append ['.'] fraction
    rw [point, ← String.append_assoc]

/-! ## The round trip -/

/-- Integers, decimals, booleans and texts. -/
def Value.isEvaluable : Value → Bool
  | integer _ | bigInteger _ | decimal _ | boolean _ | text _ => true
  | _ => false

section RoundTrip

variable [CaseMapping] [DecimalSyntax] [LawfulDecimalSyntax]

omit [CaseMapping] [DecimalSyntax] [LawfulDecimalSyntax] in
theorem builtinFormat_standard (v : Value) : builtinFormat [v] = .ok (.text (renderValue v)) := rfl

omit [CaseMapping] [DecimalSyntax] [LawfulDecimalSyntax] in
theorem builtinFormat_xml (v : Value) : builtinFormat [v, .integer 0, .integer 9] = .ok (.text (renderValueXml v)) := rfl

/-- A value of the type of `v` that equals it. -/
def Reads (target v : Value) (text : String) : Prop :=
  ∃ v', evaluateText target text = .ok (some v') ∧ v'.typeName = v.typeName ∧ (v' == v) = true

omit [LawfulDecimalSyntax] in
theorem reads_integer {m n : Int64} {text : String} (read : dropCommas (trim text) = renderI64 n) :
    Reads (.integer m) (.integer n) text :=
  ⟨.integer n, by rw [evaluateText, read, parseI64_renderI64]; rfl, rfl, Value.beq_refl _⟩

omit [LawfulDecimalSyntax] in
theorem reads_bigInteger {m n : Int64} {text : String} (read : dropCommas (trim text) = renderI64 n) :
    Reads (.bigInteger m) (.bigInteger n) text := by
  obtain ⟨sign, number⟩ := numberText_i64 n
  refine ⟨.bigInteger n, ?_, rfl, Value.beq_refl _⟩
  rw [evaluateText, read, trimSuffixL_numeral number.numeral, parseI64_renderI64]
  rfl

theorem reads_decimal {c d : Decimal} {text : String} (read : dropCommas (trim text) = d.normalize.render) :
    Reads (.decimal c) (.decimal d) text := by
  obtain ⟨d', parsed, units⟩ := LawfulDecimalSyntax.parse_render d
  refine ⟨.decimal d', ?_, rfl, ?_⟩
  · rw [evaluateText, read, parsed]
    rfl
  · rw [Value.beq_iff]
    exact (Decimal.compare_eq_iff d' d).mpr units

theorem reads_format (v target : Value) (evaluable : v.isEvaluable = true) (kind : target.typeName = v.typeName) :
    Reads target v (renderValue v) ∧ Reads target v (renderValueXml v) := by
  cases v <;> simp only [Value.isEvaluable, Bool.false_eq_true] at evaluable
  case integer n =>
    cases target <;> simp only [Value.typeName, String.reduceEq] at kind
    rw [renderValue_number]
    have number := numberText_signed n
    refine ⟨reads_integer (number.read_grouped.trans String.ofList_toList), reads_integer ?_⟩
    have plain := number.read_plain
    rwa [String.ofList_toList] at plain
  case bigInteger n =>
    cases target <;> simp only [Value.typeName, String.reduceEq] at kind
    rw [show renderValue (.bigInteger n) = renderValue (.integer n) from rfl, renderValue_number]
    have number := numberText_signed n
    refine ⟨reads_bigInteger (number.read_grouped.trans String.ofList_toList), reads_bigInteger ?_⟩
    have plain := number.read_plain
    rwa [String.ofList_toList] at plain
  case decimal d =>
    cases target <;> simp only [Value.typeName, String.reduceEq] at kind
    obtain ⟨sign, whole, fraction, number, text⟩ := renderValue_decimal d
    rw [text]
    refine ⟨reads_decimal (number.read_grouped.trans String.ofList_toList), reads_decimal ?_⟩
    have plain := number.read_plain
    rwa [String.ofList_toList] at plain
  case boolean b =>
    cases target <;> simp only [Value.typeName, String.reduceEq] at kind
    cases b <;> exact ⟨⟨_, rfl, rfl, rfl⟩, ⟨_, rfl, rfl, rfl⟩⟩
  case text s =>
    cases target <;> simp only [Value.typeName, String.reduceEq] at kind
    exact ⟨⟨_, rfl, rfl, Value.beq_refl _⟩, ⟨_, rfl, rfl, Value.beq_refl _⟩⟩

/-- What `Format` writes in its standard format or in the XML format, `Evaluate` reads into a variable of the value's type as a value
that equals it. -/
theorem evaluate_format (v target : Value) (evaluable : v.isEvaluable = true) (kind : target.typeName = v.typeName) (statement : Bool) :
    ∀ options ∈ [[], [.integer 0, .integer 9]], ∃ text v', builtinFormat (v :: options) = .ok (.text text) ∧
      evaluateInto statement .variable target text = .ok (some v') ∧ v'.typeName = v.typeName ∧ (v' == v) = true := by
  have into {text : String} (reads : Reads target v text) :
      ∃ v', evaluateInto statement .variable target text = .ok (some v') ∧ v'.typeName = v.typeName ∧ (v' == v) = true := by
    obtain ⟨v', read, same, equal⟩ := reads
    refine ⟨v', ?_, same, equal⟩
    rw [evaluateInto, builtinEvaluate, read]
    rfl
  obtain ⟨standard, xml⟩ := reads_format v target evaluable kind
  intro options member
  rcases List.mem_cons.mp member with rfl | later
  · exact ⟨_, (into standard).imp fun v' facts => ⟨builtinFormat_standard v, facts⟩⟩
  · rw [List.mem_singleton.mp later]
    exact ⟨_, (into xml).imp fun v' facts => ⟨builtinFormat_xml v, facts⟩⟩

end RoundTrip

section Example

attribute [local instance] CaseMapping.latin1 DecimalSyntax.plain lawfulDecimalSyntax_plain

theorem evaluate_format_smallest :
    (∃ text v', builtinFormat [.bigInteger (-9223372036854775808)] = .ok (.text text) ∧
      evaluateInto true .variable (.bigInteger 0) text = .ok (some v') ∧ v'.typeName = "BigInteger" ∧
      (v' == .bigInteger (-9223372036854775808)) = true) ∧
    ∃ text v', builtinFormat [.bigInteger (-9223372036854775808), .integer 0, .integer 9] = .ok (.text text) ∧
      evaluateInto true .variable (.bigInteger 0) text = .ok (some v') ∧ v'.typeName = "BigInteger" ∧
      (v' == .bigInteger (-9223372036854775808)) = true :=
  ⟨evaluate_format (.bigInteger (-9223372036854775808)) (.bigInteger 0) rfl rfl true [] List.mem_cons_self,
    evaluate_format (.bigInteger (-9223372036854775808)) (.bigInteger 0) rfl rfl true [.integer 0, .integer 9]
      (List.mem_cons_of_mem _ List.mem_cons_self)⟩

end Example

end AlLanguage.Runtime
