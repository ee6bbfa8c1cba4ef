import AlLanguage.Runtime.Caseless
import AlLanguage.Runtime.NumberText

/-!
# Filters on numbers

An equality filter compares the text of a number, a range compares its value.
-/

namespace AlLanguage.Runtime

/-- A sign or none, digits, and a fraction or none. -/
def NumericLiteral (s : String) : Prop :=
  ∃ text sign whole fraction, NumberText text sign whole fraction ∧
    (s.toList = text ∨ sign = [] ∧ s.toList = '+' :: text)

namespace NumericLiteral

variable {s : String}

theorem plain (literal : NumericLiteral s) : ∀ c ∈ s.toList, Filter.isPlain c = true := by
  obtain ⟨text, sign, whole, fraction, number, same | ⟨-, plus⟩⟩ := literal
  · rw [same]
    exact number.plain
  · rw [plus, List.forall_mem_cons]
    exact ⟨by decide, number.plain⟩

theorem noDots (literal : NumericLiteral s) : Filter.NoDots (s.toList ++ ['.']) := by
  obtain ⟨text, sign, whole, fraction, number, same | ⟨-, plus⟩⟩ := literal
  · rw [same]
    exact number.noDots
  · rw [plus]
    exact List.isChain_cons.mpr ⟨fun _ _ => .inl (by decide), number.noDots⟩

theorem filterText (literal : NumericLiteral s) : Filter.FilterText s where
  nonempty := by
    obtain ⟨text, sign, whole, fraction, number, same | ⟨-, plus⟩⟩ := literal
    · rw [same]
      exact number.ne_nil
    · rw [plus]
      exact List.cons_ne_nil _ _
  plain := literal.plain
  noDots := (List.isChain_append.mp literal.noDots).1

end NumericLiteral

/-- An integer that the decimal package reads has its value. -/
class ReadsIntegers [DecimalSyntax] : Prop where
  parse_integer : ∀ s n, parseI64 s = some n → ∃ d, parseDecimal s = some d ∧ d.units = (Decimal.ofInt64 n).units

theorem readsIntegers_plain : @ReadsIntegers .plain := by
  have read (negative : Bool) {digits : List Char} {m : Nat} (value : digitsValue digits = some m) (small : m < 2 ^ 64) :
      ∃ d, parseUnsigned negative digits = some d ∧ d.units = (if negative then -(m : Int) else m) * 10 ^ 28 := by
    unfold digitsValue at value
    split at value
    next both =>
      obtain ⟨nonempty, all⟩ := both
      have number := @parseUnsigned_number negative digits [] (List.all_eq_true.mp all)
      rw [if_pos rfl, List.append_nil] at number
      rw [number, decimalOfDigits, if_pos ⟨nonempty, by simpa using all⟩]
      rw [Option.some.injEq] at value
      simp only [List.append_nil, value]
      have bounds : m < 2 ^ 96 ∧ ([] : List Char).length ≤ 28 := ⟨by omega, Nat.zero_le _⟩
      rw [dif_pos bounds]
      exact ⟨_, rfl, by cases negative <;> rfl⟩
    next => cases value
  refine @ReadsIntegers.mk .plain fun s n parsed => ?_
  have units : (Decimal.ofInt64 n).units = n.toInt * 10 ^ 28 := rfl
  have range := Int64.le_toInt n
  have range' := Int64.toInt_lt n
  unfold parseI64 at parsed
  split at parsed
  all_goals
    obtain ⟨m, value, small⟩ := Option.bind_eq_some_iff.mp parsed
    have same := i64OfInt_some small
  next digits shape =>
    obtain ⟨d, done, result⟩ := read true value (by omega)
    exact ⟨d, by simp only [parseDecimal, shape, done], by rw [result, units, same]; rfl⟩
  next digits shape =>
    obtain ⟨d, done, result⟩ := read false value (by omega)
    exact ⟨d, by simp only [parseDecimal, shape, done], by rw [result, units, same]; rfl⟩
  next minus plus =>
    obtain ⟨d, done, result⟩ := read false value (by omega)
    refine ⟨d, ?_, by rw [result, units, same]; rfl⟩
    rw [← done]
    simp only [parseDecimal]

/-! ## Numbers -/

def OrderableValue.number : OrderableValue → Option Decimal
  | integer n => some (Decimal.ofInt64 n)
  | decimal d => some d
  | text _ => none

/-- The number of an Integer, BigInteger, Decimal or unset cell. -/
def cellNumber : Value → Option Decimal
  | .integer n | .bigInteger n => some (Decimal.ofInt64 n)
  | .decimal d => some d
  | .empty => some Decimal.zero
  | _ => none

namespace Filter

section Numbers

variable [CaseMapping]

theorem cmpValue_number {v : Value} {bound : OrderableValue} {cell number : Decimal} (numeric : cellNumber v = some cell)
    (reads : bound.number = some number) : cmpValue v bound = some (compare cell number) := by
  cases bound with
  | text => cases reads
  | integer n =>
      cases reads
      cases v <;> cases numeric
      · exact congrArg some (Decimal.compare_ofInt64 0 n).symm
      · exact congrArg some (Decimal.compare_ofInt64 _ n).symm
      · rfl
      · exact congrArg some (Decimal.compare_ofInt64 _ n).symm
  | decimal d =>
      cases reads
      cases v <;> cases numeric <;> rfl

theorem range_number {v : Value} {bound : OrderableValue} {cell number : Decimal} [DecimalSyntax]
    (numeric : cellNumber v = some cell) (reads : bound.number = some number) :
    matchesExpr (.atom (.range bound bound)) v = true ↔ number.units = cell.units := by
  have same : compare cell number = .eq ↔ number.units = cell.units := by
    rw [Decimal.compare_eq_iff, eq_comm]
  rw [← same]
  unfold matchesExpr atomMatches
  dsimp only
  rw [cmpValue_number numeric reads]
  cases compare cell number <;> simp [holds, Ordering.isGE, Ordering.isLE]

theorem wildcardMatch_literal {s : String} (literal : NumericLiteral s) (text : String) :
    wildcardMatch s text false = true ↔ text = s := by
  have plain : ∀ c ∈ s.toList, c ≠ '*' ∧ c ≠ '?' := by
    intro c member
    have here := literal.plain c member
    constructor <;> (rintro rfl; exact absurd here (by decide))
  rw [wildcardMatch, if_neg Bool.false_ne_true, wildcardMatchChars_plain plain, String.toList_inj]

variable [DecimalSyntax]

omit [CaseMapping] in
/-- What a text that is read as a number is worth as a decimal. -/
theorem parseDecimal_number [ReadsIntegers] {s : String} {number : Decimal}
    (reads : (parseOrderableStr s).bind OrderableValue.number = some number) :
    ∃ d, parseDecimal s = some d ∧ d.units = number.units := by
  unfold parseOrderableStr at reads
  split at reads
  next n parsed =>
    cases reads
    exact ReadsIntegers.parse_integer s n parsed
  next =>
    split at reads
    next d parsed =>
      cases reads
      exact ⟨_, parsed, rfl⟩
    next => cases reads

theorem equals_unset [ReadsIntegers] {s : String} {number : Decimal}
    (reads : (parseOrderableStr s).bind OrderableValue.number = some number) :
    matchesExpr (.atom (.equals ⟨s, true⟩)) .empty = true ↔ number.units = Decimal.zero.units := by
  obtain ⟨d, parsed, units⟩ := parseDecimal_number reads
  unfold matchesExpr atomMatches patternMatches
  dsimp only
  rw [parsed, ← units, beq_iff_eq]
  exact Decimal.compare_eq_iff d Decimal.zero

theorem equals_number {s : String} (literal : NumericLiteral s) {v : Value} {cell : Decimal}
    (numeric : cellNumber v = some cell) (set : v ≠ .empty) :
    matchesExpr (.atom (.equals ⟨s, true⟩)) v = true ↔ valueToFilterString v = s := by
  have matched : matchesExpr (.atom (.equals ⟨s, true⟩)) v = wildcardMatch s (valueToFilterString v) false := by
    cases v <;> first
      | cases numeric; done
      | rfl
      | exact absurd rfl set
  rw [matched, wildcardMatch_literal literal]

omit [CaseMapping] in
/-- A number is read back from the text that it is compared by. -/
theorem number_of_text [LawfulDecimalSyntax] {v : Value} {cell number : Decimal} (numeric : cellNumber v = some cell)
    (set : v ≠ .empty) (reads : (parseOrderableStr (valueToFilterString v)).bind OrderableValue.number = some number) :
    number.units = cell.units := by
  cases v <;> cases numeric
  · exact absurd rfl set
  · rw [valueToFilterString, parseOrderableStr_renderI64] at reads
    cases reads
    rfl
  · rw [valueToFilterString] at reads
    rcases parseOrderableStr_render cell with ⟨n, parsed, units⟩ | ⟨d', parsed, units⟩
    · rw [parsed] at reads
      cases reads
      exact units
    · rw [parsed] at reads
      cases reads
      exact units
  · rw [valueToFilterString, parseOrderableStr_renderI64] at reads
    cases reads
    rfl

/-! ## Expressions -/

/-- The text is a filter expression, and the expression answers so for the value. -/
def Decides (expr : String) (v : Value) (answer : Bool) : Prop := ∃ e, parse expr = .ok e ∧ matchesExpr e v = answer

theorem decides_iff {expr : String} {e : FilterExpr} (parsed : parse expr = .ok e) (v : Value) (answer : Bool) :
    Decides expr v answer ↔ matchesExpr e v = answer := by
  constructor
  · rintro ⟨e', parsed', answered⟩
    rw [parsed] at parsed'
    cases parsed'
    exact answered
  · intro answered
    exact ⟨e, parsed, answered⟩

omit [CaseMapping] in
theorem parse_degenerate {s : String} (literal : NumericLiteral s) {bound : OrderableValue}
    (reads : parseOrderableStr s = some bound) : parse (s ++ ".." ++ s) = .ok (.atom (.range bound bound)) := by
  have text := literal.filterText
  have same : s ++ ".." ++ s = String.ofList (s.toList ++ '.' :: '.' :: s.toList) := by
    apply String.toList_injective
    simp
  rw [same]
  apply parse_range text.plain text.plain text.nonempty literal.noDots text.nonempty text.noDots
  · rw [String.ofList_toList]
    exact reads
  · rw [String.ofList_toList]
    exact reads

/-- The equality filter and its negation agree with the range from the number to itself exactly where the cell is unset,
holds another number, or is compared by the very text of the filter. -/
theorem equality_agrees_iff [LawfulDecimalSyntax] [ReadsIntegers] {s : String} (literal : NumericLiteral s) {number : Decimal}
    (reads : (parseOrderableStr s).bind OrderableValue.number = some number) {v : Value} {cell : Decimal}
    (numeric : cellNumber v = some cell) :
    ((Decides s v true ↔ Decides (s ++ ".." ++ s) v true) ∧
        (Decides ("<>" ++ s) v true ↔ Decides (s ++ ".." ++ s) v false)) ↔
      (v = .empty ∨ number.units ≠ cell.units ∨ s = valueToFilterString v) := by
  obtain ⟨bound, read, bounded⟩ := Option.bind_eq_some_iff.mp reads
  have negated : parse ("<>" ++ s) = .ok (.atom (.notEqual ⟨s, true⟩)) := by
    rw [← parse_notEqual literal.filterText]
    congr 1
    apply String.toList_injective
    simp
  have complement : matchesExpr (.atom (.notEqual ⟨s, true⟩)) v = !matchesExpr (.atom (.equals ⟨s, true⟩)) v := by
    simp only [matchesExpr, atomMatches]
  rw [decides_iff (parse_equals literal.filterText), decides_iff (parse_degenerate literal read), decides_iff negated,
    decides_iff (parse_degenerate literal read), complement]
  have ranges := range_number numeric bounded
  by_cases set : v = .empty
  · have zero : cell = Decimal.zero := by
      rw [set] at numeric
      exact (Option.some.inj numeric).symm
    have equal := equals_unset reads
    rw [set] at ranges ⊢
    rw [zero] at ranges
    rw [← ranges] at equal
    simp [Bool.eq_iff_iff.mpr equal]
  · have equal := equals_number literal numeric set
    have back (same : valueToFilterString v = s) : number.units = cell.units := by
      rw [← same] at reads
      exact number_of_text numeric set reads
    generalize matchesExpr (.atom (.equals ⟨s, true⟩)) v = equals at equal
    generalize matchesExpr (.atom (.range bound bound)) v = range at ranges
    have both : ((!equals) = true ↔ range = false) ↔ (equals = true ↔ range = true) := by
      cases equals <;> cases range <;> decide
    rw [both, and_self, equal, ranges, eq_comm (a := s)]
    constructor
    · intro agrees
      by_cases same : number.units = cell.units
      · exact .inr (.inr (agrees.mpr same))
      · exact .inr (.inl same)
    · rintro (unset | apart | same)
      · exact absurd unset set
      · exact ⟨back, fun same => absurd same apart⟩
      · exact ⟨back, fun _ => same⟩

end Numbers

section Examples

attribute [local instance] CaseMapping.latin1 DecimalSyntax.plain lawfulDecimalSyntax_plain readsIntegers_plain

theorem numericLiteral_seven : NumericLiteral "007" :=
  ⟨"007".toList, [], "007".toList, [], ⟨by decide, by decide, by decide, List.all_eq_true.mp (by decide),
    List.all_eq_true.mp (by decide)⟩, .inl rfl⟩

theorem equality_agrees_seven :
    ((Decides "007" (.integer 7) true ↔ Decides ("007" ++ ".." ++ "007") (.integer 7) true) ∧
        (Decides ("<>" ++ "007") (.integer 7) true ↔ Decides ("007" ++ ".." ++ "007") (.integer 7) false)) ↔
      (Value.integer 7 = .empty ∨ (Decimal.ofInt64 7).units ≠ (Decimal.ofInt64 7).units ∨
        "007" = valueToFilterString (.integer 7)) :=
  equality_agrees_iff numericLiteral_seven (by decide +kernel) rfl

/-- Leading zeros are no part of the text of the cell. -/
theorem leading_zeros_differ :
    NumericLiteral "007" ∧ (parseOrderableStr "007").bind OrderableValue.number = some (Decimal.ofInt64 7) ∧
      ¬ Decides "007" (.integer 7) true ∧ Decides ("007" ++ ".." ++ "007") (.integer 7) true := by
  have read : parseOrderableStr "007" = some (.integer 7) := by decide +kernel
  refine ⟨numericLiteral_seven, by decide +kernel, ?_, ?_⟩
  · rw [decides_iff (parse_equals numericLiteral_seven.filterText)]
    decide +kernel
  · rw [decides_iff (parse_degenerate numericLiteral_seven read)]
    decide +kernel

end Examples

end Filter

end AlLanguage.Runtime
