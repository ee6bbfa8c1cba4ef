import AlLanguage.Library.Intervals
import AlLanguage.Runtime.NumberText
import AlLanguage.Runtime.Record

/-!
# SetRange and SetFilter

The two calls that put a filter on a field, and when a SetFilter with placeholders for the bounds selects
what SetRange selects.
-/

namespace AlLanguage.Runtime

open Library

/-! ## Placeholders -/

/-- `str::len`. -/
def byteLength (s : String) : Nat := (s.toList.map Char.utf8Size).sum

def renderFilterValue : Value → Except String String
  | .integer n | .bigInteger n => .ok (renderI64 n)
  | .decimal d => .ok d.normalize.render
  | .text s | .code s => .ok s
  | .boolean b => .ok (Filter.renderBool b)
  | .date n | .time n | .dateTime n => .ok (renderI64 n)
  | .option _ _ ordinal => .ok (renderI64 ordinal)
  | .char c => .ok (String.singleton c)
  | value => .error ("placeholder value type " ++ value.typeName ++ " is not supported by the local record runtime")

/-- `str::parse::<usize>` on a digit run. -/
def parseUsize (digits : List Char) : Option Nat := (digitsValue digits).filter (· < 2 ^ 64)

/-- The text of one placeholder, left as it is when no argument matches it. -/
def insertPlaceholder (argCount : Nat) (render : Nat → Except String String) (digits : List Char) (result : String) :
    Except String String :=
  match (parseUsize digits).filter fun n => 1 ≤ n ∧ n ≤ argCount with
  | some n => do
      let value ← render n
      checkTextSize "Substituting placeholders" (byteLength result + byteLength value)
      return result ++ value
  | none => .ok (result ++ "%" ++ String.ofList digits)

/-- The loop over the format text. Behind a `%` the digits read so far are kept, last first. -/
def substituteChars (argCount : Nat) (render : Nat → Except String String) :
    Option (List Char) → String → List Char → Except String String
  | none, result, [] => .ok result
  | some digits, result, [] => insertPlaceholder argCount render digits.reverse result
  | none, result, c :: rest =>
      if c = '%' then substituteChars argCount render (some []) result rest
      else substituteChars argCount render none (result ++ String.singleton c) rest
  | some digits, result, c :: rest =>
      if c.isDigit then substituteChars argCount render (some (c :: digits)) result rest
      else do
        let result ← insertPlaceholder argCount render digits.reverse result
        if c = '%' then substituteChars argCount render (some []) result rest
        else substituteChars argCount render none (result ++ String.singleton c) rest

def substitutePlaceholdersWith (fmt : String) (argCount : Nat) (render : Nat → Except String String) :
    Except String String := do
  let result ← substituteChars argCount render none "" fmt.toList
  checkTextSize "Substituting placeholders" (byteLength result)
  return result

/-! ## The two calls -/

def dispatchSetRange (view : RecordView) (field : FieldNo) (values : List Value) : Except String Value × RecordView :=
  match values with
  | [] => (.ok .empty, MockRecord.clearFilterIn view field)
  | [value] => (.ok .empty, MockRecord.setRangeIn view field value value)
  | [low, high] => (.ok .empty, MockRecord.setRangeIn view field low high)
  | _ => (.error ("SetRange: expected at most two values after the field, got " ++ toString values.length), view)

def dispatchSetFilter [DecimalSyntax] (view : RecordView) (field : FieldNo) (values : List Value) :
    Except String Value × RecordView :=
  match values with
  | [] => (.error "SetFilter: missing filter expression", view)
  | .text raw :: args | .code raw :: args =>
      let render (n : Nat) : Except String String := renderFilterValue (args.getD (n - 1) .null)
      match substitutePlaceholdersWith raw args.length render with
      | .error error => (.error ("SetFilter: " ++ error), view)
      | .ok expr =>
        match MockRecord.setFilterIn view field expr with
        | (.ok (), view) => (.ok .empty, view)
        | (.error e, view) => (.error ("SetFilter: " ++ e.message), view)
  | value :: _ => (.error ("SetFilter: filter expression must be Text or Code, got " ++ value.typeName), view)

/-- Whether the call succeeded and its filter accepts the cell. -/
def accepts [CaseMapping] [DecimalSyntax] (called : Except String Value × RecordView) (field : FieldNo) (cell : Value) :
    Bool :=
  called.1.toBool && (called.2.filters.get? field).any (·.matches cell)

theorem byteLength_append (s t : String) : byteLength (s ++ t) = byteLength s + byteLength t := by
  simp [byteLength]

theorem insertPlaceholder_one (render : Nat → Except String String) (result : String) :
    insertPlaceholder 2 render ['1'] result = (do
      let value ← render 1
      checkTextSize "Substituting placeholders" (byteLength result + byteLength value)
      return result ++ value) := by
  have read : (parseUsize ['1']).filter (fun n => 1 ≤ n ∧ n ≤ 2) = some 1 := by decide
  rw [insertPlaceholder, read]

theorem insertPlaceholder_two (render : Nat → Except String String) (result : String) :
    insertPlaceholder 2 render ['2'] result = (do
      let value ← render 2
      checkTextSize "Substituting placeholders" (byteLength result + byteLength value)
      return result ++ value) := by
  have read : (parseUsize ['2']).filter (fun n => 1 ≤ n ∧ n ≤ 2) = some 2 := by decide
  rw [insertPlaceholder, read]

theorem byteLength_le (s : String) : byteLength s ≤ 4 * s.toList.length := by
  unfold byteLength
  induction s.toList with
  | nil => simp
  | cons c rest ih =>
      have size := Char.utf8Size_le_four c
      rw [List.map_cons, List.sum_cons, List.length_cons]
      omega

theorem range_text (s t : String) : s ++ ".." ++ t = String.ofList (s.toList ++ '.' :: '.' :: t.toList) := by
  apply String.toList_injective
  simp

/-- The text `a..b` that a range of two placeholders stands for fits. -/
def Fits (a b : String) : Prop := byteLength (a ++ ".." ++ b) ≤ maxTextBytes

instance (a b : String) : Decidable (Fits a b) := inferInstanceAs (Decidable (_ ≤ _))

section Substitute

variable {render : Nat → Except String String} {a b : String} (first : render 1 = .ok a) (second : render 2 = .ok b)

include first second

theorem substitute_range :
    substitutePlaceholdersWith "%1..%2" 2 render = (do
      checkTextSize "Substituting placeholders" (byteLength a)
      checkTextSize "Substituting placeholders" (byteLength (a ++ ".." ++ b))
      checkTextSize "Substituting placeholders" (byteLength (a ++ ".." ++ b))
      return a ++ ".." ++ b) := by
  have chars : "%1..%2".toList = ['%', '1', '.', '.', '%', '2'] := rfl
  have dots : a ++ "." ++ "." = a ++ ".." := by
    rw [String.append_assoc]
    rfl
  rw [substitutePlaceholdersWith, chars]
  simp [substituteChars, insertPlaceholder_one, insertPlaceholder_two, first, second, bind, Except.bind]
  simp only [show byteLength "" = 0 from rfl, Nat.zero_add]
  cases checkTextSize "Substituting placeholders" (byteLength a) with
  | error e => rfl
  | ok _ =>
      simp only [pure, Except.pure, dots, ← byteLength_append]
      cases same : checkTextSize "Substituting placeholders" (byteLength (a ++ ".." ++ b)) <;> simp only [same]

theorem substitute_range_ok (fits : Fits a b) : substitutePlaceholdersWith "%1..%2" 2 render = .ok (a ++ ".." ++ b) := by
  have half : byteLength a ≤ maxTextBytes := by
    rw [Fits, byteLength_append, byteLength_append] at fits
    omega
  unfold Fits at fits
  rw [substitute_range first second, checkTextSize, checkTextSize, if_pos half, if_pos fits]
  rfl

theorem substitute_range_error (large : ¬Fits a b) :
    ∃ error, substitutePlaceholdersWith "%1..%2" 2 render = .error error := by
  unfold Fits at large
  rw [substitute_range first second, checkTextSize, checkTextSize, if_neg large]
  split <;> exact ⟨_, rfl⟩

end Substitute

/-! ## What the calls accept -/

section Accepts

variable [CaseMapping] [DecimalSyntax] (view : RecordView) (field : FieldNo) {A B : Value} {a b : String}

theorem accepts_setRange (A B cell : Value) :
    accepts (dispatchSetRange view field [A, B]) field cell = (FieldFilter.range A B).matches cell := by
  simp [accepts, dispatchSetRange, MockRecord.setRangeIn, Except.toBool, OrderedMap.get?_insert_self]

section Rendered

variable (first : renderFilterValue A = .ok a) (second : renderFilterValue B = .ok b)

include first second

theorem accepts_setFilter_large (large : ¬Fits a b) (cell : Value) :
    accepts (dispatchSetFilter view field [.text "%1..%2", A, B]) field cell = false := by
  obtain ⟨error, failed⟩ := @substitute_range_error (fun n => renderFilterValue ([A, B].getD (n - 1) .null)) a b
    first second large
  simp only [dispatchSetFilter, List.length_cons, List.length_nil, failed]
  rfl

theorem accepts_setFilter_error (fits : Fits a b) {e : FilterParseError} (parsed : Filter.parse (a ++ ".." ++ b) = .error e)
    (cell : Value) : accepts (dispatchSetFilter view field [.text "%1..%2", A, B]) field cell = false := by
  have substituted := @substitute_range_ok (fun n => renderFilterValue ([A, B].getD (n - 1) .null)) a b first second fits
  simp only [dispatchSetFilter, List.length_cons, List.length_nil, substituted, MockRecord.setFilterIn, parsed]
  rfl

theorem accepts_setFilter (fits : Fits a b) {expr : FilterExpr} (parsed : Filter.parse (a ++ ".." ++ b) = .ok expr)
    (cell : Value) : accepts (dispatchSetFilter view field [.text "%1..%2", A, B]) field cell = Filter.matchesExpr expr cell := by
  have substituted := @substitute_range_ok (fun n => renderFilterValue ([A, B].getD (n - 1) .null)) a b first second fits
  simp only [dispatchSetFilter, List.length_cons, List.length_nil, substituted, MockRecord.setFilterIn, parsed]
  simp [accepts, Except.toBool, FieldFilter.matches, OrderedMap.get?_insert_self]

end Rendered

/-! ## The field types -/

end Accepts

/-- The types whose ranges are compared here, an Option with its declared members. -/
inductive FieldKind where
  | integer
  | bigInteger
  | decimal
  | date
  | time
  | dateTime
  | option (typeName : String) (members : List (String × Int64))
  | code

namespace FieldKind

def Has : FieldKind → Value → Prop
  | integer, .integer _ | bigInteger, .bigInteger _ | decimal, .decimal _ | date, .date _ | time, .time _
  | dateTime, .dateTime _ | code, .code _ => True
  | option typeName members, .option name member ordinal => name = typeName ∧ (member, ordinal) ∈ members
  | _, _ => False

/-- A value to bound a range with: Code texts hold nothing that filter expressions give a meaning. -/
def Bound (kind : FieldKind) (value : Value) : Prop :=
  kind.Has value ∧ ∀ s, value = .code s → Filter.FilterText s

theorem has_option {typeName : String} {members : List (String × Int64)} {value : Value}
    (has : (option typeName members).Has value) :
    ∃ member ordinal, value = .option typeName member ordinal ∧ (member, ordinal) ∈ members := by
  cases value <;> first | cases has; done | skip
  obtain ⟨rfl, inside⟩ := has
  exact ⟨_, _, rfl, inside⟩

theorem has_code {value : Value} (has : code.Has value) : ∃ s, value = .code s := by
  cases value <;> first | cases has; done | skip
  exact ⟨_, rfl⟩

end FieldKind

/-- How a SetFilter range compares: an Option by its ordinal, the rest as SetRange does. -/
def filterCmp [CaseMapping] (cell bound : Value) : Option Ordering :=
  match cell, bound with
  | .option _ _ ordinal, .option _ _ ordinal' => some (compare ordinal ordinal')
  | cell, bound => fieldCmp cell bound

/-- The value is written as a number, and comparing with the number read back is comparing with the value. -/
structure Written [CaseMapping] [DecimalSyntax] (kind : FieldKind) (A : Value) (s : String) (bound : OrderableValue) :
    Prop where
  rendered : renderFilterValue A = .ok s
  number : ∃ sign whole fraction, NumberText s.toList sign whole fraction ∧ whole.length + fraction.length ≤ 30
  read : parseOrderableStr s = some bound
  compares : ∀ cell, kind.Has cell → Filter.cmpValue cell bound = filterCmp cell A

section Numeric

variable [CaseMapping] [DecimalSyntax]

theorem written_i64 {kind : FieldKind} {A : Value} {n : Int64} (rendered : renderFilterValue A = .ok (renderI64 n))
    (compares : ∀ cell, kind.Has cell → Filter.cmpValue cell (.integer n) = filterCmp cell A) :
    Written kind A (renderI64 n) (.integer n) where
  rendered
  number := by
    obtain ⟨sign, number⟩ := numberText_i64 n
    have digits : (Nat.toDigits 10 n.toInt.natAbs).length ≤ 30 := by
      rw [Nat.length_toDigits_le_iff (by decide) (by decide)]
      have low := Int64.le_toInt n
      have high := Int64.toInt_lt n
      omega
    exact ⟨sign, _, _, number, by simpa using digits⟩
  read := parseOrderableStr_renderI64 n
  compares

theorem written_decimal [LawfulDecimalSyntax] (d : Decimal) :
    ∃ bound, Written .decimal (.decimal d) d.normalize.render bound := by
  have number : ∃ sign whole fraction, NumberText d.normalize.render.toList sign whole fraction ∧
      whole.length + fraction.length ≤ 30 := by
    refine ⟨_, _, _, d.normalize.numberText_render, ?_⟩
    rw [← List.length_append, List.take_append_drop]
    exact d.normalize.padded_length.2
  rcases parseOrderableStr_render d with ⟨n, read, units⟩ | ⟨d', read, units⟩
  · refine ⟨_, rfl, number, read, ?_⟩
    intro cell has
    cases cell <;> first | cases has; done | skip
    simp [Filter.cmpValue, filterCmp, fieldCmp, fieldCmpSet, Value.asDecimal, Decimal.compare_units, units]
  · refine ⟨_, rfl, number, read, ?_⟩
    intro cell has
    cases cell <;> first | cases has; done | skip
    simp [Filter.cmpValue, filterCmp, fieldCmp, fieldCmpSet, Value.asDecimal, Decimal.compare_units, units]

theorem exists_written [LawfulDecimalSyntax] {kind : FieldKind} {A : Value} (has : kind.Has A) (numeric : kind ≠ .code) :
    ∃ s bound, Written kind A s bound := by
  cases kind with
  | code => exact absurd rfl numeric
  | decimal =>
      cases A <;> first | cases has; done | skip
      exact ⟨_, written_decimal _⟩
  | integer | bigInteger | date | time | dateTime | option =>
      cases A <;> first | cases has; done | skip
      refine ⟨_, _, written_i64 rfl ?_⟩
      intro cell hasCell
      cases cell <;> first | cases hasCell; done | skip
      simp [Filter.cmpValue, filterCmp, fieldCmp, fieldCmpSet, Value.asDecimal, flowText, Decimal.compare_ofInt64]
      all_goals exact ⟨rfl, rfl⟩

/-- On numbers the SetFilter range is the interval of its two bounds. -/
theorem accepts_setFilter_numeric [LawfulDecimalSyntax] (view : RecordView) (field : FieldNo) {kind : FieldKind}
    {A B cell : Value} (numeric : kind ≠ .code) (hasA : kind.Has A) (hasB : kind.Has B) (hasCell : kind.Has cell) :
    accepts (dispatchSetFilter view field [.text "%1..%2", A, B]) field cell =
      (Filter.holds Ordering.isGE (filterCmp cell A) && Filter.holds Ordering.isLE (filterCmp cell B)) := by
  obtain ⟨s, low, writtenA⟩ := exists_written hasA numeric
  obtain ⟨t, high, writtenB⟩ := exists_written hasB numeric
  obtain ⟨_, _, _, numberA, shortA⟩ := writtenA.number
  obtain ⟨_, _, _, numberB, shortB⟩ := writtenB.number
  have fits : Fits s t := by
    have lengthA := numberA.length_eq
    have lengthB := numberB.length_eq
    have sizeA := byteLength_le s
    have sizeB := byteLength_le t
    have dots : byteLength ".." = 2 := rfl
    rw [Fits, byteLength_append, byteLength_append, maxTextBytes, dots]
    omega
  have parsed : Filter.parse (s ++ ".." ++ t) = .ok (.atom (.range low high)) := by
    have textB := numberB.filterText
    rw [String.ofList_toList] at textB
    rw [range_text]
    apply Filter.parse_range numberA.plain numberB.plain numberA.ne_nil numberA.noDots numberB.ne_nil textB.noDots
    · rw [String.ofList_toList, writtenA.read]
    · rw [String.ofList_toList, writtenB.read]
  rw [accepts_setFilter view field writtenA.rendered writtenB.rendered fits parsed]
  simp only [Filter.matchesExpr, Filter.atomMatches, writtenA.compares cell hasCell, writtenB.compares cell hasCell]

end Numeric

/-! ## Code bounds -/

/-- The text does not read as a number. -/
def ReadsAsText [DecimalSyntax] (s : String) : Prop := parseI64 s = none ∧ parseDecimal s = none

/-- The SetFilter range reads the two bounds back. -/
def KeepsBounds [DecimalSyntax] (a b : String) : Prop :=
  Fits a b ∧ a.toList.getLast? ≠ some '.' ∧ ReadsAsText a ∧ ReadsAsText b

/-- Both ranges are empty. A dot at the end of the lower bound goes to the front of the upper bound. -/
def BothEmpty [CaseMapping] [DecimalSyntax] (a b : String) : Prop :=
  (compare (toUppercase a) (toUppercase b)).isLE = false ∧
    ∀ low, a = low ++ "." → Fits a b → low ≠ "" → b.toList.head? ≠ some '.' → ReadsAsText low → ReadsAsText ("." ++ b) →
      (compare (toUppercase low) (toUppercase ("." ++ b))).isLE = false

section Code

variable [CaseMapping] [DecimalSyntax]

omit [CaseMapping] in
theorem parseOrderableStr_text {s : String} (text : ReadsAsText s) : parseOrderableStr s = some (.text s) := by
  rw [parseOrderableStr, text.1, text.2]

theorem parseOrderableStr_number {s : String} (number : ¬ReadsAsText s) :
    ∃ bound, parseOrderableStr s = some bound ∧ ∀ c, Filter.cmpValue (.code c) bound = none := by
  unfold parseOrderableStr
  cases integer : parseI64 s with
  | some n => exact ⟨_, rfl, fun c => rfl⟩
  | none =>
      cases decimal : parseDecimal s with
      | some d => exact ⟨_, rfl, fun c => rfl⟩
      | none => exact absurd ⟨integer, decimal⟩ number

/-- A range of texts on a Code cell is an interval of upper-case texts, and empty when one of them is a number. -/
theorem matchesExpr_code {a b : String} {low high : OrderableValue} (lowRead : parseOrderableStr a = some low)
    (highRead : parseOrderableStr b = some high) (c : String) :
    (ReadsAsText a → ReadsAsText b →
      Filter.matchesExpr (.atom (.range low high)) (.code c) = between (toUppercase a) (toUppercase b) (toUppercase c)) ∧
    (¬(ReadsAsText a ∧ ReadsAsText b) → Filter.matchesExpr (.atom (.range low high)) (.code c) = false) := by
  constructor
  · intro textA textB
    rw [parseOrderableStr_text textA] at lowRead
    rw [parseOrderableStr_text textB] at highRead
    cases lowRead
    cases highRead
    simp [Filter.matchesExpr, Filter.atomMatches, Filter.cmpValue, Filter.holds, between]
  · intro number
    rcases not_and_or.mp number with numberA | numberB
    · obtain ⟨bound, read, apart⟩ := parseOrderableStr_number numberA
      rw [lowRead] at read
      cases read
      simp [Filter.matchesExpr, Filter.atomMatches, apart, Filter.holds]
    · obtain ⟨bound, read, apart⟩ := parseOrderableStr_number numberB
      rw [highRead] at read
      cases read
      simp [Filter.matchesExpr, Filter.atomMatches, apart, Filter.holds]

variable (view : RecordView) (field : FieldNo) {a b : String}

theorem accepts_setRange_code (a b c : String) :
    accepts (dispatchSetRange view field [.code a, .code b]) field (.code c) =
      between (toUppercase a) (toUppercase b) (toUppercase c) := by
  rw [accepts_setRange]
  simp [FieldFilter.matches, fieldCmp, fieldCmpSet, Value.asDecimal, flowText, isCode, Filter.holds, between]

/-- On Code, SetFilter with the two bounds accepts what SetRange accepts. -/
def CodeLaw (a b : String) : Prop :=
  ∀ c, accepts (dispatchSetFilter view field [.text "%1..%2", .code a, .code b]) field (.code c) =
    accepts (dispatchSetRange view field [.code a, .code b]) field (.code c)

theorem codeLaw_iff_of_nothing
    (nothing : ∀ c, accepts (dispatchSetFilter view field [.text "%1..%2", .code a, .code b]) field (.code c) = false) :
    CodeLaw view field a b ↔ (compare (toUppercase a) (toUppercase b)).isLE = false := by
  rw [CodeLaw, ← @between_empty_iff _ _ _ _ toUppercase]
  apply forall_congr'
  intro c
  rw [nothing, accepts_setRange_code]
  exact eq_comm

omit [DecimalSyntax] in
theorem toUppercase_append (s t : String) : toUppercase (s ++ t) = toUppercase s ++ toUppercase t := by
  apply String.toList_injective
  simp [toUppercase]

omit [DecimalSyntax] in
theorem toUppercase_dot_ne (low : String) : compare (toUppercase (low ++ ".")) (toUppercase low) ≠ .eq := by
  have dot : toUppercase "." = "." := by
    rw [toUppercase, show ".".toList = ['.'] from rfl, List.flatMap_singleton, CaseMapping.upper_ascii '.' (by decide)]
    rfl
  rw [ne_eq, Std.LawfulEqOrd.compare_eq_iff_eq, toUppercase_append, dot]
  intro same
  have length := congrArg String.length same
  rw [String.length_append] at length
  exact absurd length (by simp)

theorem codeLaw_iff_of_nothing' (lost : ¬KeepsBounds a b)
    (unshifted : ∀ low, a = low ++ "." → Fits a b → low ≠ "" → b.toList.head? ≠ some '.' → ReadsAsText low →
      ¬ReadsAsText ("." ++ b))
    (nothing : ∀ c, accepts (dispatchSetFilter view field [.text "%1..%2", .code a, .code b]) field (.code c) = false) :
    CodeLaw view field a b ↔ KeepsBounds a b ∨ BothEmpty a b := by
  rw [codeLaw_iff_of_nothing view field nothing, or_iff_right lost, BothEmpty]
  refine ⟨fun reversed => ⟨reversed, ?_⟩, And.left⟩
  intro low dotted fits nonempty head textLow textHigh
  exact absurd textHigh (unshifted low dotted fits nonempty head textLow)

theorem codeLaw_iff_undotted (textA : Filter.FilterText a) (textB : Filter.FilterText b) (fits : Fits a b)
    (undotted : a.toList.getLast? ≠ some '.') : CodeLaw view field a b ↔ KeepsBounds a b ∨ BothEmpty a b := by
  obtain ⟨low, lowRead⟩ := Filter.parseOrderableStr_some a
  obtain ⟨high, highRead⟩ := Filter.parseOrderableStr_some b
  have dots : Filter.NoDots (a.toList ++ ['.']) := by
    refine List.isChain_append.mpr ⟨textA.noDots, List.isChain_singleton _, ?_⟩
    intro c last _ _
    left
    rintro rfl
    exact undotted last
  have parsed : Filter.parse (a ++ ".." ++ b) = .ok (.atom (.range low high)) := by
    rw [range_text]
    apply Filter.parse_range textA.plain textB.plain textA.nonempty dots textB.nonempty textB.noDots
    · rw [String.ofList_toList, lowRead]
    · rw [String.ofList_toList, highRead]
  have filter (c : String) := @accepts_setFilter _ _ view field (.code a) (.code b) a b rfl rfl fits _ parsed (.code c)
  by_cases texts : ReadsAsText a ∧ ReadsAsText b
  · refine iff_of_true ?_ (.inl ⟨fits, undotted, texts⟩)
    intro c
    rw [filter, (matchesExpr_code lowRead highRead c).1 texts.1 texts.2, accepts_setRange_code]
  · apply codeLaw_iff_of_nothing' view field fun keeps => texts keeps.2.2
    · intro low dotted
      refine absurd ?_ undotted
      simp [dotted]
    · intro c
      rw [filter, (matchesExpr_code lowRead highRead c).2 texts]

theorem codeLaw_iff_dotted {low : String} (textA : Filter.FilterText (low ++ ".")) (textB : Filter.FilterText b)
    (fits : Fits (low ++ ".") b) :
    CodeLaw view field (low ++ ".") b ↔ KeepsBounds (low ++ ".") b ∨ BothEmpty (low ++ ".") b := by
  have lost : ¬KeepsBounds (low ++ ".") b := fun keeps => keeps.2.1 (by simp)
  have same {other : String} (equal : low ++ "." = other ++ ".") : other = low := by
    apply String.toList_injective
    have lists := congrArg String.toList equal
    simpa using lists.symm
  have text : low ++ "." ++ ".." ++ b = String.ofList (low.toList ++ '.' :: '.' :: ('.' :: b.toList)) := by
    apply String.toList_injective
    simp
  have plainLow : ∀ c ∈ low.toList, Filter.isPlain c = true := fun c member => textA.plain c (by simp [member])
  have plainHigh : ∀ c ∈ '.' :: b.toList, Filter.isPlain c = true := List.forall_mem_cons.mpr ⟨by decide, textB.plain⟩
  have dotsLow : Filter.NoDots (low.toList ++ ['.']) := by simpa using textA.noDots
  have failed {e : FilterParseError} (parsed : Filter.parse (low ++ "." ++ ".." ++ b) = .error e) (c : String) :
      accepts (dispatchSetFilter view field [.text "%1..%2", .code (low ++ "."), .code b]) field (.code c) = false :=
    @accepts_setFilter_error _ _ view field (.code (low ++ ".")) (.code b) _ b rfl rfl fits _ parsed (.code c)
  by_cases empty : low = ""
  · apply codeLaw_iff_of_nothing' view field lost
    · intro other equal _ nonempty
      exact absurd ((same equal).trans empty) nonempty
    · have parsed : Filter.parse (low ++ "." ++ ".." ++ b) = .error .unexpectedEnd := by
        rw [text, empty]
        exact Filter.parse_dots plainHigh
      exact failed parsed
  · have nonempty : low.toList ≠ [] := by simpa using empty
    by_cases head : b.toList.head? = some '.'
    · apply codeLaw_iff_of_nothing' view field lost
      · intro other _ _ _ apart
        exact absurd head apart
      · obtain ⟨rest, starts⟩ := List.head?_eq_some_iff.mp head
        have parsed : Filter.parse (low ++ "." ++ ".." ++ b) = .error .unexpectedEnd := by
          rw [text]
          apply Filter.parse_range_empty plainLow plainHigh nonempty dotsLow
          rw [starts]
        exact failed parsed
    · obtain ⟨lowBound, lowRead⟩ := Filter.parseOrderableStr_some low
      obtain ⟨highBound, highRead⟩ := Filter.parseOrderableStr_some ("." ++ b)
      have dotsHigh : Filter.NoDots ('.' :: b.toList) := by
        refine List.isChain_cons.mpr ⟨?_, textB.noDots⟩
        intro c first
        right
        rintro rfl
        exact head first
      have parsed : Filter.parse (low ++ "." ++ ".." ++ b) = .ok (.atom (.range lowBound highBound)) := by
        rw [text]
        apply Filter.parse_range plainLow plainHigh nonempty dotsLow (List.cons_ne_nil _ _) dotsHigh
        · rw [String.ofList_toList, lowRead]
        · rw [← highRead]
          congr 1
          apply String.toList_injective
          simp
      have filter (c : String) := @accepts_setFilter _ _ view field (.code (low ++ ".")) (.code b) _ b rfl rfl fits _
        parsed (.code c)
      by_cases texts : ReadsAsText low ∧ ReadsAsText ("." ++ b)
      · have intervals : CodeLaw view field (low ++ ".") b ↔ ∀ c, between (toUppercase low) (toUppercase ("." ++ b))
            (toUppercase c) = between (toUppercase (low ++ ".")) (toUppercase b) (toUppercase c) := by
          apply forall_congr'
          intro c
          rw [filter, (matchesExpr_code lowRead highRead c).1 texts.1 texts.2, accepts_setRange_code]
        rw [or_iff_right lost, intervals, between_eq_iff (toUppercase_dot_ne low), BothEmpty]
        refine and_congr_right fun _ => ⟨?_, fun shifted => shifted low rfl fits empty head texts.1 texts.2⟩
        intro reversed other equal _ _ _ _ _
        rw [same equal]
        exact reversed
      · apply codeLaw_iff_of_nothing' view field lost
        · intro other equal _ _ _ textLow textHigh
          rw [same equal] at textLow
          exact texts ⟨textLow, textHigh⟩
        · intro c
          rw [filter, (matchesExpr_code lowRead highRead c).2 texts]

theorem codeLaw_iff (textA : Filter.FilterText a) (textB : Filter.FilterText b) :
    CodeLaw view field a b ↔ KeepsBounds a b ∨ BothEmpty a b := by
  by_cases fits : Fits a b
  · by_cases dotted : a.toList.getLast? = some '.'
    · obtain ⟨low, shape⟩ := List.getLast?_eq_some_iff.mp dotted
      have split : a = String.ofList low ++ "." := by
        apply String.toList_injective
        simp [shape]
      subst split
      exact codeLaw_iff_dotted view field textA textB fits
    · exact codeLaw_iff_undotted view field textA textB fits dotted
  · apply codeLaw_iff_of_nothing' view field fun keeps => fits keeps.1
    · intro low _ fits'
      exact absurd fits' fits
    · exact fun c => @accepts_setFilter_large _ _ view field (.code a) (.code b) a b rfl rfl fits _

end Code

/-! ## The law -/

/-- Where the two calls agree. The members of an Option between two bounds by name have to be those between
them by ordinal. -/
def RangesAgree [CaseMapping] [DecimalSyntax] : FieldKind → Value → Value → Prop
  | .code, .code a, .code b => KeepsBounds a b ∨ BothEmpty a b
  | .option _ members, .option _ low lowOrdinal, .option _ high highOrdinal =>
      ∀ entry ∈ members, between lowOrdinal highOrdinal entry.2 = between low high entry.1
  | _, _, _ => True

section Law

variable [CaseMapping] [DecimalSyntax]

omit [DecimalSyntax] in
theorem filterCmp_eq {kind : FieldKind} {cell bound : Value} (has : kind.Has cell)
    (scalar : ∀ typeName members, kind ≠ .option typeName members) : filterCmp cell bound = fieldCmp cell bound := by
  cases cell <;> first | rfl | skip
  cases kind <;> first | cases has; done | skip
  exact absurd rfl (scalar _ _)

section Option

variable (view : RecordView) (field : FieldNo) (typeName : String) {members : List (String × Int64)}
  {low high member : String} {lowOrdinal highOrdinal ordinal : Int64}

theorem accepts_setRange_option :
    accepts (dispatchSetRange view field [.option typeName low lowOrdinal, .option typeName high highOrdinal]) field
      (.option typeName member ordinal) = between low high member := by
  rw [accepts_setRange]
  simp [FieldFilter.matches, fieldCmp, fieldCmpSet, Value.asDecimal, flowText, isCode, Filter.holds, between]

theorem accepts_setFilter_option [LawfulDecimalSyntax] (hasLow : (low, lowOrdinal) ∈ members)
    (hasHigh : (high, highOrdinal) ∈ members) (has : (member, ordinal) ∈ members) :
    accepts (dispatchSetFilter view field
      [.text "%1..%2", .option typeName low lowOrdinal, .option typeName high highOrdinal]) field
      (.option typeName member ordinal) = between lowOrdinal highOrdinal ordinal := by
  have declared {name : String} {n : Int64} (inside : (name, n) ∈ members) :
      (FieldKind.option typeName members).Has (.option typeName name n) := ⟨rfl, inside⟩
  rw [accepts_setFilter_numeric view field (by nofun) (declared hasLow) (declared hasHigh) (declared has)]
  simp [filterCmp, Filter.holds, between]

end Option

/-- SetFilter with the range of two placeholders selects what SetRange selects exactly when the bounds agree. -/
theorem setFilter_selects_setRange_iff [LawfulDecimalSyntax] (view : RecordView) (field : FieldNo) (kind : FieldKind)
    (A B : Value) (boundA : kind.Bound A) (boundB : kind.Bound B) :
    (∀ cell, kind.Has cell → accepts (dispatchSetFilter view field [.text "%1..%2", A, B]) field cell =
      accepts (dispatchSetRange view field [A, B]) field cell) ↔ RangesAgree kind A B := by
  obtain ⟨hasA, textA⟩ := boundA
  obtain ⟨hasB, textB⟩ := boundB
  cases kind with
  | code =>
      obtain ⟨a, rfl⟩ := FieldKind.has_code hasA
      obtain ⟨b, rfl⟩ := FieldKind.has_code hasB
      rw [RangesAgree, ← codeLaw_iff view field (textA a rfl) (textB b rfl)]
      constructor
      · intro law c
        exact law (.code c) trivial
      · intro law cell hasCell
        obtain ⟨c, rfl⟩ := FieldKind.has_code hasCell
        exact law c
  | option typeName members =>
      obtain ⟨low, lowOrdinal, rfl, hasLow⟩ := FieldKind.has_option hasA
      obtain ⟨high, highOrdinal, rfl, hasHigh⟩ := FieldKind.has_option hasB
      rw [RangesAgree]
      constructor
      · intro law entry inside
        have same := law (.option typeName entry.1 entry.2) ⟨rfl, inside⟩
        rw [accepts_setFilter_option view field typeName hasLow hasHigh inside, accepts_setRange_option] at same
        exact same
      · intro agree cell hasCell
        obtain ⟨member, ordinal, rfl, inside⟩ := FieldKind.has_option hasCell
        rw [accepts_setFilter_option view field typeName hasLow hasHigh inside, accepts_setRange_option]
        exact agree (member, ordinal) inside
  | _ =>
      refine iff_of_true ?_ trivial
      intro cell hasCell
      rw [accepts_setFilter_numeric view field (by nofun) hasA hasB hasCell, accepts_setRange, FieldFilter.matches,
        filterCmp_eq hasCell (by nofun), filterCmp_eq hasCell (by nofun)]

/-- An Option type agrees for all its bounds when its ordinals ascend as its names do. -/
theorem rangesAgree_option_iff (typeName : String) (members : List (String × Int64)) :
    (∀ low ∈ members, ∀ high ∈ members, RangesAgree (.option typeName members) (.option typeName low.1 low.2)
      (.option typeName high.1 high.2)) ↔
    ∀ p ∈ members, ∀ q ∈ members, ((compare p.1 q.1).isLE = true ↔ (compare p.2 q.2).isLE = true) := by
  constructor
  · intro agree p declaredP q declaredQ
    have same := agree p declaredP q declaredQ p declaredP
    rw [Bool.eq_iff_iff, between_iff, between_iff] at same
    simpa using same.symm
  · intro ascending low hasLow high hasHigh entry has
    rw [Bool.eq_iff_iff, between_iff, between_iff]
    exact and_congr (ascending low hasLow entry has).symm (ascending entry has high hasHigh).symm

end Law

section Example

local instance latinRange : CaseMapping := .latin1

local instance plainRange : DecimalSyntax := .plain

theorem setFilter_selects_setRange_iff_seven :
    (∀ cell, FieldKind.integer.Has cell →
      accepts (dispatchSetFilter default 1 [.text "%1..%2", .integer 3, .integer 7]) 1 cell =
        accepts (dispatchSetRange default 1 [.integer 3, .integer 7]) 1 cell) ↔
    RangesAgree .integer (.integer 3) (.integer 7) :=
  @setFilter_selects_setRange_iff _ _ lawfulDecimalSyntax_plain default 1 .integer (.integer 3) (.integer 7)
    ⟨trivial, nofun⟩ ⟨trivial, nofun⟩

/-- The range of the Code values 10 and 20 is read back as one of integers, which no Code cell is in. -/
theorem setFilter_misses_code :
    accepts (dispatchSetFilter default 1 [.text "%1..%2", .code "10", .code "20"]) 1 (.code "15") = false ∧
      accepts (dispatchSetRange default 1 [.code "10", .code "20"]) 1 (.code "15") = true := by
  constructor <;> decide +kernel

end Example

end AlLanguage.Runtime
