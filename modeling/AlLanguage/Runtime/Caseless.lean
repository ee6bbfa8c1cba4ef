import AlLanguage.Runtime.Operators
import AlLanguage.Runtime.SetFilter

/-!
# Comparing Code values

The tests of two Code values that fold case, and for which pairs of texts they agree.
-/

namespace AlLanguage.Runtime

namespace Filter

/-! ## Patterns without wildcards -/

theorem fillRow_plain {c : Char} (star : c ≠ '*') (query : c ≠ '?') (diagonal : Bool) (ups : List Bool) (left : Bool)
    (text : List Char) (length : ups.length = text.length) :
    fillRow c diagonal ups left text = List.zipWith (fun x entry => c == x && entry) text (diagonal :: ups) := by
  induction text generalizing diagonal ups left with
  | nil => simp [fillRow]
  | cons x xs ih =>
      cases ups with
      | nil => simp at length
      | cons up ups =>
          rw [fillRow, if_neg star, ih up ups _ (by simpa using length)]
          simp [beq_eq_false_iff_ne.mpr query]

/-- Entry `j` of the row says whether `pattern` is the first `j` characters. -/
def prefixRow (pattern text : List Char) : List Bool :=
  (List.range (text.length + 1)).map fun j => decide (text.take j = pattern)

theorem prefixRow_eq (pattern text : List Char) :
    prefixRow pattern text =
      decide ([] = pattern) :: (List.range text.length).map fun j => decide (text.take (j + 1) = pattern) := by
  rw [prefixRow, List.range_succ_eq_map, List.map_cons, List.map_map]
  rfl

theorem nextRow_prefixRow {c : Char} (star : c ≠ '*') (query : c ≠ '?') (pattern text : List Char) :
    nextRow text (prefixRow pattern text) c = prefixRow (pattern ++ [c]) text := by
  have filled : List.zipWith (fun x entry => c == x && entry) text (prefixRow pattern text) =
      (List.range text.length).map fun j => decide (text.take (j + 1) = pattern ++ [c]) := by
    apply List.ext_getElem
    · simp [prefixRow]
    · intro j left right
      have inside : j < text.length := by simpa using right
      have step : text.take (j + 1) = text.take j ++ [text[j]] := (List.take_append_getElem inside).symm
      simp only [List.getElem_zipWith, prefixRow, List.getElem_map, List.getElem_range, step]
      rw [Bool.eq_iff_iff, Bool.and_eq_true, beq_iff_eq, decide_eq_true_iff, decide_eq_true_iff,
        List.append_singleton_inj, and_comm]
      exact and_congr_right fun _ => eq_comm
  rw [prefixRow_eq, nextRow, fillRow_plain star query _ _ _ _ (by simp), ← prefixRow_eq, filled, prefixRow_eq]
  simp [beq_eq_false_iff_ne.mpr star]

theorem foldl_nextRow {pattern : List Char} (plain : ∀ c ∈ pattern, c ≠ '*' ∧ c ≠ '?') (text : List Char) :
    pattern.foldl (nextRow text) (firstRow text) = prefixRow pattern text := by
  induction pattern using List.reverseRecOn with
  | nil =>
      have later : (text.map fun _ => false) = (List.range text.length).map fun j => decide (text.take (j + 1) = []) := by
        apply List.ext_getElem
        · simp
        · intro j left right
          have inside : 0 < text.length := by
            have below : j < text.length := by simpa using left
            omega
          simp [List.length_pos_iff.mp inside]
      rw [List.foldl_nil, firstRow, prefixRow_eq, later]
      simp
  | append_singleton pattern c ih =>
      obtain ⟨star, query⟩ := plain c (by simp)
      rw [List.foldl_concat, ih fun d member => plain d (by simp [member]), nextRow_prefixRow star query]

theorem wildcardMatchChars_plain {pattern : List Char} (plain : ∀ c ∈ pattern, c ≠ '*' ∧ c ≠ '?') (text : List Char) :
    wildcardMatchChars pattern text = true ↔ text = pattern := by
  rw [wildcardMatchChars, foldl_nextRow plain, prefixRow, List.getLast?_map, List.getLast?_range]
  simp

end Filter

/-! ## The tests -/

/-- The text holds no wildcard and nothing else with a meaning in filter expressions. -/
def NoMeta (y : String) : Prop :=
  y.toList.all (fun c => !(['\'', '"', '|', '&', '(', ')', '<', '>', '=', '@', '*', '?'].contains c)) = true ∧
    Filter.NoDots y.toList

instance (y : String) : Decidable (NoMeta y) := inferInstanceAs (Decidable (_ ∧ _))

theorem NoMeta.wildcard_notMem {y : String} (plain : NoMeta y) : '*' ∉ y.toList ∧ '?' ∉ y.toList := by
  constructor
  · intro member
    exact absurd (List.all_eq_true.mp plain.1 '*' member) (by decide)
  · intro member
    exact absurd (List.all_eq_true.mp plain.1 '?' member) (by decide)

/-- The tests give one answer. -/
def Agree (tests : List Prop) : Prop := ∀ p ∈ tests, ∀ q ∈ tests, (p ↔ q)

theorem agree_cons (p : Prop) (tests : List Prop) : Agree (p :: tests) ↔ ∀ q ∈ tests, (p ↔ q) := by
  constructor
  · intro agree q member
    exact agree p (List.mem_cons_self ..) q (List.mem_cons_of_mem _ member)
  · intro first
    have each : ∀ q ∈ p :: tests, (p ↔ q) := List.forall_mem_cons.mpr ⟨Iff.rfl, first⟩
    intro q left r right
    exact (each q left).symm.trans (each r right)

section Tests

variable [CaseMapping] [DecimalSyntax]

/-- Whether the Code value `x` equals `y`: for the primary-key index, SetRange, `=`, the order of the comparison
operators and, where `y` is a literal pattern, SetFilter. -/
def equalTests (x y : String) : List Prop :=
  [(normalizeKeyValue (.code x) == normalizeKeyValue (.code y)) = true,
    (FieldFilter.range (.code y) (.code y)).matches (.code x) = true,
    valuesEqual (.code x) (.text y) = true, valuesEqual (.code x) (.code y) = true,
    valueOrdering (.code x) (.text y) = .ok .eq, valueOrdering (.code x) (.code y) = .ok .eq] ++
  if NoMeta y then [Filter.matchesExpr (.atom (.equals ⟨y, true⟩)) (.code x) = true] else []

/-- Whether the Code value `x` is before `y`, or after it with `.gt`: for the current key, the bounds of SetRange
and SetFilter and the operators `<` and `>`. -/
def orderTests (order : Ordering) (x y : String) : List Prop :=
  let strict (bound : OrderableValue) : FilterAtom := if order = .lt then .lessThan bound else .greaterThan bound
  [compare (normalizeKeyValue (.code x)) (normalizeKeyValue (.code y)) = order,
    fieldCmp (.code x) (.code y) = some order,
    ∃ bound, parseOrderableStr y = some bound ∧ Filter.matchesExpr (.atom (strict bound)) (.code x) = true,
    valueOrdering (.code x) (.text y) = .ok order, valueOrdering (.code x) (.code y) = .ok order]

/-- One caseless rule for the pair. -/
def CaselessRule (x y : String) : Prop :=
  Agree (equalTests x y) ∧ Agree (orderTests .lt x y) ∧ Agree (orderTests .gt x y)

/-- ASCII and full upper case order the texts alike, upper and lower case identify them alike, and `y` does not
read as a number unless it is the same Code as `x`. -/
def OneFolding (x y : String) : Prop :=
  compare (toAsciiUppercase x) (toAsciiUppercase y) = compare (toUppercase x) (toUppercase y) ∧
    (NoMeta y → (toLowercase x = toLowercase y ↔ toUppercase x = toUppercase y)) ∧
    (ReadsAsText y ∨ toUppercase x = toUppercase y)

variable (x y : String)

omit [DecimalSyntax] in
theorem keyCompare_code :
    compare (normalizeKeyValue (.code x)) (normalizeKeyValue (.code y)) = compare (toUppercase x) (toUppercase y) := by
  show Value.compare (.code (toUppercase x)) (.code (toUppercase y)) = _
  simp only [Value.compare]

omit [DecimalSyntax] in
theorem fieldCmp_code : fieldCmp (.code x) (.code y) = some (compare (toUppercase x) (toUppercase y)) := by
  simp [fieldCmp, fieldCmpSet, Value.asDecimal, flowText, isCode]

theorem rangeEqual_iff :
    (FieldFilter.range (.code y) (.code y)).matches (.code x) = true ↔ compare (toUppercase x) (toUppercase y) = .eq := by
  rw [FieldFilter.matches, fieldCmp_code]
  cases compare (toUppercase x) (toUppercase y) <;> simp [Filter.holds]

omit [DecimalSyntax] in
theorem keyEqual_iff : (normalizeKeyValue (.code x) == normalizeKeyValue (.code y)) = true ↔
    compare (toUppercase x) (toUppercase y) = .eq := by
  rw [Value.beq_iff, keyCompare_code]

section Operators

omit [CaseMapping] [DecimalSyntax]

theorem eqIgnoreAsciiCase_iff :
    eqIgnoreAsciiCase x y = true ↔ compare (toAsciiUppercase x) (toAsciiUppercase y) = .eq := by
  rw [eqIgnoreAsciiCase, beq_iff_eq, Std.LawfulEqOrd.compare_eq_iff_eq]

theorem valuesEqual_code_iff :
    valuesEqual (.code x) (.code y) = true ↔ compare (toAsciiUppercase x) (toAsciiUppercase y) = .eq := by
  rw [← eqIgnoreAsciiCase_iff]
  simp [valuesEqual, classifyNumeric]

theorem valuesEqual_text_iff :
    valuesEqual (.code x) (.text y) = true ↔ compare (toAsciiUppercase x) (toAsciiUppercase y) = .eq := by
  rw [Std.OrientedCmp.eq_comm, ← eqIgnoreAsciiCase_iff]
  simp [valuesEqual, classifyNumeric]

theorem valueOrdering_code_iff (order : Ordering) :
    valueOrdering (.code x) (.code y) = .ok order ↔ compare (toAsciiUppercase x) (toAsciiUppercase y) = order := by
  simp [valueOrdering, classifyNumeric]

theorem valueOrdering_text_iff (order : Ordering) :
    valueOrdering (.code x) (.text y) = .ok order ↔ compare (toAsciiUppercase x) (toAsciiUppercase y) = order := by
  simp [valueOrdering, classifyNumeric]

end Operators

theorem filterEqual_iff (plain : NoMeta y) :
    Filter.matchesExpr (.atom (.equals ⟨y, true⟩)) (.code x) = true ↔ toLowercase x = toLowercase y := by
  have lower : ∀ c ∈ CaseMapping.lowerText y.toList, c ≠ '*' ∧ c ≠ '?' := by
    intro c member
    constructor
    · rintro rfl
      exact plain.wildcard_notMem.1 (CaseMapping.lower_wildcard _ _ (by simp) member)
    · rintro rfl
      exact plain.wildcard_notMem.2 (CaseMapping.lower_wildcard _ _ (by simp) member)
  have matching : Filter.matchesExpr (.atom (.equals ⟨y, true⟩)) (.code x) = Filter.wildcardMatch y x true := by
    simp [Filter.matchesExpr, Filter.atomMatches, Filter.patternMatches, Filter.valueToFilterString, Filter.caselessCell]
  rw [matching, Filter.wildcardMatch, if_pos rfl, toLowercase, toLowercase, String.toList_ofList, String.toList_ofList,
    Filter.wildcardMatchChars_plain lower]
  constructor
  · intro same
    rw [same]
  · intro same
    simpa using congrArg String.toList same

/-- A SetFilter bound that reads as a number has no Code value on either side. -/
theorem filterOrder_iff (order : Ordering) (strict : order = .lt ∨ order = .gt) :
    (∃ bound, parseOrderableStr y = some bound ∧
      Filter.matchesExpr (.atom (if order = .lt then .lessThan bound else .greaterThan bound)) (.code x) = true) ↔
    ReadsAsText y ∧ compare (toUppercase x) (toUppercase y) = order := by
  by_cases text : ReadsAsText y
  · rw [parseOrderableStr_text text]
    rcases strict with rfl | rfl <;> cases order : compare (toUppercase x) (toUppercase y) <;>
      simp [text, Filter.matchesExpr, Filter.atomMatches, Filter.cmpValue, Filter.holds, order]
  · obtain ⟨bound, read, apart⟩ := parseOrderableStr_number text
    rw [read]
    rcases strict with rfl | rfl <;> simp [text, Filter.matchesExpr, Filter.atomMatches, apart, Filter.holds]

theorem equalTests_agree_iff :
    Agree (equalTests x y) ↔
      (compare (toUppercase x) (toUppercase y) = .eq ↔ compare (toAsciiUppercase x) (toAsciiUppercase y) = .eq) ∧
      (NoMeta y → (compare (toUppercase x) (toUppercase y) = .eq ↔ toLowercase x = toLowercase y)) := by
  rw [equalTests, List.cons_append, agree_cons]
  by_cases plain : NoMeta y
  · simp only [if_pos plain, List.cons_append, List.nil_append, List.forall_mem_cons, keyEqual_iff, rangeEqual_iff,
      valuesEqual_code_iff, valuesEqual_text_iff, valueOrdering_code_iff, valueOrdering_text_iff,
      filterEqual_iff x y plain]
    simp [plain]
  · simp only [if_neg plain, List.cons_append, List.nil_append, List.forall_mem_cons, keyEqual_iff, rangeEqual_iff,
      valuesEqual_code_iff, valuesEqual_text_iff, valueOrdering_code_iff, valueOrdering_text_iff]
    simp [plain]

theorem orderTests_agree_iff (order : Ordering) (strict : order = .lt ∨ order = .gt) :
    Agree (orderTests order x y) ↔
      (compare (toUppercase x) (toUppercase y) = order ↔ compare (toAsciiUppercase x) (toAsciiUppercase y) = order) ∧
      (compare (toUppercase x) (toUppercase y) = order → ReadsAsText y) := by
  rw [orderTests, agree_cons]
  simp only [List.forall_mem_cons, keyCompare_code, fieldCmp_code, Option.some.injEq, valueOrdering_code_iff,
    valueOrdering_text_iff, filterOrder_iff x y order strict]
  simp only [List.not_mem_nil, false_implies, implies_true, and_true]
  constructor
  · rintro ⟨_, filter, operator, _⟩
    exact ⟨operator, fun before => (filter.mp before).1⟩
  · rintro ⟨operator, text⟩
    exact ⟨trivial, ⟨fun before => ⟨text before, before⟩, And.right⟩, operator, operator⟩

theorem caselessRule_iff : CaselessRule x y ↔ OneFolding x y := by
  rw [CaselessRule, equalTests_agree_iff, orderTests_agree_iff x y .lt (.inl rfl), orderTests_agree_iff x y .gt (.inr rfl),
    OneFolding]
  have upper : toUppercase x = toUppercase y ↔ compare (toUppercase x) (toUppercase y) = .eq :=
    Std.LawfulEqOrd.compare_eq_iff_eq.symm
  rw [upper]
  cases compare (toUppercase x) (toUppercase y) <;> cases compare (toAsciiUppercase x) (toAsciiUppercase y) <;>
    simp [iff_comm]

/-! ## ASCII texts -/

omit [DecimalSyntax] in
theorem toUppercase_ascii {s : String} (ascii : ∀ c ∈ s.toList, c.toNat < 128) : toUppercase s = toAsciiUppercase s := by
  have each (text : List Char) (small : ∀ c ∈ text, c.toNat < 128) :
      text.flatMap CaseMapping.upperChar = text.map Char.toUpper := by
    induction text with
    | nil => rfl
    | cons c rest ih =>
        obtain ⟨first, later⟩ := List.forall_mem_cons.mp small
        rw [List.flatMap_cons, List.map_cons, CaseMapping.upper_ascii c first, ih later, List.singleton_append]
  rw [toUppercase, toAsciiUppercase, each s.toList ascii]

omit [DecimalSyntax] in
/-- Upper and lower case of ASCII determine each other. -/
theorem toLowercase_eq_iff_ascii {x y : String} (asciiX : ∀ c ∈ x.toList, c.toNat < 128)
    (asciiY : ∀ c ∈ y.toList, c.toNat < 128) :
    toLowercase x = toLowercase y ↔ toAsciiUppercase x = toAsciiUppercase y := by
  have lowered : ∀ n < 128, (Char.ofNat n).toUpper.toLower = (Char.ofNat n).toLower := by decide +kernel
  have raised : ∀ n < 128, (Char.ofNat n).toLower.toUpper = (Char.ofNat n).toUpper := by decide +kernel
  have back (text : List Char) (small : ∀ c ∈ text, c.toNat < 128) :
      (text.map Char.toUpper).map Char.toLower = text.map Char.toLower ∧
        (text.map Char.toLower).map Char.toUpper = text.map Char.toUpper := by
    constructor
    · rw [List.map_map]
      apply List.map_congr_left
      intro c member
      have here := lowered c.toNat (small c member)
      rwa [Char.ofNat_toNat] at here
    · rw [List.map_map]
      apply List.map_congr_left
      intro c member
      have here := raised c.toNat (small c member)
      rwa [Char.ofNat_toNat] at here
  rw [toLowercase, toLowercase, toAsciiUppercase, toAsciiUppercase, CaseMapping.lower_ascii _ asciiX,
    CaseMapping.lower_ascii _ asciiY, String.ofList_inj, String.ofList_inj]
  constructor
  · intro same
    rw [← (back _ asciiX).2, same, (back _ asciiY).2]
  · intro same
    rw [← (back _ asciiX).1, same, (back _ asciiY).1]

/-- ASCII texts of which the second is no number are folded in one way. -/
theorem oneFolding_ascii {x y : String} (asciiX : ∀ c ∈ x.toList, c.toNat < 128) (asciiY : ∀ c ∈ y.toList, c.toNat < 128)
    (text : ReadsAsText y) : OneFolding x y := by
  rw [OneFolding, toUppercase_ascii asciiX, toUppercase_ascii asciiY]
  exact ⟨rfl, fun _ => toLowercase_eq_iff_ascii asciiX asciiY, .inl text⟩

end Tests

section Example

local instance latinCode : CaseMapping := .latin1

local instance plainCode : DecimalSyntax := .plain

/-- The key index finds é under É, the `=` operator does not. -/
theorem caselessRule_fails_accent : ¬CaselessRule "é" "É" := by
  rintro ⟨equal, -⟩
  have operator := equal _ (show (normalizeKeyValue (.code "é") == normalizeKeyValue (.code "É")) = true ∈ _ by
    simp [equalTests]) _ (show valuesEqual (.code "é") (.code "É") = true ∈ _ by simp [equalTests])
  exact absurd (operator.mp (by decide +kernel)) (by decide +kernel)

end Example

end AlLanguage.Runtime
