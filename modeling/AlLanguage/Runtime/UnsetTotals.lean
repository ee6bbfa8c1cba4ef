import AlLanguage.Runtime.FlowFields
import AlLanguage.Runtime.NumberText

/-!
# Unset cells in aggregates

Storing the default of a field in cells that were never assigned: which aggregates of the field can tell.
-/

namespace AlLanguage.Runtime

open Library DecimalArithmetic

/-! ## Lists with zeros in them -/

/-- The second list is the first one with zeros between its members. -/
inductive Padded {α : Type} (zero : α) : List α → List α → Prop where
  | nil : Padded zero [] []
  | keep (a : α) {as bs : List α} : Padded zero as bs → Padded zero (a :: as) (a :: bs)
  | pad {as bs : List α} : Padded zero as bs → Padded zero as (zero :: bs)

namespace Padded

variable {α β : Type} {zero : α} {as bs : List α}

theorem refl (zero : α) (as : List α) : Padded zero as as := by
  induction as with
  | nil => exact .nil
  | cons a rest ih => exact .keep a ih

theorem filterMap_none (padded : Padded zero as bs) {f : α → Option β} (none : f zero = none) :
    bs.filterMap f = as.filterMap f := by
  induction padded with
  | nil => rfl
  | keep a _ ih => simp only [List.filterMap_cons, ih]
  | pad _ ih => rw [List.filterMap_cons_none none, ih]

theorem filterMap_some (padded : Padded zero as bs) {f : α → Option β} {z : β} (some_ : f zero = some z) :
    Padded z (as.filterMap f) (bs.filterMap f) := by
  induction padded with
  | nil => exact .nil
  | keep a _ ih =>
      rw [List.filterMap_cons, List.filterMap_cons]
      split
      · exact ih
      · exact .keep _ ih
  | pad _ ih =>
      rw [List.filterMap_cons_some some_]
      exact .pad ih

theorem head (padded : Padded zero as bs) : bs.head? = as.head? ∨ bs.head? = some zero := by
  cases padded with
  | nil => exact .inl rfl
  | keep => exact .inl rfl
  | pad => exact .inr rfl

theorem length_le (padded : Padded zero as bs) : as.length ≤ bs.length := by
  induction padded with
  | nil => exact Nat.le_refl 0
  | keep _ _ ih => exact Nat.succ_le_succ ih
  | pad _ ih => exact Nat.le_succ_of_le ih

/-- Two loops, the second one over the padded list, end alike if each step keeps them alike. -/
theorem foldlM {σ ε : Type} (padded : Padded zero as bs) {f : σ → α → Except ε σ} {rel : σ → σ → Prop}
    (step : ∀ s t a, rel s t →
      (∃ e, f s a = .error e ∧ f t a = .error e) ∨ ∃ s' t', f s a = .ok s' ∧ f t a = .ok t' ∧ rel s' t')
    (skip : ∀ s t, rel s t → ∃ t', f t zero = .ok t' ∧ rel s t') {s t : σ} (start : rel s t) :
    (∃ e, as.foldlM f s = .error e ∧ bs.foldlM f t = .error e) ∨
      ∃ s' t', as.foldlM f s = .ok s' ∧ bs.foldlM f t = .ok t' ∧ rel s' t' := by
  induction padded generalizing s t with
  | nil => exact .inr ⟨s, t, rfl, rfl, start⟩
  | keep a _ ih =>
      rw [List.foldlM_cons, List.foldlM_cons]
      rcases step s t a start with ⟨e, left, right⟩ | ⟨s', t', left, right, later⟩
      · rw [left, right]
        exact .inl ⟨e, rfl, rfl⟩
      · rw [left, right]
        exact ih later
  | pad _ ih =>
      rw [List.foldlM_cons]
      obtain ⟨t', right, later⟩ := skip s t start
      rw [right]
      exact ih later

end Padded

/-! ## Results -/

/-- The same error, or values that are the same or the same number. -/
def SameNumber (left right : Except RecordError Value) : Prop :=
  left = right ∨ ∃ v w a b, left = .ok v ∧ right = .ok w ∧ v.asDecimal = some a ∧ w.asDecimal = some b ∧ a.units = b.units

/-- The value counts as nothing in a sum. -/
def ZeroValue (zero : Value) : Prop := ∀ d, zero.asDecimal = some d → d.units = 0

instance (zero : Value) : Decidable (ZeroValue zero) :=
  match number : zero.asDecimal with
  | none => .isTrue fun d some_ => by rw [number] at some_; cases some_
  | some d => decidable_of_iff (d.units = 0) (by simp [ZeroValue, number])

section Arithmetic

variable [DecimalArithmetic] [LawfulDecimalArithmetic]

omit [DecimalArithmetic] [LawfulDecimalArithmetic] in
theorem orOverflow_same (aggregate : String) {a b : Option Decimal} (same : a.map Decimal.units = b.map Decimal.units) :
    (∃ e, orOverflow aggregate a = .error e ∧ orOverflow aggregate b = .error e) ∨
      ∃ d d', orOverflow aggregate a = .ok d ∧ orOverflow aggregate b = .ok d' ∧ d.units = d'.units := by
  cases a with
  | none =>
      cases b with
      | none => exact .inl ⟨_, rfl, rfl⟩
      | some => cases same
  | some d =>
      cases b with
      | none => cases same
      | some d' => exact .inr ⟨d, d', rfl, rfl, Option.some.inj same⟩

theorem add_zero_units (a b : Decimal) (zero : b.units = 0) : ∃ d, checkedAdd a b = some d ∧ d.units = a.units := by
  have exact_ := LawfulDecimalArithmetic.add_exact a b a (by rw [zero, add_zero])
  obtain ⟨d, found, units⟩ := Option.map_eq_some_iff.mp exact_
  exact ⟨d, found, units⟩

/-! ## Sums -/

/-- The sums of two loops over cells, the second of which has met more zeros. -/
structure SumsAlike (s t : CellSum) : Prop where
  int : s.int = t.int
  dec : s.dec.units = t.dec.units
  whole : s.anyDecimal = false → s.dec.units = (Decimal.ofInt64 s.int).units
  any : s.anyDecimal = true → t.anyDecimal = true

omit [DecimalArithmetic] [LawfulDecimalArithmetic] in
theorem units_ofInt64 (n : Int64) : (Decimal.ofInt64 n).units = n.toInt * 10 ^ 28 := rfl

theorem sums_step (s t : CellSum) (cell : Value) (alike : SumsAlike s t) :
    (∃ e, s.add cell = .error e ∧ t.add cell = .error e) ∨
      ∃ s' t', s.add cell = .ok s' ∧ t.add cell = .ok t' ∧ SumsAlike s' t' := by
  have integer (n : Int64) : (∃ e, s.add (.integer n) = .error e ∧ t.add (.integer n) = .error e) ∨
      ∃ s' t', s.add (.integer n) = .ok s' ∧ t.add (.integer n) = .ok t' ∧ SumsAlike s' t' := by
    simp only [CellSum.add, ← alike.int]
    cases summed : checkedAddI64 s.int n with
    | none => exact .inl ⟨_, rfl, rfl⟩
    | some int =>
        rcases orOverflow_same "Sum" (LawfulDecimalArithmetic.add_congr s.dec (.ofInt64 n) t.dec _ alike.dec rfl) with
          ⟨e, left, right⟩ | ⟨d, d', left, right, units⟩
        · refine .inl ⟨e, ?_, ?_⟩
          · rw [left]; rfl
          · rw [right]; rfl
        · refine .inr ⟨{ s with int, dec := d }, { t with int, dec := d' }, ?_, ?_, rfl, units, ?_, alike.any⟩
          · rw [left]; rfl
          · rw [right]; rfl
          · intro whole
            have total : int.toInt = s.int.toInt + n.toInt := i64OfInt_some summed
            have before := alike.whole whole
            have exact_ : (Decimal.ofInt64 int).units = s.dec.units + (Decimal.ofInt64 n).units := by
              rw [before, units_ofInt64, units_ofInt64, units_ofInt64, total]
              ring
            have here := LawfulDecimalArithmetic.add_exact _ _ _ exact_
            unfold orOverflow at left
            split at left
            next d'' found =>
              cases left
              rw [found] at here
              exact Option.some.inj here
            next => cases left
  have decimal (d : Decimal) : (∃ e, s.add (.decimal d) = .error e ∧ t.add (.decimal d) = .error e) ∨
      ∃ s' t', s.add (.decimal d) = .ok s' ∧ t.add (.decimal d) = .ok t' ∧ SumsAlike s' t' := by
    simp only [CellSum.add]
    rcases orOverflow_same "Sum" (LawfulDecimalArithmetic.add_congr s.dec d t.dec d alike.dec rfl) with
      ⟨e, left, right⟩ | ⟨a, b, left, right, units⟩
    · refine .inl ⟨e, ?_, ?_⟩
      · rw [left]; rfl
      · rw [right]; rfl
    · refine .inr ⟨{ s with dec := a, anyDecimal := true }, { t with dec := b, anyDecimal := true }, ?_, ?_, alike.int,
        units, ?_, fun _ => rfl⟩
      · rw [left]; rfl
      · rw [right]; rfl
      · intro none
        cases none
  cases cell with
  | integer n => exact integer n
  | bigInteger n => exact integer n
  | decimal d => exact decimal d
  | _ => exact .inr ⟨s, t, rfl, rfl, alike⟩

theorem sums_skip {zero : Value} (nothing : ZeroValue zero) (s t : CellSum) (alike : SumsAlike s t) :
    ∃ t', t.add zero = .ok t' ∧ SumsAlike s t' := by
  have integer {n : Int64} (none : (Decimal.ofInt64 n).units = 0) :
      ∃ t', t.add (.integer n) = .ok t' ∧ SumsAlike s t' := by
    have zero : n.toInt = 0 := by
      rw [units_ofInt64] at none
      omega
    obtain ⟨d, added, units⟩ := add_zero_units t.dec (.ofInt64 n) none
    have int : checkedAddI64 t.int n = some t.int := by
      rw [checkedAddI64, zero, add_zero, i64OfInt_toInt]
    refine ⟨{ t with dec := d }, ?_, alike.int, alike.dec.trans units.symm, alike.whole, alike.any⟩
    simp only [CellSum.add, int, added]
    rfl
  cases zero with
  | integer n => exact integer (nothing _ rfl)
  | bigInteger n => exact integer (nothing _ rfl)
  | decimal d =>
      obtain ⟨e, added, units⟩ := add_zero_units t.dec d (nothing d rfl)
      refine ⟨{ t with dec := e, anyDecimal := true }, ?_, alike.int, alike.dec.trans units.symm, alike.whole, fun _ => rfl⟩
      simp only [CellSum.add, added]
      rfl
  | _ => exact ⟨t, rfl, alike⟩

/-- Zeros change no sum. -/
theorem sumCells_padded {zero : Value} (nothing : ZeroValue zero) {cells filled : List Value}
    (padded : Padded zero cells filled) : SameNumber (sumCells cells) (sumCells filled) := by
  have start : SumsAlike .start .start := ⟨rfl, rfl, fun _ => rfl, fun any => any⟩
  rcases padded.foldlM sums_step (sums_skip nothing) start with ⟨e, left, right⟩ | ⟨s, t, left, right, alike⟩
  · left
    rw [sumCells, sumCells, left, right]
  · right
    refine ⟨s.total, t.total, if s.anyDecimal then s.dec else .ofInt64 s.int, if t.anyDecimal then t.dec else .ofInt64 t.int,
      ?_, ?_, ?_, ?_, ?_⟩
    · rw [sumCells, left]; rfl
    · rw [sumCells, right]; rfl
    · unfold CellSum.total
      split <;> rfl
    · unfold CellSum.total
      split <;> rfl
    · cases any : s.anyDecimal with
      | true =>
          rw [alike.any any]
          exact alike.dec
      | false =>
          have whole := alike.whole any
          cases t.anyDecimal with
          | true => exact whole.symm.trans alike.dec
          | false =>
              rw [← alike.int]
              rfl

/-! ## Averages -/

/-- The loop of the average over numbers. -/
def addNumber (sum value : Decimal) : Except RecordError Decimal := orOverflow "Average" (checkedAdd sum value)

omit [DecimalArithmetic] [LawfulDecimalArithmetic] in
theorem ofUsize_units {n : Nat} (positive : 0 < n) (small : n < 2 ^ 64) : (Decimal.ofUsize n).units ≠ 0 := by
  have here : (Decimal.ofUsize n).units = ((n % 2 ^ 64 : Nat) : Int) * 10 ^ 28 := rfl
  rw [here, Nat.mod_eq_of_lt small]
  omega

/-- A sum of nothing has the average zero. -/
theorem averageCells_zero {cells : List Value} (small : cells.length < 2 ^ 64) {sum : Decimal}
    (summed : (cells.filterMap Value.asDecimal).foldlM addNumber .zero = .ok sum) (zero : sum.units = 0) :
    ∃ d, averageCells cells = .ok (.decimal d) ∧ d.units = 0 := by
  unfold averageCells
  split
  next => exact ⟨.zero, rfl, rfl⟩
  next nums nonempty =>
    have long := List.length_filterMap_le Value.asDecimal cells
    have divisor := ofUsize_units (List.length_pos_iff.mpr nonempty) (long.trans_lt small)
    obtain ⟨d, divided, units⟩ := Option.map_eq_some_iff.mp (LawfulDecimalArithmetic.zero_div sum _ zero divisor)
    refine ⟨d, ?_, units⟩
    have loop : (cells.filterMap Value.asDecimal).foldlM (fun sum value => orOverflow "Average" (checkedAdd sum value)) .zero =
        .ok sum := summed
    rw [loop]
    simp only [bind, Except.bind, divided]
    rfl

omit [LawfulDecimalArithmetic] in
theorem averageCells_error {cells : List Value} {e : RecordError}
    (failed : (cells.filterMap Value.asDecimal).foldlM addNumber .zero = .error e) : averageCells cells = .error e := by
  unfold averageCells
  split
  next empty =>
    rw [empty] at failed
    cases failed
  next nums nonempty =>
    have loop : (cells.filterMap Value.asDecimal).foldlM (fun sum value => orOverflow "Average" (checkedAdd sum value)) .zero =
        .error e := failed
    rw [loop]
    rfl

/-- Zeros change no average of numbers that add up to zero. -/
theorem averageCells_padded {zero : Value} (nothing : ZeroValue zero) {cells filled : List Value}
    (padded : Padded zero cells filled) (small : filled.length < 2 ^ 64)
    (kept : zero.asDecimal = none ∨ cells = filled ∨
      ∀ sum, (cells.filterMap Value.asDecimal).foldlM addNumber .zero = .ok sum → sum.units = 0) :
    SameNumber (averageCells cells) (averageCells filled) := by
  rcases kept with none | same | cancels
  · left
    rw [averageCells, averageCells, padded.filterMap_none none]
  · left
    rw [same]
  · cases number : zero.asDecimal with
    | none =>
        left
        rw [averageCells, averageCells, padded.filterMap_none number]
    | some z =>
        have nums := padded.filterMap_some number
        have step (s t a : Decimal) (alike : s.units = t.units) :
            (∃ e, addNumber s a = .error e ∧ addNumber t a = .error e) ∨
              ∃ s' t', addNumber s a = .ok s' ∧ addNumber t a = .ok t' ∧ s'.units = t'.units :=
          orOverflow_same "Average" (LawfulDecimalArithmetic.add_congr s a t a alike rfl)
        have skip (s t : Decimal) (alike : s.units = t.units) : ∃ t', addNumber t z = .ok t' ∧ s.units = t'.units := by
          obtain ⟨d, added, units⟩ := add_zero_units t z (nothing z number)
          refine ⟨d, ?_, alike.trans units.symm⟩
          rw [addNumber, added]
          rfl
        rcases nums.foldlM step skip (s := .zero) (t := .zero) rfl with ⟨e, left, right⟩ | ⟨s, t, left, right, alike⟩
        · exact .inl ((averageCells_error left).trans (averageCells_error right).symm)
        · have none := cancels s left
          obtain ⟨a, first, units⟩ := averageCells_zero (padded.length_le.trans_lt small) left none
          obtain ⟨b, second, units'⟩ := averageCells_zero small right (alike ▸ none)
          exact .inr ⟨_, _, a, b, first, second, rfl, rfl, units.trans units'.symm⟩

end Arithmetic

/-! ## Rows -/

/-- The row, with the default in its unset target cell if it is picked. -/
def filledRow (target : FieldNo) (zero : Value) (pick : Bool) (row : Row) : Row :=
  if (row.get? target).isNone && pick then row.insert target zero else row

section Rows

variable {target : FieldNo} {zero : Value}

theorem filledRow_set {pick : Bool} {row : Row} {value : Value} (set : row.get? target = some value) :
    filledRow target zero pick row = row := by
  rw [filledRow, set]
  rfl

theorem filledRow_unset (pick : Bool) {row : Row} (unset : row.get? target = none) :
    filledRow target zero pick row = if pick then row.insert target zero else row := by
  rw [filledRow, unset]
  rfl

/-- Whatever is selected, the target cells of the rows get zeros between them. -/
theorem cells_padded (selects : Row → Bool) (rows : List (PrimaryKey × Row)) (chosen : PrimaryKey → Row → Bool) :
    Padded zero (((rows.map (·.2)).filter selects).filterMap (·.get? target))
      (((rows.map fun e => filledRow target zero (chosen e.1 e.2) e.2).filter selects).filterMap (·.get? target)) := by
  induction rows with
  | nil => exact .nil
  | cons e rest ih =>
      rw [List.map_cons, List.map_cons, List.filter_cons, List.filter_cons]
      cases cell : e.2.get? target with
      | some value =>
          rw [filledRow_set cell]
          split
          · simp only [List.filterMap_cons, cell]
            exact .keep value ih
          · exact ih
      | none =>
          have before : (if selects e.2 = true then e.2 :: (rest.map (·.2)).filter selects
              else (rest.map (·.2)).filter selects).filterMap (·.get? target) =
                ((rest.map (·.2)).filter selects).filterMap (·.get? target) := by
            split
            · simp only [List.filterMap_cons, cell]
            · rfl
          rw [before, filledRow_unset _ cell]
          by_cases picked : chosen e.1 e.2 = true
          · rw [if_pos picked]
            split
            · simp only [List.filterMap_cons, OrderedMap.get?_insert_self]
              exact .pad ih
            · exact ih
          · rw [if_neg picked]
            split
            · simp only [List.filterMap_cons, cell]
              exact ih
            · exact ih

/-- The cells with the default in the unset ones are the same after filling. -/
theorem filledRow_or (pick : Bool) (row : Row) :
    ((filledRow target zero pick row).get? target).or (some zero) = (row.get? target).or (some zero) := by
  cases cell : row.get? target with
  | some value => rw [filledRow_set cell, cell]
  | none =>
      rw [filledRow_unset pick cell]
      split
      · rw [row.get?_insert_self target zero]
        rfl
      · rw [cell]

end Rows

namespace MockRecord

/-- The default of the field in the chosen ones of its unset cells. -/
def fillTarget (table : MockRecord) (target : FieldNo) (chosen : PrimaryKey → Row → Bool) : MockRecord :=
  match table.fieldDefaults.get? target with
  | none => table
  | some zero => { table with rows := table.rows.mapValues fun key row => filledRow target zero (chosen key row) row }

section Aggregates

variable [CaseMapping] [DecimalSyntax] (table : MockRecord) (conditions : List (FieldNo × FlowFilter)) (target : FieldNo)
  (zero : Value)

/-- The conditions treat an unset cell as they treat the default. -/
def SelectsAlike : Prop :=
  ∀ row ∈ table.rows.values, row.get? target = none → selectsRow conditions (row.insert target zero) = selectsRow conditions row

/-- The first selected row has its cell, or the first cell there is holds the default. -/
def FirstAlike : Prop :=
  ∀ row, (table.rows.values.filter (selectsRow conditions)).head? = some row → row.get? target = none →
    (((table.rows.values.filter (selectsRow conditions)).filterMap (·.get? target)).head?.getD .empty) = zero

/-- The numbers of the selected cells add up to zero, or all selected rows have a cell, or the default is no number. -/
def AverageAlike [DecimalArithmetic] : Prop :=
  zero.asDecimal = none ∨ (∀ row ∈ table.rows.values, selectsRow conditions row = true → row.get? target ≠ none) ∨
    ∀ sum, (((table.rows.values.filter (selectsRow conditions)).filterMap (·.get? target)).filterMap
      Value.asDecimal).foldlM addNumber .zero = .ok sum → sum.units = 0

variable {table conditions target zero} (declared : table.fieldDefaults.get? target = some zero)

include declared

omit [CaseMapping] [DecimalSyntax] in
theorem fillTarget_values (chosen : PrimaryKey → Row → Bool) :
    (table.fillTarget target chosen).rows.values =
      table.rows.entries.map fun e => filledRow target zero (chosen e.1 e.2) e.2 := by
  rw [fillTarget, declared]
  simp only [OrderedMap.values, OrderedMap.mapValues_entries, List.map_map]
  rfl

omit [CaseMapping] [DecimalSyntax] in
theorem fillTarget_defaults (chosen : PrimaryKey → Row → Bool) :
    (table.fillTarget target chosen).fieldDefaults = table.fieldDefaults := by
  rw [fillTarget, declared]

/-- Where the conditions make no difference, the rows that are selected are those that were. -/
theorem selected_filled (alike : table.SelectsAlike conditions target zero) (chosen : PrimaryKey → Row → Bool) :
    (table.fillTarget target chosen).rows.values.filter (selectsRow conditions) =
      (table.rows.entries.filter fun e => selectsRow conditions e.2).map
        fun e => filledRow target zero (chosen e.1 e.2) e.2 := by
  rw [fillTarget_values declared, List.filter_map]
  congr 1
  apply List.filter_congr
  intro e member
  rw [Function.comp_apply]
  cases cell : e.2.get? target with
  | some value => rw [filledRow_set cell]
  | none =>
      rw [filledRow_unset _ cell]
      split
      · exact alike e.2 (List.mem_map_of_mem member) cell
      · rfl

omit [CaseMapping] [DecimalSyntax] declared in
theorem selected_values (selects : Row → Bool) :
    table.rows.values.filter selects = (table.rows.entries.filter fun e => selects e.2).map (·.2) := by
  rw [OrderedMap.values, List.filter_map]
  rfl

omit [CaseMapping] [DecimalSyntax] in
theorem padded_cells (selects : Row → Bool) (chosen : PrimaryKey → Row → Bool) :
    Padded zero ((table.rows.values.filter selects).filterMap (·.get? target))
      (((table.fillTarget target chosen).rows.values.filter selects).filterMap (·.get? target)) := by
  rw [fillTarget_values declared]
  exact cells_padded selects table.rows.entries chosen

variable [DecimalArithmetic]

section Arithmetic

variable [LawfulDecimalArithmetic]

/-- Sums never tell a stored default from an unset cell. -/
theorem calcFlow_sum_filled (nothing : ZeroValue zero) (chosen : PrimaryKey → Row → Bool) :
    SameNumber (table.calcFlow conditions (some target) .sum)
      ((table.fillTarget target chosen).calcFlow conditions (some target) .sum) :=
  sumCells_padded nothing (padded_cells declared (selectsRow conditions) chosen)

omit [LawfulDecimalArithmetic] [CaseMapping] [DecimalSyntax] [DecimalArithmetic] declared in
/-- The result of CalcSums in the type of the field. -/
theorem sameNumber_declared {left right : Except RecordError Value} (same : SameNumber left right) (f : Value → Value)
    (number : ∀ v d, v.asDecimal = some d → ∃ d', (f v).asDecimal = some d' ∧ d'.units = d.units) :
    SameNumber (left.map f) (right.map f) := by
  rcases same with same | ⟨v, w, a, b, rfl, rfl, left, right, units⟩
  · rw [same]
    exact .inl rfl
  · obtain ⟨a', left', units'⟩ := number v a left
    obtain ⟨b', right', units''⟩ := number w b right
    exact .inr ⟨f v, f w, a', b', rfl, rfl, left', right', by rw [units', units'', units]⟩

/-- A total of whole cells counts as a Decimal where the field's default is one. -/
def inType (table : MockRecord) (target : FieldNo) : Value → Value
  | .integer n => if (table.fieldDefaults.get? target matches some (.decimal _) : Bool) then .decimal (.ofInt64 n) else .integer n
  | other => other

theorem calcSumIn_filled (nothing : ZeroValue zero) (view : RecordView) (chosen : PrimaryKey → Row → Bool) :
    SameNumber (table.calcSumIn view target) ((table.fillTarget target chosen).calcSumIn view target) := by
  have mapped (t : MockRecord) (defaults : t.fieldDefaults = table.fieldDefaults) : t.calcSumIn view target =
      (sumCells ((t.rows.values.filter (rowMatchesFilters view.filters)).filterMap (·.get? target))).map (table.inType target) := by
    unfold calcSumIn
    rw [defaults]
    cases sumCells ((t.rows.values.filter (rowMatchesFilters view.filters)).filterMap (·.get? target)) with
    | error e => rfl
    | ok total => cases total <;> rfl
  rw [mapped table rfl, mapped _ (fillTarget_defaults declared chosen)]
  apply sameNumber_declared (sumCells_padded nothing (padded_cells declared (rowMatchesFilters view.filters) chosen))
  intro v d number
  cases v <;> cases number
  · dsimp only [inType]
    split <;> exact ⟨_, rfl, rfl⟩
  · exact ⟨_, rfl, rfl⟩
  · exact ⟨_, rfl, rfl⟩

theorem calcFlow_average_filled (nothing : ZeroValue zero) (small : table.rows.entries.length < 2 ^ 63)
    (alike : table.SelectsAlike conditions target zero) (average : table.AverageAlike conditions target zero)
    (chosen : PrimaryKey → Row → Bool) :
    SameNumber (table.calcFlow conditions (some target) .average)
      ((table.fillTarget target chosen).calcFlow conditions (some target) .average) := by
  apply averageCells_padded nothing (padded_cells declared (selectsRow conditions) chosen)
  · have cells := List.length_filterMap_le (·.get? target)
      ((table.fillTarget target chosen).rows.values.filter (selectsRow conditions))
    have rows := List.length_filter_le (selectsRow conditions) (table.fillTarget target chosen).rows.values
    rw [fillTarget_values declared, List.length_map] at rows
    rw [fillTarget_values declared] at cells ⊢
    exact (cells.trans rows).trans_lt (small.trans (by decide))
  · rcases average with none | assigned | cancels
    · exact .inl none
    · right; left
      rw [selected_filled declared alike, selected_values, List.filterMap_map, List.filterMap_map]
      apply List.filterMap_congr
      intro e member
      obtain ⟨listed, selected⟩ := List.mem_filter.mp member
      obtain ⟨value, set⟩ := Option.ne_none_iff_exists'.mp (assigned e.2 (List.mem_map_of_mem listed) selected)
      rw [Function.comp_apply, Function.comp_apply, filledRow_set set]
    · exact .inr (.inr cancels)

end Arithmetic

/-! ## The other aggregates -/

theorem calcFlow_count_filled (alike : table.SelectsAlike conditions target zero) (chosen : PrimaryKey → Row → Bool) :
    table.calcFlow conditions (some target) .count =
      (table.fillTarget target chosen).calcFlow conditions (some target) .count := by
  have length : ((table.fillTarget target chosen).rows.values.filter (selectsRow conditions)).length =
      (table.rows.values.filter (selectsRow conditions)).length := by
    rw [selected_filled declared alike, selected_values, List.length_map, List.length_map]
  unfold calcFlow
  dsimp only
  rw [length]

theorem calcFlow_exist_filled (alike : table.SelectsAlike conditions target zero) (chosen : PrimaryKey → Row → Bool) :
    table.calcFlow conditions (some target) .exist =
      (table.fillTarget target chosen).calcFlow conditions (some target) .exist := by
  unfold calcFlow
  dsimp only
  rw [selected_filled declared alike, selected_values, List.isEmpty_map, List.isEmpty_map]

/-- Min and Max take the default for an unset cell. -/
theorem calcFlow_best_filled (alike : table.SelectsAlike conditions target zero) (chosen : PrimaryKey → Row → Bool)
    {agg : FlowAgg} (best : agg = .min ∨ agg = .max) :
    table.calcFlow conditions (some target) agg =
      (table.fillTarget target chosen).calcFlow conditions (some target) agg := by
  have cells : ((table.fillTarget target chosen).rows.values.filter (selectsRow conditions)).filterMap
        (fun row => (row.get? target).or (some zero)) =
      (table.rows.values.filter (selectsRow conditions)).filterMap fun row => (row.get? target).or (some zero) := by
    rw [selected_filled declared alike, selected_values, List.filterMap_map, List.filterMap_map]
    apply List.filterMap_congr
    intro e _
    exact filledRow_or _ e.2
  unfold calcFlow
  simp only [Option.bind_some, fillTarget_defaults declared, declared]
  rcases best with rfl | rfl
  · rw [cells]
  · rw [cells]

theorem calcFlow_lookup_filled (alike : table.SelectsAlike conditions target zero)
    (first : table.FirstAlike conditions target zero) (chosen : PrimaryKey → Row → Bool) :
    table.calcFlow conditions (some target) .lookup =
      (table.fillTarget target chosen).calcFlow conditions (some target) .lookup := by
  have padded := padded_cells declared (selectsRow conditions) chosen
  have found : ∀ t : MockRecord, t.calcFlow conditions (some target) .lookup =
      .ok (((t.rows.values.filter (selectsRow conditions)).filterMap (·.get? target)).head?.getD .empty) := fun _ => rfl
  rw [found, found]
  congr 1
  cases entries : table.rows.entries.filter fun e => selectsRow conditions e.2 with
  | nil => rw [selected_filled declared alike, selected_values, entries]; rfl
  | cons e rest =>
      have selected : table.rows.values.filter (selectsRow conditions) = e.2 :: rest.map (·.2) := by
        rw [selected_values, entries, List.map_cons]
      cases cell : e.2.get? target with
      | none =>
          have zeroed := first e.2 (by rw [selected]; rfl) cell
          rw [zeroed]
          rcases padded.head with same | default
          · rw [same, zeroed]
          · rw [default]; rfl
      | some value =>
          rw [selected_filled declared alike, selected, entries, List.map_cons, filledRow_set cell]
          simp only [List.filterMap_cons, cell]
          rfl

section Converse

variable (small : table.rows.entries.length < 2 ^ 63)

include small

omit declared in
theorem count_injective {t : MockRecord} (entries : t.rows.values.length = table.rows.entries.length)
    (same : table.calcFlow conditions (some target) .count = t.calcFlow conditions (some target) .count) :
    (table.rows.values.filter (selectsRow conditions)).length = (t.rows.values.filter (selectsRow conditions)).length := by
  have left := (List.length_filter_le (selectsRow conditions) table.rows.values).trans_eq (List.length_map _)
  have right := (List.length_filter_le (selectsRow conditions) t.rows.values).trans_eq entries
  unfold calcFlow at same
  simp only at same
  rw [if_pos (left.trans_lt small), if_pos (right.trans_lt small)] at same
  have ints := congrArg Int64.toInt (Value.integer.inj (Except.ok.inj same))
  rw [Int64.toInt_ofNat_of_lt (left.trans_lt small), Int64.toInt_ofNat_of_lt (right.trans_lt small)] at ints
  exact Int.ofNat_inj.mp ints

/-- A row that is selected in one case only is counted in one case only. -/
theorem selectsAlike_of_count (same : ∀ chosen, table.calcFlow conditions (some target) .count =
    (table.fillTarget target chosen).calcFlow conditions (some target) .count) : table.SelectsAlike conditions target zero := by
  intro row member unset
  have lengths (chosen : PrimaryKey → Row → Bool) :
      (table.rows.entries.filter fun e => selectsRow conditions e.2).length =
        (table.rows.entries.filter fun e => selectsRow conditions (filledRow target zero (chosen e.1 e.2) e.2)).length := by
    have counts := count_injective small (by rw [fillTarget_values declared, List.length_map]) (same chosen)
    rw [selected_values, fillTarget_values declared, List.filter_map, List.length_map, List.length_map] at counts
    exact counts
  obtain ⟨e, listed, rfl⟩ := List.mem_map.mp member
  by_contra differ
  cases before : selectsRow conditions e.2 with
  | false =>
      have after : selectsRow conditions (e.2.insert target zero) = true := by
        rw [before] at differ
        simpa using differ
      have gained := lengths fun _ row => !selectsRow conditions row && selectsRow conditions (row.insert target zero)
      refine absurd gained (Nat.ne_of_lt (length_filter_lt ?_ listed ?_ ?_))
      · intro e' _ selected
        unfold filledRow
        split
        next picked => simp [selected] at picked
        next => exact selected
      · rw [filledRow_unset _ unset, before, after]
        exact after
      · rw [before]
        exact Bool.false_ne_true
  | true =>
      have after : selectsRow conditions (e.2.insert target zero) = false := by
        rw [before] at differ
        simpa using differ
      have lost := lengths fun _ row => selectsRow conditions row && !selectsRow conditions (row.insert target zero)
      refine absurd lost.symm (Nat.ne_of_lt (length_filter_lt ?_ listed before ?_))
      · intro e' _ selected
        unfold filledRow at selected
        split at selected
        next picked => simp [selected] at picked
        next => exact selected
      · rw [filledRow_unset _ unset, before, after]
        simp [after]

end Converse

/-- A lookup that meets a stored default first returns it. -/
theorem firstAlike_of_lookup (alike : table.SelectsAlike conditions target zero)
    (same : table.calcFlow conditions (some target) .lookup =
      (table.fillTarget target fun _ _ => true).calcFlow conditions (some target) .lookup) :
    table.FirstAlike conditions target zero := by
  intro row first unset
  have found : ∀ t : MockRecord, t.calcFlow conditions (some target) .lookup =
      .ok (((t.rows.values.filter (selectsRow conditions)).filterMap (·.get? target)).head?.getD .empty) := fun _ => rfl
  rw [found, found] at same
  rw [Except.ok.inj same, selected_filled declared alike]
  rw [selected_values] at first
  cases entries : table.rows.entries.filter fun e => selectsRow conditions e.2 with
  | nil =>
      rw [entries] at first
      cases first
  | cons e rest =>
      rw [entries] at first
      cases first
      rw [List.map_cons, filledRow_unset _ unset]
      simp only [if_true, List.filterMap_cons, OrderedMap.get?_insert_self]
      rfl

end Aggregates

end MockRecord

/-! ## Which tables -/

def FlowAgg.isNumeric : FlowAgg → Bool
  | .sum | .average | .min | .max => true
  | .count | .exist | .lookup => false

/-- Results that are the same, the numbers by their values. -/
def SameResult (agg : FlowAgg) (left right : Except RecordError Value) : Prop :=
  if agg.isNumeric then SameNumber left right else left = right

theorem sameResult_of_eq (agg : FlowAgg) {left right : Except RecordError Value} (same : left = right) :
    SameResult agg left right := by
  unfold SameResult
  split
  · exact .inl same
  · exact same

section Verdict

variable [CaseMapping] [DecimalSyntax] [DecimalArithmetic] [LawfulDecimalArithmetic]

/-- Sums never tell an unset cell from its default. The other aggregates but the average do not exactly where the conditions
do not and no unset cell comes before the one that is looked up. The average does not where the conditions do not and the
unset cells make no difference to it. -/
theorem unset_aggregates {table : MockRecord} {target : FieldNo} {zero : Value}
    (declared : table.fieldDefaults.get? target = some zero) (nothing : ZeroValue zero)
    (small : table.rows.entries.length < 2 ^ 63) (conditions : List (FieldNo × FlowFilter)) :
    (∀ chosen, SameResult .sum (table.calcFlow conditions (some target) .sum)
        ((table.fillTarget target chosen).calcFlow conditions (some target) .sum)) ∧
      (∀ view chosen, SameNumber (table.calcSumIn view target) ((table.fillTarget target chosen).calcSumIn view target)) ∧
      ((∀ agg, agg ≠ .average → ∀ chosen, SameResult agg (table.calcFlow conditions (some target) agg)
          ((table.fillTarget target chosen).calcFlow conditions (some target) agg)) ↔
        table.SelectsAlike conditions target zero ∧ table.FirstAlike conditions target zero) ∧
      (table.SelectsAlike conditions target zero → table.AverageAlike conditions target zero →
        ∀ chosen, SameResult .average (table.calcFlow conditions (some target) .average)
          ((table.fillTarget target chosen).calcFlow conditions (some target) .average)) := by
  refine ⟨MockRecord.calcFlow_sum_filled declared nothing, MockRecord.calcSumIn_filled declared nothing, ?_,
    MockRecord.calcFlow_average_filled declared nothing small⟩
  constructor
  · intro same
    have alike := MockRecord.selectsAlike_of_count declared small (same .count (by decide))
    exact ⟨alike, MockRecord.firstAlike_of_lookup declared alike (same .lookup (by decide) fun _ _ => true)⟩
  · rintro ⟨alike, first⟩ agg others chosen
    cases agg with
    | sum => exact MockRecord.calcFlow_sum_filled declared nothing chosen
    | average => exact absurd rfl others
    | min => exact sameResult_of_eq .min (MockRecord.calcFlow_best_filled declared alike chosen (.inl rfl))
    | max => exact sameResult_of_eq .max (MockRecord.calcFlow_best_filled declared alike chosen (.inr rfl))
    | count => exact MockRecord.calcFlow_count_filled declared alike chosen
    | exist => exact MockRecord.calcFlow_exist_filled declared alike chosen
    | lookup => exact MockRecord.calcFlow_lookup_filled declared alike first chosen

end Verdict

section Examples

attribute [local instance] CaseMapping.latin1 DecimalSyntax.plain DecimalArithmetic.plain lawfulDecimalArithmetic_plain

/-- Two rows with an Integer field. The cell of the first one was never assigned. -/
def unsetItems : MockRecord :=
  { MockRecord.new 1 "Item" [1] with
    rows := (OrderedMap.empty.insert [.decimal (.ofInt64 1)] (OrderedMap.empty.insert 1 (.integer 1))).insert
      [.decimal (.ofInt64 2)] ((OrderedMap.empty.insert 1 (.integer 2)).insert 2 (.integer 5))
    fieldDefaults := OrderedMap.empty.insert 2 (.integer 0) }

theorem unset_aggregates_items :
    (∀ agg, agg ≠ .average → ∀ chosen, SameResult agg (unsetItems.calcFlow [] (some 2) agg)
        ((unsetItems.fillTarget 2 chosen).calcFlow [] (some 2) agg)) ↔
      unsetItems.SelectsAlike [] 2 (.integer 0) ∧ unsetItems.FirstAlike [] 2 (.integer 0) :=
  (@unset_aggregates _ _ _ _ unsetItems 2 (.integer 0) rfl (by decide) (by decide) []).2.2.1

/-- The units of a result that is a number. -/
def resultUnits (result : Except RecordError Value) : Option Int := (result.toOption.bind Value.asDecimal).map Decimal.units

theorem resultUnits_same {left right : Except RecordError Value} (same : SameNumber left right) :
    resultUnits left = resultUnits right := by
  rcases same with same | ⟨v, w, a, b, rfl, rfl, first, second, units⟩
  · rw [same]
  · simp only [resultUnits, Except.toOption, Option.bind_some, first, second, Option.map_some, units]

/-- The average of 5 and an unset cell is 5, that of 5 and 0 is 2.5. The lookup passes over the unset cell. -/
theorem average_passes_unset :
    ¬SameResult .average (unsetItems.calcFlow [] (some 2) .average)
        ((unsetItems.fillTarget 2 fun _ _ => true).calcFlow [] (some 2) .average) ∧
      ¬SameResult .lookup (unsetItems.calcFlow [] (some 2) .lookup)
        ((unsetItems.fillTarget 2 fun _ _ => true).calcFlow [] (some 2) .lookup) := by
  constructor
  · intro same
    exact absurd (resultUnits_same same) (by decide +kernel)
  · intro same
    exact absurd (congrArg resultUnits same) (by decide +kernel)

end Examples

end AlLanguage.Runtime
