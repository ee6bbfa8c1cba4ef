import AlLanguage.Runtime.Cursor

/-!
# Unset cells and their defaults

A cell that was never assigned reads as its field's default. Filters and the current key look at the
stored cell instead, so storing the default can change what a view selects and in which order.
-/

namespace AlLanguage.Runtime

open Library

namespace MockRecord

/-! ## Storing defaults -/

/-- The default a never-assigned cell outside the primary key gets. -/
def fillValue (table : MockRecord) (row : Row) (field : FieldNo) : Option Value :=
  if field ∈ table.primaryKeyFields ∨ (row.get? field).isSome then none else table.fieldDefaults.get? field

def fillRow (table : MockRecord) (chosen : List FieldNo) (row : Row) : Row :=
  chosen.foldl (fun filled field => match table.fillValue row field with
    | some value => filled.insert field value
    | none => filled) row

/-- Stores the defaults in the chosen unset cells of each row. -/
def fillDefaults (table : MockRecord) (chosen : PrimaryKey → List FieldNo) : MockRecord :=
  { table with rows := table.rows.mapValues fun key row => table.fillRow (chosen key) row }

/-- The cell that filling changes, with its new value. -/
def filledCell (table : MockRecord) (chosen : List FieldNo) (row : Row) (field : FieldNo) : Option Value :=
  if field ∈ chosen then table.fillValue row field else none

theorem get?_fillRow (table : MockRecord) (chosen : List FieldNo) (row : Row) (field : FieldNo) :
    (table.fillRow chosen row).get? field = (table.filledCell chosen row field).or (row.get? field) := by
  suffices general : ∀ (filled : Row),
      (chosen.foldl (fun filled field => match table.fillValue row field with
        | some value => filled.insert field value
        | none => filled) filled).get? field = (table.filledCell chosen row field).or (filled.get? field) from
    general row
  intro filled
  unfold filledCell
  induction chosen generalizing filled with
  | nil => simp
  | cons head rest ih =>
      rw [List.foldl_cons, ih]
      by_cases same : field = head
      · subst same
        cases filling : table.fillValue row field with
        | none => simp
        | some value =>
            simp only [OrderedMap.get?_insert_self, List.mem_cons, true_or, if_true]
            split <;> rfl
      · have other : compare head field ≠ .eq := by
          rw [ne_eq, Std.LawfulEqOrd.compare_eq_iff_eq]
          exact Ne.symm same
        cases filling : table.fillValue row head with
        | none => simp [same]
        | some value => simp [same, OrderedMap.get?_insert, other]

theorem filledCell_unset {table : MockRecord} {chosen : List FieldNo} {row : Row} {field : FieldNo} {value : Value}
    (filled : table.filledCell chosen row field = some value) : row.get? field = none := by
  unfold filledCell fillValue at filled
  split at filled
  · split at filled
    · cases filled
    next free => simpa using (not_or.mp free).2
  · cases filled

theorem filledCell_default {table : MockRecord} {chosen : List FieldNo} {row : Row} {field : FieldNo} {value : Value}
    (filled : table.filledCell chosen row field = some value) : table.fieldDefaults.get? field = some value := by
  unfold filledCell fillValue at filled
  split at filled
  · split at filled
    · cases filled
    · exact filled
  · cases filled

/-! ## Ranges -/

/-- What a declared type gives a never-assigned cell. -/
def isTypeDefault : Value → Bool
  | .integer n | .bigInteger n | .date n | .time n | .dateTime n | .duration n | .option _ _ n => n == 0
  | .decimal d => d = .zero
  | .boolean b => !b
  | .text s | .code s => s == ""
  | .char c => c == '\x00'
  | _ => false

def isOption : Value → Bool
  | .option .. => true
  | _ => false

/-- The bounds of each range have the type of the field's default. -/
def BoundsTyped (table : MockRecord) (view : RecordView) : Prop :=
  ∀ entry ∈ view.filters.entries, ∀ low high, entry.2 = .range low high →
    ∀ value, table.fieldDefaults.get? entry.1 = some value →
      value.ctorIdx = low.ctorIdx ∧ value.ctorIdx = high.ctorIdx

def DefaultsTyped (table : MockRecord) : Prop :=
  ∀ field value, table.fieldDefaults.get? field = some value → isTypeDefault value = true

section Verdict

variable [CaseMapping]

theorem fieldCmp_unset {value bound : Value} (zero : isTypeDefault value = true) (scalar : isOption value = false)
    (typed : value.ctorIdx = bound.ctorIdx) : fieldCmp .empty bound = fieldCmp value bound := by
  cases value
  case option => cases scalar
  case integer | bigInteger | decimal | boolean | char | text | code | date | time | dateTime | duration =>
    cases bound <;> simp_all [Value.ctorIdx, isTypeDefault, fieldCmp, zeroLike, fieldCmpSet, Value.asDecimal]
  all_goals cases zero

theorem fieldCmp_unset_option {value bound : Value} (option : isOption value = true)
    (typed : value.ctorIdx = bound.ctorIdx) : fieldCmp .empty bound = some .eq := by
  cases value
  case option =>
    cases bound <;> simp_all [Value.ctorIdx, fieldCmp, zeroLike, fieldCmpSet, Value.asDecimal, flowText, isCode]
  all_goals cases option

variable [DecimalSyntax]

/-! ## The verdict on a row -/

/-- Filling the cell cannot change what the filter says: the cell stays, or it is under a range of a type
other than Option. -/
def settled (filter : FieldFilter) (filled : Option Value) : Bool :=
  match filter, filled with
  | _, none => true
  | .range .., some value => !isOption value
  | .expr _, some _ => false

def settledAccept (table : MockRecord) (view : RecordView) (chosen : List FieldNo) (row : Row) : Bool :=
  view.filters.entries.all fun entry =>
    !settled entry.2 (table.filledCell chosen row entry.1) || entry.2.matches ((row.get? entry.1).getD .empty)

/-- The other filters on the row as it is. Ranges on Option cells accept every unset cell. -/
def unsetAccepted (table : MockRecord) (view : RecordView) (chosen : List FieldNo) (row : Row) : Bool :=
  view.filters.entries.all fun entry =>
    match entry.2, table.filledCell chosen row entry.1 with
    | .expr parsed, some _ => Filter.matchesExpr parsed .empty
    | _, _ => true

/-- The other filters on the defaults. -/
def defaultsAccepted (table : MockRecord) (view : RecordView) (chosen : List FieldNo) (row : Row) : Bool :=
  view.filters.entries.all fun entry =>
    match table.filledCell chosen row entry.1 with
    | some value => settled entry.2 (some value) || entry.2.matches value
    | none => true

theorem matches_range_unset {low high value : Value} (zero : isTypeDefault value = true)
    (lowTyped : value.ctorIdx = low.ctorIdx) (highTyped : value.ctorIdx = high.ctorIdx) :
    (FieldFilter.range low high).matches .empty = (isOption value || (FieldFilter.range low high).matches value) := by
  cases option : isOption value with
  | true => simp [FieldFilter.matches, fieldCmp_unset_option option lowTyped, fieldCmp_unset_option option highTyped,
      Filter.holds]
  | false => simp [FieldFilter.matches, fieldCmp_unset zero option lowTyped, fieldCmp_unset zero option highTyped]

section Selection

variable {table : MockRecord} {view : RecordView} (defaults : DefaultsTyped table) (bounds : BoundsTyped table view)

include defaults bounds

theorem range_unset {chosen : List FieldNo} {row : Row} {entry : FieldNo × FieldFilter} {low high value : Value}
    (member : entry ∈ view.filters.entries) (range : entry.2 = .range low high)
    (filled : table.filledCell chosen row entry.1 = some value) :
    entry.2.matches .empty = (isOption value || entry.2.matches value) := by
  have default := filledCell_default filled
  obtain ⟨lowTyped, highTyped⟩ := bounds entry member low high range value default
  rw [range]
  exact matches_range_unset (defaults _ _ default) lowTyped highTyped

theorem selects_unfilled (chosen : List FieldNo) (row : Row) :
    selects view row = (table.settledAccept view chosen row && table.unsetAccepted view chosen row) := by
  rw [selects, rowMatchesFilters, settledAccept, unsetAccepted, Bool.eq_iff_iff]
  simp only [Bool.and_eq_true, List.all_eq_true, ← forall_and]
  apply forall₂_congr
  intro entry member
  cases filled : table.filledCell chosen row entry.1 with
  | none => simp [settled]
  | some value =>
      rw [filledCell_unset filled]
      cases kind : entry.2 with
      | expr parsed => simp [settled, FieldFilter.matches]
      | range low high =>
          have same := range_unset defaults bounds member kind filled
          rw [kind] at same
          cases option : isOption value <;> simp_all [settled]

theorem selects_filled (chosen : List FieldNo) (row : Row) :
    selects view (table.fillRow chosen row) =
      (table.settledAccept view chosen row && table.defaultsAccepted view chosen row) := by
  rw [selects, rowMatchesFilters, settledAccept, defaultsAccepted, Bool.eq_iff_iff]
  simp only [Bool.and_eq_true, List.all_eq_true, ← forall_and, get?_fillRow]
  apply forall₂_congr
  intro entry member
  cases filled : table.filledCell chosen row entry.1 with
  | none => simp [settled]
  | some value =>
      rw [filledCell_unset filled]
      cases kind : entry.2 with
      | expr parsed => simp [settled]
      | range low high =>
          have same := range_unset defaults bounds member kind filled
          rw [kind] at same
          cases option : isOption value <;> simp_all [settled]

end Selection

/-- Wherever the settled filters accept the row, the others say the same of its unset cells and of the defaults. -/
def SameVerdict (table : MockRecord) (view : RecordView) (chosen : PrimaryKey → List FieldNo) : Prop :=
  ∀ entry ∈ table.rows.entries, table.settledAccept view (chosen entry.1) entry.2 = true →
    table.unsetAccepted view (chosen entry.1) entry.2 = table.defaultsAccepted view (chosen entry.1) entry.2

/-- The cells of the current key compare the same between any two selected rows, unset or filled. -/
def SameOrder (table : MockRecord) (view : RecordView) (chosen : PrimaryKey → List FieldNo) : Prop :=
  ∀ a ∈ table.rows.entries, ∀ b ∈ table.rows.entries, compare a.1 b.1 = .lt →
    selects view a.2 = true → selects view b.2 = true →
    ((compare (view.sortKey.keyOf a.2) (view.sortKey.keyOf b.2)).isLE = true ↔
      (compare (view.sortKey.keyOf (table.fillRow (chosen a.1) a.2))
        (view.sortKey.keyOf (table.fillRow (chosen b.1) b.2))).isLE = true)

section Agreement

variable {table : MockRecord} {view : RecordView} (chosen : PrimaryKey → List FieldNo)

theorem sameVerdict_iff (defaults : DefaultsTyped table) (bounds : BoundsTyped table view) :
    SameVerdict table view chosen ↔ ∀ entry ∈ table.rows.entries,
      selects view (table.fillRow (chosen entry.1) entry.2) = selects view entry.2 := by
  apply forall₂_congr
  intro entry _
  rw [selects_filled defaults bounds, selects_unfilled defaults bounds (chosen entry.1) entry.2]
  cases table.settledAccept view (chosen entry.1) entry.2 <;> simp [eq_comm]

omit [CaseMapping] [DecimalSyntax] in
theorem get?_fillDefaults {entry : PrimaryKey × Row} (member : entry ∈ table.rows.entries) :
    (table.fillDefaults chosen).rows.get? entry.1 = some (table.fillRow (chosen entry.1) entry.2) := by
  apply (OrderedMap.get?_eq_some_iff ..).mpr
  exact ⟨entry.1, List.mem_map.mpr ⟨entry, member, rfl⟩, Std.ReflCmp.compare_self⟩

theorem selectedKeys_fillDefaults :
    (table.fillDefaults chosen).selectedKeys view =
      (table.rows.entries.filter fun entry => selects view (table.fillRow (chosen entry.1) entry.2)).map (·.1) := by
  simp only [selectedKeys, OrderedMap.keys, fillDefaults, OrderedMap.filter_entries, OrderedMap.mapValues_entries,
    List.filter_map, List.map_map]
  rfl

variable {chosen}

theorem mem_selectedKeys {key : PrimaryKey} :
    key ∈ table.selectedKeys view ↔ ∃ row, (key, row) ∈ table.rows.entries ∧ selects view row = true := by
  simp [selectedKeys, OrderedMap.keys]

theorem matchingKeysIn_eq (table : MockRecord) (view : RecordView) :
    table.matchingKeysIn view =
      let sorted := (table.selectedKeys view).insertionSort fun a b => table.sortedBefore view.sortKey a b = true
      if view.sortKey.descending then sorted.reverse else sorted := rfl

theorem sameVerdict_iff_selectedKeys (defaults : DefaultsTyped table) (bounds : BoundsTyped table view) :
    SameVerdict table view chosen ↔ ∀ key,
      key ∈ (table.fillDefaults chosen).selectedKeys view ↔ key ∈ table.selectedKeys view := by
  rw [sameVerdict_iff chosen defaults bounds]
  simp only [selectedKeys_fillDefaults, mem_selectedKeys, List.mem_map, List.mem_filter]
  constructor
  · intro same key
    constructor
    · rintro ⟨entry, ⟨member, chosen⟩, rfl⟩
      exact ⟨entry.2, member, by rw [← same entry member]; exact chosen⟩
    · rintro ⟨row, member, chosen⟩
      exact ⟨(key, row), ⟨member, by rw [same (key, row) member]; exact chosen⟩, rfl⟩
  · intro same entry member
    rw [Bool.eq_iff_iff]
    constructor
    · intro selected
      obtain ⟨row, stored, selected⟩ := (same entry.1).mp ⟨entry, ⟨member, selected⟩, rfl⟩
      rw [table.rows.entry_unique member stored Std.ReflCmp.compare_self]
      exact selected
    · intro selected
      obtain ⟨other, ⟨stored, selected⟩, key⟩ := (same entry.1).mpr ⟨entry.2, member, selected⟩
      have equal : compare other.1 entry.1 = .eq := by
        rw [key]
        exact Std.ReflCmp.compare_self
      rw [← table.rows.entry_unique stored member equal]
      exact selected

theorem sameOrder_iff :
    SameOrder table view chosen ↔ (table.selectedKeys view).Pairwise fun a b =>
      ((table.fillDefaults chosen).sortedBefore view.sortKey a b = true ↔ table.sortedBefore view.sortKey a b = true) := by
  rw [selectedKeys, pairwise_iff_of_ordered (OrderedMap.keys_sorted _) fun a b => Std.OrientedCmp.not_lt_of_lt]
  have here {entry : PrimaryKey × Row} (member : entry ∈ table.rows.entries) :
      table.rows.get? entry.1 = some entry.2 := table.rows.get?_of_mem member
  constructor
  · intro same a left b right before
    obtain ⟨rowA, storedA, selectedA⟩ := mem_selectedKeys.mp left
    obtain ⟨rowB, storedB, selectedB⟩ := mem_selectedKeys.mp right
    have agree := same _ storedA _ storedB before selectedA selectedB
    simp only [sortedBefore, get?_fillDefaults chosen storedA, get?_fillDefaults chosen storedB, here storedA,
      here storedB, Option.getD_some]
    exact agree.symm
  · intro same a storedA b storedB before selectedA selectedB
    have agree := same a.1 (mem_selectedKeys.mpr ⟨a.2, storedA, selectedA⟩) b.1
      (mem_selectedKeys.mpr ⟨b.2, storedB, selectedB⟩) before
    simp only [sortedBefore, get?_fillDefaults chosen storedA, get?_fillDefaults chosen storedB, here storedA,
      here storedB, Option.getD_some] at agree
    exact agree.symm

omit [DecimalSyntax] in
instance (table : MockRecord) (sortKey : SortKey) : Std.Total fun a b => table.sortedBefore sortKey a b = true where
  total a b := by
    simp only [sortedBefore]
    rw [← Std.OrientedCmp.isGE_iff_isLE]
    cases compare (sortKey.keyOf ((table.rows.get? b).getD .empty)) (sortKey.keyOf ((table.rows.get? a).getD .empty)) <;>
      simp

omit [DecimalSyntax] in
instance (table : MockRecord) (sortKey : SortKey) :
    IsTrans PrimaryKey fun a b => table.sortedBefore sortKey a b = true where
  trans _ _ _ := Std.TransCmp.isLE_trans

theorem selectedKeys_eq (defaults : DefaultsTyped table) (bounds : BoundsTyped table view)
    (same : SameVerdict table view chosen) :
    (table.fillDefaults chosen).selectedKeys view = table.selectedKeys view := by
  rw [selectedKeys_fillDefaults, List.filter_congr ((sameVerdict_iff chosen defaults bounds).mp same)]
  rfl

end Agreement

end Verdict

/-- A document with a Status whose default is Open, its cell never assigned. -/
def document : MockRecord :=
  let table := (MockRecord.new 50000 "Document" [1]).withFieldDefaults
    (OrderedMap.empty.insert 2 (.option "" "Open" 0))
  { table with rows := .insert .empty [.decimal (.ofInt64 1)] (.insert .empty 1 (.integer 1)) }

def released : RecordView := setRangeIn document.newView 2 (.option "" "Released" 1) (.option "" "Released" 1)

theorem document_defaultsTyped : DefaultsTyped document := by
  intro field value found
  obtain ⟨key, member, -⟩ := (OrderedMap.get?_eq_some_iff ..).mp found
  have only : (key, value) = (2, .option "" "Open" 0) := List.mem_singleton.mp member
  cases only
  decide

theorem released_boundsTyped : BoundsTyped document released := by
  intro entry member low high range value found
  obtain ⟨key, stored, -⟩ := (OrderedMap.get?_eq_some_iff ..).mp found
  have only : (key, value) = (2, .option "" "Open" 0) := List.mem_singleton.mp stored
  have filter : entry = (2, .range (.option "" "Released" 1) (.option "" "Released" 1)) := List.mem_singleton.mp member
  cases only
  subst filter
  cases range
  exact ⟨rfl, rfl⟩

section Example

local instance : CaseMapping := .latin1

local instance : DecimalSyntax := .plain

end Example

end MockRecord

end AlLanguage.Runtime
