import AlLanguage.Library.OrderedMap
import AlLanguage.Runtime.Filter

/-!
# The record store

One `MockRecord` holds the rows of a table and a `RecordView` the state of one record variable over it:
buffer, filters, current key and cursor. An operation returns its result with the table and the view it
leaves behind, also when it fails.
-/

namespace AlLanguage.Runtime

open Library

abbrev FieldNo := Int

abbrev PrimaryKey := List Value

abbrev Row := OrderedMap FieldNo Value

inductive RecordError where
  | notFound
  | duplicateKey
  | missingKeyField (field : FieldNo)
  | noCurrentRow
  | endOfSet
  | filterParse (field : FieldNo) (message : String)
  | triggerExecutionUnsupported (trigger : String)
  | flowArithmeticOverflow (aggregate : String)
  | primaryKeyModifyAll (field : FieldNo)
  | invalidFindDirection (direction : Char)
deriving DecidableEq

def RecordError.message : RecordError → String
  | notFound => "record not found"
  | duplicateKey => "duplicate primary key"
  | missingKeyField field => "primary key field " ++ toString field ++ " has no value in current row"
  | noCurrentRow => "no current row (use FindFirst/FindSet before Next)"
  | endOfSet => "end of set reached"
  | filterParse field message => "filter parse error for field " ++ toString field ++ ": " ++ message
  | triggerExecutionUnsupported trigger => trigger ++ " trigger execution requires live Business Central"
  | flowArithmeticOverflow aggregate => "arithmetic overflow while calculating FlowField " ++ aggregate
  | primaryKeyModifyAll field =>
      "field " ++ toString field ++ " is part of the primary key; ModifyAll cannot change it"
  | invalidFindDirection direction =>
      "invalid FIND direction '" ++ String.singleton direction ++ "' (expected '-' or '+')"

inductive FieldFilter where
  /-- Inclusive bounds from SetRange. -/
  | range (low high : Value)
  /-- A parsed expression from SetFilter. -/
  | expr (parsed : FilterExpr)

/-- The fields of the current key. Descending reverses the whole key, primary key included. -/
structure SortKey where
  fields : List FieldNo
  descending : Bool
deriving DecidableEq

structure RecordView where
  current : Row
  xRec : Row
  filters : OrderedMap FieldNo FieldFilter
  sortKey : SortKey
  /-- The keys selected by the last find, in iteration order. -/
  iterSet : List PrimaryKey
  iterPos : Option Nat

/-- A rename between its start and its finish or cancel. -/
structure PendingRename where
  oldKey : PrimaryKey
  saved : Row

structure MockRecord where
  tableId : Int
  tableName : String
  primaryKeyFields : List FieldNo
  rows : OrderedMap PrimaryKey Row
  fieldDefaults : OrderedMap FieldNo Value
  view : RecordView

/-! ## Comparing a cell with a bound -/

def zeroLike : Value → Option Value
  | .integer _ | .bigInteger _ => some (.integer 0)
  | .decimal _ => some (.decimal .zero)
  | .boolean _ => some (.boolean false)
  | .text _ => some (.text "")
  | .code _ => some (.code "")
  | .date _ => some (.date 0)
  | .time _ => some (.time 0)
  | .dateTime _ => some (.dateTime 0)
  | .duration _ => some (.duration 0)
  | .char _ => some (.char '\x00')
  | .option typeName member _ => some (.option typeName member 0)
  | _ => none

def flowText : Value → Option String
  | .text s | .code s | .guid s => some s
  | .option _ member _ => some member
  | .boolean b => some (Filter.renderBool b)
  | _ => none

def isCode : Value → Bool
  | .code _ => true
  | _ => false

section Comparing

variable [CaseMapping]

/-- `field_cmp` once an unset cell has been replaced. -/
def fieldCmpSet (value bound : Value) : Option Ordering :=
  match value.asDecimal, bound.asDecimal with
  | some x, some y => some (compare x y)
  | _, _ =>
    match flowText value, flowText bound with
    | some x, some y =>
        some (if isCode value then compare (toUppercase x) (toUppercase y) else compare x y)
    | _, _ => if value.ctorIdx = bound.ctorIdx then some (compare value bound) else none

/-- An unset cell compares as the zero of the bound's type. -/
def fieldCmp (value bound : Value) : Option Ordering :=
  match value, bound with
  | .empty, .empty => fieldCmpSet .empty .empty
  | .empty, bound => (zeroLike bound).bind fun zero => fieldCmpSet zero bound
  | value, bound => fieldCmpSet value bound

/-- Key cells by field semantics: Code is caseless and the numeric types are one. -/
def normalizeKeyValue : Value → Value
  | .code s => .code (toUppercase s)
  | .integer n | .bigInteger n => .decimal (.ofInt64 n)
  | other => other

def normalizeKey (key : PrimaryKey) : PrimaryKey := key.map normalizeKeyValue

def SortKey.fromFields (fields : List FieldNo) : SortKey := ⟨fields, false⟩

def SortKey.keyOf (sortKey : SortKey) (row : Row) : List Value :=
  sortKey.fields.map fun field => ((row.get? field).map normalizeKeyValue).getD .empty

variable [DecimalSyntax]

def FieldFilter.matches (filter : FieldFilter) (value : Value) : Bool :=
  match filter with
  | .range low high =>
      Filter.holds Ordering.isGE (fieldCmp value low) && Filter.holds Ordering.isLE (fieldCmp value high)
  | .expr parsed => Filter.matchesExpr parsed value

def rowMatchesFilters (filters : OrderedMap FieldNo FieldFilter) (row : Row) : Bool :=
  filters.entries.all fun entry => entry.2.matches ((row.get? entry.1).getD .empty)

end Comparing

/-! ## Views -/

namespace RecordView

instance : Inhabited RecordView := ⟨⟨.empty, .empty, .empty, ⟨[], false⟩, [], none⟩⟩

/-- What a by-value record parameter copies: buffer and xRec only. -/
def copyBuffersFrom (view other : RecordView) : RecordView :=
  { view with current := other.current, xRec := other.xRec }

def clearCursor (view : RecordView) : RecordView := { view with iterSet := [], iterPos := none }

def setFields (current : Row) (values : List (FieldNo × Value)) : Row :=
  values.foldl (fun row entry => row.insert entry.1 entry.2) current

end RecordView

namespace MockRecord

def new (tableId : Int) (tableName : String) (primaryKeyFields : List FieldNo) : MockRecord where
  tableId
  tableName
  primaryKeyFields
  rows := .empty
  fieldDefaults := .empty
  view := { (default : RecordView) with sortKey := .fromFields primaryKeyFields }

def withFieldDefaults (table : MockRecord) (fieldDefaults : OrderedMap FieldNo Value) : MockRecord :=
  { table with fieldDefaults }

def newView (table : MockRecord) : RecordView :=
  { (default : RecordView) with sortKey := .fromFields table.primaryKeyFields }

/-! ## Operations on the view alone -/

def fieldSetIn (view : RecordView) (field : FieldNo) (value : Value) : RecordView :=
  { view with current := view.current.insert field value }

/-- INIT keeps the primary-key cells of the buffer. -/
def initIn (table : MockRecord) (view : RecordView) : RecordView :=
  let preserved := table.primaryKeyFields.filterMap fun field =>
    (view.current.get? field).map fun value => (field, value)
  { view with current := RecordView.setFields .empty preserved, xRec := .empty, iterPos := none }

def resetIn (table : MockRecord) (view : RecordView) : RecordView :=
  { view with
    filters := .empty
    sortKey := .fromFields table.primaryKeyFields
    iterSet := []
    iterPos := none }

def setCurrentKeyIn (view : RecordView) (fields : List FieldNo) : RecordView :=
  { view with sortKey := { view.sortKey with fields }, iterSet := [], iterPos := none }

def setAscendingIn (view : RecordView) (ascending : Bool) : RecordView :=
  { view with sortKey := { view.sortKey with descending := !ascending }, iterSet := [], iterPos := none }

def setRangeIn (view : RecordView) (field : FieldNo) (low high : Value) : RecordView :=
  { view with filters := view.filters.insert field (.range low high), iterSet := [], iterPos := none }

def clearFilterIn (view : RecordView) (field : FieldNo) : RecordView :=
  { view with filters := view.filters.erase field, iterSet := [], iterPos := none }

def setFilterIn [DecimalSyntax] (view : RecordView) (field : FieldNo) (expr : String) :
    Except RecordError Unit × RecordView :=
  match Filter.parse expr with
  | .error e => (.error (.filterParse field e.message), view)
  | .ok parsed =>
      (.ok (), { view with filters := view.filters.insert field (.expr parsed), iterSet := [], iterPos := none })

section Rows

variable [CaseMapping]

/-! ## Keys -/

def keyCell (table : MockRecord) (row : Row) (field : FieldNo) : Except RecordError Value :=
  match (row.get? field).or (table.fieldDefaults.get? field) with
  | some value => .ok (normalizeKeyValue value)
  | none => .error (.missingKeyField field)

/-- The primary key of a row, missing cells taken as defaults. -/
def keyOfRow (table : MockRecord) (row : Row) : Except RecordError PrimaryKey :=
  table.primaryKeyFields.mapM (table.keyCell row)

def currentPrimaryKey (table : MockRecord) (view : RecordView) : Except RecordError PrimaryKey :=
  table.keyOfRow view.current

def reloadStoredIn (table : MockRecord) (view : RecordView) : RecordView :=
  match table.currentPrimaryKey view with
  | .error _ => view
  | .ok key =>
    match table.rows.get? (normalizeKey key) with
    | none => view
    | some row => { view with current := row, xRec := row }

def getIn (table : MockRecord) (view : RecordView) (key : PrimaryKey) : Except RecordError Unit × RecordView :=
  match table.rows.get? (normalizeKey key) with
  | none => (.error .notFound, view)
  | some row => (.ok (), { view with current := row, xRec := row })

/-! ## Operations on one row -/

def insertIn (table : MockRecord) (view : RecordView) (runTrigger : Bool) :
    Except RecordError Unit × MockRecord × RecordView :=
  if runTrigger then (.error (.triggerExecutionUnsupported "Insert"), table, view)
  else
    match table.currentPrimaryKey view with
    | .error e => (.error e, table, view)
    | .ok key =>
        if table.rows.contains key then (.error .duplicateKey, table, view)
        else
          (.ok (), { table with rows := table.rows.insert key view.current },
            { view with xRec := view.current })

def modifyIn (table : MockRecord) (view : RecordView) (runTrigger : Bool) :
    Except RecordError Unit × MockRecord × RecordView :=
  if runTrigger then (.error (.triggerExecutionUnsupported "Modify"), table, view)
  else
    match table.currentPrimaryKey view with
    | .error e => (.error e, table, view)
    | .ok key =>
      match table.rows.get? key with
      | none => (.error .notFound, table, view)
      | some oldRow =>
          (.ok (), { table with rows := table.rows.insert key view.current }, { view with xRec := oldRow })

/-- The cursor stays: Next steps on from the deleted key. -/
def deleteIn (table : MockRecord) (view : RecordView) (runTrigger : Bool) :
    Except RecordError Unit × MockRecord × RecordView :=
  if runTrigger then (.error (.triggerExecutionUnsupported "Delete"), table, view)
  else
    match table.currentPrimaryKey view with
    | .error e => (.error e, table, view)
    | .ok key =>
        if table.rows.contains key then (.ok (), { table with rows := table.rows.erase key }, view)
        else (.error .notFound, table, view)

/-! ## Rename -/

def startRenameIn (table : MockRecord) (view : RecordView) (newKeyValues : List (FieldNo × Value)) :
    Except RecordError PendingRename × RecordView :=
  match table.currentPrimaryKey view with
  | .error e => (.error e, view)
  | .ok oldKey =>
      (.ok ⟨oldKey, view.current⟩, { view with current := RecordView.setFields view.current newKeyValues })

def moveRenamedRow (table : MockRecord) (view : RecordView) (oldKey : PrimaryKey) :
    Except RecordError Unit × MockRecord × RecordView :=
  match table.currentPrimaryKey view with
  | .error e => (.error e, table, view)
  | .ok newKey =>
    match table.rows.get? oldKey with
    | none => (.error .notFound, table, view)
    | some oldRow =>
        if compare newKey oldKey != .eq && table.rows.contains newKey then (.error .duplicateKey, table, view)
        else
          (.ok (), { table with rows := (table.rows.erase oldKey).insert newKey view.current },
            { view with xRec := oldRow })

/-- A rename that fails gives the buffer its old values back. -/
def finishRenameIn (table : MockRecord) (view : RecordView) (pending : PendingRename) :
    Except RecordError Unit × MockRecord × RecordView :=
  match table.moveRenamedRow view pending.oldKey with
  | (.error e, table, view) => (.error e, table, { view with current := pending.saved })
  | moved => moved

def cancelRenameIn (view : RecordView) (pending : PendingRename) : RecordView :=
  { view with current := pending.saved }

def renameIn (table : MockRecord) (view : RecordView) (newKeyValues : List (FieldNo × Value)) :
    Except RecordError Unit × MockRecord × RecordView :=
  match table.startRenameIn view newKeyValues with
  | (.error e, view) => (.error e, table, view)
  | (.ok pending, view) => table.finishRenameIn view pending

/-! ## Replacing a related value -/

def keyMem (key : PrimaryKey) (keys : List PrimaryKey) : Bool := keys.any fun other => compare key other == .eq

/-- Whether the cell holds `old`, which is normalised already. A missing cell compares as the default. -/
def cellHolds (table : MockRecord) (field : FieldNo) (old : Value) (row : Row) : Bool :=
  normalizeKeyValue ((row.get? field).getD ((table.fieldDefaults.get? field).getD .empty)) == old

/-- No new key is held by a row that stays, and no two of them are the same. -/
def newKeysFree (rows : OrderedMap PrimaryKey Row) (vacated taken : List PrimaryKey) : List PrimaryKey → Bool
  | [] => true
  | newKey :: rest =>
      if (rows.contains newKey && !keyMem newKey vacated) || keyMem newKey taken then false
      else newKeysFree rows vacated (newKey :: taken) rest

def movedRow (table : MockRecord) (field : FieldNo) (new : Value) (key : PrimaryKey) :
    Except RecordError (PrimaryKey × PrimaryKey × Row) := do
  let row := ((table.rows.get? key).getD .empty).insert field new
  let newKey ← table.keyOfRow row
  return (key, newKey, row)

def replaceFieldValue (table : MockRecord) (field : FieldNo) (old new : Value) :
    Except RecordError Nat × MockRecord :=
  let old := normalizeKeyValue old
  let matching := (table.rows.filter fun _ row => table.cellHolds field old row).keys
  if field ∉ table.primaryKeyFields then
    let replaced := matching.foldl (fun rows key => rows.update key (·.insert field new)) table.rows
    (.ok matching.length, { table with rows := replaced })
  else
    match matching.mapM (table.movedRow field new) with
    | .error e => (.error e, table)
    | .ok moved =>
        if newKeysFree table.rows matching [] (moved.map (·.2.1)) then
          let vacated := moved.foldl (fun rows entry => rows.erase entry.1) table.rows
          let rows := moved.foldl (fun rows entry => rows.insert entry.2.1 entry.2.2) vacated
          (.ok matching.length, { table with rows })
        else (.error .duplicateKey, table)

variable [DecimalSyntax]

/-! ## Operations on the filtered rows -/

def deleteAllIn (table : MockRecord) (view : RecordView) (runTrigger : Bool) :
    Except RecordError Nat × MockRecord × RecordView :=
  if runTrigger then (.error (.triggerExecutionUnsupported "Delete"), table, view)
  else
    let doomed := (table.rows.filter fun _ row => rowMatchesFilters view.filters row).keys
    (.ok doomed.length, { table with rows := doomed.foldl .erase table.rows },
      { view with iterSet := [], iterPos := none })

def modifyAllIn (table : MockRecord) (view : RecordView) (field : FieldNo) (value : Value) (runTrigger : Bool) :
    Except RecordError Nat × MockRecord :=
  if runTrigger then (.error (.triggerExecutionUnsupported "ModifyAll"), table)
  else if field ∈ table.primaryKeyFields then (.error (.primaryKeyModifyAll field), table)
  else
    let change (_ : PrimaryKey) (row : Row) : Row :=
      if rowMatchesFilters view.filters row then row.insert field value else row
    (.ok (table.rows.values.countP (rowMatchesFilters view.filters)),
      { table with rows := table.rows.mapValues change })

def isEmptyIn (table : MockRecord) (view : RecordView) : Bool :=
  table.rows.values.all fun row => !rowMatchesFilters view.filters row

def countIn (table : MockRecord) (view : RecordView) : Nat :=
  (table.rows.values.filter (rowMatchesFilters view.filters)).length

/-! ## The cursor -/

def sortedBefore (table : MockRecord) (sortKey : SortKey) (a b : PrimaryKey) : Bool :=
  let keyAt (key : PrimaryKey) := sortKey.keyOf ((table.rows.get? key).getD .empty)
  (compare (keyAt a) (keyAt b)).isLE

/-- The keys of the selected rows in the order of the current key, ties in primary-key order. -/
def matchingKeysIn (table : MockRecord) (view : RecordView) : List PrimaryKey :=
  let keys := (table.rows.filter fun _ row => rowMatchesFilters view.filters row).keys
  let sorted := keys.insertionSort fun a b => table.sortedBefore view.sortKey a b
  if view.sortKey.descending then sorted.reverse else sorted

def loadRowAt (table : MockRecord) (view : RecordView) (pos : Nat) : Except RecordError Unit × RecordView :=
  match view.iterSet[pos]? with
  | none => (.error .endOfSet, view)
  | some key =>
    match table.rows.get? key with
    | none => (.error .notFound, view)
    | some row => (.ok (), { view with current := row, xRec := row, iterPos := some pos })

/-- Position on `pos` of a freshly built iteration set. -/
def findAt (table : MockRecord) (view : RecordView) (pos : List PrimaryKey → Nat) :
    Except RecordError Bool × RecordView :=
  let iterSet := table.matchingKeysIn view
  let view := { view with iterSet }
  if iterSet.isEmpty then (.ok false, { view with iterPos := none })
  else
    match table.loadRowAt view (pos iterSet) with
    | (.error e, view) => (.error e, view)
    | (.ok (), view) => (.ok true, view)

def findFirstIn (table : MockRecord) (view : RecordView) : Except RecordError Bool × RecordView :=
  table.findAt view fun _ => 0

def findLastIn (table : MockRecord) (view : RecordView) : Except RecordError Bool × RecordView :=
  table.findAt view fun iterSet => iterSet.length - 1

def findSetIn (table : MockRecord) (view : RecordView) : Except RecordError Bool × RecordView :=
  table.findFirstIn view

def findIn (table : MockRecord) (view : RecordView) (direction : Char) : Except RecordError Bool × RecordView :=
  if direction = '-' then table.findFirstIn view
  else if direction = '+' then table.findLastIn view
  else (.error (.invalidFindDirection direction), view)

/-- NEXT moves as far towards the target as the set goes and returns the steps taken. -/
def nextIn (table : MockRecord) (view : RecordView) (steps : Int32) : Except RecordError Int32 × RecordView :=
  match view.iterPos with
  | none => (.error .noCurrentRow, view)
  | some currentPos =>
      if steps = 0 ∨ view.iterSet.isEmpty then (.ok 0, view)
      else
        let last : Int := view.iterSet.length - 1
        let target : Int := currentPos + steps.toInt
        let clamped := max 0 (min last target)
        let actual := clamped - currentPos
        if actual = 0 then (.ok 0, view)
        else
          match table.loadRowAt view clamped.toNat with
          | (.error e, view) => (.error e, view)
          | (.ok (), view) => (.ok (Int32.ofInt actual), view)

end Rows

end MockRecord

end AlLanguage.Runtime
