import AlLanguage.Runtime.Record
import AlLanguage.Runtime.Slot

/-!
# The tables of a run

One store for each table, with the schema of the table and a view for each record variable, and the Rename
method over all of them. Table triggers and event subscribers are left out: none is declared here.
-/

namespace AlLanguage.Runtime

open Library

/-! ## Names -/

/-- `str::replace` of two quotes by one. -/
def unescapeQuotes : List Char → List Char
  | '"' :: '"' :: rest => '"' :: unescapeQuotes rest
  | c :: rest => c :: unescapeQuotes rest
  | [] => []

def stripQuote : List Char → List Char
  | '"' :: rest => rest
  | text => text

def unquoteIdentifier (name : String) : String :=
  let opened := stripQuote (trim name).toList
  let closed := (stripQuote opened.reverse).reverse
  String.ofList (unescapeQuotes closed)

def toAsciiLowercase (s : String) : String := String.ofList (s.toList.map Char.toLower)

def keyFor (tableName : String) : String := toAsciiLowercase (unquoteIdentifier tableName)

/-- A temporary table belongs to the variable with the given handle. -/
structure TableRef where
  name : String
  tempOwner : Option UInt64

namespace TableRef

def persistent (name : String) : TableRef := ⟨name, none⟩

def key (table : TableRef) : String :=
  match table.tempOwner with
  | some owner => keyFor table.name ++ " temporary#" ++ toString owner
  | none => keyFor table.name

end TableRef

/-! ## Stores -/

structure RecordStore where
  record : MockRecord
  fieldByName : OrderedMap String FieldNo
  fieldLengths : OrderedMap FieldNo Nat
  views : OrderedMap UInt64 RecordView

abbrev Records := OrderedMap String RecordStore

namespace RecordStore

def resolveField (store : RecordStore) (name : String) : Except String FieldNo :=
  match store.fieldByName.get? (toAsciiLowercase (unquoteIdentifier name)) with
  | some field => .ok field
  | none => .error ("field '" ++ unquoteIdentifier name ++ "' is not declared on workspace table '" ++
      store.record.tableName ++ "'")

/-- The view of a handle, a fresh one on its first use. -/
def takeView (store : RecordStore) (handle : UInt64) : RecordView :=
  (store.views.get? handle).getD store.record.newView

def putView (store : RecordStore) (handle : UInt64) (view : RecordView) : RecordStore :=
  { store with views := store.views.insert handle view }

def coerceToField [CaseMapping] (store : RecordStore) (field : FieldNo) (value : Value) : Except String Value :=
  match store.record.fieldDefaults.get? field with
  | some default => coerceIntoSlot default value (store.fieldLengths.get? field)
  | none => .ok value

end RecordStore

/-- What a workspace table declares. -/
structure TableMeta where
  tableId : Int
  tableName : String
  fieldByName : OrderedMap String FieldNo
  fieldDefaults : OrderedMap FieldNo Value
  fieldLengths : OrderedMap FieldNo Nat
  pkFields : List FieldNo

/-- The store of a table on its first use. -/
def TableMeta.newStore (declared : TableMeta) : RecordStore where
  record := (MockRecord.new declared.tableId declared.tableName declared.pkFields).withFieldDefaults declared.fieldDefaults
  fieldByName := declared.fieldByName
  fieldLengths := declared.fieldLengths
  views := .empty

/-- `loadTableMeta` finds and parses the table in the workspace. -/
def ensureStore (loadTableMeta : String → Except String TableMeta) (records : Records) (table : TableRef) :
    Except String (RecordStore × Records) :=
  match records.get? table.key with
  | some store => .ok (store, records)
  | none =>
    match loadTableMeta table.name with
    | .error e => .error e
    | .ok declared => .ok (declared.newStore, records.insert table.key declared.newStore)

/-! ## Rename -/

/-- A field that a rename updates. -/
structure RenameCascade where
  table : String
  field : String
  keyField : String

section Rename

variable [CaseMapping]

/-- The cells of one field that hold `old` get `new`. -/
structure CellUpdate where
  field : FieldNo
  old : Value
  new : Value

/-- The update of a related field, both values converted to its type. -/
def RecordStore.relatedUpdate (store : RecordStore) (cascade : RenameCascade) (old new : Value) :
    Except String CellUpdate := do
  let field ← store.resolveField cascade.field
  let old ← store.coerceToField field old
  let new ← store.coerceToField field new
  return ⟨field, old, new⟩

def RenameCascade.related (cascade : RenameCascade) : String := (TableRef.persistent cascade.table).key

def valueOf (key : List (FieldNo × Value)) (field : FieldNo) : Option Value :=
  (key.find? fun entry => entry.1 == field).map (·.2)

/-- One turn of the loop of `cascade_rename`. A table without a store holds no rows. -/
def cascadeField (renamed : RecordStore) (cascade : RenameCascade) (oldKey newKey : List (FieldNo × Value))
    (records : Records) : Except String Unit × Records :=
  match renamed.resolveField cascade.keyField with
  | .error e => (.error e, records)
  | .ok keyField =>
    match valueOf oldKey keyField, valueOf newKey keyField with
    | some old, some new =>
        if old == new then (.ok (), records)
        else
          match records.get? cascade.related with
          | none => (.ok (), records)
          | some store =>
            match store.relatedUpdate cascade old new with
            | .error e => (.error e, records)
            | .ok update =>
              match store.record.replaceFieldValue update.field update.old update.new with
              | (.error e, record) =>
                  (.error ("updating field " ++ cascade.field ++ " of table " ++ cascade.table ++ ": " ++ e.message),
                    records.insert cascade.related { store with record })
              | (.ok _, record) => (.ok (), records.insert cascade.related { store with record })
    | _, _ => (.ok (), records)

/-- Gives every field of the cascades the new value of the renamed key where it holds the old one. The renamed
table has a store, so the last case is never reached. -/
def cascadeRename (renamed : String) (cascades : List RenameCascade) (oldKey newKey : List (FieldNo × Value))
    (records : Records) : Except String Unit × Records :=
  match cascades, records.get? renamed with
  | [], _ => (.ok (), records)
  | cascade :: rest, some store =>
      match cascadeField store cascade oldKey newKey records with
      | (.error e, records) => (.error e, records)
      | (.ok (), records) => cascadeRename renamed rest oldKey newKey records
  | _ :: _, none => (.ok (), records)

namespace RecordStore

/-- The key in the buffer of a handle, a missing cell taken as its default. -/
def bufferKey (store : RecordStore) (handle : UInt64) : List (FieldNo × Value) :=
  store.record.primaryKeyFields.map fun field =>
    (field, (((store.takeView handle).current.get? field).or (store.record.fieldDefaults.get? field)).getD .empty)

def coerceKey (store : RecordStore) (values : List Value) : Except String (List (FieldNo × Value)) :=
  (store.record.primaryKeyFields.zip values).mapM fun entry =>
    (store.coerceToField entry.1 entry.2).map fun coerced => (entry.1, coerced)

/-- Start and finish of a rename with no table code between them. -/
def renameRow (store : RecordStore) (handle : UInt64) (newKey : List (FieldNo × Value)) :
    Except RecordError Unit × RecordStore :=
  match store.record.renameIn (store.takeView handle) newKey with
  | (result, record, view) => (result, { store with record }.putView handle view)

end RecordStore

/-- `relations` is what `rename_cascades` answers for the table. -/
def dispatchRename (loadTableMeta : String → Except String TableMeta) (relations : Except String (List RenameCascade))
    (table : TableRef) (handle : UInt64) (values : List Value) (stmtPosition : Bool) (records : Records) :
    Except String Bool × Records :=
  match ensureStore loadTableMeta records table with
  | .error e => (.error e, records)
  | .ok (store, records) =>
      let keyLength := store.record.primaryKeyFields.length
      if values.length ≠ keyLength then
        (.error ("Rename: requires all " ++ toString keyLength ++ " primary-key values (got " ++
          toString values.length ++ ")"), records)
      else
        match store.coerceKey values with
        | .error e => (.error ("Rename: " ++ e), records)
        | .ok newKey =>
          let records := records.insert table.key (store.putView handle (store.takeView handle))
          match (if table.tempOwner.isSome then .ok [] else relations) with
          | .error reason => (.error ("Rename: " ++ reason), records)
          | .ok cascades =>
            match store.renameRow handle newKey with
            | (.error e, store) =>
                (if stmtPosition then .error ("Rename: " ++ e.message) else .ok false, records.insert table.key store)
            | (.ok (), renamed) =>
              match cascadeRename table.key cascades (store.bufferKey handle) newKey (records.insert table.key renamed) with
              | (.error e, records) => (.error ("Rename: " ++ e), records)
              | (.ok (), records) => (.ok true, records)

end Rename

end AlLanguage.Runtime
