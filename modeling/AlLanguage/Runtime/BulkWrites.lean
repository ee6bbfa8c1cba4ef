import AlLanguage.Runtime.Store
import AlLanguage.Runtime.Tables

/-!
# Writes of many rows

- `DeleteAll` and `ModifyAll` write in one pass, or row by row when table code runs for the rows.
- Table code is what the table's subscribers and triggers do. It can change anything, and can fail.
-/

namespace AlLanguage.Runtime

open Library

inductive RecordWrite where
  | insert
  | modify
  | delete
  deriving DecidableEq

/-- The tables, and whatever else table code reads and writes. -/
structure Context (ρ : Type) where
  records : Records
  rest : ρ

abbrev WriteOutcome (ρ : Type) := Except String Unit × Context ρ

/-- Around a write come the subscribers of OnBefore…Event, the trigger, and the subscribers of OnAfter…Event. `onBefore` also makes the copy
that they get as `xRec`. -/
structure TableCode (ρ : Type) where
  observed : RecordWrite → Bool
  declares : RecordWrite → Bool
  onBefore : RecordWrite → Bool → Context ρ → WriteOutcome ρ
  trigger : RecordWrite → Context ρ → WriteOutcome ρ
  onAfter : RecordWrite → Bool → Context ρ → WriteOutcome ρ
  /-- Bulk writes start with fresh globals of the record. -/
  hideGlobals : ρ → ρ
  /-- The globals are as in the first state again. -/
  restoreGlobals : ρ → ρ → ρ

/-- A table without subscribers and triggers. -/
def TableCode.none (ρ : Type) : TableCode ρ where
  observed _ := false
  declares _ := false
  onBefore _ _ ctx := (.ok (), ctx)
  trigger _ ctx := (.ok (), ctx)
  onAfter _ _ ctx := (.ok (), ctx)
  hideGlobals rest := rest
  restoreGlobals _ rest := rest

section Writes

variable [CaseMapping] {ρ : Type}

def Context.putStore (ctx : Context ρ) (key : String) (store : RecordStore) : Context ρ :=
  { ctx with records := ctx.records.insert key store }

def writeWithTableCode (code : TableCode ρ) (write : RecordWrite) (runTrigger : Bool) (operate : Context ρ → WriteOutcome ρ)
    (ctx : Context ρ) : WriteOutcome ρ :=
  match code.onBefore write runTrigger ctx with
  | (.error e, ctx) => (.error e, ctx)
  | (.ok (), ctx) =>
    match if runTrigger && code.declares write then code.trigger write ctx else (.ok (), ctx) with
    | (.error e, ctx) => (.error e, ctx)
    | (.ok (), ctx) =>
      match operate ctx with
      | (.error e, ctx) => (.error e, ctx)
      | (.ok (), ctx) => code.onAfter write runTrigger ctx

variable (code : TableCode ρ) (key : String) (handle : UInt64) (write : RecordWrite) (runTrigger : Bool) (assign : Option (FieldNo × Value))

def bulkMethod : RecordWrite → String
  | .modify => "ModifyAll"
  | _ => "DeleteAll"

/-- The write of the row in the buffer. A store is never taken away, so the last case is never reached. -/
def writeBuffer (ctx : Context ρ) : WriteOutcome ρ :=
  match ctx.records.get? key with
  | some store =>
    match (match write with
      | .modify => store.record.modifyIn (store.takeView handle) false
      | _ => store.record.deleteIn (store.takeView handle) false) with
    | (.ok (), record, view) => (.ok (), ctx.putStore key ({ store with record }.putView handle view))
    | (.error e, record, view) =>
        (.error (bulkMethod write ++ ": " ++ e.message), ctx.putStore key ({ store with record }.putView handle view))
  | none => (.error "store just ensured", ctx)

/-- The loop over the rows. Code that ran for an earlier row can have removed a later one. -/
def writeRows : List PrimaryKey → Context ρ → WriteOutcome ρ
  | [], ctx => (.ok (), ctx)
  | row :: rest, ctx =>
    match ctx.records.get? key with
    | some store =>
      match store.record.getIn (store.takeView handle) row with
      | (.error _, view) => writeRows rest (ctx.putStore key (store.putView handle view))
      | (.ok (), view) =>
          let view := match assign with
            | some (field, value) => MockRecord.fieldSetIn view field value
            | none => view
          match writeWithTableCode code write runTrigger (writeBuffer key handle write) (ctx.putStore key (store.putView handle view)) with
          | (.error e, ctx) => (.error e, ctx)
          | (.ok (), ctx) => writeRows rest ctx
    | none => (.error "store just ensured", ctx)

variable [DecimalSyntax] (loadTableMeta : String → Except String TableMeta) (table : TableRef)

/-- `DeleteAll`, or `ModifyAll` when a field is assigned. -/
def writeAll (ctx : Context ρ) : WriteOutcome ρ :=
  match ensureStore loadTableMeta ctx.records table with
  | .error e => (.error e, ctx)
  | .ok (store, records) =>
      let view := store.takeView handle
      if !(code.observed write || (runTrigger && code.declares write)) then
        match assign with
        | some (field, value) =>
            match store.record.modifyAllIn view field value false with
            | (.ok _, record) => (.ok (), { ctx with records := records.insert table.key ({ store with record }.putView handle view) })
            | (.error e, record) => (.error (bulkMethod write ++ ": " ++ e.message),
                { ctx with records := records.insert table.key ({ store with record }.putView handle view) })
        | none =>
            match store.record.deleteAllIn view false with
            | (.ok _, record, view) => (.ok (), { ctx with records := records.insert table.key ({ store with record }.putView handle view) })
            | (.error e, record, view) => (.error (bulkMethod write ++ ": " ++ e.message),
                { ctx with records := records.insert table.key ({ store with record }.putView handle view) })
      else
        let ctx := { ctx with records := records.insert table.key (store.putView handle view) }
        match assign with
        | some (field, _) =>
            if field ∈ store.record.primaryKeyFields then
              (.error (bulkMethod write ++ ": " ++ (RecordError.primaryKeyModifyAll field).message), ctx)
            else writeEach store view ctx
        | none => writeEach store view ctx
where
  /-- The rows of the set in the order of the current key, and the view as it was. -/
  writeEach (store : RecordStore) (view : RecordView) (ctx : Context ρ) : WriteOutcome ρ :=
    let hidden := { ctx with rest := code.hideGlobals ctx.rest }
    let (result, written) := writeRows code table.key handle write runTrigger assign (store.record.matchingKeysIn view) hidden
    let written := { written with rest := code.restoreGlobals ctx.rest written.rest }
    let saved := if write = .delete then view.clearCursor else view
    match written.records.get? table.key with
    | some store => (result, written.putStore table.key (store.putView handle saved))
    | none => (result, written)

end Writes

end AlLanguage.Runtime
