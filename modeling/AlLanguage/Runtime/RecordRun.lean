import AlLanguage.Library.Machine
import AlLanguage.Runtime.Store

/-!
# Runs of record operations

A session is one table with the views of any number of record variables over it. Each step is one
operation through one view, the table's built-in view included.
-/

namespace AlLanguage.Runtime

open Library Library.Machine

inductive Op where
  | fieldSet (field : FieldNo) (value : Value)
  | init
  | reset
  | reloadStored
  | get (key : PrimaryKey)
  | insert (runTrigger : Bool)
  | modify (runTrigger : Bool)
  | delete (runTrigger : Bool)
  | deleteAll (runTrigger : Bool)
  | rename (newKeyValues : List (FieldNo × Value))
  | startRename (newKeyValues : List (FieldNo × Value))
  | finishRename (pending : PendingRename)
  | cancelRename (pending : PendingRename)
  | modifyAll (field : FieldNo) (value : Value) (runTrigger : Bool)
  | setRange (field : FieldNo) (low high : Value)
  | setFilter (field : FieldNo) (expr : String)
  | clearFilter (field : FieldNo)
  | setCurrentKey (fields : List FieldNo)
  | setAscending (ascending : Bool)
  | findFirst
  | findLast
  | findSet
  | find (direction : Char)
  | next (steps : Int32)
  | clearCursor

inductive Reply where
  | done
  | found (any : Bool)
  | moved (steps : Int32)
  | rows (count : Nat)
  | renaming (pending : PendingRename)

inductive Target where
  | builtIn
  | recordVar (index : Nat)
deriving DecidableEq

inductive Action where
  | on (target : Target) (op : Op)
  | copyBuffers (target source : Target)
  | replaceFieldValue (field : FieldNo) (old new : Value)

structure Session where
  table : MockRecord
  views : Nat → RecordView

section Step

variable [CaseMapping] [DecimalSyntax]

namespace MockRecord

def perform (table : MockRecord) (view : RecordView) : Op → Except RecordError Reply × MockRecord × RecordView
  | .fieldSet field value => (.ok .done, table, fieldSetIn view field value)
  | .init => (.ok .done, table, table.initIn view)
  | .reset => (.ok .done, table, table.resetIn view)
  | .reloadStored => (.ok .done, table, table.reloadStoredIn view)
  | .get key => onView (table.getIn view key) fun _ => .done
  | .insert runTrigger => onTable (table.insertIn view runTrigger) fun _ => .done
  | .modify runTrigger => onTable (table.modifyIn view runTrigger) fun _ => .done
  | .delete runTrigger => onTable (table.deleteIn view runTrigger) fun _ => .done
  | .deleteAll runTrigger => onTable (table.deleteAllIn view runTrigger) .rows
  | .rename values => onTable (table.renameIn view values) fun _ => .done
  | .startRename values => onView (table.startRenameIn view values) .renaming
  | .finishRename pending => onTable (table.finishRenameIn view pending) fun _ => .done
  | .cancelRename pending => (.ok .done, table, cancelRenameIn view pending)
  | .modifyAll field value runTrigger =>
      let (result, table) := table.modifyAllIn view field value runTrigger
      (result.map .rows, table, view)
  | .setRange field low high => (.ok .done, table, setRangeIn view field low high)
  | .setFilter field expr => onView (setFilterIn view field expr) fun _ => .done
  | .clearFilter field => (.ok .done, table, clearFilterIn view field)
  | .setCurrentKey fields => (.ok .done, table, setCurrentKeyIn view fields)
  | .setAscending ascending => (.ok .done, table, setAscendingIn view ascending)
  | .findFirst => onView (table.findFirstIn view) .found
  | .findLast => onView (table.findLastIn view) .found
  | .findSet => onView (table.findSetIn view) .found
  | .find direction => onView (table.findIn view direction) .found
  | .next steps => onView (table.nextIn view steps) .moved
  | .clearCursor => (.ok .done, table, view.clearCursor)
where
  onView {α : Type} (result : Except RecordError α × RecordView) (reply : α → Reply) :
      Except RecordError Reply × MockRecord × RecordView := (result.1.map reply, table, result.2)
  onTable {α : Type} (result : Except RecordError α × MockRecord × RecordView) (reply : α → Reply) :
      Except RecordError Reply × MockRecord × RecordView := (result.1.map reply, result.2)

/-- Run `f` on the built-in view, which is out of the table meanwhile. -/
def withDefaultView {α : Type} (table : MockRecord)
    (f : MockRecord → RecordView → α × MockRecord × RecordView) : α × MockRecord :=
  let (result, table, view) := f { table with view := default } table.view
  (result, { table with view })

end MockRecord

namespace Session

def view (s : Session) : Target → RecordView
  | .builtIn => s.table.view
  | .recordVar index => s.views index

def setView (s : Session) (target : Target) (view : RecordView) : Session :=
  match target with
  | .builtIn => { s with table := { s.table with view } }
  | .recordVar index => { s with views := Function.update s.views index view }

def step (s : Session) : Action → Except RecordError Reply × Session
  | .on .builtIn op =>
      let (result, table) := s.table.withDefaultView fun table view => table.perform view op
      (result, { s with table })
  | .on (.recordVar index) op =>
      let (result, table, view) := s.table.perform (s.views index) op
      (result, { table, views := Function.update s.views index view })
  | .copyBuffers target source => (.ok .done, s.setView target ((s.view target).copyBuffersFrom (s.view source)))
  | .replaceFieldValue field old new =>
      let (result, table) := s.table.replaceFieldValue field old new
      (result.map .rows, { s with table })

def after (s : Session) (action : Action) : Session := (s.step action).2

end Session

/-! ## What a step does to the rows -/

/-- The stored rows `after` a successful operation through `view`, in terms of the rows before it. -/
def Touches (table : MockRecord) (view : RecordView) (reply : Reply) (after : Store) : Op → Prop
  | .insert _ => ∃ key, table.keyOfRow view.current = .ok key ∧ table.store key = none ∧
      after = table.store.put key view.current
  | .modify _ => ∃ key oldRow, table.keyOfRow view.current = .ok key ∧ table.store key = some oldRow ∧
      after = table.store.put key view.current
  | .delete _ => ∃ key oldRow, table.keyOfRow view.current = .ok key ∧ table.store key = some oldRow ∧
      after = table.store.remove key
  | .rename values => ∃ oldKey, table.keyOfRow view.current = .ok oldKey ∧
      RowMoves table oldKey (RecordView.setFields view.current values) after
  | .finishRename pending => RowMoves table pending.oldKey view.current after
  | .deleteAll _ => reply = .rows (table.countRows (MockRecord.selects view)) ∧
      after = table.store.keep fun row => !MockRecord.selects view row
  | .modifyAll field value _ => reply = .rows (table.countRows (MockRecord.selects view)) ∧
      field ∉ table.primaryKeyFields ∧ after = table.store.change (MockRecord.modifyRow view field value)
  | _ => after = table.store
where
  /-- One row moves from `oldKey` to the free key of `buffer`. -/
  RowMoves (table : MockRecord) (oldKey : PrimaryKey) (buffer : Row) (after : Store) : Prop :=
    ∃ newKey oldRow, table.keyOfRow buffer = .ok newKey ∧ table.store oldKey = some oldRow ∧
      (compare newKey oldKey = .eq ∨ table.store newKey = none) ∧
      after = (table.store.remove oldKey).put newKey buffer

/-- The stored rows after a successful replacement. -/
def TouchesReplaced (table : MockRecord) (field : FieldNo) (old new : Value) (reply : Reply) (after : Store) : Prop :=
  reply = .rows (table.countRows (table.cellHolds field (normalizeKeyValue old))) ∧
    if field ∈ table.primaryKeyFields then table.Replaces field old new after
    else after = table.store.change (table.replaceIn field old new)

/-- The effect of one step on the table, and on the buffer when a rename fails. -/
structure StepSpec (s : Session) (action : Action) (result : Except RecordError Reply) (s' : Session) : Prop where
  error : ∀ e, result = .error e → s'.table.rows = s.table.rows
  touches : ∀ target op reply, action = .on target op → result = .ok reply →
    Touches s.table (s.view target) reply s'.table.store op
  replaced : ∀ field old new reply, action = .replaceFieldValue field old new → result = .ok reply →
    TouchesReplaced s.table field old new reply s'.table.store
  copied : ∀ target source, action = .copyBuffers target source → s'.table.store = s.table.store
  renameFailed : ∀ target values e, action = .on target (.rename values) → result = .error e →
    s'.view target = s.view target
  renameStarted : ∀ target values pending, action = .on target (.startRename values) →
    result = .ok (.renaming pending) →
    pending.saved = (s.view target).current ∧ s.table.keyOfRow pending.saved = .ok pending.oldKey
  finishFailed : ∀ target pending e, action = .on target (.finishRename pending) → result = .error e →
    s'.view target = { s.view target with current := pending.saved }

namespace MockRecord

omit [CaseMapping] [DecimalSyntax] in
theorem onTable_ok {α : Type} {result : Except RecordError α × MockRecord × RecordView} {reply : α → Reply}
    {r : Reply} {table' : MockRecord} {view' : RecordView}
    (done : perform.onTable result reply = (.ok r, table', view')) :
    ∃ a, result = (.ok a, table', view') ∧ r = reply a := by
  obtain ⟨outcome, table, view⟩ := result
  cases outcome with
  | error e => cases done
  | ok a => cases done; exact ⟨a, rfl, rfl⟩

omit [CaseMapping] [DecimalSyntax] in
theorem onTable_error {α : Type} {result : Except RecordError α × MockRecord × RecordView} {reply : α → Reply}
    {e : RecordError} {table' : MockRecord} {view' : RecordView}
    (failed : perform.onTable result reply = (.error e, table', view')) : result = (.error e, table', view') := by
  obtain ⟨outcome, table, view⟩ := result
  cases outcome with
  | error e => cases failed; rfl
  | ok a => cases failed

omit [DecimalSyntax] in
theorem Moves.rowMoves {table table' : MockRecord} {oldKey : PrimaryKey} {buffer : Row}
    (moves : Moves table table' oldKey buffer) :
    ∃ after, Touches.RowMoves table oldKey buffer after ∧ Stores table table' after := by
  obtain ⟨newKey, oldRow, own, stored, vacant, stores⟩ := moves
  exact ⟨_, ⟨newKey, oldRow, own, stored, vacant, rfl⟩, stores⟩

theorem perform_ok {table table' : MockRecord} {view view' : RecordView} {op : Op} {reply : Reply}
    (done : table.perform view op = (.ok reply, table', view')) :
    ∃ after, Touches table view reply after op ∧ Stores table table' after := by
  cases op
  case insert runTrigger =>
    obtain ⟨_, inserted, _⟩ := onTable_ok done
    obtain ⟨key, own, absent, stores⟩ := insertIn_ok inserted
    exact ⟨_, ⟨key, own, absent, rfl⟩, stores⟩
  case modify runTrigger =>
    obtain ⟨_, modified, _⟩ := onTable_ok done
    obtain ⟨key, oldRow, own, stored, stores⟩ := modifyIn_ok modified
    exact ⟨_, ⟨key, oldRow, own, stored, rfl⟩, stores⟩
  case delete runTrigger =>
    obtain ⟨_, deleted, _⟩ := onTable_ok done
    obtain ⟨key, oldRow, own, stored, stores, _⟩ := deleteIn_ok deleted
    exact ⟨_, ⟨key, oldRow, own, stored, rfl⟩, stores⟩
  case deleteAll runTrigger =>
    obtain ⟨count, deleted, replied⟩ := onTable_ok done
    obtain ⟨rfl, stores⟩ := deleteAllIn_ok deleted
    exact ⟨_, ⟨replied, rfl⟩, stores⟩
  case rename values =>
    obtain ⟨_, renamed, _⟩ := onTable_ok done
    obtain ⟨oldKey, own, moves⟩ := renameIn_ok renamed
    obtain ⟨after, rowMoves, stores⟩ := moves.rowMoves
    exact ⟨after, ⟨oldKey, own, rowMoves⟩, stores⟩
  case finishRename pending =>
    obtain ⟨_, finished, _⟩ := onTable_ok done
    exact (finishRenameIn_ok finished).1.rowMoves
  case modifyAll field value runTrigger =>
    rw [perform] at done
    cases modified : table.modifyAllIn view field value runTrigger with
    | mk outcome changedTable =>
        cases outcome with
        | error e => simp [modified, Except.map] at done
        | ok count =>
            simp only [modified, Except.map] at done
            cases done
            obtain ⟨rfl, outside, stores⟩ := modifyAllIn_ok modified
            exact ⟨_, ⟨rfl, outside, rfl⟩, stores⟩
  all_goals
    obtain rfl : table' = table := (congrArg (·.2.1) done).symm
    exact ⟨table'.store, rfl, Stores.refl table'⟩

/-- A failed operation leaves the table as it was. -/
theorem perform_error {table table' : MockRecord} {view view' : RecordView} {op : Op} {e : RecordError}
    (failed : table.perform view op = (.error e, table', view')) : table' = table := by
  cases op
  case insert runTrigger => exact (insertIn_error (onTable_error failed)).1
  case modify runTrigger => exact (modifyIn_error (onTable_error failed)).1
  case delete runTrigger => exact (deleteIn_error (onTable_error failed)).1
  case deleteAll runTrigger => exact (deleteAllIn_error (onTable_error failed)).1
  case rename values => exact (renameIn_error (onTable_error failed)).1
  case finishRename pending => exact (finishRenameIn_error (onTable_error failed)).1
  case modifyAll field value runTrigger =>
    rw [perform] at failed
    cases modified : table.modifyAllIn view field value runTrigger with
    | mk outcome changedTable =>
        cases outcome with
        | error e =>
            simp only [modified, Except.map] at failed
            cases failed
            exact modifyAllIn_error modified
        | ok count => simp [modified, Except.map] at failed
  all_goals exact (congrArg (·.2.1) failed).symm

/-- Every operation keeps the rows under their own keys. -/
theorem Touches.keyed {table : MockRecord} {view : RecordView} {reply : Reply} {after : Store} {op : Op}
    (touches : Touches table view reply after op) (keyed : table.Keyed) : Store.Keyed table.keyOfRow after := by
  cases op
  case insert runTrigger =>
    obtain ⟨key, own, _, rfl⟩ := touches
    exact keyed.put own
  case modify runTrigger =>
    obtain ⟨key, _, own, _, rfl⟩ := touches
    exact keyed.put own
  case delete runTrigger =>
    obtain ⟨key, _, _, _, rfl⟩ := touches
    exact keyed.remove key
  case deleteAll runTrigger =>
    obtain ⟨_, rfl⟩ := touches
    exact keyed.keep _
  case rename values =>
    obtain ⟨_, _, newKey, _, own, _, _, rfl⟩ := touches
    exact (keyed.remove _).put own
  case finishRename pending =>
    obtain ⟨newKey, _, own, _, _, rfl⟩ := touches
    exact (keyed.remove _).put own
  case modifyAll field value runTrigger =>
    obtain ⟨_, outside, rfl⟩ := touches
    refine keyed.change fun row => ?_
    unfold modifyRow
    split
    · exact table.keyOfRow_insert outside row value
    · rfl
  all_goals
    obtain rfl : after = table.store := touches
    exact keyed

omit [DecimalSyntax] in
theorem TouchesReplaced.keyed {table : MockRecord} {field : FieldNo} {old new : Value} {reply : Reply} {after : Store}
    (touches : TouchesReplaced table field old new reply after) (keyed : table.Keyed) :
    Store.Keyed table.keyOfRow after := by
  obtain ⟨_, rows⟩ := touches
  split at rows
  · exact rows.keyed keyed
  next outside =>
    subst rows
    refine keyed.change fun row => ?_
    unfold replaceIn
    split
    · exact table.keyOfRow_insert outside row new
    · rfl

omit [DecimalSyntax] in
theorem replaceFieldValue_ok {table table' : MockRecord} {field : FieldNo} {old new : Value} {changed : Nat}
    (done : table.replaceFieldValue field old new = (.ok changed, table')) :
    ∃ after, TouchesReplaced table field old new (.rows changed) after ∧ Stores table table' after := by
  have count := replaceFieldValue_count done
  by_cases inside : field ∈ table.primaryKeyFields
  · obtain ⟨schema, replaces⟩ := replaceFieldValue_ok_inside inside done
    exact ⟨table'.store, ⟨by rw [count], by rw [if_pos inside]; exact replaces⟩, schema, rfl⟩
  · exact ⟨_, ⟨by rw [count], if_neg inside ▸ rfl⟩, replaceFieldValue_ok_outside inside done⟩

end MockRecord

/-! ## Sessions -/

namespace Session

/-- Both targets run the operation on a table with the rows and the key of the session's table. -/
theorem step_on (s : Session) (target : Target) (op : Op) :
    ∃ (table : MockRecord) (result : Except RecordError Reply) (table' : MockRecord) (view' : RecordView),
      table = { s.table with view := table.view } ∧
      table.perform (s.view target) op = (result, table', view') ∧
      (s.step (.on target op)).1 = result ∧ (s.after (.on target op)).view target = view' ∧
      ∃ shown, (s.after (.on target op)).table = { table' with view := shown } := by
  cases target with
  | builtIn => exact ⟨{ s.table with view := default }, _, _, _, rfl, rfl, rfl, rfl, _, rfl⟩
  | recordVar index => exact ⟨s.table, _, _, _, rfl, rfl, rfl, Function.update_self .., _, rfl⟩

omit [CaseMapping] [DecimalSyntax] in
theorem setView_store (s : Session) (target : Target) (view : RecordView) :
    (s.setView target view).table.store = s.table.store := by cases target <;> rfl

theorem step_spec (s : Session) (action : Action) : StepSpec s action (s.step action).1 (s.after action) := by
  cases action with
  | on target op =>
      obtain ⟨table, result, table', view', schema, performed, resultEq, viewEq, shown, tableEq⟩ :=
        s.step_on target op
      rw [resultEq]
      refine ⟨?_, ?_, ?_, ?_, ?_, ?_, ?_⟩
      · rintro e rfl
        rw [tableEq, MockRecord.perform_error performed]
        rw [schema]
      · rintro _ _ reply ⟨rfl, rfl⟩ rfl
        obtain ⟨after, touches, stores⟩ := MockRecord.perform_ok performed
        have stored : (s.after (.on target op)).table.store = after := by rw [tableEq]; exact stores.rows
        rw [stored]
        rw [schema] at touches
        cases op <;> exact touches
      · rintro _ _ _ _ ⟨⟩
      · rintro _ _ ⟨⟩
      · rintro _ values e ⟨rfl, rfl⟩ rfl
        rw [viewEq]
        exact (MockRecord.renameIn_error (MockRecord.onTable_error performed)).2
      · rintro _ values pending ⟨rfl, rfl⟩ rfl
        cases started : table.startRenameIn (s.view target) values with
        | mk outcome startedView =>
            rw [MockRecord.perform, MockRecord.perform.onView, started] at performed
            cases outcome with
            | error e => cases performed
            | ok pending' =>
                cases performed
                obtain ⟨own, saved, _⟩ := MockRecord.startRenameIn_ok started
                rw [schema] at own
                exact ⟨saved, saved ▸ own⟩
      · rintro _ pending e ⟨rfl, rfl⟩ rfl
        rw [viewEq]
        exact (MockRecord.finishRenameIn_error (MockRecord.onTable_error performed)).2
  | copyBuffers target source =>
      refine ⟨?_, ?_, ?_, ?_, ?_, ?_, ?_⟩
      · rintro _ ⟨⟩
      · rintro _ _ _ ⟨⟩
      · rintro _ _ _ _ ⟨⟩
      · intro _ _ _
        exact s.setView_store target _
      all_goals rintro _ _ _ ⟨⟩
  | replaceFieldValue field old new =>
      cases replaced : s.table.replaceFieldValue field old new with
      | mk outcome table' =>
          have tableEq : (s.after (.replaceFieldValue field old new)).table = table' := by
            simp only [after, step, replaced]
          have resultEq : (s.step (.replaceFieldValue field old new)).1 = outcome.map .rows := by
            simp only [step, replaced]
          rw [resultEq]
          refine ⟨?_, ?_, ?_, ?_, ?_, ?_, ?_⟩
          · intro e failed
            cases outcome with
            | error e => rw [tableEq, MockRecord.replaceFieldValue_error replaced]
            | ok changed => cases failed
          · rintro _ _ _ ⟨⟩
          · rintro _ _ _ reply ⟨rfl, rfl, rfl⟩ done
            cases outcome with
            | error e => cases done
            | ok changed =>
                cases done
                obtain ⟨after, touches, stores⟩ := MockRecord.replaceFieldValue_ok replaced
                rw [tableEq, stores.rows]
                exact touches
          · rintro _ _ ⟨⟩
          all_goals rintro _ _ _ ⟨⟩

theorem after_keyed (s : Session) (action : Action) (keyed : s.table.Keyed) : (s.after action).table.Keyed := by
  cases action with
  | on target op =>
      obtain ⟨table, result, table', view', schema, performed, _, _, shown, tableEq⟩ := s.step_on target op
      have before : table.Keyed := by rw [schema]; exact keyed
      rw [tableEq]
      cases result with
      | error e => exact MockRecord.perform_error performed ▸ before
      | ok reply =>
          obtain ⟨after, touches, stores⟩ := MockRecord.perform_ok performed
          exact stores.keyed (MockRecord.Touches.keyed touches before)
  | copyBuffers target source => cases target <;> exact keyed
  | replaceFieldValue field old new =>
      cases replaced : s.table.replaceFieldValue field old new with
      | mk outcome table' =>
          have tableEq : (s.after (.replaceFieldValue field old new)).table = table' := by
            simp only [after, step, replaced]
          rw [tableEq]
          cases outcome with
          | error e => exact MockRecord.replaceFieldValue_error replaced ▸ keyed
          | ok changed =>
              obtain ⟨after, touches, stores⟩ := MockRecord.replaceFieldValue_ok replaced
              exact stores.keyed (MockRecord.TouchesReplaced.keyed touches keyed)

theorem step_get (s : Session) (target : Target) {key k : PrimaryKey} {row : Row}
    (stored : s.table.store k = some row) (same : compare (normalizeKey key) k = .eq) :
    s.step (.on target (.get key)) =
      (.ok .done, s.setView target { s.view target with current := row, xRec := row }) := by
  have found : s.table.rows.get? (normalizeKey key) = some row := (s.table.rows.get?_congr same).trans stored
  cases target <;>
    simp only [step, MockRecord.withDefaultView, MockRecord.perform, MockRecord.perform.onView, MockRecord.getIn,
      found, setView, view, Except.map]

def start (tableId : Int) (tableName : String) (primaryKeyFields : List FieldNo)
    (fieldDefaults : OrderedMap FieldNo Value) (views : Nat → RecordView) : Session where
  table := (MockRecord.new tableId tableName primaryKeyFields).withFieldDefaults fieldDefaults
  views

theorem run_keyed (tableId : Int) (tableName : String) (primaryKeyFields : List FieldNo)
    (fieldDefaults : OrderedMap FieldNo Value) (views : Nat → RecordView) (actions : List Action) :
    (run after (start tableId tableName primaryKeyFields fieldDefaults views) actions).table.Keyed := by
  have initial : (start tableId tableName primaryKeyFields fieldDefaults views).table.Keyed :=
    fun k row stored => by cases stored
  exact @run_invariant _ _ after (fun s : Session => s.table.Keyed) after_keyed _ initial actions

/-- Whatever runs through whatever views, a table is a keyed store: rows lie under their own key, no two
under one, `get` finds them by it, and each further step does to the rows what its operation says. -/
theorem run_keyedStore (tableId : Int) (tableName : String) (primaryKeyFields : List FieldNo)
    (fieldDefaults : OrderedMap FieldNo Value) (views : Nat → RecordView) (actions : List Action) :
    let s := run after (start tableId tableName primaryKeyFields fieldDefaults views) actions
    (∀ entry ∈ s.table.rows.entries,
      ∃ own, s.table.keyOfRow entry.2 = .ok own ∧ compare entry.1 own = .eq) ∧
    (∀ a ∈ s.table.rows.entries, ∀ b ∈ s.table.rows.entries, ∀ own own',
      s.table.keyOfRow a.2 = .ok own → s.table.keyOfRow b.2 = .ok own' → compare own own' = .eq → a = b) ∧
    (∀ entry ∈ s.table.rows.entries, ∀ target key, compare (normalizeKey key) entry.1 = .eq →
      s.step (.on target (.get key)) =
        (.ok .done, s.setView target { s.view target with current := entry.2, xRec := entry.2 })) ∧
    ∀ action, StepSpec s action (s.step action).1 (s.after action) := by
  intro s
  have keyed : s.table.Keyed := run_keyed tableId tableName primaryKeyFields fieldDefaults views actions
  have own (entry) (member : entry ∈ s.table.rows.entries) := keyed entry.1 entry.2 (s.table.rows.get?_of_mem member)
  refine ⟨own, fun a aMem b bMem ka kb aKey bKey same => ?_, fun entry member target key same => ?_, s.step_spec⟩
  · obtain ⟨joined, _⟩ := keyed.unique s.table.store_congr (s.table.rows.get?_of_mem aMem)
      (s.table.rows.get?_of_mem bMem) aKey bKey same
    exact s.table.rows.entry_unique aMem bMem joined
  · exact s.step_get target (s.table.rows.get?_of_mem member) same

end Session

end Step

end AlLanguage.Runtime
