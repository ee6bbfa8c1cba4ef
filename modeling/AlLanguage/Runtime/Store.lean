import AlLanguage.Runtime.Record

/-!
# The keyed store

What a record table is for: a partial function from primary keys to rows, where keys that compare equal
are one key. `Keyed` is the invariant that every row lies under its own key.
-/

namespace AlLanguage.Runtime

open Library

abbrev Store := PrimaryKey → Option Row

namespace Store

def put (store : Store) (key : PrimaryKey) (row : Row) : Store :=
  fun k => if compare key k = .eq then some row else store k

def remove (store : Store) (key : PrimaryKey) : Store :=
  fun k => if compare key k = .eq then none else store k

/-- Keep the rows that satisfy `p`. -/
def keep (store : Store) (p : Row → Bool) : Store := fun k => (store k).filter p

def change (store : Store) (f : Row → Row) : Store := fun k => (store k).map f

/-- Every row is stored under the key that `keyOf` computes for it. -/
def Keyed (keyOf : Row → Except RecordError PrimaryKey) (store : Store) : Prop :=
  ∀ k row, store k = some row → ∃ own, keyOf row = .ok own ∧ compare k own = .eq

variable {keyOf : Row → Except RecordError PrimaryKey} {store : Store}

theorem Keyed.put (keyed : Keyed keyOf store) {key : PrimaryKey} {row : Row} (own : keyOf row = .ok key) :
    Keyed keyOf (store.put key row) := by
  intro k found stored
  rw [Store.put] at stored
  split at stored
  next same =>
    cases stored
    exact ⟨key, own, Std.OrientedCmp.eq_symm same⟩
  next => exact keyed k found stored

theorem Keyed.remove (keyed : Keyed keyOf store) (key : PrimaryKey) : Keyed keyOf (store.remove key) := by
  intro k found stored
  rw [Store.remove] at stored
  split at stored
  next => cases stored
  next => exact keyed k found stored

theorem Keyed.keep (keyed : Keyed keyOf store) (p : Row → Bool) : Keyed keyOf (store.keep p) :=
  fun k found stored => keyed k found (Option.filter_eq_some_iff.mp stored).1

theorem Keyed.change (keyed : Keyed keyOf store) {f : Row → Row} (sameKey : ∀ row, keyOf (f row) = keyOf row) :
    Keyed keyOf (store.change f) := by
  intro k found stored
  obtain ⟨row, before, rfl⟩ := Option.map_eq_some_iff.mp stored
  rw [sameKey]
  exact keyed k row before

/-- Rows with one key are one row. -/
theorem Keyed.unique (keyed : Keyed keyOf store)
    (congr : ∀ {k k'}, compare k k' = .eq → store k = store k') {k k' own own' : PrimaryKey} {row row' : Row}
    (left : store k = some row) (right : store k' = some row') (leftOwn : keyOf row = .ok own)
    (rightOwn : keyOf row' = .ok own') (same : compare own own' = .eq) : compare k k' = .eq ∧ row = row' := by
  obtain ⟨leftKey, leftOk, leftSame⟩ := keyed k row left
  obtain ⟨rightKey, rightOk, rightSame⟩ := keyed k' row' right
  obtain rfl : leftKey = own := by simpa [leftOk] using leftOwn
  obtain rfl : rightKey = own' := by simpa [rightOk] using rightOwn
  have joined : compare k k' = .eq :=
    Std.TransCmp.eq_trans (Std.TransCmp.eq_trans leftSame same) (Std.OrientedCmp.eq_symm rightSame)
  refine ⟨joined, Option.some.inj ?_⟩
  rw [← left, ← right, congr joined]

end Store

namespace MockRecord

/-- The rows of a table as a keyed store. -/
def store (table : MockRecord) : Store := table.rows.get?

theorem store_congr (table : MockRecord) {k k' : PrimaryKey} (same : compare k k' = .eq) :
    table.store k = table.store k' := table.rows.get?_congr same

theorem store_insert (rows : OrderedMap PrimaryKey Row) (key : PrimaryKey) (row : Row) :
    (rows.insert key row).get? = Store.put rows.get? key row := funext (rows.get?_insert key · row)

theorem store_erase (rows : OrderedMap PrimaryKey Row) (key : PrimaryKey) :
    (rows.erase key).get? = Store.remove rows.get? key := funext (rows.get?_erase key)

theorem store_mapValues (rows : OrderedMap PrimaryKey Row) (f : Row → Row) :
    (rows.mapValues fun _ row => f row).get? = Store.change rows.get? f := funext (rows.get?_mapValues f)

/-- `table'` is `table` with the rows `after`. -/
structure Stores (table table' : MockRecord) (after : Store) : Prop where
  schema : table' = { table with rows := table'.rows }
  rows : table'.store = after

theorem Stores.refl (table : MockRecord) : Stores table table table.store := ⟨rfl, rfl⟩

def countRows (table : MockRecord) (p : Row → Bool) : Nat := table.rows.values.countP p

theorem length_keys_filter (table : MockRecord) (p : Row → Bool) :
    (table.rows.filter fun _ row => p row).keys.length = table.countRows p := by
  simp [OrderedMap.keys, OrderedMap.values, countRows, List.countP_eq_length_filter, List.filter_map,
    Function.comp_def]

section Rows

variable [CaseMapping]

def Keyed (table : MockRecord) : Prop := Store.Keyed table.keyOfRow table.store

theorem Stores.keyOfRow {table table' : MockRecord} {after : Store} (stores : Stores table table' after) :
    table'.keyOfRow = table.keyOfRow := by rw [stores.schema]; rfl

theorem Stores.keyed {table table' : MockRecord} {after : Store} (stores : Stores table table' after)
    (keyed : Store.Keyed table.keyOfRow after) : table'.Keyed := by
  rw [Keyed, stores.keyOfRow, stores.rows]
  exact keyed

/-- A field outside the primary key does not move a row. -/
theorem keyOfRow_insert (table : MockRecord) {field : FieldNo} (outside : field ∉ table.primaryKeyFields)
    (row : Row) (value : Value) : table.keyOfRow (row.insert field value) = table.keyOfRow row := by
  refine mapM_congr fun key member => ?_
  have other : compare field key ≠ .eq := by
    rw [ne_eq, Std.LawfulEqOrd.compare_eq_iff_eq]
    rintro rfl
    exact outside member
  rw [keyCell, keyCell, OrderedMap.get?_insert, if_neg other]

/-! ## Operations on one row -/

theorem insertIn_ok {table table' : MockRecord} {view view' : RecordView} {runTrigger : Bool}
    (done : table.insertIn view runTrigger = (.ok (), table', view')) :
    ∃ key, table.keyOfRow view.current = .ok key ∧ table.store key = none ∧
      Stores table table' (table.store.put key view.current) := by
  unfold insertIn at done
  split at done
  · cases done
  cases found : table.currentPrimaryKey view with
  | error e => simp [found] at done
  | ok key =>
      simp only [found] at done
      split at done
      next => cases done
      next free =>
        cases done
        have absent : table.store key = none := (table.rows.contains_eq_false_iff key).mp (by simpa using free)
        exact ⟨key, found, absent, rfl, store_insert table.rows key view.current⟩

theorem insertIn_error {table table' : MockRecord} {view view' : RecordView} {runTrigger : Bool}
    {e : RecordError} (failed : table.insertIn view runTrigger = (.error e, table', view')) :
    table' = table ∧ view' = view := by
  unfold insertIn at failed
  split at failed
  · cases failed; exact ⟨rfl, rfl⟩
  split at failed
  · cases failed; exact ⟨rfl, rfl⟩
  split at failed <;> cases failed
  exact ⟨rfl, rfl⟩

theorem modifyIn_ok {table table' : MockRecord} {view view' : RecordView} {runTrigger : Bool}
    (done : table.modifyIn view runTrigger = (.ok (), table', view')) :
    ∃ key oldRow, table.keyOfRow view.current = .ok key ∧ table.store key = some oldRow ∧
      Stores table table' (table.store.put key view.current) := by
  unfold modifyIn at done
  split at done
  · cases done
  cases found : table.currentPrimaryKey view with
  | error e => simp [found] at done
  | ok key =>
      cases stored : table.rows.get? key with
      | none => simp [found, stored] at done
      | some oldRow =>
          simp only [found, stored] at done
          cases done
          exact ⟨key, oldRow, found, stored, rfl, store_insert table.rows key view.current⟩

theorem modifyIn_error {table table' : MockRecord} {view view' : RecordView} {runTrigger : Bool}
    {e : RecordError} (failed : table.modifyIn view runTrigger = (.error e, table', view')) :
    table' = table ∧ view' = view := by
  unfold modifyIn at failed
  split at failed
  · cases failed; exact ⟨rfl, rfl⟩
  split at failed
  · cases failed; exact ⟨rfl, rfl⟩
  split at failed <;> cases failed
  exact ⟨rfl, rfl⟩

theorem deleteIn_ok {table table' : MockRecord} {view view' : RecordView} {runTrigger : Bool}
    (done : table.deleteIn view runTrigger = (.ok (), table', view')) :
    ∃ key oldRow, table.keyOfRow view.current = .ok key ∧ table.store key = some oldRow ∧
      Stores table table' (table.store.remove key) ∧ view' = view := by
  unfold deleteIn at done
  split at done
  · cases done
  cases found : table.currentPrimaryKey view with
  | error e => simp [found] at done
  | ok key =>
      simp only [found] at done
      split at done
      next present =>
        cases done
        obtain ⟨oldRow, stored⟩ := (table.rows.contains_iff key).mp present
        exact ⟨key, oldRow, found, stored, ⟨rfl, store_erase table.rows key⟩, rfl⟩
      next => cases done

theorem deleteIn_error {table table' : MockRecord} {view view' : RecordView} {runTrigger : Bool}
    {e : RecordError} (failed : table.deleteIn view runTrigger = (.error e, table', view')) :
    table' = table ∧ view' = view := by
  unfold deleteIn at failed
  split at failed
  · cases failed; exact ⟨rfl, rfl⟩
  split at failed
  · cases failed; exact ⟨rfl, rfl⟩
  split at failed <;> cases failed
  exact ⟨rfl, rfl⟩

/-! ## Rename -/

/-- The row under `oldKey` moves to the key of `buffer`, which no other row holds. -/
def Moves (table table' : MockRecord) (oldKey : PrimaryKey) (buffer : Row) : Prop :=
  ∃ newKey oldRow, table.keyOfRow buffer = .ok newKey ∧ table.store oldKey = some oldRow ∧
    (compare newKey oldKey = .eq ∨ table.store newKey = none) ∧
    Stores table table' ((table.store.remove oldKey).put newKey buffer)

theorem moveRenamedRow_ok {table table' : MockRecord} {view view' : RecordView} {oldKey : PrimaryKey}
    (done : table.moveRenamedRow view oldKey = (.ok (), table', view')) :
    Moves table table' oldKey view.current ∧ view'.current = view.current := by
  unfold moveRenamedRow at done
  cases found : table.currentPrimaryKey view with
  | error e => simp [found] at done
  | ok newKey =>
      cases stored : table.rows.get? oldKey with
      | none => simp [found, stored] at done
      | some oldRow =>
          simp only [found, stored] at done
          split at done
          next => cases done
          next free =>
            cases done
            have vacant : compare newKey oldKey = .eq ∨ table.store newKey = none := by
              rw [Bool.and_eq_true, not_and_or] at free
              refine free.imp (fun same => by simpa using same) fun absent => ?_
              exact (table.rows.contains_eq_false_iff newKey).mp (by simpa using absent)
            refine ⟨⟨newKey, oldRow, found, stored, vacant, rfl, ?_⟩, rfl⟩
            rw [store, store_insert, store_erase]
            rfl

theorem moveRenamedRow_error {table table' : MockRecord} {view view' : RecordView} {oldKey : PrimaryKey}
    {e : RecordError} (failed : table.moveRenamedRow view oldKey = (.error e, table', view')) :
    table' = table ∧ view' = view := by
  unfold moveRenamedRow at failed
  split at failed
  · cases failed; exact ⟨rfl, rfl⟩
  split at failed
  · cases failed; exact ⟨rfl, rfl⟩
  split at failed <;> cases failed
  exact ⟨rfl, rfl⟩

theorem finishRenameIn_ok {table table' : MockRecord} {view view' : RecordView} {pending : PendingRename}
    (done : table.finishRenameIn view pending = (.ok (), table', view')) :
    Moves table table' pending.oldKey view.current ∧ view'.current = view.current := by
  unfold finishRenameIn at done
  split at done
  · cases done
  · exact moveRenamedRow_ok done

theorem finishRenameIn_error {table table' : MockRecord} {view view' : RecordView} {pending : PendingRename}
    {e : RecordError} (failed : table.finishRenameIn view pending = (.error e, table', view')) :
    table' = table ∧ view' = { view with current := pending.saved } := by
  unfold finishRenameIn at failed
  split at failed
  next moved =>
    cases failed
    obtain ⟨rfl, rfl⟩ := moveRenamedRow_error moved
    exact ⟨rfl, rfl⟩
  next unmoved => exact absurd failed (unmoved e table' view')

theorem startRenameIn_ok {table : MockRecord} {view view' : RecordView} {values : List (FieldNo × Value)}
    {pending : PendingRename} (done : table.startRenameIn view values = (.ok pending, view')) :
    table.keyOfRow view.current = .ok pending.oldKey ∧ pending.saved = view.current ∧
      view' = { view with current := RecordView.setFields view.current values } := by
  unfold startRenameIn at done
  split at done
  · cases done
  next found => cases done; exact ⟨found, rfl, rfl⟩

theorem renameIn_ok {table table' : MockRecord} {view view' : RecordView} {values : List (FieldNo × Value)}
    (done : table.renameIn view values = (.ok (), table', view')) :
    ∃ oldKey, table.keyOfRow view.current = .ok oldKey ∧
      Moves table table' oldKey (RecordView.setFields view.current values) := by
  unfold renameIn at done
  split at done
  · cases done
  next pending started startedEq =>
    obtain ⟨found, _, rfl⟩ := startRenameIn_ok startedEq
    exact ⟨pending.oldKey, found, (finishRenameIn_ok done).1⟩

/-- A failed rename leaves table and buffer as they were. -/
theorem renameIn_error {table table' : MockRecord} {view view' : RecordView} {values : List (FieldNo × Value)}
    {e : RecordError} (failed : table.renameIn view values = (.error e, table', view')) :
    table' = table ∧ view' = view := by
  unfold renameIn at failed
  split at failed
  next started =>
    cases failed
    unfold startRenameIn at started
    split at started <;> cases started
    exact ⟨rfl, rfl⟩
  next pending started startedEq =>
    obtain ⟨_, saved, rfl⟩ := startRenameIn_ok startedEq
    obtain ⟨rfl, rfl⟩ := finishRenameIn_error failed
    exact ⟨rfl, by rw [saved]⟩

/-! ## Replacing a related value -/

def replaceIn (table : MockRecord) (field : FieldNo) (old new : Value) (row : Row) : Row :=
  if table.cellHolds field (normalizeKeyValue old) row then row.insert field new else row

/-- The row under `key` holds `old` and moves to `newKey` as `row`. -/
def MovesTo (table : MockRecord) (field : FieldNo) (old new : Value) (key newKey : PrimaryKey) (row' : Row) : Prop :=
  ∃ row, table.store key = some row ∧ table.cellHolds field (normalizeKeyValue old) row = true ∧
    row' = row.insert field new ∧ table.keyOfRow row' = .ok newKey

/-- The rows that hold `old` are filed under their new keys with `new`, the other rows are as they were,
and no two rows meet under one key. -/
structure Replaces (table : MockRecord) (field : FieldNo) (old new : Value) (after : Store) : Prop where
  rows : ∀ k row', after k = some row' ↔
    (table.store k = some row' ∧ table.cellHolds field (normalizeKeyValue old) row' = false) ∨
    ∃ key newKey, table.MovesTo field old new key newKey row' ∧ compare newKey k = .eq
  apart : ∀ key key' newKey newKey' row row', table.MovesTo field old new key newKey row →
    table.MovesTo field old new key' newKey' row' → compare newKey newKey' = .eq → compare key key' = .eq
  free : ∀ key newKey row k stays, table.MovesTo field old new key newKey row → table.store k = some stays →
    table.cellHolds field (normalizeKeyValue old) stays = false → compare newKey k ≠ .eq

omit [CaseMapping] in
theorem newKeysFree_spec {rows : OrderedMap PrimaryKey Row} {vacated taken newKeys : List PrimaryKey}
    (free : newKeysFree rows vacated taken newKeys = true) :
    (∀ key ∈ newKeys, rows.get? key = none ∨ ∃ other ∈ vacated, compare other key = .eq) ∧
      newKeys.Pairwise (fun a b => compare a b ≠ .eq) ∧
      ∀ key ∈ newKeys, ∀ other ∈ taken, compare key other ≠ .eq := by
  induction newKeys generalizing taken with
  | nil => simp
  | cons newKey rest ih =>
      rw [newKeysFree] at free
      split at free
      next => cases free
      next clear =>
        obtain ⟨later, apart, untaken⟩ := ih free
        simp only [Bool.or_eq_true, Bool.and_eq_true, not_or, not_and, Bool.not_eq_true', Bool.not_eq_false,
          keyMem, List.any_eq_true, beq_iff_eq, not_exists] at clear
        refine ⟨fun key member => ?_, List.pairwise_cons.mpr ⟨fun key member same => ?_, apart⟩,
          fun key member other earlier same => ?_⟩
        · rcases List.mem_cons.mp member with rfl | inside
          · by_cases held : rows.contains key = true
            · obtain ⟨other, vacant, same⟩ := clear.1 held
              exact .inr ⟨other, vacant, Std.OrientedCmp.eq_symm same⟩
            · exact .inl ((rows.contains_eq_false_iff key).mp (by simpa using held))
          · exact later key inside
        · exact untaken key member newKey (List.mem_cons_self ..) (Std.OrientedCmp.eq_symm same)
        · rcases List.mem_cons.mp member with rfl | inside
          · exact clear.2 other earlier same
          · exact untaken key inside other (List.mem_cons_of_mem _ earlier) same

theorem movedRow_ok {table : MockRecord} {field : FieldNo} {new : Value} {key : PrimaryKey}
    {moved : PrimaryKey × PrimaryKey × Row} (done : table.movedRow field new key = .ok moved) :
    moved.1 = key ∧ moved.2.2 = ((table.rows.get? key).getD .empty).insert field new ∧
      table.keyOfRow moved.2.2 = .ok moved.2.1 := by
  unfold movedRow at done
  cases found : table.keyOfRow (((table.rows.get? key).getD .empty).insert field new) with
  | error e => simp [found, bind, Except.bind] at done
  | ok newKey =>
      simp only [found, bind, Except.bind, pure, Except.pure, Except.ok.injEq] at done
      subst done
      exact ⟨rfl, rfl, found⟩

theorem replaceFieldValue_error {table table' : MockRecord} {field : FieldNo} {old new : Value} {e : RecordError}
    (failed : table.replaceFieldValue field old new = (.error e, table')) : table' = table := by
  unfold replaceFieldValue at failed
  dsimp only at failed
  split at failed
  · cases failed
  split at failed
  · cases failed; rfl
  split at failed <;> cases failed
  rfl

theorem replaceFieldValue_ok_outside {table table' : MockRecord} {field : FieldNo} {old new : Value} {changed : Nat}
    (outside : field ∉ table.primaryKeyFields)
    (done : table.replaceFieldValue field old new = (.ok changed, table')) :
    Stores table table' (table.store.change (table.replaceIn field old new)) := by
  rw [replaceFieldValue, if_pos outside] at done
  cases done
  refine ⟨rfl, funext fun k => ?_⟩
  have distinct := (table.rows.filter fun _ row => table.cellHolds field (normalizeKeyValue old) row).keys_distinct
  rw [store, OrderedMap.get?_foldl_update _ distinct, Store.change, store]
  simp only [OrderedMap.exists_keys_filter]
  cases stored : table.rows.get? k with
  | none => simp
  | some row => by_cases holds : table.cellHolds field (normalizeKeyValue old) row <;> simp [holds, replaceIn]

/-- The keys of the rows that hold `old`. -/
def holders (table : MockRecord) (field : FieldNo) (old : Value) : List PrimaryKey :=
  (table.rows.filter fun _ row => table.cellHolds field (normalizeKeyValue old) row).keys

theorem mem_holders {table : MockRecord} {field : FieldNo} {old : Value} (k : PrimaryKey) :
    (∃ key ∈ table.holders field old, compare key k = .eq) ↔
      ∃ row, table.store k = some row ∧ table.cellHolds field (normalizeKeyValue old) row = true :=
  table.rows.exists_keys_filter (table.cellHolds field (normalizeKeyValue old)) k

section Moved

variable {table : MockRecord} {field : FieldNo} {old new : Value} {moved : List (PrimaryKey × PrimaryKey × Row)}
  (movedOk : (table.holders field old).mapM (table.movedRow field new) = .ok moved)

include movedOk

theorem moved_sources : moved.map (·.1) = table.holders field old :=
  map_eq_of_forall₂ (forall₂_of_mapM_ok movedOk) fun _ _ done => (movedRow_ok done).1

theorem moved_movesTo {entry : PrimaryKey × PrimaryKey × Row} (member : entry ∈ moved) :
    table.MovesTo field old new entry.1 entry.2.1 entry.2.2 := by
  obtain ⟨key, keyMem, movedHere⟩ := (exists_of_forall₂ (forall₂_of_mapM_ok movedOk)).2 entry member
  obtain ⟨rfl, rowEq, newKeyOk⟩ := movedRow_ok movedHere
  obtain ⟨row, stored, held⟩ := (mem_holders entry.1).mp ⟨entry.1, keyMem, Std.ReflCmp.compare_self⟩
  rw [show table.rows.get? entry.1 = some row from stored, Option.getD_some] at rowEq
  exact ⟨row, stored, held, rowEq, newKeyOk⟩

/-- Every row that holds `old` has a new key and is among the moved ones. -/
theorem exists_moved {key : PrimaryKey} {row : Row} (stored : table.store key = some row)
    (held : table.cellHolds field (normalizeKeyValue old) row = true) :
    ∃ entry ∈ moved, compare entry.1 key = .eq ∧ entry.2.2 = row.insert field new ∧
      table.keyOfRow (row.insert field new) = .ok entry.2.1 := by
  obtain ⟨key', keyMem, equal⟩ := (mem_holders key).mpr ⟨row, stored, held⟩
  obtain ⟨entry, member, movedHere⟩ := (exists_of_forall₂ (forall₂_of_mapM_ok movedOk)).1 key' keyMem
  obtain ⟨rfl, entryRow, entryKey⟩ := movedRow_ok movedHere
  rw [table.rows.get?_congr equal, show table.rows.get? key = some row from stored, Option.getD_some] at entryRow
  rw [entryRow] at entryKey
  exact ⟨entry, member, equal, entryRow, entryKey⟩

theorem moved_of_movesTo {key newKey : PrimaryKey} {row' : Row} (moves : table.MovesTo field old new key newKey row') :
    ∃ entry ∈ moved, compare entry.1 key = .eq ∧ entry.2 = (newKey, row') := by
  obtain ⟨row, stored, held, rfl, newKeyOk⟩ := moves
  obtain ⟨entry, member, equal, entryRow, entryKey⟩ := exists_moved movedOk stored held
  rw [newKeyOk] at entryKey
  exact ⟨entry, member, equal, Prod.ext (Except.ok.inj entryKey).symm entryRow⟩

end Moved

theorem replaceFieldValue_ok_inside {table table' : MockRecord} {field : FieldNo} {old new : Value} {changed : Nat}
    (inside : field ∈ table.primaryKeyFields)
    (done : table.replaceFieldValue field old new = (.ok changed, table')) :
    table' = { table with rows := table'.rows } ∧ Replaces table field old new table'.store := by
  rw [replaceFieldValue, if_neg (not_not_intro inside)] at done
  dsimp only at done
  split at done
  · cases done
  next moved movedOk =>
  split at done
  case isFalse => cases done
  case isTrue keysFree =>
  cases done
  replace movedOk : (table.holders field old).mapM (table.movedRow field new) = .ok moved := movedOk
  obtain ⟨vacant, distinct, _⟩ := newKeysFree_spec keysFree
  rw [List.pairwise_map] at distinct
  have entryFree : ∀ entry ∈ moved, ∀ k stays, table.store k = some stays →
      table.cellHolds field (normalizeKeyValue old) stays = false → compare entry.2.1 k ≠ .eq := by
    intro entry member k stays stored unheld same
    rcases vacant entry.2.1 (List.mem_map.mpr ⟨entry, member, rfl⟩) with absent | ⟨other, otherMem, equal⟩
    · rw [table.rows.get?_congr same, show table.rows.get? k = some stays from stored] at absent
      cases absent
    · obtain ⟨row, found, held⟩ := (mem_holders k).mp ⟨other, otherMem, Std.TransCmp.eq_trans equal same⟩
      obtain rfl : stays = row := Option.some.inj (stored.symm.trans found)
      simp [unheld] at held
  refine ⟨rfl, ⟨fun k row' => ?_, ?_, ?_⟩⟩
  · have vacated : moved.foldl (fun rows entry => rows.erase entry.1) table.rows =
        (table.holders field old).foldl .erase table.rows := by rw [← moved_sources movedOk, List.foldl_map]
    have inserted (rows : OrderedMap PrimaryKey Row) :
        moved.foldl (fun rows entry => rows.insert entry.2.1 entry.2.2) rows =
          (moved.map (·.2)).foldl (fun rows entry => rows.insert entry.1 entry.2) rows := by
      rw [List.foldl_map]
    simp only [store, vacated, inserted]
    rw [OrderedMap.get?_foldl_insert (List.pairwise_map.mpr distinct), OrderedMap.get?_foldl_erase]
    constructor
    · rintro (⟨e, member, same, rfl⟩ | ⟨_, kept⟩)
      · obtain ⟨entry, entryMem, rfl⟩ := List.mem_map.mp member
        exact .inr ⟨entry.1, entry.2.1, moved_movesTo movedOk entryMem, same⟩
      · split at kept
        next => cases kept
        next unselected =>
          refine .inl ⟨kept, ?_⟩
          by_contra held
          exact unselected ((mem_holders k).mpr ⟨row', kept, by simpa using held⟩)
    · rintro (⟨stored, unheld⟩ | ⟨key, newKey, moves, same⟩)
      · refine .inr ⟨fun e member same => ?_, ?_⟩
        · obtain ⟨entry, entryMem, rfl⟩ := List.mem_map.mp member
          exact entryFree entry entryMem k row' stored unheld same
        · rw [if_neg, show table.rows.get? k = some row' from stored]
          intro selectedHere
          obtain ⟨row, found, held⟩ := (mem_holders k).mp selectedHere
          obtain rfl : row' = row := Option.some.inj (stored.symm.trans found)
          simp [unheld] at held
      · obtain ⟨entry, entryMem, _, shape⟩ := moved_of_movesTo movedOk moves
        exact .inl ⟨entry.2, List.mem_map.mpr ⟨entry, entryMem, rfl⟩, by rw [shape]; exact same, by rw [shape]⟩
  · intro key key' newKey newKey' row row' moves moves' same
    obtain ⟨entry, member, source, shape⟩ := moved_of_movesTo movedOk moves
    obtain ⟨entry', member', source', shape'⟩ := moved_of_movesTo movedOk moves'
    have one : entry = entry' := by
      rcases pairwise_eq_or distinct member member' with equal | before | after
      · exact equal
      · exact absurd (by rw [shape, shape']; exact same) before
      · exact absurd (by rw [shape, shape']; exact Std.OrientedCmp.eq_symm same) after
    subst one
    exact Std.TransCmp.eq_trans (Std.OrientedCmp.eq_symm source) source'
  · intro key newKey row k stays moves stored unheld same
    obtain ⟨entry, member, _, shape⟩ := moved_of_movesTo movedOk moves
    exact entryFree entry member k stays stored unheld (by rw [shape]; exact same)

theorem replaceFieldValue_count {table table' : MockRecord} {field : FieldNo} {old new : Value} {changed : Nat}
    (done : table.replaceFieldValue field old new = (.ok changed, table')) :
    changed = table.countRows (table.cellHolds field (normalizeKeyValue old)) := by
  rw [← length_keys_filter]
  unfold replaceFieldValue at done
  dsimp only at done
  split at done
  · cases done; rfl
  split at done
  · cases done
  split at done <;> cases done
  rfl

/-- A replacement keeps every row under its own key. -/
theorem Replaces.keyed {table : MockRecord} {field : FieldNo} {old new : Value} {after : Store}
    (replaces : Replaces table field old new after) (keyed : table.Keyed) :
    Store.Keyed table.keyOfRow after := by
  intro k row' stored
  rcases (replaces.rows k row').mp stored with ⟨kept, _⟩ | ⟨key, newKey, ⟨row, _, _, _, own⟩, same⟩
  · exact keyed k row' kept
  · exact ⟨newKey, own, Std.OrientedCmp.eq_symm same⟩

variable [DecimalSyntax]

/-! ## Operations on the filtered rows -/

/-- The rows a view's filters select. -/
def selects (view : RecordView) (row : Row) : Bool := rowMatchesFilters view.filters row

theorem deleteAllIn_ok {table table' : MockRecord} {view view' : RecordView} {runTrigger : Bool} {removed : Nat}
    (done : table.deleteAllIn view runTrigger = (.ok removed, table', view')) :
    removed = table.countRows (selects view) ∧
      Stores table table' (table.store.keep fun row => !selects view row) := by
  unfold deleteAllIn at done
  split at done
  · cases done
  cases done
  exact ⟨table.length_keys_filter _, rfl, funext (table.rows.get?_foldl_erase_filter (selects view))⟩

theorem deleteAllIn_error {table table' : MockRecord} {view view' : RecordView} {runTrigger : Bool}
    {e : RecordError} (failed : table.deleteAllIn view runTrigger = (.error e, table', view')) :
    table' = table ∧ view' = view := by
  unfold deleteAllIn at failed
  split at failed <;> cases failed
  exact ⟨rfl, rfl⟩

def modifyRow (view : RecordView) (field : FieldNo) (value : Value) (row : Row) : Row :=
  if selects view row then row.insert field value else row

theorem modifyAllIn_ok {table table' : MockRecord} {view : RecordView} {field : FieldNo} {value : Value}
    {runTrigger : Bool} {changed : Nat}
    (done : table.modifyAllIn view field value runTrigger = (.ok changed, table')) :
    changed = table.countRows (selects view) ∧ field ∉ table.primaryKeyFields ∧
      Stores table table' (table.store.change (modifyRow view field value)) := by
  unfold modifyAllIn at done
  split at done
  · cases done
  split at done
  · cases done
  next outside =>
    cases done
    exact ⟨rfl, outside, rfl, store_mapValues table.rows (modifyRow view field value)⟩

theorem modifyAllIn_error {table table' : MockRecord} {view : RecordView} {field : FieldNo} {value : Value}
    {runTrigger : Bool} {e : RecordError}
    (failed : table.modifyAllIn view field value runTrigger = (.error e, table')) : table' = table := by
  unfold modifyAllIn at failed
  split at failed
  · cases failed; rfl
  split at failed <;> cases failed
  rfl

end Rows

end MockRecord

end AlLanguage.Runtime
