import AlLanguage.Library.Carried
import AlLanguage.Runtime.Store
import AlLanguage.Runtime.Tables

/-!
# Rename over all tables

A rename moves one row and then updates the fields that relate to its key, table by table. It is all or
nothing exactly when no update after the move fails.
-/

namespace AlLanguage.Runtime

open Library

section Tables

variable [CaseMapping]

namespace MockRecord

/-! ## Replacing a related value -/

/-- The rows that move find free keys: each has one, no two have the same, and none is that of a row that stays. -/
structure KeysFree (table : MockRecord) (update : CellUpdate) : Prop where
  defined : ∀ key row, table.store key = some row → table.cellHolds update.field (normalizeKeyValue update.old) row = true →
    ∃ newKey, table.keyOfRow (row.insert update.field update.new) = .ok newKey
  apart : ∀ key key' newKey newKey' row row', table.MovesTo update.field update.old update.new key newKey row →
    table.MovesTo update.field update.old update.new key' newKey' row' → compare newKey newKey' = .eq →
    compare key key' = .eq
  free : ∀ key newKey row k stays, table.MovesTo update.field update.old update.new key newKey row →
    table.store k = some stays → table.cellHolds update.field (normalizeKeyValue update.old) stays = false →
    compare newKey k ≠ .eq

/-- What an update does to a row. -/
def updated (table : MockRecord) (update : CellUpdate) (row : Row) : Row :=
  table.replaceIn update.field update.old update.new row

variable {table : MockRecord} {update : CellUpdate}

omit [CaseMapping] in
theorem newKeysFree_of {rows : OrderedMap PrimaryKey Row} {vacated taken newKeys : List PrimaryKey}
    (vacant : ∀ key ∈ newKeys, rows.get? key = none ∨ ∃ other ∈ vacated, compare other key = .eq)
    (apart : newKeys.Pairwise fun a b => compare a b ≠ .eq)
    (untaken : ∀ key ∈ newKeys, ∀ other ∈ taken, compare key other ≠ .eq) :
    newKeysFree rows vacated taken newKeys = true := by
  induction newKeys generalizing taken with
  | nil => rfl
  | cons newKey rest ih =>
      obtain ⟨first, later⟩ := List.pairwise_cons.mp apart
      rw [newKeysFree, if_neg]
      · apply ih (fun key member => vacant key (List.mem_cons_of_mem _ member)) later
        intro key member other earlier same
        rcases List.mem_cons.mp earlier with rfl | before
        · exact first key member (Std.OrientedCmp.eq_symm same)
        · exact untaken key (List.mem_cons_of_mem _ member) other before same
      · rw [Bool.not_eq_true, Bool.or_eq_false_iff, Bool.and_eq_false_imp]
        constructor
        · intro held
          obtain ⟨row, stored⟩ := (rows.contains_iff newKey).mp held
          rcases vacant newKey (List.mem_cons_self ..) with absent | ⟨other, member, same⟩
          · rw [absent] at stored
            cases stored
          · simp only [keyMem, Bool.not_eq_false', List.any_eq_true, beq_iff_eq]
            exact ⟨other, member, Std.OrientedCmp.eq_symm same⟩
        · simp only [keyMem, List.any_eq_false, beq_iff_eq]
          intro other member
          exact untaken newKey (List.mem_cons_self ..) other member

theorem replaceFieldValue_keysFree {table' : MockRecord} {changed : Nat} (inside : update.field ∈ table.primaryKeyFields)
    (done : table.replaceFieldValue update.field update.old update.new = (.ok changed, table')) : table.KeysFree update := by
  obtain ⟨_, replaces⟩ := replaceFieldValue_ok_inside inside done
  refine ⟨?_, replaces.apart, replaces.free⟩
  intro key row stored held
  rw [replaceFieldValue, if_neg (not_not_intro inside)] at done
  dsimp only at done
  split at done
  · cases done
  next moved movedOk =>
    obtain ⟨entry, _, _, _, newKeyOk⟩ := exists_moved (show (table.holders update.field update.old).mapM _ = _ from movedOk)
      stored held
    exact ⟨entry.2.1, newKeyOk⟩

theorem exists_replaceFieldValue (free : update.field ∈ table.primaryKeyFields → table.KeysFree update) :
    ∃ changed table', table.replaceFieldValue update.field update.old update.new = (.ok changed, table') := by
  by_cases inside : update.field ∈ table.primaryKeyFields
  · obtain ⟨defined, apart, unoccupied⟩ := free inside
    obtain ⟨moved, movedOk⟩ : ∃ moved, (table.holders update.field update.old).mapM
        (table.movedRow update.field update.new) = .ok moved := by
      apply exists_mapM_ok
      intro key member
      obtain ⟨row, stored, held⟩ := (mem_holders key).mp ⟨key, member, Std.ReflCmp.compare_self⟩
      obtain ⟨newKey, newKeyOk⟩ := defined key row stored held
      refine ⟨(key, newKey, row.insert update.field update.new), ?_⟩
      rw [movedRow, show table.rows.get? key = some row from stored, Option.getD_some, newKeyOk]
      rfl
    have free : newKeysFree table.rows (table.holders update.field update.old) [] (moved.map (·.2.1)) = true := by
      apply newKeysFree_of
      · intro newKey member
        obtain ⟨entry, entryMem, rfl⟩ := List.mem_map.mp member
        cases stored : table.rows.get? entry.2.1 with
        | none => exact .inl rfl
        | some stays =>
            right
            rw [mem_holders]
            refine ⟨stays, stored, ?_⟩
            by_contra unheld
            exact unoccupied _ _ _ _ _ (moved_movesTo movedOk entryMem) stored (by simpa using unheld)
              Std.ReflCmp.compare_self
      · have distinct := (table.rows.filter fun _ row =>
          table.cellHolds update.field (normalizeKeyValue update.old) row).keys_distinct
        rw [show (table.rows.filter fun _ row => _).keys = moved.map (·.1) from (moved_sources movedOk).symm,
          List.pairwise_map] at distinct
        rw [List.pairwise_map]
        apply distinct.imp_of_mem
        intro entry entry' member member' different same
        exact different (apart _ _ _ _ _ _ (moved_movesTo movedOk member) (moved_movesTo movedOk member') same)
      · simp
    rw [replaceFieldValue, if_neg (not_not_intro inside)]
    dsimp only
    unfold holders at movedOk free
    rw [movedOk]
    dsimp only
    rw [if_pos free]
    exact ⟨_, _, rfl⟩
  · rw [replaceFieldValue, if_pos inside]
    exact ⟨_, _, rfl⟩

theorem replaceFieldValue_ok_iff :
    (∃ changed table', table.replaceFieldValue update.field update.old update.new = (.ok changed, table')) ↔
      (update.field ∈ table.primaryKeyFields → table.KeysFree update) := by
  constructor
  · rintro ⟨changed, table', done⟩ inside
    exact replaceFieldValue_keysFree inside done
  · intro free
    exact exists_replaceFieldValue free

/-- Where the rows of an update are filed. -/
def movedKey (table : MockRecord) (update : CellUpdate) (k : PrimaryKey) : PrimaryKey :=
  match table.store k with
  | some row =>
      if table.cellHolds update.field (normalizeKeyValue update.old) row then
        ((table.keyOfRow (row.insert update.field update.new)).toOption).getD k
      else k
  | none => k

theorem movedKey_held {k newKey : PrimaryKey} {row : Row} (stored : table.store k = some row)
    (held : table.cellHolds update.field (normalizeKeyValue update.old) row = true)
    (newKeyOk : table.keyOfRow (row.insert update.field update.new) = .ok newKey) : table.movedKey update k = newKey := by
  rw [movedKey, stored]
  simp [held, newKeyOk, Except.toOption]

theorem movedKey_unheld {k : PrimaryKey} {row : Row} (stored : table.store k = some row)
    (unheld : table.cellHolds update.field (normalizeKeyValue update.old) row = false) : table.movedKey update k = k := by
  rw [movedKey, stored]
  simp [unheld]

/-- A stored row moves, or it neither moves nor changes. -/
theorem moves_or_stays (keysFree : table.KeysFree update) {k : PrimaryKey} {row : Row} (stored : table.store k = some row) :
    table.MovesTo update.field update.old update.new k (table.movedKey update k) (table.updated update row) ∨
      table.cellHolds update.field (normalizeKeyValue update.old) row = false ∧ table.movedKey update k = k ∧
        table.updated update row = row := by
  cases held : table.cellHolds update.field (normalizeKeyValue update.old) row with
  | true =>
      obtain ⟨newKey, newKeyOk⟩ := keysFree.defined k row stored held
      have changed : table.updated update row = row.insert update.field update.new := by simp [updated, replaceIn, held]
      rw [movedKey_held stored held newKeyOk, changed]
      exact .inl ⟨row, stored, held, rfl, newKeyOk⟩
  | false => exact .inr ⟨rfl, movedKey_unheld stored held, by simp [updated, replaceIn, held]⟩

theorem Replaces.carries (keysFree : table.KeysFree update) {after : Store}
    (replaces : Replaces table update.field update.old update.new after) :
    Carried table.keyOfRow table.store after (table.updated update) (table.movedKey update) where
  congr k k' same := by
    rw [movedKey, movedKey, table.store_congr same]
    split
    · split
      · cases table.keyOfRow _ with
        | error e => exact same
        | ok newKey => exact Std.ReflCmp.compare_self
      · exact same
    · exact same
  kept k row stored := by
    rw [replaces.rows]
    rcases moves_or_stays keysFree stored with moves | ⟨unheld, still, unchanged⟩
    · exact .inr ⟨k, _, moves, Std.ReflCmp.compare_self⟩
    · rw [still, unchanged]
      exact .inl ⟨stored, unheld⟩
  onto k' row' stored := by
    rcases (replaces.rows k' row').mp stored with ⟨kept, unheld⟩ | ⟨k, newKey, ⟨row, before, held, rfl, newKeyOk⟩, same⟩
    · refine ⟨k', row', kept, ?_, by simp [updated, replaceIn, unheld]⟩
      rw [movedKey_unheld kept unheld]
      exact Std.ReflCmp.compare_self
    · refine ⟨k, row, before, ?_, by simp [updated, replaceIn, held]⟩
      rw [movedKey_held before held newKeyOk]
      exact same
  apart k k' row row' stored stored' same := by
    rcases moves_or_stays keysFree stored with moves | ⟨unheld, still, _⟩ <;>
      rcases moves_or_stays keysFree stored' with moves' | ⟨unheld', still', _⟩
    · exact keysFree.apart _ _ _ _ _ _ moves moves' same
    · rw [still'] at same
      exact absurd same (keysFree.free _ _ _ _ _ moves stored' unheld')
    · rw [still] at same
      exact absurd (Std.OrientedCmp.eq_symm same) (keysFree.free _ _ _ _ _ moves' stored unheld)
    · rw [still, still'] at same
      exact same
  key k row stored := by
    rcases moves_or_stays keysFree stored with ⟨_, _, _, _, own⟩ | ⟨_, still, unchanged⟩
    · exact .inr ⟨_, own, Std.ReflCmp.compare_self⟩
    · rw [still, unchanged]
      exact .inl ⟨Std.ReflCmp.compare_self, rfl⟩

theorem replaceFieldValue_carries {table' : MockRecord} {changed : Nat}
    (done : table.replaceFieldValue update.field update.old update.new = (.ok changed, table')) :
    table' = { table with rows := table'.rows } ∧
      ∃ move, Carried table.keyOfRow table.store table'.store (table.updated update) move := by
  by_cases inside : update.field ∈ table.primaryKeyFields
  · obtain ⟨schema, replaces⟩ := replaceFieldValue_ok_inside inside done
    exact ⟨schema, _, replaces.carries (replaceFieldValue_keysFree inside done)⟩
  · obtain ⟨schema, rows⟩ := replaceFieldValue_ok_outside inside done
    refine ⟨schema, id, ?_⟩
    rw [rows]
    apply Carried.inPlace
    intro row
    unfold replaceIn
    split
    · exact table.keyOfRow_insert inside row _
    · rfl

end MockRecord

/-! ## The updates of a related table -/

namespace RecordStore

def withRows (store : RecordStore) (rows : OrderedMap PrimaryKey Row) : RecordStore :=
  { store with record := { store.record with rows } }

/-- The table after an update. -/
def replaced (store : RecordStore) (update : CellUpdate) : RecordStore :=
  { store with record := (store.record.replaceFieldValue update.field update.old update.new).2 }

@[simp] theorem replaced_fieldByName (store : RecordStore) (update : CellUpdate) :
    (store.replaced update).fieldByName = store.fieldByName := rfl

/-- What the cascades change in a table, `n` its key. -/
def updates (store : RecordStore) (n : String) (cascades : List RenameCascade) (old new : Value) : List CellUpdate :=
  cascades.filterMap fun cascade =>
    if cascade.related = n then (store.relatedUpdate cascade old new).toOption else none

variable {store : RecordStore} {old new : Value} {cascade : RenameCascade} {rest : List RenameCascade} {n : String}
  {update : CellUpdate}

theorem updates_cons_other (other : cascade.related ≠ n) :
    store.updates n (cascade :: rest) old new = store.updates n rest old new := by
  simp [updates, other]

theorem updates_cons_same (converted : store.relatedUpdate cascade old new = .ok update) :
    store.updates cascade.related (cascade :: rest) old new = update :: store.updates cascade.related rest old new := by
  simp [updates, converted, Except.toOption]

theorem relatedUpdate_ok (converted : store.relatedUpdate cascade old new = .ok update) :
    store.resolveField cascade.field = .ok update.field ∧ store.coerceToField update.field old = .ok update.old ∧
      store.coerceToField update.field new = .ok update.new := by
  unfold relatedUpdate at converted
  cases resolved : store.resolveField cascade.field with
  | error e => simp [resolved, bind, Except.bind] at converted
  | ok field =>
      cases oldOk : store.coerceToField field old with
      | error e => simp [resolved, oldOk, bind, Except.bind] at converted
      | ok old' =>
          cases newOk : store.coerceToField field new with
          | error e => simp [resolved, oldOk, newOk, bind, Except.bind] at converted
          | ok new' =>
              simp only [resolved, oldOk, newOk, bind, Except.bind, pure, Except.pure, Except.ok.injEq] at converted
              subst converted
              exact ⟨rfl, oldOk, newOk⟩

theorem mem_updates (member : update ∈ store.updates n rest old new) :
    ∃ cascade ∈ rest, cascade.related = n ∧ store.relatedUpdate cascade old new = .ok update := by
  obtain ⟨cascade, inside, found⟩ := List.mem_filterMap.mp member
  split at found
  next same =>
    cases converted : store.relatedUpdate cascade old new with
    | error e => simp [converted, Except.toOption] at found
    | ok other =>
        simp only [converted, Except.toOption, Option.some.injEq] at found
        exact ⟨cascade, inside, same, found ▸ converted⟩
  next => cases found

end RecordStore

namespace MockRecord

def updatedAll (table : MockRecord) (updates : List CellUpdate) (row : Row) : Row :=
  updates.foldl (fun row update => table.updated update row) row

/-- A cell after the updates: the new value where one of them finds its old one. -/
def cellAfter (table : MockRecord) (updates : List CellUpdate) (row : Row) (field : FieldNo) : Option Value :=
  match updates.find? fun update => update.field = field ∧ table.cellHolds field (normalizeKeyValue update.old) row with
  | some update => some update.new
  | none => row.get? field

theorem cellHolds_congr {row row' : Row} {field : FieldNo} (table : MockRecord) (same : row.get? field = row'.get? field)
    (old : Value) : table.cellHolds field old row = table.cellHolds field old row' := by
  rw [cellHolds, cellHolds, same]

theorem updated_get? (table : MockRecord) (update : CellUpdate) (row : Row) (field : FieldNo) :
    (table.updated update row).get? field =
      if update.field = field ∧ table.cellHolds field (normalizeKeyValue update.old) row = true then some update.new
      else row.get? field := by
  rw [updated, replaceIn]
  by_cases same : update.field = field
  · subst same
    by_cases held : table.cellHolds update.field (normalizeKeyValue update.old) row = true
    · rw [if_pos held, OrderedMap.get?_insert_self, if_pos ⟨rfl, held⟩]
    · rw [if_neg held, if_neg]
      exact fun both => held both.2
  · have kept : (if table.cellHolds update.field (normalizeKeyValue update.old) row then row.insert update.field update.new
        else row).get? field = row.get? field := by
      split
      · rw [OrderedMap.get?_insert, if_neg]
        simpa using same
      · rfl
    rw [kept, if_neg]
    exact fun both => same both.1

/-- Two updates of one field are one update. -/
def Consistent (updates : List CellUpdate) : Prop :=
  ∀ update ∈ updates, ∀ other ∈ updates, update.field = other.field → update = other

theorem updatedAll_get? {table : MockRecord} {updates : List CellUpdate} (consistent : Consistent updates) (row : Row)
    (field : FieldNo) : (table.updatedAll updates row).get? field = table.cellAfter updates row field := by
  induction updates generalizing row with
  | nil => rfl
  | cons update rest ih =>
      have later := ih (fun a inside b inside' => consistent a (.tail _ inside) b (.tail _ inside')) (table.updated update row)
      have cell := table.updated_get? update row field
      rw [updatedAll, List.foldl_cons, ← updatedAll, later]
      by_cases here : update.field = field ∧ table.cellHolds field (normalizeKeyValue update.old) row = true
      · rw [if_pos here] at cell
        rw [cellAfter, cellAfter, List.find?_cons_of_pos (by simpa using here)]
        split
        next other found =>
          -- the cell is written again by an equal update
          have sameField : other.field = field := by
            have answer := List.find?_some found
            simp only [decide_eq_true_eq] at answer
            exact answer.1
          have equal : other = update :=
            consistent other (.tail _ (List.mem_of_find?_eq_some found)) update (List.mem_cons_self ..)
              (sameField.trans here.1.symm)
          rw [equal]
        next => exact cell
      · rw [if_neg here] at cell
        rw [cellAfter, cellAfter, List.find?_cons_of_neg (by simpa using here), cell]
        simp only [table.cellHolds_congr cell]

end MockRecord

theorem RecordStore.updates_consistent (store : RecordStore) (n : String) (cascades : List RenameCascade) (old new : Value) :
    MockRecord.Consistent (store.updates n cascades old new) := by
  intro update inside other inside' same
  obtain ⟨_, _, _, converted⟩ := mem_updates inside
  obtain ⟨_, _, _, converted'⟩ := mem_updates inside'
  obtain ⟨_, oldOk, newOk⟩ := relatedUpdate_ok converted
  obtain ⟨_, oldOk', newOk'⟩ := relatedUpdate_ok converted'
  rw [same] at oldOk newOk
  have sameOld : update.old = other.old := Except.ok.inj (oldOk.symm.trans oldOk')
  have sameNew : update.new = other.new := Except.ok.inj (newOk.symm.trans newOk')
  cases update
  cases other
  simp_all

/-! ## The cascades of a rename -/

/-- One update that does not fail. A table without a store has no rows. -/
inductive CascadeStep (old new : Value) (cascade : RenameCascade) (records : Records) : Records → Prop
  | skip (absent : records.get? cascade.related = none) : CascadeStep old new cascade records records
  | update {store : RecordStore} {update : CellUpdate} (stored : records.get? cascade.related = some store)
      (converted : store.relatedUpdate cascade old new = .ok update)
      (free : update.field ∈ store.record.primaryKeyFields → store.record.KeysFree update) :
      CascadeStep old new cascade records (records.insert cascade.related (store.replaced update))

/-- A run over the cascades in which no update fails. -/
inductive Cascaded (old new : Value) : List RenameCascade → Records → Records → Prop
  | done {records : Records} : Cascaded old new [] records records
  | step {cascade : RenameCascade} {rest : List RenameCascade} {records next after : Records}
      (first : CascadeStep old new cascade records next) (later : Cascaded old new rest next after) :
      Cascaded old new (cascade :: rest) records after

section Cascades

variable {old new : Value} {field : FieldNo} {cascade : RenameCascade} {cascades : List RenameCascade}
  {records after : Records} {renamed : String} {store : RecordStore}

/-- The cascades follow the one field of the key. -/
def Follows (store : RecordStore) (cascades : List RenameCascade) (field : FieldNo) : Prop :=
  ∀ cascade ∈ cascades, store.resolveField cascade.keyField = .ok field

omit [CaseMapping] in
theorem valueOf_single (value : Value) : valueOf [(field, value)] field = some value := by
  simp [valueOf]

theorem cascadeField_equal (equal : (old == new) = true) (resolved : store.resolveField cascade.keyField = .ok field) :
    cascadeField store cascade [(field, old)] [(field, new)] records = (.ok (), records) := by
  simp [cascadeField, resolved, valueOf_single, equal]

theorem cascadeField_ok_iff (differ : (old == new) = false) (resolved : store.resolveField cascade.keyField = .ok field) :
    cascadeField store cascade [(field, old)] [(field, new)] records = (.ok (), after) ↔
      CascadeStep old new cascade records after := by
  simp only [cascadeField, resolved, valueOf_single, differ, Bool.false_eq_true, if_false]
  constructor
  · intro done
    split at done
    next absent =>
      cases done
      exact .skip absent
    next related stored =>
    split at done
    · cases done
    next update converted =>
    split at done
    · cases done
    next changed record replacedEq =>
    cases done
    have free := related.record.replaceFieldValue_ok_iff.mp ⟨changed, record, replacedEq⟩
    have step := CascadeStep.update stored converted free
    rw [RecordStore.replaced, replacedEq] at step
    exact step
  · intro step
    cases step with
    | skip absent => rw [absent]
    | @update related update stored converted free =>
        obtain ⟨changed, record, replacedEq⟩ := related.record.replaceFieldValue_ok_iff.mpr free
        simp only [stored, converted, replacedEq, RecordStore.replaced]

/-- Updates change no view. -/
theorem cascadeField_views (n : String) :
    ((cascadeField store cascade [(field, old)] [(field, new)] records).2.get? n).map (·.views) =
      (records.get? n).map (·.views) := by
  unfold cascadeField
  split
  · rfl
  split
  · split
    · rfl
    split
    · rfl
    next related stored =>
    split
    · rfl
    split <;>
    · rw [OrderedMap.get?_insert]
      split
      next same =>
        rw [← records.get?_congr same, stored]
        rfl
      next => rfl
  · rfl

omit [CaseMapping] in
theorem resolveField_ok_iff (name : String) :
    store.resolveField name = .ok field ↔
      store.fieldByName.get? (toAsciiLowercase (unquoteIdentifier name)) = some field := by
  unfold RecordStore.resolveField
  split <;> simp_all

theorem CascadeStep.follows (step : CascadeStep old new cascade records after) (stored : records.get? renamed = some store)
    (follows : Follows store cascades field) :
    ∃ store', after.get? renamed = some store' ∧ Follows store' cascades field := by
  cases step with
  | skip absent => exact ⟨store, stored, follows⟩
  | @update related update found converted free =>
      rw [OrderedMap.get?_insert]
      split
      next same =>
        refine ⟨_, rfl, fun cascade inside => ?_⟩
        rw [records.get?_congr same, stored] at found
        cases found
        rw [resolveField_ok_iff, RecordStore.replaced_fieldByName, ← resolveField_ok_iff]
        exact follows cascade inside
      next => exact ⟨store, stored, follows⟩

/-- A key that does not change updates nothing. -/
theorem cascadeRename_equal (equal : (old == new) = true) (stored : records.get? renamed = some store)
    (follows : Follows store cascades field) :
    cascadeRename renamed cascades [(field, old)] [(field, new)] records = (.ok (), records) := by
  induction cascades with
  | nil => rw [cascadeRename]
  | cons cascade rest ih =>
      rw [cascadeRename.eq_def, stored]
      simp only [cascadeField_equal equal (follows cascade (List.mem_cons_self ..))]
      apply ih
      intro other inside
      exact follows other (.tail _ inside)

theorem cascadeRename_ok_iff (differ : (old == new) = false) (stored : records.get? renamed = some store)
    (follows : Follows store cascades field) :
    cascadeRename renamed cascades [(field, old)] [(field, new)] records = (.ok (), after) ↔
      Cascaded old new cascades records after := by
  induction cascades generalizing records store with
  | nil =>
      rw [cascadeRename]
      constructor
      · intro done
        cases done
        exact .done
      · intro run
        cases run
        rfl
  | cons cascade rest ih =>
      have resolved := follows cascade (List.mem_cons_self ..)
      have followsRest : Follows store rest field := fun other inside => follows other (.tail _ inside)
      rw [cascadeRename.eq_def, stored]
      constructor
      · intro done
        dsimp only at done
        split at done
        · cases done
        next next first =>
          have step := (cascadeField_ok_iff differ resolved).mp first
          obtain ⟨store', stored', follows'⟩ := step.follows stored followsRest
          exact .step step ((ih stored' follows').mp done)
      · intro run
        cases run with
        | step step later =>
            obtain ⟨store', stored', follows'⟩ := step.follows stored followsRest
            simp only [(cascadeField_ok_iff differ resolved).mpr step]
            exact (ih stored' follows').mpr later

theorem cascadeRename_views (n : String) :
    ((cascadeRename renamed cascades [(field, old)] [(field, new)] records).2.get? n).map (·.views) =
      (records.get? n).map (·.views) := by
  induction cascades generalizing records with
  | nil => rw [cascadeRename]
  | cons cascade rest ih =>
      rw [cascadeRename.eq_def]
      cases stored : records.get? renamed with
      | none => rfl
      | some store =>
          have views := @cascadeField_views _ old new field cascade records store n
          dsimp only
          split
          next first =>
            rw [first] at views
            exact views
          next first =>
            rw [first] at views
            exact ih.trans views

end Cascades

/-! ## What a run changes -/

/-- The rows of `after` are those of `start` with the updates made, and it declares what `before` does. -/
structure Updated (before after : RecordStore) (start : Store) (updates : List CellUpdate) : Prop where
  schema : { after with views := before.views } = before.withRows after.record.rows
  rows : ∃ change move, Carried before.record.keyOfRow start after.record.store change move ∧
    ∀ row field, (change row).get? field = before.record.cellAfter updates row field

/-- As `Updated`, with the change of a row given. -/
structure UpdatedBy (before after : RecordStore) (updates : List CellUpdate) : Prop where
  schema : after = before.withRows after.record.rows
  rows : ∃ move, Carried before.record.keyOfRow before.record.store after.record.store (before.record.updatedAll updates) move

namespace UpdatedBy

variable {before middle after : RecordStore} {updates : List CellUpdate} {update : CellUpdate}

theorem refl (store : RecordStore) : UpdatedBy store store [] := ⟨rfl, id, .refl ..⟩

theorem replaced (free : update.field ∈ before.record.primaryKeyFields → before.record.KeysFree update)
    (later : UpdatedBy (before.replaced update) after updates) : UpdatedBy before after (update :: updates) := by
  obtain ⟨changed, table, done⟩ := before.record.replaceFieldValue_ok_iff.mpr free
  obtain ⟨schema, move, carried⟩ := MockRecord.replaceFieldValue_carries done
  obtain ⟨schema', move', carried'⟩ := later
  rw [RecordStore.replaced, done] at schema' carried'
  rw [schema] at schema' carried'
  exact ⟨schema', move' ∘ move, carried.trans carried'⟩

end UpdatedBy

section Runs

variable {old new : Value} {cascade : RenameCascade} {cascades : List RenameCascade} {records after : Records}

theorem relatedUpdate_replaced (store : RecordStore) (update : CellUpdate)
    (free : update.field ∈ store.record.primaryKeyFields → store.record.KeysFree update) :
    (store.replaced update).relatedUpdate cascade old new = store.relatedUpdate cascade old new := by
  obtain ⟨changed, table, done⟩ := store.record.replaceFieldValue_ok_iff.mpr free
  obtain ⟨schema, _⟩ := MockRecord.replaceFieldValue_carries done
  rw [RecordStore.replaced, done, schema]
  rfl

theorem updates_replaced (store : RecordStore) (update : CellUpdate)
    (free : update.field ∈ store.record.primaryKeyFields → store.record.KeysFree update) (n : String) :
    (store.replaced update).updates n cascades old new = store.updates n cascades old new := by
  simp only [RecordStore.updates, relatedUpdate_replaced store update free]

theorem Cascaded.absent (run : Cascaded old new cascades records after) {n : String} (absent : records.get? n = none) :
    after.get? n = none := by
  induction run with
  | done => exact absent
  | step first later ih =>
      apply ih
      cases first with
      | skip => exact absent
      | update stored converted free =>
          rw [OrderedMap.get?_insert, if_neg]
          · exact absent
          · intro same
            rw [OrderedMap.get?_congr _ same, absent] at stored
            cases stored

theorem Cascaded.updated (run : Cascaded old new cascades records after) {n : String} {before : RecordStore}
    (stored : records.get? n = some before) :
    ∃ store, after.get? n = some store ∧ UpdatedBy before store (before.updates n cascades old new) := by
  induction run generalizing before with
  | done => exact ⟨before, stored, .refl before⟩
  | @step cascade rest records next after first later ih =>
      cases first with
      | skip absent =>
          have other : cascade.related ≠ n := by
            rintro rfl
            rw [stored] at absent
            cases absent
          obtain ⟨store, storedAfter, updated⟩ := ih stored
          refine ⟨store, storedAfter, ?_⟩
          rw [RecordStore.updates_cons_other other]
          exact updated
      | @update related update found converted free =>
          by_cases same : cascade.related = n
          · subst same
            obtain rfl : related = before := Option.some.inj (found.symm.trans stored)
            obtain ⟨store, storedAfter, updated⟩ := ih (OrderedMap.get?_insert_self ..)
            refine ⟨store, storedAfter, ?_⟩
            rw [RecordStore.updates_cons_same converted]
            apply UpdatedBy.replaced free
            rw [updates_replaced related update free] at updated
            exact updated
          · obtain ⟨store, storedAfter, updated⟩ := @ih before (by
              rw [OrderedMap.get?_insert, if_neg (by simpa using same)]
              exact stored)
            refine ⟨store, storedAfter, ?_⟩
            rw [RecordStore.updates_cons_other same]
            exact updated

end Runs

/-! ## The row that moves -/

namespace RecordStore

/-- The row under the key of the buffer can be filed under `newKey`: the key is its own or no row has it. -/
structure CanMove (store : RecordStore) (handle : UInt64) (values : List (FieldNo × Value)) (oldKey newKey : PrimaryKey)
    (oldRow : Row) : Prop where
  old : store.record.keyOfRow (store.takeView handle).current = .ok oldKey
  new : store.record.keyOfRow (RecordView.setFields (store.takeView handle).current values) = .ok newKey
  stored : store.record.store oldKey = some oldRow
  vacant : compare newKey oldKey = .eq ∨ store.record.store newKey = none

/-- The store with the row of the buffer moved. -/
def moved (store : RecordStore) (handle : UInt64) (values : List (FieldNo × Value)) (oldKey newKey : PrimaryKey)
    (oldRow : Row) : RecordStore :=
  let view := store.takeView handle
  let buffer := RecordView.setFields view.current values
  (store.withRows ((store.record.rows.erase oldKey).insert newKey buffer)).putView handle
    { view with current := buffer, xRec := oldRow }

variable {store renamed : RecordStore} {handle : UInt64} {values : List (FieldNo × Value)} {oldKey newKey : PrimaryKey}
  {oldRow : Row}

theorem renameRow_of_canMove (can : store.CanMove handle values oldKey newKey oldRow) :
    store.renameRow handle values = (.ok (), store.moved handle values oldKey newKey oldRow) := by
  obtain ⟨old, new, stored, vacant⟩ := can
  have free : (compare newKey oldKey != .eq && store.record.rows.contains newKey) = false := by
    rcases vacant with same | absent
    · simp [same]
    · rw [(store.record.rows.contains_eq_false_iff newKey).mpr absent, Bool.and_false]
  replace stored : store.record.rows.get? oldKey = some oldRow := stored
  simp only [renameRow, MockRecord.renameIn, MockRecord.startRenameIn, MockRecord.currentPrimaryKey, old,
    MockRecord.finishRenameIn, MockRecord.moveRenamedRow, new, stored, free, Bool.false_eq_true, if_false]
  rfl

theorem canMove_of_renameRow (done : store.renameRow handle values = (.ok (), renamed)) :
    ∃ oldKey newKey oldRow, store.CanMove handle values oldKey newKey oldRow := by
  rcases renamedEq : store.record.renameIn (store.takeView handle) values with ⟨result, record, view⟩
  simp only [renameRow, renamedEq, Prod.mk.injEq] at done
  obtain ⟨rfl, _⟩ := done
  obtain ⟨oldKey, old, newKey, oldRow, new, stored, vacant, _⟩ := MockRecord.renameIn_ok renamedEq
  exact ⟨oldKey, newKey, oldRow, old, new, stored, vacant⟩

omit [CaseMapping] in
@[simp] theorem takeView_putView_self (view : RecordView) : (store.putView handle view).takeView handle = view := by
  simp [takeView, putView, OrderedMap.get?_insert_self]

omit [CaseMapping] in
theorem takeView_putView_other {other : UInt64} (view : RecordView) (apart : handle ≠ other) :
    (store.putView handle view).takeView other = store.takeView other := by
  simp [takeView, putView, OrderedMap.get?_insert, apart]

omit [CaseMapping] in
theorem takeView_putView_same (other : UInt64) :
    (store.putView handle (store.takeView handle)).takeView other = store.takeView other := by
  by_cases same : handle = other
  · subst same
    rw [takeView_putView_self]
  · exact takeView_putView_other _ same

/-- A row that cannot move stays, and the buffer is as it was. -/
theorem renameRow_error {e : RecordError} (failed : store.renameRow handle values = (.error e, renamed)) :
    renamed = store.putView handle (store.takeView handle) := by
  rcases renamedEq : store.record.renameIn (store.takeView handle) values with ⟨result, record, view⟩
  simp only [renameRow, renamedEq, Prod.mk.injEq] at failed
  obtain ⟨rfl, rfl⟩ := failed
  obtain ⟨rfl, rfl⟩ := MockRecord.renameIn_error renamedEq
  rfl

end RecordStore

/-! ## All or nothing -/

/-- A table as it was. One that had no store has no rows and fresh buffers. -/
def SameTable : Option RecordStore → Option RecordStore → Prop
  | none, none => True
  | none, some after => after.record.rows = .empty ∧ ∀ handle, after.takeView handle = after.record.newView
  | some before, some after =>
      { after with views := before.views } = before ∧ ∀ handle, after.takeView handle = before.takeView handle
  | some _, none => False

def Unchanged (records records' : Records) : Prop := ∀ n, SameTable (records.get? n) (records'.get? n)

/-- The value of the key field in the buffer, a missing cell taken as its default. -/
def RecordStore.bufferValue (store : RecordStore) (handle : UInt64) (field : FieldNo) : Value :=
  (((store.takeView handle).current.get? field).or (store.record.fieldDefaults.get? field)).getD .empty

/-- What a rename changes in a table, `n` its key. A key that stays the same changes nothing. -/
def RecordStore.changes (store : RecordStore) (n : String) (cascades : List RenameCascade) (old new : Value) :
    List CellUpdate :=
  if old == new then [] else store.updates n cascades old new

/-- The buffer's row is under its new key, and every cell that related to the old key has the new one. -/
def Renamed (table : TableRef) (handle : UInt64) (cascades : List RenameCascade) (field : FieldNo) (new : Value)
    (store : RecordStore) (records records' : Records) : Prop :=
  let view := store.takeView handle
  let buffer := view.current.insert field new
  let old := store.bufferValue handle field
  ∃ oldKey newKey oldRow, store.CanMove handle [(field, new)] oldKey newKey oldRow ∧
    ∀ n, (records.get? n = none → records'.get? n = none) ∧
      ∀ before, records.get? n = some before → ∃ after, records'.get? n = some after ∧
        Updated before after
          (if n = table.key then (before.record.store.remove oldKey).put newKey buffer else before.record.store)
          (before.changes n cascades old new) ∧
        ∀ other, after.takeView other =
          if n = table.key ∧ other = handle then { view with current := buffer, xRec := oldRow } else before.takeView other

/-- A rename that gets as far as moving the row. -/
structure Moves (relations : Except String (List RenameCascade)) (table : TableRef) (handle : UInt64) (values : List Value)
    (field : FieldNo) (records : Records) (store : RecordStore) (new : Value) (cascades : List RenameCascade)
    (oldKey newKey : PrimaryKey) (oldRow : Row) : Prop where
  stored : records.get? table.key = some store
  coerced : ∃ value, values = [value] ∧ store.coerceToField field value = .ok new
  related : relations = .ok cascades
  can : store.CanMove handle [(field, new)] oldKey newKey oldRow

section AllOrNothing

variable {loadTableMeta : String → Except String TableMeta} {relations : Except String (List RenameCascade)}
  {table : TableRef} {handle : UInt64} {values : List Value} {stmtPosition : Bool} {records : Records} {field : FieldNo}
  {store : RecordStore} {new : Value} {cascades : List RenameCascade} {oldKey newKey : PrimaryKey} {oldRow : Row}

omit [CaseMapping] in
theorem bufferKey_single (single : store.record.primaryKeyFields = [field]) :
    store.bufferKey handle = [(field, store.bufferValue handle field)] := by
  rw [RecordStore.bufferKey, single]
  rfl

theorem coerceKey_single (single : store.record.primaryKeyFields = [field]) (value : Value) :
    store.coerceKey [value] = (store.coerceToField field value).map fun coerced => [(field, coerced)] := by
  rw [RecordStore.coerceKey, single]
  cases coerced : store.coerceToField field value <;> simp [coerced, Except.map, bind, Except.bind, pure, Except.pure]

/-- Once the row has moved, the cascades decide. -/
theorem dispatchRename_of_moves (persistent : table.tempOwner = none) (single : store.record.primaryKeyFields = [field])
    (moves : Moves relations table handle values field records store new cascades oldKey newKey oldRow) :
    dispatchRename loadTableMeta relations table handle values stmtPosition records =
      match cascadeRename table.key cascades [(field, store.bufferValue handle field)] [(field, new)]
          (records.insert table.key (store.moved handle [(field, new)] oldKey newKey oldRow)) with
      | (.error e, records) => (.error ("Rename: " ++ e), records)
      | (.ok (), records) => (.ok true, records) := by
  obtain ⟨stored, ⟨value, rfl, coerced⟩, related, can⟩ := moves
  have keyOk : store.coerceKey [value] = .ok [(field, new)] := by
    rw [coerceKey_single single, coerced]
    rfl
  rcases run : cascadeRename table.key cascades [(field, store.bufferValue handle field)] [(field, new)]
    (records.insert table.key (store.moved handle [(field, new)] oldKey newKey oldRow)) with ⟨_ | _, _⟩ <;>
  simp only [dispatchRename, ensureStore, stored, single, List.length_singleton, ne_eq, not_true_eq_false, if_false, keyOk,
    persistent, Option.isSome_none, Bool.false_eq_true, related, RecordStore.renameRow_of_canMove can,
    bufferKey_single single, OrderedMap.insert_insert, run]

omit [CaseMapping] in
theorem SameTable.refl (before : Option RecordStore) : SameTable before before := by
  cases before with
  | none => trivial
  | some store => exact ⟨rfl, fun _ => rfl⟩

omit [CaseMapping] in
/-- A first use of a buffer does not show. -/
theorem SameTable.touched {before : Option RecordStore} (same : SameTable before (some store)) (handle : UInt64) :
    SameTable before (some (store.putView handle (store.takeView handle))) := by
  cases before with
  | none => exact ⟨same.1, fun other => (RecordStore.takeView_putView_same other).trans (same.2 other)⟩
  | some before => exact ⟨same.1, fun other => (RecordStore.takeView_putView_same other).trans (same.2 other)⟩

omit [CaseMapping] in
theorem Unchanged.touched {rest : Records} (unchanged : Unchanged records rest) (stored : rest.get? table.key = some store)
    (handle : UInt64) : Unchanged records (rest.insert table.key (store.putView handle (store.takeView handle))) := by
  intro n
  have same := unchanged n
  rw [OrderedMap.get?_insert]
  split
  next equal =>
    rw [← rest.get?_congr equal, stored] at same
    exact same.touched handle
  next => exact same

omit [CaseMapping] in
theorem ensureStore_ok {rest : Records} (ready : ensureStore loadTableMeta records table = .ok (store, rest)) :
    rest.get? table.key = some store ∧ Unchanged records rest ∧
      (records.get? table.key = some store ∨ store.record.rows = .empty) := by
  unfold ensureStore at ready
  split at ready
  next stored =>
    cases ready
    exact ⟨stored, fun n => .refl _, .inl stored⟩
  next absent =>
  split at ready
  · cases ready
  next declared =>
  cases ready
  refine ⟨OrderedMap.get?_insert_self .., ?_, .inr rfl⟩
  intro n
  rw [OrderedMap.get?_insert]
  split
  next same =>
    rw [← records.get?_congr same, absent]
    refine ⟨rfl, ?_⟩
    intro handle
    rfl
  next => exact .refl _

/-- A rename that does not get as far as the move changes nothing. -/
theorem dispatchRename_stays (persistent : table.tempOwner = none)
    (single : ∀ store rest, ensureStore loadTableMeta records table = .ok (store, rest) →
      store.record.primaryKeyFields = [field])
    (stays : ∀ store new cascades oldKey newKey oldRow,
      ¬Moves relations table handle values field records store new cascades oldKey newKey oldRow) :
    (dispatchRename loadTableMeta relations table handle values stmtPosition records).1 ≠ .ok true ∧
      Unchanged records (dispatchRename loadTableMeta relations table handle values stmtPosition records).2 := by
  have refused (e : String) : (Except.error e : Except String Bool) ≠ .ok true := by
    intro same
    cases same
  unfold dispatchRename
  split
  · exact ⟨refused _, fun n => .refl _⟩
  next store rest ready =>
  obtain ⟨stored, unchanged, origin⟩ := ensureStore_ok ready
  have one := single store rest ready
  have touched := unchanged.touched stored handle
  dsimp only
  split
  · exact ⟨refused _, unchanged⟩
  next enough =>
  split
  · exact ⟨refused _, unchanged⟩
  next newKey keyOk =>
  simp only [persistent, Option.isSome_none, Bool.false_eq_true, if_false]
  split
  · exact ⟨refused _, touched⟩
  next _ cascades =>
  split
  next e failedStore failed =>
    obtain rfl := RecordStore.renameRow_error failed
    rw [OrderedMap.insert_insert]
    refine ⟨?_, touched⟩
    split
    · exact refused _
    · intro same
      cases same
  next renamed done =>
    exfalso
    obtain ⟨value, rfl⟩ : ∃ value, values = [value] := by
      rw [one] at enough
      simpa [List.length_eq_one_iff] using enough
    rw [coerceKey_single one] at keyOk
    cases coerced : store.coerceToField field value with
    | error e => simp [coerced, Except.map] at keyOk
    | ok new =>
        simp only [coerced, Except.map, Except.ok.injEq] at keyOk
        subst keyOk
        obtain ⟨oldKey, newKey, oldRow, can⟩ := RecordStore.canMove_of_renameRow done
        rcases origin with before | empty
        · exact stays store new cascades oldKey newKey oldRow ⟨before, ⟨value, rfl, coerced⟩, rfl, can⟩
        · have absent := can.stored
          rw [MockRecord.store, empty, OrderedMap.get?_empty] at absent
          cases absent

omit [CaseMapping] in
theorem moved_takeView (other : UInt64) :
    (store.moved handle [(field, new)] oldKey newKey oldRow).takeView other =
      if other = handle then
        { store.takeView handle with current := (store.takeView handle).current.insert field new, xRec := oldRow }
      else store.takeView other := by
  rw [RecordStore.moved]
  split
  next same =>
    subst same
    rw [RecordStore.takeView_putView_self]
    rfl
  next apart =>
    rw [RecordStore.takeView_putView_other _ fun same => apart same.symm]
    rfl

theorem cellAfter_nil (record : MockRecord) (row : Row) (field : FieldNo) : record.cellAfter [] row field = row.get? field :=
  rfl

theorem UpdatedBy.takeView {before after : RecordStore} {updates : List CellUpdate} (updated : UpdatedBy before after updates)
    (handle : UInt64) : after.takeView handle = before.takeView handle := by
  rw [updated.schema]
  rfl

theorem RecordStore.changes_consistent (store : RecordStore) (n : String) (cascades : List RenameCascade) (old new : Value) :
    MockRecord.Consistent (store.changes n cascades old new) := by
  rw [RecordStore.changes]
  split
  · simp [MockRecord.Consistent]
  · exact store.updates_consistent n cascades old new

theorem UpdatedBy.updated {before after : RecordStore} {updates : List CellUpdate} (updated : UpdatedBy before after updates)
    (consistent : MockRecord.Consistent updates) : Updated before after before.record.store updates := by
  obtain ⟨schema, move, carried⟩ := updated
  refine ⟨by rw [schema]; rfl, _, move, carried, ?_⟩
  intro row field
  exact MockRecord.updatedAll_get? consistent row field

omit [CaseMapping] in
theorem moved_store :
    (store.moved handle [(field, new)] oldKey newKey oldRow).record.store =
      (store.record.store.remove oldKey).put newKey ((store.takeView handle).current.insert field new) := by
  rw [RecordStore.moved, MockRecord.store, MockRecord.store, ← MockRecord.store_erase, ← MockRecord.store_insert]
  rfl

theorem UpdatedBy.moved {after : RecordStore} {updates : List CellUpdate}
    (updated : UpdatedBy (store.moved handle [(field, new)] oldKey newKey oldRow) after updates)
    (consistent : MockRecord.Consistent updates) :
    Updated store after
      ((store.record.store.remove oldKey).put newKey ((store.takeView handle).current.insert field new)) updates := by
  obtain ⟨_, change, move, carried, cells⟩ := updated.updated consistent
  rw [moved_store] at carried
  refine ⟨?_, change, move, carried, cells⟩
  rw [updated.schema]
  rfl

/-- A move and a run of updates that does not fail make a rename. -/
theorem renamed_of_updated {records' : Records}
    (moves : Moves relations table handle values field records store new cascades oldKey newKey oldRow)
    (absent : ∀ n, (records.insert table.key (store.moved handle [(field, new)] oldKey newKey oldRow)).get? n = none →
      records'.get? n = none)
    (present : ∀ n before,
      (records.insert table.key (store.moved handle [(field, new)] oldKey newKey oldRow)).get? n = some before →
      ∃ after, records'.get? n = some after ∧
        UpdatedBy before after (before.changes n cascades (store.bufferValue handle field) new)) :
    Renamed table handle cascades field new store records records' := by
  refine ⟨oldKey, newKey, oldRow, moves.can, ?_⟩
  intro n
  specialize absent n
  specialize present n
  rw [OrderedMap.get?_insert] at absent present
  by_cases same : table.key = n
  · subst same
    simp only [Std.ReflCmp.compare_self, if_true] at present
    constructor
    · intro missing
      rw [moves.stored] at missing
      cases missing
    · intro before stored
      obtain rfl : store = before := Option.some.inj (moves.stored.symm.trans stored)
      obtain ⟨after, storedAfter, updated⟩ := present _ rfl
      refine ⟨after, storedAfter, ?_, ?_⟩
      · rw [if_pos rfl]
        exact updated.moved (RecordStore.changes_consistent _ _ _ _ _)
      · intro other
        rw [updated.takeView, moved_takeView]
        simp
  · have apart : compare table.key n ≠ .eq := by simpa using same
    rw [if_neg apart] at absent
    simp only [if_neg apart] at present
    refine ⟨absent, ?_⟩
    intro before stored
    obtain ⟨after, storedAfter, updated⟩ := present before stored
    refine ⟨after, storedAfter, ?_, ?_⟩
    · rw [if_neg fun equal => same equal.symm]
      exact updated.updated (before.changes_consistent _ _ _ _)
    · intro other
      rw [if_neg fun both => same both.1.symm]
      exact updated.takeView other

omit [CaseMapping] in
/-- The rename of a buffer shows. -/
theorem changed_of_moved {records' : Records} (stored : records.get? table.key = some store)
    (differ : (store.bufferValue handle field == new) = false)
    (views : ((records'.get? table.key).map (·.views)) =
      some (store.moved handle [(field, new)] oldKey newKey oldRow).views) : ¬Unchanged records records' := by
  intro unchanged
  have same := unchanged table.key
  rw [stored] at same
  cases storedAfter : records'.get? table.key with
  | none => simp [storedAfter] at views
  | some after =>
      rw [storedAfter] at same views
      have kept := congrArg RecordView.current (same.2 handle)
      have sameView : after.takeView handle = (store.moved handle [(field, new)] oldKey newKey oldRow).takeView handle := by
        have sameViews : after.views = (store.moved handle [(field, new)] oldKey newKey oldRow).views := Option.some.inj views
        rw [RecordStore.takeView, RecordStore.takeView, sameViews]
        simp [RecordStore.moved, RecordStore.putView, OrderedMap.get?_insert_self]
      rw [sameView, moved_takeView, if_pos rfl] at kept
      have cell : (store.takeView handle).current.get? field = some new := by
        rw [← kept]
        exact OrderedMap.get?_insert_self ..
      rw [RecordStore.bufferValue, cell] at differ
      simp at differ

omit [CaseMapping] in
theorem Follows.moved (follows : Follows store cascades field) :
    Follows (store.moved handle [(field, new)] oldKey newKey oldRow) cascades field := by
  intro cascade inside
  have resolved := follows cascade inside
  rw [resolveField_ok_iff] at resolved ⊢
  exact resolved

/-- What the rename is to do, `after` being its result and the tables it leaves. -/
def AllOrNothing (relations : Except String (List RenameCascade)) (table : TableRef) (handle : UInt64) (values : List Value)
    (field : FieldNo) (records : Records) (after : Except String Bool × Records) : Prop :=
  (after.1 = .ok true → ∃ store value new cascades, records.get? table.key = some store ∧ values = [value] ∧
      store.coerceToField field value = .ok new ∧ relations = .ok cascades ∧
      Renamed table handle cascades field new store records after.2) ∧
    (after.1 ≠ .ok true → Unchanged records after.2)

theorem allOrNothing_of_renamed {records' : Records}
    (moves : Moves relations table handle values field records store new cascades oldKey newKey oldRow)
    (renamed : Renamed table handle cascades field new store records records') :
    AllOrNothing relations table handle values field records (.ok true, records') := by
  obtain ⟨value, single, coerced⟩ := moves.coerced
  constructor
  · intro _
    exact ⟨store, value, new, cascades, moves.stored, single, coerced, moves.related, renamed⟩
  · intro failed
    exact absurd rfl failed

theorem allOrNothing_of_equal (persistent : table.tempOwner = none) (single : store.record.primaryKeyFields = [field])
    (follows : Follows store cascades field)
    (moves : Moves relations table handle values field records store new cascades oldKey newKey oldRow)
    (equal : (store.bufferValue handle field == new) = true) :
    AllOrNothing relations table handle values field records
      (dispatchRename loadTableMeta relations table handle values stmtPosition records) := by
  rw [dispatchRename_of_moves persistent single moves,
    cascadeRename_equal equal (OrderedMap.get?_insert_self ..) follows.moved]
  apply allOrNothing_of_renamed moves
  apply renamed_of_updated moves fun n absent => absent
  intro n before stored
  refine ⟨before, stored, ?_⟩
  rw [RecordStore.changes, if_pos equal]
  exact .refl before

theorem allOrNothing_of_cascaded {records' : Records} (persistent : table.tempOwner = none)
    (single : store.record.primaryKeyFields = [field]) (follows : Follows store cascades field)
    (moves : Moves relations table handle values field records store new cascades oldKey newKey oldRow)
    (differ : (store.bufferValue handle field == new) = false)
    (run : Cascaded (store.bufferValue handle field) new cascades
      (records.insert table.key (store.moved handle [(field, new)] oldKey newKey oldRow)) records') :
    AllOrNothing relations table handle values field records
      (dispatchRename loadTableMeta relations table handle values stmtPosition records) := by
  rw [dispatchRename_of_moves persistent single moves,
    (cascadeRename_ok_iff differ (OrderedMap.get?_insert_self ..) follows.moved).mpr run]
  apply allOrNothing_of_renamed moves
  apply renamed_of_updated moves
  · intro n absent
    exact run.absent absent
  · intro n before stored
    rw [RecordStore.changes, if_neg (by simp [differ])]
    exact run.updated stored

/-- A failed update leaves the row moved. -/
theorem cascaded_of_allOrNothing (persistent : table.tempOwner = none) (single : store.record.primaryKeyFields = [field])
    (follows : Follows store cascades field)
    (moves : Moves relations table handle values field records store new cascades oldKey newKey oldRow)
    (differ : (store.bufferValue handle field == new) = false)
    (whole : AllOrNothing relations table handle values field records
      (dispatchRename loadTableMeta relations table handle values stmtPosition records)) :
    ∃ records', Cascaded (store.bufferValue handle field) new cascades
      (records.insert table.key (store.moved handle [(field, new)] oldKey newKey oldRow)) records' := by
  obtain ⟨_, failure⟩ := whole
  rw [dispatchRename_of_moves persistent single moves] at failure
  have views := @cascadeRename_views _ (store.bufferValue handle field) new field cascades
    (records.insert table.key (store.moved handle [(field, new)] oldKey newKey oldRow)) table.key table.key
  rcases run : cascadeRename table.key cascades [(field, store.bufferValue handle field)] [(field, new)]
    (records.insert table.key (store.moved handle [(field, new)] oldKey newKey oldRow)) with ⟨_ | _, records'⟩
  · rw [run] at failure views
    rw [OrderedMap.get?_insert_self] at views
    exact absurd (failure (by nofun)) (changed_of_moved moves.stored differ views)
  · exact ⟨records', (cascadeRename_ok_iff differ (OrderedMap.get?_insert_self ..) follows.moved).mp run⟩

end AllOrNothing

end Tables

/-! ## The rename that fails half way -/

section Latin

local instance latinRename : CaseMapping := .latin1

/-- A table keyed by `"No."`, with the given rows. -/
def numbered (tableName : String) (keys : List Int64) : RecordStore :=
  let declared : TableMeta :=
    { tableId := 1, tableName, fieldByName := .insert .empty "no." 1, fieldDefaults := .insert .empty 1 (.integer 0),
      fieldLengths := .empty, pkFields := [1] }
  declared.newStore.withRows
    (keys.foldl (fun rows key => rows.insert [normalizeKeyValue (.integer key)] (.insert .empty 1 (.integer key))) .empty)

/-- Customer 1, in the buffer of one variable. -/
def customerOne : RecordStore :=
  (numbered "Customer" [1]).putView 0 { (default : RecordView) with current := .insert .empty 1 (.integer 1) }

/-- A setup for each of the customers 1 and 2. -/
def twoSetups : Records := (OrderedMap.insert .empty "customer" customerOne).insert "setup" (numbered "Setup" [1, 2])

def setupNo : RenameCascade := ⟨"Setup", "No.", "No."⟩

def renameCustomer : Except String Bool × Records :=
  dispatchRename (fun _ => .error "") (.ok [setupNo]) (.persistent "Customer") 0 [.integer 2] true twoSetups

def hasRow (records : Records) (n : String) (key : Int64) : Bool :=
  match records.get? n with
  | some store => store.record.rows.contains [normalizeKeyValue (.integer key)]
  | none => false

theorem twoSetups_customer : twoSetups.get? (TableRef.persistent "Customer").key = some customerOne := by
  have key : (TableRef.persistent "Customer").key = "customer" := by decide +kernel
  rw [key, twoSetups, OrderedMap.get?_insert, if_neg (by decide +kernel), OrderedMap.get?_insert_self]

end Latin

end AlLanguage.Runtime
