import AlLanguage.Runtime.BulkWrites
import AlLanguage.Runtime.Rename

/-!
# Row by row and in one pass

Table code that leaves the rows alone makes no difference to a bulk write: row by row, the same rows are written, and the view of the
caller is as it was.
-/

namespace AlLanguage.Runtime

open Library

section Agreement

variable [CaseMapping] {ρ : Type} {key : String} {handle : UInt64} {code : TableCode ρ} {write : RecordWrite} {runTrigger : Bool}
  {ctx : Context ρ} {store : RecordStore} {record : MockRecord}

/-- The table's store in a state. -/
def Context.Holds (ctx : Context ρ) (key : String) (record : MockRecord) : Prop :=
  ∃ store, ctx.records.get? key = some store ∧ store.record = record

/-- Code that is done with the rows and the view of the caller as they were. It can do anything else. -/
def Quiet (key : String) (handle : UInt64) (run : Context ρ → WriteOutcome ρ) : Prop :=
  ∀ ctx store, ctx.records.get? key = some store → ∃ ctx' store', run ctx = (.ok (), ctx') ∧ ctx'.records.get? key = some store' ∧
    store'.record = store.record ∧ store'.takeView handle = store.takeView handle

structure QuietCode (key : String) (handle : UInt64) (code : TableCode ρ) : Prop where
  onBefore : ∀ write runTrigger, Quiet key handle (code.onBefore write runTrigger)
  trigger : ∀ write, Quiet key handle (code.trigger write)
  onAfter : ∀ write runTrigger, Quiet key handle (code.onAfter write runTrigger)

omit [CaseMapping] in
theorem quiet_skip : Quiet key handle fun ctx : Context ρ => (.ok (), ctx) :=
  fun ctx store held => ⟨ctx, store, rfl, held, rfl, rfl⟩

omit [CaseMapping] in
theorem quietCode_none : QuietCode key handle (TableCode.none ρ) := ⟨fun _ _ => quiet_skip, fun _ => quiet_skip, fun _ _ => quiet_skip⟩

omit [CaseMapping] in
@[simp] theorem get?_putStore (ctx : Context ρ) (key : String) (store : RecordStore) :
    (ctx.putStore key store).records.get? key = some store := OrderedMap.get?_insert_self ..

omit [CaseMapping] in
/-- Around a write, quiet code changes nothing that the write sees. -/
theorem writeWithTableCode_quiet (quiet : QuietCode key handle code) (held : ctx.records.get? key = some store)
    {operate : Context ρ → WriteOutcome ρ} {P : MockRecord → Prop}
    (operates : ∀ ctx store', ctx.records.get? key = some store' → store'.record = store.record →
      store'.takeView handle = store.takeView handle →
      ∃ ctx' record, operate ctx = (.ok (), ctx') ∧ ctx'.Holds key record ∧ P record) :
    ∃ ctx' record, writeWithTableCode code write runTrigger operate ctx = (.ok (), ctx') ∧ ctx'.Holds key record ∧ P record := by
  obtain ⟨before, store₁, ran, held₁, same₁, view₁⟩ := quiet.onBefore write runTrigger ctx store held
  have between : Quiet key handle fun ctx => if runTrigger && code.declares write then code.trigger write ctx else (.ok (), ctx) := by
    cases runTrigger && code.declares write with
    | false => exact quiet_skip
    | true => exact quiet.trigger write
  obtain ⟨triggered, store₂, ran₂, held₂, same₂, view₂⟩ := between before store₁ held₁
  obtain ⟨operated, record, done, ⟨store₃, held₃, same₃⟩, holds⟩ := operates triggered store₂ held₂ (same₂.trans same₁) (view₂.trans view₁)
  obtain ⟨after, store₄, ran₄, held₄, same₄, _⟩ := quiet.onAfter write runTrigger operated store₃ held₃
  refine ⟨after, record, ?_, ⟨store₄, held₄, same₄.trans same₃⟩, holds⟩
  unfold writeWithTableCode
  dsimp only at ran₂
  rw [ran]
  dsimp only
  rw [ran₂]
  dsimp only
  rw [done]
  exact ran₄

/-- A bulk write. -/
inductive Bulk where
  | deleteAll
  | modifyAll (field : FieldNo) (value : Value)

namespace Bulk

def recordWrite : Bulk → RecordWrite
  | .deleteAll => .delete
  | .modifyAll _ _ => .modify

def assign : Bulk → Option (FieldNo × Value)
  | .deleteAll => none
  | .modifyAll field value => some (field, value)

/-- The buffer with which a row is written. -/
def loaded (bulk : Bulk) (view : RecordView) : RecordView :=
  match bulk.assign with
  | some (field, value) => MockRecord.fieldSetIn view field value
  | none => view

/-- What becomes of a row. -/
def change : Bulk → Row → Option Row
  | .deleteAll, _ => none
  | .modifyAll field value, row => some (row.insert field value)

/-- The key stays. -/
def KeepsKeys (table : MockRecord) : Bulk → Prop
  | .deleteAll => True
  | .modifyAll field _ => field ∉ table.primaryKeyFields

/-- The rows at the given keys are written. -/
def onKeys (bulk : Bulk) (keys : List PrimaryKey) (rows : Store) : Store :=
  fun k => if ∃ key ∈ keys, compare key k = .eq then (rows k).bind bulk.change else rows k

end Bulk

/-- A lookup of a key that is in the table finds it. -/
def Normal (key : PrimaryKey) : Prop := compare (normalizeKey key) key = .eq

omit [CaseMapping] in
theorem onKeys_single {bulk : Bulk} {row own : PrimaryKey} {r : Row} (same : compare row own = .eq) (rows : Store)
    (stored : rows row = some r) (congr : ∀ {k k'}, compare k k' = .eq → rows k = rows k') :
    bulk.onKeys [row] rows = fun k => if compare own k = .eq then bulk.change r else rows k := by
  funext k
  have either : (∃ key ∈ [row], compare key k = .eq) ↔ compare own k = .eq := by
    simp only [List.mem_singleton, exists_eq_left]
    exact ⟨fun here => Std.TransCmp.eq_trans (Std.OrientedCmp.eq_symm same) here, fun here => Std.TransCmp.eq_trans same here⟩
  unfold Bulk.onKeys
  by_cases here : compare own k = .eq
  · rw [if_pos (either.mpr here), if_pos here, ← congr (Std.TransCmp.eq_trans same here), stored]
    rfl
  · rw [if_neg fun there => here (either.mp there), if_neg here]

/-- One row is written. -/
theorem writeBuffer_written (bulk : Bulk) {row : PrimaryKey} {r : Row} (keyed : record.Keyed) (keeps : bulk.KeepsKeys record)
    (stored : record.store row = some r) {view : RecordView} (current : view.current = r) {ctx : Context ρ} (held : ctx.records.get? key = some store) (same : store.record = record) (viewed : store.takeView handle = bulk.loaded view) :
    ∃ ctx' record', writeBuffer key handle bulk.recordWrite ctx = (.ok (), ctx') ∧ ctx'.Holds key record' ∧
      MockRecord.Stores record record' (bulk.onKeys [row] record.store) := by
  obtain ⟨own, ownKey, alike⟩ := keyed row r stored
  have there : record.rows.get? own = some r := (record.store_congr alike).symm.trans stored
  rw [onKeys_single alike record.store stored record.store_congr]
  unfold writeBuffer
  rw [held]
  dsimp only
  rw [viewed, same]
  cases bulk with
  | deleteAll =>
      have primary : record.currentPrimaryKey view = .ok own := by
        rw [MockRecord.currentPrimaryKey, current]
        exact ownKey
      have deleted : record.deleteIn (Bulk.deleteAll.loaded view) false = (.ok (), { record with rows := record.rows.erase own }, view) := by
        change record.deleteIn view false = _
        unfold MockRecord.deleteIn
        rw [if_neg Bool.false_ne_true, primary]
        dsimp only
        rw [if_pos ((record.rows.contains_iff own).mpr ⟨r, there⟩)]
      dsimp only [Bulk.recordWrite]
      rw [deleted]
      exact ⟨_, _, rfl, ⟨_, get?_putStore .., rfl⟩, rfl, MockRecord.store_erase record.rows own⟩
  | modifyAll field value =>
      have buffer : ((Bulk.modifyAll field value).loaded view).current = r.insert field value := by
        rw [← current]
        rfl
      have primary : record.currentPrimaryKey ((Bulk.modifyAll field value).loaded view) = .ok own := by
        rw [MockRecord.currentPrimaryKey, buffer]
        exact (record.keyOfRow_insert keeps r value).trans ownKey
      have modified : record.modifyIn ((Bulk.modifyAll field value).loaded view) false =
          (.ok (), { record with rows := record.rows.insert own ((Bulk.modifyAll field value).loaded view).current },
            { (Bulk.modifyAll field value).loaded view with xRec := r }) := by
        unfold MockRecord.modifyIn
        rw [if_neg Bool.false_ne_true, primary]
        dsimp only
        rw [there]
      dsimp only [Bulk.recordWrite]
      rw [modified]
      refine ⟨_, _, rfl, ⟨_, get?_putStore .., rfl⟩, rfl, ?_⟩
      rw [buffer]
      exact MockRecord.store_insert record.rows own _

theorem keyed_onKeys {bulk : Bulk} (keyed : record.Keyed) (keeps : bulk.KeepsKeys record) (keys : List PrimaryKey) :
    Store.Keyed record.keyOfRow (bulk.onKeys keys record.store) := by
  intro k found stored
  unfold Bulk.onKeys at stored
  split at stored
  next =>
    obtain ⟨row, before, changed⟩ := Option.bind_eq_some_iff.mp stored
    cases bulk with
    | deleteAll => cases changed
    | modifyAll field value =>
        cases changed
        rw [record.keyOfRow_insert keeps]
        exact keyed k row before
  next => exact keyed k found stored

omit [CaseMapping] in
theorem onKeys_cons {bulk : Bulk} {row : PrimaryKey} {rest : List PrimaryKey} (apart : ∀ other ∈ rest, compare row other ≠ .eq) (rows : Store) :
    bulk.onKeys rest (bulk.onKeys [row] rows) = bulk.onKeys (row :: rest) rows := by
  funext k
  unfold Bulk.onKeys
  simp only [List.mem_singleton, exists_eq_left, List.exists_mem_cons_iff]
  by_cases here : compare row k = .eq
  · have missing : ¬ ∃ other ∈ rest, compare other k = .eq := by
      rintro ⟨other, member, there⟩
      exact apart other member (Std.TransCmp.eq_trans here (Std.OrientedCmp.eq_symm there))
    simp [here, missing]
  · simp [here]

omit [CaseMapping] in
theorem MockRecord.Stores.trans {a b c : MockRecord} {rows rows' : Store} (first : MockRecord.Stores a b rows)
    (second : MockRecord.Stores b c rows') : MockRecord.Stores a c rows' := by
  refine ⟨?_, second.rows⟩
  rw [second.schema, first.schema]

omit [CaseMapping] in
theorem MockRecord.Stores.keepsKeys {a b : MockRecord} {rows : Store} (stores : MockRecord.Stores a b rows) {bulk : Bulk}
    (keeps : bulk.KeepsKeys a) : bulk.KeepsKeys b := by
  rw [stores.schema]
  cases bulk <;> exact keeps

theorem writeRows_loaded {bulk : Bulk} {row : PrimaryKey} {rest : List PrimaryKey} {view : RecordView} (held : ctx.records.get? key = some store)
    (got : store.record.getIn (store.takeView handle) row = (.ok (), view)) :
    writeRows code key handle bulk.recordWrite runTrigger bulk.assign (row :: rest) ctx =
      match writeWithTableCode code bulk.recordWrite runTrigger (writeBuffer key handle bulk.recordWrite)
        (ctx.putStore key (store.putView handle (bulk.loaded view))) with
      | (.error e, ctx) => (.error e, ctx)
      | (.ok (), ctx) => writeRows code key handle bulk.recordWrite runTrigger bulk.assign rest ctx := by
  rw [writeRows, held]
  dsimp only
  rw [got]
  cases bulk <;> rfl

/-- The loop writes the rows at the keys. -/
theorem writeRows_written (bulk : Bulk) (quiet : QuietCode key handle code) {keys : List PrimaryKey}
    (distinct : keys.Pairwise fun a b => compare a b ≠ .eq) (normal : ∀ row ∈ keys, Normal row) (keyed : record.Keyed)
    (keeps : bulk.KeepsKeys record) (stored : ∀ row ∈ keys, ∃ r, record.store row = some r) (held : ctx.Holds key record) :
    ∃ ctx' record', writeRows code key handle bulk.recordWrite runTrigger bulk.assign keys ctx = (.ok (), ctx') ∧ ctx'.Holds key record' ∧
      MockRecord.Stores record record' (bulk.onKeys keys record.store) := by
  induction keys generalizing ctx record with
  | nil =>
      refine ⟨ctx, record, rfl, held, rfl, ?_⟩
      funext k
      simp [Bulk.onKeys]
  | cons row rest ih =>
      obtain ⟨store, here, rfl⟩ := held
      obtain ⟨r, there⟩ := stored row List.mem_cons_self
      obtain ⟨first, distinct⟩ := List.pairwise_cons.mp distinct
      have got : store.record.getIn (store.takeView handle) row =
          (.ok (), { store.takeView handle with current := r, xRec := r }) := by
        unfold MockRecord.getIn
        rw [show store.record.rows.get? (normalizeKey row) = some r from
          (store.record.store_congr (normal row List.mem_cons_self)).trans there]
      have row_written : ∃ ctx' record', writeWithTableCode code bulk.recordWrite runTrigger (writeBuffer key handle bulk.recordWrite)
            (ctx.putStore key (store.putView handle (bulk.loaded { store.takeView handle with current := r, xRec := r }))) = (.ok (), ctx') ∧
          ctx'.Holds key record' ∧ MockRecord.Stores store.record record' (bulk.onKeys [row] store.record.store) :=
        writeWithTableCode_quiet quiet (get?_putStore ..) fun ctx store' held same viewed =>
          writeBuffer_written bulk keyed keeps there rfl held same (viewed.trans (RecordStore.takeView_putView_self _))
      obtain ⟨next, record', wrote, holds, stores⟩ := row_written
      obtain ⟨last, record'', ran, holds', stores'⟩ := ih distinct (fun other member => normal other (List.mem_cons_of_mem _ member))
        (stores.keyed (keyed_onKeys keyed keeps [row])) (stores.keepsKeys keeps) (fun other member => by
          obtain ⟨r', before⟩ := stored other (List.mem_cons_of_mem _ member)
          refine ⟨r', ?_⟩
          rw [stores.rows, Bulk.onKeys, if_neg]
          · exact before
          · simpa using first other member) holds
      refine ⟨last, record'', ?_, holds', ?_⟩
      · rw [writeRows_loaded here got, wrote]
        exact ran
      · rw [stores.rows, onKeys_cons first] at stores'
        exact stores.trans stores'

/-! ## Keys are spelled as a lookup spells them -/

omit [CaseMapping] in
theorem variantIndex_of_compare {a b : Value} (same : compare a b = .eq) : a.variantIndex = b.variantIndex := by
  have plain : Value.compare a b = .eq := same
  rw [Value.compare_eq, Ordering.then_eq_eq] at plain
  have first := (Ordering.then_eq_eq.mp plain.1).1
  exact Std.LawfulEqOrd.compare_eq_iff_eq.mp first

theorem compare_normalizeKeyValue {a b : Value} (same : compare a b = .eq) : compare (normalizeKeyValue a) (normalizeKeyValue b) = .eq := by
  have kinds := variantIndex_of_compare same
  cases a with
  | code s =>
      cases b with
      | code s' =>
          obtain rfl : s = s' := Std.LawfulEqOrd.compare_eq_iff_eq.mp same
          exact Std.ReflCmp.compare_self
      | _ => cases kinds
  | integer n | bigInteger n =>
      cases b with
      | integer m | bigInteger m =>
          obtain rfl : n = m := Std.LawfulEqOrd.compare_eq_iff_eq.mp same
          exact Std.ReflCmp.compare_self
      | _ => cases kinds
  | _ =>
      cases b with
      | code s | integer n | bigInteger n => cases kinds
      | _ => exact same

theorem compare_normalizeKey {a b : PrimaryKey} (same : compare a b = .eq) : compare (normalizeKey a) (normalizeKey b) = .eq := by
  induction a generalizing b with
  | nil =>
      cases b with
      | nil => exact same
      | cons cell rest => cases same
  | cons cell rest ih =>
      cases b with
      | nil => cases same
      | cons cell' rest' =>
          have parts : (compare cell cell').then (compare rest rest') = .eq := List.compareLex_cons_cons.symm.trans same
          obtain ⟨first, later⟩ := Ordering.then_eq_eq.mp parts
          refine List.compareLex_cons_cons.trans (Ordering.then_eq_eq.mpr ⟨compare_normalizeKeyValue first, ?_⟩)
          exact ih later

/-- A text in upper case stays as it is. -/
def UpperStays : Prop := ∀ text, toUppercase (toUppercase text) = toUppercase text

theorem normalizeKeyValue_twice (stays : UpperStays) (value : Value) :
    normalizeKeyValue (normalizeKeyValue value) = normalizeKeyValue value := by
  cases value with
  | code text => exact congrArg Value.code (stays text)
  | _ => rfl

theorem normalizeKey_own (stays : UpperStays) {row : Row} {own : PrimaryKey} (ownKey : record.keyOfRow row = .ok own) :
    normalizeKey own = own := by
  have cells := forall₂_of_mapM_ok ownKey
  clear ownKey
  generalize record.primaryKeyFields = fields at cells
  induction cells with
  | nil => rfl
  | cons read _ ih =>
      unfold MockRecord.keyCell at read
      split at read
      next =>
        cases read
        exact congrArg₂ List.cons (normalizeKeyValue_twice stays _) ih
      next => cases read

/-- The keys of a keyed table are found by a lookup. -/
theorem normal_of_keyed (stays : UpperStays) (keyed : record.Keyed) {row : PrimaryKey} {r : Row} (stored : record.store row = some r) :
    Normal row := by
  obtain ⟨own, ownKey, alike⟩ := keyed row r stored
  have same := compare_normalizeKey alike
  rw [normalizeKey_own stays ownKey] at same
  exact Std.TransCmp.eq_trans same (Std.OrientedCmp.eq_symm alike)

/-! ## The agreement -/

variable [DecimalSyntax]

open MockRecord (selects)

theorem matchingKeysIn_perm (table : MockRecord) (view : RecordView) :
    (table.matchingKeysIn view).Perm (table.rows.filter fun _ row => selects view row).keys := by
  unfold MockRecord.matchingKeysIn
  dsimp only
  split
  next => exact (List.reverse_perm _).trans (List.perm_insertionSort _ _)
  next => exact List.perm_insertionSort _ _

theorem matchingKeysIn_distinct (table : MockRecord) (view : RecordView) :
    (table.matchingKeysIn view).Pairwise fun a b => compare a b ≠ .eq := by
  refine (matchingKeysIn_perm table view).symm.pairwise ((table.rows.filter _).keys_distinct) ?_
  exact fun apart same => apart (Std.OrientedCmp.eq_symm same)

theorem stored_of_matching {table : MockRecord} {view : RecordView} {row : PrimaryKey} (member : row ∈ table.matchingKeysIn view) :
    ∃ r, table.store row = some r := by
  have inside := (matchingKeysIn_perm table view).mem_iff.mp member
  obtain ⟨r, found, _⟩ := (table.rows.exists_keys_filter (selects view) row).mp ⟨row, inside, Std.ReflCmp.compare_self⟩
  exact ⟨r, found⟩

/-- The rows that are written are those that the filters select. -/
theorem onKeys_matching (bulk : Bulk) (table : MockRecord) (view : RecordView) :
    bulk.onKeys (table.matchingKeysIn view) table.store =
      fun k => (table.store k).bind fun row => if selects view row then bulk.change row else some row := by
  funext k
  have either : (∃ key ∈ table.matchingKeysIn view, compare key k = .eq) ↔ ∃ row, table.store k = some row ∧ selects view row = true := by
    refine Iff.trans ?_ (table.rows.exists_keys_filter (selects view) k)
    simp only [(matchingKeysIn_perm table view).mem_iff]
  unfold Bulk.onKeys
  cases stored : table.store k with
  | none => split <;> rfl
  | some row =>
      rw [stored] at either
      by_cases selected : selects view row = true
      · rw [if_pos (either.mpr ⟨row, rfl, selected⟩)]
        simp [selected]
      · rw [if_neg fun there => by
          obtain ⟨_, ⟨⟩, chosen⟩ := either.mp there
          exact selected chosen]
        simp [selected]

/-- What a bulk write leaves: the rows that the filters select are written, and the caller's view is as it was. -/
structure Bulk.Done (bulk : Bulk) (handle : UInt64) (key : String) (before : RecordStore) (outcome : WriteOutcome ρ) : Prop where
  answer : outcome.1 = .ok ()
  rows : ∃ after, outcome.2.records.get? key = some after ∧
    MockRecord.Stores before.record after.record (fun k => (before.record.store k).bind fun row =>
      if selects (before.takeView handle) row then bulk.change row else some row) ∧
    after.takeView handle = if bulk.recordWrite = .delete then (before.takeView handle).clearCursor else before.takeView handle

/-- A field of the key is not changed, and nothing else is. -/
structure Bulk.Refused (bulk : Bulk) (handle : UInt64) (key : String) (before : RecordStore) (outcome : WriteOutcome ρ) : Prop where
  answer : ∃ field value, bulk = .modifyAll field value ∧
    outcome.1 = .error ("ModifyAll: " ++ (RecordError.primaryKeyModifyAll field).message)
  rows : ∃ after, outcome.2.records.get? key = some after ∧ after.record = before.record ∧ after.takeView handle = before.takeView handle

variable {loadTableMeta : String → Except String TableMeta} {table : TableRef} {records : Records}

variable (code handle runTrigger) in
theorem onePass_ended (bulk : Bulk) (unseen : (code.observed bulk.recordWrite || (runTrigger && code.declares bulk.recordWrite)) = false)
    (there : ensureStore loadTableMeta ctx.records table = .ok (store, records)) :
    (bulk.KeepsKeys store.record →
      bulk.Done handle table.key store (writeAll code handle bulk.recordWrite runTrigger bulk.assign loadTableMeta table ctx)) ∧
    (¬ bulk.KeepsKeys store.record →
      bulk.Refused handle table.key store (writeAll code handle bulk.recordWrite runTrigger bulk.assign loadTableMeta table ctx)) := by
  unfold writeAll
  rw [there]
  dsimp only
  rw [unseen]
  cases bulk with
  | deleteAll =>
      refine ⟨fun _ => ?_, fun moved => absurd trivial moved⟩
      rcases deleted : store.record.deleteAllIn (store.takeView handle) false with ⟨result, record', view'⟩
      cases result with
      | error e =>
          have answers : (store.record.deleteAllIn (store.takeView handle) false).1 ≠ .error e := by
            unfold MockRecord.deleteAllIn
            rw [if_neg Bool.false_ne_true]
            exact fun same => by cases same
          rw [deleted] at answers
          exact absurd rfl answers
      | ok removed =>
          obtain ⟨_, stores⟩ := MockRecord.deleteAllIn_ok deleted
          have viewed : view' = (store.takeView handle).clearCursor := by
            unfold MockRecord.deleteAllIn at deleted
            rw [if_neg Bool.false_ne_true] at deleted
            cases deleted
            rfl
          dsimp only [Bulk.assign]
          rw [if_pos (by rfl)]
          refine ⟨rfl, _, OrderedMap.get?_insert_self .., ⟨stores.schema, ?_⟩, (RecordStore.takeView_putView_self _).trans viewed⟩
          refine stores.rows.trans ?_
          funext k
          unfold Store.keep
          cases store.record.store k with
          | none => rfl
          | some row => cases selected : selects (store.takeView handle) row <;> simp [Bulk.change, selected]
  | modifyAll field value =>
      refine ⟨fun keeps => ?_, fun moved => ?_⟩
      · have unkeyed : field ∉ store.record.primaryKeyFields := keeps
        have modified : store.record.modifyAllIn (store.takeView handle) field value false =
            (.ok (store.record.countRows (selects (store.takeView handle))), { store.record with
              rows := store.record.rows.mapValues fun _ row => MockRecord.modifyRow (store.takeView handle) field value row }) := by
          unfold MockRecord.modifyAllIn
          rw [if_neg Bool.false_ne_true, if_neg unkeyed]
          rfl
        have stores := (MockRecord.modifyAllIn_ok modified).2.2
        dsimp only [Bulk.assign]
        rw [modified, if_pos (by rfl)]
        refine ⟨rfl, _, OrderedMap.get?_insert_self .., ⟨stores.schema, ?_⟩, RecordStore.takeView_putView_self _⟩
        refine stores.rows.trans ?_
        funext k
        unfold Store.change MockRecord.modifyRow
        cases store.record.store k with
        | none => rfl
        | some row => cases selected : selects (store.takeView handle) row <;> simp [Bulk.change, selected]
      · have keyedField : field ∈ store.record.primaryKeyFields := not_not.mp moved
        have refused : store.record.modifyAllIn (store.takeView handle) field value false =
            (.error (.primaryKeyModifyAll field), store.record) := by
          unfold MockRecord.modifyAllIn
          rw [if_neg Bool.false_ne_true, if_pos keyedField]
        dsimp only [Bulk.assign]
        rw [refused, if_pos (by rfl)]
        exact ⟨⟨field, value, rfl, rfl⟩, _, OrderedMap.get?_insert_self .., rfl, RecordStore.takeView_putView_self _⟩

theorem rowByRow_ended (bulk : Bulk) (quiet : QuietCode table.key handle code) (stays : UpperStays)
    (seen : (code.observed bulk.recordWrite || (runTrigger && code.declares bulk.recordWrite)) = true)
    (there : ensureStore loadTableMeta ctx.records table = .ok (store, records)) (keyed : store.record.Keyed) :
    (bulk.KeepsKeys store.record →
      bulk.Done handle table.key store (writeAll code handle bulk.recordWrite runTrigger bulk.assign loadTableMeta table ctx)) ∧
    (¬ bulk.KeepsKeys store.record →
      bulk.Refused handle table.key store (writeAll code handle bulk.recordWrite runTrigger bulk.assign loadTableMeta table ctx)) := by
  unfold writeAll
  rw [there]
  dsimp only
  rw [seen, if_neg (by decide)]
  have each (keeps : bulk.KeepsKeys store.record) : bulk.Done handle table.key store
      (writeAll.writeEach code handle bulk.recordWrite runTrigger bulk.assign table store (store.takeView handle)
        { ctx with records := records.insert table.key (store.putView handle (store.takeView handle)) }) := by
    have loop : ∃ ctx' record', writeRows code table.key handle bulk.recordWrite runTrigger bulk.assign
          (store.record.matchingKeysIn (store.takeView handle))
          { records := records.insert table.key (store.putView handle (store.takeView handle)), rest := code.hideGlobals ctx.rest } =
            (.ok (), ctx') ∧ ctx'.Holds table.key record' ∧
        MockRecord.Stores store.record record' (bulk.onKeys (store.record.matchingKeysIn (store.takeView handle)) store.record.store) := by
      refine writeRows_written bulk quiet (matchingKeysIn_distinct store.record (store.takeView handle)) (fun row member => ?_) keyed keeps
        (fun row member => stored_of_matching member) ⟨_, OrderedMap.get?_insert_self .., rfl⟩
      obtain ⟨r, stored⟩ := stored_of_matching member
      exact normal_of_keyed stays keyed stored
    obtain ⟨written, record', ran, ⟨after, held, rfl⟩, stores⟩ := loop
    unfold writeAll.writeEach
    dsimp only
    rw [ran]
    dsimp only
    rw [held]
    rw [onKeys_matching] at stores
    exact ⟨rfl, _, get?_putStore .., stores, RecordStore.takeView_putView_self _⟩
  cases bulk with
  | deleteAll => exact ⟨fun _ => each trivial, fun moved => absurd trivial moved⟩
  | modifyAll field value =>
      refine ⟨fun keeps => ?_, fun moved => ?_⟩
      · have unkeyed : field ∉ store.record.primaryKeyFields := keeps
        dsimp only [Bulk.assign]
        rw [if_neg unkeyed]
        exact each keeps
      · have keyedField : field ∈ store.record.primaryKeyFields := not_not.mp moved
        dsimp only [Bulk.assign]
        rw [if_pos keyedField]
        exact ⟨⟨field, value, rfl, rfl⟩, _, OrderedMap.get?_insert_self .., rfl, RecordStore.takeView_putView_self _⟩

/-- Table code that leaves the rows and the view alone makes no difference: a bulk write ends as it does in one pass. -/
theorem bulk_writes_agree (bulk : Bulk) (quiet : QuietCode table.key handle code) (stays : UpperStays)
    (there : ensureStore loadTableMeta ctx.records table = .ok (store, records)) (keyed : store.record.Keyed) :
    (bulk.KeepsKeys store.record →
      bulk.Done handle table.key store (writeAll code handle bulk.recordWrite runTrigger bulk.assign loadTableMeta table ctx) ∧
      bulk.Done handle table.key store (writeAll (.none ρ) handle bulk.recordWrite runTrigger bulk.assign loadTableMeta table ctx)) ∧
    (¬ bulk.KeepsKeys store.record →
      bulk.Refused handle table.key store (writeAll code handle bulk.recordWrite runTrigger bulk.assign loadTableMeta table ctx) ∧
      bulk.Refused handle table.key store (writeAll (.none ρ) handle bulk.recordWrite runTrigger bulk.assign loadTableMeta table ctx)) := by
  have onePass := onePass_ended handle (.none ρ) runTrigger bulk (by cases runTrigger <;> rfl) there
  cases seen : code.observed bulk.recordWrite || (runTrigger && code.declares bulk.recordWrite) with
  | false =>
      have ended := onePass_ended handle code runTrigger bulk seen there
      exact ⟨fun keeps => ⟨ended.1 keeps, onePass.1 keeps⟩, fun moved => ⟨ended.2 moved, onePass.2 moved⟩⟩
  | true =>
      have ended := rowByRow_ended bulk quiet stays seen there keyed
      exact ⟨fun keeps => ⟨ended.1 keeps, onePass.1 keeps⟩, fun moved => ⟨ended.2 moved, onePass.2 moved⟩⟩

end Agreement

section Latin

attribute [local instance] CaseMapping.latin1 DecimalSyntax.plain

theorem upperStays_latin1 : UpperStays := by
  have small : ∀ n < 256, (CaseMapping.upperChar (Char.ofNat n)).all (fun d => CaseMapping.upperChar d == [d]) = true := by decide +kernel
  have large (c : Char) (beyond : ¬ c.toNat < 256) : CaseMapping.upperChar c = [c] := by
    have other (d : Char) (low : d.toNat < 256) : c ≠ d := fun same => beyond (same ▸ low)
    have unlowered : ¬ (('a' ≤ c ∧ c ≤ 'z') ∨ ('à' ≤ c ∧ c ≤ 'þ' ∧ c ≠ '÷')) := by
      rintro (⟨_, high⟩ | ⟨_, high, _⟩)
      all_goals
        have bound : c.toNat ≤ _ := high
        exact beyond (bound.trans_lt (by decide))
    have sharp : c ≠ 'ß' := other 'ß' (by decide)
    have micro : c ≠ 'µ' := other 'µ' (by decide)
    have dotted : c ≠ 'ÿ' := other 'ÿ' (by decide)
    unfold CaseMapping.upperChar CaseMapping.latin1
    dsimp only
    rw [if_neg sharp, if_neg micro, if_neg dotted, if_neg unlowered]
  have stays (c d : Char) (member : d ∈ CaseMapping.upperChar c) : CaseMapping.upperChar d = [d] := by
    by_cases within : c.toNat < 256
    · rw [← Char.ofNat_toNat c] at member
      exact eq_of_beq (List.all_eq_true.mp (small c.toNat within) d member)
    · rw [large c within] at member
      obtain rfl := List.mem_singleton.mp member
      exact large d within
  intro text
  unfold toUppercase
  rw [String.toList_ofList, List.flatMap_assoc]
  refine congrArg String.ofList (List.flatMap_congr fun c _ => ?_)
  rw [List.flatMap_congr (stays c), List.flatMap_singleton']

/-- Subscribers that count the writes. -/
def counting : TableCode Nat where
  observed _ := true
  declares _ := false
  onBefore _ _ ctx := (.ok (), { ctx with rest := ctx.rest + 1 })
  trigger _ ctx := (.ok (), ctx)
  onAfter _ _ ctx := (.ok (), ctx)
  hideGlobals rest := rest
  restoreGlobals _ rest := rest

theorem counting_quiet (key : String) : QuietCode key 0 counting where
  onBefore _ _ ctx store held := ⟨{ ctx with rest := ctx.rest + 1 }, store, rfl, held, rfl, rfl⟩
  trigger _ := quiet_skip
  onAfter _ _ := quiet_skip

def setupTable : TableRef := .persistent "Setup"

def setups : Context Nat := ⟨.insert .empty setupTable.key (numbered "Setup" [1, 2]), 0⟩

theorem setups_keyed : (numbered "Setup" [1, 2]).record.Keyed := by
  have empty : Store.Keyed (numbered "Setup" []).record.keyOfRow (OrderedMap.empty (κ := PrimaryKey) (ν := Row)).get? :=
    fun _ _ stored => by cases stored
  change Store.Keyed (numbered "Setup" []).record.keyOfRow (OrderedMap.get? (.insert (.insert .empty _ _) _ _))
  rw [MockRecord.store_insert, MockRecord.store_insert]
  exact (empty.put rfl).put rfl

theorem setups_ready : ensureStore (fun _ => .error "") setups.records setupTable = .ok (numbered "Setup" [1, 2], setups.records) := by
  rw [ensureStore, setups, OrderedMap.get?_insert_self]

theorem bulk_writes_agree_setups :
    (Bulk.modifyAll 2 (.integer 7)).Done 0 setupTable.key (numbered "Setup" [1, 2])
        (writeAll counting 0 .modify false (some (2, .integer 7)) (fun _ => .error "") setupTable setups) ∧
      (Bulk.modifyAll 2 (.integer 7)).Done 0 setupTable.key (numbered "Setup" [1, 2])
        (writeAll (.none Nat) 0 .modify false (some (2, .integer 7)) (fun _ => .error "") setupTable setups) :=
  (bulk_writes_agree (.modifyAll 2 (.integer 7)) (counting_quiet _) upperStays_latin1 setups_ready setups_keyed).1
    (show 2 ∉ [1] by decide)

end Latin

end AlLanguage.Runtime
