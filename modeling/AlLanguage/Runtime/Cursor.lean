import AlLanguage.Runtime.RecordRun

/-!
# Iterating a filtered set

- Count, IsEmpty, FindSet and the iteration set agree on the selected rows.
- Next moves a cursor over the snapshot and back.
- The loops `repeat … until Next = 0` and `repeat Delete until Next = 0`.
-/

namespace AlLanguage.Runtime

open Library Library.Machine

/-- The view positioned on `row` at `pos` of its iteration set. -/
def RecordView.loaded (view : RecordView) (row : Row) (pos : Nat) : RecordView :=
  { view with current := row, xRec := row, iterPos := some pos }

namespace MockRecord

/-! ## Next -/

/-- The position `steps` away, clamped to the ends of the set. -/
def nextTarget (length pos : Nat) (steps : Int32) : Nat :=
  (max 0 (min ((length : Int) - 1) (pos + steps.toInt))).toNat

theorem nextTarget_lt {length pos : Nat} (inside : pos < length) (steps : Int32) :
    nextTarget length pos steps < length := by
  unfold nextTarget
  omega

theorem nextTarget_eq {length pos : Nat} (inside : pos < length) (steps : Int32) :
    (nextTarget length pos steps : Int) = max 0 (min ((length : Int) - 1) (pos + steps.toInt)) := by
  unfold nextTarget
  omega

/-- The move is no longer than asked for, so it is an `i32`. -/
theorem toInt_moved {length pos : Nat} (inside : pos < length) (steps : Int32) :
    (Int32.ofInt ((nextTarget length pos steps : Int) - pos)).toInt = (nextTarget length pos steps : Int) - pos := by
  have low := Int32.le_toInt steps
  have high := Int32.toInt_lt steps
  refine Int32.toInt_ofInt_of_le ?_ ?_ <;> unfold nextTarget <;> omega

theorem nextTarget_one {length pos : Nat} (more : pos + 1 < length) : nextTarget length pos 1 = pos + 1 := by
  have one : (1 : Int32).toInt = 1 := rfl
  unfold nextTarget
  omega

theorem nextTarget_one_last {length pos : Nat} (last : pos + 1 = length) : nextTarget length pos 1 = pos := by
  have one : (1 : Int32).toInt = 1 := rfl
  unfold nextTarget
  omega

theorem ofInt_one_step (pos : Nat) : Int32.ofInt (((pos + 1 : Nat) : Int) - pos) = 1 := by
  have step : ((pos + 1 : Nat) : Int) - pos = 1 := by omega
  rw [step]
  rfl

def rowAt (table : MockRecord) (key : PrimaryKey) : Row := (table.rows.get? key).getD .empty

section Next

variable {table : MockRecord} {view : RecordView} {pos : Nat} (positioned : view.iterPos = some pos)
  (inside : pos < view.iterSet.length) (steps : Int32)

include positioned inside

theorem nextIn_eq :
    table.nextIn view steps =
      if nextTarget view.iterSet.length pos steps = pos then (.ok 0, view)
      else
        match table.loadRowAt view (nextTarget view.iterSet.length pos steps) with
        | (.error e, view) => (.error e, view)
        | (.ok (), loaded) =>
            (.ok (Int32.ofInt ((nextTarget view.iterSet.length pos steps : Int) - pos)), loaded) := by
  have nonempty : view.iterSet.isEmpty = false := by
    cases set : view.iterSet with
    | nil => simp [set] at inside
    | cons => rfl
  have target := (nextTarget_eq inside steps).symm
  have stays : ((nextTarget view.iterSet.length pos steps : Int) - pos = 0) ↔
      nextTarget view.iterSet.length pos steps = pos := by omega
  by_cases still : steps = 0
  · subst still
    have home : nextTarget view.iterSet.length pos 0 = pos := by
      simp only [nextTarget, Int32.toInt_zero]
      omega
    simp [nextIn, positioned, home]
  · simp only [nextIn, positioned, nonempty, still, target, stays, Int.toNat_natCast, Bool.false_eq_true, or_self,
      if_false]
    all_goals rfl

theorem nextIn_stay (home : nextTarget view.iterSet.length pos steps = pos) :
    table.nextIn view steps = (.ok 0, view) := by
  rw [nextIn_eq positioned inside, if_pos home]

theorem nextIn_move (away : nextTarget view.iterSet.length pos steps ≠ pos) {key : PrimaryKey} {row : Row}
    (there : view.iterSet[nextTarget view.iterSet.length pos steps]? = some key)
    (stored : table.rows.get? key = some row) :
    table.nextIn view steps =
      (.ok (Int32.ofInt ((nextTarget view.iterSet.length pos steps : Int) - pos)),
        view.loaded row (nextTarget view.iterSet.length pos steps)) := by
  rw [nextIn_eq positioned inside, if_neg away]
  simp [loadRowAt, there, stored, RecordView.loaded]

theorem nextIn_gone (away : nextTarget view.iterSet.length pos steps ≠ pos) {key : PrimaryKey}
    (there : view.iterSet[nextTarget view.iterSet.length pos steps]? = some key)
    (gone : table.rows.get? key = none) : table.nextIn view steps = (.error .notFound, view) := by
  rw [nextIn_eq positioned inside, if_neg away]
  simp [loadRowAt, there, gone]

end Next

/-! ## A cursor over rows that stay -/

/-- The view at `pos` of `keys`, as FindSet and Next leave it. -/
def cursorAt (table : MockRecord) (view : RecordView) (keys : List PrimaryKey) (pos : Nat) : RecordView :=
  { view with iterSet := keys }.loaded (table.rowAt (keys[pos]?.getD [])) pos

/-- Next on a set whose rows are all stored lands on the clamped target. -/
theorem nextIn_cursorAt {table : MockRecord} {view : RecordView} {keys : List PrimaryKey}
    (allStored : ∀ key ∈ keys, ∃ row, table.rows.get? key = some row) {pos : Nat} (inside : pos < keys.length)
    (steps : Int32) :
    table.nextIn (table.cursorAt view keys pos) steps =
      (.ok (Int32.ofInt ((nextTarget keys.length pos steps : Int) - pos)),
        table.cursorAt view keys (nextTarget keys.length pos steps)) := by
  have positioned : (table.cursorAt view keys pos).iterPos = some pos := rfl
  by_cases home : nextTarget keys.length pos steps = pos
  · rw [nextIn_stay positioned inside steps home, home]
    simp
  · have bounded := nextTarget_lt inside steps
    have there : keys[nextTarget keys.length pos steps]? = some keys[nextTarget keys.length pos steps] :=
      List.getElem?_eq_getElem bounded
    obtain ⟨row, stored⟩ := allStored _ (List.getElem_mem bounded)
    rw [nextIn_move positioned inside steps home there stored]
    simp [cursorAt, RecordView.loaded, rowAt, there, stored]

/-- `repeat … until Next = 0`: the rows the body sees, nothing when Next fails or the fuel runs out. -/
def scan (table : MockRecord) : Nat → RecordView → Option (List Row)
  | 0, _ => none
  | fuel + 1, view =>
    match table.nextIn view 1 with
    | (.error _, _) => none
    | (.ok moved, next) => if moved = 0 then some [view.current] else (table.scan fuel next).map (view.current :: ·)

/-- Whatever steps Next takes, it stays on the set. -/
theorem nextIn_steps {table : MockRecord} {view : RecordView} {keys : List PrimaryKey}
    (allStored : ∀ key ∈ keys, ∃ row, table.rows.get? key = some row) {pos : Nat} (inside : pos < keys.length)
    (steps : List Int32) :
    ∃ pos' < keys.length, steps.foldl (fun view n => (table.nextIn view n).2) (table.cursorAt view keys pos) =
      table.cursorAt view keys pos' := by
  induction steps generalizing pos with
  | nil => exact ⟨pos, inside, rfl⟩
  | cons n rest ih =>
      rw [List.foldl_cons, nextIn_cursorAt allStored inside]
      exact ih (nextTarget_lt inside n)

/-- Next by the negated result comes back. -/
theorem nextTarget_back {length pos : Nat} (inside : pos < length) {steps back : Int32}
    (negated : back.toInt = -((nextTarget length pos steps : Int) - pos)) :
    nextTarget length (nextTarget length pos steps) back = pos := by
  have target := nextTarget_eq inside steps
  have returned := nextTarget_eq (nextTarget_lt inside steps) back
  omega

theorem ofInt_eq_of_toInt {n : Int32} {i : Int} (same : n.toInt = i) : Int32.ofInt i = n := by
  rw [← same, Int32.ofInt_toInt]

/-- The loop sees the rows from the cursor on, in the order of the set. -/
theorem scan_cursorAt {table : MockRecord} {view : RecordView} {keys : List PrimaryKey}
    (allStored : ∀ key ∈ keys, ∃ row, table.rows.get? key = some row) {pos fuel : Nat} (inside : pos < keys.length)
    (enough : keys.length ≤ pos + fuel) :
    table.scan fuel (table.cursorAt view keys pos) = some ((keys.drop pos).map table.rowAt) := by
  induction fuel generalizing pos with
  | zero => omega
  | succ fuel ih =>
      have current : (table.cursorAt view keys pos).current = table.rowAt keys[pos] := by
        simp [cursorAt, RecordView.loaded, List.getElem?_eq_getElem inside]
      rw [scan, nextIn_cursorAt allStored inside, List.drop_eq_getElem_cons inside, List.map_cons, current]
      by_cases more : pos + 1 < keys.length
      · have moved : (1 : Int32) ≠ 0 := by decide
        simp only [nextTarget_one more, ofInt_one_step, if_neg moved, ih more (by omega), Option.map_some]
      · have rest : keys.drop (pos + 1) = [] := List.drop_eq_nil_of_le (by omega)
        have stayed : Int32.ofInt 0 = 0 := rfl
        simp only [nextTarget_one_last (show pos + 1 = keys.length by omega), Int.sub_self, stayed, if_true, rest,
          List.map_nil]

variable [CaseMapping]

/-! ## The delete loop -/

/-- `repeat Delete until Next = 0`: the table it ends with. -/
def deleteLoop : Nat → MockRecord → RecordView → Option MockRecord
  | 0, _, _ => none
  | fuel + 1, table, view =>
    match table.deleteIn view false with
    | (.error _, _, _) => none
    | (.ok (), table, view) =>
      match table.nextIn view 1 with
      | (.error _, _) => none
      | (.ok moved, view) => if moved = 0 then some table else deleteLoop fuel table view

/-- Deleting under the cursor removes the row whose key stands there. -/
theorem deleteIn_at {table : MockRecord} {view : RecordView} {key : PrimaryKey} {row : Row} (keyed : table.Keyed)
    (stored : table.rows.get? key = some row) (current : view.current = row) :
    table.deleteIn view false = (.ok (), { table with rows := table.rows.erase key }, view) := by
  obtain ⟨own, ownOk, same⟩ := keyed key row stored
  have found : table.currentPrimaryKey view = .ok own := by rw [currentPrimaryKey, current, ownOk]
  have present : table.rows.contains own = true :=
    (table.rows.contains_iff own).mpr ⟨row, (table.rows.get?_congr same).symm.trans stored⟩
  simp [deleteIn, found, present, table.rows.erase_congr same]

/-- The delete loop from the cursor on removes the keys from there on. -/
theorem deleteLoop_from {keys : List PrimaryKey}
    (distinct : keys.Pairwise fun a b => compare a b ≠ .eq) (view : RecordView) (pos fuel : Nat)
    (table : MockRecord) (enough : keys.length ≤ pos + fuel) (keyed : table.Keyed) (set : view.iterSet = keys) (positioned : view.iterPos = some pos)
    {key : PrimaryKey} {rest : List PrimaryKey} (remaining : keys.drop pos = key :: rest)
    (current : table.rows.get? key = some view.current)
    (later : ∀ other ∈ rest, ∃ row, table.rows.get? other = some row) :
    deleteLoop fuel table view = some { table with rows := (key :: rest).foldl .erase table.rows } := by
  induction fuel generalizing pos table view key rest with
  | zero =>
      have length := congrArg List.length remaining
      simp only [List.length_drop, List.length_cons] at length
      omega
  | succ fuel ih =>
      have inside : pos < view.iterSet.length := by
        have length := congrArg List.length remaining
        simp only [List.length_drop, List.length_cons] at length
        rw [set]
        omega
      have apart := (List.pairwise_cons.mp (remaining ▸ distinct.drop)).1
      have keyed' : Store.Keyed table.keyOfRow (table.rows.erase key).get? := by
        rw [store_erase]
        exact Store.Keyed.remove keyed key
      have kept : ∀ other ∈ rest, (table.rows.erase key).get? other = table.rows.get? other := fun other member => by
        rw [OrderedMap.get?_erase, if_neg (apart other member)]
      rw [deleteLoop, deleteIn_at keyed current rfl]
      dsimp only
      have following : keys.drop (pos + 1) = rest := by
        rw [← List.drop_drop, remaining]
        rfl
      cases rest with
      | nil =>
          have last : pos + 1 = view.iterSet.length := by
            have length := congrArg List.length remaining
            simp only [List.length_drop, List.length_cons, List.length_nil] at length
            rw [set]
            omega
          rw [nextIn_stay positioned inside 1 (nextTarget_one_last last)]
          rfl
      | cons next rest =>
          have more : pos + 1 < view.iterSet.length := by
            have length := congrArg List.length remaining
            simp only [List.length_drop, List.length_cons] at length
            rw [set]
            omega
          obtain ⟨row, stored⟩ := later next (List.mem_cons_self ..)
          have there : view.iterSet[nextTarget view.iterSet.length pos 1]? = some next := by
            rw [nextTarget_one more, set, ← List.head?_drop, following]
            rfl
          have storedNow : ({ table with rows := table.rows.erase key } : MockRecord).rows.get? next = some row :=
            (kept next (List.mem_cons_self ..)).trans stored
          have away : nextTarget view.iterSet.length pos 1 ≠ pos := by rw [nextTarget_one more]; omega
          rw [nextIn_move positioned inside 1 away there storedNow]
          simp only [nextTarget_one more, ofInt_one_step, if_neg (show (1 : Int32) ≠ 0 by decide)]
          refine ih (view.loaded row (pos + 1)) (pos + 1) { table with rows := table.rows.erase key } (by omega) keyed'
            set rfl following storedNow fun other member => ?_
          obtain ⟨otherRow, otherStored⟩ := later other (List.mem_cons_of_mem _ member)
          exact ⟨otherRow, (kept other (List.mem_cons_of_mem _ member)).trans otherStored⟩

variable [DecimalSyntax]

/-! ## The selected keys -/

def selectedKeys (table : MockRecord) (view : RecordView) : List PrimaryKey :=
  (table.rows.filter fun _ row => selects view row).keys

theorem matchingKeysIn_perm (table : MockRecord) (view : RecordView) :
    (table.matchingKeysIn view).Perm (table.selectedKeys view) := by
  unfold matchingKeysIn
  dsimp only
  split
  · exact (List.reverse_perm _).trans (List.perm_insertionSort _ _)
  · exact List.perm_insertionSort _ _

theorem length_matchingKeysIn (table : MockRecord) (view : RecordView) :
    (table.matchingKeysIn view).length = table.countIn view := by
  rw [(table.matchingKeysIn_perm view).length_eq, selectedKeys, length_keys_filter, countRows, countIn,
    List.countP_eq_length_filter]
  rfl

theorem isEmptyIn_iff (table : MockRecord) (view : RecordView) :
    table.isEmptyIn view = true ↔ table.countIn view = 0 := by
  simp [isEmptyIn, countIn, List.all_eq_true, List.filter_eq_nil_iff]

theorem mem_matchingKeysIn {table : MockRecord} {view : RecordView} {key : PrimaryKey} :
    key ∈ table.matchingKeysIn view ↔ ∃ row, (key, row) ∈ table.rows.entries ∧ selects view row = true := by
  rw [(table.matchingKeysIn_perm view).mem_iff]
  simp [selectedKeys, OrderedMap.keys]

/-- No key is selected twice. -/
theorem matchingKeysIn_distinct (table : MockRecord) (view : RecordView) :
    (table.matchingKeysIn view).Pairwise fun a b => compare a b ≠ .eq := by
  refine ((table.matchingKeysIn_perm view).pairwise_iff ?_).mpr (OrderedMap.keys_distinct _)
  exact fun apart same => apart (Std.OrientedCmp.eq_symm same)

theorem matchingKeysIn_stored {table : MockRecord} {view : RecordView} {key : PrimaryKey}
    (member : key ∈ table.matchingKeysIn view) :
    ∃ row, table.rows.get? key = some row ∧ selects view row = true := by
  obtain ⟨row, stored, chosen⟩ := mem_matchingKeysIn.mp member
  exact ⟨row, table.rows.get?_of_mem stored, chosen⟩

/-! ## Find -/

theorem findSetIn_none {table : MockRecord} {view : RecordView} (none : table.matchingKeysIn view = []) :
    table.findSetIn view = (.ok false, { view with iterSet := [], iterPos := Option.none }) := by
  simp [findSetIn, findFirstIn, findAt, none]

theorem findSetIn_some {table : MockRecord} {view : RecordView} {key : PrimaryKey} {keys : List PrimaryKey}
    (some : table.matchingKeysIn view = key :: keys) :
    table.findSetIn view = (.ok true, { view with iterSet := key :: keys }.loaded (table.rowAt key) 0) := by
  obtain ⟨row, stored, _⟩ := @matchingKeysIn_stored _ _ table view key (some ▸ List.mem_cons_self ..)
  simp [findSetIn, findFirstIn, findAt, some, loadRowAt, stored, rowAt, RecordView.loaded]

theorem findSetIn_fst (table : MockRecord) (view : RecordView) :
    (table.findSetIn view).1 = .ok (!table.isEmptyIn view) := by
  have length := table.length_matchingKeysIn view
  cases keys : table.matchingKeysIn view with
  | nil =>
      have empty : table.isEmptyIn view = true := (table.isEmptyIn_iff view).mpr (by simp [← length, keys])
      rw [findSetIn_none keys, empty]
      rfl
  | cons key rest =>
      have nonempty : table.isEmptyIn view = false := by
        rw [Bool.eq_false_iff, ne_eq, isEmptyIn_iff, ← length, keys]
        simp
      rw [findSetIn_some keys, nonempty]
      rfl

theorem findSetIn_true {table : MockRecord} {view first : RecordView}
    (found : table.findSetIn view = (.ok true, first)) :
    0 < (table.matchingKeysIn view).length ∧ first = table.cursorAt view (table.matchingKeysIn view) 0 := by
  cases keys : table.matchingKeysIn view with
  | nil =>
      rw [findSetIn_none keys] at found
      cases found
  | cons key rest =>
      rw [findSetIn_some keys] at found
      cases found
      exact ⟨by simp, rfl⟩

theorem deleteLoop_findSet {table : MockRecord} {view first : RecordView} (keyed : table.Keyed)
    (found : table.findSetIn view = (.ok true, first)) {fuel : Nat} (enough : table.countIn view ≤ fuel) :
    ∃ table', deleteLoop fuel table first = some table' ∧
      table'.store = table.store.keep fun row => !selects view row := by
  obtain ⟨_, rfl⟩ := findSetIn_true found
  have each : ∀ key ∈ table.matchingKeysIn view, ∃ row, table.rows.get? key = some row ∧ selects view row = true :=
    fun _ => matchingKeysIn_stored
  cases keys : table.matchingKeysIn view with
  | nil => rw [findSetIn_none keys] at found; cases found
  | cons key rest =>
      rw [keys] at each
      obtain ⟨row, stored, _⟩ := each key (List.mem_cons_self ..)
      refine ⟨_, deleteLoop_from (keys ▸ table.matchingKeysIn_distinct view) _ 0 fuel table ?_ keyed rfl rfl rfl ?_
        fun other member => ?_, ?_⟩
      · have length := table.length_matchingKeysIn view
        rw [keys] at length
        rw [Nat.zero_add]
        exact length.trans_le enough
      · simp [cursorAt, RecordView.loaded, rowAt, stored]
      · obtain ⟨otherRow, otherStored, _⟩ := each other (List.mem_cons_of_mem _ member)
        exact ⟨otherRow, otherStored⟩
      · funext k
        have sameKeys : (∃ other ∈ key :: rest, compare other k = .eq) ↔
            ∃ other ∈ table.selectedKeys view, compare other k = .eq :=
          exists_congr fun other => and_congr_left fun _ => by
            rw [← keys, (table.matchingKeysIn_perm view).mem_iff]
        have erased := table.rows.get?_foldl_erase_filter (selects view) k
        rw [OrderedMap.get?_foldl_erase] at erased
        rw [store, OrderedMap.get?_foldl_erase, Store.keep, store, ← erased]
        exact if_congr sameKeys rfl rfl

end MockRecord

variable [CaseMapping] [DecimalSyntax]

/-- FindSet and Next go through exactly the selected rows, Next by the negated result comes back, and the
delete loop removes exactly the selected rows. -/
theorem findSet_enumerates (tableId : Int) (tableName : String) (primaryKeyFields : List FieldNo)
    (fieldDefaults : OrderedMap FieldNo Value) (views : Nat → RecordView) (actions : List Action)
    (view : RecordView) :
    let table :=
      (run Session.after (Session.start tableId tableName primaryKeyFields fieldDefaults views) actions).table
    let keys := table.matchingKeysIn view
    (table.findSetIn view).1 = .ok (!table.isEmptyIn view) ∧
    (table.isEmptyIn view = true ↔ table.countIn view = 0) ∧
    keys.length = table.countIn view ∧ (keys.Pairwise fun a b => compare a b ≠ .eq) ∧
    (∀ key, key ∈ keys ↔ ∃ row, (key, row) ∈ table.rows.entries ∧ MockRecord.selects view row = true) ∧
    ∀ first, table.findSetIn view = (.ok true, first) →
      (∀ fuel, table.countIn view ≤ fuel → table.scan fuel first = some (keys.map table.rowAt)) ∧
      (∀ steps : List Int32, ∃ pos < table.countIn view,
        let here := steps.foldl (fun view n => (table.nextIn view n).2) first
        here.iterPos = some pos ∧ ∀ n, ∃ (moved : Int32) (there : RecordView) (pos' : Nat),
          table.nextIn here n = (.ok moved, there) ∧
          moved.toInt = max 0 (min ((table.countIn view : Int) - 1) (pos + n.toInt)) - pos ∧
          (pos' : Int) = pos + moved.toInt ∧ there.iterPos = some pos' ∧
          (∃ key, keys[pos']? = some key ∧ there.current = table.rowAt key) ∧
          ∀ back : Int32, back.toInt = -moved.toInt → table.nextIn there back = (.ok back, here)) ∧
      ∀ fuel, table.countIn view ≤ fuel → ∃ table', MockRecord.deleteLoop fuel table first = some table' ∧
        table'.store = table.store.keep fun row => !MockRecord.selects view row := by
  intro table keys
  have keyed : table.Keyed := Session.run_keyed tableId tableName primaryKeyFields fieldDefaults views actions
  have length := table.length_matchingKeysIn view
  have allStored : ∀ key ∈ keys, ∃ row, table.rows.get? key = some row := fun key member =>
    (MockRecord.matchingKeysIn_stored member).imp fun _ => And.left
  refine ⟨table.findSetIn_fst view, table.isEmptyIn_iff view, length, table.matchingKeysIn_distinct view,
    fun key => MockRecord.mem_matchingKeysIn, fun first found => ?_⟩
  obtain ⟨nonempty, rfl⟩ := MockRecord.findSetIn_true found
  refine ⟨fun fuel enough => ?_, fun steps => ?_, fun fuel => MockRecord.deleteLoop_findSet keyed found⟩
  · exact MockRecord.scan_cursorAt allStored nonempty (by rw [Nat.zero_add]; exact length.trans_le enough)
  · obtain ⟨pos, inside, herePos⟩ := MockRecord.nextIn_steps allStored nonempty steps
    rw [herePos]
    refine ⟨pos, length ▸ inside, rfl, fun n => ?_⟩
    have target := MockRecord.nextTarget_eq inside n
    have moved := MockRecord.toInt_moved inside n
    have bounded := MockRecord.nextTarget_lt inside n
    refine ⟨_, _, _, MockRecord.nextIn_cursorAt allStored inside n, ?_, ?_, rfl, ?_, fun back negated => ?_⟩
    · rw [moved, target, length]
    · rw [moved]
      omega
    · exact ⟨_, List.getElem?_eq_getElem bounded, by
        simp [MockRecord.cursorAt, RecordView.loaded, List.getElem?_eq_getElem bounded]⟩
    · rw [moved] at negated
      rw [MockRecord.nextIn_cursorAt allStored bounded, MockRecord.nextTarget_back inside negated,
        MockRecord.ofInt_eq_of_toInt (n := back) (by omega)]

end AlLanguage.Runtime
