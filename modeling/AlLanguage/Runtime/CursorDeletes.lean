import AlLanguage.Runtime.Cursor

/-!
# A cursor while another view deletes

One record variable iterates with Next while others delete rows of the table.
-/

namespace AlLanguage.Runtime

open Library Library.Machine

/-- `Rec.Next(args)` of the interpreter. -/
def runNext (table : MockRecord) (view : RecordView) (values : List Value) : Except String Value × RecordView :=
  let steps : Except String Int32 :=
    match values with
    | [] => .ok 1
    | [.integer steps] =>
        if -2147483648 ≤ steps.toInt ∧ steps.toInt ≤ 2147483647 then .ok (Int32.ofInt steps.toInt)
        else .error ("Next: step count " ++ renderI64 steps ++ " is outside Integer range")
    | _ => .error "Next: expects one optional Integer step count"
  match steps with
  | .error message => (.error message, view)
  | .ok steps =>
    match table.nextIn view steps with
    | (.ok moved, view) => (.ok (.integer (Int64.ofInt moved.toInt)), view)
    | (.error e, view) => (.error ("Next: " ++ e.message), view)

/-- A table and the view that iterates over it. -/
structure Iteration where
  table : MockRecord
  view : RecordView

/-- A turn of the iterating variable, or a delete through another view. -/
inductive Turn where
  | next
  | delete (other : RecordView) (runTrigger : Bool)
  | deleteAll (other : RecordView) (runTrigger : Bool)

def Turn.isNext : Turn → Bool
  | next => true
  | _ => false

namespace Iteration

/-- What Next answers, and the view it leaves. -/
def answer (s : Iteration) : Except String Value × RecordView := runNext s.table s.view []

variable [CaseMapping] [DecimalSyntax]

def after (s : Iteration) : Turn → Iteration
  | .next => { s with view := s.answer.2 }
  | .delete other runTrigger => { s with table := (s.table.deleteIn other runTrigger).2.1 }
  | .deleteAll other runTrigger => { s with table := (s.table.deleteAllIn other runTrigger).2.1 }

end Iteration

/-! ## Stepping over deleted rows -/

def Stored (table : MockRecord) (key : PrimaryKey) : Prop := ∃ row, table.rows.get? key = some row

/-- `pos'` is the next place of the snapshot after `pos` whose row still exists. -/
def NextSurvivor (table : MockRecord) (keys : List PrimaryKey) (pos pos' : Nat) : Prop :=
  pos < pos' ∧ (∃ key, keys[pos']? = some key ∧ Stored table key) ∧
    ∀ i, pos < i → i < pos' → ∀ key, keys[i]? = some key → ¬Stored table key

/-- Next goes to the next surviving row of the snapshot, or answers 0 when there is none. -/
def StepsOver (s : Iteration) : Prop :=
  ∃ pos, s.view.iterPos = some pos ∧
    ((∃ pos' key row moved, NextSurvivor s.table s.view.iterSet pos pos' ∧ s.view.iterSet[pos']? = some key ∧
        s.table.rows.get? key = some row ∧ moved ≠ 0 ∧
        s.answer = (.ok (.integer moved), s.view.loaded row pos')) ∨
      ((∀ pos', ¬NextSurvivor s.table s.view.iterSet pos pos') ∧ s.answer = (.ok (.integer 0), s.view)))

/-- The row of the snapshot's next key, if there is one, has not been deleted. -/
def NextStored (s : Iteration) : Prop :=
  ∀ pos key, s.view.iterPos = some pos → s.view.iterSet[pos + 1]? = some key → Stored s.table key

/-- `P` holds wherever the run calls Next. -/
def AtNexts [CaseMapping] [DecimalSyntax] (P : Iteration → Prop) : Iteration → List Turn → Prop
  | _, [] => True
  | s, turn :: rest => (turn.isNext = true → P s) ∧ AtNexts P (s.after turn) rest

/-- The cursor stands on the snapshot. -/
def Positioned (s : Iteration) : Prop := ∃ pos, s.view.iterPos = some pos ∧ pos < s.view.iterSet.length

/-! ## One Next -/

section Answer

variable {s : Iteration} {pos : Nat} (positioned : s.view.iterPos = some pos)

include positioned

theorem answer_last (last : pos + 1 = s.view.iterSet.length) : s.answer = (.ok (.integer 0), s.view) := by
  have inside : pos < s.view.iterSet.length := by omega
  rw [Iteration.answer, runNext]
  rw [MockRecord.nextIn_stay positioned inside 1 (MockRecord.nextTarget_one_last last)]
  rfl

theorem answer_stored (more : pos + 1 < s.view.iterSet.length) {key : PrimaryKey} {row : Row}
    (following : s.view.iterSet[pos + 1]? = some key) (stored : s.table.rows.get? key = some row) :
    s.answer = (.ok (.integer 1), s.view.loaded row (pos + 1)) := by
  have target := MockRecord.nextTarget_one more
  rw [Iteration.answer, runNext]
  rw [MockRecord.nextIn_move positioned (by omega) 1 (by omega) (target.symm ▸ following) stored, target,
    MockRecord.ofInt_one_step]
  rfl

theorem answer_gone (more : pos + 1 < s.view.iterSet.length) {key : PrimaryKey}
    (following : s.view.iterSet[pos + 1]? = some key) (gone : s.table.rows.get? key = none) :
    s.answer = (.error "Next: record not found", s.view) := by
  have target := MockRecord.nextTarget_one more
  rw [Iteration.answer, runNext]
  rw [MockRecord.nextIn_gone positioned (by omega) 1 (by omega) (target.symm ▸ following) gone]
  rfl

end Answer

/-- Next steps over deleted rows exactly when it has none to step over. -/
theorem stepsOver_iff {s : Iteration} (positioned : Positioned s) : StepsOver s ↔ NextStored s := by
  obtain ⟨pos, atPos, inside⟩ := positioned
  constructor
  · rintro ⟨pos', atPos', outcome⟩ here key atHere following
    obtain rfl : pos = pos' := Option.some.inj (atPos.symm.trans atPos')
    obtain rfl : pos = here := Option.some.inj (atPos.symm.trans atHere)
    have more : pos + 1 < s.view.iterSet.length := (List.getElem?_eq_some_iff.mp following).1
    cases found : s.table.rows.get? key with
    | some row => exact ⟨row, found⟩
    | none =>
        have failed := answer_gone atPos more following found
        rcases outcome with ⟨_, _, _, _, _, _, _, _, answered⟩ | ⟨_, answered⟩ <;>
          · rw [failed] at answered
            cases answered
  · intro ready
    refine ⟨pos, atPos, ?_⟩
    by_cases more : pos + 1 < s.view.iterSet.length
    · have following := List.getElem?_eq_getElem more
      obtain ⟨row, stored⟩ := ready pos _ atPos following
      refine .inl ⟨pos + 1, _, row, 1, ⟨by omega, ⟨_, following, row, stored⟩, fun i low high => by omega⟩, following,
        stored, by decide, answer_stored atPos more following stored⟩
    · refine .inr ⟨?_, answer_last atPos (by omega)⟩
      rintro pos' ⟨later, ⟨key, there, _⟩, _⟩
      have bounded := (List.getElem?_eq_some_iff.mp there).1
      omega

/-! ## Runs -/

section Runs

variable [CaseMapping] [DecimalSyntax]

/-- No turn takes the cursor off its snapshot, and Next moves it one place while rows are there. -/
theorem after_position {s : Iteration} {pos : Nat} (atPos : s.view.iterPos = some pos)
    (inside : pos < s.view.iterSet.length) (turn : Turn) :
    (s.after turn).view.iterSet = s.view.iterSet ∧ ∃ pos' < s.view.iterSet.length,
      (s.after turn).view.iterPos = some pos' ∧
      ((turn.isNext = true → NextStored s) →
        pos' = if turn.isNext then min (pos + 1) (s.view.iterSet.length - 1) else pos) := by
  cases turn with
  | next =>
      by_cases more : pos + 1 < s.view.iterSet.length
      · have following := List.getElem?_eq_getElem more
        cases found : s.table.rows.get? s.view.iterSet[pos + 1] with
        | some row =>
            simp only [Iteration.after, answer_stored atPos more following found]
            exact ⟨rfl, pos + 1, more, rfl, fun _ => by simp [Turn.isNext]; omega⟩
        | none =>
            simp only [Iteration.after, answer_gone atPos more following found]
            refine ⟨trivial, pos, inside, atPos, fun ready => ?_⟩
            obtain ⟨row, stored⟩ := ready rfl pos _ atPos following
            rw [found] at stored
            cases stored
      · simp only [Iteration.after, answer_last atPos (show pos + 1 = s.view.iterSet.length by omega)]
        exact ⟨trivial, pos, inside, atPos, fun _ => by simp [Turn.isNext]; omega⟩
  | delete other runTrigger => exact ⟨rfl, pos, inside, atPos, fun _ => rfl⟩
  | deleteAll other runTrigger => exact ⟨rfl, pos, inside, atPos, fun _ => rfl⟩

theorem after_positioned {s : Iteration} (positioned : Positioned s) (turn : Turn) : Positioned (s.after turn) := by
  obtain ⟨pos, atPos, inside⟩ := positioned
  obtain ⟨sameSet, pos', inside', atPos', _⟩ := after_position atPos inside turn
  exact ⟨pos', atPos', by rw [sameSet]; exact inside'⟩

theorem atNexts_congr {P Q : Iteration → Prop} (same : ∀ s, Positioned s → (P s ↔ Q s)) {s : Iteration}
    (positioned : Positioned s) (turns : List Turn) : AtNexts P s turns ↔ AtNexts Q s turns := by
  induction turns generalizing s with
  | nil => rfl
  | cons turn rest ih =>
      simp only [AtNexts, same s positioned, ih (after_positioned positioned turn)]

/-- While its rows are there, the cursor is as many places on as Next was called, up to the last one. -/
theorem run_position {s : Iteration} {pos : Nat} (atPos : s.view.iterPos = some pos)
    (inside : pos < s.view.iterSet.length) {turns : List Turn} (ready : AtNexts NextStored s turns) :
    (run Iteration.after s turns).view.iterSet = s.view.iterSet ∧
      (run Iteration.after s turns).view.iterPos =
        some (min (pos + turns.countP Turn.isNext) (s.view.iterSet.length - 1)) := by
  induction turns generalizing s pos with
  | nil => exact ⟨rfl, by rw [run_nil, atPos]; congr 1; simp; omega⟩
  | cons turn rest ih =>
      obtain ⟨here, later⟩ := ready
      obtain ⟨sameSet, pos', inside', atPos', moved⟩ := after_position atPos inside turn
      obtain ⟨restSet, restPos⟩ := ih atPos' (by rw [sameSet]; exact inside') later
      refine ⟨by rw [run_cons, restSet, sameSet], ?_⟩
      rw [run_cons, restPos, sameSet, moved here, List.countP_cons]
      cases turn <;>
        simp only [Turn.isNext, if_true, Bool.false_eq_true, if_false, Option.some.injEq] <;> omega

/-- While other variables delete rows, Next steps over the deleted rows and ends with 0 exactly in the runs
where the row after the cursor is never one of them. -/
theorem next_stepsOver_iff (tableId : Int) (tableName : String) (primaryKeyFields : List FieldNo)
    (fieldDefaults : OrderedMap FieldNo Value) (views : Nat → RecordView) (actions : List Action)
    (view first : RecordView) (turns : List Turn) :
    let table :=
      (run Session.after (Session.start tableId tableName primaryKeyFields fieldDefaults views) actions).table
    table.findSetIn view = (.ok true, first) →
    let s : Iteration := ⟨table, first⟩
    (AtNexts StepsOver s turns ∧
      (table.countIn view ≤ turns.countP Turn.isNext + 1 →
        (run Iteration.after s turns).answer.1 = .ok (.integer 0))) ↔
    AtNexts NextStored s turns := by
  intro table found s
  obtain ⟨nonempty, firstEq⟩ := MockRecord.findSetIn_true found
  have atPos : s.view.iterPos = some 0 := by simp only [s, firstEq]; rfl
  have set : s.view.iterSet = table.matchingKeysIn view := by simp only [s, firstEq]; rfl
  have inside : 0 < s.view.iterSet.length := by rw [set]; exact nonempty
  rw [atNexts_congr (fun s => stepsOver_iff) ⟨0, atPos, inside⟩]
  refine and_iff_left_of_imp fun ready enough => ?_
  obtain ⟨sameSet, atEnd⟩ := run_position atPos inside ready
  rw [← MockRecord.length_matchingKeysIn, ← set] at enough
  rw [answer_last atEnd]
  rw [sameSet]
  omega

end Runs

/-! ## The run that fails -/

theorem answer_error {s : Iteration} {e : RecordError} (failed : (s.table.nextIn s.view 1).1 = .error e) :
    s.answer.1 = .error ("Next: " ++ e.message) := by
  rw [Iteration.answer, runNext]
  cases next : s.table.nextIn s.view 1 with
  | mk result view =>
      rw [next] at failed
      cases failed
      rfl

/-- Inserts three rows, under the keys 1, 2 and 3. -/
def insertThree : List Action :=
  [.on .builtIn (.fieldSet 1 (.integer 1)), .on .builtIn (.insert false),
    .on .builtIn (.fieldSet 1 (.integer 2)), .on .builtIn (.insert false),
    .on .builtIn (.fieldSet 1 (.integer 3)), .on .builtIn (.insert false)]

section Latin

local instance : CaseMapping := .latin1

local instance : DecimalSyntax := .plain

def threeItems : MockRecord := (run Session.after (Session.start 1 "Item" [1] .empty fun _ => default) insertThree).table

/-- The cursor on the first of the three rows. -/
def atFirstItem : Iteration := ⟨threeItems, (threeItems.findSetIn threeItems.newView).2⟩

theorem findSetIn_threeItems : threeItems.findSetIn threeItems.newView = (.ok true, atFirstItem.view) := by
  have nonempty : threeItems.isEmptyIn threeItems.newView = false := by decide +kernel
  have found : (threeItems.findSetIn threeItems.newView).1 = .ok true := by
    rw [MockRecord.findSetIn_fst, nonempty]
    rfl
  rw [← found]
  rfl

theorem next_stepsOver_iff_threeItems :
    (AtNexts StepsOver atFirstItem [.next, .next] ∧
      (threeItems.countIn threeItems.newView ≤ [Turn.next, .next].countP Turn.isNext + 1 →
        (run Iteration.after atFirstItem [.next, .next]).answer.1 = .ok (.integer 0))) ↔
    AtNexts NextStored atFirstItem [.next, .next] :=
  next_stepsOver_iff 1 "Item" [1] .empty (fun _ => default) insertThree threeItems.newView atFirstItem.view
    [.next, .next] findSetIn_threeItems

/-- The row after the cursor is deleted through another view, and Next fails. -/
theorem next_fails_after_delete :
    let deleted : Turn := .delete (MockRecord.fieldSetIn threeItems.newView 1 (.integer 2)) false
    (atFirstItem.after deleted).answer.1 = .error "Next: record not found" ∧
      ¬AtNexts StepsOver atFirstItem [deleted, .next] := by
  intro deleted
  have failed : (atFirstItem.after deleted).answer.1 = .error "Next: record not found" :=
    answer_error (e := .notFound) (by decide +kernel)
  refine ⟨failed, ?_⟩
  rintro ⟨_, overDeleted, _⟩
  obtain ⟨_, _, ⟨_, _, _, _, _, _, _, _, answered⟩ | ⟨_, answered⟩⟩ := overDeleted rfl <;>
    · rw [answered] at failed
      cases failed

end Latin

end AlLanguage.Runtime
