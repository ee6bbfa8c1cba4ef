import AlLanguage.Workspace.SemanticLifecycle

/-!
# One bridge at a time

- The lifecycle lock says where every task can be. What a task found out under the lock stays true until it gives the lock back.
- A bridge is not replaced while a task reads it, and starts that fail one after the other are no more than the limit.
-/

namespace AlLanguage.Workspace

open Library

namespace Place

def locked : Place → Bool
  | .lookAgain | .limit | .toolchain | .claim | .compare _ | .take _ | .retool _ | .slot _ | .starting _ | .publish _ _ | .started _
  | .failed _ | .reopen | .takeDown => true
  | .idle | .enter | .look | .waits _ | .reading _ | .returned _ => false

def reads : Place → Bool
  | .reading _ => true
  | _ => false

end Place

namespace Lifecycle

def generation (w : Lifecycle) : Option Nat := w.semantic.map (·.generation)

/-- The starts in a row that failed, counted by an observer. -/
def streak (w : Lifecycle) (n : Nat) : Action → Nat
  | .step t =>
      match w.tasks t with
      | .starting _ => if w.hostStarts then 0 else n + 1
      | _ => n
  | _ => n

def watch (s : Lifecycle × Nat) (action : Action) : Lifecycle × Nat := (s.1.act action, s.1.streak s.2 action)

/-- What a task knows where it is. -/
def Stands (w : Lifecycle) (n : Nat) : Place → Prop
  | .idle | .enter | .look | .waits _ | .returned _ => True
  | .lookAgain | .compare _ | .takeDown | .take none => n ≤ w.bridgeRestartCount
  | .take (some expected) => w.generation = some expected ∧ n ≤ w.bridgeRestartCount
  | .limit | .retool _ | .slot _ => w.generation = none ∧ n ≤ w.bridgeRestartCount
  | .toolchain | .claim | .starting .lazy => w.generation = none ∧ n ≤ w.bridgeRestartCount ∧ w.bridgeRestartCount < maxRestarts
  | .starting (.restart _) => w.generation = none ∧ n < w.bridgeRestartCount ∧ w.bridgeRestartCount ≤ maxRestarts
  | .publish .lazy none | .failed .lazy => w.generation = none ∧ n ≤ w.bridgeRestartCount + 1 ∧ w.bridgeRestartCount < maxRestarts
  | .publish (.restart _) none | .failed (.restart _) => w.generation = none ∧ n ≤ w.bridgeRestartCount
  | .publish _ (some _) => w.generation = none ∧ n = 0
  | .started _ | .reopen => w.generation ≠ none ∧ n = 0
  | .reading generation => w.generation = generation ∧ generation ≠ none

/-- The invariant. No more restarts were counted than steps were taken. -/
structure Safe (steps : Nat) (w : Lifecycle) (n : Nat) : Prop where
  locked : ∀ t, (w.tasks t).locked = true ↔ w.holder = some t
  reads : ∀ t, t ∈ w.readers ↔ (w.tasks t).reads = true
  stands : ∀ t, w.Stands n (w.tasks t)
  free : w.holder = none → n ≤ w.bridgeRestartCount
  streak : n ≤ maxRestarts
  few : w.bridgeRestartCount ≤ steps

variable {steps n n' : Nat} {w w' : Lifecycle} {t : Task} {place : Place}

@[simp] theorem goto_tasks_self (w : Lifecycle) (t : Task) (place : Place) : (w.goto t place).tasks t = place := Function.update_self ..

theorem goto_tasks_other (w : Lifecycle) {t u : Task} (apart : u ≠ t) (place : Place) : (w.goto t place).tasks u = w.tasks u :=
  Function.update_of_ne apart ..

theorem stands_congr (same : w'.generation = w.generation) (count : w'.bridgeRestartCount = w.bridgeRestartCount) (place : Place) :
    w'.Stands n place ↔ w.Stands n place := by
  unfold Stands
  rw [same, count]

/-- A task that is not under the lock knows only which bridge it reads. -/
theorem stands_unlocked (outside : place.locked = false) (kept : place.reads = true → w'.generation = w.generation)
    (stands : w.Stands n place) : w'.Stands n' place := by
  cases place with
  | idle | enter | look | waits _ | returned _ => trivial
  | reading generation => exact ⟨(kept rfl).trans stands.1, stands.2⟩
  | _ => cases outside

/-- A step that changes nothing. -/
theorem Safe.still (safe : Safe steps w n) : Safe (steps + 1) w n :=
  { safe with few := Nat.le_succ_of_le safe.few }

/-- A change around the tasks. -/
theorem Safe.around (safe : Safe steps w n) (tasks : w'.tasks = w.tasks) (readers : w'.readers = w.readers) (holder : w'.holder = w.holder)
    (kept : w'.generation = w.generation) (count : w'.bridgeRestartCount = w.bridgeRestartCount) : Safe (steps + 1) w' n := by
  refine ⟨?_, ?_, fun t => ?_, ?_, safe.streak, ?_⟩
  · rw [tasks, holder]
    exact safe.locked
  · rw [tasks, readers]
    exact safe.reads
  · rw [tasks, stands_congr kept count]
    exact safe.stands t
  · rw [holder, count]
    exact safe.free
  · rw [count]
    exact Nat.le_succ_of_le safe.few

/-- A step of the task with the lock. The others wait, or read the bridge. -/
theorem Safe.inside (safe : Safe steps w n) (held : w.holder = some t) (tasks : w'.tasks = Function.update w.tasks t place)
    (readers : w'.readers = if place.reads then insert t w.readers else w.readers)
    (holder : w'.holder = if place.locked then some t else none) (kept : w.readers = ∅ ∨ w'.generation = w.generation)
    (own : w'.Stands n' place) (free : place.locked = false → n' ≤ w'.bridgeRestartCount) (streak : n' ≤ maxRestarts)
    (few : w'.bridgeRestartCount ≤ steps + 1) : Safe (steps + 1) w' n' := by
  have others {u : Task} (apart : u ≠ t) : w'.tasks u = w.tasks u := by rw [tasks, Function.update_of_ne apart]
  have self : w'.tasks t = place := by rw [tasks, Function.update_self]
  have before : (w.tasks t).locked = true := (safe.locked t).mpr held
  have outside {u : Task} (apart : u ≠ t) : (w.tasks u).locked = false := by
    by_contra inside
    have taken := (safe.locked u).mp (by simpa using inside)
    exact apart (Option.some.inj (taken.symm.trans held))
  refine ⟨fun u => ?_, fun u => ?_, fun u => ?_, fun unheld => ?_, streak, few⟩
  · by_cases same : u = t
    · subst same
      rw [self, holder]
      cases place.locked <;> simp
    · rw [others same, outside same, holder]
      cases place.locked <;> simp [Ne.symm same]
  · by_cases same : u = t
    · subst same
      have unread : u ∉ w.readers := by
        rw [safe.reads]
        intro reads
        revert before reads
        cases w.tasks u <;> simp [Place.locked, Place.reads]
      rw [self, readers]
      cases place.reads <;> simp [unread]
    · rw [others same, readers, ← safe.reads]
      cases place.reads <;> simp [same]
  · by_cases same : u = t
    · subst same
      rw [self]
      exact own
    · rw [others same]
      refine stands_unlocked (outside same) (fun reads => ?_) (safe.stands u)
      rcases kept with unread | kept
      · have there := (safe.reads u).mpr reads
        rw [unread] at there
        cases there
      · exact kept
  · apply free
    rw [holder] at unheld
    cases locked : place.locked with
    | false => rfl
    | true =>
        rw [locked] at unheld
        cases unheld

/-- A step of a task without the lock. -/
theorem Safe.outside (safe : Safe steps w n) (before : (w.tasks t).locked = false) (after : place.locked = false)
    (tasks : w'.tasks = Function.update w.tasks t place)
    (readers : w'.readers = if place.reads then insert t w.readers else w.readers.erase t) (holder : w'.holder = w.holder)
    (kept : w'.generation = w.generation) (count : w'.bridgeRestartCount = w.bridgeRestartCount)
    (own : w.Stands n place) : Safe (steps + 1) w' n := by
  have others {u : Task} (apart : u ≠ t) : w'.tasks u = w.tasks u := by rw [tasks, Function.update_of_ne apart]
  have self : w'.tasks t = place := by rw [tasks, Function.update_self]
  refine ⟨fun u => ?_, fun u => ?_, fun u => ?_, fun unheld => ?_, safe.streak, ?_⟩
  · rw [holder, ← safe.locked]
    by_cases same : u = t
    · subst same
      rw [self, before, after]
    · rw [others same]
  · by_cases same : u = t
    · subst same
      rw [self, readers]
      cases place.reads <;> simp
    · rw [others same, readers, ← safe.reads]
      cases place.reads <;> simp [same]
  · rw [stands_congr kept count]
    by_cases same : u = t
    · subst same
      rw [self]
      exact own
    · rw [others same]
      exact safe.stands u
  · rw [count]
    exact safe.free (holder.symm.trans unheld)
  · rw [count]
    exact Nat.le_succ_of_le safe.few

/-- A task gets the lock. -/
theorem Safe.acquired (safe : Safe steps w n) (open_ : w.holder = none) (before : (w.tasks t).reads = false)
    (inside : place.locked = true) (own : w.Stands n place) :
    Safe (steps + 1) ({ w with holder := some t }.goto t place) n := by
  have outside (u : Task) : (w.tasks u).locked = false := by
    by_contra locked
    have taken := (safe.locked u).mp (by simpa using locked)
    rw [open_] at taken
    cases taken
  have unread : place.reads = false := by
    revert inside
    cases place <;> simp [Place.locked, Place.reads]
  refine ⟨fun u => ?_, fun u => ?_, fun u => ?_, fun unheld => (by cases unheld), safe.streak, Nat.le_succ_of_le safe.few⟩
  · by_cases same : u = t
    · subst same
      simp [goto, inside]
    · simp [goto, same, outside u, Ne.symm same]
  · by_cases same : u = t
    · subst same
      simp [goto, unread, safe.reads, before]
    · simp [goto, same, safe.reads]
  · by_cases same : u = t
    · subst same
      rw [goto_tasks_self]
      exact (stands_congr rfl rfl place).mpr own
    · rw [goto_tasks_other _ same]
      exact (stands_congr rfl rfl _).mpr (safe.stands u)

theorem countRestart_eq (safe : Safe steps w n) (short : steps + 1 < 2 ^ 32) :
    w.countRestart.bridgeRestartCount = w.bridgeRestartCount + 1 :=
  Nat.mod_eq_of_lt (Nat.lt_of_le_of_lt (Nat.succ_le_succ safe.few) short)

/-- A step under the write lock, or a wait for it. -/
theorem safe_whenUnread {act : Lifecycle} (safe : Safe steps w n) (acts : w.readers = ∅ → Safe (steps + 1) act n) :
    Safe (steps + 1) (w.whenUnread act) n := by
  unfold whenUnread
  split
  next unread => exact acts unread
  next => exact safe.still

theorem generation_of_isSome (there : w.semantic.isSome = true) : w.generation ≠ none := by
  unfold generation
  cases found : w.semantic with
  | none =>
      rw [found] at there
      cases there
  | some bridge => exact Option.some_ne_none _

theorem generation_of_not_isSome (missing : ¬ w.semantic.isSome = true) : w.generation = none := by
  unfold generation
  cases found : w.semantic with
  | none => rfl
  | some bridge =>
      rw [found] at missing
      exact absurd rfl missing

theorem isSome_of_generation (missing : w.generation = none) : w.semantic.isSome = false := by
  cases found : w.semantic.isSome with
  | false => rfl
  | true => exact absurd missing (generation_of_isSome found)

theorem Safe.unread (safe : Safe steps w n) (before : (w.tasks t).reads = false) : w.readers = w.readers.erase t := by
  rw [Finset.erase_eq_of_notMem]
  rw [safe.reads, before]
  exact Bool.false_ne_true

theorem safe_step (safe : Safe steps w n) (short : steps + 1 < 2 ^ 32) (t : Task) :
    Safe (steps + 1) (w.step t) (w.streak n (.step t)) := by
  have stands := safe.stands t
  have held (locked : (w.tasks t).locked = true) : w.holder = some t := (safe.locked t).mp locked
  have few : w.bridgeRestartCount ≤ steps + 1 := Nat.le_succ_of_le safe.few
  have counted := countRestart_eq safe short
  cases place : w.tasks t with
  | idle | returned _ =>
      simp only [step, streak, place]
      exact safe.still
  | enter =>
      have unread := safe.unread (t := t) (by rw [place]; rfl)
      simp only [step, streak, place]
      split
      next => exact safe.outside (by rw [place]; rfl) rfl rfl unread rfl rfl rfl trivial
      next => exact safe.outside (by rw [place]; rfl) rfl rfl unread rfl rfl rfl trivial
  | look =>
      have unread := safe.unread (t := t) (by rw [place]; rfl)
      simp only [step, streak, place]
      split
      next there =>
        exact safe.outside (by rw [place]; rfl) rfl rfl rfl rfl rfl rfl ⟨rfl, generation_of_isSome there⟩
      next => exact safe.outside (by rw [place]; rfl) rfl rfl unread rfl rfl rfl trivial
  | waits call =>
      simp only [step, streak, place]
      split
      next open_ =>
        refine safe.acquired open_ (by rw [place]; rfl) ?_ ?_
        · cases call <;> rfl
        · cases call <;> exact safe.free open_
      next => exact safe.still
  | lookAgain =>
      rw [place] at stands held
      simp only [step, streak, place]
      split
      next there =>
        exact safe.inside (held rfl) rfl rfl rfl (.inr rfl) ⟨rfl, generation_of_isSome there⟩ (fun _ => stands) safe.streak few
      next missing =>
        exact safe.inside (held rfl) rfl rfl (held rfl) (.inr rfl) ⟨generation_of_not_isSome missing, stands⟩ (by simp [Place.locked])
          safe.streak few
  | limit =>
      rw [place] at stands held
      simp only [step, streak, place]
      split
      next => exact safe.inside (held rfl) rfl rfl rfl (.inr rfl) trivial (fun _ => stands.2) safe.streak few
      next below =>
        exact safe.inside (held rfl) rfl rfl (held rfl) (.inr rfl) ⟨stands.1, stands.2, Nat.lt_of_not_le below⟩ (by simp [Place.locked])
          safe.streak few
  | toolchain =>
      rw [place] at stands held
      simp only [step, streak, place]
      split
      next => exact safe.inside (held rfl) rfl rfl (held rfl) (.inr rfl) stands (by simp [Place.locked]) safe.streak few
      next => exact safe.inside (held rfl) rfl rfl rfl (.inr rfl) trivial (fun _ => stands.2.1) safe.streak few
  | claim =>
      rw [place] at stands held
      simp only [step, streak, place]
      refine safe_whenUnread safe fun _ => ?_
      split
      next there =>
        exact safe.inside (held rfl) rfl rfl rfl (.inr rfl) ⟨rfl, generation_of_isSome there⟩ (fun _ => stands.2.1) safe.streak few
      next => exact safe.inside (held rfl) rfl rfl (held rfl) (.inr rfl) stands (by simp [Place.locked]) safe.streak few
  | compare expected =>
      rw [place] at stands held
      simp only [step, streak, place]
      cases expected with
      | none => exact safe.inside (held rfl) rfl rfl (held rfl) (.inr rfl) stands (by simp [Place.locked]) safe.streak few
      | some generation =>
          dsimp only
          split
          next same =>
            exact safe.inside (held rfl) rfl rfl (held rfl) (.inr rfl) ⟨same, stands⟩ (by simp [Place.locked]) safe.streak few
          next => exact safe.inside (held rfl) rfl rfl rfl (.inr rfl) trivial (fun _ => stands) safe.streak few
  | take expected =>
      rw [place] at stands held
      simp only [step, streak, place]
      have below : n ≤ w.bridgeRestartCount := by
        cases expected with
        | none => exact stands
        | some generation => exact stands.2
      refine safe_whenUnread safe fun unread => ?_
      exact safe.inside (held rfl) rfl rfl (held rfl) (.inl unread) ⟨rfl, below⟩ (by simp [Place.locked]) safe.streak few
  | retool prior =>
      rw [place] at stands held
      simp only [step, streak, place]
      split
      next => exact safe.inside (held rfl) rfl rfl (held rfl) (.inr rfl) stands (by simp [Place.locked]) safe.streak few
      next => exact safe.inside (held rfl) rfl rfl rfl (.inr rfl) trivial (fun _ => stands.2) safe.streak few
  | slot prior =>
      rw [place] at stands held
      simp only [step, streak, place]
      have more : w.countRestart.bridgeRestartCount ≤ steps + 1 := counted ▸ Nat.succ_le_succ safe.few
      have below : n < w.countRestart.bridgeRestartCount := counted ▸ Nat.lt_succ_of_le stands.2
      refine safe_whenUnread safe fun _ => ?_
      split
      next => exact safe.inside (held rfl) rfl rfl rfl (.inr rfl) trivial (fun _ => stands.2) safe.streak few
      next =>
        split
        next => exact safe.inside (held rfl) rfl rfl rfl (.inr rfl) trivial (fun _ => Nat.le_of_lt below) safe.streak more
        next within =>
          exact safe.inside (held rfl) rfl rfl (held rfl) (.inr rfl) ⟨stands.1, below, Nat.le_of_not_lt within⟩ (by simp [Place.locked])
            safe.streak more
  | starting attempt =>
      rw [place] at stands held
      simp only [step, streak, place]
      split
      next =>
        have empty : w.generation = none := by cases attempt <;> exact stands.1
        refine safe.inside (held rfl) rfl rfl (held rfl) (.inr rfl) ?_ (by simp [Place.locked]) (Nat.zero_le _) few
        cases attempt <;> exact ⟨empty, rfl⟩
      next =>
        cases attempt with
        | lazy =>
            exact safe.inside (held rfl) rfl rfl (held rfl) (.inr rfl) ⟨stands.1, Nat.succ_le_succ stands.2.1, stands.2.2⟩
              (by simp [Place.locked]) (Nat.lt_of_le_of_lt stands.2.1 stands.2.2) few
        | restart prior =>
            exact safe.inside (held rfl) rfl rfl (held rfl) (.inr rfl) ⟨stands.1, stands.2.1⟩ (by simp [Place.locked])
              (Nat.le_trans stands.2.1 stands.2.2) few
  | publish attempt bridge =>
      rw [place] at stands held
      simp only [step, streak, place]
      refine safe_whenUnread safe fun unread => ?_
      have empty : w.generation = none := by cases attempt <;> cases bridge <;> exact stands.1
      rw [isSome_of_generation empty, if_neg Bool.false_ne_true]
      cases bridge with
      | some bridge =>
          have none_failed : n = 0 := by cases attempt <;> exact stands.2
          exact safe.inside (held rfl) rfl rfl (held rfl) (.inl unread) ⟨Option.some_ne_none _, none_failed⟩ (by simp [Place.locked])
            safe.streak few
      | none =>
          cases attempt <;>
            exact safe.inside (held rfl) rfl rfl (held rfl) (.inr rfl) stands (by simp [Place.locked]) safe.streak few
  | started attempt =>
      rw [place] at stands held
      cases attempt with
      | lazy =>
          simp only [step, streak, place]
          exact safe.inside (held rfl) rfl rfl (held rfl) (.inr rfl) stands (by simp [Place.locked]) safe.streak (Nat.zero_le _)
      | restart prior =>
          simp only [step, streak, place]
          refine safe.inside (held rfl) rfl rfl rfl (.inr ?_) trivial (fun _ => Nat.le_of_eq stands.2) safe.streak (Nat.zero_le _)
          exact Option.map_map ..
  | failed attempt =>
      rw [place] at stands held
      cases attempt with
      | lazy =>
          simp only [step, streak, place]
          exact safe.inside (held rfl) rfl rfl rfl (.inr rfl) trivial (fun _ => counted ▸ stands.2.1) safe.streak
            (counted ▸ Nat.succ_le_succ safe.few)
      | restart prior =>
          simp only [step, streak, place]
          exact safe.inside (held rfl) rfl rfl rfl (.inr rfl) trivial (fun _ => stands.2) safe.streak few
  | reopen =>
      rw [place] at stands held
      simp only [step, streak, place]
      exact safe.inside (held rfl) rfl rfl rfl (.inr rfl) ⟨rfl, stands.1⟩ (fun _ => stands.2 ▸ Nat.zero_le _) safe.streak few
  | takeDown =>
      rw [place] at stands held
      simp only [step, streak, place]
      refine safe_whenUnread safe fun unread => ?_
      exact safe.inside (held rfl) rfl rfl rfl (.inl unread) trivial (fun _ => stands) safe.streak few
  | reading generation =>
      simp only [step, streak, place]
      exact safe.outside (by rw [place]; rfl) rfl rfl rfl rfl rfl rfl trivial

theorem safe_call (safe : Safe steps w n) (rests : (w.tasks t).locked = false) (unread : (w.tasks t).reads = false) (call : Call) :
    Safe (steps + 1) (w.goto t (match call with
      | .getOrInit => .enter
      | call => .waits call)) n := by
  have readers := safe.unread unread
  cases call <;> exact safe.outside rests rfl rfl readers rfl rfl rfl trivial

theorem safe_act (safe : Safe steps w n) (short : steps + 1 < 2 ^ 32) (action : Action) :
    Safe (steps + 1) (w.act action) (w.streak n action) := by
  cases action with
  | step t => exact safe_step safe short t
  | call t call =>
      simp only [act, streak]
      split
      next place => exact safe_call safe (by rw [place]; rfl) (by rw [place]; rfl) call
      next place => exact safe_call safe (by rw [place]; rfl) (by rw [place]; rfl) call
      next => exact safe.still
  | stamp t secs =>
      simp only [act, streak]
      split
      next =>
        exact safe.around rfl rfl rfl (Option.map_map ..) rfl
      next => exact safe.still
  | surroundings enableCodeAnalysis hasToolchain hostStarts =>
      exact safe.around rfl rfl rfl rfl rfl

theorem safe_new : Safe 0 {} 0 where
  locked t := by simp [Place.locked]
  reads t := by simp [Place.reads]
  stands _ := trivial
  free _ := Nat.le_refl _
  streak := Nat.zero_le _
  few := Nat.le_refl _

/-- The state after a run, and the starts in a row that failed. -/
def after (actions : List Action) : Lifecycle × Nat := Machine.run watch ({}, 0) actions

theorem safe_run (safe : Safe steps w n) (actions : List Action) (short : steps + actions.length < 2 ^ 32) :
    Safe (steps + actions.length) (Machine.run watch (w, n) actions).1 (Machine.run watch (w, n) actions).2 := by
  induction actions generalizing steps w n with
  | nil => exact safe
  | cons action rest ih =>
      rw [List.length_cons, Nat.add_comm rest.length, ← Nat.add_assoc] at short ⊢
      exact ih (safe_act safe (Nat.lt_of_le_of_lt (Nat.le_add_right _ _) short) action) short

theorem safe_after (actions : List Action) (short : actions.length < 2 ^ 32) :
    Safe actions.length (after actions).1 (after actions).2 := by
  have safe := safe_run safe_new actions (by rwa [Nat.zero_add])
  rwa [Nat.zero_add] at safe

/-! ## What holds in every run -/

/-- A bridge is being started. -/
def Starts (w : Lifecycle) (t : Task) : Prop := ∃ attempt, w.tasks t = .starting attempt ∨ ∃ bridge, w.tasks t = .publish attempt bridge

/-- In every order of the tasks, one bridge is started at a time, when there is none. A task reads the bridge that is there, and no more
than `maxRestarts` starts fail in a row. -/
theorem one_bridge (actions : List Action) (short : actions.length < 2 ^ 32) :
    (∀ t u, (after actions).1.Starts t → (after actions).1.Starts u → t = u) ∧
    (∀ t, (after actions).1.Starts t → (after actions).1.semantic = none) ∧
    (∀ t generation, (after actions).1.tasks t = .reading generation →
      ∃ bridge, (after actions).1.semantic = some bridge ∧ generation = some bridge.generation) ∧
    (after actions).2 ≤ maxRestarts := by
  have safe := safe_after actions short
  have holds (t : Task) (starts : (after actions).1.Starts t) : (after actions).1.holder = some t := by
    rw [← safe.locked]
    obtain ⟨attempt, place | ⟨bridge, place⟩⟩ := starts <;> rw [place] <;> rfl
  refine ⟨fun t u first second => ?_, fun t starts => ?_, fun t generation place => ?_, safe.streak⟩
  · exact Option.some.inj ((holds t first).symm.trans (holds u second))
  · have stands := safe.stands t
    have empty : (after actions).1.generation = none := by
      obtain ⟨attempt, place | ⟨bridge, place⟩⟩ := starts
      · rw [place] at stands
        cases attempt <;> exact stands.1
      · rw [place] at stands
        cases attempt <;> cases bridge <;> exact stands.1
    exact Option.map_eq_none_iff.mp empty
  · have stands := safe.stands t
    rw [place] at stands
    obtain ⟨there, known⟩ := stands
    cases found : (after actions).1.semantic with
    | none =>
        rw [Lifecycle.generation, found] at there
        exact absurd there.symm known
    | some bridge =>
        rw [Lifecycle.generation, found] at there
        exact ⟨bridge, rfl, there.symm⟩

/-- Two tasks need the bridge at once. -/
def race : List Action :=
  [.call 0 .getOrInit, .call 1 .getOrInit] ++ (List.replicate 4 [.step 0, .step 1]).flatten ++ List.replicate 8 (.step 0) ++
    List.replicate 2 (.step 1)

/-- The second task reads the bridge that the first one started. -/
theorem one_bridge_race : (after race).1.tasks 1 = .reading (some 1) ∧ (after race).1.nextGeneration = 2 ∧
    ∃ bridge, (after race).1.semantic = some bridge ∧ some 1 = some bridge.generation := by
  have place : (after race).1.tasks 1 = .reading (some 1) := by decide
  exact ⟨place, by decide, (one_bridge race (by decide)).2.2.1 1 _ place⟩

/-- The tasks that can end a bridge: one that shuts it down, and one that restarts it, which names no generation or this one. -/
def Ends (w : Lifecycle) (t : Task) (generation : Nat) : Prop :=
  w.tasks t = .takeDown ∨ w.tasks t = .take none ∨ w.tasks t = .take (some generation)

theorem whenUnread_ended {act : Lifecycle} {g : Nat} (there : w.generation = some g) (ended : (w.whenUnread act).generation ≠ some g) :
    w.readers = ∅ ∧ act.generation ≠ some g := by
  unfold whenUnread at ended
  split at ended
  next unread => exact ⟨unread, ended⟩
  next => exact absurd there ended

/-- What a task does to the bridge in one step. -/
theorem step_ended (safe : Safe steps w n) {g : Nat} (there : w.generation = some g) (ended : (w.step t).generation ≠ some g) :
    w.Ends t g ∧ w.readers = ∅ := by
  have stands := safe.stands t
  have kept (same : (w.step t).generation = w.generation) : w.Ends t g ∧ w.readers = ∅ := absurd (same.trans there) ended
  have empty {P : Prop} (none_ : w.generation = none) : P := by
    rw [none_] at there
    cases there
  cases place : w.tasks t with
  | take expected =>
      rw [place] at stands
      simp only [step, place] at ended
      obtain ⟨unread, _⟩ := whenUnread_ended there ended
      refine ⟨.inr ?_, unread⟩
      cases expected with
      | none => exact .inl place
      | some expected =>
          obtain rfl : expected = g := Option.some.inj (stands.1.symm.trans there)
          exact .inr place
  | takeDown =>
      simp only [step, place] at ended
      exact ⟨.inl place, (whenUnread_ended there ended).1⟩
  | claim => exact empty (by rw [place] at stands; exact stands.1)
  | slot prior => exact empty (by rw [place] at stands; exact stands.1)
  | publish attempt bridge => exact empty (by rw [place] at stands; cases attempt <;> cases bridge <;> exact stands.1)
  | started attempt =>
      apply kept
      cases attempt with
      | lazy => simp only [step, place]; rfl
      | restart prior => simp only [step, place]; exact Option.map_map ..
  | failed attempt =>
      apply kept
      cases attempt <;> simp only [step, place] <;> rfl
  | starting attempt =>
      apply kept
      simp only [step, place]
      split <;> rfl
  | compare expected =>
      apply kept
      simp only [step, place]
      cases expected with
      | none => rfl
      | some generation => dsimp only; split <;> rfl
  | idle | returned _ => exact kept (by rw [step, place])
  | reopen | reading _ => exact kept (by rw [step, place]; rfl)
  | enter | look | waits _ | lookAgain | limit | toolchain | retool _ =>
      apply kept
      simp only [step, place]
      split <;> rfl

/-- A bridge ends by a shutdown or by a restart that names it or names none, and no task reads it then. A late failure of an earlier bridge
does not end the one that is there. -/
theorem ended_by (actions : List Action) (short : actions.length < 2 ^ 32) (action : Action) (bridge : SemanticBridge)
    (there : (after actions).1.semantic = some bridge)
    (ended : ((after actions).1.act action).generation ≠ some bridge.generation) :
    ∃ t, action = .step t ∧ (after actions).1.Ends t bridge.generation ∧ ∀ u generation, (after actions).1.tasks u ≠ .reading generation := by
  have safe := safe_after actions short
  have here : (after actions).1.generation = some bridge.generation := by rw [Lifecycle.generation, there]; rfl
  cases action with
  | step t =>
      obtain ⟨ends, unread⟩ := step_ended safe here ended
      refine ⟨t, rfl, ends, fun u generation place => ?_⟩
      have reads := safe.reads u
      rw [unread, place] at reads
      exact absurd (reads.mpr rfl) (Finset.notMem_empty u)
  | call t call =>
      refine absurd ?_ ended
      simp only [act]
      split <;> exact here
  | stamp t secs =>
      refine absurd ?_ ended
      simp only [act]
      split
      next => exact (Option.map_map ..).trans here
      next => exact here
  | surroundings _ _ _ => exact absurd here ended

/-- The bridge that failed is restarted. -/
def failure : List Action :=
  [.call 0 .getOrInit] ++ List.replicate 12 (.step 0) ++ [.call 1 (.restart (some 1)), .step 1, .step 1]

theorem ended_by_failure : ((after failure).1.act (.step 1)).generation = none ∧ ∃ t, Action.step 1 = .step t ∧
    (after failure).1.Ends t 1 ∧ ∀ u generation, (after failure).1.tasks u ≠ .reading generation :=
  ⟨by decide, ended_by failure (by decide) (.step 1) ⟨1, 0⟩ (by decide) (by decide)⟩

/-! ## When the restarts are used up -/

/-- A start was granted. -/
def granted : Place → Bool
  | .toolchain | .claim | .starting _ | .publish _ _ | .started _ | .failed _ | .reopen => true
  | _ => false

structure Exhausted (w : Lifecycle) : Prop where
  empty : w.semantic = none
  count : maxRestarts ≤ w.bridgeRestartCount
  ungranted : ∀ t, granted (w.tasks t) = false

theorem Exhausted.goto (exhausted : w.Exhausted) (waits : granted place = false) : (w.goto t place).Exhausted := by
  refine ⟨exhausted.empty, exhausted.count, fun u => ?_⟩
  by_cases same : u = t
  · subst same
    rw [goto_tasks_self]
    exact waits
  · rw [goto_tasks_other _ same]
    exact exhausted.ungranted u

/-- Changes that start nothing. -/
theorem Exhausted.congr (exhausted : w.Exhausted) (empty : w'.semantic = none) (count : w.bridgeRestartCount ≤ w'.bridgeRestartCount)
    (tasks : w'.tasks = w.tasks) : w'.Exhausted :=
  ⟨empty, Nat.le_trans exhausted.count count, fun t => tasks ▸ exhausted.ungranted t⟩

theorem exhausted_step (safe : Safe steps w n) (short : steps + 1 < 2 ^ 32) (exhausted : w.Exhausted) (t : Task) :
    (w.step t).Exhausted ∧ (w.step t).nextGeneration = w.nextGeneration := by
  have waits := exhausted.ungranted t
  have missing : ¬ w.semantic.isSome = true := by rw [exhausted.empty]; exact Bool.false_ne_true
  have counted := countRestart_eq safe short
  have more : w.countRestart.Exhausted := exhausted.congr exhausted.empty (counted ▸ Nat.le_succ _) rfl
  have unheld : ({ w with holder := none } : Lifecycle).Exhausted := exhausted.congr exhausted.empty (Nat.le_refl _) rfl
  unfold step
  cases place : w.tasks t with
  | idle | returned _ => exact ⟨exhausted, rfl⟩
  | enter =>
      dsimp only
      split
      all_goals exact ⟨exhausted.goto rfl, rfl⟩
  | look =>
      dsimp only
      rw [if_neg missing]
      exact ⟨exhausted.goto rfl, rfl⟩
  | waits call =>
      dsimp only
      split
      next =>
        have holder : ({ w with holder := some t } : Lifecycle).Exhausted := exhausted.congr exhausted.empty (Nat.le_refl _) rfl
        cases call <;> exact ⟨holder.goto rfl, rfl⟩
      next => exact ⟨exhausted, rfl⟩
  | lookAgain =>
      dsimp only
      rw [if_neg missing]
      exact ⟨exhausted.goto rfl, rfl⟩
  | limit =>
      dsimp only
      rw [if_pos exhausted.count]
      exact ⟨unheld.goto rfl, rfl⟩
  | compare expected =>
      cases expected with
      | none => exact ⟨exhausted.goto rfl, rfl⟩
      | some generation =>
          dsimp only
          split
          next => exact ⟨exhausted.goto rfl, rfl⟩
          next => exact ⟨unheld.goto rfl, rfl⟩
  | take expected =>
      dsimp only
      unfold whenUnread
      split
      next =>
        have taken : ({ w with semantic := none } : Lifecycle).Exhausted := exhausted.congr rfl (Nat.le_refl _) rfl
        exact ⟨taken.goto rfl, rfl⟩
      next => exact ⟨exhausted, rfl⟩
  | retool prior =>
      dsimp only
      split
      next => exact ⟨exhausted.goto rfl, rfl⟩
      next => exact ⟨unheld.goto rfl, rfl⟩
  | slot prior =>
      dsimp only
      have exceeded : maxRestarts < w.countRestart.bridgeRestartCount := counted ▸ Nat.lt_succ_of_le exhausted.count
      rw [if_neg missing, if_pos exceeded]
      unfold whenUnread
      split
      next =>
        have left : ({ w.countRestart with holder := none } : Lifecycle).Exhausted := more.congr more.empty (Nat.le_refl _) rfl
        exact ⟨left.goto rfl, rfl⟩
      next => exact ⟨exhausted, rfl⟩
  | takeDown =>
      dsimp only
      unfold whenUnread
      split
      next =>
        have taken : ({ w with semantic := none, holder := none } : Lifecycle).Exhausted := exhausted.congr rfl (Nat.le_refl _) rfl
        exact ⟨taken.goto rfl, rfl⟩
      next => exact ⟨exhausted, rfl⟩
  | reading generation =>
      have unread : ({ w with readers := w.readers.erase t } : Lifecycle).Exhausted := exhausted.congr exhausted.empty (Nat.le_refl _) rfl
      exact ⟨unread.goto rfl, rfl⟩
  | toolchain | claim | starting _ | publish _ _ | started _ | failed _ | reopen =>
      rw [place] at waits
      cases waits

theorem exhausted_act (safe : Safe steps w n) (short : steps + 1 < 2 ^ 32) (exhausted : w.Exhausted) (action : Action) :
    (w.act action).Exhausted ∧ (w.act action).nextGeneration = w.nextGeneration := by
  cases action with
  | step t => exact exhausted_step safe short exhausted t
  | call t call =>
      unfold act
      dsimp only
      split
      next => cases call <;> exact ⟨exhausted.goto rfl, rfl⟩
      next => cases call <;> exact ⟨exhausted.goto rfl, rfl⟩
      next => exact ⟨exhausted, rfl⟩
  | stamp t secs =>
      unfold act
      dsimp only
      split
      next =>
        refine ⟨exhausted.congr ?_ (Nat.le_refl _) rfl, rfl⟩
        exact Option.map_eq_none_iff.mpr exhausted.empty
      next => exact ⟨exhausted, rfl⟩
  | surroundings _ _ _ => exact ⟨exhausted.congr exhausted.empty (Nat.le_refl _) rfl, rfl⟩

theorem exhausted_run (safe : Safe steps w n) (actions : List Action) (short : steps + actions.length < 2 ^ 32)
    (exhausted : w.Exhausted) : (Machine.run watch (w, n) actions).1.Exhausted ∧
      (Machine.run watch (w, n) actions).1.nextGeneration = w.nextGeneration := by
  induction actions generalizing steps w n with
  | nil => exact ⟨exhausted, rfl⟩
  | cons action rest ih =>
      rw [List.length_cons, Nat.add_comm rest.length, ← Nat.add_assoc] at short
      have now : steps + 1 < 2 ^ 32 := Nat.lt_of_le_of_lt (Nat.le_add_right _ _) short
      obtain ⟨still, same⟩ := exhausted_act safe now exhausted action
      obtain ⟨later, same'⟩ := ih (safe_act safe now action) short still
      exact ⟨later, same'.trans same⟩

/-- When the restarts are used up and no task holds the lock, no bridge is started again, whatever the tasks do. -/
theorem exhausted_forever (actions more : List Action) (short : (actions ++ more).length < 2 ^ 32)
    (empty : (after actions).1.semantic = none) (count : maxRestarts ≤ (after actions).1.bridgeRestartCount)
    (unheld : (after actions).1.holder = none) :
    (after (actions ++ more)).1.semantic = none ∧ (after (actions ++ more)).1.nextGeneration = (after actions).1.nextGeneration := by
  rw [List.length_append] at short
  have safe := safe_after actions (Nat.lt_of_le_of_lt (Nat.le_add_right _ _) short)
  have exhausted : (after actions).1.Exhausted := by
    refine ⟨empty, count, fun t => ?_⟩
    have outside : ((after actions).1.tasks t).locked = false := by
      by_contra locked
      have held := (safe.locked t).mp (by simpa using locked)
      rw [unheld] at held
      cases held
    revert outside
    cases (after actions).1.tasks t <;> simp [Place.locked, granted]
  obtain ⟨later, same⟩ := exhausted_run safe more short exhausted
  unfold after
  rw [Machine.run_append]
  exact ⟨later.empty, same⟩

/-- The host cannot be started. -/
def failures : List Action :=
  .surroundings true true false :: (List.replicate 3 (.call 0 .getOrInit :: List.replicate 10 (.step 0))).flatten

/-- The host can be started again, and a task restarts the bridge. -/
def retry : List Action := [.surroundings true true true, .call 1 (.restart none)] ++ List.replicate 9 (.step 1)

theorem exhausted_forever_retry : (after (failures ++ retry)).1.tasks 1 = .returned (.restartLimitExceeded 4 3) ∧
    (after (failures ++ retry)).1.semantic = none ∧ (after (failures ++ retry)).1.nextGeneration = (after failures).1.nextGeneration :=
  ⟨by decide, exhausted_forever failures retry (by decide) (by decide) (by decide) (by decide)⟩

end Lifecycle

end AlLanguage.Workspace
