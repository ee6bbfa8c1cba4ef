import AlLanguage.Library.Machine
import Mathlib.Data.Finset.Basic
import Mathlib.Logic.Function.Basic

/-!
# The lifecycle of the semantic bridge

- Any number of tasks share one bridge. It is started when it is first needed, restarted after a crash, and shut down.
- A task takes one step at a time, and steps of other tasks can come between. A step that waits for a lock changes nothing.
-/

namespace AlLanguage.Workspace

open Library

def maxRestarts : Nat := 3

abbrev Task := Nat

structure SemanticBridge where
  generation : Nat
  /-- The time of the last timeout, 0 for none. -/
  lastTimeoutSecs : Nat := 0
  deriving DecidableEq

/-- A restart can name the generation that failed. -/
inductive Call where
  | getOrInit
  | restart (expected : Option Nat)
  | shutdown
  deriving DecidableEq

/-- Who starts a bridge. A restart keeps the timeout of the bridge before. -/
inductive Attempt where
  | lazy
  | restart (priorTimeoutSecs : Nat)
  deriving DecidableEq

inductive Answer where
  | nothing
  | ok
  | noToolchain
  | restartLimitExceeded (attempts max : Nat)
  | notStarted
  deriving DecidableEq

/-- Where a task is. From `lookAgain` to `takeDown` it holds the lifecycle lock, and in `reading` a read guard. -/
inductive Place where
  | idle
  | enter
  | look
  | waits (call : Call)
  | lookAgain
  | limit
  | toolchain
  | claim
  | compare (expected : Option Nat)
  | take (expected : Option Nat)
  | retool (priorTimeoutSecs : Nat)
  | slot (priorTimeoutSecs : Nat)
  | starting (attempt : Attempt)
  | publish (attempt : Attempt) (bridge : Option SemanticBridge)
  | started (attempt : Attempt)
  | failed (attempt : Attempt)
  | reopen
  | takeDown
  | reading (generation : Option Nat)
  | returned (answer : Answer)
  deriving DecidableEq

structure Lifecycle where
  semantic : Option SemanticBridge := none
  readers : Finset Task := ∅
  /-- The task with the lifecycle lock. -/
  holder : Option Task := none
  bridgeRestartCount : Nat := 0
  initFailureReported : Bool := false
  /-- The attempts of the failures that the user was told about. -/
  notices : List Nat := []
  nextGeneration : Nat := 1
  enableCodeAnalysis : Bool := true
  hasToolchain : Bool := true
  /-- Whether the host can be started. -/
  hostStarts : Bool := true
  tasks : Task → Place := fun _ => .idle

namespace Lifecycle

variable (w : Lifecycle) (t : Task)

def goto (place : Place) : Lifecycle := { w with tasks := Function.update w.tasks t place }

/-- The lifecycle lock is given back when the call returns. -/
def leave (place : Place) : Lifecycle := { w with holder := none, tasks := Function.update w.tasks t place }

/-- A read guard of the bridge that is there. -/
def read (w : Lifecycle) (t : Task) : Lifecycle :=
  { w with readers := insert t w.readers, tasks := Function.update w.tasks t (.reading (w.semantic.map (·.generation))) }

/-- A 32-bit counter. -/
def countRestart : Lifecycle := { w with bridgeRestartCount := (w.bridgeRestartCount + 1) % 2 ^ 32 }

/-- What is done under the write lock, for which a task waits until no one reads. -/
def whenUnread (act : Lifecycle) : Lifecycle := if w.readers = ∅ then act else w

def step : Lifecycle :=
  match w.tasks t with
  | .idle | .returned _ => w
  | .enter => if w.enableCodeAnalysis then w.goto t .look else w.goto t (.returned .nothing)
  | .look => if w.semantic.isSome then w.read t else w.goto t (.waits .getOrInit)
  | .waits call =>
      if w.holder = none then
        { w with holder := some t }.goto t (match call with
          | .getOrInit => .lookAgain
          | .restart expected => .compare expected
          | .shutdown => .takeDown)
      else w
  | .lookAgain => if w.semantic.isSome then { w with holder := none }.read t else w.goto t .limit
  | .limit => if maxRestarts ≤ w.bridgeRestartCount then w.leave t (.returned .nothing) else w.goto t .toolchain
  | .toolchain => if w.hasToolchain then w.goto t .claim else w.leave t (.returned .nothing)
  | .claim =>
      -- the write guard is downgraded to a read guard when another task was faster
      w.whenUnread (if w.semantic.isSome then { w with holder := none }.read t else w.goto t (.starting .lazy))
  | .compare expected =>
      match expected with
      | none => w.goto t (.take none)
      | some generation =>
          if w.semantic.map (·.generation) = some generation then w.goto t (.take expected) else w.leave t (.returned .ok)
  | .take _ =>
      w.whenUnread ({ w with semantic := none }.goto t (.retool ((w.semantic.map SemanticBridge.lastTimeoutSecs).getD 0)))
  | .retool prior => if w.hasToolchain then w.goto t (.slot prior) else w.leave t (.returned .noToolchain)
  | .slot prior =>
      w.whenUnread (
        if w.semantic.isSome then w.leave t (.returned .ok)
        else if maxRestarts < w.countRestart.bridgeRestartCount then
          w.countRestart.leave t (.returned (.restartLimitExceeded w.countRestart.bridgeRestartCount maxRestarts))
        else w.countRestart.goto t (.starting (.restart prior)))
  | .starting attempt =>
      if w.hostStarts then
        { w with nextGeneration := w.nextGeneration + 1 }.goto t (.publish attempt (some { generation := w.nextGeneration }))
      else w.goto t (.publish attempt none)
  | .publish attempt bridge =>
      w.whenUnread (
        if w.semantic.isSome then w.goto t (.started attempt)
        else match bridge with
          | some _ => { w with semantic := bridge }.goto t (.started attempt)
          | none => w.goto t (.failed attempt))
  | .started .lazy => { w with bridgeRestartCount := 0, initFailureReported := false }.goto t .reopen
  | .started (.restart prior) =>
      -- the stamp of the new bridge only grows
      { w with
        semantic := w.semantic.map fun (bridge : SemanticBridge) => { bridge with lastTimeoutSecs := max bridge.lastTimeoutSecs prior }
        bridgeRestartCount := 0
        initFailureReported := false }.leave t (.returned .ok)
  | .failed .lazy =>
      { w.countRestart with
        initFailureReported := true
        notices := if w.initFailureReported then w.notices else w.notices ++ [w.countRestart.bridgeRestartCount] }.leave t
        (.returned .nothing)
  | .failed (.restart _) => w.leave t (.returned .notStarted)
  | .reopen => { w with holder := none }.read t
  | .takeDown => w.whenUnread ({ w with semantic := none }.leave t (.returned .ok))
  | .reading _ => { w with readers := w.readers.erase t }.goto t (.returned .ok)

/-! ## Runs -/

inductive Action where
  | call (t : Task) (call : Call)
  | step (t : Task)
  /-- A call of the bridge changes its timeout. -/
  | stamp (t : Task) (secs : Nat)
  | surroundings (enableCodeAnalysis hasToolchain hostStarts : Bool)

def act : Action → Lifecycle
  | .call t call =>
      match w.tasks t with
      | .idle | .returned _ => w.goto t (match call with
          | .getOrInit => .enter
          | call => .waits call)
      | _ => w
  | .step t => w.step t
  | .stamp t secs =>
      match w.tasks t with
      | .reading (some _) =>
          { w with semantic := w.semantic.map fun (bridge : SemanticBridge) => { bridge with lastTimeoutSecs := secs } }
      | _ => w
  | .surroundings enableCodeAnalysis hasToolchain hostStarts => { w with enableCodeAnalysis, hasToolchain, hostStarts }

end Lifecycle

end AlLanguage.Workspace
