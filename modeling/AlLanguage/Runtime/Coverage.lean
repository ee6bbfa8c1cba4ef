import AlLanguage.Library.MapSums

/-!
# Coverage collectors

What the interpreter records of executed lines, decisions, paths and condition vectors, and the report over it. Counters
are natural numbers: no `u64` overflow.
-/

namespace AlLanguage.Runtime

open AlLanguage.Library

/-- A condition vector and the outcome of the decision. -/
structure Observed where
  conditions : List Bool
  outcome : Bool
  deriving DecidableEq

instance : Ord Observed := ⟨compareLex (compareOn Observed.conditions) (compareOn Observed.outcome)⟩

instance : Std.TransOrd Observed :=
  inferInstanceAs (Std.TransCmp (compareLex (compareOn Observed.conditions) (compareOn Observed.outcome)))

instance : Std.LawfulEqOrd Observed where
  eq_of_compare {a b} same := by
    obtain ⟨conditions, outcome⟩ := Ordering.then_eq_eq.mp same
    cases a
    cases b
    rw [Observed.mk.injEq]
    exact ⟨Std.LawfulEqCmp.eq_of_compare conditions, Std.LawfulEqCmp.eq_of_compare outcome⟩

structure BranchTally where
  thenTaken : Nat
  elseTaken : Nat
  paths : OrderedMap String Nat
  conditionObservations : OrderedMap Observed Nat

structure Coverage where
  files : OrderedMap String (OrderedMap UInt32 Unit)
  branches : OrderedMap String (OrderedMap UInt32 BranchTally)
  currentFile : String

/-! ## Records -/

namespace BranchTally

def empty : BranchTally := ⟨0, 0, .empty, .empty⟩

/-- One step of the loop of `Coverage::merge` over the lines of a file. -/
def merge (agg tally : BranchTally) : BranchTally where
  thenTaken := agg.thenTaken + tally.thenTaken
  elseTaken := agg.elseTaken + tally.elseTaken
  paths := agg.paths.mergeWith (· + ·) 0 tally.paths
  conditionObservations := agg.conditionObservations.mergeWith (· + ·) 0 tally.conditionObservations

end BranchTally

namespace Coverage

def new : Coverage := ⟨.empty, .empty, ""⟩

def setCurrentFile (c : Coverage) (file : String) : Coverage := { c with currentFile := file }

def recordStatement (c : Coverage) (line : UInt32) : Coverage :=
  { c with files := c.files.upsert c.currentFile .empty fun lines => lines.insert line () }

/-- Change the tally of a line of the current file. -/
def tally (c : Coverage) (line : UInt32) (f : BranchTally → BranchTally) : Coverage :=
  { c with branches := c.branches.upsert c.currentFile .empty fun perFile => perFile.upsert line .empty f }

def recordDecision (c : Coverage) (line : UInt32) (taken : Bool) : Coverage :=
  c.tally line fun t =>
    if taken then { t with thenTaken := t.thenTaken + 1 } else { t with elseTaken := t.elseTaken + 1 }

def recordConditionObservation (c : Coverage) (line : UInt32) (conditions : List Bool) (outcome : Bool) : Coverage :=
  if conditions.isEmpty then c
  else
    c.tally line fun t =>
      { t with conditionObservations := t.conditionObservations.upsert ⟨conditions, outcome⟩ 0 (· + 1) }

def ensurePath (c : Coverage) (line : UInt32) (path : String) : Coverage :=
  c.tally line fun t => { t with paths := t.paths.upsert path 0 id }

def recordPath (c : Coverage) (line : UInt32) (path : String) : Coverage :=
  c.tally line fun t => { t with paths := t.paths.upsert path 0 (· + 1) }

/-- The current file of the other collector is not merged. -/
def merge (c other : Coverage) : Coverage where
  files := c.files.mergeWith (fun dst lines => dst.mergeWith (fun _ _ => ()) () lines) .empty other.files
  branches := c.branches.mergeWith (fun dst perFile => dst.mergeWith BranchTally.merge .empty perFile) .empty other.branches
  currentFile := c.currentFile

end Coverage

/-! ## Reports -/

structure PathCoverage where
  path : String
  hits : Nat
  deriving DecidableEq

structure ConditionMcdcCoverage where
  index : Nat
  covered : Bool
  deriving DecidableEq

structure ConditionObservationCoverage where
  conditions : List Bool
  outcome : Bool
  hits : Nat
  deriving DecidableEq

structure McdcCoverage where
  conditions : List ConditionMcdcCoverage
  observations : List ConditionObservationCoverage
  deriving DecidableEq

structure BranchCoverage where
  line : UInt32
  thenTaken : Nat
  elseTaken : Nat
  paths : List PathCoverage
  mcdc : Option McdcCoverage
  deriving DecidableEq

structure FileCoverage where
  file : String
  executedLines : List UInt32
  branches : List BranchCoverage
  deriving DecidableEq

structure DynamicCoverageReport where
  files : List FileCoverage
  deriving DecidableEq

/-- Two observations that show the effect of one condition. -/
def showsEffect (index : Nat) (left right : Observed × Nat) : Bool :=
  left.1.outcome != right.1.outcome && left.1.conditions[index]? != right.1.conditions[index]? &&
    ((left.1.conditions.zip right.1.conditions).zipIdx.all fun (pair, other) => other == index || pair.1 == pair.2)

/-- Whether some observation and a later one show the effect of a condition. -/
def coveredBy (index : Nat) : List (Observed × Nat) → Bool
  | [] => false
  | left :: rest => rest.any (showsEffect index left) || coveredBy index rest

def conditionCount (observations : OrderedMap Observed Nat) : Nat :=
  (observations.keys.map (·.conditions.length)).max?.getD 0

def mcdcCoverage (observations : OrderedMap Observed Nat) : Option McdcCoverage :=
  let count := conditionCount observations
  if count < 2 then none
  else
    let compatible := observations.entries.filter fun e => e.1.conditions.length == count
    some {
      conditions := (List.range count).map fun index => { index, covered := coveredBy index compatible }
      observations := compatible.map fun e => { conditions := e.1.conditions, outcome := e.1.outcome, hits := e.2 } }

namespace McdcCoverage

def fromObservations (observations : List ConditionObservationCoverage) : Option McdcCoverage :=
  mcdcCoverage (observations.foldl
    (fun aggregated o => aggregated.upsert ⟨o.conditions, o.outcome⟩ 0 (· + o.hits)) OrderedMap.empty)

end McdcCoverage

namespace Coverage

/-- The files with lines or branches, in order. -/
def fileNames (c : Coverage) : List String :=
  (c.branches.keys.foldl (fun names file => names.insert file ())
    (c.files.keys.foldl (fun names file => names.insert file ()) OrderedMap.empty)).keys

def branchCoverage (e : UInt32 × BranchTally) : BranchCoverage where
  line := e.1
  thenTaken := e.2.thenTaken
  elseTaken := e.2.elseTaken
  paths := e.2.paths.entries.map fun p => { path := p.1, hits := p.2 }
  mcdc := mcdcCoverage e.2.conditionObservations

def fileCoverage (c : Coverage) (file : String) : FileCoverage where
  file
  executedLines := ((c.files.get? file).map (·.keys)).getD []
  branches := ((c.branches.get? file).map fun perFile => perFile.entries.map branchCoverage).getD []

def report (c : Coverage) : DynamicCoverageReport where
  files := c.fileNames.map c.fileCoverage

end Coverage

end AlLanguage.Runtime
