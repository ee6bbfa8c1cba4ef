import AlLanguage.Runtime.Coverage
import Mathlib.Algebra.BigOperators.Group.List.Lemmas
import Mathlib.Algebra.Group.Prod

/-!
# Coverage of split runs

- What a collector holds is a sum with one summand for each record, and merging adds two collectors. So the report depends
  on the records under each file and on nothing else.
- The observations that a report drops are narrower than others, and stay narrower in every sum.
-/

namespace AlLanguage.Runtime

open AlLanguage.Library

/-! ## Collectors as sums -/

instance : Zero BranchTally := ⟨.empty⟩

instance : Add BranchTally := ⟨.merge⟩

namespace BranchTally

@[ext] theorem ext {a b : BranchTally} (thens : a.thenTaken = b.thenTaken) (elses : a.elseTaken = b.elseTaken)
    (paths : a.paths = b.paths) (observations : a.conditionObservations = b.conditionObservations) : a = b := by
  cases a
  cases b
  cases thens
  cases elses
  cases paths
  cases observations
  rfl

@[simp] theorem thenTaken_add (a b : BranchTally) : (a + b).thenTaken = a.thenTaken + b.thenTaken := rfl

@[simp] theorem elseTaken_add (a b : BranchTally) : (a + b).elseTaken = a.elseTaken + b.elseTaken := rfl

@[simp] theorem paths_add (a b : BranchTally) : (a + b).paths = a.paths + b.paths := rfl

@[simp] theorem conditionObservations_add (a b : BranchTally) :
    (a + b).conditionObservations = a.conditionObservations + b.conditionObservations := rfl

@[simp] theorem thenTaken_zero : (0 : BranchTally).thenTaken = 0 := rfl

@[simp] theorem elseTaken_zero : (0 : BranchTally).elseTaken = 0 := rfl

@[simp] theorem paths_zero : (0 : BranchTally).paths = 0 := rfl

@[simp] theorem conditionObservations_zero : (0 : BranchTally).conditionObservations = 0 := rfl

end BranchTally

instance : AddCommMonoid BranchTally where
  add_assoc a b c := by ext1 <;> simp [add_assoc]
  zero_add a := by ext1 <;> simp
  add_zero a := by ext1 <;> simp
  add_comm a b := by ext1 <;> simp [add_comm]
  nsmul := nsmulRec

/-- What a collector holds, its current file apart. -/
abbrev Holdings := OrderedMap String (OrderedMap UInt32 Unit) × OrderedMap String (OrderedMap UInt32 BranchTally)

namespace Coverage

def held (c : Coverage) : Holdings := (c.files, c.branches)

theorem held_merge (c other : Coverage) : (c.merge other).held = c.held + other.held := rfl

theorem held_new : new.held = 0 := rfl

end Coverage

/-! ## Records -/

inductive Record where
  | currentFile (file : String)
  | statement (line : UInt32)
  | decision (line : UInt32) (taken : Bool)
  | condition (line : UInt32) (conditions : List Bool) (outcome : Bool)
  | ensurePath (line : UInt32) (path : String)
  | path (line : UInt32) (path : String)

namespace Coverage

def apply (c : Coverage) : Record → Coverage
  | .currentFile file => c.setCurrentFile file
  | .statement line => c.recordStatement line
  | .decision line taken => c.recordDecision line taken
  | .condition line conditions outcome => c.recordConditionObservation line conditions outcome
  | .ensurePath line path => c.ensurePath line path
  | .path line path => c.recordPath line path

def run (records : List Record) : Coverage := records.foldl apply new

end Coverage

/-- The records other than changes of the file, each under its file. -/
def attributed : String → List Record → List (String × Record)
  | _, [] => []
  | _, .currentFile file :: rest => attributed file rest
  | file, record :: rest => (file, record) :: attributed file rest

def tallyOf : Record → BranchTally
  | .decision _ taken => if taken then { (0 : BranchTally) with thenTaken := 1 } else { (0 : BranchTally) with elseTaken := 1 }
  | .condition _ conditions outcome =>
    { (0 : BranchTally) with conditionObservations := .single ⟨conditions, outcome⟩ 1 }
  | .ensurePath _ path => { (0 : BranchTally) with paths := .single path 0 }
  | .path _ path => { (0 : BranchTally) with paths := .single path 1 }
  | _ => 0

/-- What one record adds. -/
def summand (a : String × Record) : Holdings :=
  match a.2 with
  | .currentFile _ => 0
  | .statement line => (.single a.1 (.single line ()), 0)
  | .condition line conditions _ => if conditions.isEmpty then 0 else (0, .single a.1 (.single line (tallyOf a.2)))
  | .decision line _ | .ensurePath line _ | .path line _ => (0, .single a.1 (.single line (tallyOf a.2)))

namespace Coverage

theorem held_tally (c : Coverage) (line : UInt32) {f : BranchTally → BranchTally} {t : BranchTally}
    (adds : ∀ u, f u = u + t) : (c.tally line f).held = c.held + (0, .single c.currentFile (.single line t)) := by
  have branches : c.branches.upsert c.currentFile .empty (fun perFile => perFile.upsert line .empty f) =
      c.branches + .single c.currentFile (.single line t) := by
    apply OrderedMap.upsert_eq_add
    intro perFile
    exact OrderedMap.upsert_eq_add perFile line adds
  rw [held, tally, branches]
  exact Prod.ext (add_zero _).symm rfl

theorem held_apply (c : Coverage) (r : Record) : (c.apply r).held = c.held + summand (c.currentFile, r) := by
  cases r with
  | currentFile file => exact (add_zero c.held).symm
  | statement line =>
      have files : c.files.upsert c.currentFile .empty (fun lines => lines.insert line ()) =
          c.files + .single c.currentFile (.single line ()) := by
        apply OrderedMap.upsert_eq_add
        intro lines
        exact @OrderedMap.upsert_eq_add _ _ _ _ _ _ lines line id () fun _ => rfl
      rw [apply, recordStatement, held, files]
      exact Prod.ext rfl (add_zero _).symm
  | decision line taken =>
      apply held_tally
      intro u
      cases taken <;> ext1 <;> simp [tallyOf]
  | condition line conditions outcome =>
      rw [apply, recordConditionObservation, summand]
      dsimp only
      split
      · exact (add_zero c.held).symm
      · apply held_tally
        intro u
        ext1 <;> simp [tallyOf]
        exact OrderedMap.upsert_eq_add _ _ fun _ => rfl
  | ensurePath line path =>
      apply held_tally
      intro u
      ext1 <;> simp [tallyOf]
      exact OrderedMap.upsert_eq_add _ _ fun w => (add_zero w).symm
  | path line path =>
      apply held_tally
      intro u
      ext1 <;> simp [tallyOf]
      exact OrderedMap.upsert_eq_add _ _ fun _ => rfl

theorem currentFile_apply (c : Coverage) (r : Record) :
    (c.apply r).currentFile = match r with
      | .currentFile file => file
      | _ => c.currentFile := by
  cases r with
  | condition line conditions outcome =>
      rw [apply, recordConditionObservation]
      split <;> rfl
  | _ => rfl

theorem held_foldl (c : Coverage) (records : List Record) :
    (records.foldl apply c).held = c.held + ((attributed c.currentFile records).map summand).sum := by
  induction records generalizing c with
  | nil => exact (add_zero c.held).symm
  | cons r rest ih =>
      rw [List.foldl_cons, ih, held_apply, currentFile_apply]
      cases r with
      | currentFile file =>
          rw [summand, add_zero, attributed]
      | _ =>
          rw [attributed, List.map_cons, List.sum_cons, add_assoc]
          intro file same
          cases same

/-- A collector holds the sum of its records. -/
theorem held_run (records : List Record) : (run records).held = ((attributed "" records).map summand).sum := by
  rw [run, held_foldl, held_new, zero_add]
  rfl

/-! ## Merged collectors -/

/-- The collectors of some runs, merged in some order. -/
inductive Merged : List (List Record) → Coverage → Prop
  | one (records : List Record) : Merged [records] (run records)
  | both {parts parts' : List (List Record)} {c d : Coverage} (left : Merged parts c) (right : Merged parts' d) :
    Merged (parts ++ parts') (c.merge d)

theorem Merged.held_eq {parts : List (List Record)} {c : Coverage} (merged : Merged parts c) :
    c.held = (parts.map fun records => (run records).held).sum := by
  induction merged with
  | one records => rw [List.map_singleton, List.sum_singleton]
  | both left right ihl ihr => rw [held_merge, ihl, ihr, List.map_append, List.sum_append]

theorem report_congr {c d : Coverage} (same : c.held = d.held) : c.report = d.report := by
  obtain ⟨files, branches⟩ := Prod.mk.inj same
  have names : c.fileNames = d.fileNames := by rw [fileNames, fileNames, files, branches]
  have each : c.fileCoverage = d.fileCoverage := by
    funext file
    rw [fileCoverage, fileCoverage, files, branches]
  rw [report, report, names, each]

theorem report_merged {parts : List (List Record)} {c : Coverage} {records : List Record} (merged : Merged parts c)
    (dealt : (parts.flatMap (attributed "")).Perm (attributed "" records)) : c.report = (run records).report := by
  apply report_congr
  rw [merged.held_eq, held_run, ← (dealt.map summand).sum_eq]
  clear dealt merged
  induction parts with
  | nil => rfl
  | cons part rest ih => rw [List.map_cons, List.sum_cons, ih, held_run, List.flatMap_cons, List.map_append, List.sum_append]

end Coverage

/-! ## The observations of a line -/

/-- The observations that a collector holds for a line. -/
def observationsOf (held : Holdings) (file : String) (line : UInt32) : OrderedMap Observed Nat :=
  (((held.2.get? file).bind (·.get? line)).map (·.conditionObservations)).getD 0

theorem observationsOf_add (a b : Holdings) (file : String) (line : UInt32) :
    observationsOf (a + b) file line = observationsOf a file line + observationsOf b file line := by
  rw [observationsOf, Prod.snd_add, OrderedMap.get?_add, observationsOf, observationsOf]
  cases a.2.get? file with
  | none => exact (zero_add _).symm
  | some left =>
      cases b.2.get? file with
      | none => exact (add_zero _).symm
      | some right =>
          rw [OrderedMap.joined, Option.bind_some, Option.bind_some, Option.bind_some, OrderedMap.get?_add]
          cases left.get? line with
          | none => exact (zero_add _).symm
          | some l =>
              cases right.get? line with
              | none => exact (add_zero _).symm
              | some r => rfl

theorem observationsOf_sum (parts : List Holdings) (file : String) (line : UInt32) :
    observationsOf parts.sum file line = (parts.map fun held => observationsOf held file line).sum := by
  induction parts with
  | nil => rfl
  | cons part rest ih => rw [List.sum_cons, observationsOf_add, ih, List.map_cons, List.sum_cons]

theorem observationsOf_single (file file' : String) (line line' : UInt32) (t : BranchTally) :
    observationsOf (0, .single file' (.single line' t)) file line =
      if file' = file ∧ line' = line then t.conditionObservations else 0 := by
  rw [observationsOf, OrderedMap.get?_single]
  by_cases sameFile : file' = file
  · rw [if_pos sameFile, Option.bind_some, OrderedMap.get?_single]
    by_cases sameLine : line' = line
    · rw [if_pos sameLine, if_pos ⟨sameFile, sameLine⟩]
      rfl
    · rw [if_neg sameLine, if_neg (fun both => sameLine both.2)]
      rfl
  · rw [if_neg sameFile, if_neg (fun both => sameFile both.1)]
    rfl

/-- A condition vector that was recorded for a line. -/
def Recorded (records : List Record) (file : String) (line : UInt32) (o : Observed) : Prop :=
  (file, .condition line o.conditions o.outcome) ∈ attributed "" records ∧ o.conditions ≠ []

theorem contains_summand_iff (a : String × Record) (file : String) (line : UInt32) (o : Observed) :
    (observationsOf (summand a) file line).contains o = true ↔
      a = (file, .condition line o.conditions o.outcome) ∧ o.conditions ≠ [] := by
  have absent : ¬(0 : OrderedMap Observed Nat).contains o = true := by
    rw [OrderedMap.contains, OrderedMap.get?_zero]
    decide
  obtain ⟨file', r⟩ := a
  rw [summand]
  cases r with
  | condition line' conditions outcome =>
      dsimp only
      by_cases empty : conditions = []
      · subst empty
        rw [List.isEmpty_nil, if_pos rfl]
        apply iff_of_false absent
        rintro ⟨same, nonempty⟩
        obtain ⟨_, same⟩ := Prod.mk.inj same
        obtain ⟨_, conditions, _⟩ := Record.condition.inj same
        exact nonempty conditions.symm
      · rw [if_neg (by rw [List.isEmpty_iff]; exact empty), observationsOf_single]
        by_cases here : file' = file ∧ line' = line
        · obtain ⟨rfl, rfl⟩ := here
          rw [if_pos ⟨rfl, rfl⟩, tallyOf, OrderedMap.contains, OrderedMap.get?_single]
          by_cases same : (⟨conditions, outcome⟩ : Observed) = o
          · subst same
            rw [if_pos rfl]
            exact iff_of_true rfl ⟨rfl, empty⟩
          · rw [if_neg same]
            apply iff_of_false (by decide)
            rintro ⟨equal, _⟩
            obtain ⟨_, equal⟩ := Prod.mk.inj equal
            obtain ⟨_, rfl, rfl⟩ := Record.condition.inj equal
            exact same rfl
        · rw [if_neg here]
          apply iff_of_false absent
          rintro ⟨equal, _⟩
          obtain ⟨sameFile, same⟩ := Prod.mk.inj equal
          exact here ⟨sameFile, (Record.condition.inj same).1⟩
  | currentFile _ =>
      apply iff_of_false absent
      rintro ⟨equal, _⟩
      cases equal
  | statement _ =>
      apply iff_of_false absent
      rintro ⟨equal, _⟩
      cases equal
  | _ =>
      dsimp only
      rw [observationsOf_single]
      apply iff_of_false
      · split
        · simp [tallyOf, OrderedMap.contains, OrderedMap.get?_zero]
          try (split <;> rfl)
        · exact absent
      · rintro ⟨equal, _⟩
        cases equal

theorem contains_observationsOf_iff (records : List Record) (file : String) (line : UInt32) (o : Observed) :
    (observationsOf (Coverage.run records).held file line).contains o = true ↔ Recorded records file line o := by
  rw [Coverage.held_run, observationsOf_sum, OrderedMap.contains_sum_iff, Recorded]
  constructor
  · rintro ⟨m, member, holds⟩
    obtain ⟨held, inside, rfl⟩ := List.mem_map.mp member
    obtain ⟨a, recorded, rfl⟩ := List.mem_map.mp inside
    obtain ⟨rfl, nonempty⟩ := (contains_summand_iff a file line o).mp holds
    exact ⟨recorded, nonempty⟩
  · rintro ⟨recorded, nonempty⟩
    refine ⟨_, List.mem_map_of_mem (List.mem_map_of_mem recorded), ?_⟩
    exact (contains_summand_iff _ file line o).mpr ⟨rfl, nonempty⟩

/-! ## Widest observations -/

section Widths

variable (m : OrderedMap Observed Nat)

theorem keys_contains {o : Observed} : o ∈ m.keys ↔ m.contains o = true := m.mem_keys_iff o

theorem width_le {o : Observed} (holds : m.contains o = true) : o.conditions.length ≤ conditionCount m := by
  have member : o.conditions.length ∈ m.keys.map (·.conditions.length) := List.mem_map_of_mem ((keys_contains m).mpr holds)
  rw [conditionCount]
  cases found : (m.keys.map (·.conditions.length)).max? with
  | none =>
      rw [List.max?_eq_none_iff] at found
      rw [found] at member
      cases member
  | some n => exact (List.max?_eq_some_iff.mp found).2 _ member

theorem width_reached (positive : 0 < conditionCount m) :
    ∃ o, m.contains o = true ∧ o.conditions.length = conditionCount m := by
  rw [conditionCount] at positive ⊢
  cases found : (m.keys.map (·.conditions.length)).max? with
  | none =>
      rw [found] at positive
      exact absurd positive (lt_irrefl _)
  | some n =>
      obtain ⟨o, member, width⟩ := List.mem_map.mp (List.max?_eq_some_iff.mp found).1
      exact ⟨o, (keys_contains m).mp member, width⟩

theorem conditionCount_eq {n : Nat} (atMost : ∀ o, m.contains o = true → o.conditions.length ≤ n)
    (reached : ∃ o, m.contains o = true ∧ o.conditions.length = n) : conditionCount m = n := by
  obtain ⟨o, holds, width⟩ := reached
  apply Nat.le_antisymm
  · by_cases positive : 0 < conditionCount m
    · obtain ⟨widest, held, same⟩ := width_reached m positive
      rw [← same]
      exact atMost widest held
    · omega
  · rw [← width]
    exact width_le m holds

/-- The observations of one width. -/
def ofWidth (n : Nat) : OrderedMap Observed Nat := m.filterKeys fun o => o.conditions.length == n

/-- The observations that a report keeps. -/
def kept : OrderedMap Observed Nat := if conditionCount m < 2 then 0 else ofWidth m (conditionCount m)

theorem contains_ofWidth_iff (n : Nat) (o : Observed) :
    (ofWidth m n).contains o = true ↔ m.contains o = true ∧ o.conditions.length = n := by
  rw [ofWidth, OrderedMap.contains, OrderedMap.get?_filterKeys, OrderedMap.contains]
  by_cases wide : o.conditions.length = n
  · rw [if_pos (beq_iff_eq.mpr wide)]
    exact (and_iff_left wide).symm
  · rw [if_neg (fun same => wide (beq_iff_eq.mp same))]
    exact iff_of_false (by decide) fun both => wide both.2

theorem eq_zero_of_contains (none_held : ∀ o, ¬m.contains o = true) : m = 0 := by
  apply OrderedMap.ext_get?
  intro o
  have absent := none_held o
  rw [OrderedMap.contains, Bool.not_eq_true, Option.isSome_eq_false_iff, Option.isNone_iff_eq_none] at absent
  rw [absent, OrderedMap.get?_zero]

/-- What the kept observations have of one width at least as large as any. -/
theorem ofWidth_kept {n : Nat} (wide : 2 ≤ n) (atMost : conditionCount m ≤ n) : ofWidth (kept m) n = ofWidth m n := by
  rcases Nat.lt_or_eq_of_le atMost with less | rfl
  · have nothing (m' : OrderedMap Observed Nat) (narrow : ∀ o, m'.contains o = true → o.conditions.length < n) :
        ofWidth m' n = 0 := by
      apply eq_zero_of_contains
      intro o holds
      obtain ⟨inside, width⟩ := (contains_ofWidth_iff m' n o).mp holds
      exact absurd width (Nat.ne_of_lt (narrow o inside))
    rw [nothing m fun o holds => (width_le m holds).trans_lt less]
    apply nothing
    intro o holds
    rw [kept] at holds
    split at holds
    · cases holds
    · exact (width_le m ((contains_ofWidth_iff m _ o).mp holds).1).trans_lt less
  · rw [kept, if_neg (Nat.not_lt.mpr wide)]
    apply OrderedMap.ext_get?
    intro o
    simp only [ofWidth, OrderedMap.get?_filterKeys]
    split <;> rfl

theorem contains_kept {o : Observed} (holds : (kept m).contains o = true) : m.contains o = true := by
  rw [kept] at holds
  split at holds
  · cases holds
  · exact ((contains_ofWidth_iff m _ o).mp holds).1

/-- The result of a decision, from its widest observations. -/
def mcdcOf (count : Nat) (compatible : OrderedMap Observed Nat) : McdcCoverage where
  conditions := (List.range count).map fun index => { index, covered := coveredBy index compatible.entries }
  observations := compatible.entries.map fun e => { conditions := e.1.conditions, outcome := e.1.outcome, hits := e.2 }

theorem mcdcCoverage_eq :
    mcdcCoverage m =
      if conditionCount m < 2 then none else some (mcdcOf (conditionCount m) (ofWidth m (conditionCount m))) := rfl

end Widths

/-- Summing what reports keep of some maps gives the result of the summed maps. -/
theorem mcdcCoverage_sum_kept (maps : List (OrderedMap Observed Nat)) :
    mcdcCoverage (maps.map kept).sum = mcdcCoverage maps.sum := by
  have each : ∀ m ∈ maps, conditionCount m ≤ conditionCount maps.sum := by
    intro m member
    by_cases positive : 0 < conditionCount m
    · obtain ⟨o, holds, width⟩ := width_reached m positive
      rw [← width]
      exact width_le maps.sum ((OrderedMap.contains_sum_iff maps o).mpr ⟨m, member, holds⟩)
    · omega
  have atMost : ∀ o, (maps.map kept).sum.contains o = true → maps.sum.contains o = true := by
    intro o holds
    obtain ⟨m', member, inside⟩ := (OrderedMap.contains_sum_iff _ o).mp holds
    obtain ⟨m, original, rfl⟩ := List.mem_map.mp member
    exact (OrderedMap.contains_sum_iff maps o).mpr ⟨m, original, contains_kept m inside⟩
  by_cases narrow : conditionCount maps.sum < 2
  · have nothing : (maps.map kept).sum = 0 := by
      apply List.sum_eq_zero
      intro m' member
      obtain ⟨m, original, rfl⟩ := List.mem_map.mp member
      rw [kept, if_pos ((each m original).trans_lt narrow)]
    rw [nothing, mcdcCoverage_eq maps.sum, if_pos narrow]
    rfl
  · have wide : 2 ≤ conditionCount maps.sum := Nat.not_lt.mp narrow
    have same : ofWidth (maps.map kept).sum (conditionCount maps.sum) = ofWidth maps.sum (conditionCount maps.sum) := by
      rw [ofWidth, ofWidth, OrderedMap.filterKeys_sum, OrderedMap.filterKeys_sum, List.map_map]
      congr 1
      apply List.map_congr_left
      intro m member
      exact ofWidth_kept m wide (each m member)
    have count : conditionCount (maps.map kept).sum = conditionCount maps.sum := by
      apply conditionCount_eq
      · exact fun o holds => width_le maps.sum (atMost o holds)
      · obtain ⟨o, holds, width⟩ := width_reached maps.sum (by omega)
        have inside := (contains_ofWidth_iff maps.sum _ o).mpr ⟨holds, width⟩
        rw [← same] at inside
        exact ⟨o, ((contains_ofWidth_iff _ _ o).mp inside).1, width⟩
    rw [mcdcCoverage_eq, mcdcCoverage_eq, count, same]

/-! ## Reports -/

def mcdcAt (report : DynamicCoverageReport) (file : String) (line : UInt32) : Option McdcCoverage :=
  (((report.files.find? (·.file = file)).map (·.branches)).bind fun branches => branches.find? (·.line = line)).bind (·.mcdc)

/-- The observations that a report has of a line. -/
def observationsAt (report : DynamicCoverageReport) (file : String) (line : UInt32) : List ConditionObservationCoverage :=
  ((mcdcAt report file line).map (·.observations)).getD []

theorem mem_fileNames {c : Coverage} {file : String} {perFile : OrderedMap UInt32 BranchTally}
    (held : c.branches.get? file = some perFile) : file ∈ c.fileNames := by
  have kept (files : List String) (names : OrderedMap String Unit) (inside : file ∈ files ∨ names.contains file = true) :
      (files.foldl (fun names file => names.insert file ()) names).contains file = true := by
    induction files generalizing names with
    | nil => exact inside.resolve_left List.not_mem_nil
    | cons first rest ih =>
        apply ih
        by_cases here : first = file
        · right
          subst here
          rw [OrderedMap.contains, OrderedMap.get?_insert_self]
          rfl
        · rcases inside with listed | old
          · exact .inl ((List.mem_cons.mp listed).resolve_left (Ne.symm here))
          · right
            rw [OrderedMap.contains, OrderedMap.get?_insert, if_neg fun same => here (OrderedMap.compare_eq_iff.mp same)]
            exact old
  rw [Coverage.fileNames, OrderedMap.mem_keys_iff]
  apply kept
  left
  rw [OrderedMap.mem_keys_iff, OrderedMap.contains, held]
  rfl

theorem find?_branches (perFile : OrderedMap UInt32 BranchTally) (line : UInt32) :
    (perFile.entries.map Coverage.branchCoverage).find? (·.line = line) =
      (perFile.get? line).map fun t => Coverage.branchCoverage (line, t) := by
  rw [List.find?_map, OrderedMap.get?]
  have same : ((fun b : BranchCoverage => decide (b.line = line)) ∘ Coverage.branchCoverage) =
      fun e : UInt32 × BranchTally => compare line e.1 == .eq := by
    funext e
    rw [Bool.eq_iff_iff, beq_iff_eq, OrderedMap.compare_eq_iff]
    exact decide_eq_true_iff.trans eq_comm
  rw [same]
  cases found : perFile.entries.find? fun e => compare line e.1 == .eq with
  | none => rfl
  | some e =>
      have here : line = e.1 := OrderedMap.compare_eq_iff.mp (by simpa using List.find?_some found)
      rw [Option.map_some, Option.map_some, Option.map_some, here]

theorem mcdcAt_report (c : Coverage) (file : String) (line : UInt32) :
    mcdcAt c.report file line = mcdcCoverage (observationsOf c.held file line) := by
  have files : c.report.files.find? (·.file = file) =
      if file ∈ c.fileNames then some (c.fileCoverage file) else none := by
    rw [Coverage.report, List.find?_map]
    have same : ((fun f : FileCoverage => decide (f.file = file)) ∘ c.fileCoverage) = fun name => decide (name = file) := rfl
    rw [same]
    cases found : c.fileNames.find? fun name => decide (name = file) with
    | none =>
        have absent : file ∉ c.fileNames := fun member => List.find?_eq_none.mp found file member (decide_eq_true rfl)
        rw [if_neg absent]
        rfl
    | some name =>
        obtain rfl : name = file := by simpa using List.find?_some found
        rw [if_pos (List.mem_of_find?_eq_some found)]
        rfl
  have branches : (c.fileCoverage file).branches.find? (·.line = line) =
      ((c.branches.get? file).bind (·.get? line)).map fun t => Coverage.branchCoverage (line, t) := by
    rw [Coverage.fileCoverage]
    dsimp only
    cases c.branches.get? file with
    | none => rfl
    | some perFile => exact find?_branches perFile line
  have same : mcdcCoverage (observationsOf c.held file line) =
      ((c.branches.get? file).bind (·.get? line)).bind fun t => mcdcCoverage t.conditionObservations := by
    rw [observationsOf, Coverage.held]
    cases (c.branches.get? file).bind (·.get? line) <;> rfl
  rw [mcdcAt, files, same]
  split
  · rw [Option.map_some, Option.bind_some, branches, Option.bind_map]
    rfl
  next absent =>
      cases held : c.branches.get? file with
      | none => rfl
      | some perFile => exact absurd (mem_fileNames held) absent

theorem sum_observationsAt (c : Coverage) (file : String) (line : UInt32) :
    ((observationsAt c.report file line).map fun o => OrderedMap.single ⟨o.conditions, o.outcome⟩ o.hits).sum =
      kept (observationsOf c.held file line) := by
  rw [observationsAt, mcdcAt_report, mcdcCoverage_eq, kept]
  split
  · rfl
  · rw [Option.map_some, Option.getD_some, mcdcOf, List.map_map]
    exact OrderedMap.sum_single_entries _

theorem fromObservations_eq (observations : List ConditionObservationCoverage) :
    McdcCoverage.fromObservations observations =
      mcdcCoverage (observations.map fun o => OrderedMap.single ⟨o.conditions, o.outcome⟩ o.hits).sum := by
  have folded (start : OrderedMap Observed Nat) :
      observations.foldl (fun aggregated o => aggregated.upsert ⟨o.conditions, o.outcome⟩ 0 (· + o.hits)) start =
        start + (observations.map fun o => OrderedMap.single ⟨o.conditions, o.outcome⟩ o.hits).sum := by
    induction observations generalizing start with
    | nil => simp
    | cons o rest ih =>
        rw [List.foldl_cons, ih, OrderedMap.upsert_eq_add start _ fun _ => rfl, List.map_cons, List.sum_cons, add_assoc]
  rw [McdcCoverage.fromObservations]
  congr 1
  exact (folded 0).trans (zero_add _)

/-- The observations of the single reports give the result of the merged collector. -/
theorem fromObservations_merged {parts : List (List Record)} {c : Coverage} (merged : Coverage.Merged parts c)
    (file : String) (line : UInt32) {observations : List ConditionObservationCoverage}
    (concatenated : observations.Perm (parts.flatMap fun records => observationsAt (Coverage.run records).report file line)) :
    McdcCoverage.fromObservations observations = mcdcAt c.report file line := by
  have split : (observations.map fun o => OrderedMap.single (⟨o.conditions, o.outcome⟩ : Observed) o.hits).sum =
      ((parts.map fun records => observationsOf (Coverage.run records).held file line).map kept).sum := by
    rw [(concatenated.map _).sum_eq, List.map_map]
    clear merged concatenated
    induction parts with
    | nil => rfl
    | cons part rest ih =>
        rw [List.flatMap_cons, List.map_append, List.sum_append, ih, sum_observationsAt, List.map_cons, List.sum_cons]
        rfl
  rw [fromObservations_eq, split, mcdcCoverage_sum_kept, mcdcAt_report, merged.held_eq, observationsOf_sum, List.map_map]
  rfl

/-! ## Covered conditions -/

/-- Two observations that differ in one condition only, and in the outcome. -/
def ShowEffect (index : Nat) (a b : Observed) : Prop :=
  a.outcome ≠ b.outcome ∧ a.conditions[index]? ≠ b.conditions[index]? ∧
    ∀ other, other ≠ index → a.conditions[other]? = b.conditions[other]?

theorem showsEffect_iff {index : Nat} {a b : Observed × Nat} (width : a.1.conditions.length = b.1.conditions.length) :
    showsEffect index a b = true ↔ ShowEffect index a.1 b.1 := by
  rw [showsEffect, ShowEffect, Bool.and_eq_true, Bool.and_eq_true, bne_iff_ne, bne_iff_ne, and_assoc]
  apply and_congr_right
  intro _
  apply and_congr_right
  intro _
  rw [List.all_eq_true]
  constructor
  · intro same other different
    by_cases inside : other < a.1.conditions.length
    · have inside' : other < b.1.conditions.length := width ▸ inside
      have pair : ((a.1.conditions[other], b.1.conditions[other]), other) ∈ (a.1.conditions.zip b.1.conditions).zipIdx := by
        rw [List.mk_mem_zipIdx_iff_getElem?, List.getElem?_zip_eq_some]
        exact ⟨List.getElem?_eq_getElem inside, List.getElem?_eq_getElem inside'⟩
      have equal := same _ pair
      simp only [Bool.or_eq_true, beq_iff_eq, different, false_or] at equal
      rw [List.getElem?_eq_getElem inside, List.getElem?_eq_getElem inside', equal]
    · rw [List.getElem?_eq_none (Nat.not_lt.mp inside), List.getElem?_eq_none (width ▸ Nat.not_lt.mp inside)]
  · rintro same ⟨⟨x, y⟩, other⟩ member
    rw [List.mk_mem_zipIdx_iff_getElem?, List.getElem?_zip_eq_some] at member
    simp only [Bool.or_eq_true, beq_iff_eq]
    by_cases here : other = index
    · exact .inl here
    · right
      have equal := same other here
      rw [member.1, member.2] at equal
      exact Option.some_inj.mp equal

theorem ShowEffect.symm {index : Nat} {a b : Observed} (shown : ShowEffect index a b) : ShowEffect index b a :=
  ⟨shown.1.symm, shown.2.1.symm, fun other different => (shown.2.2 other different).symm⟩

theorem coveredBy_iff {index n : Nat} {entries : List (Observed × Nat)} (wide : ∀ e ∈ entries, e.1.conditions.length = n) :
    coveredBy index entries = true ↔ ∃ a ∈ entries, ∃ b ∈ entries, ShowEffect index a.1 b.1 := by
  induction entries with
  | nil => simp [coveredBy]
  | cons left rest ih =>
      have narrower : ∀ e ∈ rest, e.1.conditions.length = n := fun e member => wide e (List.mem_cons_of_mem _ member)
      have first := wide left List.mem_cons_self
      have shows : ∀ e ∈ rest, (showsEffect index left e = true ↔ ShowEffect index left.1 e.1) :=
        fun e member => showsEffect_iff (first.trans (narrower e member).symm)
      rw [coveredBy, Bool.or_eq_true, ih narrower, List.any_eq_true]
      constructor
      · rintro (⟨b, member, shown⟩ | ⟨a, inside, b, inside', shown⟩)
        · exact ⟨left, List.mem_cons_self, b, List.mem_cons_of_mem _ member, (shows b member).mp shown⟩
        · exact ⟨a, List.mem_cons_of_mem _ inside, b, List.mem_cons_of_mem _ inside', shown⟩
      · rintro ⟨a, inside, b, inside', shown⟩
        rcases List.mem_cons.mp inside with rfl | insideRest
        · rcases List.mem_cons.mp inside' with rfl | insideRest'
          · exact absurd rfl shown.1
          · exact .inl ⟨b, insideRest', (shows b insideRest').mpr shown⟩
        · rcases List.mem_cons.mp inside' with rfl | insideRest'
          · exact .inl ⟨a, insideRest, (shows a insideRest).mpr shown.symm⟩
          · exact .inr ⟨a, insideRest, b, insideRest', shown⟩

/-- The records hold condition vectors of this width for a line, and no wider ones. -/
def Widest (records : List Record) (file : String) (line : UInt32) (n : Nat) : Prop :=
  (∃ o, Recorded records file line o ∧ o.conditions.length = n) ∧
    ∀ o, Recorded records file line o → o.conditions.length ≤ n

/-- A condition that a report shows as covered. -/
def ReportedCovered (report : DynamicCoverageReport) (file : String) (line : UInt32) (index : Nat) : Prop :=
  ∃ mcdc, mcdcAt report file line = some mcdc ∧ { index, covered := true } ∈ mcdc.conditions

theorem conditionCount_run {records : List Record} {file : String} {line : UInt32} {n : Nat}
    (widest : Widest records file line n) : conditionCount (observationsOf (Coverage.run records).held file line) = n := by
  apply conditionCount_eq
  · intro o holds
    exact widest.2 o ((contains_observationsOf_iff records file line o).mp holds)
  · obtain ⟨o, recorded, width⟩ := widest.1
    exact ⟨o, (contains_observationsOf_iff records file line o).mpr recorded, width⟩

theorem mcdcAt_narrow {records : List Record} {file : String} {line : UInt32} {n : Nat}
    (widest : Widest records file line n) (narrow : n < 2) : mcdcAt (Coverage.run records).report file line = none := by
  rw [mcdcAt_report, mcdcCoverage_eq, conditionCount_run widest, if_pos narrow]

theorem reportedCovered_iff {records : List Record} {file : String} {line : UInt32} {n : Nat}
    (widest : Widest records file line n) (wide : 2 ≤ n) {index : Nat} (inside : index < n) :
    ReportedCovered (Coverage.run records).report file line index ↔
      ∃ a b, Recorded records file line a ∧ Recorded records file line b ∧ a.conditions.length = n ∧
        b.conditions.length = n ∧ ShowEffect index a b := by
  have member (e : Observed × Nat) :
      e ∈ (ofWidth (observationsOf (Coverage.run records).held file line) n).entries →
        Recorded records file line e.1 ∧ e.1.conditions.length = n := by
    intro stored
    have holds : (ofWidth (observationsOf (Coverage.run records).held file line) n).contains e.1 = true := by
      rw [OrderedMap.contains, OrderedMap.get?_of_mem _ stored]
      rfl
    rw [contains_ofWidth_iff, contains_observationsOf_iff] at holds
    exact holds
  have stored (o : Observed) (recorded : Recorded records file line o) (width : o.conditions.length = n) :
      ∃ hits, (o, hits) ∈ (ofWidth (observationsOf (Coverage.run records).held file line) n).entries := by
    have holds := (contains_ofWidth_iff _ n o).mpr ⟨(contains_observationsOf_iff records file line o).mpr recorded, width⟩
    obtain ⟨hits, found⟩ := (OrderedMap.contains_iff _ o).mp holds
    exact ⟨hits, OrderedMap.mem_entries_iff.mpr found⟩
  have covered : ReportedCovered (Coverage.run records).report file line index ↔
      coveredBy index (ofWidth (observationsOf (Coverage.run records).held file line) n).entries = true := by
    rw [ReportedCovered, mcdcAt_report, mcdcCoverage_eq, conditionCount_run widest, if_neg (Nat.not_lt.mpr wide)]
    constructor
    · rintro ⟨mcdc, same, listed⟩
      cases same
      obtain ⟨other, _, equal⟩ := List.mem_map.mp listed
      obtain ⟨rfl, holds⟩ := ConditionMcdcCoverage.mk.inj equal
      exact holds
    · intro holds
      refine ⟨_, rfl, List.mem_map.mpr ⟨index, List.mem_range.mpr inside, ?_⟩⟩
      rw [holds]
  rw [covered, coveredBy_iff fun e inside => (member e inside).2]
  constructor
  · rintro ⟨a, insideA, b, insideB, shown⟩
    exact ⟨a.1, b.1, (member a insideA).1, (member b insideB).1, (member a insideA).2, (member b insideB).2, shown⟩
  · rintro ⟨a, b, recordedA, recordedB, widthA, widthB, shown⟩
    obtain ⟨hitsA, insideA⟩ := stored a recordedA widthA
    obtain ⟨hitsB, insideB⟩ := stored b recordedB widthB
    exact ⟨_, insideA, _, insideB, shown⟩

/-- Merged collectors report what one collector of all records reports, and so do the observations of the single reports. A
condition of a compound decision is covered when two widest observations show its effect. -/
theorem coverage_aggregates {parts : List (List Record)} {c : Coverage} {records : List Record}
    (merged : Coverage.Merged parts c) (dealt : (parts.flatMap (attributed "")).Perm (attributed "" records)) :
    c.report = (Coverage.run records).report ∧
      ∀ file line,
        (∀ observations, observations.Perm
            (parts.flatMap fun records => observationsAt (Coverage.run records).report file line) →
          McdcCoverage.fromObservations observations = mcdcAt c.report file line) ∧
        ∀ n, Widest records file line n →
          (n < 2 → mcdcAt c.report file line = none) ∧
          (2 ≤ n → ∀ index, index < n →
            (ReportedCovered c.report file line index ↔
              ∃ a b, Recorded records file line a ∧ Recorded records file line b ∧ a.conditions.length = n ∧
                b.conditions.length = n ∧ ShowEffect index a b)) := by
  have same := Coverage.report_merged merged dealt
  refine ⟨same, fun file line => ⟨?_, ?_⟩⟩
  · intro observations concatenated
    exact fromObservations_merged merged file line concatenated
  · intro n widest
    rw [same]
    constructor
    · exact mcdcAt_narrow widest
    · intro wide index inside
      exact reportedCovered_iff widest wide inside

/-! ## Examples -/

theorem coverage_aggregates_two :
    let left : List Record := [.currentFile "a.al", .condition 7 [false, true] false, .statement 7]
    let right : List Record := [.currentFile "a.al", .condition 7 [true, true] true]
    ((Coverage.run right).merge (Coverage.run left)).report = (Coverage.run (left ++ right)).report := by
  intro left right
  apply (coverage_aggregates (.both (.one right) (.one left)) _).1
  exact List.perm_append_comm

/-- A decision of one condition has no result, also when its condition decides the outcome. -/
theorem single_condition_unreported :
    let records : List Record :=
      [.currentFile "a.al", .condition 7 [true] true, .condition 7 [false] false]
    mcdcAt (Coverage.run records).report "a.al" 7 = none ∧ Widest records "a.al" 7 1 ∧
      ShowEffect 0 ⟨[true], true⟩ ⟨[false], false⟩ := by
  refine ⟨by decide +kernel, ⟨⟨⟨[true], true⟩, ⟨?_, by decide⟩, rfl⟩, ?_⟩, by decide, by decide, ?_⟩
  · exact List.mem_cons_self
  · intro o recorded
    rcases List.mem_cons.mp recorded.1 with same | later
    · obtain ⟨_, same⟩ := Prod.mk.inj same
      rw [(Record.condition.inj same).2.1]
      exact Nat.le_refl 1
    · obtain ⟨_, same⟩ := Prod.mk.inj (List.mem_singleton.mp later)
      rw [(Record.condition.inj same).2.1]
      exact Nat.le_refl 1
  · intro other different
    have behind : 1 ≤ other := Nat.one_le_iff_ne_zero.mpr different
    rw [List.getElem?_eq_none behind, List.getElem?_eq_none behind]

end AlLanguage.Runtime
