import AlLanguage.Library.Threads
import AlLanguage.Source.FreshIndex

/-!
# Lookups while a file is re-indexed

One update of one file and any number of lookups, one access to one map at a time.
-/

namespace AlLanguage.Source

open Library OrderedMap Threads AlLanguage.Runtime

variable {τ : Type}

/-! ## Steps -/

inductive FileEdit (τ : Type) where
  | addFile (path : FilePath) (content : String) (metadata : Option FileMetadata) (now : Nat)
  | addFileWithTree (path : FilePath) (content : String) (tree : τ)

/-- A lookup by name takes the owners out of the map in one access. -/
inductive Lookup where
  | object (name : String)
  | procedure (name : String)
  | parse (path : FilePath)

/-- Where an update or a lookup is. -/
inductive Visit (τ : Type) where
  | stamping (file : HeldFile τ) (writes : List (IndexWrite τ))
  | recallingObjects (file : HeldFile τ)
  | recallingProcedures (file : HeldFile τ) (oldObjects : List String)
  | planning (file : HeldFile τ) (oldObjects oldProcedures : List String)
  | indexing (path : FilePath) (oldObjects oldProcedures : List String) (writes : List (IndexWrite τ))
  | droppingObjects (path : FilePath) (oldProcedures : List String) (writes : List (IndexWrite τ))
  | droppingProcedures (writes : List (IndexWrite τ))
  | indexed
  | lookingUp (lookup : Lookup)
  | foundObject (name : String) (owners : Option (List ObjectEntry))
  | foundProcedure (name : String) (infos : Option (List CachedProcedureInfo))
  | foundParse (path : FilePath) (pair : Option (String × τ))
  | idle

/-- What a lookup of another file remembers about the apps. -/
inductive Memo where
  | root (dir : FilePath)
  | identity (root : FilePath)

section Steps

variable [CaseMapping] [AppFiles] [AlSyntax τ]

namespace FileEdit

def file : FileEdit τ → HeldFile τ
  | addFile path content _ _ => ⟨path, content, AlSyntax.parseQuick content⟩
  | addFileWithTree path content tree => ⟨path, content, tree⟩

def start : FileEdit τ → Visit τ
  | addFile path content metadata now =>
    .stamping ⟨path, content, AlSyntax.parseQuick content⟩ (FileIndex.metadataWrites path metadata now)
  | addFileWithTree path content tree => .recallingObjects ⟨path, content, tree⟩

def apply (index : FileIndex τ) : FileEdit τ → FileIndex τ
  | addFile path content metadata now => index.addFile path content metadata now
  | addFileWithTree path content tree => index.addFileWithTree path content tree

end FileEdit

namespace FileIndex

def next (index : FileIndex τ) : Visit τ → FileIndex τ × Visit τ
  | .stamping file (write :: writes) => (write.apply index, .stamping file writes)
  | .stamping file [] => (index, .recallingObjects file)
  | .recallingObjects file => (index, .recallingProcedures file (index.objectsSnapshot file.path))
  | .recallingProcedures file oldObjects => (index, .planning file oldObjects (index.proceduresSnapshot file.path))
  | .planning file oldObjects oldProcedures =>
    (index, .indexing file.path oldObjects oldProcedures (index.indexWrites file.path file.content file.tree))
  | .indexing path oldObjects oldProcedures (write :: writes) =>
    (write.apply index, .indexing path oldObjects oldProcedures writes)
  | .indexing path oldObjects oldProcedures [] =>
    let newObjects := index.objectsSnapshot path
    (index, .droppingObjects path oldProcedures (removeObjectsWrites (oldObjects.filter (· ∉ newObjects)) path))
  | .droppingObjects path oldProcedures (write :: writes) => (write.apply index, .droppingObjects path oldProcedures writes)
  | .droppingObjects path oldProcedures [] =>
    let newProcedures := index.proceduresSnapshot path
    (index, .droppingProcedures (removeProceduresWrites (oldProcedures.filter (· ∉ newProcedures)) path))
  | .droppingProcedures (write :: writes) => (write.apply index, .droppingProcedures writes)
  | .droppingProcedures [] => (index, .indexed)
  | .lookingUp (.object name) => (index, .foundObject name (index.objects.get? (toLowercase name)))
  | .lookingUp (.procedure name) => (index, .foundProcedure name (index.lookupProcedures name))
  | .lookingUp (.parse path) => (index, .foundParse path (index.getCachedParse path))
  | visit => (index, visit)

omit [CaseMapping] [AlSyntax τ] in
def remember (index : FileIndex τ) : Memo → FileIndex τ
  | .root dir => { index with dirAppRoot := index.dirAppRoot.insert dir (nearestRoot dir) }
  | .identity root => { index with apps := index.apps.insert root (AppFiles.readIdentity root) }

end FileIndex

def Visit.rests : Visit τ → Bool
  | .foundObject .. | .foundProcedure .. | .foundParse .. | .indexed | .idle => true
  | _ => false

def reindexing : System (FileIndex τ) (Visit τ) Lookup Memo where
  next := FileIndex.next
  rests := Visit.rests
  start := .lookingUp
  environment := FileIndex.remember

/-- The update in thread 0, and every other thread free for lookups. -/
def editing (index : FileIndex τ) (edit : FileEdit τ) : World (FileIndex τ) (Visit τ) where
  shared := index
  threads := Function.update (fun _ => .idle) 0 edit.start

/-! ## The update alone -/

namespace FileIndex

omit [CaseMapping] [AppFiles] [AlSyntax τ]

def dropOldProcedures (index : FileIndex τ) (path : FilePath) (oldProcedures : List String) : FileIndex τ :=
  index.writeAll (removeProceduresWrites (oldProcedures.filter (· ∉ index.proceduresSnapshot path)) path)

def dropOld (index : FileIndex τ) (path : FilePath) (oldObjects oldProcedures : List String) : FileIndex τ :=
  (index.writeAll (removeObjectsWrites (oldObjects.filter (· ∉ index.objectsSnapshot path)) path)).dropOldProcedures path
    oldProcedures

end FileIndex

/-- What the update has still to do to the index. -/
def FileIndex.finish (index : FileIndex τ) : Visit τ → FileIndex τ
  | .stamping file writes => (index.writeAll writes).replaceFileEntries file.path file.content file.tree
  | .recallingObjects file => index.replaceFileEntries file.path file.content file.tree
  | .recallingProcedures file oldObjects =>
    (index.indexFromResult file.path file.content file.tree).dropOld file.path oldObjects (index.proceduresSnapshot file.path)
  | .planning file oldObjects oldProcedures =>
    (index.indexFromResult file.path file.content file.tree).dropOld file.path oldObjects oldProcedures
  | .indexing path oldObjects oldProcedures writes => (index.writeAll writes).dropOld path oldObjects oldProcedures
  | .droppingObjects path oldProcedures writes => (index.writeAll writes).dropOldProcedures path oldProcedures
  | .droppingProcedures writes => index.writeAll writes
  | _ => index

/-- A step leaves less of the update to be done and the same result. -/
theorem finish_next (index : FileIndex τ) (visit : Visit τ) :
    (index.next visit).1.finish (index.next visit).2 = index.finish visit := by
  cases visit with
  | stamping file writes => cases writes <;> rfl
  | indexing path oldObjects oldProcedures writes => cases writes <;> rfl
  | droppingObjects path oldProcedures writes => cases writes <;> rfl
  | droppingProcedures writes => cases writes <;> rfl
  | lookingUp lookup => cases lookup <;> rfl
  | _ => rfl

theorem finish_start (index : FileIndex τ) (edit : FileEdit τ) : index.finish edit.start = edit.apply index := by
  cases edit <;> rfl

/-- An update that has come to its end without others has done what the operation does. -/
theorem run_alone (index : FileIndex τ) (edit : FileEdit τ) (n : Nat) :
    let world := Machine.run reindexing.after (editing index edit) (List.replicate n (.step 0))
    world.shared.finish (world.threads 0) = edit.apply index := by
  have preserved : ∀ (n : Nat) (world : World (FileIndex τ) (Visit τ)),
      let after := Machine.run reindexing.after world (List.replicate n (.step 0))
      after.shared.finish (after.threads 0) = world.shared.finish (world.threads 0) := by
    intro n
    induction n with
    | zero => exact fun _ => rfl
    | succ n ih =>
        intro world
        have later := ih (reindexing.after world (.step 0))
        rw [List.replicate_succ, Machine.run_cons]
        refine later.trans ?_
        have stepped := finish_next world.shared (world.threads 0)
        simpa [System.after, reindexing] using stepped
  have begun : (editing index edit).shared.finish ((editing index edit).threads 0) = edit.apply index := by
    simpa [editing] using finish_start index edit
  exact (preserved n _).trans begun

/-! ## Two generations of one file -/

/-- What belongs to the file is what it declared before or what it declares now. -/
def OneGeneration {α : Type} (owner : α → FilePath) (path : FilePath) (before now found : List α) : Prop :=
  found.filter (owner · = path) = before ∨ found.filter (owner · = path) = now

section Generations

variable (held : Held τ) (before new : HeldFile τ)

/-- A change that puts declarations of the new generation under a name or clears a name that the file no longer declares. -/
def Harmless : IndexWrite τ → Prop
  | .rememberRoot dir root => root = nearestRoot dir
  | .cacheTree path content tree => path = new.path ∧ content = new.content ∧ tree = new.tree
  | .dropTree _ => False
  | .swapObject name path entries => path = new.path ∧ entries = itemsNamed name new.objects
  | .removeOwnedObjectMapping name path => path = new.path ∧ name ∉ names new.objects
  | .swapProcedure name path infos => path = new.path ∧ infos = itemsNamed name new.procedures
  | .removeOwnedProcedure name path => path = new.path ∧ name ∉ names new.procedures
  | _ => True

omit [CaseMapping] [AppFiles] [AlSyntax τ] in
/-- A pair of a file that the index held, or of the new generation. -/
def PairedHeld (path : FilePath) (pair : Option (String × τ)) : Prop :=
  pair = (held.at path).map (fun file => (file.content, file.tree)) ∨
    path = new.path ∧ pair = some (new.content, new.tree)

def ObjectSeen (name : String) (owners : Option (List ObjectEntry)) : Prop :=
  name ∈ names before.objects → name ∈ names new.objects →
    OneGeneration (·.path) new.path (itemsNamed name before.objects) (itemsNamed name new.objects) (owners.getD [])

def ProcedureSeen (name : String) (infos : Option (List CachedProcedureInfo)) : Prop :=
  name ∈ names before.procedures → name ∈ names new.procedures →
    OneGeneration (·.file) new.path (itemsNamed name before.procedures) (itemsNamed name new.procedures) (infos.getD [])

/-- No name shows two generations of the file. -/
structure InStep (index : FileIndex τ) : Prop where
  roots : ∀ dir root, index.dirAppRoot.get? dir = some root → root = nearestRoot dir
  objects : ∀ name, ObjectSeen before new name (index.objects.get? name)
  procedures : ∀ name, ProcedureSeen before new name (index.procedures.get? name)
  parses : ∀ path, PairedHeld held new path (index.fileTrees.get? path)

end Generations

section Generations

variable {held : Held τ} {before new : HeldFile τ}

omit [CaseMapping] [AppFiles] [AlSyntax τ] in
theorem filter_swapped {α : Type} {owner : α → FilePath} {path : FilePath} (others : List α) {items : List α}
    (own : ∀ a ∈ items, owner a = path) :
    (others.filter (fun a => !decide (owner a = path)) ++ items).filter (owner · = path) = items := by
  have gone : (others.filter fun a => !decide (owner a = path)).filter (owner · = path) = [] := by
    simp [List.filter_filter]
  have kept : items.filter (owner · = path) = items := by
    rw [List.filter_eq_self]
    exact fun a member => decide_eq_true (own a member)
  rw [List.filter_append, gone, kept, List.nil_append]

theorem InStep.apply {index : FileIndex τ} (inStep : InStep held before new index) {write : IndexWrite τ}
    (harmless : Harmless new write) : InStep held before new (write.apply index) := by
  obtain ⟨roots, objects, procedures, parses⟩ := inStep
  cases write with
  | rememberRoot dir root =>
      refine ⟨?_, objects, procedures, parses⟩
      intro other found stored
      rw [IndexWrite.apply, get?_insert] at stored
      split at stored
      next same =>
        obtain rfl := Std.LawfulEqCmp.eq_of_compare same
        rw [← Option.some.inj stored]
        exact harmless
      next => exact roots other found stored
  | cacheTree path content tree =>
      obtain ⟨rfl, rfl, rfl⟩ := harmless
      refine ⟨roots, objects, procedures, ?_⟩
      intro path
      rw [IndexWrite.apply, get?_insert]
      split
      next same =>
        obtain rfl := Std.LawfulEqCmp.eq_of_compare same
        exact .inr ⟨rfl, rfl⟩
      next => exact parses path
  | dropTree path => exact harmless.elim
  | swapObject name path entries =>
      obtain ⟨rfl, rfl⟩ := harmless
      refine ⟨roots, ?_, procedures, parses⟩
      intro other declared declares
      rw [IndexWrite.apply, get?_swapOwned]
      split
      next same =>
        subst same
        exact .inr (filter_swapped _ (own_objects name new))
      next => exact objects other declared declares
  | removeOwnedObjectMapping name path =>
      obtain ⟨rfl, gone⟩ := harmless
      refine ⟨roots, ?_, procedures, parses⟩
      intro other declared declares
      have apart : name ≠ other := by
        rintro rfl
        exact gone declares
      rw [IndexWrite.apply, get?_removeOwned, if_neg apart]
      exact objects other declared declares
  | swapProcedure name path infos =>
      obtain ⟨rfl, rfl⟩ := harmless
      refine ⟨roots, objects, ?_, parses⟩
      intro other declared declares
      rw [IndexWrite.apply, get?_swapOwned]
      split
      next same =>
        subst same
        exact .inr (filter_swapped _ (own_procedures name new))
      next => exact procedures other declared declares
  | removeOwnedProcedure name path =>
      obtain ⟨rfl, gone⟩ := harmless
      refine ⟨roots, objects, ?_, parses⟩
      intro other declared declares
      have apart : name ≠ other := by
        rintro rfl
        exact gone declares
      rw [IndexWrite.apply, get?_removeOwned, if_neg apart]
      exact procedures other declared declares
  | _ => exact ⟨roots, objects, procedures, parses⟩

theorem InStep.remember {index : FileIndex τ} (inStep : InStep held before new index) (memo : Memo) :
    InStep held before new (index.remember memo) := by
  cases memo with
  | root dir =>
      have right : Harmless new (.rememberRoot dir (nearestRoot dir)) := rfl
      exact inStep.apply right
  | identity root => exact ⟨inStep.roots, inStep.objects, inStep.procedures, inStep.parses⟩

/-! ## The plan of the update -/

theorem harmless_metadataWrites (path : FilePath) (metadata : Option FileMetadata) (now : Nat) :
    ∀ write ∈ (FileIndex.metadataWrites path metadata now : List (IndexWrite τ)), Harmless new write := by
  cases metadata with
  | none => simp [FileIndex.metadataWrites]
  | some metadata =>
      intro write member
      rw [FileIndex.metadataWrites] at member
      rcases List.mem_cons.mp member with rfl | second
      · split <;> trivial
      · rw [List.mem_singleton.mp second]
        trivial

theorem harmless_indexWrites {index : FileIndex τ}
    (roots : ∀ dir root, index.dirAppRoot.get? dir = some root → root = nearestRoot dir) :
    ∀ write ∈ index.indexWrites new.path new.content new.tree, Harmless new write := by
  obtain ⟨root, visited⟩ := searchRootOf_found roots new.path
  have entries : index.entriesOf new = new.objects := by rw [FileIndex.entriesOf, root, HeldFile.objects]
  intro write member
  rcases List.mem_cons.mp member with rfl | member
  · exact ⟨rfl, rfl, rfl⟩
  rcases List.mem_append.mp member with member | last
  rcases List.mem_append.mp member with object | procedure
  · rw [FileIndex.objectWrites] at object
    split at object
    next =>
      simp only [List.mem_cons, List.not_mem_nil, or_false] at object
      rcases object with rfl | rfl | rfl <;> trivial
    next info rest found =>
      have declared : declaredObjects new.path (index.searchRootOf new.path).2 (info :: rest) = new.objects := by
        rw [← entries, FileIndex.entriesOf, HeldFile.infos, found]
      rw [declared] at object
      rcases List.mem_append.mp object with object | recorded
      rcases List.mem_append.mp object with remembered | swapped
      · obtain ⟨dir, inside, rfl⟩ := List.mem_map.mp remembered
        exact (visited dir inside).symm
      · obtain ⟨named, inside, rfl⟩ := List.mem_map.mp swapped
        exact ⟨rfl, (slots_groupNamed new.objects).2.2 named inside⟩
      · simp only [List.mem_cons, List.not_mem_nil, or_false] at recorded
        rcases recorded with rfl | rfl | rfl <;> trivial
  · rw [FileIndex.procedureWrites] at procedure
    rcases List.mem_append.mp procedure with swapped | recorded
    · obtain ⟨named, inside, rfl⟩ := List.mem_map.mp swapped
      exact ⟨rfl, (slots_groupNamed new.procedures).2.2 named inside⟩
    · rw [List.mem_singleton.mp recorded]
      split <;> trivial
  · simp only [List.mem_cons, List.not_mem_nil, or_false] at last
    rcases last with rfl | rfl <;> trivial

/-- The recorded names are those of the new generation once the changes are made. -/
def Recorded (new : HeldFile τ) (index : FileIndex τ) : Prop :=
  index.objectsSnapshot new.path = names new.objects ∧ index.proceduresSnapshot new.path = names new.procedures

theorem recorded_indexWrites {index : FileIndex τ}
    (roots : ∀ dir root, index.dirAppRoot.get? dir = some root → root = nearestRoot dir) :
    Recorded new (index.writeAll (index.indexWrites new.path new.content new.tree)) := by
  have root := (searchRootOf_found roots new.path).1
  have entries : index.entriesOf new = new.objects := by rw [FileIndex.entriesOf, root, HeldFile.objects]
  have objects := FileIndex.objectsSnapshot_indexed index new
  rw [entries] at objects
  exact ⟨objects, FileIndex.proceduresSnapshot_indexed index new⟩

theorem harmless_removeObjects (old : List String) :
    ∀ write ∈ (FileIndex.removeObjectsWrites (old.filter (· ∉ names new.objects)) new.path : List (IndexWrite τ)),
      Harmless new write := by
  intro write member
  obtain ⟨name, inside, rfl⟩ := List.mem_map.mp member
  exact ⟨rfl, by simpa using (List.mem_filter.mp inside).2⟩

theorem harmless_removeProcedures (old : List String) :
    ∀ write ∈ (FileIndex.removeProceduresWrites (old.filter (· ∉ names new.procedures)) new.path : List (IndexWrite τ)),
      Harmless new write := by
  intro write member
  obtain ⟨name, inside, rfl⟩ := List.mem_map.mp member
  exact ⟨rfl, by simpa using (List.mem_filter.mp inside).2⟩

omit [CaseMapping] [AppFiles] [AlSyntax τ] in
/-- What is remembered about the apps does not change what is recorded. -/
theorem snapshots_remember (writes : List (IndexWrite τ)) {index index' : FileIndex τ}
    (objects : index'.pathToObject = index.pathToObject) (procedures : index'.pathToProcedures = index.pathToProcedures) :
    (index'.writeAll writes).pathToObject = (index.writeAll writes).pathToObject ∧
      (index'.writeAll writes).pathToProcedures = (index.writeAll writes).pathToProcedures := by
  induction writes generalizing index index' with
  | nil => exact ⟨objects, procedures⟩
  | cons write rest ih =>
      apply ih
      · cases write <;> simp only [IndexWrite.apply, objects]
      · cases write <;> simp only [IndexWrite.apply, procedures]

/-! ## The run -/

/-- Where the update is, and that what it will still do is harmless. -/
def OnTrack (new : HeldFile τ) (index : FileIndex τ) : Visit τ → Prop
  | .stamping file writes => file = new ∧ ∀ write ∈ writes, Harmless new write
  | .recallingObjects file | .recallingProcedures file _ | .planning file _ _ => file = new
  | .indexing path _ _ writes =>
    path = new.path ∧ (∀ write ∈ writes, Harmless new write) ∧ Recorded new (index.writeAll writes)
  | .droppingObjects path _ writes =>
    path = new.path ∧ (∀ write ∈ writes, Harmless new write) ∧
      (index.writeAll writes).proceduresSnapshot new.path = names new.procedures
  | .droppingProcedures writes => ∀ write ∈ writes, Harmless new write
  | _ => True

/-- What a lookup has found. -/
def Answered (held : Held τ) (before new : HeldFile τ) : Visit τ → Prop
  | .foundObject name owners => ObjectSeen before new (toLowercase name) owners
  | .foundProcedure name infos => ProcedureSeen before new (toLowercase name) infos
  | .foundParse path pair => PairedHeld held new path pair
  | _ => True

def Visit.updates : Visit τ → Bool
  | .stamping .. | .recallingObjects .. | .recallingProcedures .. | .planning .. | .indexing .. | .droppingObjects ..
  | .droppingProcedures .. => true
  | _ => false

theorem next_reader (index : FileIndex τ) {visit : Visit τ} (reads : visit.updates = false) :
    (index.next visit).1 = index ∧ (index.next visit).2.updates = false := by
  cases visit with
  | lookingUp lookup => cases lookup <;> exact ⟨rfl, rfl⟩
  | foundObject name owners => exact ⟨rfl, rfl⟩
  | foundProcedure name infos => exact ⟨rfl, rfl⟩
  | foundParse path pair => exact ⟨rfl, rfl⟩
  | indexed => exact ⟨rfl, rfl⟩
  | idle => exact ⟨rfl, rfl⟩
  | _ => cases reads

theorem answered_next {index : FileIndex τ} (inStep : InStep held before new index) {visit : Visit τ}
    (answered : Answered held before new visit) : Answered held before new (index.next visit).2 := by
  cases visit with
  | lookingUp lookup =>
      cases lookup with
      | object name => exact inStep.objects (toLowercase name)
      | procedure name => exact inStep.procedures (toLowercase name)
      | parse path => exact inStep.parses path
  | stamping file writes => cases writes <;> trivial
  | indexing path oldObjects oldProcedures writes => cases writes <;> trivial
  | droppingObjects path oldProcedures writes => cases writes <;> trivial
  | droppingProcedures writes => cases writes <;> trivial
  | recallingObjects file => trivial
  | recallingProcedures file oldObjects => trivial
  | planning file oldObjects oldProcedures => trivial
  | _ => exact answered

theorem onTrack_next {index : FileIndex τ} (inStep : InStep held before new index) {visit : Visit τ}
    (onTrack : OnTrack new index visit) :
    InStep held before new (index.next visit).1 ∧ OnTrack new (index.next visit).1 (index.next visit).2 := by
  cases visit with
  | stamping file writes =>
      cases writes with
      | nil => exact ⟨inStep, onTrack.1⟩
      | cons write rest =>
          obtain ⟨same, harmless⟩ := onTrack
          exact ⟨inStep.apply (harmless write List.mem_cons_self),
            same, fun other member => harmless other (List.mem_cons_of_mem _ member)⟩
  | recallingObjects file => exact ⟨inStep, onTrack⟩
  | recallingProcedures file oldObjects => exact ⟨inStep, onTrack⟩
  | planning file oldObjects oldProcedures =>
      obtain rfl : file = new := onTrack
      exact ⟨inStep, rfl, harmless_indexWrites inStep.roots, recorded_indexWrites inStep.roots⟩
  | indexing path oldObjects oldProcedures writes =>
      obtain ⟨rfl, harmless, recorded⟩ := onTrack
      cases writes with
      | nil =>
          have objects : index.objectsSnapshot new.path = names new.objects := recorded.1
          refine ⟨inStep, rfl, ?_, ?_⟩
          · rw [objects]
            exact harmless_removeObjects oldObjects
          · rw [FileIndex.writeAll_removeObjects]
            exact recorded.2
      | cons write rest =>
          exact ⟨inStep.apply (harmless write List.mem_cons_self),
            rfl, fun other member => harmless other (List.mem_cons_of_mem _ member), recorded⟩
  | droppingObjects path oldProcedures writes =>
      obtain ⟨rfl, harmless, recorded⟩ := onTrack
      cases writes with
      | nil =>
          have procedures : index.proceduresSnapshot new.path = names new.procedures := recorded
          refine ⟨inStep, ?_⟩
          simp only [FileIndex.next, procedures]
          exact harmless_removeProcedures oldProcedures
      | cons write rest =>
          exact ⟨inStep.apply (harmless write List.mem_cons_self),
            rfl, fun other member => harmless other (List.mem_cons_of_mem _ member), recorded⟩
  | droppingProcedures writes =>
      cases writes with
      | nil => exact ⟨inStep, trivial⟩
      | cons write rest =>
          exact ⟨inStep.apply (onTrack write List.mem_cons_self),
            fun other member => onTrack other (List.mem_cons_of_mem _ member)⟩
  | lookingUp lookup => cases lookup <;> exact ⟨inStep, trivial⟩
  | _ => exact ⟨inStep, trivial⟩

theorem onTrack_remember {index : FileIndex τ} {visit : Visit τ} (onTrack : OnTrack new index visit) (memo : Memo) :
    OnTrack new (index.remember memo) visit := by
  have same (writes : List (IndexWrite τ)) :
      ((index.remember memo).writeAll writes).pathToObject = (index.writeAll writes).pathToObject ∧
        ((index.remember memo).writeAll writes).pathToProcedures = (index.writeAll writes).pathToProcedures := by
    apply snapshots_remember <;> cases memo <;> rfl
  cases visit with
  | indexing path oldObjects oldProcedures writes =>
      obtain ⟨path, harmless, objects, procedures⟩ := onTrack
      refine ⟨path, harmless, ?_, ?_⟩
      · rw [FileIndex.objectsSnapshot, (same writes).1]
        exact objects
      · rw [FileIndex.proceduresSnapshot, (same writes).2]
        exact procedures
  | droppingObjects path oldProcedures writes =>
      obtain ⟨path, harmless, procedures⟩ := onTrack
      refine ⟨path, harmless, ?_⟩
      rw [FileIndex.proceduresSnapshot, (same writes).2]
      exact procedures
  | _ => exact onTrack

/-- The update in thread 0 is on its way, and the other threads only read. -/
def Underway (held : Held τ) (before new : HeldFile τ) (world : World (FileIndex τ) (Visit τ)) : Prop :=
  InStep held before new world.shared ∧ OnTrack new world.shared (world.threads 0) ∧
    ∀ t, Answered held before new (world.threads t) ∧ (t ≠ 0 → (world.threads t).updates = false)

theorem Underway.step {world : World (FileIndex τ) (Visit τ)} (underway : Underway held before new world) (t : Nat) :
    Underway held before new (reindexing.after world (.step t)) := by
  obtain ⟨inStep, onTrack, readers⟩ := underway
  have after : reindexing.after world (.step t) =
      ({ world with shared := (world.shared.next (world.threads t)).1 } : World _ _).goto t
        (world.shared.next (world.threads t)).2 := rfl
  have others : ∀ u, Answered held before new ((reindexing.after world (.step t)).threads u) ∧
      (u ≠ 0 → ((reindexing.after world (.step t)).threads u).updates = false) := by
    intro u
    rw [after]
    by_cases same : u = t
    · subst same
      rw [World.goto_self]
      exact ⟨answered_next inStep (readers u).1, fun reader => (next_reader _ ((readers u).2 reader)).2⟩
    · rw [World.goto_other _ same]
      exact readers u
  by_cases writer : t = 0
  · subst writer
    obtain ⟨kept, ahead⟩ := onTrack_next inStep onTrack
    refine ⟨kept, ?_, others⟩
    rw [after, World.goto_self]
    exact ahead
  · have unchanged := (next_reader world.shared ((readers t).2 writer)).1
    have shared : (reindexing.after world (.step t)).shared = world.shared := unchanged
    refine ⟨shared ▸ inStep, ?_, others⟩
    rw [shared, after, World.goto_other _ (Ne.symm writer)]
    exact onTrack

theorem Underway.after {world : World (FileIndex τ) (Visit τ)} (underway : Underway held before new world)
    (action : Action Lookup Memo) : Underway held before new (reindexing.after world action) := by
  cases action with
  | step t => exact underway.step t
  | start t lookup =>
      obtain ⟨inStep, onTrack, readers⟩ := underway
      rw [System.after]
      split
      next =>
        refine ⟨inStep, ?_, ?_⟩
        · by_cases writer : 0 = t
          · subst writer
            rw [World.goto_self]
            trivial
          · rw [World.goto_other _ writer]
            exact onTrack
        · intro u
          by_cases same : u = t
          · subst same
            rw [World.goto_self]
            exact ⟨trivial, fun _ => rfl⟩
          · rw [World.goto_other _ same]
            exact readers u
      next => exact ⟨inStep, onTrack, readers⟩
  | environment memo =>
      obtain ⟨inStep, onTrack, readers⟩ := underway
      exact ⟨inStep.remember memo, onTrack_remember onTrack memo, readers⟩

omit [CaseMapping] [AppFiles] [AlSyntax τ] in
theorem filter_flatMap_at {α : Type} {items : HeldFile τ → List α} {owner : α → FilePath}
    (own : ∀ file, ∀ a ∈ items file, owner a = file.path) (distinct : held.Pairwise fun a b => a.path ≠ b.path)
    {path : FilePath} (found : held.at path = some before) :
    (held.flatMap items).filter (owner · = path) = items before := by
  induction held with
  | nil => cases found
  | cons file rest ih =>
      obtain ⟨apart, tail⟩ := List.pairwise_cons.mp distinct
      rw [List.flatMap_cons, List.filter_append]
      by_cases same : file.path = path
      · have here : file = before := by simpa [Held.at, same] using found
        subst here
        have kept : (items file).filter (owner · = path) = items file := by
          rw [List.filter_eq_self]
          intro a member
          simp [own file a member, same]
        have none : (rest.flatMap items).filter (owner · = path) = [] := by
          rw [List.filter_eq_nil_iff]
          intro a member mine
          obtain ⟨other, inside, declared⟩ := List.mem_flatMap.mp member
          have its := (own other a declared).symm.trans (of_decide_eq_true mine)
          exact apart other inside (same.trans its.symm)
        rw [kept, none, List.append_nil]
      · have later : Held.at rest path = some before := by simpa [Held.at, same] using found
        have none : (items file).filter (owner · = path) = [] := by
          rw [List.filter_eq_nil_iff]
          intro a member mine
          exact same ((own file a member).symm.trans (of_decide_eq_true mine))
        rw [none, List.nil_append]
        exact ih tail later

theorem underway_editing {index : FileIndex τ} (holds : HoldsFiles index held) (edit : FileEdit τ)
    (found : held.at edit.file.path = some before) : Underway held before edit.file (editing index edit) := by
  refine ⟨⟨holds.dirAppRoot, ?_, ?_, ?_⟩, ?_, ?_⟩
  · intro name _ _
    left
    rw [editing, holds.objects, getD_nonempty]
    exact filter_flatMap_at (own_objects name) holds.distinct found
  · intro name _ _
    left
    rw [editing, holds.procedures, getD_nonempty]
    exact filter_flatMap_at (own_procedures name) holds.distinct found
  · intro path
    left
    rw [editing, holds.fileTrees]
    cases held.at path <;> rfl
  · have begun : OnTrack edit.file index edit.start := by
      cases edit with
      | addFile path content metadata now => exact ⟨rfl, harmless_metadataWrites path metadata now⟩
      | addFileWithTree path content tree => rfl
    simpa [editing] using begun
  · intro t
    by_cases writer : t = 0
    · subst writer
      refine ⟨?_, fun reader => absurd rfl reader⟩
      cases edit <;> simp [editing, FileEdit.start, Answered]
    · simp [editing, writer, Answered, Visit.updates]

/-- A name that the file declares before and after the update shows one generation of the file, and a tree comes with
its text. -/
def Promised (held : Held τ) (before new : HeldFile τ) : Visit τ → Prop
  | .foundObject name owners =>
    toLowercase name ∈ names before.objects → toLowercase name ∈ names new.objects →
      let mine := (owners.getD []).filter (·.path = new.path)
      mine ≠ [] ∧ (mine = itemsNamed (toLowercase name) before.objects ∨ mine = itemsNamed (toLowercase name) new.objects)
  | .foundProcedure name infos =>
    toLowercase name ∈ names before.procedures → toLowercase name ∈ names new.procedures →
      let mine := (infos.getD []).filter (·.file = new.path)
      mine ≠ [] ∧
        (mine = itemsNamed (toLowercase name) before.procedures ∨ mine = itemsNamed (toLowercase name) new.procedures)
  | .foundParse path pair =>
    PairedHeld held new path pair ∧ ∀ content tree, pair = some (content, tree) → Corresponds tree content
  | _ => True

theorem reindexing_promised {index : FileIndex τ} (reaches : Reaches index held) (edit : FileEdit τ)
    (corresponds : Corresponds edit.file.tree edit.file.content) (found : held.at edit.file.path = some before)
    (actions : List (Action Lookup Memo)) (t : Nat) :
    Promised held before edit.file ((Machine.run reindexing.after (editing index edit) actions).threads t) := by
  have preserved : ∀ (world : World (FileIndex τ) (Visit τ)) (action : Action Lookup Memo),
      Underway held before edit.file world → Underway held before edit.file (reindexing.after world action) :=
    fun world action underway => underway.after action
  have underway := Machine.run_invariant preserved (underway_editing reaches.holdsFiles edit found) actions
  have answered := (underway.2.2 t).1
  generalize (Machine.run reindexing.after (editing index edit) actions).threads t = visit at answered ⊢
  cases visit with
  | foundObject name owners =>
      intro declared declares
      have seen := answered declared declares
      refine ⟨?_, seen⟩
      rcases seen with old | now
      · rw [old, Ne, itemsNamed_eq_nil_iff]
        exact not_not_intro declared
      · rw [now, Ne, itemsNamed_eq_nil_iff]
        exact not_not_intro declares
  | foundProcedure name infos =>
      intro declared declares
      have seen := answered declared declares
      refine ⟨?_, seen⟩
      rcases seen with old | now
      · rw [old, Ne, itemsNamed_eq_nil_iff]
        exact not_not_intro declared
      · rw [now, Ne, itemsNamed_eq_nil_iff]
        exact not_not_intro declares
  | foundParse path pair =>
      refine ⟨answered, ?_⟩
      rintro content tree rfl
      rcases answered with old | ⟨rfl, now⟩
      · obtain ⟨file, there, same⟩ := Option.map_eq_some_iff.mp old.symm
        cases same
        exact reaches.corresponds file (List.mem_of_find?_eq_some there)
      · cases now
        exact corresponds
  | _ => trivial

end Generations

end Steps

section Examples

attribute [local instance] CaseMapping.latin1 installParser noApps

theorem reindexing_promised_install :
    let index := ({} : FileIndex Unit).addFile ["a.al"] installCode none 0
    let edit : FileEdit Unit := .addFileWithTree ["a.al"] installCode ()
    Promised [⟨["a.al"], installCode, ()⟩] ⟨["a.al"], installCode, ()⟩ edit.file
      ((Machine.run reindexing.after (editing index edit)
        [.start 1 (.object "Install"), .step 0, .step 0, .step 0, .step 0, .step 1]).threads 1) :=
  reindexing_promised (.addFile ["a.al"] installCode none 0 .new) (.addFileWithTree ["a.al"] installCode ()) ⟨rfl, rfl⟩
    rfl _ 1

end Examples

end AlLanguage.Source
