import AlLanguage.Source.FileIndex

/-!
# What the file index holds

The index after any run is determined by its files in the order in which they were last indexed.
-/

namespace AlLanguage.Source

open Library OrderedMap AlLanguage.Runtime

variable {τ : Type}

structure HeldFile (τ : Type) where
  path : FilePath
  content : String
  tree : τ

abbrev Held (τ : Type) := List (HeldFile τ)

def Held.without (held : Held τ) (path : FilePath) : Held τ := held.filter (·.path ≠ path)

/-- The file comes last, whether or not it was there before. -/
def Held.put (held : Held τ) (file : HeldFile τ) : Held τ := held.without file.path ++ [file]

def Held.at (held : Held τ) (path : FilePath) : Option (HeldFile τ) := held.find? (·.path = path)

theorem Held.at_without (held : Held τ) (path other : FilePath) :
    (held.without path).at other = if path = other then none else held.at other := by
  rw [Held.without, Held.at, List.find?_filter]
  split
  next same =>
    rw [List.find?_eq_none]
    rintro file - both
    simp only [ne_eq, decide_not, Bool.not_eq_true', decide_eq_false_iff_not, decide_eq_true_eq] at both
    exact both.1 (both.2.trans same.symm)
  next apart =>
    rw [Held.at]
    congr 1
    funext file
    by_cases here : file.path = other
    · simp [here, Ne.symm apart]
    · simp [here]

theorem Held.at_put (held : Held τ) (file : HeldFile τ) (other : FilePath) :
    (held.put file).at other = if file.path = other then some file else held.at other := by
  have before := held.at_without file.path other
  rw [Held.at] at before
  rw [Held.put, Held.at, List.find?_append, before]
  by_cases same : file.path = other
  · simp [same]
  · simp [same]

/-! ## Maps by file -/

/-- The map holds a value for each file that has one. -/
def PerFile {ν : Type} (f : HeldFile τ → Option ν) (held : Held τ) (m : OrderedMap FilePath ν) : Prop :=
  ∀ path, m.get? path = (held.at path).bind f

def putOrErase {ν : Type} (m : OrderedMap FilePath ν) (path : FilePath) : Option ν → OrderedMap FilePath ν
  | some v => m.insert path v
  | none => m.erase path

theorem get?_putOrErase {ν : Type} (m : OrderedMap FilePath ν) (path other : FilePath) (value : Option ν) :
    (putOrErase m path value).get? other = if path = other then value else m.get? other := by
  have key : compare path other = .eq ↔ path = other := Std.LawfulEqOrd.compare_eq_iff_eq
  cases value with
  | none =>
      rw [putOrErase, get?_erase]
      simp only [key]
  | some v =>
      rw [putOrErase, get?_insert]
      simp only [key]

section PerFile

variable {ν : Type} {f : HeldFile τ → Option ν} {held : Held τ} {m : OrderedMap FilePath ν}

theorem PerFile.put (perFile : PerFile f held m) (file : HeldFile τ) :
    PerFile f (held.put file) (putOrErase m file.path (f file)) := by
  intro path
  rw [get?_putOrErase, Held.at_put]
  split
  next => rfl
  next => exact perFile path

theorem PerFile.without (perFile : PerFile f held m) (path : FilePath) :
    PerFile f (held.without path) (m.erase path) := by
  intro other
  have erased := get?_putOrErase m path other none
  rw [putOrErase] at erased
  rw [erased, Held.at_without]
  split
  next => rfl
  next => exact perFile other

end PerFile

/-! ## What the maps hold -/

section Contents

variable [CaseMapping] [AppFiles] [AlSyntax τ]

omit [CaseMapping] [AlSyntax τ] in
/-- The nearest directory above a file with an `app.json`. -/
def nearestRoot (dir : FilePath) : Option FilePath := (ancestors dir.reverse).find? AppFiles.hasAppJson

namespace HeldFile

def infos (file : HeldFile τ) : List CachedObjectInfo := AlSyntax.findObjectDeclarations file.tree file.content

def symbols (file : HeldFile τ) : List SyntaxDocumentSymbol := AlSyntax.extractDocumentSymbols file.tree file.content

/-- The owner entries of the file by lower-cased name. -/
def objects (file : HeldFile τ) : List (String × ObjectEntry) :=
  declaredObjects file.path ((parent file.path).bind nearestRoot) file.infos

def procedures (file : HeldFile τ) : List (String × CachedProcedureInfo) := declaredProcedures file.path file.symbols

end HeldFile

namespace Held

def owners (held : Held τ) (name : String) : List ObjectEntry := held.flatMap fun file => itemsNamed name file.objects

def procedures (held : Held τ) (name : String) : List CachedProcedureInfo :=
  held.flatMap fun file => itemsNamed name file.procedures

end Held

/-- The index holds these files, in the order in which they were last indexed. -/
structure HoldsFiles (index : FileIndex τ) (held : Held τ) : Prop where
  distinct : held.Pairwise fun a b => a.path ≠ b.path
  files : PerFile (fun file => some file.content) held index.files
  fileTrees : PerFile (fun file => some (file.content, file.tree)) held index.fileTrees
  fileSymbols : PerFile (fun file => some file.symbols) held index.fileSymbols
  objectInfo : PerFile (fun file => file.infos.head?) held index.objectInfo
  objectInfos : PerFile (fun file => nonempty file.infos) held index.objectInfos
  objects : ∀ name, index.objects.get? name = nonempty (held.owners name)
  pathToObject : PerFile (fun file => if file.infos = [] then none else some (names file.objects)) held index.pathToObject
  procedures : ∀ name, index.procedures.get? name = nonempty (held.procedures name)
  pathToProcedures : PerFile (fun file => nonempty (names file.procedures)) held index.pathToProcedures
  dirAppRoot : ∀ dir root, index.dirAppRoot.get? dir = some root → root = nearestRoot dir
  apps : ∀ root identity, index.apps.get? root = some identity → identity = AppFiles.readIdentity root

/-! ## App roots -/

section Roots

omit [CaseMapping] [AlSyntax τ]

theorem nearestRoot_reverse (components : List String) :
    nearestRoot components.reverse = (ancestors components).find? AppFiles.hasAppJson := by
  rw [nearestRoot, List.reverse_reverse]

/-- The search finds the nearest root and remembers it for directories that have it. -/
theorem searchAppRoot_found {memo : OrderedMap FilePath (Option FilePath)}
    (right : ∀ dir root, memo.get? dir = some root → root = nearestRoot dir) (components : List String) :
    (searchAppRoot memo (ancestors components)).2 = nearestRoot components.reverse ∧
      ∀ dir ∈ (searchAppRoot memo (ancestors components)).1, nearestRoot dir = nearestRoot components.reverse := by
  -- a step up from a directory without a manifest does not change the nearest root
  induction components with
  | nil =>
      rw [nearestRoot_reverse, ancestors, searchAppRoot]
      split
      next root cached => exact ⟨right _ _ cached, by simp⟩
      next =>
        by_cases here : AppFiles.hasAppJson [] = true
        · simp [here, nearestRoot, ancestors]
        · simp [here, searchAppRoot, nearestRoot, ancestors]
  | cons component rest ih =>
      rw [ancestors, searchAppRoot]
      split
      next root cached => exact ⟨right _ _ cached, by simp⟩
      next =>
        by_cases here : AppFiles.hasAppJson (component :: rest).reverse = true
        · have found : nearestRoot (component :: rest).reverse = some (component :: rest).reverse := by
            rw [nearestRoot_reverse, ancestors, List.find?_cons_of_pos here]
          rw [if_pos here, found]
          refine ⟨rfl, ?_⟩
          intro dir visited
          rw [List.mem_singleton.mp visited, found]
        · have further : nearestRoot (component :: rest).reverse = nearestRoot rest.reverse := by
            rw [nearestRoot_reverse, nearestRoot_reverse, ancestors, List.find?_cons_of_neg here]
          rw [if_neg here, further]
          refine ⟨ih.1, ?_⟩
          intro dir visited
          rcases List.mem_cons.mp visited with rfl | above
          · exact further
          · exact ih.2 dir above

theorem searchRootOf_found {index : FileIndex τ}
    (right : ∀ dir root, index.dirAppRoot.get? dir = some root → root = nearestRoot dir) (file : FilePath) :
    (index.searchRootOf file).2 = (parent file).bind nearestRoot ∧
      ∀ dir ∈ (index.searchRootOf file).1, nearestRoot dir = (index.searchRootOf file).2 := by
  unfold FileIndex.searchRootOf
  cases parent file with
  | none => exact ⟨rfl, by simp⟩
  | some start =>
      dsimp only
      split
      next root cached => exact ⟨right _ _ cached, by simp⟩
      next =>
        obtain ⟨found, visited⟩ := searchAppRoot_found right start.reverse
        rw [List.reverse_reverse] at found visited
        refine ⟨found, ?_⟩
        intro dir member
        rw [visited dir member, found]

/-- Remembering right roots keeps the memory right. -/
theorem remembered_right {memo : OrderedMap FilePath (Option FilePath)}
    (right : ∀ dir root, memo.get? dir = some root → root = nearestRoot dir) {visited : List FilePath}
    {found : Option FilePath} (same : ∀ dir ∈ visited, nearestRoot dir = found) :
    ∀ dir root, (visited.foldl (fun memo dir => memo.insert dir found) memo).get? dir = some root →
      root = nearestRoot dir := by
  induction visited generalizing memo with
  | nil => exact right
  | cons head rest ih =>
      apply ih
      · intro dir root stored
        rw [get?_insert] at stored
        split at stored
        next here =>
          obtain rfl := Std.LawfulEqCmp.eq_of_compare here
          rw [← Option.some.inj stored, same head List.mem_cons_self]
        next => exact right dir root stored
      · exact fun dir member => same dir (List.mem_cons_of_mem _ member)

end Roots

/-! ## What re-indexing writes -/

namespace FileIndex

section Writes

omit [CaseMapping] [AppFiles] [AlSyntax τ]

theorem writeAll_append (index : FileIndex τ) (first second : List (IndexWrite τ)) :
    index.writeAll (first ++ second) = (index.writeAll first).writeAll second := List.foldl_append ..

theorem writeAll_rememberRoot (index : FileIndex τ) (visited : List FilePath) (found : Option FilePath) :
    index.writeAll (visited.map fun dir => .rememberRoot dir found) =
      { index with dirAppRoot := visited.foldl (fun memo dir => memo.insert dir found) index.dirAppRoot } := by
  induction visited generalizing index with
  | nil => rfl
  | cons dir rest ih => exact ih _

theorem writeAll_swapObject (index : FileIndex τ) (path : FilePath) (byName : List (String × List ObjectEntry)) :
    index.writeAll (byName.map fun named => .swapObject named.1 path named.2) =
      { index with objects := swapAll (·.path = path) index.objects byName } := by
  induction byName generalizing index with
  | nil => rfl
  | cons named rest ih => exact ih _

theorem writeAll_swapProcedure (index : FileIndex τ) (path : FilePath) (byName : List (String × List CachedProcedureInfo)) :
    index.writeAll (byName.map fun named => .swapProcedure named.1 path named.2) =
      { index with procedures := swapAll (·.file = path) index.procedures byName } := by
  induction byName generalizing index with
  | nil => rfl
  | cons named rest ih => exact ih _

theorem writeAll_removeObjects (index : FileIndex τ) (cleared : List String) (path : FilePath) :
    index.writeAll (removeObjectsWrites cleared path) =
      { index with objects := removeAll (·.path = path) index.objects cleared } := by
  induction cleared generalizing index with
  | nil => rfl
  | cons name rest ih => exact ih _

theorem writeAll_removeProcedures (index : FileIndex τ) (cleared : List String) (path : FilePath) :
    index.writeAll (removeProceduresWrites cleared path) =
      { index with procedures := removeAll (·.file = path) index.procedures cleared } := by
  induction cleared generalizing index with
  | nil => rfl
  | cons name rest ih => exact ih _

end Writes

/-- The owner entries that indexing a file makes, with the root that it finds. -/
def entriesOf (index : FileIndex τ) (file : HeldFile τ) : List (String × ObjectEntry) :=
  declaredObjects file.path (index.searchRootOf file.path).2 file.infos

theorem writeAll_objectWrites (index index' : FileIndex τ) (file : HeldFile τ) :
    index'.writeAll (index.objectWrites file.path file.content file.tree) =
      { index' with
        dirAppRoot :=
          if file.infos = [] then index'.dirAppRoot
          else (index.searchRootOf file.path).1.foldl
            (fun memo dir => memo.insert dir (index.searchRootOf file.path).2) index'.dirAppRoot
        objects := swapAll (·.path = file.path) index'.objects (groupNamed (index.entriesOf file))
        pathToObject := putOrErase index'.pathToObject file.path
          (if file.infos = [] then none else some (names (index.entriesOf file)))
        objectInfo := putOrErase index'.objectInfo file.path file.infos.head?
        objectInfos := putOrErase index'.objectInfos file.path (nonempty file.infos) } := by
  rw [objectWrites, entriesOf, HeldFile.infos]
  cases found : AlSyntax.findObjectDeclarations file.tree file.content with
  | nil => rfl
  | cons info rest =>
      dsimp only
      rw [writeAll_append, writeAll_append, appRootWrites, writeAll_rememberRoot, writeAll_swapObject]
      rfl

omit [AppFiles] in
theorem writeAll_procedureWrites (index : FileIndex τ) (file : HeldFile τ) :
    index.writeAll (procedureWrites file.path file.content file.tree) =
      { index with
        procedures := swapAll (·.file = file.path) index.procedures (groupNamed file.procedures)
        pathToProcedures := putOrErase index.pathToProcedures file.path (nonempty (names file.procedures)) } := by
  rw [procedureWrites, writeAll_append, writeAll_swapProcedure, names, HeldFile.procedures, HeldFile.symbols]
  cases groupNamed (declaredProcedures file.path (AlSyntax.extractDocumentSymbols file.tree file.content)) <;> rfl

theorem indexFromResult_eq (index : FileIndex τ) (file : HeldFile τ) :
    index.indexFromResult file.path file.content file.tree =
      { index with
        fileTrees := index.fileTrees.insert file.path (file.content, file.tree)
        dirAppRoot :=
          if file.infos = [] then index.dirAppRoot
          else (index.searchRootOf file.path).1.foldl
            (fun memo dir => memo.insert dir (index.searchRootOf file.path).2) index.dirAppRoot
        objects := swapAll (·.path = file.path) index.objects (groupNamed (index.entriesOf file))
        pathToObject := putOrErase index.pathToObject file.path
          (if file.infos = [] then none else some (names (index.entriesOf file)))
        objectInfo := putOrErase index.objectInfo file.path file.infos.head?
        objectInfos := putOrErase index.objectInfos file.path (nonempty file.infos)
        procedures := swapAll (·.file = file.path) index.procedures (groupNamed file.procedures)
        pathToProcedures := putOrErase index.pathToProcedures file.path (nonempty (names file.procedures))
        fileSymbols := index.fileSymbols.insert file.path file.symbols
        files := index.files.insert file.path file.content } := by
  have first : index.indexFromResult file.path file.content file.tree =
      ((index.writeAll [.cacheTree file.path file.content file.tree]).writeAll
        (index.objectWrites file.path file.content file.tree ++ procedureWrites file.path file.content file.tree ++
          [.cacheSymbols file.path file.symbols, .storeContent file.path file.content])) := rfl
  rw [first, writeAll_append, writeAll_append, writeAll_objectWrites, writeAll_procedureWrites]
  rfl

theorem objectsSnapshot_indexed (index : FileIndex τ) (file : HeldFile τ) :
    (index.indexFromResult file.path file.content file.tree).objectsSnapshot file.path = names (index.entriesOf file) := by
  rw [indexFromResult_eq, objectsSnapshot]
  dsimp only
  rw [get?_putOrErase, if_pos rfl]
  split
  next none =>
    rw [entriesOf, none]
    rfl
  next => rfl

theorem proceduresSnapshot_indexed (index : FileIndex τ) (file : HeldFile τ) :
    (index.indexFromResult file.path file.content file.tree).proceduresSnapshot file.path = names file.procedures := by
  rw [indexFromResult_eq, proceduresSnapshot]
  dsimp only
  rw [get?_putOrErase, if_pos rfl, getD_nonempty]

theorem replaceFileEntries_eq (index : FileIndex τ) (file : HeldFile τ) :
    index.replaceFileEntries file.path file.content file.tree =
      { index.indexFromResult file.path file.content file.tree with
        objects := removeAll (·.path = file.path)
          (swapAll (·.path = file.path) index.objects (groupNamed (index.entriesOf file)))
          ((index.objectsSnapshot file.path).filter (· ∉ names (index.entriesOf file)))
        procedures := removeAll (·.file = file.path)
          (swapAll (·.file = file.path) index.procedures (groupNamed file.procedures))
          ((index.proceduresSnapshot file.path).filter (· ∉ names file.procedures)) } := by
  have procedures : ∀ (objects : OrderedMap String (List ObjectEntry)),
      proceduresSnapshot { index.indexFromResult file.path file.content file.tree with objects := objects } file.path =
        names file.procedures := fun _ => proceduresSnapshot_indexed index file
  rw [replaceFileEntries]
  dsimp only
  rw [objectsSnapshot_indexed, writeAll_removeObjects, procedures, writeAll_removeProcedures]
  simp only [indexFromResult_eq]

end FileIndex

/-! ## Operations -/

omit [CaseMapping] [AppFiles] [AlSyntax τ] in
theorem Held.at_of_mem {held : Held τ} (distinct : held.Pairwise fun a b => a.path ≠ b.path) {file : HeldFile τ}
    (member : file ∈ held) : held.at file.path = some file := by
  rw [Held.at]
  cases search : held.find? (·.path = file.path) with
  | none => simpa using List.find?_eq_none.mp search file member
  | some other =>
      have same : other.path = file.path := by simpa using List.find?_some search
      rcases pairwise_eq_or distinct (List.mem_of_find?_eq_some search) member with rfl | before | after
      · rfl
      · exact absurd same before
      · exact absurd same.symm after

omit [CaseMapping] [AppFiles] [AlSyntax τ] in
/-- What the other files have is what does not belong to the file. -/
theorem flatMap_without {α : Type} {items : HeldFile τ → List α} {owner : α → FilePath}
    (own : ∀ file, ∀ a ∈ items file, owner a = file.path) (held : Held τ) (path : FilePath) :
    (held.without path).flatMap items = (held.flatMap items).filter fun a => !decide (owner a = path) := by
  induction held with
  | nil => rfl
  | cons file rest ih =>
      rw [List.flatMap_cons, List.filter_append, ← ih, Held.without, Held.without]
      by_cases same : file.path = path
      · have gone : (items file).filter (fun a => !decide (owner a = path)) = [] := by
          rw [List.filter_eq_nil_iff]
          intro a member
          simp [own file a member, same]
        rw [List.filter_cons_of_neg (by simpa using same), gone, List.nil_append]
      · have kept : (items file).filter (fun a => !decide (owner a = path)) = items file := by
          rw [List.filter_eq_self]
          intro a member
          simp [own file a member, same]
        rw [List.filter_cons_of_pos (by simpa using same), List.flatMap_cons, kept]

omit [CaseMapping] [AppFiles] [AlSyntax τ] in
theorem flatMap_put {α : Type} {items : HeldFile τ → List α} {owner : α → FilePath}
    (own : ∀ file, ∀ a ∈ items file, owner a = file.path) (held : Held τ) (file : HeldFile τ) :
    (held.put file).flatMap items =
      (held.flatMap items).filter (fun a => !decide (owner a = file.path)) ++ items file := by
  rw [Held.put, List.flatMap_append, flatMap_without own]
  simp

theorem own_objects (name : String) (file : HeldFile τ) : ∀ entry ∈ itemsNamed name file.objects, entry.path = file.path := by
  intro entry member
  obtain ⟨named, inside, rfl⟩ := List.mem_map.mp member
  obtain ⟨info, -, rfl⟩ := List.mem_map.mp (List.mem_filter.mp inside).1
  rfl

omit [AppFiles] in
theorem own_procedures (name : String) (file : HeldFile τ) :
    ∀ info ∈ itemsNamed name file.procedures, info.file = file.path := by
  intro info member
  obtain ⟨named, inside, rfl⟩ := List.mem_map.mp member
  obtain ⟨child, -, rfl⟩ := List.mem_map.mp (List.mem_filter.mp inside).1
  rfl

omit [CaseMapping] [AppFiles] [AlSyntax τ] in
theorem mem_names_of_items {α : Type} {name : String} {named : List (String × α)} {a : α}
    (member : a ∈ itemsNamed name named) : name ∈ names named := by
  by_contra absent
  rw [itemsNamed_eq_nil_iff.mpr absent] at member
  cases member

/-- The recorded names of a file are those under which it has an owner entry. -/
theorem HoldsFiles.mem_objectsSnapshot {index : FileIndex τ} {held : Held τ} (holds : HoldsFiles index held) {path : FilePath}
    {name : String} : ∀ entry ∈ held.owners name, decide (entry.path = path) = true → name ∈ index.objectsSnapshot path := by
  intro entry member own
  obtain ⟨file, inside, declared⟩ := List.mem_flatMap.mp member
  have same := own_objects name file entry declared
  rw [of_decide_eq_true own] at same
  have listed := mem_names_of_items declared
  have some_ : file.infos ≠ [] := by
    intro none
    rw [HeldFile.objects, none] at listed
    cases listed
  rw [FileIndex.objectsSnapshot, holds.pathToObject, same, Held.at_of_mem holds.distinct inside, Option.bind_some,
    if_neg some_]
  exact listed

theorem HoldsFiles.mem_proceduresSnapshot {index : FileIndex τ} {held : Held τ} (holds : HoldsFiles index held) {path : FilePath}
    {name : String} :
    ∀ info ∈ held.procedures name, decide (info.file = path) = true → name ∈ index.proceduresSnapshot path := by
  intro info member own
  obtain ⟨file, inside, declared⟩ := List.mem_flatMap.mp member
  have same := own_procedures name file info declared
  rw [of_decide_eq_true own] at same
  rw [FileIndex.proceduresSnapshot, holds.pathToProcedures, same, Held.at_of_mem holds.distinct inside, Option.bind_some,
    getD_nonempty]
  exact mem_names_of_items declared

omit [CaseMapping] [AppFiles] [AlSyntax τ] in
theorem distinct_without {held : Held τ} (distinct : held.Pairwise fun a b => a.path ≠ b.path) (path : FilePath) :
    (held.without path).Pairwise fun a b => a.path ≠ b.path := distinct.filter _

omit [CaseMapping] [AppFiles] [AlSyntax τ] in
theorem distinct_put {held : Held τ} (distinct : held.Pairwise fun a b => a.path ≠ b.path) (file : HeldFile τ) :
    (held.put file).Pairwise fun a b => a.path ≠ b.path := by
  refine List.pairwise_append.mpr ⟨distinct_without distinct file.path, List.pairwise_singleton .., ?_⟩
  intro other member last same
  rw [List.mem_singleton.mp same]
  simpa using (List.mem_filter.mp member).2

theorem HoldsFiles.replaceFileEntries {index : FileIndex τ} {held : Held τ} (holds : HoldsFiles index held) (file : HeldFile τ) :
    HoldsFiles (index.replaceFileEntries file.path file.content file.tree) (held.put file) := by
  obtain ⟨root, visited⟩ := searchRootOf_found holds.dirAppRoot file.path
  have entries : index.entriesOf file = file.objects := by rw [FileIndex.entriesOf, root, HeldFile.objects]
  rw [FileIndex.replaceFileEntries_eq, FileIndex.indexFromResult_eq, entries]
  refine ⟨distinct_put holds.distinct file, ?_, ?_, ?_, ?_, ?_, ?_, ?_, ?_, ?_, ?_, ?_⟩
  · exact holds.files.put file
  · exact holds.fileTrees.put file
  · exact holds.fileSymbols.put file
  · exact holds.objectInfo.put file
  · exact holds.objectInfos.put file
  · intro name
    rw [Held.owners, flatMap_put (own_objects name)]
    exact get?_replaced holds.objects (fun _ => holds.mem_objectsSnapshot) file.objects name
  · exact holds.pathToObject.put file
  · intro name
    rw [Held.procedures, flatMap_put (own_procedures name)]
    exact get?_replaced holds.procedures (fun _ => holds.mem_proceduresSnapshot) file.procedures name
  · exact holds.pathToProcedures.put file
  · dsimp only
    split
    next => exact holds.dirAppRoot
    next => exact remembered_right holds.dirAppRoot visited
  · exact holds.apps

/-- The metadata are no contents. -/
theorem HoldsFiles.withMetadata {index : FileIndex τ} {held : Held τ} (holds : HoldsFiles index held) (path : FilePath)
    (metadata : Option FileMetadata) (now : Nat) : HoldsFiles (index.writeAll (FileIndex.metadataWrites path metadata now)) held := by
  have same : ∀ (racy : List FilePath) (metadata : OrderedMap FilePath FileMetadata),
      HoldsFiles { index with racy := racy, fileMetadata := metadata } held := by
    obtain ⟨distinct, files, fileTrees, fileSymbols, objectInfo, objectInfos, objects, pathToObject, procedures,
      pathToProcedures, dirAppRoot, apps⟩ := holds
    exact fun _ _ => ⟨distinct, files, fileTrees, fileSymbols, objectInfo, objectInfos, objects, pathToObject, procedures,
      pathToProcedures, dirAppRoot, apps⟩
  cases metadata with
  | none => exact holds
  | some metadata =>
      rw [FileIndex.metadataWrites]
      split <;> exact same _ _

omit [CaseMapping] [AppFiles] [AlSyntax τ] in
theorem FileIndex.removeFile_eq (index : FileIndex τ) (path : FilePath) :
    index.removeFile path =
      { index with
        files := index.files.erase path
        fileMetadata := index.fileMetadata.erase path
        racy := index.racy.filter (· ≠ path)
        fileTrees := index.fileTrees.erase path
        fileSymbols := index.fileSymbols.erase path
        objectInfo := index.objectInfo.erase path
        objectInfos := index.objectInfos.erase path
        pathToProcedures := index.pathToProcedures.erase path
        procedures := removeAll (·.file = path) index.procedures (index.proceduresSnapshot path)
        pathToObject := index.pathToObject.erase path
        objects := removeAll (·.path = path) index.objects (index.objectsSnapshot path) } := by
  have cons (index : FileIndex τ) (write : IndexWrite τ) (rest : List (IndexWrite τ)) :
      index.writeAll (write :: rest) = (write.apply index).writeAll rest := rfl
  rw [removeFile]
  simp only [cons, writeAll_removeProcedures, writeAll_removeObjects]
  rfl

theorem HoldsFiles.removeFile {index : FileIndex τ} {held : Held τ} (holds : HoldsFiles index held) (path : FilePath) :
    HoldsFiles (index.removeFile path) (held.without path) := by
  rw [FileIndex.removeFile_eq]
  refine ⟨distinct_without holds.distinct path, ?_, ?_, ?_, ?_, ?_, ?_, ?_, ?_, ?_, holds.dirAppRoot, holds.apps⟩
  · exact holds.files.without path
  · exact holds.fileTrees.without path
  · exact holds.fileSymbols.without path
  · exact holds.objectInfo.without path
  · exact holds.objectInfos.without path
  · intro name
    rw [Held.owners, flatMap_without (own_objects name)]
    exact get?_cleared holds.objects (fun _ => holds.mem_objectsSnapshot) name
  · exact holds.pathToObject.without path
  · intro name
    rw [Held.procedures, flatMap_without (own_procedures name)]
    exact get?_cleared holds.procedures (fun _ => holds.mem_proceduresSnapshot) name
  · exact holds.pathToProcedures.without path

omit [CaseMapping] [AppFiles] [AlSyntax τ] in
theorem FileIndex.replaceWith_eq (index replacement : FileIndex τ) : index.replaceWith replacement = replacement := by
  simp only [replaceWith, moved, foldl_insert_entries]

end Contents

end AlLanguage.Source
