import AlLanguage.Source.IndexedFiles

/-!
# Lookups and a fresh index

A lookup answers as in an index that was filled with the same files, each once, in the order in which they were last
indexed.
-/

namespace AlLanguage.Source

open Library OrderedMap AlLanguage.Runtime

variable {τ : Type}

section Lookups

variable [CaseMapping] [AppFiles] [AlSyntax τ] {index index' : FileIndex τ} {held : Held τ}

/-! ## Lookups -/

theorem HoldsFiles.owners (holds : HoldsFiles index held) (name : String) : index.owners name = held.owners (toLowercase name) := by
  rw [FileIndex.owners, holds.objects, getD_nonempty]

/-- A lookup remembers roots and identities only. -/
theorem HoldsFiles.remember (holds : HoldsFiles index held) {dirAppRoot : OrderedMap FilePath (Option FilePath)}
    {apps : OrderedMap FilePath AppIdentity}
    (roots : ∀ dir root, dirAppRoot.get? dir = some root → root = nearestRoot dir)
    (identities : ∀ root identity, apps.get? root = some identity → identity = AppFiles.readIdentity root) :
    HoldsFiles { index with dirAppRoot := dirAppRoot, apps := apps } held := by
  obtain ⟨distinct, files, fileTrees, fileSymbols, objectInfo, objectInfos, objects, pathToObject, procedures,
    pathToProcedures, -, -⟩ := holds
  exact ⟨distinct, files, fileTrees, fileSymbols, objectInfo, objectInfos, objects, pathToObject, procedures,
    pathToProcedures, roots, identities⟩

theorem HoldsFiles.appIdentity (holds : HoldsFiles index held) (root : FilePath) :
    (index.appIdentity root).1 = AppFiles.readIdentity root ∧ HoldsFiles (index.appIdentity root).2 held := by
  rw [FileIndex.appIdentity]
  split
  next cached stored => exact ⟨holds.apps root cached stored, holds⟩
  next =>
    refine ⟨rfl, holds.remember holds.dirAppRoot ?_⟩
    intro other identity stored
    rw [get?_insert] at stored
    split at stored
    next same =>
      obtain rfl := Std.LawfulEqCmp.eq_of_compare same
      exact (Option.some.inj stored).symm
    next => exact holds.apps other identity stored

theorem HoldsFiles.appRootFor (holds : HoldsFiles index held) (file : FilePath) :
    (index.appRootFor file).1 = (parent file).bind nearestRoot ∧ HoldsFiles (index.appRootFor file).2 held := by
  obtain ⟨root, visited⟩ := searchRootOf_found holds.dirAppRoot file
  rw [FileIndex.appRootFor, FileIndex.appRootWrites, FileIndex.writeAll_rememberRoot]
  exact ⟨root, holds.remember (remembered_right holds.dirAppRoot visited) holds.apps⟩

/-- The rank of an owner by the manifests on the disk. -/
def rankOf (fromApp : Option FilePath) (owner : ObjectEntry) : Nat :=
  match fromApp, owner.appRoot with
  | some fromApp, some ownerApp =>
    let id := (AppFiles.readIdentity ownerApp).id
    if ownerApp = fromApp then 0
    else if id.isEmpty then 2
    else if id ∈ (AppFiles.readIdentity fromApp).dependencyIds then 1 else 2
  | _, _ => 2

/-- The first of the owners with the least rank. -/
def leastRanked (fromApp : Option FilePath) : List ObjectEntry → Option (Nat × ObjectEntry)
  | [] => none
  | owner :: rest =>
    match leastRanked fromApp rest with
    | some (least, other) => if least < rankOf fromApp owner then some (least, other) else some (rankOf fromApp owner, owner)
    | none => some (rankOf fromApp owner, owner)

theorem HoldsFiles.ownerRank (holds : HoldsFiles index held) (owner : ObjectEntry) (fromApp : Option FilePath) :
    (index.ownerRank owner fromApp).1 = rankOf fromApp owner ∧ HoldsFiles (index.ownerRank owner fromApp).2 held := by
  unfold FileIndex.ownerRank rankOf
  cases fromApp with
  | none => exact ⟨rfl, holds⟩
  | some fromApp =>
  cases owner.appRoot with
  | none => exact ⟨rfl, holds⟩
  | some ownerApp =>
      obtain ⟨identity, remembered⟩ := holds.appIdentity ownerApp
      obtain ⟨identity', remembered'⟩ := remembered.appIdentity fromApp
      dsimp only
      rw [identity, identity']
      by_cases same : ownerApp = fromApp
      · rw [if_pos same, if_pos same]
        exact ⟨rfl, holds⟩
      rw [if_neg same, if_neg same]
      by_cases unnamed : (AppFiles.readIdentity ownerApp).id.isEmpty = true
      · rw [if_pos unnamed, if_pos unnamed]
        exact ⟨rfl, remembered⟩
      · rw [if_neg unnamed, if_neg unnamed]
        exact ⟨rfl, remembered'⟩

theorem HoldsFiles.minByRank (holds : HoldsFiles index held) (fromApp : Option FilePath) (owners : List ObjectEntry) :
    (FileIndex.minByRank fromApp index owners).1 = leastRanked fromApp owners ∧
      HoldsFiles (FileIndex.minByRank fromApp index owners).2 held := by
  induction owners generalizing index with
  | nil => exact ⟨rfl, holds⟩
  | cons owner rest ih =>
      obtain ⟨rank, ranked⟩ := holds.ownerRank owner fromApp
      obtain ⟨best, kept⟩ := ih ranked
      simp only [FileIndex.minByRank, leastRanked, rank, best]
      cases leastRanked fromApp rest with
      | none => exact ⟨rfl, kept⟩
      | some other => exact ⟨rfl, kept⟩

theorem HoldsFiles.objectPathWhere (holds : HoldsFiles index held) (name : String) (from_ : Option FilePath)
    (kindMatches : String → Bool) :
    (index.objectPathWhere name from_ kindMatches).1 =
        (leastRanked (from_.bind fun file => (parent file).bind nearestRoot)
          ((held.owners (toLowercase name)).filter fun entry => kindMatches entry.kind)).map (·.2.path) ∧
      HoldsFiles (index.objectPathWhere name from_ kindMatches).2 held := by
  cases from_ with
  | none =>
      obtain ⟨best, kept⟩ := holds.minByRank none ((index.owners name).filter fun entry => kindMatches entry.kind)
      rw [FileIndex.objectPathWhere]
      refine ⟨?_, kept⟩
      dsimp only
      rw [best, holds.owners]
      rfl
  | some file =>
      obtain ⟨root, remembered⟩ := holds.appRootFor file
      obtain ⟨best, kept⟩ := remembered.minByRank (index.appRootFor file).1
        (((index.appRootFor file).2.owners name).filter fun entry => kindMatches entry.kind)
      rw [FileIndex.objectPathWhere]
      refine ⟨?_, kept⟩
      dsimp only
      rw [best, remembered.owners, root]
      rfl

/-! ## A fresh index -/

/-- An index filled with files, each with what reading its metadata gives. -/
def freshIndex (stat : FilePath → Option FileMetadata) (now : Nat) (files : List (FilePath × String)) : FileIndex τ :=
  files.foldl (fun index file => index.addFile file.1 file.2 (stat file.1) now) {}

/-- The tree has the declarations of the text. -/
def Corresponds (tree : τ) (content : String) : Prop :=
  AlSyntax.findObjectDeclarations tree content = AlSyntax.findObjectDeclarations (AlSyntax.parseQuick content : τ) content ∧
    AlSyntax.extractDocumentSymbols tree content = AlSyntax.extractDocumentSymbols (AlSyntax.parseQuick content : τ) content

/-- The file as it is when its text is parsed. -/
def HeldFile.reparsed (file : HeldFile τ) : HeldFile τ := ⟨file.path, file.content, AlSyntax.parseQuick file.content⟩

/-- The paths and texts of the files. -/
def Held.texts (held : Held τ) : List (FilePath × String) := held.map fun file => (file.path, file.content)

theorem holdsFiles_new : HoldsFiles ({} : FileIndex τ) [] := by
  refine ⟨List.Pairwise.nil, fun _ => rfl, fun _ => rfl, fun _ => rfl, fun _ => rfl, fun _ => rfl, fun _ => rfl,
    fun _ => rfl, fun _ => rfl, fun _ => rfl, ?_, ?_⟩
  · intro dir root stored
    cases stored
  · intro root identity stored
    cases stored

theorem HoldsFiles.addFile (holds : HoldsFiles index held) (path : FilePath) (content : String)
    (metadata : Option FileMetadata) (now : Nat) :
    HoldsFiles (index.addFile path content metadata now) (held.put ⟨path, content, AlSyntax.parseQuick content⟩) :=
  (holds.withMetadata path metadata now).replaceFileEntries ⟨path, content, AlSyntax.parseQuick content⟩

omit [CaseMapping] [AppFiles] [AlSyntax τ] in
theorem put_new {held : Held τ} {file : HeldFile τ} (absent : ∀ other ∈ held, other.path ≠ file.path) :
    held.put file = held ++ [file] := by
  have all : held.without file.path = held := by
    rw [Held.without, List.filter_eq_self]
    intro other member
    simpa using absent other member
  rw [Held.put, all]

theorem fresh_holdsFiles (stat : FilePath → Option FileMetadata) (now : Nat)
    (distinct : held.Pairwise fun a b => a.path ≠ b.path) :
    HoldsFiles (freshIndex stat now held.texts : FileIndex τ) (held.map HeldFile.reparsed) := by
  have filled : ∀ (rest done : Held τ) (index : FileIndex τ), HoldsFiles index (done.map HeldFile.reparsed) →
      (done ++ rest).Pairwise (fun a b => a.path ≠ b.path) →
        HoldsFiles (rest.texts.foldl (fun index file => index.addFile file.1 file.2 (stat file.1) now) index)
          ((done ++ rest).map HeldFile.reparsed) := by
    intro rest
    induction rest with
    | nil =>
        intro done index holds _
        simpa [Held.texts] using holds
    | cons file rest ih =>
        intro done index holds distinct
        have last := (List.pairwise_append.mp distinct).2.2
        have added := holds.addFile file.path file.content (stat file.path) now
        have absent : ∀ other ∈ done.map HeldFile.reparsed, other.path ≠ file.reparsed.path := by
          intro other member
          obtain ⟨before, inside, rfl⟩ := List.mem_map.mp member
          exact last before inside file List.mem_cons_self
        have put := put_new absent
        rw [HeldFile.reparsed] at put
        rw [put] at added
        have later := ih (done ++ [file]) _ (by simpa [HeldFile.reparsed] using added) (by simpa using distinct)
        simpa [Held.texts] using later
  exact filled held [] {} holdsFiles_new distinct

/-! ## Runs -/

/-- The index and its files, in the order in which they were last indexed, after some operations. -/
inductive Reaches : FileIndex τ → Held τ → Prop
  | new : Reaches {} []
  | addFile {index : FileIndex τ} {held : Held τ} (path : FilePath) (content : String) (metadata : Option FileMetadata)
      (now : Nat) (reaches : Reaches index held) :
      Reaches (index.addFile path content metadata now) (held.put ⟨path, content, AlSyntax.parseQuick content⟩)
  | addFileWithTree {index : FileIndex τ} {held : Held τ} (path : FilePath) (content : String) (tree : τ)
      (corresponds : Corresponds tree content) (reaches : Reaches index held) :
      Reaches (index.addFileWithTree path content tree) (held.put ⟨path, content, tree⟩)
  | removeFile {index : FileIndex τ} {held : Held τ} (path : FilePath) (reaches : Reaches index held) :
      Reaches (index.removeFile path) (held.without path)
  | replaceWith {index replacement : FileIndex τ} {held held' : Held τ} (reaches : Reaches index held)
      (reaches' : Reaches replacement held') : Reaches (index.replaceWith replacement) held'
  | lookup {index : FileIndex τ} {held : Held τ} (name : String) (from_ : Option FilePath) (kindMatches : String → Bool)
      (reaches : Reaches index held) : Reaches (index.objectPathWhere name from_ kindMatches).2 held

theorem Reaches.holdsFiles (reaches : Reaches index held) : HoldsFiles index held := by
  induction reaches with
  | new => exact holdsFiles_new
  | addFile path content metadata now _ ih => exact ih.addFile path content metadata now
  | addFileWithTree path content tree _ _ ih => exact ih.replaceFileEntries ⟨path, content, tree⟩
  | removeFile path _ ih => exact ih.removeFile path
  | replaceWith _ _ _ ih =>
      rw [FileIndex.replaceWith_eq]
      exact ih
  | lookup name from_ kindMatches _ ih => exact (ih.objectPathWhere name from_ kindMatches).2

theorem Reaches.corresponds (reaches : Reaches index held) : ∀ file ∈ held, Corresponds file.tree file.content := by
  induction reaches with
  | new => simp
  | addFile path content metadata now _ ih =>
      intro file member
      rcases List.mem_append.mp member with old | new
      · exact ih file (List.mem_filter.mp old).1
      · rw [List.mem_singleton.mp new]
        exact ⟨rfl, rfl⟩
  | addFileWithTree path content tree corresponds _ ih =>
      intro file member
      rcases List.mem_append.mp member with old | new
      · exact ih file (List.mem_filter.mp old).1
      · rw [List.mem_singleton.mp new]
        exact corresponds
  | removeFile path _ ih => exact fun file member => ih file (List.mem_filter.mp member).1
  | replaceWith _ _ _ ih => exact ih
  | lookup name from_ kindMatches _ ih => exact ih

theorem reparsed_owners (corresponds : ∀ file ∈ held, Corresponds file.tree file.content) (name : String) :
    Held.owners (held.map HeldFile.reparsed) name = held.owners name ∧
      Held.procedures (held.map HeldFile.reparsed) name = held.procedures name := by
  induction held with
  | nil => exact ⟨rfl, rfl⟩
  | cons file rest ih =>
      obtain ⟨infos, symbols⟩ := corresponds file List.mem_cons_self
      obtain ⟨owners, procedures⟩ := ih fun other member => corresponds other (List.mem_cons_of_mem _ member)
      constructor
      · simp only [Held.owners, List.map_cons, List.flatMap_cons] at owners ⊢
        rw [owners]
        simp only [HeldFile.objects, HeldFile.infos, HeldFile.reparsed, infos]
      · simp only [Held.procedures, List.map_cons, List.flatMap_cons] at procedures ⊢
        rw [procedures]
        simp only [HeldFile.procedures, HeldFile.symbols, HeldFile.reparsed, symbols]

/-! ## The maps and the lookups -/

theorem HoldsFiles.objectsSnapshot_eq (holds : HoldsFiles index held) (path : FilePath) :
    index.objectsSnapshot path = ((held.at path).map fun file => names file.objects).getD [] := by
  rw [FileIndex.objectsSnapshot, holds.pathToObject]
  cases held.at path with
  | none => rfl
  | some file =>
      rw [Option.bind_some, Option.map_some, Option.getD_some]
      split
      next none =>
        rw [HeldFile.objects, none]
        rfl
      next => rfl

theorem HoldsFiles.proceduresSnapshot_eq (holds : HoldsFiles index held) (path : FilePath) :
    index.proceduresSnapshot path = ((held.at path).map fun file => names file.procedures).getD [] := by
  rw [FileIndex.proceduresSnapshot, holds.pathToProcedures]
  cases held.at path with
  | none => rfl
  | some file => rw [Option.bind_some, getD_nonempty, Option.map_some, Option.getD_some]

omit [CaseMapping] [AppFiles] [AlSyntax τ] in
/-- The names of a file are those under which the files together have an item of it. -/
theorem mem_names_at {α : Type} {items : HeldFile τ → List (String × α)} (owner : α → FilePath)
    (own : ∀ name file, ∀ a ∈ itemsNamed name (items file), owner a = file.path)
    (distinct : held.Pairwise fun a b => a.path ≠ b.path) (path : FilePath) (name : String) :
    name ∈ ((held.at path).map fun file => names (items file)).getD [] ↔
      ∃ a ∈ held.flatMap fun file => itemsNamed name (items file), owner a = path := by
  constructor
  · intro listed
    cases found : held.at path with
    | none =>
        rw [found] at listed
        cases listed
    | some file =>
        have same : file.path = path := by simpa using List.find?_some found
        rw [found, Option.map_some, Option.getD_some, mem_names_iff] at listed
        obtain ⟨a, member⟩ := listed
        have inside : a ∈ itemsNamed name (items file) := List.mem_map.mpr ⟨(name, a), List.mem_filter.mpr ⟨member, by simp⟩, rfl⟩
        exact ⟨a, List.mem_flatMap.mpr ⟨file, List.mem_of_find?_eq_some found, inside⟩, (own name file a inside).trans same⟩
  · rintro ⟨a, member, rfl⟩
    obtain ⟨file, inside, declared⟩ := List.mem_flatMap.mp member
    rw [own name file a declared, Held.at_of_mem distinct inside]
    exact mem_names_of_items declared

/-- The maps hold the declarations of the files, and lookups answer as in a fresh index. -/
structure AsFresh (index : FileIndex τ) (held : Held τ) : Prop where
  files : ∀ path, index.files.get? path = (held.at path).map (·.content)
  objects : ∀ name, index.objects.get? name = nonempty (held.owners name)
  procedures : ∀ name, index.procedures.get? name = nonempty (held.procedures name)
  pathToObject : ∀ path, (index.objectsSnapshot path).Nodup ∧ ∀ name,
    name ∈ index.objectsSnapshot path ↔ ∃ entry ∈ (index.objects.get? name).getD [], entry.path = path
  pathToProcedures : ∀ path, (index.proceduresSnapshot path).Nodup ∧ ∀ name,
    name ∈ index.proceduresSnapshot path ↔ ∃ info ∈ (index.procedures.get? name).getD [], info.file = path
  filled : ∀ path, index.pathToProcedures.get? path ≠ some []
  objectPath : ∀ stat now name, index.objectPath name = (freshIndex stat now held.texts : FileIndex τ).objectPath name
  objectPathOfKind : ∀ stat now name kinds,
    index.objectPathOfKind name kinds = (freshIndex stat now held.texts : FileIndex τ).objectPathOfKind name kinds
  objectPathWhere : ∀ stat now name from_ kindMatches, (index.objectPathWhere name from_ kindMatches).1 =
    ((freshIndex stat now held.texts : FileIndex τ).objectPathWhere name from_ kindMatches).1
  lookupProcedures : ∀ stat now name,
    index.lookupProcedures name = (freshIndex stat now held.texts : FileIndex τ).lookupProcedures name

theorem reaches_asFresh (reaches : Reaches index held) : AsFresh index held := by
  have holds := reaches.holdsFiles
  have fresh := fun stat now => fresh_holdsFiles stat now holds.distinct
  have owners : ∀ stat now name, (freshIndex stat now held.texts : FileIndex τ).owners name = index.owners name := by
    intro stat now name
    rw [(fresh stat now).owners, holds.owners, (reparsed_owners reaches.corresponds _).1]
  constructor
  · intro path
    rw [holds.files]
    cases held.at path <;> rfl
  · exact holds.objects
  · exact holds.procedures
  · intro path
    refine ⟨?_, ?_⟩
    · rw [holds.objectsSnapshot_eq]
      cases held.at path with
      | none => exact List.nodup_nil
      | some file => exact nodup_names _
    · intro name
      rw [holds.objectsSnapshot_eq, holds.objects, getD_nonempty]
      exact mem_names_at ObjectEntry.path own_objects holds.distinct path name
  · intro path
    refine ⟨?_, ?_⟩
    · rw [holds.proceduresSnapshot_eq]
      cases held.at path with
      | none => exact List.nodup_nil
      | some file => exact nodup_names _
    · intro name
      rw [holds.proceduresSnapshot_eq, holds.procedures, getD_nonempty]
      exact mem_names_at CachedProcedureInfo.file own_procedures holds.distinct path name
  · intro path empty
    rw [holds.pathToProcedures] at empty
    obtain ⟨file, -, none⟩ := Option.bind_eq_some_iff.mp empty
    cases listed : names file.procedures <;> rw [listed] at none <;> cases none
  · intro stat now name
    rw [FileIndex.objectPath, FileIndex.objectPath, owners]
  · intro stat now name kinds
    rw [FileIndex.objectPathOfKind, FileIndex.objectPathOfKind, owners]
  · intro stat now name from_ kindMatches
    rw [(holds.objectPathWhere name from_ kindMatches).1, ((fresh stat now).objectPathWhere name from_ kindMatches).1,
      (reparsed_owners reaches.corresponds _).1]
  · intro stat now name
    rw [FileIndex.lookupProcedures, FileIndex.lookupProcedures, holds.procedures, (fresh stat now).procedures,
      (reparsed_owners reaches.corresponds _).2]

end Lookups

/-! ## Two files with one object name -/

def installCode : String := "codeunit 50100 Install { }"

def namelessCode : String := "codeunit 50100 { }"

/-- What the parser finds in a text with one codeunit, with and without a name. -/
@[reducible] def installParser : AlSyntax Unit where
  parseQuick _ := ()
  findObjectDeclarations _ content :=
    if content = installCode then [⟨"codeunit", some 50100, "Install", ⟨0, 26⟩⟩]
    else if content = namelessCode then [⟨"codeunit", some 50100, "", ⟨0, 18⟩⟩]
    else []
  extractDocumentSymbols _ content :=
    if content = installCode then [⟨"Install", some "codeunit 50100", .class_, ⟨0, 0, 0, 26⟩, ⟨0, 15, 0, 22⟩, none⟩]
    else if content = namelessCode then
      [⟨"(unnamed)", some "codeunit 50100", .class_, ⟨0, 0, 0, 18⟩, ⟨0, 0, 0, 8⟩, none⟩]
    else []

@[reducible] def noApps : AppFiles := ⟨fun _ => false, fun _ => {}⟩

section Examples

attribute [local instance] CaseMapping.latin1 installParser noApps

theorem reaches_asFresh_install :
    AsFresh ((({} : FileIndex Unit).addFile ["a.al"] installCode none 0).addFileWithTree ["a.al"] installCode ())
      [⟨["a.al"], installCode, ()⟩] :=
  reaches_asFresh (.addFileWithTree ["a.al"] installCode () ⟨rfl, rfl⟩ (.addFile ["a.al"] installCode none 0 .new))

/-- The file that comes first is indexed again, and a file declares an object without a name. -/
theorem lookups_follow_edits :
    (let index := ((({} : FileIndex Unit).addFile ["a.al"] installCode none 0).addFile ["b.al"] installCode none 0).addFile
        ["a.al"] installCode none 0
      let fresh : FileIndex Unit := freshIndex (fun _ => none) 0 [(["a.al"], installCode), (["b.al"], installCode)]
      index.objectPath "Install" = some ["b.al"] ∧ fresh.objectPath "Install" = some ["a.al"]) ∧
      (({} : FileIndex Unit).addFile ["a.al"] namelessCode none 0).pathToObject.get? ["a.al"] = some [] := by
  decide +kernel

end Examples

end AlLanguage.Source
