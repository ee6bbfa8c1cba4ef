import AlLanguage.Library.Owned
import AlLanguage.Runtime.Text
import AlLanguage.Source.Documents

/-!
# The file index

The texts, trees and declarations of the files of a workspace. What re-indexing a file does to the maps is a list of
single changes.
-/

namespace AlLanguage.Source

open Library AlLanguage.Runtime

/-- A path as its components. -/
abbrev FilePath := List String

/-! ## What the parser finds in a file -/

structure SourceRange where
  startByte : Nat
  endByte : Nat
  deriving DecidableEq

/-- One object that a file declares. -/
structure CachedObjectInfo where
  kind : String
  id : Option Int
  name : String
  range : SourceRange
  deriving DecidableEq

inductive SyntaxSymbolKind where
  | file | module_ | namespace_ | class_ | method | property | field | constructor_ | enum_ | enumMember | interface
  | function | variable_ | constant_ | string | number | boolean | array | object | struct | event | operator
  | typeParameter | key
  deriving DecidableEq

structure SyntaxDocumentSymbol where
  name : String
  detail : Option String
  kind : SyntaxSymbolKind
  range : TextRange
  selectionRange : TextRange
  children : Option (List SyntaxDocumentSymbol)

/-- The parser, with trees of the type `τ`. -/
class AlSyntax (τ : Type) where
  parseQuick : String → τ
  findObjectDeclarations : τ → String → List CachedObjectInfo
  extractDocumentSymbols : τ → String → List SyntaxDocumentSymbol

structure AppIdentity where
  id : String := ""
  dependencyIds : List String := []

/-- The manifests of the apps on the disk. -/
class AppFiles where
  /-- The directory holds an `app.json`. -/
  hasAppJson : FilePath → Bool
  readIdentity : FilePath → AppIdentity

/-! ## The index -/

structure FileMetadata where
  /-- In nanoseconds. -/
  modified : Nat
  size : Nat
  deriving DecidableEq

/-- One owner of an object name. -/
structure ObjectEntry where
  kind : String
  path : FilePath
  appRoot : Option FilePath
  deriving DecidableEq

structure CachedProcedureInfo where
  file : FilePath
  selectionRange : TextRange
  deriving DecidableEq

structure FileIndex (τ : Type) where
  files : OrderedMap FilePath String := .empty
  objects : OrderedMap String (List ObjectEntry) := .empty
  pathToObject : OrderedMap FilePath (List String) := .empty
  fileMetadata : OrderedMap FilePath FileMetadata := .empty
  racy : List FilePath := []
  objectInfo : OrderedMap FilePath CachedObjectInfo := .empty
  objectInfos : OrderedMap FilePath (List CachedObjectInfo) := .empty
  fileTrees : OrderedMap FilePath (String × τ) := .empty
  fileSymbols : OrderedMap FilePath (List SyntaxDocumentSymbol) := .empty
  procedures : OrderedMap String (List CachedProcedureInfo) := .empty
  pathToProcedures : OrderedMap FilePath (List String) := .empty
  dirAppRoot : OrderedMap FilePath (Option FilePath) := .empty
  apps : OrderedMap FilePath AppIdentity := .empty

/-! ## App roots -/

/-- The ancestors of a directory, itself first, out of its components from the last to the first. -/
def ancestors : List String → List FilePath
  | [] => [[]]
  | component :: rest => (component :: rest).reverse :: ancestors rest

/-- The directories that were looked at, and the first of them with an `app.json`. -/
def searchAppRoot [AppFiles] (memo : OrderedMap FilePath (Option FilePath)) : List FilePath → List FilePath × Option FilePath
  | [] => ([], none)
  | dir :: rest =>
    match memo.get? dir with
    | some cached => ([], cached)
    | none =>
      if AppFiles.hasAppJson dir then ([dir], some dir)
      else
        let (visited, found) := searchAppRoot memo rest
        (dir :: visited, found)

/-- `Path::parent`. -/
def parent (file : FilePath) : Option FilePath := if file.isEmpty then none else some file.dropLast

/-! ## Changes of the maps -/

inductive IndexWrite (τ : Type) where
  | markRacy (path : FilePath)
  | unmarkRacy (path : FilePath)
  | recordMetadata (path : FilePath) (metadata : FileMetadata)
  | dropMetadata (path : FilePath)
  | rememberRoot (dir : FilePath) (root : Option FilePath)
  | cacheTree (path : FilePath) (content : String) (tree : τ)
  | dropTree (path : FilePath)
  | cacheInfo (path : FilePath) (info : CachedObjectInfo)
  | dropInfo (path : FilePath)
  | cacheInfos (path : FilePath) (infos : List CachedObjectInfo)
  | dropInfos (path : FilePath)
  | recordObjects (path : FilePath) (names : List String)
  | dropObjects (path : FilePath)
  /-- The owners of a name, with those of one file replaced. -/
  | swapObject (name : String) (path : FilePath) (entries : List ObjectEntry)
  | removeOwnedObjectMapping (name : String) (path : FilePath)
  | swapProcedure (name : String) (path : FilePath) (infos : List CachedProcedureInfo)
  | removeOwnedProcedure (name : String) (path : FilePath)
  | recordProcedures (path : FilePath) (names : List String)
  | dropProcedures (path : FilePath)
  | cacheSymbols (path : FilePath) (symbols : List SyntaxDocumentSymbol)
  | dropSymbols (path : FilePath)
  | storeContent (path : FilePath) (content : String)
  | dropContent (path : FilePath)

namespace IndexWrite

variable {τ : Type}

def apply (index : FileIndex τ) : IndexWrite τ → FileIndex τ
  | markRacy path => { index with racy := if path ∈ index.racy then index.racy else path :: index.racy }
  | unmarkRacy path => { index with racy := index.racy.filter (· ≠ path) }
  | recordMetadata path metadata => { index with fileMetadata := index.fileMetadata.insert path metadata }
  | dropMetadata path => { index with fileMetadata := index.fileMetadata.erase path }
  | rememberRoot dir root => { index with dirAppRoot := index.dirAppRoot.insert dir root }
  | cacheTree path content tree => { index with fileTrees := index.fileTrees.insert path (content, tree) }
  | dropTree path => { index with fileTrees := index.fileTrees.erase path }
  | cacheInfo path info => { index with objectInfo := index.objectInfo.insert path info }
  | dropInfo path => { index with objectInfo := index.objectInfo.erase path }
  | cacheInfos path infos => { index with objectInfos := index.objectInfos.insert path infos }
  | dropInfos path => { index with objectInfos := index.objectInfos.erase path }
  | recordObjects path names => { index with pathToObject := index.pathToObject.insert path names }
  | dropObjects path => { index with pathToObject := index.pathToObject.erase path }
  | swapObject name path entries => { index with objects := swapOwned (·.path = path) index.objects name entries }
  | removeOwnedObjectMapping name path => { index with objects := removeOwned (·.path = path) index.objects name }
  | swapProcedure name path infos => { index with procedures := swapOwned (·.file = path) index.procedures name infos }
  | removeOwnedProcedure name path => { index with procedures := removeOwned (·.file = path) index.procedures name }
  | recordProcedures path names => { index with pathToProcedures := index.pathToProcedures.insert path names }
  | dropProcedures path => { index with pathToProcedures := index.pathToProcedures.erase path }
  | cacheSymbols path symbols => { index with fileSymbols := index.fileSymbols.insert path symbols }
  | dropSymbols path => { index with fileSymbols := index.fileSymbols.erase path }
  | storeContent path content => { index with files := index.files.insert path content }
  | dropContent path => { index with files := index.files.erase path }

end IndexWrite

/-! ## Declarations by name -/

section Declarations

variable [CaseMapping]

/-- The owner entries of a file by lower-cased name. Objects without a name have none. -/
def declaredObjects (path : FilePath) (appRoot : Option FilePath) (infos : List CachedObjectInfo) :
    List (String × ObjectEntry) :=
  (infos.filter fun info => !info.name.isEmpty).map fun info => (toLowercase info.name, ⟨info.kind, path, appRoot⟩)

/-- The procedures and events of a file by lower-cased name. -/
def declaredProcedures (path : FilePath) (symbols : List SyntaxDocumentSymbol) : List (String × CachedProcedureInfo) :=
  (symbols.flatMap fun symbol =>
      (symbol.children.getD []).filter fun child => child.kind = .function || child.kind = .event).map
    fun child => (toLowercase child.name, ⟨path, child.selectionRange⟩)

end Declarations

namespace FileIndex

variable {τ : Type} (index : FileIndex τ)

def writeAll (writes : List (IndexWrite τ)) : FileIndex τ := writes.foldl IndexWrite.apply index

section AppRoots

variable [AppFiles]

/-- What `app_root_for` finds, with the directories to remember it for. -/
def searchRootOf (file : FilePath) : List FilePath × Option FilePath :=
  match parent file with
  | none => ([], none)
  | some start =>
    match index.dirAppRoot.get? start with
    | some cached => ([], cached)
    | none => searchAppRoot index.dirAppRoot (ancestors start.reverse)

def appRootWrites (file : FilePath) : List (IndexWrite τ) :=
  let (visited, found) := index.searchRootOf file
  visited.map fun dir => .rememberRoot dir found

def appRootFor (file : FilePath) : Option FilePath × FileIndex τ :=
  ((index.searchRootOf file).2, index.writeAll (index.appRootWrites file))

def appIdentity (appRoot : FilePath) : AppIdentity × FileIndex τ :=
  match index.apps.get? appRoot with
  | some cached => (cached, index)
  | none =>
    let identity := AppFiles.readIdentity appRoot
    (identity, { index with apps := index.apps.insert appRoot identity })

end AppRoots

/-! ## Indexing -/

section Indexing

variable [CaseMapping] [AppFiles] [AlSyntax τ]

/-- What `index_from_result` does to the maps of objects. -/
def objectWrites (path : FilePath) (content : String) (tree : τ) : List (IndexWrite τ) :=
  match AlSyntax.findObjectDeclarations tree content with
  | [] => [.dropInfo path, .dropInfos path, .dropObjects path]
  | info :: rest =>
    let byName := groupNamed (declaredObjects path (index.searchRootOf path).2 (info :: rest))
    index.appRootWrites path ++ byName.map (fun named => .swapObject named.1 path named.2) ++
      [.recordObjects path (byName.map (·.1)), .cacheInfo path info, .cacheInfos path (info :: rest)]

/-- What `index_from_result` does to the maps of procedures. -/
def procedureWrites (path : FilePath) (content : String) (tree : τ) : List (IndexWrite τ) :=
  let byName := groupNamed (declaredProcedures path (AlSyntax.extractDocumentSymbols tree content))
  byName.map (fun named => .swapProcedure named.1 path named.2) ++
    [if byName.isEmpty then .dropProcedures path else .recordProcedures path (byName.map (·.1))]

/-- What `index_from_result` does, in its order. -/
def indexWrites (path : FilePath) (content : String) (tree : τ) : List (IndexWrite τ) :=
  .cacheTree path content tree :: (index.objectWrites path content tree ++ procedureWrites path content tree ++
    [.cacheSymbols path (AlSyntax.extractDocumentSymbols tree content), .storeContent path content])

def indexFromResult (path : FilePath) (content : String) (tree : τ) : FileIndex τ :=
  index.writeAll (index.indexWrites path content tree)

def objectsSnapshot (path : FilePath) : List String := (index.pathToObject.get? path).getD []

def proceduresSnapshot (path : FilePath) : List String := (index.pathToProcedures.get? path).getD []

def removeObjectsWrites (names : List String) (path : FilePath) : List (IndexWrite τ) :=
  names.map fun name => .removeOwnedObjectMapping name path

def removeProceduresWrites (names : List String) (path : FilePath) : List (IndexWrite τ) :=
  names.map fun name => .removeOwnedProcedure name path

def replaceFileEntries (path : FilePath) (content : String) (tree : τ) : FileIndex τ :=
  let oldObjects := index.objectsSnapshot path
  let oldProcedures := index.proceduresSnapshot path
  let index := index.indexFromResult path content tree
  let newObjects := index.objectsSnapshot path
  let index := index.writeAll (removeObjectsWrites (oldObjects.filter (· ∉ newObjects)) path)
  let newProcedures := index.proceduresSnapshot path
  index.writeAll (removeProceduresWrites (oldProcedures.filter (· ∉ newProcedures)) path)

/-- Two seconds. -/
def racyWindow : Nat := 2000000000

/-- Whether a file could be rewritten at this time without a change of its metadata. -/
def isRacy (metadata : FileMetadata) (readAt : Nat) : Bool :=
  if metadata.modified ≤ readAt then readAt - metadata.modified < racyWindow else true

def metadataWrites (path : FilePath) (metadata : Option FileMetadata) (now : Nat) : List (IndexWrite τ) :=
  match metadata with
  | none => []
  | some metadata => [if isRacy metadata now then .markRacy path else .unmarkRacy path, .recordMetadata path metadata]

/-- `add_file_with_meta`, with the metadata it was given or has read, at a time. -/
def addFileWithMeta (path : FilePath) (content : String) (metadata : Option FileMetadata) (now : Nat) : FileIndex τ :=
  (index.writeAll (metadataWrites path metadata now)).replaceFileEntries path content (AlSyntax.parseQuick content)

/-- `add_file`, with what reading the metadata of the path gives. -/
def addFile (path : FilePath) (content : String) (metadata : Option FileMetadata) (now : Nat) : FileIndex τ :=
  index.addFileWithMeta path content metadata now

def addFileWithTree (path : FilePath) (content : String) (tree : τ) : FileIndex τ :=
  index.replaceFileEntries path content tree

end Indexing

/-! ## Removing and replacing -/

def removeFile (path : FilePath) : FileIndex τ :=
  let index := index.writeAll [.dropContent path, .dropMetadata path, .unmarkRacy path, .dropTree path, .dropSymbols path,
    .dropInfo path, .dropInfos path]
  let procedures := index.proceduresSnapshot path
  let index := index.writeAll (.dropProcedures path :: removeProceduresWrites procedures path)
  let objects := index.objectsSnapshot path
  index.writeAll (.dropObjects path :: removeObjectsWrites objects path)

/-- The entries of a map, put into an empty one. -/
def moved {κ ν : Type} [Ord κ] [Std.TransOrd κ] (m : OrderedMap κ ν) : OrderedMap κ ν :=
  m.entries.foldl (fun filled entry => filled.insert entry.1 entry.2) .empty

/-- Every map is cleared and filled from the replacement. -/
def replaceWith (_index replacement : FileIndex τ) : FileIndex τ where
  files := moved replacement.files
  objects := moved replacement.objects
  pathToObject := moved replacement.pathToObject
  fileMetadata := moved replacement.fileMetadata
  racy := replacement.racy
  objectInfo := moved replacement.objectInfo
  objectInfos := moved replacement.objectInfos
  fileTrees := moved replacement.fileTrees
  fileSymbols := moved replacement.fileSymbols
  procedures := moved replacement.procedures
  pathToProcedures := moved replacement.pathToProcedures
  dirAppRoot := moved replacement.dirAppRoot
  apps := moved replacement.apps

/-! ## Lookups -/

section Lookups

variable [CaseMapping]

def owners (name : String) : List ObjectEntry := (index.objects.get? (toLowercase name)).getD []

def lookupProcedures (name : String) : Option (List CachedProcedureInfo) := index.procedures.get? (toLowercase name)

/-- The first owner of a name. -/
def objectPath (name : String) : Option FilePath := (index.owners name).head?.map (·.path)

def objectPathOfKind (name : String) (kinds : List String) : Option FilePath :=
  ((index.owners name).find? fun entry => kinds.any fun kind => eqIgnoreAsciiCase entry.kind kind).map (·.path)

def getCachedParse (path : FilePath) : Option (String × τ) := index.fileTrees.get? path

variable [AppFiles]

/-- 0 for the app itself, 1 for an app it depends on, 2 for any other. -/
def ownerRank (owner : ObjectEntry) (fromApp : Option FilePath) : Nat × FileIndex τ :=
  match fromApp, owner.appRoot with
  | some fromApp, some ownerApp =>
    if ownerApp = fromApp then (0, index)
    else
      let (ownerIdentity, index) := index.appIdentity ownerApp
      if ownerIdentity.id.isEmpty then (2, index)
      else
        let (identity, index) := index.appIdentity fromApp
        (if ownerIdentity.id ∈ identity.dependencyIds then 1 else 2, index)
  | _, _ => (2, index)

/-- `min_by_key`: the first of the owners with the least rank, with the rank. -/
def minByRank (fromApp : Option FilePath) : FileIndex τ → List ObjectEntry → Option (Nat × ObjectEntry) × FileIndex τ
  | index, [] => (none, index)
  | index, owner :: rest =>
    let (rank, index) := index.ownerRank owner fromApp
    let (best, index) := minByRank fromApp index rest
    match best with
    | some (least, other) => (if least < rank then some (least, other) else some (rank, owner), index)
    | none => (some (rank, owner), index)

def objectPathWhere (name : String) (from_ : Option FilePath) (kindMatches : String → Bool) :
    Option FilePath × FileIndex τ :=
  let (fromApp, index) :=
    match from_ with
    | none => (none, index)
    | some file => index.appRootFor file
  let (best, index) := minByRank fromApp index ((index.owners name).filter fun entry => kindMatches entry.kind)
  (best.map (·.2.path), index)

end Lookups

end FileIndex

end AlLanguage.Source
