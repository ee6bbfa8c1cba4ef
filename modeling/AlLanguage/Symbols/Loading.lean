import AlLanguage.Symbols.Updates

/-!
# Packages in the index

Loading, replacing and removing packages, and the queries that fill the caches.
-/

namespace AlLanguage.Symbols

open Library AlLanguage.Runtime

structure PackageLoadFailure where
  path : String
  message : String

/-- The path of a package file, with what the file system makes of it. -/
structure PackagePath where
  path : String
  canonical : Option String

def PackagePath.indexed (packagePath : PackagePath) : String := packagePath.canonical.getD packagePath.path

namespace SymbolIndex

variable [CaseMapping] (index : SymbolIndex)

/-! ## Removing -/

/-- Remove the packages with one of the folded display names. -/
def removePackagesNamed (packageNames : List String) : SymbolIndex :=
  if packageNames.isEmpty then index
  else
    let toRemove := index.select fun indexed => foldName indexed.arc.value.package ∈ packageNames
    let index := { index with
      appPaths := index.appPaths.filter fun _ record => record.nameKey ∉ packageNames
      sourcePathCache := index.sourcePathCache.filter fun key _ => key.1 ∉ packageNames }
    index.removeSelectedEntries toRemove

def removePackageEntries (packageName : String) : SymbolIndex := index.removePackagesNamed [foldName packageName]

def retainPackageEntries (packageName : String) (keep : SymbolEntry → Bool) : SymbolIndex :=
  let package := foldName packageName
  index.removeSelectedEntries
    (index.select fun indexed => foldName indexed.arc.value.package = package && !keep indexed.arc.value)

/-- The folded display names of the recorded packages with these identities. -/
def recordedNames (identities : List String) : List String :=
  (index.appPaths.entries.filter fun record => record.1 ∈ identities).map (·.2.nameKey)

/-- The folded display names of the recorded packages with other identities. -/
def survivingNames (identities : List String) : List String :=
  (index.appPaths.entries.filter fun record => record.1 ∉ identities).map (·.2.nameKey)

/-- Remove the packages with one of the identities. -/
def removePackageIdentities (identities : List String) : SymbolIndex :=
  if identities.isEmpty then index
  else
    let toRemove := index.select fun indexed => indexed.packageKey ∈ identities
    let removedNames := index.recordedNames identities
    let survivingNames := index.survivingNames identities
    let index := { index with
      appPaths := index.appPaths.filter fun identity _ => identity ∉ identities
      sourcePathCache := index.sourcePathCache.filter fun key _ => key.1 ∉ removedNames ∨ key.1 ∈ survivingNames }
    index.removeSelectedEntries toRemove

def clearLoadedPackages : SymbolIndex := index.removePackageIdentities index.appPaths.keys

/-! ## Loading -/

/-- The other packages that were loaded from the file. -/
def staleIdentities (identity indexedPath : String) : List String :=
  (index.appPaths.entries.filter fun record => record.2.path = indexedPath && record.1 ≠ identity).map (·.1)

def publishPath (identity : String) (record : AppPathRecord) : SymbolIndex :=
  { index with appPaths := index.appPaths.insert identity record }

def indexLoadedPackage (pkg : SymbolPackage) (path : Option PackagePath) : SymbolIndex :=
  let identity := packageIdentityKey pkg.appId pkg.name
  let index := index.removePackageIdentities [identity]
  let index :=
    match path with
    | none => index
    | some path =>
      let index := index.removePackageIdentities (index.staleIdentities identity path.indexed)
      index.publishPath identity ⟨foldName pkg.name, path.indexed⟩
  index.addEntriesOwnedWithKey pkg.objects (some identity)

/-- `load_package_bytes` on what the reader made of the bytes. -/
def loadPackageBytes {ε : Type} (read : Except ε SymbolPackage) : Except ε SymbolPackage × SymbolIndex :=
  match read with
  | .error e => (.error e, index)
  | .ok pkg =>
    let identity := packageIdentityKey pkg.appId pkg.name
    let index := index.removePackageIdentities [identity]
    (.ok pkg, index.addEntriesOwnedWithKey pkg.objects (some identity))

end SymbolIndex

/-! ## Batches -/

/-- The loads of a batch, if all of them have succeeded. -/
def completePackageBatch {α : Type} (parsed : List (Except PackageLoadFailure α)) :
    Except (List PackageLoadFailure) (List α) :=
  let failures := parsed.filterMap fun result => match result with | .error failure => some failure | .ok _ => none
  if failures.isEmpty then .ok (parsed.filterMap Except.toOption) else .error failures

/-- `str::parse::<u64>`. -/
def parseU64 (s : String) : Option Nat :=
  let digits := match s.toList with | '+' :: digits => digits | digits => digits
  (digitsValue digits).bind fun n => if n < 2 ^ 64 then some n else none

def versionComponents (version : String) : Option (List Nat) :=
  (version.toList.splitOn '.').mapM fun part => parseU64 (String.ofList part)

def versionAtLeast (actual minimum : String) : Bool :=
  match versionComponents actual, versionComponents minimum with
  | some actualParts, some minimumParts =>
    let width := max actualParts.length minimumParts.length
    (compare (minimumParts.rightpad width 0) (actualParts.rightpad width 0)).isLE
  | _, _ => eqIgnoreAsciiCase actual minimum

section Batches

variable [CaseMapping]

/-- Put an item into the slot of its identity, if it is newer than the one there. -/
def keepNewest {α : Type} (package : α → SymbolPackage) (identity : String) (item : α) :
    List (String × α) → List (String × α)
  | [] => [(identity, item)]
  | slot :: rest =>
    if slot.1 = identity then
      let newer := versionAtLeast (package item).version (package slot.2).version &&
        !versionAtLeast (package slot.2).version (package item).version
      (if newer then (identity, item) else slot) :: rest
    else slot :: keepNewest package identity item rest

def newestPerIdentity {α : Type} (items : List α) (package : α → SymbolPackage) : List α :=
  let kept := items.foldl (fun kept item =>
    keepNewest package (packageIdentityKey (package item).appId (package item).name) item kept) []
  kept.map (·.2)

namespace SymbolIndex

variable (index : SymbolIndex)

/-- `replace_packages_cached` on what the loads of its batch have returned. -/
def replacePackagesCached (loads : List (Except PackageLoadFailure (PackagePath × SymbolPackage × Bool))) :
    Except (List PackageLoadFailure) (List SymbolPackage) × SymbolIndex :=
  match completePackageBatch loads with
  | .error failures => (.error failures, index)
  | .ok parsed =>
    let parsed := newestPerIdentity parsed (·.2.1)
    let index := index.clearLoadedPackages
    (.ok (parsed.map (·.2.1)), parsed.foldl (fun index load => index.indexLoadedPackage load.2.1 (some load.1)) index)

def insertEach {κ ν : Type} [Ord κ] [Std.TransOrd κ] (m : OrderedMap κ ν) (entries : List (κ × ν)) : OrderedMap κ ν :=
  entries.foldl (fun m entry => m.insert entry.1 entry.2) m

/-- An index without entries that counts on from this one. -/
def emptied (replacement : SymbolIndex) : SymbolIndex :=
  { mutation := index.mutation
    eventCatalogCache := index.eventCatalogCache
    nextAddress := max index.nextAddress replacement.nextAddress }

def replaceWith (replacement : SymbolIndex) : SymbolIndex :=
  let rebuilt := replacement.all.values.foldl (fun index entry => index.addArc entry.arc entry.packageKey)
    (index.emptied replacement)
  let index := rebuilt.updateSortedNamesAfterAdd (replacement.all.values.map (·.arc)) false
  let index := { index with
    appPaths := insertEach index.appPaths replacement.appPaths.entries
    sourcePathCache := insertEach index.sourcePathCache replacement.sourcePathCache.entries }
  index.noteMutation

/-! ## Queries -/

/-- `sort_unstable` and `dedup`. -/
def sortedUnique (names : List String) : List String :=
  (names.insertionSort fun a b => compare a b ≠ .gt).destutter (· ≠ ·)

/-- The sorted names, built when there are none. -/
def querySortedNames : List String × SymbolIndex :=
  match index.sortedNames with
  | some names => (names, index)
  | none =>
    let names := sortedUnique index.byName.keys
    (names, { index with sortedNames := some names })

def getComposedCached [LanguageData] (kind : ObjectKind) (name : String) : Option ComposedObject × SymbolIndex :=
  let key := (kind, toLowercase name)
  match index.composedCache.get? key with
  | some cached => (some cached, index)
  | none =>
    match getComposed index kind name with
    | none => (none, index)
    | some object => (some object, { index with composedCache := index.composedCache.insert key object })

def eventCatalog : EventCatalog × SymbolIndex :=
  let generation := index.mutation
  let build : EventCatalog × SymbolIndex :=
    let catalog := buildEventCatalog index
    (catalog, { index with eventCatalogCache := some ⟨generation, catalog⟩ })
  match index.eventCatalogCache with
  | some cached => if cached.generation = generation then (cached.catalog, index) else build
  | none => build

def cacheSourcePath (package : String) (kind : ObjectKind) (id : Int32) (path : String) : SymbolIndex :=
  { index with sourcePathCache := index.sourcePathCache.insert (foldName package, kind, id) path }

def getCachedSourcePath (package : String) (kind : ObjectKind) (id : Int32) : Option String :=
  index.sourcePathCache.get? (foldName package, kind, id)

end SymbolIndex

end Batches

end AlLanguage.Symbols
