import AlLanguage.Symbols.Agreement
import AlLanguage.Symbols.AppReader

/-!
# Views of the symbol index

Over any run of updates, package loads and queries the views agree with the entries, a load replaces what it stands for,
and the source paths of a dropped package are gone.
-/

namespace AlLanguage.Symbols

open Library AlLanguage.Runtime

namespace SymbolIndex

variable [CaseMapping] {index : SymbolIndex}

/-! ## Removing packages -/

/-- A recorded package with the folded display name is among the identities, and none outside of them has it. -/
def Dropped (index : SymbolIndex) (identities : List String) (name : String) : Prop :=
  name ∈ index.recordedNames identities ∧ name ∉ index.survivingNames identities

omit [CaseMapping] in
theorem mem_recordedNames {identities : List String} {name : String} :
    name ∈ index.recordedNames identities ↔
      ∃ record ∈ index.appPaths.entries, record.1 ∈ identities ∧ record.2.nameKey = name := by
  simp [recordedNames, and_assoc]

omit [CaseMapping] in
theorem mem_survivingNames {identities : List String} {name : String} :
    name ∈ index.survivingNames identities ↔
      ∃ record ∈ index.appPaths.entries, record.1 ∉ identities ∧ record.2.nameKey = name := by
  simp [survivingNames, and_assoc]

/-- What a removal by identity does to the index. -/
structure RemovedIdentities (index index' : SymbolIndex) (identities : List String) : Prop where
  contents : index'.contents = index.contents.filter fun entry => entry.2 ∉ identities
  appPaths : index'.appPaths.entries = index.appPaths.entries.filter fun record => record.1 ∉ identities
  dropped : ∀ name kind id, index.Dropped identities name → index'.sourcePathCache.get? (name, kind, id) = none
  kept : ∀ key path, index'.sourcePathCache.get? key = some path → index.sourcePathCache.get? key = some path

omit [CaseMapping] in
theorem get?_filter_key {ν : Type} {m : OrderedMap (String × ObjectKind × Int32) ν}
    {p : String × ObjectKind × Int32 → Bool} {key : String × ObjectKind × Int32} {v : ν}
    (found : (m.filter fun key _ => p key).get? key = some v) : m.get? key = some v ∧ p key = true := by
  obtain ⟨stored, member, same⟩ := (OrderedMap.get?_eq_some_iff ..).mp found
  obtain ⟨inside, chosen⟩ := List.mem_filter.mp member
  obtain rfl := Std.LawfulEqCmp.eq_of_compare same
  exact ⟨(OrderedMap.get?_eq_some_iff ..).mpr ⟨key, inside, Std.ReflCmp.compare_self⟩, chosen⟩

theorem removedIdentities (index : SymbolIndex) (identities : List String) :
    RemovedIdentities index (index.removePackageIdentities identities) identities := by
  rw [removePackageIdentities]
  split
  next none =>
    obtain rfl := List.isEmpty_iff.mp none
    refine ⟨by simp, by simp, ?_, fun _ _ found => found⟩
    intro name kind id dropped
    obtain ⟨record, -, inside, -⟩ := mem_recordedNames.mp dropped.1
    cases inside
  next =>
    dsimp only
    obtain ⟨appPaths, sourcePaths⟩ := removed_paths
      { index with
        appPaths := index.appPaths.filter fun identity _ => identity ∉ identities
        sourcePathCache := index.sourcePathCache.filter fun key _ =>
          key.1 ∉ index.recordedNames identities ∨ key.1 ∈ index.survivingNames identities }
      (index.select fun indexed => indexed.packageKey ∈ identities)
    have contents := contents_removed
      { index with
        appPaths := index.appPaths.filter fun identity _ => identity ∉ identities
        sourcePathCache := index.sourcePathCache.filter fun key _ =>
          key.1 ∉ index.recordedNames identities ∨ key.1 ∈ index.survivingNames identities }
      (fun indexed => indexed.packageKey ∈ identities)
    refine ⟨contents.trans ?_, ?_, ?_, ?_⟩
    · rw [SymbolIndex.contents, List.filter_map]
      simp [Function.comp_def]
    · rw [appPaths]
      rfl
    · intro name kind id dropped
      rw [sourcePaths]
      by_contra found
      obtain ⟨path, found⟩ := Option.ne_none_iff_exists'.mp found
      have chosen := (get?_filter_key found).2
      simp only [decide_eq_true_eq] at chosen
      exact chosen.elim (· dropped.1) dropped.2
    · intro key path found
      rw [sourcePaths] at found
      exact (get?_filter_key found).1

theorem Agrees.removePackageIdentities [LanguageData] (agrees : index.Agrees) (identities : List String) :
    (index.removePackageIdentities identities).Agrees := by
  rw [SymbolIndex.removePackageIdentities]
  split
  · exact agrees
  · exact (agrees.withPaths _ _).removeSelectedEntries fun indexed => indexed.packageKey ∈ identities

theorem Agrees.removePackageEntries [LanguageData] (agrees : index.Agrees) (packageName : String) :
    (index.removePackageEntries packageName).Agrees := by
  rw [SymbolIndex.removePackageEntries, removePackagesNamed]
  split
  · exact agrees
  · exact (agrees.withPaths _ _).removeSelectedEntries fun indexed =>
      foldName indexed.arc.value.package ∈ [foldName packageName]

theorem removePackageEntries_paths (index : SymbolIndex) (packageName : String) :
    (index.removePackageEntries packageName).sourcePathCache =
      index.sourcePathCache.filter fun key _ => key.1 ∉ [foldName packageName] := by
  rw [SymbolIndex.removePackageEntries, removePackagesNamed]
  exact (removed_paths _ _).2

/-! ## Loading packages -/

/-- The index without the package that a load from a file replaces and without the others of that file. -/
def withoutFile (index : SymbolIndex) (identity : String) (path : Option PackagePath) : SymbolIndex :=
  match path with
  | none => index.removePackageIdentities [identity]
  | some path =>
    (index.removePackageIdentities [identity]).removePackageIdentities
      ((index.removePackageIdentities [identity]).staleIdentities identity path.indexed)

/-- The packages that a load replaces. -/
def replacedBy (index : SymbolIndex) (identity : String) (path : Option PackagePath) : List String :=
  identity :: path.elim [] fun path => index.staleIdentities identity path.indexed

theorem indexLoadedPackage_eq (index : SymbolIndex) (pkg : SymbolPackage) (path : Option PackagePath) :
    ∃ appPaths, index.indexLoadedPackage pkg path =
      SymbolIndex.addEntriesOwnedWithKey
        { index.withoutFile (packageIdentityKey pkg.appId pkg.name) path with appPaths := appPaths } pkg.objects
        (some (packageIdentityKey pkg.appId pkg.name)) := by
  cases path with
  | none => exact ⟨_, rfl⟩
  | some path => exact ⟨_, rfl⟩

theorem removedIdentities_stale (index : SymbolIndex) (identity path : String) :
    (index.removePackageIdentities [identity]).staleIdentities identity path = index.staleIdentities identity path := by
  rw [staleIdentities, (removedIdentities index [identity]).appPaths, List.filter_filter, staleIdentities]
  congr 2
  funext record
  by_cases same : record.1 = identity <;> simp [same]

omit [CaseMapping] in
/-- Removing one package and then others removes them all. -/
theorem RemovedIdentities.trans {index' index'' : SymbolIndex} {identity : String} {others : List String}
    (first : RemovedIdentities index index' [identity]) (second : RemovedIdentities index' index'' others) :
    RemovedIdentities index index'' (identity :: others) := by
  refine ⟨?_, ?_, ?_, fun key path found => first.kept key path (second.kept key path found)⟩
  · rw [second.contents, first.contents, List.filter_filter]
    congr 1
    funext entry
    simp [Bool.and_comm]
  · rw [second.appPaths, first.appPaths, List.filter_filter]
    congr 1
    funext record
    simp [Bool.and_comm]
  · intro name kind id ⟨recorded, extinct⟩
    have outside : ∀ record ∈ index.appPaths.entries, record.2.nameKey = name → record.1 ∈ identity :: others := by
      intro record member named
      by_contra survives
      exact extinct (mem_survivingNames.mpr ⟨record, member, survives, named⟩)
    by_cases later : name ∈ index'.recordedNames others
    · apply second.dropped name kind id ⟨later, ?_⟩
      intro survives
      obtain ⟨record, member, apart, named⟩ := mem_survivingNames.mp survives
      rw [first.appPaths] at member
      obtain ⟨inside, other⟩ := List.mem_filter.mp member
      rcases List.mem_cons.mp (outside record inside named) with same | among
      · simp [same] at other
      · exact apart among
    · by_contra found
      obtain ⟨path, found⟩ := Option.ne_none_iff_exists'.mp found
      have before := second.kept _ path found
      have alone : ∀ record ∈ index.appPaths.entries, record.2.nameKey = name → record.1 ∈ [identity] := by
        intro record member named
        by_contra other
        rcases List.mem_cons.mp (outside record member named) with same | among
        · exact other (List.mem_singleton.mpr same)
        · apply later
          apply mem_recordedNames.mpr
          refine ⟨record, ?_, among, named⟩
          rw [first.appPaths]
          exact List.mem_filter.mpr ⟨member, by simpa using other⟩
      have gone : index.Dropped [identity] name := by
        constructor
        · obtain ⟨record, member, -, named⟩ := mem_recordedNames.mp recorded
          exact mem_recordedNames.mpr ⟨record, member, alone record member named, named⟩
        · intro survives
          obtain ⟨record, member, apart, named⟩ := mem_survivingNames.mp survives
          exact apart (alone record member named)
      rw [first.dropped name kind id gone] at before
      cases before

theorem removed_withoutFile (index : SymbolIndex) (identity : String) (path : Option PackagePath) :
    RemovedIdentities index (index.withoutFile identity path) (index.replacedBy identity path) := by
  cases path with
  | none => exact removedIdentities index [identity]
  | some path =>
      have stale := removedIdentities_stale index identity path.indexed
      have second := removedIdentities (index.removePackageIdentities [identity]) (index.staleIdentities identity path.indexed)
      rw [withoutFile, stale]
      exact (removedIdentities index [identity]).trans second

theorem addNewEntries_paths (index : SymbolIndex) (packageKey : Option String) (entries : List SymbolEntry) :
    (index.addNewEntries packageKey entries).1.sourcePathCache = index.sourcePathCache := by
  induction entries generalizing index with
  | nil => rfl
  | cons entry rest ih =>
      rw [addNewEntries_cons]
      exact ih _

/-- An addition of entries leaves the source paths. -/
theorem added_paths (index : SymbolIndex) (entries : List SymbolEntry) (packageKey : Option String) :
    (index.addEntriesOwnedWithKey entries packageKey).sourcePathCache = index.sourcePathCache := by
  obtain ⟨cache, invalidated⟩ := index.invalidated entries
  rw [addEntriesOwnedWithKey_eq, invalidated]
  obtain ⟨names, updated⟩ := updated_after_add _ _ _
  dsimp only
  rw [updated]
  exact addNewEntries_paths ..

theorem Agrees.withoutFile [LanguageData] (agrees : index.Agrees) (identity : String) (path : Option PackagePath) :
    (index.withoutFile identity path).Agrees := by
  cases path with
  | none => exact agrees.removePackageIdentities _
  | some path => exact (agrees.removePackageIdentities _).removePackageIdentities _

theorem Agrees.indexLoadedPackage [LanguageData] (agrees : index.Agrees) (pkg : SymbolPackage)
    (path : Option PackagePath) : (index.indexLoadedPackage pkg path).Agrees := by
  obtain ⟨appPaths, loaded⟩ := index.indexLoadedPackage_eq pkg path
  rw [loaded]
  apply Agrees.addEntriesOwnedWithKey
  exact (agrees.withoutFile _ path).withPaths appPaths _

theorem Agrees.contents_indexLoadedPackage [LanguageData] (agrees : index.Agrees) (pkg : SymbolPackage)
    (path : Option PackagePath) :
    (index.indexLoadedPackage pkg path).contents =
      (index.contents.filter fun entry => entry.2 ∉ index.replacedBy (packageIdentityKey pkg.appId pkg.name) path) ++
        pkg.objects.map fun entry => (entry, packageIdentityKey pkg.appId pkg.name) := by
  obtain ⟨appPaths, loaded⟩ := index.indexLoadedPackage_eq pkg path
  have without := agrees.withoutFile (packageIdentityKey pkg.appId pkg.name) path
  rw [loaded, ((without.withPaths appPaths _).grouped).contents_added]
  congr 1
  exact (index.removed_withoutFile _ path).contents

theorem indexLoadedPackage_paths (index : SymbolIndex) (pkg : SymbolPackage) (path : Option PackagePath) :
    (index.indexLoadedPackage pkg path).sourcePathCache =
      (index.withoutFile (packageIdentityKey pkg.appId pkg.name) path).sourcePathCache := by
  obtain ⟨appPaths, loaded⟩ := index.indexLoadedPackage_eq pkg path
  rw [loaded]
  exact added_paths ..

theorem indexLoadedPackage_kept (index : SymbolIndex) (pkg : SymbolPackage) (path : Option PackagePath)
    {key : String × ObjectKind × Int32} {source : String}
    (found : (index.indexLoadedPackage pkg path).sourcePathCache.get? key = some source) :
    index.sourcePathCache.get? key = some source := by
  rw [indexLoadedPackage_paths] at found
  exact (index.removed_withoutFile _ path).kept key source found

theorem loadEach_kept (index : SymbolIndex) (loads : List (PackagePath × SymbolPackage × Bool))
    {key : String × ObjectKind × Int32} {source : String}
    (found : (loads.foldl (fun index load => index.indexLoadedPackage load.2.1 (some load.1)) index).sourcePathCache.get?
      key = some source) : index.sourcePathCache.get? key = some source := by
  induction loads generalizing index with
  | nil => exact found
  | cons load rest ih => exact indexLoadedPackage_kept index _ _ (ih _ found)

theorem Agrees.loadEach [LanguageData] (agrees : index.Agrees) (loads : List (PackagePath × SymbolPackage × Bool)) :
    (loads.foldl (fun index load => index.indexLoadedPackage load.2.1 (some load.1)) index).Agrees := by
  induction loads generalizing index with
  | nil => exact agrees
  | cons load rest ih => exact ih (agrees.indexLoadedPackage load.2.1 (some load.1))

end SymbolIndex

/-! ## Runs -/

inductive Operation where
  | addEntries (entries : List SymbolEntry)
  | indexLoadedPackage (pkg : SymbolPackage) (path : Option PackagePath)
  | loadPackageBytes (read : Except AppReaderError SymbolPackage)
  | removePackageEntries (packageName : String)
  | retainPackageEntries (packageName : String) (keep : SymbolEntry → Bool)
  | replacePackagesCached (loads : List (Except PackageLoadFailure (PackagePath × SymbolPackage × Bool)))
  | replaceWith (replacement : SymbolIndex)
  | querySortedNames
  | getComposedCached (kind : ObjectKind) (name : String)
  | eventCatalog
  | cacheSourcePath (package : String) (kind : ObjectKind) (id : Int32) (path : String)

section Runs

variable [CaseMapping] [LanguageData]

namespace Operation

def apply (index : SymbolIndex) : Operation → SymbolIndex
  | addEntries entries => index.addEntries entries
  | indexLoadedPackage pkg path => index.indexLoadedPackage pkg path
  | loadPackageBytes read => (index.loadPackageBytes read).2
  | removePackageEntries packageName => index.removePackageEntries packageName
  | retainPackageEntries packageName keep => index.retainPackageEntries packageName keep
  | replacePackagesCached loads => (index.replacePackagesCached loads).2
  | replaceWith replacement => index.replaceWith replacement
  | querySortedNames => index.querySortedNames.2
  | getComposedCached kind name => (index.getComposedCached kind name).2
  | eventCatalog => index.eventCatalog.2
  | cacheSourcePath package kind id path => index.cacheSourcePath package kind id path

/-- The operation takes the last recorded package with the folded display name out of the index or replaces it. -/
def Drops (index : SymbolIndex) (name : String) : Operation → Prop
  | indexLoadedPackage pkg path => index.Dropped (index.replacedBy (packageIdentityKey pkg.appId pkg.name) path) name
  | loadPackageBytes (.ok pkg) => index.Dropped [packageIdentityKey pkg.appId pkg.name] name
  | removePackageEntries packageName => foldName packageName = name
  | replacePackagesCached loads => (∃ parsed, completePackageBatch loads = .ok parsed) ∧ name ∈ index.recordedNames index.appPaths.keys
  | _ => False

/-- The operation can bring in source paths of packages with the folded display name. -/
def Caches (name : String) : Operation → Prop
  | cacheSourcePath package _ _ _ => foldName package = name
  | replaceWith _ => True
  | _ => False

end Operation

/-- An index that operations have led to, from a new one. -/
inductive Reachable : SymbolIndex → Prop
  | new : Reachable {}
  | operation {index : SymbolIndex} (operation : Operation) (reachable : Reachable index)
      (replacements : ∀ replacement, operation = .replaceWith replacement → Reachable replacement) :
      Reachable (operation.apply index)

theorem Operation.agrees {index : SymbolIndex} (operation : Operation) (agrees : index.Agrees)
    (replacements : ∀ replacement, operation = .replaceWith replacement → replacement.Agrees) :
    (operation.apply index).Agrees := by
  cases operation with
  | addEntries entries => exact agrees.addEntriesOwnedWithKey entries none
  | indexLoadedPackage pkg path => exact agrees.indexLoadedPackage pkg path
  | loadPackageBytes read =>
      cases read with
      | error e => exact agrees
      | ok pkg => exact (agrees.removePackageIdentities _).addEntriesOwnedWithKey pkg.objects _
  | removePackageEntries packageName => exact agrees.removePackageEntries packageName
  | retainPackageEntries packageName keep => exact agrees.removeSelectedEntries _
  | replacePackagesCached loads =>
      rw [apply, SymbolIndex.replacePackagesCached]
      split
      next => exact agrees
      next parsed complete => exact (agrees.removePackageIdentities _).loadEach _
  | replaceWith replacement => exact agrees.replaceWith (replacements replacement rfl)
  | querySortedNames => exact agrees.querySortedNames
  | getComposedCached kind name => exact agrees.getComposedCached kind name
  | eventCatalog => exact agrees.eventCatalog
  | cacheSourcePath package kind id path => exact agrees.withPaths _ _

theorem reachable_agrees {index : SymbolIndex} (reachable : Reachable index) : index.Agrees := by
  induction reachable with
  | new => exact SymbolIndex.agrees_new
  | operation operation _ _ agrees others => exact operation.agrees agrees others

/-! ## Source paths -/

/-- Every operation but those that cache a path keeps the absence of one. -/
theorem Operation.kept {index : SymbolIndex} {name : String} (operation : Operation) (silent : ¬operation.Caches name)
    {kind : ObjectKind} {id : Int32} {path : String}
    (found : (operation.apply index).sourcePathCache.get? (name, kind, id) = some path) :
    index.sourcePathCache.get? (name, kind, id) = some path := by
  cases operation with
  | addEntries entries => exact index.added_paths entries none ▸ found
  | indexLoadedPackage pkg path => exact SymbolIndex.indexLoadedPackage_kept index pkg path found
  | loadPackageBytes read =>
      cases read with
      | error e => exact found
      | ok pkg =>
          rw [apply, SymbolIndex.loadPackageBytes, SymbolIndex.added_paths] at found
          exact (SymbolIndex.removedIdentities index _).kept _ path found
  | removePackageEntries packageName =>
      rw [apply, SymbolIndex.removePackageEntries_paths] at found
      exact (SymbolIndex.get?_filter_key found).1
  | retainPackageEntries packageName keep =>
      rw [apply, SymbolIndex.retainPackageEntries, (SymbolIndex.removed_paths _ _).2] at found
      exact found
  | replacePackagesCached loads =>
      rw [apply, SymbolIndex.replacePackagesCached] at found
      split at found
      next => exact found
      next parsed complete =>
        exact (SymbolIndex.removedIdentities index _).kept _ path (SymbolIndex.loadEach_kept _ _ found)
  | replaceWith replacement => exact absurd trivial silent
  | querySortedNames =>
      rw [apply, SymbolIndex.querySortedNames] at found
      split at found <;> exact found
  | getComposedCached kind' name' =>
      rw [apply, SymbolIndex.getComposedCached] at found
      split at found
      next => exact found
      next => split at found <;> exact found
  | eventCatalog =>
      rw [apply, SymbolIndex.eventCatalog] at found
      split at found
      next => split at found <;> exact found
      next => exact found
  | cacheSourcePath package kind' id' path' =>
      rw [apply, SymbolIndex.cacheSourcePath, OrderedMap.get?_insert] at found
      split at found
      next same =>
        cases Std.LawfulEqCmp.eq_of_compare same
        exact absurd rfl silent
      next => exact found

theorem Operation.dropped {index : SymbolIndex} {name : String} {operation : Operation} (drops : operation.Drops index name)
    (kind : ObjectKind) (id : Int32) : (operation.apply index).sourcePathCache.get? (name, kind, id) = none := by
  cases operation with
  | indexLoadedPackage pkg path =>
      rw [apply, SymbolIndex.indexLoadedPackage_paths]
      exact (index.removed_withoutFile _ path).dropped name kind id drops
  | loadPackageBytes read =>
      cases read with
      | error e => exact drops.elim
      | ok pkg =>
          rw [apply, SymbolIndex.loadPackageBytes, SymbolIndex.added_paths]
          exact (SymbolIndex.removedIdentities index _).dropped name kind id drops
  | removePackageEntries packageName =>
      rw [apply, SymbolIndex.removePackageEntries_paths]
      by_contra found
      obtain ⟨path, found⟩ := Option.ne_none_iff_exists'.mp found
      have chosen := (SymbolIndex.get?_filter_key found).2
      simp only [Drops] at drops
      simp [drops] at chosen
  | replacePackagesCached loads =>
      obtain ⟨⟨parsed, complete⟩, recorded⟩ := drops
      have extinct : name ∉ index.survivingNames index.appPaths.keys := by
        intro survives
        obtain ⟨record, member, apart, -⟩ := SymbolIndex.mem_survivingNames.mp survives
        exact apart (List.mem_map_of_mem member)
      have gone := (SymbolIndex.removedIdentities index index.appPaths.keys).dropped name kind id ⟨recorded, extinct⟩
      rw [apply, SymbolIndex.replacePackagesCached, complete]
      by_contra found
      obtain ⟨path, found⟩ := Option.ne_none_iff_exists'.mp found
      have before := SymbolIndex.loadEach_kept _ _ found
      rw [SymbolIndex.clearLoadedPackages, gone] at before
      cases before
  | _ => exact drops.elim

theorem run_dropped {name : String} {kind : ObjectKind} {id : Int32} (later : List Operation)
    (silent : ∀ operation ∈ later, ¬operation.Caches name) {index : SymbolIndex}
    (none : index.sourcePathCache.get? (name, kind, id) = .none) :
    (later.foldl Operation.apply index).sourcePathCache.get? (name, kind, id) = .none := by
  induction later generalizing index with
  | nil => exact none
  | cons operation rest ih =>
      apply ih fun other member => silent other (List.mem_cons_of_mem _ member)
      by_contra found
      obtain ⟨path, found⟩ := Option.ne_none_iff_exists'.mp found
      rw [operation.kept (silent operation List.mem_cons_self) found] at none
      cases none

omit [LanguageData] in
theorem replaceWith_paths (index : SymbolIndex) {replacement : SymbolIndex} (other : replacement.Grouped)
    (key : String × ObjectKind × Int32) :
    (index.replaceWith replacement).sourcePathCache.get? key = replacement.sourcePathCache.get? key := by
  obtain ⟨-, -, -, -, -, -, empty⟩ := index.emptied_rebuilt other
  have distinct : replacement.sourcePathCache.entries.Pairwise fun a b => compare a.1 b.1 ≠ .eq := by
    apply replacement.sourcePathCache.sorted.imp
    intro a b before
    simp [before]
  have copied : (index.replaceWith replacement).sourcePathCache =
      SymbolIndex.insertEach .empty replacement.sourcePathCache.entries :=
    congrArg (SymbolIndex.insertEach · replacement.sourcePathCache.entries) empty
  refine Option.ext fun path => ?_
  rw [copied, SymbolIndex.insertEach, OrderedMap.get?_foldl_insert distinct,
    replacement.sourcePathCache.get?_eq_some_iff]
  constructor
  · rintro (⟨e, member, same, rfl⟩ | ⟨-, stored⟩)
    · exact ⟨e.1, member, Std.OrientedCmp.eq_symm same⟩
    · cases stored
  · rintro ⟨stored, member, same⟩
    exact .inl ⟨(stored, path), member, Std.OrientedCmp.eq_symm same, rfl⟩

/-! ## The views -/

/-- The views of an index, the answers of its queries and what loads and removals make of it. -/
structure Views (index : SymbolIndex) : Prop where
  byName : Groups nameOf index.allEntries index.byName
  byKind : Groups kindOf index.allEntries index.byKind
  byKindId : Groups kindIdOf index.allEntries index.byKindId
  byExtends : Groups extendsOf index.allEntries index.byExtends
  byPackage : Groups packageOf index.allEntries index.byPackage
  sortedNames : ∀ names, index.sortedNames = some names → names = index.byName.keys ∧ Increasing names
  composedCache : ∀ kind lower object, index.composedCache.get? (kind, lower) = some object →
    ∃ name, toLowercase name = lower ∧ getComposed index kind name = some object
  sortedNamesAnswer : index.querySortedNames.1 = index.byName.keys
  composedAnswer : ∀ kind name, (index.getComposedCached kind name).1 = getComposed index kind name
  eventCatalogAnswer : index.eventCatalog.1 = buildEventCatalog index
  loads : ∀ pkg path,
    let identity := packageIdentityKey pkg.appId pkg.name
    (index.indexLoadedPackage pkg path).contents =
      (index.contents.filter fun entry => entry.2 ∉ index.replacedBy identity path) ++
        pkg.objects.map fun entry => (entry, identity)
  loadsBytes : ∀ pkg : SymbolPackage,
    let identity := packageIdentityKey pkg.appId pkg.name
    (index.loadPackageBytes (.ok pkg : Except AppReaderError SymbolPackage)).2.contents =
      (index.contents.filter fun entry => entry.2 ≠ identity) ++ pkg.objects.map fun entry => (entry, identity)
  sourcePaths : ∀ operation name, Operation.Drops index name operation →
    ∀ later : List Operation, (∀ operation ∈ later, ¬operation.Caches name) →
      ∀ package kind id, foldName package = name →
        (later.foldl Operation.apply (operation.apply index)).getCachedSourcePath package kind id = none
  replacedPaths : ∀ replacement, Reachable replacement → ∀ package kind id,
    (index.replaceWith replacement).getCachedSourcePath package kind id = replacement.getCachedSourcePath package kind id

theorem reachable_views {index : SymbolIndex} (reachable : Reachable index) : Views index := by
  have agrees := reachable_agrees reachable
  obtain ⟨byName, byPackage, byKindId, byKind, byExtends, -, -, -⟩ := agrees.grouped
  refine ⟨byName, byKind, byKindId, byExtends, byPackage, ?_, agrees.composed, index.querySortedNames_answer agrees.names,
    index.getComposedCached_answer agrees, ?_, agrees.contents_indexLoadedPackage, ?_, ?_, ?_⟩
  · intro names cached
    rw [agrees.names names cached]
    exact ⟨rfl, index.increasing_keys⟩
  · apply index.eventCatalog_answer
    exact fun cached stored => (agrees.catalog cached stored).2
  · intro pkg
    have without := agrees.removePackageIdentities [packageIdentityKey pkg.appId pkg.name]
    rw [SymbolIndex.loadPackageBytes, without.grouped.contents_added, (SymbolIndex.removedIdentities index _).contents]
    simp [SymbolIndex.keyFor]
  · rintro operation name drops later silent package kind id rfl
    exact run_dropped later silent (operation.dropped drops kind id)
  · intro replacement other package kind id
    exact replaceWith_paths index (reachable_agrees other).grouped _

theorem reachable_run (operations : List Operation) {index : SymbolIndex} (reachable : Reachable index)
    (local_ : ∀ operation ∈ operations, ∀ replacement, operation ≠ .replaceWith replacement) :
    Reachable (operations.foldl Operation.apply index) := by
  induction operations generalizing index with
  | nil => exact reachable
  | cons operation rest ih =>
      apply ih
      · apply Reachable.operation operation reachable
        intro replacement same
        exact absurd same (local_ operation List.mem_cons_self replacement)
      · exact fun other member => local_ other (List.mem_cons_of_mem _ member)

end Runs

/-! ## Packages with one display name -/

def systemPackage (appId : String) (object : SymbolEntry) : SymbolPackage := ⟨appId, "System", "", "", [object], 1⟩

def systemFile : PackagePath := ⟨"System.app", none⟩

def otherFile : PackagePath := ⟨"System_2.app", none⟩

section Examples

attribute [local instance] CaseMapping.latin1 tableKinds

theorem reachable_views_customer :
    Views ([.addEntries [customer, customerExt], .getComposedCached .table "Customer", .querySortedNames].foldl
      Operation.apply {}) := by
  apply reachable_views
  apply reachable_run _ .new
  simp

/-- A file with another package than before, and two packages with one display name. -/
theorem views_not_by_identity :
    (let index := Operation.apply {} (.indexLoadedPackage (systemPackage "1" customer) (some systemFile))
      let identity := packageIdentityKey "2" "System"
      (index.indexLoadedPackage (systemPackage "2" customerExt) (some systemFile)).contents ≠
        (index.contents.filter fun entry => entry.2 ≠ identity) ++ [(customerExt, identity)]) ∧
      let index := [.indexLoadedPackage (systemPackage "1" customer) (some systemFile),
        .indexLoadedPackage (systemPackage "2" customerExt) (some otherFile),
        .cacheSourcePath "System" .table 18 "src/Customer.al"].foldl Operation.apply {}
      (index.indexLoadedPackage (systemPackage "1" customerExt) (some systemFile)).getCachedSourcePath "System" .table 18 =
        some "src/Customer.al" := by
  constructor
  · intro index identity same
    have lengths := congrArg List.length same
    revert lengths
    decide +kernel
  · decide +kernel

end Examples

end AlLanguage.Symbols
