import AlLanguage.Symbols.Loading
import AlLanguage.Symbols.SortedNames
import AlLanguage.Symbols.Stale
import Mathlib.Data.List.Destutter

/-!
# Agreement of the maps

The groups and the caches of an index are those of its entries, and every update keeps it so.
-/

namespace AlLanguage.Symbols

open Library AlLanguage.Runtime

section Maps

variable [CaseMapping]

namespace SymbolIndex

variable {index : SymbolIndex}

/-! ## The groups -/

/-- The five maps hold the groups of the entries, and no two entries are the same allocation. -/
structure Grouped (index : SymbolIndex) : Prop where
  byName : Groups nameOf index.allEntries index.byName
  byPackage : Groups packageOf index.allEntries index.byPackage
  byKindId : Groups kindIdOf index.allEntries index.byKindId
  byKind : Groups kindOf index.allEntries index.byKind
  byExtends : Groups extendsOf index.allEntries index.byExtends
  distinct : index.all.entries.Pairwise fun a b => a.2.arc.address ≠ b.2.arc.address
  fresh : ∀ e ∈ index.all.entries, e.2.arc.address < index.nextAddress
  counted : ∀ e ∈ index.all.entries, e.1 < index.nextId

theorem Grouped.withCaches (grouped : index.Grouped) (sortedNames : Option (List String))
    (composedCache : OrderedMap (ObjectKind × String) ComposedObject) (mutation : Nat)
    (eventCatalogCache : Option EventCatalogCache) (appPaths : OrderedMap String AppPathRecord)
    (sourcePathCache : OrderedMap (String × ObjectKind × Int32) String) :
    Grouped { index with
      sortedNames := sortedNames
      composedCache := composedCache
      mutation := mutation
      eventCatalogCache := eventCatalogCache
      appPaths := appPaths
      sourcePathCache := sourcePathCache } := by
  obtain ⟨byName, byPackage, byKindId, byKind, byExtends, distinct, fresh, counted⟩ := grouped
  exact ⟨byName, byPackage, byKindId, byKind, byExtends, distinct, fresh, counted⟩

omit [CaseMapping] in
theorem allEntries_eq (index : SymbolIndex) : index.allEntries = index.all.entries.map (·.2.arc) := by
  simp [allEntries, OrderedMap.values]

omit [CaseMapping] in
theorem grouped_pushUnder {κ : Type} [Ord κ] [Std.TransOrd κ] {key : Arc → Option κ} {members : List Arc}
    {m : OrderedMap κ (List Arc)} (groups : Groups key members m) (arc : Arc) :
    Groups key (members ++ [arc]) (pushUnder m (key arc) arc) := groups.add arc

theorem addArc_eq (index : SymbolIndex) (arc : Arc) (packageKey : String) :
    index.addArc arc packageKey =
      { index with
        nextId := index.nextId + 1
        all := index.all.insert index.nextId ⟨arc, foldName arc.value.name, packageKey⟩
        byName := pushUnder index.byName (nameOf arc) arc
        byPackage := pushUnder index.byPackage (packageOf arc) arc
        byKindId := pushUnder index.byKindId (kindIdOf arc) arc
        byKind := pushUnder index.byKind (kindOf arc) arc
        byExtends := pushUnder index.byExtends (extendsOf arc) arc } := rfl

theorem addArc_entries (counted : ∀ e ∈ index.all.entries, e.1 < index.nextId) (arc : Arc) (packageKey : String) :
    (index.addArc arc packageKey).all.entries =
      index.all.entries ++ [(index.nextId, ⟨arc, foldName arc.value.name, packageKey⟩)] := by
  rw [addArc_eq]
  apply OrderedMap.insert_last
  intro e member
  exact Nat.compare_eq_lt.mpr (counted e member)

theorem Grouped.addArc (grouped : index.Grouped) {arc : Arc} (allocated : arc.address < index.nextAddress)
    (apart : ∀ e ∈ index.all.entries, e.2.arc.address ≠ arc.address) (packageKey : String) :
    (index.addArc arc packageKey).Grouped := by
  have entries := addArc_entries grouped.counted arc packageKey
  have all : (index.addArc arc packageKey).allEntries = index.allEntries ++ [arc] := by
    simp [allEntries_eq, entries]
  constructor
  · rw [all]
    exact grouped_pushUnder grouped.byName arc
  · rw [all]
    exact grouped_pushUnder grouped.byPackage arc
  · rw [all]
    exact grouped_pushUnder grouped.byKindId arc
  · rw [all]
    exact grouped_pushUnder grouped.byKind arc
  · rw [all]
    exact grouped_pushUnder grouped.byExtends arc
  · rw [entries]
    refine List.pairwise_append.mpr ⟨grouped.distinct, List.pairwise_singleton .., ?_⟩
    intro e member e' added
    rw [List.mem_singleton.mp added]
    exact apart e member
  · rw [entries]
    intro e member
    rcases List.mem_append.mp member with old | added
    · exact grouped.fresh e old
    · rw [List.mem_singleton.mp added]
      exact allocated
  · rw [entries]
    intro e member
    rcases List.mem_append.mp member with old | added
    · exact Nat.lt_succ_of_lt (grouped.counted e old)
    · rw [List.mem_singleton.mp added]
      exact Nat.lt_succ_self _

/-! ## Removing entries -/

theorem writeAll_removalWrites (index : SymbolIndex) (toRemove : List (Nat × Arc)) :
    index.writeAll (removalWrites toRemove) =
      let ptrs := toRemove.map (·.2.address)
      { index with
        all := (toRemove.map (·.1)).foldl OrderedMap.erase index.all
        byName := retainArcsNotIn index.byName ptrs
        byKindId := retainArcsNotIn index.byKindId ptrs
        byKind := retainArcsNotIn index.byKind ptrs
        byExtends := retainArcsNotIn index.byExtends ptrs
        byPackage := retainArcsNotIn index.byPackage ptrs } := by
  have erased : ∀ (removed : List (Nat × Arc)) (index : SymbolIndex),
      index.writeAll (removed.map fun entry => MapWrite.removeEntry entry.1) =
        { index with all := (removed.map (·.1)).foldl OrderedMap.erase index.all } := by
    intro removed
    induction removed with
    | nil => exact fun _ => rfl
    | cons entry rest ih => exact fun index => ih _
  have split : index.writeAll (removalWrites toRemove) =
      (index.writeAll (toRemove.map fun entry => MapWrite.removeEntry entry.1)).writeAll
        (let ptrs := toRemove.map (·.2.address)
        [.retainName ptrs, .retainKindId ptrs, .retainKind ptrs, .retainExtends ptrs, .retainPackage ptrs]) :=
    List.foldl_append ..
  rw [split, erased]
  rfl

omit [CaseMapping] in
theorem select_erased (index : SymbolIndex) (chosen : IndexedEntry → Bool) :
    (((index.select chosen).map (·.1)).foldl OrderedMap.erase index.all).entries =
      index.all.entries.filter fun e => !chosen e.2 := by
  rw [OrderedMap.entries_foldl_erase]
  apply List.filter_congr
  intro e member
  rw [Bool.eq_iff_iff, List.all_eq_true]
  constructor
  · intro kept
    rw [Bool.not_eq_true']
    by_contra selected
    have key : e.1 ∈ (index.select chosen).map (·.1) := by
      simp only [select, List.map_map, List.mem_map, List.mem_filter]
      exact ⟨e, ⟨member, by simpa using selected⟩, rfl⟩
    have itself := kept e.1 key
    simp at itself
  · intro passed k key
    simp only [select, List.map_map, List.mem_map, List.mem_filter] at key
    obtain ⟨other, ⟨inside, selected⟩, rfl⟩ := key
    rw [bne_iff_ne]
    intro same
    rw [index.all.entry_unique inside member same] at selected
    simp [selected] at passed

theorem Grouped.kept (grouped : index.Grouped) (chosen : IndexedEntry → Bool) :
    (index.allEntries.filter fun arc => arc.address ∉ (index.select chosen).map (·.2.address)) =
      (index.all.entries.filter fun e => !chosen e.2).map (·.2.arc) := by
  rw [allEntries_eq, List.filter_map]
  congr 1
  apply List.filter_congr
  intro e member
  rw [Bool.eq_iff_iff, Function.comp_apply, decide_eq_true_iff, Bool.not_eq_true']
  constructor
  · intro apart
    by_contra selected
    apply apart
    simp only [select, List.map_map, List.mem_map, List.mem_filter]
    exact ⟨e, ⟨member, by simpa using selected⟩, rfl⟩
  · intro passed pointed
    simp only [select, List.map_map, List.mem_map, List.mem_filter] at pointed
    obtain ⟨other, ⟨inside, selected⟩, same⟩ := pointed
    rcases pairwise_eq_or grouped.distinct inside member with rfl | before | after
    · simp [passed] at selected
    · exact before same
    · exact after same.symm

theorem Grouped.removed (grouped : index.Grouped) (chosen : IndexedEntry → Bool) :
    (index.writeAll (removalWrites (index.select chosen))).Grouped := by
  have entries := index.select_erased chosen
  rw [writeAll_removalWrites]
  have all : allEntries { index with all := ((index.select chosen).map (·.1)).foldl OrderedMap.erase index.all } =
      index.allEntries.filter fun arc => arc.address ∉ (index.select chosen).map (·.2.address) := by
    rw [grouped.kept, allEntries_eq, entries]
  constructor
  · exact all ▸ grouped.byName.retainMembers _
  · exact all ▸ grouped.byPackage.retainMembers _
  · exact all ▸ grouped.byKindId.retainMembers _
  · exact all ▸ grouped.byKind.retainMembers _
  · exact all ▸ grouped.byExtends.retainMembers _
  · exact entries ▸ grouped.distinct.filter _
  · intro e member
    exact grouped.fresh e (List.mem_filter.mp (entries ▸ member)).1
  · intro e member
    exact grouped.counted e (List.mem_filter.mp (entries ▸ member)).1

/-! ## Sorted names -/

/-- Every name of the list is there, and it is in order without repetition. -/
def NamesSorted (index : SymbolIndex) : Prop := ∀ names, index.sortedNames = some names → names = index.byName.keys

omit [CaseMapping] in
theorem increasing_keys (index : SymbolIndex) : Increasing index.byName.keys := index.byName.keys_sorted

theorem Grouped.mem_names (grouped : index.Grouped) (name : String) :
    name ∈ index.byName.keys ↔ ∃ arc ∈ index.allEntries, foldName arc.value.name = name := by
  rw [OrderedMap.mem_keys_iff, grouped.byName.contains_iff]
  simp [inGroup, nameOf]

theorem mem_foldl_insertName (entries : List Arc) (names : List String) (name : String) :
    name ∈ entries.foldl (fun names entry => insertName names (toLowercase entry.value.name)) names ↔
      name ∈ names ∨ ∃ arc ∈ entries, foldName arc.value.name = name := by
  induction entries generalizing names with
  | nil => simp
  | cons entry rest ih =>
      rw [List.foldl_cons, ih, mem_insertName]
      simp only [List.exists_mem_cons_iff, foldName]
      grind

theorem increasing_foldl_insertName (entries : List Arc) {names : List String} (increasing : Increasing names) :
    Increasing (entries.foldl (fun names entry => insertName names (toLowercase entry.value.name)) names) := by
  induction entries generalizing names with
  | nil => exact increasing
  | cons entry rest ih => exact ih (increasing_insertName increasing _)

omit [CaseMapping] in
theorem foldl_removeName {present : String → Bool} (removed : List String) {names : List String}
    (increasing : Increasing names) :
    let left := removed.foldl (fun names name => if present name then names else removeName names name) names
    Increasing left ∧ ∀ name, name ∈ left ↔ name ∈ names ∧ (name ∈ removed → present name = true) := by
  induction removed generalizing names with
  | nil => exact ⟨increasing, by simp⟩
  | cons head rest ih =>
      rw [List.foldl_cons]
      split
      next kept =>
        obtain ⟨sorted, members⟩ := ih increasing
        refine ⟨sorted, fun name => ?_⟩
        rw [members name]
        grind
      next gone =>
        obtain ⟨sorted, members⟩ := ih (increasing_removeName increasing head)
        refine ⟨sorted, fun name => ?_⟩
        rw [members name, mem_removeName increasing]
        grind

/-! ## Adding entries -/

/-- The entries with the packages they belong to. -/
def contents (index : SymbolIndex) : List (SymbolEntry × String) :=
  index.all.entries.map fun e => (e.2.arc.value, e.2.packageKey)

/-- The index with one new entry. -/
def addEntry (index : SymbolIndex) (packageKey : Option String) (entry : SymbolEntry) : SymbolIndex :=
  (index.alloc entry).2.addArc (index.alloc entry).1 (keyFor packageKey entry)

theorem addNewEntries_nil (index : SymbolIndex) (packageKey : Option String) :
    index.addNewEntries packageKey [] = (index, []) := rfl

theorem foldl_addNewEntries (packageKey : Option String) (entries : List SymbolEntry) (index : SymbolIndex) (arcs : List Arc) :
    entries.foldl (fun (index, arcs) entry =>
        let (arc, index) := index.alloc entry
        (index.addArc arc (keyFor packageKey entry), arcs ++ [arc])) (index, arcs) =
      ((index.addNewEntries packageKey entries).1, arcs ++ (index.addNewEntries packageKey entries).2) := by
  induction entries generalizing index arcs with
  | nil => simp [addNewEntries_nil]
  | cons entry rest ih =>
      rw [addNewEntries, List.foldl_cons, List.foldl_cons, ih, ih]
      simp

theorem addNewEntries_cons (index : SymbolIndex) (packageKey : Option String) (entry : SymbolEntry)
    (rest : List SymbolEntry) :
    index.addNewEntries packageKey (entry :: rest) =
      let added := (index.addEntry packageKey entry).addNewEntries packageKey rest
      (added.1, (index.alloc entry).1 :: added.2) :=
  foldl_addNewEntries packageKey rest _ _

theorem Grouped.addEntry (grouped : index.Grouped) (packageKey : Option String) (entry : SymbolEntry) :
    (index.addEntry packageKey entry).Grouped := by
  have allocated : (index.alloc entry).2.Grouped := by
    refine ⟨grouped.byName, grouped.byPackage, grouped.byKindId, grouped.byKind, grouped.byExtends, grouped.distinct, ?_,
      grouped.counted⟩
    exact fun e member => Nat.lt_succ_of_lt (grouped.fresh e member)
  apply allocated.addArc (Nat.lt_succ_self _)
  exact fun e member => (grouped.fresh e member).ne

theorem addEntry_entries (grouped : index.Grouped) (packageKey : Option String) (entry : SymbolEntry) :
    (index.addEntry packageKey entry).all.entries =
      index.all.entries ++ [(index.nextId, ⟨(index.alloc entry).1, foldName entry.name, keyFor packageKey entry⟩)] := by
  have counted : ∀ e ∈ (index.alloc entry).2.all.entries, e.1 < (index.alloc entry).2.nextId := grouped.counted
  rw [SymbolIndex.addEntry, addArc_entries counted]
  rfl

theorem addEntry_parts [LanguageData] {kind : ObjectKind} {lower : String} {entry : SymbolEntry}
    (unaffected : ¬Affects kind lower entry) (packageKey : Option String) :
    (index.addEntry packageKey entry).parts kind lower = index.parts kind lower := by
  have untouched : ∀ (writes : List MapWrite) (index : SymbolIndex), (∀ write ∈ writes, ¬write.Touches kind lower) →
      (index.writeAll writes).parts kind lower = index.parts kind lower := by
    intro writes
    induction writes with
    | nil => exact fun _ _ => rfl
    | cons write rest ih =>
        intro index clear
        have later : ((write.apply index).writeAll rest).parts kind lower = (write.apply index).parts kind lower :=
          ih _ fun other member => clear other (List.mem_cons_of_mem _ member)
        exact later.trans (MapWrite.parts_apply (clear write List.mem_cons_self))
  have clear : ∀ write ∈ addArcWrites index.nextId (index.alloc entry).1 (keyFor packageKey entry),
      ¬write.Touches kind lower :=
    fun write member touched => unaffected (touches_addArcWrites ⟨write, member, touched⟩)
  exact untouched _ _ clear

/-- What adding entries to the maps does. -/
structure Added (index index' : SymbolIndex) (packageKey : Option String) (entries : List SymbolEntry) (arcs : List Arc) :
    Prop where
  grouped : index'.Grouped
  contents : index'.contents = index.contents ++ entries.map fun entry => (entry, keyFor packageKey entry)
  allEntries : index'.allEntries = index.allEntries ++ arcs
  sortedNames : index'.sortedNames = index.sortedNames
  composedCache : index'.composedCache = index.composedCache
  eventCatalogCache : index'.eventCatalogCache = index.eventCatalogCache
  mutation : index'.mutation = index.mutation

theorem Grouped.added (grouped : index.Grouped) (packageKey : Option String) (entries : List SymbolEntry) :
    Added index (index.addNewEntries packageKey entries).1 packageKey entries
      (index.addNewEntries packageKey entries).2 := by
  induction entries generalizing index with
  | nil => exact ⟨grouped, by simp [addNewEntries_nil], by simp [addNewEntries_nil], rfl, rfl, rfl, rfl⟩
  | cons entry rest ih =>
      rw [addNewEntries_cons]
      have one := addEntry_entries grouped packageKey entry
      have later := ih (grouped.addEntry packageKey entry)
      refine ⟨later.grouped, ?_, ?_, later.sortedNames, later.composedCache, later.eventCatalogCache,
        later.mutation⟩
      · rw [later.contents]
        simp [SymbolIndex.contents, one, alloc]
      · rw [later.allEntries]
        simp [allEntries_eq, one]

theorem addNewEntries_parts [LanguageData] {kind : ObjectKind} {lower : String} (packageKey : Option String)
    {entries : List SymbolEntry} (unaffected : ∀ entry ∈ entries, ¬Affects kind lower entry) :
    (index.addNewEntries packageKey entries).1.parts kind lower = index.parts kind lower := by
  induction entries generalizing index with
  | nil => rfl
  | cons entry rest ih =>
      rw [addNewEntries_cons]
      have later : ((index.addEntry packageKey entry).addNewEntries packageKey rest).1.parts kind lower =
          (index.addEntry packageKey entry).parts kind lower :=
        ih fun other member => unaffected other (List.mem_cons_of_mem _ member)
      exact later.trans (addEntry_parts (unaffected entry List.mem_cons_self) packageKey)

end SymbolIndex

end Maps

section Caches

variable [CaseMapping] [LanguageData]

namespace SymbolIndex

variable {index index' : SymbolIndex}

/-- All views of the index are those of its entries. -/
structure Agrees (index : SymbolIndex) : Prop where
  grouped : index.Grouped
  names : index.NamesSorted
  composed : ∀ kind lower object, index.composedCache.get? (kind, lower) = some object →
    ∃ name, toLowercase name = lower ∧ getComposed index kind name = some object
  catalog : ∀ cached, index.eventCatalogCache = some cached →
    cached.generation ≤ index.mutation ∧ (cached.generation = index.mutation → cached.catalog = buildEventCatalog index)

theorem agrees_new : Agrees {} := by
  have groups {κ : Type} [Ord κ] (key : Arc → Option κ) : Groups key [] OrderedMap.empty := groups_empty key
  refine ⟨⟨groups _, groups _, groups _, groups _, groups _, List.Pairwise.nil, ?_, ?_⟩, ?_, ?_, ?_⟩
  · intro e member
    cases member
  · intro e member
    cases member
  · intro names cached
    cases cached
  · intro kind lower object cached
    cases cached
  · intro cached stored
    cases stored

/-- The recorded packages and the source paths are no views of the entries. -/
theorem Agrees.withPaths (agrees : index.Agrees) (appPaths : OrderedMap String AppPathRecord)
    (sourcePathCache : OrderedMap (String × ObjectKind × Int32) String) :
    Agrees { index with appPaths := appPaths, sourcePathCache := sourcePathCache } := by
  obtain ⟨grouped, names, composed, catalog⟩ := agrees
  exact ⟨grouped.withCaches .., names, composed, catalog⟩

/-! ## Adding entries -/

omit [LanguageData] in
theorem updated_after_add (index : SymbolIndex) (arcs : List Arc) (updateInPlace : Bool) :
    ∃ names, index.updateSortedNamesAfterAdd arcs updateInPlace = { index with sortedNames := names } := by
  rw [updateSortedNamesAfterAdd]
  split
  · exact ⟨none, rfl⟩
  · exact ⟨_, rfl⟩

omit [LanguageData] in
/-- A catalog from before a change is not taken for the current one. -/
theorem outdated {cached : EventCatalogCache} (before : cached.generation ≤ index.mutation)
    (counted : index'.mutation = index.mutation + 1) :
    cached.generation ≤ index'.mutation ∧
      (cached.generation = index'.mutation → cached.catalog = buildEventCatalog index') := by
  rw [counted]
  refine ⟨Nat.le_succ_of_le before, ?_⟩
  intro same
  exact absurd same (Nat.lt_succ_of_le before).ne

omit [LanguageData] in
theorem Added.mem_names {packageKey : Option String} {entries : List SymbolEntry} {arcs : List Arc}
    (added : Added index index' packageKey entries arcs) (grouped : index.Grouped) (name : String) :
    name ∈ index'.byName.keys ↔ name ∈ index.byName.keys ∨ ∃ arc ∈ arcs, foldName arc.value.name = name := by
  rw [added.grouped.mem_names, grouped.mem_names, added.allEntries]
  simp only [List.mem_append, or_and_right, exists_or]

omit [LanguageData] in
theorem Added.namesSorted {packageKey : Option String} {entries : List SymbolEntry} {arcs : List Arc}
    (added : Added index index' packageKey entries arcs) (grouped : index.Grouped) (sorted : index.NamesSorted)
    (updateInPlace : Bool) : (index'.updateSortedNamesAfterAdd arcs updateInPlace).NamesSorted := by
  intro names cached
  rw [updateSortedNamesAfterAdd] at cached ⊢
  split at cached
  next => cases cached
  next inPlace =>
    rw [if_neg inPlace]
    obtain ⟨before, stored, rfl⟩ := Option.map_eq_some_iff.mp cached
    rw [added.sortedNames] at stored
    obtain rfl := sorted before stored
    apply increasing_unique (increasing_foldl_insertName arcs index.increasing_keys) index'.increasing_keys
    intro name
    rw [mem_foldl_insertName, added.mem_names grouped]

omit [LanguageData] in
theorem addEntriesOwnedWithKey_eq (index : SymbolIndex) (entries : List SymbolEntry) (packageKey : Option String) :
    index.addEntriesOwnedWithKey entries packageKey =
      let before := index.invalidateComposedForEntries entries
      let added := before.addNewEntries packageKey entries
      (added.1.updateSortedNamesAfterAdd added.2 (before.updatesSortedNames entries.length)).noteMutation := rfl

theorem Agrees.addEntriesOwnedWithKey (agrees : index.Agrees) (entries : List SymbolEntry) (packageKey : Option String) :
    (index.addEntriesOwnedWithKey entries packageKey).Agrees := by
  obtain ⟨cache, invalidated⟩ := index.invalidated entries
  have kept {kind : ObjectKind} {lower : String} {object : ComposedObject}
      (cached : cache.get? (kind, lower) = some object) :
      index.composedCache.get? (kind, lower) = some object ∧ ∀ entry ∈ entries, ¬Affects kind lower entry := by
    apply composed_invalidated
    rw [invalidated]
    exact cached
  have grouped : Grouped { index with composedCache := cache } := agrees.grouped.withCaches ..
  have added := grouped.added packageKey entries
  have sorted := added.namesSorted grouped agrees.names
    (updatesSortedNames { index with composedCache := cache } entries.length)
  obtain ⟨names, updated⟩ := updated_after_add _ _ _
  rw [updated] at sorted
  rw [addEntriesOwnedWithKey_eq, invalidated]
  dsimp only
  rw [updated]
  refine ⟨added.grouped.withCaches .., sorted, ?_, ?_⟩
  · intro kind lower object cached
    obtain ⟨before, unaffected⟩ := kept ((congrArg (·.get? (kind, lower)) added.composedCache).symm.trans cached)
    obtain ⟨name, rfl, composed⟩ := agrees.composed kind lower object before
    refine ⟨name, rfl, Eq.trans ?_ composed⟩
    exact composedNow_of_parts (addNewEntries_parts packageKey unaffected)
  · intro cached stored
    have before := agrees.catalog cached (added.eventCatalogCache.symm.trans stored)
    apply outdated before.1
    rw [noteMutation, added.mutation]

omit [LanguageData] in
theorem Grouped.contents_added (grouped : index.Grouped) (entries : List SymbolEntry) (packageKey : Option String) :
    (index.addEntriesOwnedWithKey entries packageKey).contents =
      index.contents ++ entries.map fun entry => (entry, keyFor packageKey entry) := by
  obtain ⟨cache, invalidated⟩ := index.invalidated entries
  have kept : Grouped { index with composedCache := cache } := grouped.withCaches ..
  have added := (kept.added packageKey entries).contents
  obtain ⟨names, updated⟩ := updated_after_add _ _ _
  rw [addEntriesOwnedWithKey_eq, invalidated]
  dsimp only
  rw [updated]
  exact added

/-! ## Removing entries -/

omit [CaseMapping] [LanguageData] in
theorem select_isEmpty {chosen : IndexedEntry → Bool} (empty : (index.select chosen).isEmpty = true) :
    (index.all.entries.filter fun e => !chosen e.2) = index.all.entries := by
  apply List.filter_eq_self.mpr
  intro e member
  rw [Bool.not_eq_true']
  by_contra selected
  have inside : (e.1, e.2.arc) ∈ index.select chosen := by
    simp only [select, List.mem_map, List.mem_filter]
    exact ⟨e, ⟨member, by simpa using selected⟩, rfl⟩
  rw [List.isEmpty_iff.mp empty] at inside
  cases inside

omit [CaseMapping] [LanguageData] in
theorem updated_after_removal (index : SymbolIndex) (removedNames : Option (List String)) :
    ∃ names, index.updateSortedNamesAfterRemoval removedNames = { index with sortedNames := names } := by
  cases removedNames with
  | none => exact ⟨none, rfl⟩
  | some removed => exact ⟨_, rfl⟩

omit [LanguageData] in
/-- What stays of the entries. -/
theorem removed_entries (index : SymbolIndex) (chosen : IndexedEntry → Bool) :
    (index.removeSelectedEntries (index.select chosen)).all.entries = index.all.entries.filter fun e => !chosen e.2 := by
  unfold removeSelectedEntries
  split
  next empty => exact (select_isEmpty empty).symm
  next =>
    have erased := index.select_erased chosen
    dsimp only
    rw [writeAll_removalWrites]
    obtain ⟨names, updated⟩ := updated_after_removal _ _
    dsimp only
    rw [updated]
    exact erased

omit [LanguageData] in
theorem Grouped.removed_namesSorted (grouped : index.Grouped) (sorted : index.NamesSorted) (chosen : IndexedEntry → Bool) :
    ((index.writeAll (removalWrites (index.select chosen))).updateSortedNamesAfterRemoval
      (index.removedNames (index.select chosen))).NamesSorted := by
  have after := grouped.removed chosen
  have names : (index.writeAll (removalWrites (index.select chosen))).sortedNames = index.sortedNames := by
    rw [writeAll_removalWrites]
  have entries : (index.writeAll (removalWrites (index.select chosen))).all.entries =
      index.all.entries.filter fun e => !chosen e.2 := by
    rw [writeAll_removalWrites]
    exact index.select_erased chosen
  generalize index.writeAll (removalWrites (index.select chosen)) = index' at after names entries ⊢
  intro left cached
  rw [removedNames] at cached ⊢
  split at cached
  next =>
    rw [updateSortedNamesAfterRemoval] at cached
    obtain ⟨before, stored, rfl⟩ := Option.map_eq_some_iff.mp cached
    rw [names] at stored
    obtain rfl := sorted before stored
    obtain ⟨increasing, members⟩ := @foldl_removeName index'.byName.contains
      ((index.select chosen).map fun entry => toLowercase entry.2.value.name) _ index.increasing_keys
    rw [if_pos ‹_›]
    apply increasing_unique increasing index'.increasing_keys
    intro name
    rw [members, ← OrderedMap.mem_keys_iff, after.mem_names, grouped.mem_names, allEntries_eq, allEntries_eq, entries]
    simp only [List.mem_map, List.mem_filter, select]
    constructor
    · rintro ⟨⟨arc, ⟨e, member, rfl⟩, named⟩, still⟩
      by_cases selected : chosen e.2 = true
      · exact still ⟨(e.1, e.2.arc), ⟨e, ⟨member, selected⟩, rfl⟩, named⟩
      · exact ⟨e.2.arc, ⟨e, ⟨member, by simpa using selected⟩, rfl⟩, named⟩
    · rintro ⟨arc, ⟨e, ⟨member, passed⟩, rfl⟩, named⟩
      exact ⟨⟨e.2.arc, ⟨e, member, rfl⟩, named⟩, fun _ => ⟨e.2.arc, ⟨e, ⟨member, passed⟩, rfl⟩, named⟩⟩
  next => cases cached

theorem Agrees.removeSelectedEntries (agrees : index.Agrees) (chosen : IndexedEntry → Bool) :
    (index.removeSelectedEntries (index.select chosen)).Agrees := by
  rw [SymbolIndex.removeSelectedEntries]
  split
  next => exact agrees
  next =>
    have sorted := agrees.grouped.removed_namesSorted agrees.names chosen
    obtain ⟨names, updated⟩ := updated_after_removal (index.writeAll (removalWrites (index.select chosen)))
      (index.removedNames (index.select chosen))
    rw [updated] at sorted
    dsimp only
    rw [updated]
    refine ⟨(agrees.grouped.removed chosen).withCaches .., sorted, ?_, ?_⟩
    · intro kind lower object cached
      cases cached
    · intro cached stored
      rw [writeAll_removalWrites] at stored ⊢
      exact outdated (agrees.catalog cached stored).1 rfl

omit [LanguageData] in
theorem contents_removed (index : SymbolIndex) (chosen : IndexedEntry → Bool) :
    (index.removeSelectedEntries (index.select chosen)).contents =
      (index.all.entries.filter fun e => !chosen e.2).map fun e => (e.2.arc.value, e.2.packageKey) := by
  rw [contents, removed_entries]

omit [LanguageData] in
/-- A removal of entries leaves the records of the packages and of the source paths. -/
theorem removed_paths (index : SymbolIndex) (toRemove : List (Nat × Arc)) :
    (index.removeSelectedEntries toRemove).appPaths = index.appPaths ∧
      (index.removeSelectedEntries toRemove).sourcePathCache = index.sourcePathCache := by
  rw [SymbolIndex.removeSelectedEntries]
  split
  · exact ⟨rfl, rfl⟩
  · obtain ⟨names, updated⟩ := updated_after_removal (index.writeAll (removalWrites toRemove)) (index.removedNames toRemove)
    dsimp only
    rw [updated, writeAll_removalWrites]
    exact ⟨rfl, rfl⟩

/-! ## Queries -/

omit [CaseMapping] [LanguageData] in
theorem sortedUnique_of_increasing {names : List String} (increasing : Increasing names) : sortedUnique names = names := by
  have ordered : names.Pairwise fun a b => compare a b ≠ .gt := by
    apply increasing.imp
    intro a b before
    simp [before]
  have distinct : names.Pairwise (· ≠ ·) := by
    apply increasing.imp
    rintro a b before rfl
    exact not_before_itself a before
  rw [sortedUnique, List.Pairwise.insertionSort_eq (by simpa using ordered), List.destutter_of_isChain]
  exact distinct.isChain

omit [CaseMapping] [LanguageData] in
theorem querySortedNames_answer (sorted : index.NamesSorted) : index.querySortedNames.1 = index.byName.keys := by
  rw [querySortedNames]
  split
  next names cached => exact sorted names cached
  next => exact sortedUnique_of_increasing index.increasing_keys

theorem Agrees.querySortedNames (agrees : index.Agrees) : index.querySortedNames.2.Agrees := by
  rw [SymbolIndex.querySortedNames]
  split
  next => exact agrees
  next =>
    refine ⟨agrees.grouped.withCaches .., ?_, agrees.composed, agrees.catalog⟩
    intro names cached
    rw [← Option.some.inj cached]
    exact sortedUnique_of_increasing index.increasing_keys

theorem getComposedCached_answer (agrees : index.Agrees) (kind : ObjectKind) (name : String) :
    (index.getComposedCached kind name).1 = getComposed index kind name := by
  rw [getComposedCached]
  split
  next object cached =>
    obtain ⟨other, same, composed⟩ := agrees.composed _ _ object cached
    rw [← composed]
    simp only [getComposed, getByName, getExtensionsOf, same]
  next =>
    split
    next nothing => exact nothing.symm
    next object composed => exact composed.symm

theorem Agrees.getComposedCached (agrees : index.Agrees) (kind : ObjectKind) (name : String) :
    (index.getComposedCached kind name).2.Agrees := by
  rw [SymbolIndex.getComposedCached]
  split
  next => exact agrees
  next =>
  split
  next => exact agrees
  next object composed =>
    refine ⟨agrees.grouped.withCaches .., agrees.names, ?_, agrees.catalog⟩
    intro kind' lower other cached
    rw [OrderedMap.get?_insert] at cached
    split at cached
    next fits =>
      cases cached
      cases Std.LawfulEqCmp.eq_of_compare fits
      exact ⟨name, rfl, composed⟩
    next => exact agrees.composed kind' lower other cached

omit [LanguageData] in
theorem eventCatalog_answer
    (dated : ∀ cached, index.eventCatalogCache = some cached → cached.generation = index.mutation →
      cached.catalog = buildEventCatalog index) : index.eventCatalog.1 = buildEventCatalog index := by
  rw [eventCatalog]
  split
  next cached stored =>
    split
    next current => exact dated cached stored current
    next => rfl
  next => rfl

theorem Agrees.eventCatalog (agrees : index.Agrees) : index.eventCatalog.2.Agrees := by
  have built : Agrees { index with eventCatalogCache := some ⟨index.mutation, buildEventCatalog index⟩ } := by
    refine ⟨agrees.grouped.withCaches .., agrees.names, agrees.composed, ?_⟩
    intro cached stored
    cases stored
    exact ⟨le_rfl, fun _ => rfl⟩
  rw [SymbolIndex.eventCatalog]
  split
  next =>
    split
    next => exact agrees
    next => exact built
  next => exact built

/-! ## Replacing the index -/

omit [LanguageData] in
/-- The caches that adding one entry to the maps leaves. -/
theorem rebuilt (entries : List IndexedEntry) (grouped : index.Grouped)
    (allocated : ∀ entry ∈ entries, entry.arc.address < index.nextAddress)
    (apart : ∀ e ∈ index.all.entries, ∀ entry ∈ entries, e.2.arc.address ≠ entry.arc.address)
    (distinct : entries.Pairwise fun a b => a.arc.address ≠ b.arc.address) :
    let filled := entries.foldl (fun index entry => index.addArc entry.arc entry.packageKey) index
    filled.Grouped ∧ filled.contents = index.contents ++ entries.map (fun e => (e.arc.value, e.packageKey)) ∧
      filled.sortedNames = index.sortedNames ∧ filled.composedCache = index.composedCache ∧
      filled.eventCatalogCache = index.eventCatalogCache ∧ filled.mutation = index.mutation ∧
      filled.appPaths = index.appPaths ∧ filled.sourcePathCache = index.sourcePathCache := by
  induction entries generalizing index with
  | nil => exact ⟨grouped, by simp, rfl, rfl, rfl, rfl, rfl, rfl⟩
  | cons entry rest ih =>
      obtain ⟨others, tail⟩ := List.pairwise_cons.mp distinct
      have one := addArc_entries grouped.counted entry.arc entry.packageKey
      have added := grouped.addArc (allocated entry List.mem_cons_self)
        (fun e member => apart e member entry List.mem_cons_self) entry.packageKey
      obtain ⟨grouped', contents', caches⟩ := ih added (fun other member => allocated other (List.mem_cons_of_mem _ member))
        (by
          intro e member other later
          rw [one] at member
          rcases List.mem_append.mp member with old | new
          · exact apart e old other (List.mem_cons_of_mem _ later)
          · rw [List.mem_singleton.mp new]
            exact others other later) tail
      refine ⟨grouped', ?_, caches⟩
      rw [List.foldl_cons, contents']
      simp [contents, one]

omit [LanguageData] in
theorem emptied_rebuilt (index : SymbolIndex) {replacement : SymbolIndex} (other : replacement.Grouped) :
    let filled := replacement.all.values.foldl (fun index entry => index.addArc entry.arc entry.packageKey)
      (index.emptied replacement)
    filled.Grouped ∧ filled.contents = replacement.contents ∧ filled.composedCache = .empty ∧
      filled.eventCatalogCache = index.eventCatalogCache ∧ filled.mutation = index.mutation ∧
      filled.appPaths = .empty ∧ filled.sourcePathCache = .empty := by
  have empty : (index.emptied replacement).Grouped := by
    have groups {κ : Type} [Ord κ] (key : Arc → Option κ) : Groups key [] OrderedMap.empty := groups_empty key
    exact ⟨groups _, groups _, groups _, groups _, groups _, List.Pairwise.nil, by simp [emptied], by simp [emptied]⟩
  have allocated : ∀ entry ∈ replacement.all.values, entry.arc.address < (index.emptied replacement).nextAddress := by
    intro entry member
    obtain ⟨e, inside, rfl⟩ := List.mem_map.mp member
    exact lt_of_lt_of_le (other.fresh e inside) (le_max_right ..)
  obtain ⟨grouped, contents, -, caches⟩ := rebuilt replacement.all.values empty allocated (by simp [emptied])
    (List.pairwise_map.mpr other.distinct)
  refine ⟨grouped, ?_, caches⟩
  rw [contents]
  simp [SymbolIndex.contents, emptied, OrderedMap.values]

theorem Agrees.replaceWith (agrees : index.Agrees) {replacement : SymbolIndex} (other : replacement.Agrees) :
    (index.replaceWith replacement).Agrees := by
  obtain ⟨grouped, -, composed, catalog, mutation, -, -⟩ := index.emptied_rebuilt other.grouped
  refine ⟨grouped.withCaches .., ?_, ?_, ?_⟩
  · intro names cached
    cases cached
  · intro kind lower object cached
    have nothing : (OrderedMap.empty : OrderedMap (ObjectKind × String) ComposedObject).get? (kind, lower) = some object :=
      composed ▸ cached
    cases nothing
  · intro cached stored
    have before : index.eventCatalogCache = some cached := catalog.symm.trans stored
    apply outdated (agrees.catalog cached before).1
    exact congrArg (· + 1) mutation

end SymbolIndex

end Caches

end AlLanguage.Symbols
