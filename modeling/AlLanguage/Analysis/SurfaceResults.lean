import AlLanguage.Analysis.SurfaceCompatibility
import AlLanguage.Runtime.Wildcards

/-!
# What the analysis of two surfaces reports

- A surface beside itself has no changes, nothing that breaks is reported exactly of compatible surfaces, and this composes.
- This holds when the maps keep the fields and keys of every object apart, and for no other baseline.
-/

namespace AlLanguage.Analysis

open Library AlLanguage.Symbols
open AlLanguage.Runtime (CaseMapping toLowercase toAsciiLowercase eqIgnoreAsciiCase)

section Unicode

variable [CaseMapping]

def SeparateSurface (entries : List SymbolEntry) : Prop := ∀ entry ∈ published entries, Separate entry

/-- What the release gate relies on. -/
structure Reports (b c d : List SymbolEntry) : Prop where
  silent : analyzeBreakingChanges b b = []
  exact : Quiet (analyzeBreakingChanges b c) ↔ Compatible b c
  composes : Quiet (analyzeBreakingChanges b c) → Quiet (analyzeBreakingChanges c d) → Quiet (analyzeBreakingChanges b d)

/-! ## The objects of a surface -/

omit [CaseMapping] in
theorem buildMap_get?_iff {entries : List SymbolEntry} (unique : UniqueSurface entries) (key : Identity) (entry : SymbolEntry) :
    (buildMap entries).get? key = some entry ↔ entry ∈ published entries ∧ identity entry = key := by
  rw [buildMap, get?_collectMap]
  · rw [List.mem_map]
    constructor
    · rintro ⟨other, inside, same⟩
      obtain ⟨name, rfl⟩ := Prod.mk.inj same
      exact ⟨inside, name⟩
    · rintro ⟨inside, name⟩
      exact ⟨entry, inside, by rw [name]⟩
  · rw [List.map_map]
    exact unique.identities

omit [CaseMapping] in
theorem missingObject_breaks (current : List SymbolEntry) (entry : SymbolEntry) : (missingObject current entry).isBreaking = true := by
  rw [missingObject]
  split
  · split
    · rfl
    · rfl
  · rfl

omit [CaseMapping] in
theorem quiet_sorted (changes : List BreakingChange) : Quiet (sortBy changeKey changes) ↔ Quiet changes :=
  forall_congr' fun _ => imp_congr_left (mem_sortBy changeKey)

/-- The analysis is quiet when every object has a partner of which nothing is reported. -/
theorem quiet_analyze {b c : List SymbolEntry} (unique : UniqueSurface b) (unique' : UniqueSurface c) :
    Quiet (analyzeBreakingChanges b c) ↔
      ∀ old ∈ published b, ∃ new ∈ published c, SameObject old new ∧ Quiet (diffObject old new) := by
  rw [analyzeBreakingChanges, quiet_sorted, quiet_flatMap]
  constructor
  · intro quiet old inside
    have entry : (identity old, old) ∈ (buildMap b).entries :=
      (mem_entries_iff _).mpr ((buildMap_get?_iff unique _ _).mpr ⟨inside, rfl⟩)
    have here := quiet _ entry
    dsimp only at here
    split at here
    next new found =>
      obtain ⟨there, same⟩ := (buildMap_get?_iff unique' _ _).mp found
      exact ⟨new, there, SameObject.identity.mpr same, here⟩
    next =>
      have breaks := here _ (List.mem_singleton_self _)
      rw [missingObject_breaks] at breaks
      cases breaks
  · rintro partners ⟨key, old⟩ entry
    obtain ⟨inside, rfl⟩ := (buildMap_get?_iff unique _ _).mp ((mem_entries_iff _).mp entry)
    obtain ⟨new, there, same, quiet⟩ := partners old inside
    dsimp only
    rw [(buildMap_get?_iff unique' _ _).mpr ⟨there, SameObject.identity.mp same⟩]
    exact quiet

theorem quiet_analyze_iff {b c : List SymbolEntry} (unique : UniqueSurface b) (separate : SeparateSurface b)
    (unique' : UniqueSurface c) (separate' : SeparateSurface c) : Quiet (analyzeBreakingChanges b c) ↔ Compatible b c := by
  rw [quiet_analyze unique unique']
  apply forall₂_congr
  intro old inside
  apply exists_congr
  intro new
  apply and_congr_right
  intro there
  rw [quiet_diffObject (separate old inside) (unique'.entries new there) (separate' new there)]

theorem analyze_self {b : List SymbolEntry} (unique : UniqueSurface b) (agree : ∀ entry ∈ published b, KeysAgree entry) :
    analyzeBreakingChanges b b = [] := by
  apply List.eq_nil_iff_forall_not_mem.mpr
  intro change reported
  rw [analyzeBreakingChanges, mem_sortBy, List.mem_flatMap] at reported
  obtain ⟨⟨key, entry⟩, inside, change_in⟩ := reported
  have found := (buildMap b).get?_of_mem inside
  obtain ⟨there, _⟩ := (buildMap_get?_iff unique _ _).mp found
  dsimp only at found change_in
  rw [found] at change_in
  dsimp only at change_in
  rw [diffObject_self (unique.entries entry there) (agree entry there)] at change_in
  cases change_in

theorem reports_of_separate {b c d : List SymbolEntry} (unique : UniqueSurface b) (separate : SeparateSurface b)
    (unique' : UniqueSurface c) (separate' : SeparateSurface c) (unique'' : UniqueSurface d) (separate'' : SeparateSurface d) :
    Reports b c d where
  silent := analyze_self unique fun entry inside => (separate entry inside).keys
  exact := quiet_analyze_iff unique separate unique' separate'
  composes first second := by
    rw [quiet_analyze_iff unique separate unique' separate'] at first
    rw [quiet_analyze_iff unique' separate' unique'' separate''] at second
    exact (quiet_analyze_iff unique separate unique'' separate'').mpr (first.trans second)

/-! ## What a map hides -/

/-- The object without the fields that the map does not hold. -/
def collapsed (entry : SymbolEntry) : SymbolEntry := { entry with fields := (fieldMap entry).values }

theorem fieldMap_name {entry : SymbolEntry} {name : String} {field : FieldSymbol} (found : (fieldMap entry).get? name = some field) :
    field ∈ entry.fields ∧ toLowercase field.name = name := by
  obtain ⟨source, there, same⟩ := List.mem_map.mp (mem_of_collected found)
  obtain ⟨lower, rfl⟩ := Prod.mk.inj same
  exact ⟨there, lower⟩

theorem mem_collapsed (entry : SymbolEntry) (field : FieldSymbol) : field ∈ (collapsed entry).fields ↔
    (fieldMap entry).get? (toLowercase field.name) = some field := by
  rw [collapsed, OrderedMap.values, List.mem_map]
  constructor
  · rintro ⟨⟨name, other⟩, inside, rfl⟩
    have found := (fieldMap entry).get?_of_mem inside
    rwa [(fieldMap_name found).2]
  · intro found
    exact ⟨_, (mem_entries_iff _).mpr found, rfl⟩

theorem collapsed_subset {entry : SymbolEntry} {field : FieldSymbol} (inside : field ∈ (collapsed entry).fields) :
    field ∈ entry.fields := (fieldMap_name ((mem_collapsed entry field).mp inside)).1

theorem collapsed_separate (entry : SymbolEntry) : ((collapsed entry).fields.map fun field => toLowercase field.name).Nodup := by
  have keys : (collapsed entry).fields.map (fun field => toLowercase field.name) = (fieldMap entry).keys := by
    rw [collapsed, OrderedMap.values, OrderedMap.keys, List.map_map]
    apply List.map_congr_left
    intro pair inside
    exact (fieldMap_name ((fieldMap entry).get?_of_mem inside)).2
  rw [keys]
  apply (fieldMap entry).keys_distinct.imp
  intro a b apart same
  exact apart (Std.LawfulEqCmp.compare_eq_iff_eq.mpr same)

theorem collapsed_unique {entry : SymbolEntry} (unique : UniqueEntry entry) : UniqueEntry (collapsed entry) := by
  have nodup : (collapsed entry).fields.Nodup := (collapsed_separate entry).of_map
  have kept {α : Type} {key : FieldSymbol → α} (apart : (entry.fields.map key).Nodup) : ((collapsed entry).fields.map key).Nodup := by
    apply nodup.map_on
    intro a first b second same
    exact List.inj_on_of_nodup_map apart (collapsed_subset first) (collapsed_subset second) same
  exact ⟨kept unique.fieldNames, kept unique.fieldIds, unique.contracts, unique.valueNames, unique.ordinals, unique.targets, unique.masks⟩

theorem quiet_collapsed {entry : SymbolEntry} (unique : UniqueEntry entry) (agree : KeysAgree entry) :
    Quiet (diffObject entry (collapsed entry)) := by
  have separate : Separate (collapsed entry) := ⟨collapsed_separate entry, agree⟩
  rw [quiet_parts entry (collapsed_unique unique) agree]
  constructor
  · have same := ((serves_parts entry entry).mp (Serves.refl entry)).1
    exact ⟨same.id, same.base, same.interfaces, same.access, same.procedures, nofun, same.values, same.keys, same.controls,
      same.permissions⟩
  · rintro ⟨name, field⟩ inside
    have found : (fieldMap entry).get? name = some field := (fieldMap entry).get?_of_mem inside
    obtain ⟨_, rfl⟩ := fieldMap_name found
    have kept := (mem_collapsed entry field).mpr found
    exact (quiet_diffField ..).mpr ⟨field, (fieldMap_get?_iff separate _ _).mpr ⟨kept, rfl⟩, rfl, rfl, fun open_ => open_⟩

omit [CaseMapping] in
theorem published_map {f : SymbolEntry → SymbolEntry} (same : ∀ entry, (f entry).synthetic = entry.synthetic)
    (entries : List SymbolEntry) : published (entries.map f) = (published entries).map f := by
  rw [published, published, List.filter_map]
  congr 2
  funext entry
  exact congrArg (! ·) (same entry)

theorem published_collapsed (b : List SymbolEntry) : published (b.map collapsed) = (published b).map collapsed :=
  published_map (f := collapsed) (fun _ => rfl) b

theorem collapsed_surface {b : List SymbolEntry} (unique : UniqueSurface b) (agree : ∀ entry ∈ published b, KeysAgree entry) :
    UniqueSurface (b.map collapsed) ∧ SeparateSurface (b.map collapsed) := by
  refine ⟨⟨?_, ?_⟩, ?_⟩
  · rw [published_collapsed, List.map_map]
    exact unique.identities
  · rw [published_collapsed]
    intro entry inside
    obtain ⟨source, there, rfl⟩ := List.mem_map.mp inside
    exact collapsed_unique (unique.entries source there)
  · intro entry inside
    rw [published_collapsed] at inside
    obtain ⟨source, there, rfl⟩ := List.mem_map.mp inside
    exact ⟨collapsed_separate source, agree source there⟩

/-- Fields that share an entry of the map are not missed when all but the last one are removed. -/
theorem separate_of_exact {b : List SymbolEntry} (unique : UniqueSurface b) (agree : ∀ entry ∈ published b, KeysAgree entry)
    (exact_ : Quiet (analyzeBreakingChanges b (b.map collapsed)) → Compatible b (b.map collapsed)) : SeparateSurface b := by
  have unique' := (collapsed_surface unique agree).1
  have quiet : Quiet (analyzeBreakingChanges b (b.map collapsed)) := by
    rw [quiet_analyze unique unique']
    intro old inside
    refine ⟨collapsed old, ?_, SameObject.identity.mpr rfl, quiet_collapsed (unique.entries old inside) (agree old inside)⟩
    rw [published_collapsed]
    exact List.mem_map_of_mem inside
  intro entry inside
  refine ⟨?_, agree entry inside⟩
  obtain ⟨new, there, same, serves⟩ := exact_ quiet entry inside
  rw [published_collapsed] at there
  obtain ⟨source, member, rfl⟩ := List.mem_map.mp there
  have named : identity (collapsed source) = identity entry := SameObject.identity.mp same
  change identity source = identity entry at named
  obtain rfl : source = entry := List.inj_on_of_nodup_map unique.identities member inside named
  have ids := (unique.entries source inside).fieldIds
  have all : ∀ field ∈ source.fields, field ∈ (collapsed source).fields := by
    intro field within
    obtain ⟨other, kept, sameField⟩ := serves.fields field within
    rwa [List.inj_on_of_nodup_map ids within (collapsed_subset kept) sameField.id.symm]
  apply ids.of_map.map_on
  intro a first c second lower
  exact List.inj_on_of_nodup_map (collapsed_separate source) (all a first) (all c second) lower

omit [CaseMapping] in
/-- Each key has the fields of the first one with its name. -/
theorem first_key {old new : SymbolEntry} {key : KeySymbol} (quiet : Quiet (diffKey old new key)) :
    ∃ first, (new.keys.find? fun other => eqIgnoreAsciiCase other.name key.name) = some first ∧
      key.fieldNames.map normalizeName = first.fieldNames.map normalizeName := by
  rw [diffKey] at quiet
  split at quiet
  next => exact absurd quiet not_quiet_changeOf
  next first found =>
    rw [quiet_if, not_not] at quiet
    exact ⟨first, found, quiet⟩

theorem separate_nil : SeparateSurface [] := List.forall_mem_nil _

theorem agree_of_silent {b : List SymbolEntry} (unique : UniqueSurface b) (silent : analyzeBreakingChanges b b = []) :
    ∀ entry ∈ published b, KeysAgree entry := by
  have quiet : Quiet (analyzeBreakingChanges b b) := by
    rw [silent]
    exact quiet_nil
  intro entry inside
  obtain ⟨new, there, same, here⟩ := (quiet_analyze unique unique).mp quiet entry inside
  obtain rfl : new = entry := List.inj_on_of_nodup_map unique.identities there inside (SameObject.identity.mp same)
  have keys : Quiet (diffKeys new new) := by
    rw [diffObject] at here
    simp only [quiet_append] at here
    exact here.1.1.2
  rw [diffKeys, quiet_flatMap] at keys
  intro key first other second named
  obtain ⟨found, is, fields⟩ := first_key (keys key first)
  obtain ⟨found', is', fields'⟩ := first_key (keys other second)
  have folds : (fun third : KeySymbol => eqIgnoreAsciiCase third.name key.name) = fun third => eqIgnoreAsciiCase third.name other.name := by
    funext third
    rw [Bool.eq_iff_iff, eqIgnoreAsciiCase_iff, eqIgnoreAsciiCase_iff, named]
  rw [folds, is'] at is
  rw [fields, fields', Option.some.inj is]

end Unicode

section Accents

attribute [local instance] CaseMapping.latin1

/-- A table with the given fields and keys. -/
def stateTable (fields : List FieldSymbol) (keys : List KeySymbol) : List SymbolEntry :=
  [{ kind := .table, id := 50100, name := "Etat", fields, keys }]

def upperField : FieldSymbol := ⟨1, "É", "Integer", []⟩

def lowerField : FieldSymbol := ⟨2, "é", "Integer", []⟩

theorem lowerTable_separate : SeparateSurface (stateTable [lowerField] []) := by
  intro entry inside
  obtain rfl := List.mem_singleton.mp inside
  exact ⟨List.nodup_singleton _, nofun⟩

end Accents

end AlLanguage.Analysis
