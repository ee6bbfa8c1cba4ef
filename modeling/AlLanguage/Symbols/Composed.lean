import AlLanguage.Library.Conflicts
import AlLanguage.Symbols.Views

/-!
# What composed objects hold

- A composition holds no two fields in conflict, and each field that it leaves out is in conflict with one that it holds.
- The fields of the base stay, whatever order the packages are loaded in, when no smaller field number of an extension
  brings a name of the base, and when the extensions do not compete for a number.
-/

namespace AlLanguage.Symbols

open Library AlLanguage.Runtime

section Compositions

variable [CaseMapping]

/-! ## One composition -/

section Parts

variable {α : Type} (number : α → Int32) (name : α → String)

/-- The number of a field or of an enum value. -/
def numberOf (a : α) : Int := (number a).toInt

def foldedOf (a : α) : String := toLowercase (name a)

omit [CaseMapping] in
theorem byNumber_eq (items : List α) :
    items.insertionSort (fun a b => number a ≤ number b) = byNumber (numberOf number) items := by
  induction items with
  | nil => rfl
  | cons a rest ih =>
      rw [List.insertionSort_cons, byNumber, List.insertionSort_cons, ih, ← byNumber]
      apply orderedInsert_congr
      exact fun b _ => Int32.le_iff_toInt_le

theorem dropConflicting_eq (items chosen : List α) :
    dropConflicting number name items (chosen.map number) (chosen.map fun a => toLowercase (name a)) =
      choose (Conflict (numberOf number) (foldedOf name)) chosen items := by
  induction items generalizing chosen with
  | nil => rfl
  | cons a rest ih =>
      have clash : (number a ∈ chosen.map number ∨ toLowercase (name a) ∈ chosen.map fun a => toLowercase (name a)) ↔
          ∃ b ∈ chosen, Conflict (numberOf number) (foldedOf name) b a := by
        simp only [List.mem_map, Conflict, numberOf, foldedOf, Int32.toInt_inj]
        constructor
        · rintro (⟨b, inside, same⟩ | ⟨b, inside, same⟩)
          · exact ⟨b, inside, .inl same⟩
          · exact ⟨b, inside, .inr same⟩
        · rintro ⟨b, inside, same | same⟩
          · exact .inl ⟨b, inside, same⟩
          · exact .inr ⟨b, inside, same⟩
      rw [dropConflicting, choose]
      exact if_congr clash (ih chosen) (congrArg (a :: ·) (ih (a :: chosen)))

/-- The items that a composition holds. -/
def held (items : List α) : List α := stays (numberOf number) (foldedOf name) items

theorem dropConflicting_sorted (items : List α) :
    dropConflicting number name (items.insertionSort fun a b => number a ≤ number b) [] [] = held number name items := by
  rw [byNumber_eq]
  exact dropConflicting_eq number name _ []

end Parts

def workspaceFirst (a b : Arc) : Ordering :=
  compare (isWorkspacePackage b.value.package) (isWorkspacePackage a.value.package)

instance : Std.TransCmp workspaceFirst :=
  have : Std.TransCmp fun a b : Arc => compareOn (fun a : Arc => isWorkspacePackage a.value.package) b a := inferInstance
  this

instance : Std.TransCmp compareCandidates :=
  inferInstanceAs (Std.TransCmp (compareLex workspaceFirst
    (compareLex (compareOn fun a : Arc => foldName a.value.package) (compareOn fun a : Arc => a.value.id))))

/-! ## The base and the extensions -/

/-- The entries that can be the base. -/
def candidatesOf (kind : ObjectKind) (name : String) (entries : List SymbolEntry) : List SymbolEntry :=
  entries.filter fun e => toLowercase e.name = toLowercase name ∧ e.kind = kind

/-- The entry does not come after the other one. -/
def Preferred (a b : SymbolEntry) : Prop := compareCandidates ⟨0, a⟩ ⟨0, b⟩ ≠ .gt

instance : DecidableRel Preferred := fun _ _ => inferInstanceAs (Decidable (_ ≠ _))

instance : IsTrans SymbolEntry Preferred := ⟨fun _ _ _ first second =>
  Ordering.isLE_iff_ne_gt.mp
    (Std.TransCmp.isLE_trans (Ordering.isLE_iff_ne_gt.mpr first) (Ordering.isLE_iff_ne_gt.mpr second))⟩

instance : Std.Total Preferred := ⟨fun a b => by
  by_cases after : compareCandidates ⟨0, a⟩ ⟨0, b⟩ = .gt
  · right
    rw [Preferred, Std.OrientedCmp.lt_of_gt after]
    decide
  · exact .inl after⟩

omit [CaseMapping] in
theorem inGroup_some {κ : Type} [Ord κ] [Std.LawfulEqOrd κ] [DecidableEq κ] {key : Arc → Option κ} {arc : Arc} {k : κ}
    (keyed : key arc = some k) (group : κ) : inGroup key group arc = decide (k = group) := by
  rw [inGroup, keyed]
  exact Bool.eq_iff_iff.mpr (by simp)

variable [LanguageData]

def extendingOf (kind : ObjectKind) (name : String) (entries : List SymbolEntry) : List SymbolEntry :=
  entries.filter fun e => e.extends_.map toLowercase = some (toLowercase name) ∧ e.kind.baseKind = some kind

/-- The base and the extensions of a composition out of these entries. -/
def compositionOf (kind : ObjectKind) (name : String) (entries : List SymbolEntry) :
    Option (SymbolEntry × List SymbolEntry) :=
  if kind.isExtension then none
  else ((candidatesOf kind name entries).insertionSort Preferred).head?.map fun base => (base, extendingOf kind name entries)

namespace SymbolIndex

variable {index : SymbolIndex}

omit [CaseMapping] [LanguageData] in
theorem contents_values (index : SymbolIndex) : index.contents.map (·.1) = index.allEntries.map (·.value) := by
  simp [contents, allEntries_eq]

omit [LanguageData] in
theorem Grouped.named (grouped : index.Grouped) (kind : ObjectKind) (name : String) :
    ((index.getByName name).filter (·.value.kind = kind)).map (·.value) =
      candidatesOf kind name (index.contents.map (·.1)) := by
  rw [getByName, grouped.byName, getD_nonempty, contents_values, candidatesOf, List.filter_filter, List.filter_map]
  congr 2
  funext arc
  have keyed : nameOf arc = some (toLowercase arc.value.name) := rfl
  simp [inGroup_some keyed, and_comm]

theorem Grouped.extending (grouped : index.Grouped) (kind : ObjectKind) (name : String) :
    ((index.getExtensionsOf name).filter (·.value.kind.baseKind = some kind)).map (·.value) =
      extendingOf kind name (index.contents.map (·.1)) := by
  rw [getExtensionsOf, grouped.byExtends, getD_nonempty, contents_values, extendingOf, List.filter_filter, List.filter_map]
  congr 2
  funext arc
  cases extended : arc.value.extends_ with
  | none => simp [inGroup, extendsOf, extended]
  | some base =>
      have keyed : extendsOf arc = some (toLowercase base) := by rw [extendsOf, extended, Option.map_some]
      simp [inGroup_some keyed, extended, and_comm]

theorem composed_eq {kind : ObjectKind} {name : String} {composed : ComposedObject}
    (found : getComposed index kind name = some composed) : composed = compose composed.base composed.extensions := by
  rw [getComposed, composeFrom] at found
  split at found
  · cases found
  · dsimp only at found
    split at found
    · cases found
    · obtain rfl := Option.some.inj found
      rfl

/-- A composition is made of a base and of extensions among the entries. -/
theorem Grouped.composition (grouped : index.Grouped) (kind : ObjectKind) (name : String) :
    ((getComposed index kind name).map fun composed => (composed.base.value, composed.extensions.map (·.value))) =
      compositionOf kind name (index.contents.map (·.1)) := by
  rw [getComposed, composeFrom, compositionOf, ← grouped.named, ← grouped.extending]
  split
  · rfl
  · have values := List.map_insertionSort (fun a b => compareCandidates a b ≠ .gt) Preferred Arc.value
      ((index.getByName name).filter (·.value.kind = kind)) fun _ _ _ _ => Iff.rfl
    rw [← values]
    dsimp only
    split
    next none => rw [none]; rfl
    next base others sorted => rw [sorted]; rfl

/-! ## Packages -/

omit [LanguageData] in
theorem added_appPaths (index : SymbolIndex) (entries : List SymbolEntry) (packageKey : Option String) :
    (index.addEntriesOwnedWithKey entries packageKey).appPaths = index.appPaths := by
  have new : ∀ (entries : List SymbolEntry) (index : SymbolIndex),
      (index.addNewEntries packageKey entries).1.appPaths = index.appPaths := by
    intro entries
    induction entries with
    | nil => exact fun _ => rfl
    | cons entry rest ih =>
        intro index
        rw [addNewEntries_cons]
        exact ih _
  obtain ⟨cache, invalidated⟩ := index.invalidated entries
  rw [addEntriesOwnedWithKey_eq, invalidated]
  obtain ⟨names, updated⟩ := updated_after_add _ _ _
  dsimp only
  rw [updated]
  exact new ..

omit [LanguageData] in
/-- A load records its own path only. -/
theorem recorded_after_load (index : SymbolIndex) (pkg : SymbolPackage) (path : Option PackagePath)
    {record : String × AppPathRecord} (member : record ∈ (index.indexLoadedPackage pkg path).appPaths.entries) :
    record ∈ index.appPaths.entries ∨ path.map (·.indexed) = some record.2.path := by
  cases path with
  | none =>
      have earlier := (added_appPaths (index.removePackageIdentities [packageIdentityKey pkg.appId pkg.name]) _ _) ▸ member
      rw [(removedIdentities index _).appPaths] at earlier
      exact .inl (List.mem_filter.mp earlier).1
  | some path =>
      have earlier := (added_appPaths (((index.removePackageIdentities [packageIdentityKey pkg.appId pkg.name])
        |>.removePackageIdentities _).publishPath _ ⟨foldName pkg.name, path.indexed⟩) _ _) ▸ member
      rcases OrderedMap.mem_insert earlier with ⟨-, own⟩ | ⟨before, -⟩
      · rw [own]
        exact .inr rfl
      · rw [(removedIdentities _ _).appPaths, (removedIdentities index _).appPaths] at before
        exact .inl (List.mem_filter.mp (List.mem_filter.mp before).1).1

end SymbolIndex

def addedIdentity (load : SymbolPackage × Option PackagePath) : String := packageIdentityKey load.1.appId load.1.name

def addedPath (load : SymbolPackage × Option PackagePath) : Option String := load.2.map (·.indexed)

/-- The index of packages that are added one after the other. -/
def loaded (loads : List (SymbolPackage × Option PackagePath)) : SymbolIndex :=
  loads.foldl (fun index load => index.indexLoadedPackage load.1 load.2) {}

/-- The packages are different ones, out of different files. -/
structure Apart (loads : List (SymbolPackage × Option PackagePath)) : Prop where
  identities : (loads.map addedIdentity).Nodup
  paths : (loads.filterMap addedPath).Nodup

namespace SymbolIndex

variable {index : SymbolIndex}

/-- The index knows neither the packages nor their files. -/
structure Fresh (index : SymbolIndex) (loads : List (SymbolPackage × Option PackagePath)) : Prop where
  identities : ∀ entry ∈ index.contents, entry.2 ∉ loads.map addedIdentity
  paths : ∀ record ∈ index.appPaths.entries, record.2.path ∉ loads.filterMap addedPath

omit [LanguageData] in
theorem Fresh.replacedBy {load : SymbolPackage × Option PackagePath} {rest : List (SymbolPackage × Option PackagePath)}
    (fresh : index.Fresh (load :: rest)) : index.replacedBy (addedIdentity load) load.2 = [addedIdentity load] := by
  obtain ⟨pkg, path⟩ := load
  cases path with
  | none => rfl
  | some path =>
      rw [SymbolIndex.replacedBy, Option.elim_some, staleIdentities, List.filter_eq_nil_iff.mpr]
      · rfl
      · intro record member
        have other : record.2.path ≠ path.indexed := by
          intro same
          exact fresh.paths record member (List.mem_filterMap.mpr ⟨_, List.mem_cons_self, by rw [same]; rfl⟩)
        simp [other]

theorem Agrees.fresh_load (agrees : index.Agrees) {load : SymbolPackage × Option PackagePath}
    {rest : List (SymbolPackage × Option PackagePath)} (apart : Apart (load :: rest)) (fresh : index.Fresh (load :: rest)) :
    (index.indexLoadedPackage load.1 load.2).contents =
        index.contents ++ load.1.objects.map (fun entry => (entry, addedIdentity load)) ∧
      (index.indexLoadedPackage load.1 load.2).Fresh rest := by
  have contents : (index.indexLoadedPackage load.1 load.2).contents =
      index.contents ++ load.1.objects.map fun entry => (entry, addedIdentity load) := by
    have replaced := fresh.replacedBy
    rw [addedIdentity] at replaced
    rw [agrees.contents_indexLoadedPackage, replaced, List.filter_eq_self.mpr]
    · rfl
    · intro entry member
      have other : entry.2 ≠ addedIdentity load := by
        intro same
        exact fresh.identities entry member (same ▸ List.mem_cons_self)
      simpa [addedIdentity] using other
  refine ⟨contents, ?_, ?_⟩
  · intro entry member known
    rw [contents] at member
    rcases List.mem_append.mp member with old | new
    · exact fresh.identities entry old (List.mem_cons_of_mem _ known)
    · obtain ⟨object, -, rfl⟩ := List.mem_map.mp new
      exact (List.nodup_cons.mp apart.identities).1 known
  · intro record member known
    rcases index.recorded_after_load _ _ member with old | own
    · apply fresh.paths record old
      rw [List.filterMap_cons]
      split
      · exact known
      · exact List.mem_cons_of_mem _ known
    · have distinct := apart.paths
      have recorded : addedPath load = some record.2.path := own
      rw [List.filterMap_cons_some recorded] at distinct
      exact (List.nodup_cons.mp distinct).1 known

theorem Agrees.contents_loads (agrees : index.Agrees) {loads : List (SymbolPackage × Option PackagePath)}
    (apart : Apart loads) (fresh : index.Fresh loads) :
    (loads.foldl (fun index load => index.indexLoadedPackage load.1 load.2) index).Agrees ∧
      (loads.foldl (fun index load => index.indexLoadedPackage load.1 load.2) index).contents.map (·.1) =
        index.contents.map (·.1) ++ loads.flatMap (·.1.objects) := by
  induction loads generalizing index with
  | nil => exact ⟨agrees, by simp⟩
  | cons load rest ih =>
      obtain ⟨contents, later⟩ := agrees.fresh_load apart fresh
      have apartRest : Apart rest := by
        refine ⟨(List.nodup_cons.mp apart.identities).2, apart.paths.sublist ?_⟩
        exact (List.sublist_cons_self load rest).filterMap addedPath
      obtain ⟨loadedAgrees, values⟩ := ih (agrees.indexLoadedPackage load.1 load.2) apartRest later
      refine ⟨loadedAgrees, ?_⟩
      rw [List.foldl_cons, values, contents]
      simp [Function.comp_def]

end SymbolIndex

theorem loaded_contents {loads : List (SymbolPackage × Option PackagePath)} (apart : Apart loads) :
    (loaded loads).Grouped ∧ (loaded loads).contents.map (·.1) = loads.flatMap (·.1.objects) := by
  have fresh : SymbolIndex.Fresh {} loads := ⟨by simp [SymbolIndex.contents, OrderedMap.empty], by simp [OrderedMap.empty]⟩
  obtain ⟨agrees, contents⟩ := SymbolIndex.agrees_new.contents_loads apart fresh
  exact ⟨agrees.grouped, contents⟩

/-! ## Any order -/

/-- An entry that is the base when its package comes first. -/
structure Choice (kind : ObjectKind) (name : String) (loads : List (SymbolPackage × Option PackagePath)) (e : SymbolEntry) :
    Prop where
  plain : ¬kind.isExtension = true
  own : ∃ load ∈ loads, ((candidatesOf kind name load.1.objects).insertionSort Preferred).head? = some e
  least : ∀ load ∈ loads, ∀ b ∈ candidatesOf kind name load.1.objects, Preferred e b

variable {kind : ObjectKind} {name : String} {loads order : List (SymbolPackage × Option PackagePath)} {e : SymbolEntry}

theorem Choice.perm (choice : Choice kind name loads e) (perm : order.Perm loads) : Choice kind name order e := by
  obtain ⟨plain, ⟨load, member, first⟩, least⟩ := choice
  exact ⟨plain, ⟨load, perm.mem_iff.mpr member, first⟩, fun load inside => least load (perm.mem_iff.mp inside)⟩

omit [LanguageData] in
theorem candidatesOf_flatMap (loads : List (SymbolPackage × Option PackagePath)) :
    candidatesOf kind name (loads.flatMap (·.1.objects)) = loads.flatMap fun load => candidatesOf kind name load.1.objects :=
  List.filter_flatMap ..

theorem extendingOf_flatMap (loads : List (SymbolPackage × Option PackagePath)) :
    extendingOf kind name (loads.flatMap (·.1.objects)) = loads.flatMap fun load => extendingOf kind name load.1.objects :=
  List.filter_flatMap ..

/-- The base is the choice of one of the packages. -/
theorem choice_of_composition {extending : List SymbolEntry}
    (found : compositionOf kind name (loads.flatMap (·.1.objects)) = some (e, extending)) :
    Choice kind name loads e ∧ extending = loads.flatMap fun load => extendingOf kind name load.1.objects := by
  rw [compositionOf] at found
  split at found
  · cases found
  next plain =>
    obtain ⟨base, first, same⟩ := Option.map_eq_some_iff.mp found
    obtain ⟨rfl, rfl⟩ := Prod.mk.inj same
    obtain ⟨before, after, split, below, later⟩ := head?_insertionSort.mp first
    rw [candidatesOf_flatMap] at split below
    refine ⟨⟨plain, ?_, ?_⟩, extendingOf_flatMap loads⟩
    · obtain ⟨load, member, front, back, own, early⟩ := split_flatMap split
      refine ⟨load, member, head?_insertionSort.mpr ⟨front, back, own, ?_, fun b inside => later b (early b inside)⟩⟩
      intro b inside
      exact below b (List.mem_flatMap.mpr ⟨load, member, inside⟩)
    · intro load member b inside
      exact below b (List.mem_flatMap.mpr ⟨load, member, inside⟩)

theorem Choice.exists_composition (choice : Choice kind name loads e) :
    ∃ found, compositionOf kind name (loads.flatMap (·.1.objects)) = some found := by
  obtain ⟨plain, ⟨load, member, first⟩, -⟩ := choice
  have inside : e ∈ candidatesOf kind name (loads.flatMap (·.1.objects)) := by
    rw [candidatesOf_flatMap]
    exact List.mem_flatMap.mpr ⟨load, member, (List.mem_insertionSort _).mp (List.mem_of_head? first)⟩
  rw [compositionOf, if_neg plain]
  cases order : ((candidatesOf kind name (loads.flatMap (·.1.objects))).insertionSort Preferred).head? with
  | none =>
      rw [← List.mem_insertionSort Preferred, List.head?_eq_none_iff.mp order] at inside
      cases inside
  | some base => exact ⟨_, rfl⟩

section Part

variable {α : Type} (part : SymbolEntry → List α) (number : α → Int32) (text : α → String)

/-- What the extensions among the packages add. -/
def addedParts (kind : ObjectKind) (name : String) (loads : List (SymbolPackage × Option PackagePath)) : List α :=
  loads.flatMap fun load => (extendingOf kind name load.1.objects).flatMap part

/-- No base loses to an extension, no extensions compete, and bases of one rank come to the same. -/
structure PartSettled (kind : ObjectKind) (name : String) (loads : List (SymbolPackage × Option PackagePath)) : Prop where
  undisturbed : ∀ e, Choice kind name loads e →
    Undisturbed (numberOf number) (foldedOf text) (part e) (addedParts part kind name loads)
  alike : ∀ e e', Choice kind name loads e → Choice kind name loads e' → ∀ a,
    a ∈ part e ∨ Leads (numberOf number) (foldedOf text) (part e) (addedParts part kind name loads) a →
      a ∈ part e' ∨ Leads (numberOf number) (foldedOf text) (part e') (addedParts part kind name loads) a

/-- No two items share a number or a folded name. -/
def DistinctItems (items : List α) : Prop := items.Pairwise fun a b => ¬Conflict (numberOf number) (foldedOf text) a b

variable {part number text}

theorem mem_addedParts (perm : order.Perm loads) (a : α) :
    a ∈ addedParts part kind name loads ↔ a ∈ addedParts part kind name order :=
  (perm.flatMap_right _).mem_iff.symm

theorem PartSettled.mem_held (settled : PartSettled part number text kind name loads) (perm : order.Perm loads)
    (choice : Choice kind name loads e) (distinct : DistinctItems number text (part e)) (a : α) :
    a ∈ held number text (part e ++ addedParts part kind name order) ↔
      a ∈ part e ∨ Leads (numberOf number) (foldedOf text) (part e) (addedParts part kind name loads) a := by
  have undisturbed := (settled.undisturbed e choice).congr (mem_addedParts perm)
  rw [held, mem_stays_iff distinct undisturbed]
  apply or_congr_right
  exact ⟨Leads.congr fun a => (mem_addedParts perm a).symm, Leads.congr (mem_addedParts perm)⟩

theorem PartSettled.held_eq {e' : SymbolEntry} (settled : PartSettled part number text kind name loads)
    (perm : order.Perm loads) (choice : Choice kind name loads e) (choice' : Choice kind name loads e')
    (distinct : DistinctItems number text (part e)) (distinct' : DistinctItems number text (part e')) :
    held number text (part e ++ addedParts part kind name order) =
      held number text (part e' ++ addedParts part kind name loads) := by
  apply stays_congr
  intro a
  have first := settled.mem_held perm choice distinct a
  have second := settled.mem_held (List.Perm.refl _) choice' distinct' a
  rw [held] at first second
  rw [first, second]
  exact ⟨settled.alike e e' choice choice' a, settled.alike e' e choice' choice a⟩

/-- One outcome in every order, with all of the base, comes of settled packages only. -/
theorem partSettled_of_held (outcome : List α)
    (ownNumbers : ∀ load ∈ loads, ((extendingOf kind name load.1.objects).flatMap part).Pairwise (number · ≠ number ·))
    (sameBase : ∀ e e', Choice kind name loads e → Choice kind name loads e' → part e = part e')
    (same : ∀ order : List (SymbolPackage × Option PackagePath), order.Perm loads → ∀ e, Choice kind name loads e →
      held number text (part e ++ addedParts part kind name order) = outcome)
    (kept : ∀ e, Choice kind name loads e → ∀ a ∈ part e, a ∈ outcome) : PartSettled part number text kind name loads := by
  constructor
  · intro e choice
    refine undisturbed_of_foremost ?_ ?_ (kept e choice)
    · intro a member
      obtain ⟨load, inside, own⟩ := List.mem_flatMap.mp member
      obtain ⟨before, after, rfl⟩ := List.append_of_mem inside
      have perm : (load :: (before ++ after)).Perm (before ++ load :: after) := List.perm_middle.symm
      refine ⟨_, addedParts part kind name (before ++ after), own, ?_, ?_, same _ perm e choice⟩
      · exact (ownNumbers load inside).imp fun other equal => other (Int32.toInt_inj.mp equal)
      · intro c early
        exact (mem_addedParts perm c).mpr early
    · rw [← same loads (List.Perm.refl _) e choice]
      exact choose_pairwise ..
  · intro e e' choice choice' a
    rw [sameBase e e' choice choice']
    exact id

end Part

/-! ## Composed objects -/

/-- What is kept of offered items. -/
structure Resolved {α : Type} (number : α → Int32) (text : α → String) (offered kept : List α) : Prop where
  apart : kept.Pairwise fun a b => number a ≠ number b ∧ toLowercase (text a) ≠ toLowercase (text b)
  answered : ∀ a ∈ offered, a ∉ kept → ∃ b ∈ kept, number b = number a ∨ toLowercase (text b) = toLowercase (text a)
  ascending : kept.Pairwise fun a b => number a < number b

omit [LanguageData] in
theorem resolved_held {α : Type} (number : α → Int32) (text : α → String) (own offered : List α) :
    Resolved number text offered (held number text (own ++ offered)) := by
  refine ⟨?_, ?_, ?_⟩
  · apply (choose_pairwise (Conflict (numberOf number) (foldedOf text)) [] _).imp
    intro a b free
    exact ⟨fun same => free (.inl (congrArg Int32.toInt same)), fun same => free (.inr same)⟩
  · intro a member dropped
    obtain ⟨b, kept, -, same | same⟩ := conflict_of_dropped (List.mem_append_right own member) dropped
    · exact ⟨b, kept, .inl (Int32.toInt_inj.mp same)⟩
    · exact ⟨b, kept, .inr same⟩
  · have ascending : (held number text (own ++ offered)).Pairwise fun a b => numberOf number a < numberOf number b :=
      stays_ascending
    exact ascending.imp fun below => Int32.lt_iff_toInt_lt.mpr below

/-- What every composition holds. -/
structure Composes (composed : ComposedObject) : Prop where
  fields : Resolved (·.id) (·.name) (composed.extensions.flatMap (·.value.fields)) composed.allFields
  enumValues : Resolved (·.ordinal) (·.name) (composed.extensions.flatMap (·.value.enumValues)) composed.allEnumValues
  methods : composed.allMethods = composed.base.value.methods ++ composed.extensions.flatMap (·.value.methods)
  controls : composed.allControls = composed.base.value.controls ++ composed.extensions.flatMap (·.value.controls)

omit [LanguageData] in
theorem compose_fields (base : Arc) (extensions : List Arc) :
    (compose base extensions).allFields =
      held (·.id) (·.name) (base.value.fields ++ extensions.flatMap (·.value.fields)) :=
  dropConflicting_sorted ..

omit [LanguageData] in
theorem compose_enumValues (base : Arc) (extensions : List Arc) :
    (compose base extensions).allEnumValues =
      held (·.ordinal) (·.name) (base.value.enumValues ++ extensions.flatMap (·.value.enumValues)) :=
  dropConflicting_sorted ..

omit [LanguageData] in
theorem composes (base : Arc) (extensions : List Arc) : Composes (compose base extensions) := by
  refine ⟨?_, ?_, rfl, rfl⟩
  · rw [compose_fields]
    exact resolved_held ..
  · rw [compose_enumValues]
    exact resolved_held ..

/-- The base has distinct field numbers and names, and so have its enum values. -/
structure DistinctBase (e : SymbolEntry) : Prop where
  fields : DistinctItems FieldSymbol.id FieldSymbol.name e.fields
  enumValues : DistinctItems EnumValueSymbol.ordinal EnumValueSymbol.name e.enumValues

/-- The composition has all fields and enum values of its base. -/
structure KeepsBase (composed : ComposedObject) : Prop where
  fields : ∀ field ∈ composed.base.value.fields, field ∈ composed.allFields
  enumValues : ∀ value ∈ composed.base.value.enumValues, value ∈ composed.allEnumValues

/-- The composed fields and enum values. -/
def composedParts (index : SymbolIndex) (kind : ObjectKind) (name : String) :
    Option (List FieldSymbol × List EnumValueSymbol) :=
  (getComposed index kind name).map fun composed => (composed.allFields, composed.allEnumValues)

/-- In whatever order the packages are added, the base is kept and the outcome is one. -/
structure OrderFree (kind : ObjectKind) (name : String) (loads : List (SymbolPackage × Option PackagePath)) : Prop where
  keeps : ∀ order : List (SymbolPackage × Option PackagePath), order.Perm loads →
    ∀ composed, getComposed (loaded order) kind name = some composed → KeepsBase composed
  same : ∀ order : List (SymbolPackage × Option PackagePath), order.Perm loads →
    composedParts (loaded order) kind name = composedParts (loaded loads) kind name

structure SettledLoads (kind : ObjectKind) (name : String) (loads : List (SymbolPackage × Option PackagePath)) : Prop where
  fields : PartSettled (·.fields) (·.id) (·.name) kind name loads
  enumValues : PartSettled (·.enumValues) (·.ordinal) (·.name) kind name loads

/-- No package extends the object twice with one number, and bases of one rank declare the same. -/
structure PlainLoads (kind : ObjectKind) (name : String) (loads : List (SymbolPackage × Option PackagePath)) : Prop where
  fields : ∀ load ∈ loads,
    ((extendingOf kind name load.1.objects).flatMap (·.fields)).Pairwise fun a b => a.id ≠ b.id
  enumValues : ∀ load ∈ loads,
    ((extendingOf kind name load.1.objects).flatMap (·.enumValues)).Pairwise fun a b => a.ordinal ≠ b.ordinal
  bases : ∀ e e', Choice kind name loads e → Choice kind name loads e' →
    e.fields = e'.fields ∧ e.enumValues = e'.enumValues

omit [LanguageData] in
theorem Apart.perm (apart : Apart loads) (perm : order.Perm loads) : Apart order :=
  ⟨(perm.map _).nodup_iff.mpr apart.identities, (perm.filterMap _).nodup_iff.mpr apart.paths⟩

/-- The composition after the packages, out of a choice and what the extensions add. -/
theorem getComposed_loaded (apart : Apart loads) {composed : ComposedObject}
    (found : getComposed (loaded loads) kind name = some composed) :
    Choice kind name loads composed.base.value ∧
      composed.allFields = held (·.id) (·.name) (composed.base.value.fields ++ addedParts (·.fields) kind name loads) ∧
      composed.allEnumValues =
        held (·.ordinal) (·.name) (composed.base.value.enumValues ++ addedParts (·.enumValues) kind name loads) := by
  obtain ⟨grouped, contents⟩ := loaded_contents apart
  have composition := grouped.composition kind name
  rw [found, contents] at composition
  obtain ⟨choice, extending⟩ := choice_of_composition composition.symm
  have added {α : Type} (part : SymbolEntry → List α) :
      composed.extensions.flatMap (fun arc => part arc.value) = addedParts part kind name loads := by
    rw [addedParts, ← List.flatMap_assoc, ← extending, List.flatMap_map]
  have made := SymbolIndex.composed_eq found
  refine ⟨choice, ?_, ?_⟩
  · rw [← added, ← compose_fields, ← made]
  · rw [← added, ← compose_enumValues, ← made]

theorem exists_getComposed (apart : Apart loads) (choice : Choice kind name loads e) :
    ∃ composed, getComposed (loaded loads) kind name = some composed := by
  obtain ⟨grouped, contents⟩ := loaded_contents apart
  have composition := grouped.composition kind name
  obtain ⟨found, present⟩ := choice.exists_composition
  rw [contents, present] at composition
  obtain ⟨composed, here, -⟩ := Option.map_eq_some_iff.mp composition
  exact ⟨composed, here⟩

theorem SettledLoads.orderFree (settled : SettledLoads kind name loads) (apart : Apart loads)
    (distinct : ∀ e, Choice kind name loads e → DistinctBase e) : OrderFree kind name loads := by
  constructor
  · intro order perm composed found
    obtain ⟨choice, fields, enumValues⟩ := getComposed_loaded (apart.perm perm) found
    have first := choice.perm perm.symm
    constructor
    · intro field member
      rw [fields]
      exact (settled.fields.mem_held perm first (distinct _ first).fields field).mpr (.inl member)
    · intro value member
      rw [enumValues]
      exact (settled.enumValues.mem_held perm first (distinct _ first).enumValues value).mpr (.inl member)
  · intro order perm
    rw [composedParts, composedParts]
    cases here : getComposed (loaded order) kind name with
    | none =>
        cases there : getComposed (loaded loads) kind name with
        | none => rfl
        | some composed =>
            obtain ⟨choice, -⟩ := getComposed_loaded apart there
            obtain ⟨other, found⟩ := exists_getComposed (apart.perm perm) (choice.perm perm)
            rw [here] at found
            cases found
    | some composed =>
        obtain ⟨choice, fields, enumValues⟩ := getComposed_loaded (apart.perm perm) here
        have first := choice.perm perm.symm
        obtain ⟨composed', there⟩ := exists_getComposed apart first
        obtain ⟨choice', fields', enumValues'⟩ := getComposed_loaded apart there
        rw [there, Option.map_some, Option.map_some, fields, enumValues, fields', enumValues']
        rw [settled.fields.held_eq perm first choice' (distinct _ first).fields (distinct _ choice').fields]
        rw [settled.enumValues.held_eq perm first choice' (distinct _ first).enumValues (distinct _ choice').enumValues]

/-- With distinct packages, the parts after an order and any base of it. -/
theorem composedParts_eq (apart : Apart loads) (choice : Choice kind name loads e)
    (bases : ∀ e e', Choice kind name loads e → Choice kind name loads e' →
      e.fields = e'.fields ∧ e.enumValues = e'.enumValues) :
    composedParts (loaded loads) kind name =
      some (held (·.id) (·.name) (e.fields ++ addedParts (·.fields) kind name loads),
        held (·.ordinal) (·.name) (e.enumValues ++ addedParts (·.enumValues) kind name loads)) := by
  obtain ⟨composed, found⟩ := exists_getComposed apart choice
  obtain ⟨choice', fields, enumValues⟩ := getComposed_loaded apart found
  obtain ⟨sameFields, sameValues⟩ := bases _ _ choice choice'
  rw [composedParts, found, Option.map_some, fields, enumValues, sameFields, sameValues]

theorem OrderFree.settledLoads (free : OrderFree kind name loads) (apart : Apart loads)
    (plain : PlainLoads kind name loads) : SettledLoads kind name loads := by
  have bases := plain.bases
  have parts : ∀ order : List (SymbolPackage × Option PackagePath), order.Perm loads → ∀ e, Choice kind name loads e →
      composedParts (loaded loads) kind name =
        some (held (·.id) (·.name) (e.fields ++ addedParts (·.fields) kind name order),
          held (·.ordinal) (·.name) (e.enumValues ++ addedParts (·.enumValues) kind name order)) := by
    intro order perm e choice
    rw [← free.same order perm]
    apply composedParts_eq (apart.perm perm) (choice.perm perm)
    intro e e' left right
    exact bases e e' (left.perm perm.symm) (right.perm perm.symm)
  cases present : getComposed (loaded loads) kind name with
  | none =>
      have none : ∀ e, ¬Choice kind name loads e := by
        intro e choice
        obtain ⟨composed, found⟩ := exists_getComposed apart choice
        rw [present] at found
        cases found
      exact ⟨⟨fun e choice => absurd choice (none e), fun e _ choice => absurd choice (none e)⟩,
        ⟨fun e choice => absurd choice (none e), fun e _ choice => absurd choice (none e)⟩⟩
  | some composed =>
      have keeps := free.keeps loads (List.Perm.refl _) composed present
      obtain ⟨choice, -, -⟩ := getComposed_loaded apart present
      have outcome : composedParts (loaded loads) kind name = some (composed.allFields, composed.allEnumValues) := by
        rw [composedParts, present, Option.map_some]
      constructor
      · refine partSettled_of_held composed.allFields plain.fields (fun e e' left right => (bases e e' left right).1) ?_ ?_
        · intro order perm e left
          exact (Prod.mk.inj (Option.some.inj ((parts order perm e left).symm.trans outcome))).1
        · intro e left
          rw [(bases e _ left choice).1]
          exact keeps.fields
      · refine partSettled_of_held composed.allEnumValues plain.enumValues (fun e e' left right => (bases e e' left right).2) ?_ ?_
        · intro order perm e left
          exact (Prod.mk.inj (Option.some.inj ((parts order perm e left).symm.trans outcome))).2
        · intro e left
          rw [(bases e _ left choice).2]
          exact keeps.enumValues

/-- Compositions are consistent; they keep their base in every order exactly when nothing of it is disturbed. -/
theorem composition_settled :
    (∀ base extensions, Composes (compose base extensions) ∧
      (DistinctBase base.value →
        Undisturbed (numberOf FieldSymbol.id) (foldedOf FieldSymbol.name) base.value.fields
          (extensions.flatMap (·.value.fields)) →
        Undisturbed (numberOf EnumValueSymbol.ordinal) (foldedOf EnumValueSymbol.name) base.value.enumValues
          (extensions.flatMap (·.value.enumValues)) →
        KeepsBase (compose base extensions))) ∧
    ∀ kind name loads, Apart loads → (∀ e, Choice kind name loads e → DistinctBase e) →
      (SettledLoads kind name loads → OrderFree kind name loads) ∧
      (PlainLoads kind name loads → (OrderFree kind name loads ↔ SettledLoads kind name loads)) := by
  constructor
  · intro base extensions
    refine ⟨composes base extensions, ?_⟩
    intro distinct fields enumValues
    constructor
    · rw [compose_fields]
      exact base_stays distinct.fields fields
    · rw [compose_enumValues]
      exact base_stays distinct.enumValues enumValues
  · intro kind name loads apart distinct
    have enough := fun settled : SettledLoads kind name loads => settled.orderFree apart distinct
    exact ⟨enough, fun plain => ⟨fun free => free.settledLoads apart plain, enough⟩⟩

end Compositions

/-! ## Extensions in conflict -/

section Examples

attribute [local instance] CaseMapping.latin1 tableKinds

def fieldOf (id : Int32) (name : String) : FieldSymbol := ⟨id, name, "Text[50]", []⟩

def customerWith (fields : List FieldSymbol) : SymbolEntry := { customer with fields }

def customerExtWith (fields : List FieldSymbol) : SymbolEntry := { customerExt with fields }

def addOf (appId : String) (object : SymbolEntry) : SymbolPackage × Option PackagePath :=
  (⟨appId, object.package, "", "", [object], 1⟩, none)

theorem composition_settled_email :
    KeepsBase (compose ⟨0, customerWith [fieldOf 1 "No."]⟩ [⟨1, customerExtWith [fieldOf 50100 "E-Mail"]⟩]) := by
  apply (composition_settled.1 ⟨0, customerWith [fieldOf 1 "No."]⟩ [⟨1, customerExtWith [fieldOf 50100 "E-Mail"]⟩]).2
  · exact ⟨List.pairwise_singleton .., List.Pairwise.nil⟩
  · constructor
    · intro b member a inside named
      obtain rfl := List.mem_singleton.mp member
      obtain rfl := List.mem_singleton.mp inside
      exact absurd named (by decide +kernel)
    · intro a c left right _
      rw [List.mem_singleton.mp left.offered, List.mem_singleton.mp right.offered]
  · constructor
    · intro b member
      cases member
    · intro a c left
      cases left.offered

/-- A smaller field number takes the name of a base field, and of two extensions with one number the first one wins. -/
theorem base_field_lost :
    (∃ composed, getComposed
        (loaded [addOf "1" (customerWith [fieldOf 18 "Name"]), addOf "2" (customerExtWith [fieldOf 5 "NAME"])])
        .table "Customer" = some composed ∧ DistinctBase composed.base.value ∧ ¬KeepsBase composed) ∧
      let base := addOf "1" (customerWith [fieldOf 18 "Name"])
      let mail := addOf "2" (customerExtWith [fieldOf 50100 "E-Mail"])
      let fax := addOf "3" (customerExtWith [fieldOf 50100 "Fax No."])
      composedParts (loaded [base, mail, fax]) .table "Customer" ≠
        composedParts (loaded [base, fax, mail]) .table "Customer" := by
  constructor
  · have names : (getComposed
        (loaded [addOf "1" (customerWith [fieldOf 18 "Name"]), addOf "2" (customerExtWith [fieldOf 5 "NAME"])])
        .table "Customer").map (fun composed => (composed.base.value.fields.map (·.name),
          composed.base.value.enumValues.map (·.name), composed.allFields.map (·.name))) =
        some (["Name"], [], ["NAME"]) := by decide +kernel
    obtain ⟨composed, found, parts⟩ := Option.map_eq_some_iff.mp names
    obtain ⟨own, parts⟩ := Prod.mk.inj parts
    obtain ⟨values, all⟩ := Prod.mk.inj parts
    obtain ⟨field, single, named⟩ := List.map_eq_singleton_iff.mp own
    refine ⟨composed, found, ⟨?_, ?_⟩, ?_⟩
    · rw [single]
      exact List.pairwise_singleton ..
    · rw [List.map_eq_nil_iff.mp values]
      exact List.Pairwise.nil
    · intro keeps
      have kept := List.mem_map_of_mem (f := FieldSymbol.name) (keeps.fields field (by rw [single]; exact List.mem_singleton_self _))
      rw [all, named] at kept
      exact absurd kept (by decide)
  · intro base mail fax same
    have names := congrArg (Option.map fun parts => parts.1.map (·.name)) same
    revert names
    decide +kernel

end Examples

end AlLanguage.Symbols
