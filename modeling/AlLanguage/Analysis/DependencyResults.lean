import AlLanguage.Analysis.Dependencies
import Mathlib.Logic.Relation

/-!
# What the dependency graph lists

- The transitive packages are those that a direct dependency leads to over loaded packages. The root app is passed over.
- A conflict is reported for an identity with different versions, names or publishers, or with a requirement that no
  loaded version satisfies.
- Packages with one sort key are the only ones whose order in the list matters.
-/

namespace AlLanguage.Analysis

open Library AlLanguage.Runtime AlLanguage.Symbols
open Relation (TransGen)

section Sorted

theorem mem_sortedTexts {texts : List String} {text : String} : text ∈ sortedTexts texts ↔ text ∈ texts := by
  rw [sortedTexts, Finset.mem_sort, List.mem_toFinset]

theorem sortedTexts_congr {texts texts' : List String} (same : ∀ text, text ∈ texts ↔ text ∈ texts') :
    sortedTexts texts = sortedTexts texts' := by
  have sets : texts.toFinset = texts'.toFinset := by
    ext text
    rw [List.mem_toFinset, List.mem_toFinset, same]
  rw [sortedTexts, sortedTexts, sets]

theorem several_sortedTexts {texts : List String} :
    1 < (sortedTexts texts).length ↔ ∃ a ∈ texts, ∃ b ∈ texts, a ≠ b := by
  rw [sortedTexts, Finset.length_sort, Finset.one_lt_card]
  simp only [List.mem_toFinset]

end Sorted

/-! ## Transitive packages -/

/-- A loaded package of one identity depends on another. -/
def LeadsTo (packages : List PackageEntry) (a b : String) : Prop :=
  ∃ package ∈ packages, package.identity = a ∧ b ∈ package.dependencies.map dependencyIdentity

/-- No direct dependency, but one that a direct dependency leads to without the root app. -/
def Indirect (manifest : AppManifest) (rootDependencies : List AppDependency) (packages : List PackageEntry)
    (identity : String) : Prop :=
  identity ∉ rootDependencies.map dependencyIdentity ∧
    ∃ direct ∈ rootDependencies.map dependencyIdentity,
      TransGen (fun a b => LeadsTo packages a b ∧ b ≠ identityKey manifest.id manifest.name manifest.publisher)
        direct identity

theorem mem_dependencyTargets {packages : List PackageEntry} {a b : String} :
    b ∈ dependencyTargets packages a ↔ LeadsTo packages a b := by
  rw [dependencyTargets, List.mem_flatMap]
  simp only [List.mem_filter, decide_eq_true_eq, LeadsTo, and_assoc]

theorem leadsTo_congr {packages packages' : List PackageEntry} (same : ∀ p, p ∈ packages ↔ p ∈ packages') :
    LeadsTo packages = LeadsTo packages' := by
  funext a b
  simp only [LeadsTo, same]

section Graph

variable (manifest : AppManifest) (rootDependencies : List AppDependency) (packages : List PackageEntry)

section Closure

variable (rootIdentity : String)

omit manifest rootDependencies in
theorem dependencyTargets_unloaded (identity : String)
    (unloaded : decide (identity ∈ (packages.map (·.identity)).toFinset) = false) :
    dependencyTargets packages identity = [] := by
  apply List.eq_nil_iff_forall_not_mem.mpr
  intro target member
  obtain ⟨package, inside, here, _⟩ := mem_dependencyTargets.mp member
  exact of_decide_eq_false unloaded (List.mem_toFinset.mpr (List.mem_map.mpr ⟨package, inside, here⟩))

omit manifest in
/-- The loop ends because nothing is left on the queue. -/
theorem transitiveWork_queue : (transitiveWork rootIdentity rootDependencies packages).queue = [] := by
  rw [transitiveWork]
  apply (Worklist.close_start_settled (dependencyTargets_unloaded packages) ?_ ?_ ?_).2.1
  · exact (packages.map (·.identity)).toFinset
  · intro identity loaded
    exact of_decide_eq_true loaded
  · intro identity
    exact Finset.mem_sort _
  · rw [Finset.length_sort]

omit manifest in
theorem mem_reached (identity : String) :
    identity ∈ (transitiveWork rootIdentity rootDependencies packages).reached ↔
      identity ∈ packages.map (·.identity) ∧ identity ∉ rootDependencies.map dependencyIdentity ∧
        ∃ direct ∈ rootDependencies.map dependencyIdentity,
          TransGen (fun a b => LeadsTo packages a b ∧ b ≠ rootIdentity) direct identity := by
  have steps : Worklist.Step rootIdentity (dependencyTargets packages) =
      fun a b => LeadsTo packages a b ∧ b ≠ rootIdentity := by
    funext a b
    rw [Worklist.Step, mem_dependencyTargets]
  have reached : identity ∈ (transitiveWork rootIdentity rootDependencies packages).reached ↔
      decide (identity ∈ (packages.map (·.identity)).toFinset) = true ∧
        identity ∉ (rootDependencies.map dependencyIdentity).toFinset ∧
          ∃ direct ∈ (rootDependencies.map dependencyIdentity).toFinset,
            TransGen (Worklist.Step rootIdentity (dependencyTargets packages)) direct identity := by
    rw [transitiveWork]
    apply Worklist.close_reached (dependencyTargets_unloaded packages)
    · intro identity loaded
      exact of_decide_eq_true loaded
    · intro identity
      exact Finset.mem_sort _
    · rw [Finset.length_sort]
  rw [reached, decide_eq_true_iff, steps]
  simp only [List.mem_toFinset]

end Closure

open Classical in
theorem transitive_perm :
    (buildDependencyGraph manifest rootDependencies packages).transitive.Perm
      ((packages.filter fun package => Indirect manifest rootDependencies packages package.identity).map (·.node)) := by
  have sorted := sortBy_perm PackageEntry.sortKey packages
  have leads : LeadsTo (sortBy PackageEntry.sortKey packages) = LeadsTo packages :=
    leadsTo_congr fun p => mem_sortBy PackageEntry.sortKey
  rw [buildDependencyGraph]
  dsimp only
  apply (sortBy_perm DepNode.sortKey _).trans
  rw [List.filter_map]
  apply List.Perm.map
  apply List.Perm.trans _ (sorted.filter _)
  apply List.Perm.of_eq
  apply List.filter_congr
  intro package member
  have reached := mem_reached rootDependencies (sortBy PackageEntry.sortKey packages)
    (identityKey manifest.id manifest.name manifest.publisher) package.identity
  rw [and_iff_right (List.mem_map_of_mem member), leads, ← Indirect] at reached
  exact decide_eq_decide.mpr reached

/-! ## Missing dependencies -/

/-- The edges of the graph: the dependencies of the root app and of all packages. -/
def allEdges : List DepEdge :=
  rootDependencies.map (edge (manifest.id, manifest.name, manifest.publisher)) ++ packages.flatMap (·.edges)

theorem mem_edges {e : DepEdge} :
    e ∈ (buildDependencyGraph manifest rootDependencies packages).edges ↔ e ∈ allEdges manifest rootDependencies packages := by
  rw [buildDependencyGraph]
  dsimp only
  rw [mem_sortBy, allEdges, List.mem_append, List.mem_append, List.mem_flatMap, List.mem_flatMap]
  simp only [mem_sortBy]

theorem mem_missing {text : String} :
    text ∈ (buildDependencyGraph manifest rootDependencies packages).missing ↔
      ∃ e ∈ allEdges manifest rootDependencies packages,
        (∀ package ∈ packages, package.identity ≠ e.toIdentity) ∧ text = e.missingText := by
  have edges : text ∈ (buildDependencyGraph manifest rootDependencies packages).missing ↔
      ∃ e ∈ (buildDependencyGraph manifest rootDependencies packages).edges,
        e.toIdentity ∉ ((sortBy PackageEntry.sortKey packages).map (·.identity)).toFinset ∧ e.missingText = text := by
    rw [buildDependencyGraph]
    dsimp only
    rw [mem_sortedTexts, List.mem_map]
    simp only [List.mem_filter, decide_eq_true_eq, and_assoc]
  rw [edges]
  apply exists_congr
  intro e
  rw [mem_edges, List.mem_toFinset, List.mem_map]
  apply and_congr_right
  intro _
  constructor
  · rintro ⟨absent, rfl⟩
    refine ⟨?_, rfl⟩
    intro package member here
    exact absent ⟨package, (mem_sortBy PackageEntry.sortKey).mpr member, here⟩
  · rintro ⟨absent, rfl⟩
    refine ⟨?_, rfl⟩
    rintro ⟨package, member, here⟩
    exact absent package ((mem_sortBy PackageEntry.sortKey).mp member) here

/-! ## Conflicts -/

/-- Packages of an identity are loaded, and they differ, or none satisfies all requirements. -/
def Conflicting (identity : String) : Prop :=
  let Loaded (package : PackageEntry) : Prop := package ∈ packages ∧ package.identity = identity
  (∃ package, Loaded package) ∧
    ((∃ a b, Loaded a ∧ Loaded b ∧ a.version ≠ b.version) ∨
      (∃ a b, Loaded a ∧ Loaded b ∧ ¬(eqIgnoreAsciiCase a.name b.name ∧ eqIgnoreAsciiCase a.publisher b.publisher)) ∨
      ¬∃ package, Loaded package ∧ ∀ e ∈ allEdges manifest rootDependencies packages, e.toIdentity = identity →
        e.versioned → versionAtLeast package.version e.requiredVersion)

omit manifest rootDependencies packages in
theorem inconsistent_iff (loaded : List PackageEntry) :
    inconsistentMetadata loaded = true ↔
      ∃ a ∈ loaded, ∃ b ∈ loaded, ¬(eqIgnoreAsciiCase a.name b.name ∧ eqIgnoreAsciiCase a.publisher b.publisher) := by
  have agree {a b c : String} (left : eqIgnoreAsciiCase a c = true) (right : eqIgnoreAsciiCase b c = true) :
      eqIgnoreAsciiCase a b = true := by
    rw [eqIgnoreAsciiCase, beq_iff_eq] at left right ⊢
    exact left.trans right.symm
  cases loaded with
  | nil => simp [inconsistentMetadata]
  | cons first rest =>
      rw [inconsistentMetadata, List.any_eq_true]
      simp only [Bool.or_eq_true, Bool.not_eq_true', Bool.eq_false_iff]
      constructor
      · rintro ⟨package, member, differs⟩
        refine ⟨package, List.mem_cons_of_mem _ member, first, List.mem_cons_self, ?_⟩
        rintro ⟨name, publisher⟩
        exact differs.elim (· name) (· publisher)
      · rintro ⟨a, inside, b, inside', differs⟩
        by_contra consistent
        have like : ∀ p ∈ first :: rest, eqIgnoreAsciiCase p.name first.name = true ∧
            eqIgnoreAsciiCase p.publisher first.publisher = true := by
          intro p member
          rcases List.mem_cons.mp member with rfl | later
          · exact ⟨beq_iff_eq.mpr rfl, beq_iff_eq.mpr rfl⟩
          · by_contra other
            apply consistent
            refine ⟨p, later, ?_⟩
            by_contra both
            obtain ⟨name, publisher⟩ := not_or.mp both
            exact other ⟨not_not.mp name, not_not.mp publisher⟩
        apply differs
        exact ⟨agree (like a inside).1 (like b inside').1, agree (like a inside).2 (like b inside').2⟩

omit manifest rootDependencies packages in
/-- With one version, one package stands for all in the requirements. -/
theorem unsatisfied_iff {loaded : List PackageEntry} {required : List DepEdge} {first : PackageEntry}
    (member : first ∈ loaded) (single : ∀ a ∈ loaded, ∀ b ∈ loaded, a.version = b.version) :
    unsatisfied loaded required = true ↔
      ¬∃ package ∈ loaded, ∀ e ∈ required, e.versioned → versionAtLeast package.version e.requiredVersion := by
  rw [unsatisfied, List.any_eq_true]
  simp only [Bool.and_eq_true, Bool.not_eq_true', List.any_eq_false]
  constructor
  · rintro ⟨e, inside, versioned, unmet⟩ ⟨package, loadedOne, meets⟩
    exact unmet package loadedOne (meets e inside versioned)
  · intro none_meets
    by_contra met
    apply none_meets
    refine ⟨first, member, ?_⟩
    intro e inside versioned
    by_contra unmet
    apply met
    refine ⟨e, inside, versioned, ?_⟩
    intro package loadedOne
    rw [single package loadedOne first member]
    exact unmet

omit manifest rootDependencies packages in
theorem conflictReasons_ne_nil {loaded : List PackageEntry} {required : List DepEdge} {first : PackageEntry}
    (member : first ∈ loaded) :
    conflictReasons loaded required ≠ [] ↔
      (∃ a ∈ loaded, ∃ b ∈ loaded, a.version ≠ b.version) ∨
      (∃ a ∈ loaded, ∃ b ∈ loaded, ¬(eqIgnoreAsciiCase a.name b.name ∧ eqIgnoreAsciiCase a.publisher b.publisher)) ∨
      ¬∃ package ∈ loaded, ∀ e ∈ required, e.versioned → versionAtLeast package.version e.requiredVersion := by
  have versions : 1 < (sortedTexts (loaded.map (·.version))).length ↔ ∃ a ∈ loaded, ∃ b ∈ loaded, a.version ≠ b.version := by
    rw [several_sortedTexts]
    simp
  have parts : conflictReasons loaded required ≠ [] ↔
      1 < (sortedTexts (loaded.map (·.version))).length ∨ unsatisfied loaded required = true ∨
        inconsistentMetadata loaded = true := by
    rw [conflictReasons]
    by_cases several : 1 < (sortedTexts (loaded.map (·.version))).length <;>
      cases unsatisfied loaded required <;> cases inconsistentMetadata loaded <;> simp [several]
  rw [parts, versions, inconsistent_iff]
  by_cases several : ∃ a ∈ loaded, ∃ b ∈ loaded, a.version ≠ b.version
  · exact iff_of_true (.inl several) (.inl several)
  · have single : ∀ a ∈ loaded, ∀ b ∈ loaded, a.version = b.version := by
      intro a inside b inside'
      by_contra other
      exact several ⟨a, inside, b, inside', other⟩
    rw [or_iff_right several, or_iff_right several, unsatisfied_iff member single, or_comm]

omit manifest rootDependencies packages in
theorem versionConflict_identity {loaded : List PackageEntry} {required : List DepEdge} {identity : String}
    {conflict : VersionConflict} (packages_of : ∀ p ∈ loaded, p.identity = identity)
    (edges_of : ∀ e ∈ required, e.toIdentity = identity) (found : versionConflict loaded required = some conflict) :
    conflict.identity = identity := by
  cases loaded with
  | nil => cases found
  | cons first rest =>
      rw [versionConflict] at found
      dsimp only at found
      split at found
      · cases found
      · cases found
        cases required with
        | nil => exact packages_of first List.mem_cons_self
        | cons e others => exact edges_of e List.mem_cons_self

omit manifest rootDependencies packages in
theorem versionConflict_isSome_iff {loaded : List PackageEntry} {required : List DepEdge} :
    (versionConflict loaded required).isSome ↔ loaded ≠ [] ∧ conflictReasons loaded required ≠ [] := by
  cases loaded with
  | nil => simp [versionConflict]
  | cons first rest =>
      rw [versionConflict]
      dsimp only
      split
      next empty => simp [List.isEmpty_iff.mp empty]
      next some_reason =>
          rw [List.isEmpty_iff] at some_reason
          exact iff_of_true rfl ⟨List.cons_ne_nil _ _, some_reason⟩

theorem mem_conflicts {conflict : VersionConflict} :
    conflict ∈ (buildDependencyGraph manifest rootDependencies packages).conflicts ↔
      ∃ identity, versionConflict ((sortBy PackageEntry.sortKey packages).filter (·.identity = identity))
        ((buildDependencyGraph manifest rootDependencies packages).edges.filter (·.toIdentity = identity)) =
          some conflict := by
  have unfolded : (buildDependencyGraph manifest rootDependencies packages).conflicts =
      findVersionConflicts (buildDependencyGraph manifest rootDependencies packages).edges
        (sortBy PackageEntry.sortKey packages) := rfl
  rw [unfolded, findVersionConflicts, mem_sortBy, List.mem_filterMap]
  apply exists_congr
  intro identity
  rw [Finset.mem_sort, Finset.mem_union, List.mem_toFinset, List.mem_toFinset, and_iff_right_iff_imp]
  intro found
  left
  have loaded := (versionConflict_isSome_iff.mp (Option.isSome_of_eq_some found)).1
  obtain ⟨package, member⟩ := List.exists_mem_of_ne_nil _ loaded
  obtain ⟨inside, here⟩ := List.mem_filter.mp member
  exact List.mem_map.mpr ⟨package, inside, of_decide_eq_true here⟩

theorem mem_conflicts_identity {identity : String} :
    identity ∈ (buildDependencyGraph manifest rootDependencies packages).conflicts.map (·.identity) ↔
      Conflicting manifest rootDependencies packages identity := by
  have of_edges (k : String) : ∀ e ∈ (buildDependencyGraph manifest rootDependencies packages).edges.filter
      (·.toIdentity = k), e.toIdentity = k := fun e member => of_decide_eq_true (List.mem_filter.mp member).2
  have of_packages (k : String) : ∀ p ∈ (sortBy PackageEntry.sortKey packages).filter (·.identity = k),
      p.identity = k := fun p member => of_decide_eq_true (List.mem_filter.mp member).2
  have isSome : identity ∈ (buildDependencyGraph manifest rootDependencies packages).conflicts.map (·.identity) ↔
      (versionConflict ((sortBy PackageEntry.sortKey packages).filter (·.identity = identity))
        ((buildDependencyGraph manifest rootDependencies packages).edges.filter (·.toIdentity = identity))).isSome := by
    rw [List.mem_map, Option.isSome_iff_exists]
    constructor
    · rintro ⟨conflict, member, here⟩
      obtain ⟨k, found⟩ := (mem_conflicts manifest rootDependencies packages).mp member
      obtain rfl := (versionConflict_identity (of_packages k) (of_edges k) found).symm.trans here
      exact ⟨conflict, found⟩
    · rintro ⟨conflict, found⟩
      refine ⟨conflict, (mem_conflicts manifest rootDependencies packages).mpr ⟨identity, found⟩, ?_⟩
      exact versionConflict_identity (of_packages identity) (of_edges identity) found
  have loaded (p : PackageEntry) : p ∈ (sortBy PackageEntry.sortKey packages).filter (·.identity = identity) ↔
      p ∈ packages ∧ p.identity = identity := by
    rw [List.mem_filter, mem_sortBy, decide_eq_true_eq]
  have required (e : DepEdge) : e ∈ (buildDependencyGraph manifest rootDependencies packages).edges.filter
      (·.toIdentity = identity) ↔ e ∈ allEdges manifest rootDependencies packages ∧ e.toIdentity = identity := by
    rw [List.mem_filter, mem_edges, decide_eq_true_eq]
  rw [isSome, versionConflict_isSome_iff, Conflicting]
  have some_loaded : (sortBy PackageEntry.sortKey packages).filter (·.identity = identity) ≠ [] ↔
      ∃ package, package ∈ packages ∧ package.identity = identity := by
    rw [← List.isEmpty_eq_false_iff, List.isEmpty_eq_false_iff_exists_mem]
    exact exists_congr loaded
  rw [some_loaded]
  apply and_congr_right
  rintro ⟨first, inside⟩
  rw [conflictReasons_ne_nil ((loaded first).mpr inside)]
  simp only [loaded, required, and_imp, exists_and_left, and_assoc]

/-! ## The order of the packages -/

omit packages in
theorem buildDependencyGraph_congr {packages packages' : List PackageEntry}
    (tied : ∀ key, packages.filter (·.sortKey = key) = packages'.filter (·.sortKey = key)) :
    buildDependencyGraph manifest rootDependencies packages =
      buildDependencyGraph manifest rootDependencies packages' := by
  have sorted : sortBy PackageEntry.sortKey packages = sortBy PackageEntry.sortKey packages' := by
    apply sortBy_congr
    intro key
    convert tied key
  rw [buildDependencyGraph, buildDependencyGraph, sorted]

/-! ## The whole graph -/

open Classical in
theorem dependency_graph_exact :
    (transitiveWork (identityKey manifest.id manifest.name manifest.publisher) rootDependencies
      (sortBy PackageEntry.sortKey packages)).queue = [] ∧
    (buildDependencyGraph manifest rootDependencies packages).transitive.Perm
      ((packages.filter fun package => Indirect manifest rootDependencies packages package.identity).map (·.node)) ∧
    (∀ text, text ∈ (buildDependencyGraph manifest rootDependencies packages).missing ↔
      ∃ e ∈ allEdges manifest rootDependencies packages,
        (∀ package ∈ packages, package.identity ≠ e.toIdentity) ∧ text = e.missingText) ∧
    (∀ identity, identity ∈ (buildDependencyGraph manifest rootDependencies packages).conflicts.map (·.identity) ↔
      Conflicting manifest rootDependencies packages identity) ∧
    ∀ packages', (∀ key, packages.filter (·.sortKey = key) = packages'.filter (·.sortKey = key)) →
      buildDependencyGraph manifest rootDependencies packages =
        buildDependencyGraph manifest rootDependencies packages' := by
  refine ⟨?_, ?_, ?_, ?_, ?_⟩
  · exact transitiveWork_queue rootDependencies _ _
  · exact transitive_perm manifest rootDependencies packages
  · intro text
    exact mem_missing manifest rootDependencies packages
  · intro identity
    exact mem_conflicts_identity manifest rootDependencies packages
  · intro packages' tied
    exact buildDependencyGraph_congr manifest rootDependencies tied

end Graph

section Differences

def sampleManifest : AppManifest where
  id := "root"
  name := "Root"
  publisher := "Contoso"
  version := "1.0.0.0"

def requires (id : String) : AppDependency where
  id
  name := ""
  publisher := ""
  version := ""

def samplePackage (id publisher path : String) (dependencies : List AppDependency) : PackageEntry where
  appId := id
  name := id
  publisher
  version := "1.0.0.0"
  dependencies
  sourcePath := path

/-- A depends on the root app, and its package on C. -/
def throughRoot : List PackageEntry :=
  [samplePackage "a" "Contoso" "a.app" [requires "root"], samplePackage "root" "Contoso" "root.app" [requires "c"],
    samplePackage "c" "Contoso" "c.app" []]

def cased : List PackageEntry := [samplePackage "a" "Contoso" "a.app" [], samplePackage "a" "CONTOSO" "a.app" []]

/-- C is led to by way of the root app, publishers differ in case, and packages with one sort key keep their order. -/
theorem dependency_graph_differs :
    (TransGen (LeadsTo throughRoot) (dependencyIdentity (requires "a")) (dependencyIdentity (requires "c")) ∧
      dependencyIdentity (requires "c") ≠ identityKey "root" "Root" "Contoso" ∧
      (buildDependencyGraph sampleManifest [requires "a"] throughRoot).transitive = []) ∧
    ((∃ a ∈ cased, ∃ b ∈ cased, a.identity = b.identity ∧ a.publisher ≠ b.publisher) ∧
      (buildDependencyGraph sampleManifest [] cased).conflicts = []) ∧
    buildDependencyGraph sampleManifest [] cased ≠ buildDependencyGraph sampleManifest [] cased.reverse := by
  refine ⟨⟨?_, ?_, ?_⟩, ⟨?_, ?_⟩, ?_⟩
  · have first : LeadsTo throughRoot (dependencyIdentity (requires "a")) (dependencyIdentity (requires "root")) := by
      apply mem_dependencyTargets.mp
      decide +kernel
    have second : LeadsTo throughRoot (dependencyIdentity (requires "root")) (dependencyIdentity (requires "c")) := by
      apply mem_dependencyTargets.mp
      decide +kernel
    exact .tail (.single first) second
  · decide +kernel
  · decide +kernel
  · decide +kernel
  · decide +kernel
  · decide +kernel

end Differences

end AlLanguage.Analysis
