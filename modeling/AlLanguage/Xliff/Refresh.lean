import AlLanguage.Library.Lists
import AlLanguage.Library.Machine
import AlLanguage.Xliff.Units
import Mathlib.Data.String.Basic

/-!
# Refreshing a language file

- `refreshXliff` brings a language map up to date with a generated file, `findUntranslated` lists the work left.
- A run of refreshes keeps every id and every target.
- Final stands for approved and for obsolete. A unit that comes back keeps the Final it was left with, and then
  nothing asks for its translation or its review.
-/

namespace AlLanguage.Xliff

open Library

structure RefreshResult where
  added : List String := []
  changed : List String := []
  removed : List String := []
  preserved : Nat := 0
  deriving DecidableEq, Repr

structure Refreshed where
  units : List TranslationUnit := []
  refresh : RefreshResult := {}
  deriving DecidableEq, Repr

/-- One generated unit. -/
def Refreshed.bring (language : LanguageMap) (result : Refreshed) (genUnit : TranslationUnit) : Refreshed :=
  match language.get? genUnit.id with
  | some langUnit =>
      if langUnit.source ≠ genUnit.source then
        { units := result.units ++ [{ genUnit with target := langUnit.target, state := .needsReviewTranslation }]
          refresh := { result.refresh with changed := result.refresh.changed ++ [genUnit.id] } }
      else
        { units := result.units ++ [{ genUnit with target := langUnit.target, state := langUnit.state }]
          refresh := { result.refresh with preserved := result.refresh.preserved + 1 } }
  | none =>
      { units := result.units ++ [{ genUnit with state := .new }]
        refresh := { result.refresh with added := result.refresh.added ++ [genUnit.id] } }

/-- One unit that is no longer generated. -/
def Refreshed.retire (language : LanguageMap) (result : Refreshed) (id : String) : Refreshed :=
  match language.get? id with
  | some langUnit =>
      { units := result.units ++ [{ langUnit with state := .final }]
        refresh := { result.refresh with removed := result.refresh.removed ++ [id] } }
  | none => result

/-- The ids of the language map that the generated file lacks, in ascending order. -/
def obsoleteIds (generated : List TranslationUnit) (language : LanguageMap) : List String :=
  (language.keys.filter fun id => id ∉ generated.map (·.id)).insertionSort (· ≤ ·)

def refreshXliff (generated : List TranslationUnit) (language : LanguageMap) : Refreshed :=
  (obsoleteIds generated language).foldl (Refreshed.retire language) (generated.foldl (Refreshed.bring language) {})

def findUntranslated (units : List TranslationUnit) : List TranslationUnit :=
  ((units.filter TranslationUnit.untranslated).filter (·.state ≠ .final)).insertionSort (·.id ≤ ·.id)

/-! ## What a refresh returns -/

/-- The unit a generated one becomes. -/
def LanguageMap.bring (language : LanguageMap) (genUnit : TranslationUnit) : TranslationUnit :=
  match language.get? genUnit.id with
  | some langUnit =>
      if langUnit.source ≠ genUnit.source then
        { genUnit with target := langUnit.target, state := .needsReviewTranslation }
      else { genUnit with target := langUnit.target, state := langUnit.state }
  | none => { genUnit with state := .new }

/-- The source of a translated unit is another one now. -/
def LanguageMap.sourceChanged (language : LanguageMap) (genUnit : TranslationUnit) : Bool :=
  (language.get? genUnit.id).any (·.source ≠ genUnit.source)

variable {language : LanguageMap} {generated : List TranslationUnit} {g l u : TranslationUnit} {id : String}

theorem bring_some (found : language.get? g.id = some l) :
    language.bring g = { g with
      target := l.target
      state := if l.source = g.source then l.state else .needsReviewTranslation } := by
  unfold LanguageMap.bring
  rw [found]
  dsimp only
  by_cases same : l.source = g.source
  · rw [if_neg (not_not_intro same), if_pos same]
  · rw [if_pos same, if_neg same]

theorem bring_none (absent : language.get? g.id = none) : language.bring g = { g with state := .new } := by
  unfold LanguageMap.bring
  rw [absent]

@[simp] theorem bring_id (language : LanguageMap) (g : TranslationUnit) : (language.bring g).id = g.id := by
  cases found : language.get? g.id with
  | none => rw [bring_none found]
  | some l => rw [bring_some found]

@[simp] theorem bring_source (language : LanguageMap) (g : TranslationUnit) : (language.bring g).source = g.source := by
  cases found : language.get? g.id with
  | none => rw [bring_none found]
  | some l => rw [bring_some found]

theorem bring_units (language : LanguageMap) (result : Refreshed) (g : TranslationUnit) :
    (result.bring language g).units = result.units ++ [language.bring g] := by
  unfold Refreshed.bring LanguageMap.bring
  cases language.get? g.id with
  | none => rfl
  | some l =>
      dsimp only
      split <;> rfl

theorem bring_changed (language : LanguageMap) (result : Refreshed) (g : TranslationUnit) :
    (result.bring language g).refresh.changed =
      result.refresh.changed ++ if language.sourceChanged g then [g.id] else [] := by
  unfold Refreshed.bring LanguageMap.sourceChanged
  cases language.get? g.id with
  | none => simp
  | some l =>
      by_cases same : l.source = g.source
      · simp [same]
      · simp [same]

theorem foldl_bring_units (language : LanguageMap) (generated : List TranslationUnit) (result : Refreshed) :
    (generated.foldl (Refreshed.bring language) result).units = result.units ++ generated.map language.bring := by
  induction generated generalizing result with
  | nil => simp
  | cons g rest ih => rw [List.foldl_cons, ih, bring_units, List.map_cons, List.append_assoc, List.singleton_append]

theorem foldl_bring_changed (language : LanguageMap) (generated : List TranslationUnit) (result : Refreshed) :
    (generated.foldl (Refreshed.bring language) result).refresh.changed =
      result.refresh.changed ++ (generated.filter language.sourceChanged).map (·.id) := by
  induction generated generalizing result with
  | nil => simp
  | cons g rest ih =>
      rw [List.foldl_cons, ih, bring_changed, List.append_assoc, List.filter_cons]
      split <;> rfl

theorem foldl_retire_units (language : LanguageMap) (ids : List String) (result : Refreshed) :
    (ids.foldl (Refreshed.retire language) result).units =
      result.units ++ ids.filterMap fun id => (language.get? id).map fun l => { l with state := .final } := by
  induction ids generalizing result with
  | nil => simp
  | cons id rest ih =>
      rw [List.foldl_cons, ih, Refreshed.retire, List.filterMap_cons]
      cases language.get? id with
      | none => rfl
      | some l => simp

theorem foldl_retire_changed (language : LanguageMap) (ids : List String) (result : Refreshed) :
    (ids.foldl (Refreshed.retire language) result).refresh.changed = result.refresh.changed := by
  induction ids generalizing result with
  | nil => rfl
  | cons id rest ih =>
      rw [List.foldl_cons, ih, Refreshed.retire]
      split <;> rfl

theorem refresh_units (generated : List TranslationUnit) (language : LanguageMap) :
    (refreshXliff generated language).units = generated.map language.bring ++
      (obsoleteIds generated language).filterMap fun id => (language.get? id).map fun l => { l with state := .final } := by
  rw [refreshXliff, foldl_retire_units, foldl_bring_units, List.nil_append]

theorem refresh_changed (generated : List TranslationUnit) (language : LanguageMap) :
    (refreshXliff generated language).refresh.changed = (generated.filter language.sourceChanged).map (·.id) := by
  rw [refreshXliff, foldl_retire_changed, foldl_bring_changed, List.nil_append]

theorem mem_obsoleteIds :
    id ∈ obsoleteIds generated language ↔ (∃ l, language.get? id = some l) ∧ id ∉ generated.map (·.id) := by
  rw [obsoleteIds, List.mem_insertionSort, List.mem_filter, LanguageMap.mem_keys_iff, decide_eq_true_iff]

theorem nodup_obsoleteIds (generated : List TranslationUnit) (language : LanguageMap) :
    (obsoleteIds generated language).Nodup :=
  (List.perm_insertionSort _ _).nodup_iff.mpr (language.nodup_keys.filter _)

theorem obsoleteIds_ascending (generated : List TranslationUnit) (language : LanguageMap) :
    (obsoleteIds generated language).Pairwise (· < ·) := by
  have sorted : (obsoleteIds generated language).Pairwise (· ≤ ·) := List.pairwise_insertionSort _ _
  exact sorted.imp₂ (fun a b below apart => lt_of_le_of_ne below apart) (nodup_obsoleteIds generated language)

theorem refresh_ids (generated : List TranslationUnit) (language : LanguageMap) :
    (refreshXliff generated language).units.map (·.id) = generated.map (·.id) ++ obsoleteIds generated language := by
  rw [refresh_units, List.map_append, List.map_map, List.map_filterMap]
  congr 1
  · exact List.map_congr_left fun g _ => bring_id language g
  · have each : ∀ id ∈ obsoleteIds generated language,
        ((language.get? id).map fun l : TranslationUnit => { l with state := .final }).map (·.id) = some id := by
      intro id member
      obtain ⟨⟨l, found⟩, _⟩ := mem_obsoleteIds.mp member
      rw [found, Option.map_some, Option.map_some, language.id_of_get? found]
    rw [List.filterMap_congr each, List.filterMap_some]

theorem nodup_refresh_ids (distinct : (generated.map (·.id)).Nodup) (language : LanguageMap) :
    ((refreshXliff generated language).units.map (·.id)).Nodup := by
  rw [refresh_ids]
  refine distinct.append (nodup_obsoleteIds generated language) ?_
  intro id inside obsolete
  exact (mem_obsoleteIds.mp obsolete).2 inside

theorem mem_refresh_units :
    u ∈ (refreshXliff generated language).units ↔ (∃ g ∈ generated, u = language.bring g) ∨
      ∃ l, language.get? l.id = some l ∧ l.id ∉ generated.map (·.id) ∧ u = { l with state := .final } := by
  rw [refresh_units, List.mem_append, List.mem_map, List.mem_filterMap]
  constructor
  · rintro (⟨g, member, rfl⟩ | ⟨id, obsolete, same⟩)
    · exact .inl ⟨g, member, rfl⟩
    · obtain ⟨⟨l, found⟩, apart⟩ := mem_obsoleteIds.mp obsolete
      obtain rfl := language.id_of_get? found
      rw [found] at same
      exact .inr ⟨l, found, apart, (Option.some.inj same).symm⟩
  · rintro (⟨g, member, rfl⟩ | ⟨l, found, apart, rfl⟩)
    · exact .inl ⟨g, member, rfl⟩
    · refine .inr ⟨l.id, mem_obsoleteIds.mpr ⟨⟨l, found⟩, apart⟩, ?_⟩
      rw [found]
      rfl

/-! ## The next language map -/

variable (distinct : (generated.map (·.id)).Nodup)
include distinct

theorem refreshed_of_mem (member : u ∈ (refreshXliff generated language).units) :
    (LanguageMap.ofUnits (refreshXliff generated language).units).get? u.id = some u :=
  LanguageMap.get?_ofUnits_of_mem (nodup_refresh_ids distinct language) member

theorem refreshed_generated (member : g ∈ generated) :
    (LanguageMap.ofUnits (refreshXliff generated language).units).get? g.id = some (language.bring g) := by
  rw [← bring_id language g]
  exact refreshed_of_mem distinct (mem_refresh_units.mpr (.inl ⟨g, member, rfl⟩))

theorem refreshed_obsolete (found : language.get? l.id = some l) (apart : l.id ∉ generated.map (·.id)) :
    (LanguageMap.ofUnits (refreshXliff generated language).units).get? l.id = some { l with state := .final } :=
  refreshed_of_mem (u := { l with state := .final }) distinct (mem_refresh_units.mpr (.inr ⟨l, found, apart, rfl⟩))

/-- Every id stays, with its target. -/
theorem refreshed_keeps (found : language.get? id = some l) :
    ∃ u, (LanguageMap.ofUnits (refreshXliff generated language).units).get? id = some u ∧ u.target = l.target := by
  obtain rfl := language.id_of_get? found
  by_cases here : l.id ∈ generated.map (·.id)
  · obtain ⟨g, member, same⟩ := List.mem_map.mp here
    rw [← same] at found ⊢
    exact ⟨_, refreshed_generated distinct member, by rw [bring_some found]⟩
  · exact ⟨_, refreshed_obsolete distinct found here, rfl⟩

omit distinct in
theorem mem_refreshed (found : (LanguageMap.ofUnits (refreshXliff generated language).units).get? id = some u) :
    u ∈ (refreshXliff generated language).units := by
  rw [LanguageMap.get?_ofUnits] at found
  exact List.mem_of_find?_eq_some found

theorem obsoleteIds_again :
    obsoleteIds generated (.ofUnits (refreshXliff generated language).units) = obsoleteIds generated language := by
  have same : ∀ id, id ∈ obsoleteIds generated (.ofUnits (refreshXliff generated language).units) ↔
      id ∈ obsoleteIds generated language := by
    intro id
    rw [mem_obsoleteIds, mem_obsoleteIds]
    refine and_congr_left fun apart => ?_
    constructor
    · rintro ⟨u, found⟩
      obtain rfl := LanguageMap.id_of_get? found
      rcases mem_refresh_units.mp (mem_refreshed found) with ⟨g, member, rfl⟩ | ⟨l, before, _, rfl⟩
      · exact absurd (List.mem_map.mpr ⟨g, member, (bring_id language g).symm⟩) apart
      · exact ⟨l, before⟩
    · rintro ⟨l, found⟩
      obtain ⟨u, kept, _⟩ := refreshed_keeps distinct found
      exact ⟨u, kept⟩
  have perm := (List.perm_ext_iff_of_nodup (nodup_obsoleteIds _ _) (nodup_obsoleteIds _ _)).mpr same
  exact perm.eq_of_pairwise (fun a b _ _ below above => absurd above (lt_asymm below)) (obsoleteIds_ascending _ _)
    (obsoleteIds_ascending _ _)

/-- A second refresh with the same generated file changes nothing. -/
theorem refresh_again :
    (refreshXliff generated (.ofUnits (refreshXliff generated language).units)).units =
      (refreshXliff generated language).units := by
  refine (refresh_units generated _).trans (Eq.trans ?_ (refresh_units generated language).symm)
  rw [obsoleteIds_again distinct]
  congr 1
  · apply List.map_congr_left
    intro g member
    rw [bring_some (refreshed_generated distinct member), bring_source, if_pos rfl]
    cases found : language.get? g.id with
    | none => rw [bring_none found]
    | some l => rw [bring_some found]
  · apply List.filterMap_congr
    intro id obsolete
    obtain ⟨⟨l, found⟩, apart⟩ := mem_obsoleteIds.mp obsolete
    obtain rfl := language.id_of_get? found
    rw [refreshed_obsolete distinct found apart, found]
    rfl

omit distinct

/-! ## Runs of refreshes -/

/-- A generated file: no id twice. -/
structure GeneratedUnits where
  units : List TranslationUnit
  distinct : (units.map (·.id)).Nodup

/-- The language map, and the ids that some refresh marked for review. -/
structure RefreshWorld where
  language : LanguageMap
  marked : List String := []

/-- The language file has the id, with this target. -/
def RefreshWorld.Holds (world : RefreshWorld) (id : String) (target : Option String) : Prop :=
  ∃ u, world.language.get? id = some u ∧ u.target = target

def RefreshWorld.refresh (world : RefreshWorld) (generated : GeneratedUnits) : RefreshWorld where
  language := .ofUnits (refreshXliff generated.units world.language).units
  marked := world.marked ++ (refreshXliff generated.units world.language).refresh.changed

/-- What a refresh should leave behind. -/
structure Promised (world : RefreshWorld) (generated : GeneratedUnits) : Prop where
  ordered : ∃ obsolete, (refreshXliff generated.units world.language).units.map (·.id) =
      generated.units.map (·.id) ++ obsolete ∧ obsolete.Pairwise (· < ·) ∧
    ∀ id, id ∈ obsolete ↔ (∃ l, world.language.get? id = some l) ∧ id ∉ generated.units.map (·.id)
  kept : ∀ id target, world.Holds id target → (world.refresh generated).Holds id target
  again : (refreshXliff generated.units (world.refresh generated).language).units =
    (refreshXliff generated.units world.language).units
  listed : ∀ u ∈ (refreshXliff generated.units world.language).units, u.id ∈ generated.units.map (·.id) → u.Missing →
    u ∈ findUntranslated (refreshXliff generated.units world.language).units
  reviewed : ∀ u ∈ (refreshXliff generated.units world.language).units, u.id ∈ generated.units.map (·.id) →
    u.id ∈ (world.refresh generated).marked → u.state = .needsReviewTranslation

/-- A generated unit that the language file holds as Final, with this source, has a target and no open review. -/
def FinalIsDone (world : RefreshWorld) (generated : GeneratedUnits) : Prop :=
  ∀ g ∈ generated.units, ∀ l, world.language.get? g.id = some l → l.source = g.source → l.state = .final →
    ¬l.Missing ∧ g.id ∉ world.marked

/-- A unit marked for review stays so, or is made Final when it is no longer generated. -/
def MarkedStates (world : RefreshWorld) : Prop :=
  ∀ id ∈ world.marked, ∃ l, world.language.get? id = some l ∧ (l.state = .needsReviewTranslation ∨ l.state = .final)

variable {world : RefreshWorld} {file : GeneratedUnits}

theorem sourceChanged_iff : language.sourceChanged g = true ↔ ∃ l, language.get? g.id = some l ∧ l.source ≠ g.source := by
  unfold LanguageMap.sourceChanged
  cases language.get? g.id <;> simp

theorem bring_changed_state (changed : language.sourceChanged g = true) :
    (language.bring g).state = .needsReviewTranslation := by
  obtain ⟨l, found, apart⟩ := sourceChanged_iff.mp changed
  rw [bring_some found, if_neg apart]

theorem mem_changed :
    id ∈ (refreshXliff generated language).refresh.changed ↔ ∃ g ∈ generated, g.id = id ∧ language.sourceChanged g = true := by
  rw [refresh_changed, List.mem_map]
  constructor
  · rintro ⟨g, inside, rfl⟩
    obtain ⟨member, changed⟩ := List.mem_filter.mp inside
    exact ⟨g, member, rfl, changed⟩
  · rintro ⟨g, member, rfl, changed⟩
    exact ⟨g, List.mem_filter.mpr ⟨member, changed⟩, rfl⟩

theorem markedStates_refresh (states : MarkedStates world) (file : GeneratedUnits) : MarkedStates (world.refresh file) := by
  intro id marked
  rcases List.mem_append.mp marked with before | now
  · obtain ⟨l, held, state⟩ := states id before
    obtain rfl := LanguageMap.id_of_get? held
    by_cases here : l.id ∈ file.units.map (·.id)
    · obtain ⟨g, member, same⟩ := List.mem_map.mp here
      rw [← same] at held ⊢
      refine ⟨_, refreshed_generated file.distinct member, ?_⟩
      rw [bring_some held]
      dsimp only
      split
      · exact state
      · exact .inl rfl
    · exact ⟨_, refreshed_obsolete file.distinct held here, .inr rfl⟩
  · obtain ⟨g, member, rfl, changed⟩ := mem_changed.mp now
    exact ⟨_, refreshed_generated file.distinct member, .inl (bring_changed_state changed)⟩

/-- Of the units of a file, the ones without a target are listed unless they are Final. -/
theorem mem_findUntranslated {units : List TranslationUnit} :
    u ∈ findUntranslated units ↔ u ∈ units ∧ u.Missing ∧ u.state ≠ .final := by
  rw [findUntranslated, List.mem_insertionSort, List.mem_filter, List.mem_filter, untranslated_iff, decide_eq_true_iff,
    and_assoc]

theorem bring_state_final :
    (language.bring g).state = .final ↔ ∃ l, language.get? g.id = some l ∧ l.source = g.source ∧ l.state = .final := by
  cases found : language.get? g.id with
  | none => simp [bring_none found]
  | some l =>
      rw [bring_some found]
      by_cases same : l.source = g.source <;> simp [same]

theorem generated_unit (file : GeneratedUnits) (member : u ∈ (refreshXliff file.units language).units)
    (here : u.id ∈ file.units.map (·.id)) : ∃ g ∈ file.units, u = language.bring g := by
  rcases mem_refresh_units.mp member with brought | ⟨l, _, apart, rfl⟩
  · exact brought
  · exact absurd here apart

theorem holds_refresh {target : Option String} (file : GeneratedUnits) (holds : world.Holds id target) :
    (world.refresh file).Holds id target := by
  obtain ⟨l, found, rfl⟩ := holds
  exact refreshed_keeps file.distinct found

theorem promised_iff (states : MarkedStates world) (file : GeneratedUnits) : Promised world file ↔ FinalIsDone world file := by
  constructor
  · intro promised g member l held same final
    have brought : world.language.bring g ∈ (refreshXliff file.units world.language).units :=
      mem_refresh_units.mpr (.inl ⟨g, member, rfl⟩)
    have here : (world.language.bring g).id ∈ file.units.map (·.id) := by
      rw [bring_id]
      exact List.mem_map_of_mem member
    have becomes := bring_some held
    rw [if_pos same, final] at becomes
    constructor
    · intro missing
      have listed := promised.listed _ brought here (by rw [becomes]; exact missing)
      apply (mem_findUntranslated.mp listed).2.2
      rw [becomes]
    · intro marked
      have reviewed := promised.reviewed _ brought here (by
        rw [bring_id]
        exact List.mem_append_left _ marked)
      rw [becomes] at reviewed
      cases reviewed
  · intro done
    refine ⟨⟨_, refresh_ids _ _, obsoleteIds_ascending _ _, fun id => mem_obsoleteIds⟩,
      fun id target => holds_refresh file, refresh_again file.distinct, ?_, ?_⟩
    · intro u member here missing
      refine mem_findUntranslated.mpr ⟨member, missing, ?_⟩
      intro final
      obtain ⟨g, inside, rfl⟩ := generated_unit file member here
      obtain ⟨l, held, same, approved⟩ := bring_state_final.mp final
      apply (done g inside l held same approved).1
      rw [bring_some held] at missing
      exact missing
    · intro u member here marked
      obtain ⟨g, inside, rfl⟩ := generated_unit file member here
      rw [bring_id] at marked
      rcases List.mem_append.mp marked with before | now
      · obtain ⟨l, held, state⟩ := states g.id before
        rw [bring_some held]
        dsimp only
        split
        next same =>
          rcases state with review | final
          · exact review
          · exact absurd before (done g inside l held same final).2
        next => rfl
      · obtain ⟨g', inside', same, changed⟩ := mem_changed.mp now
        obtain rfl : g' = g := List.inj_on_of_nodup_map file.distinct inside' inside same
        exact bring_changed_state changed

/-- Refreshes keep ids and targets in every run. All their promises hold throughout a run exactly when no unit comes
back as Final with its translation missing or its review open. -/
theorem refreshes_promised_iff (start : LanguageMap) (files : List GeneratedUnits) :
    (∀ id target, RefreshWorld.Holds ⟨start, []⟩ id target →
        (Machine.run RefreshWorld.refresh ⟨start, []⟩ files).Holds id target) ∧
      (Machine.Allowed RefreshWorld.refresh Promised ⟨start, []⟩ files ↔
        Machine.Allowed RefreshWorld.refresh FinalIsDone ⟨start, []⟩ files) := by
  constructor
  · intro id target holds
    exact @Machine.run_invariant _ _ _ (RefreshWorld.Holds · id target) (fun _ file => holds_refresh file) _ holds files
  · have marked : MarkedStates ⟨start, []⟩ := by
      intro id none
      cases none
    exact @Machine.allowed_congr _ _ _ MarkedStates _ _ (fun _ file states => markedStates_refresh states file)
      (fun _ file states => promised_iff states file) _ marked files

/-- A file that generates one unit, with the source `text`. -/
def generating (text : String) : GeneratedUnits :=
  ⟨[⟨"A", "Table", 1, "T", text, none, .new, none, none, none⟩], List.nodup_singleton _⟩

def generatingNone : GeneratedUnits := ⟨[], List.nodup_nil⟩

/-- A unit leaves the code and comes back. It has no translation, and it is not listed. -/
theorem returned_hidden :
    ¬Machine.Allowed RefreshWorld.refresh Promised ⟨.empty, []⟩ [generating "Hello", generatingNone, generating "Hello"] ∧
      (let world := Machine.run RefreshWorld.refresh ⟨.empty, []⟩ [generating "Hello", generatingNone]
       let after := (refreshXliff (generating "Hello").units world.language).units
       after.map (·.target) = [none] ∧ findUntranslated after = []) ∧
      -- marked for review at the second refresh, and Final after the fourth
      (let files := [generating "Hello", generating "Hello you", generatingNone, generating "Hello you"]
       let world := Machine.run RefreshWorld.refresh ⟨.empty, []⟩ files
       world.marked = ["A"] ∧ (world.language.get? "A").map (·.state) = some .final) := by
  refine ⟨?_, by decide, by decide⟩
  rintro ⟨_, _, third, _⟩
  have missing : (TranslationUnit.mk "A" "Table" 1 "T" "Hello" none .final none none none).Missing := by
    intro target some
    cases some
  have listed := third.listed _ (by decide) (by decide) missing
  revert listed
  decide

end AlLanguage.Xliff
