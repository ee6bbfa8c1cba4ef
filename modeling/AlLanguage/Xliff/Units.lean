import AlLanguage.Library.IndexMap
import AlLanguage.Runtime.Text

/-!
# Translation units

The units of a translation file and the map a language file is read into.
-/

namespace AlLanguage.Xliff

open Library

inductive TranslationState where
  | new
  | translated
  | needsReviewTranslation
  | final
  deriving DecidableEq, Repr

def TranslationState.asXliffState : TranslationState → String
  | .new => "new"
  | .translated => "translated"
  | .needsReviewTranslation => "needs-review-translation"
  | .final => "final"

def TranslationState.fromXliffState (s : String) : TranslationState :=
  if s = "translated" then .translated
  else if s = "needs-review-translation" then .needsReviewTranslation
  else if s = "final" then .final
  else .new

@[simp] theorem fromXliffState_asXliffState (state : TranslationState) :
    TranslationState.fromXliffState state.asXliffState = state := by
  cases state <;> decide

structure TranslationUnit where
  id : String
  objectType : String
  objectId : Nat
  objectName : String
  source : String
  target : Option String
  state : TranslationState
  note : Option String
  developerNote : Option String
  objectTarget : Option String
  deriving DecidableEq, Repr

def TranslationUnit.untranslated (unit : TranslationUnit) : Bool :=
  (unit.target.map fun t => (Runtime.trim t).isEmpty).getD true

/-- The target is missing or blank. -/
def TranslationUnit.Missing (unit : TranslationUnit) : Prop :=
  ∀ target, unit.target = some target → ∀ c ∈ target.toList, Runtime.isWhitespace c = true

theorem isEmpty_trim_iff (s : String) : (Runtime.trim s).isEmpty = true ↔ ∀ c ∈ s.toList, Runtime.isWhitespace c = true := by
  rw [Runtime.trim, String.isEmpty_iff, String.ofList_eq_empty_iff, List.rdropWhile_eq_nil_iff]
  constructor
  · intro after c member
    rw [← List.takeWhile_append_dropWhile (p := Runtime.isWhitespace) (l := s.toList)] at member
    rcases List.mem_append.mp member with front | back
    · exact List.mem_takeWhile_imp front
    · exact after c back
  · intro blank c member
    exact blank c ((List.dropWhile_sublist _).subset member)

theorem untranslated_iff (unit : TranslationUnit) : unit.untranslated = true ↔ unit.Missing := by
  unfold TranslationUnit.untranslated TranslationUnit.Missing
  cases unit.target with
  | none => simp
  | some target =>
      rw [Option.map_some, Option.getD_some, isEmpty_trim_iff]
      simp

/-- A hash map of units under their ids. The order of the entries is arbitrary. -/
structure LanguageMap where
  units : IndexMap String TranslationUnit
  keyed : ∀ id unit, units.get? id = some unit → unit.id = id

namespace LanguageMap

def empty : LanguageMap := ⟨IndexMap.empty, fun _ _ found => by cases found⟩

def get? (language : LanguageMap) (id : String) : Option TranslationUnit := language.units.get? id

def keys (language : LanguageMap) : List String := language.units.entries.map (·.1)

@[simp] theorem get?_empty (id : String) : empty.get? id = none := rfl

theorem id_of_get? {language : LanguageMap} {id : String} {unit : TranslationUnit} (found : language.get? id = some unit) :
    unit.id = id := language.keyed id unit found

theorem nodup_keys (language : LanguageMap) : language.keys.Nodup := language.units.distinct

theorem mem_keys_iff (language : LanguageMap) (id : String) : id ∈ language.keys ↔ ∃ unit, language.get? id = some unit := by
  constructor
  · intro member
    obtain ⟨⟨key, unit⟩, inside, rfl⟩ := List.mem_map.mp member
    exact ⟨unit, (language.units.mem_entries_iff key unit).mp inside⟩
  · rintro ⟨unit, found⟩
    exact List.mem_map.mpr ⟨(id, unit), (language.units.mem_entries_iff id unit).mpr found, rfl⟩

/-- One unit of a file, left out when its id is taken. -/
def add (language : LanguageMap) (unit : TranslationUnit) : LanguageMap where
  units :=
    match language.units.get? unit.id with
    | none => language.units.insert unit.id unit
    | some _ => language.units
  keyed := by
    intro id other found
    split at found
    · rw [IndexMap.get?_insert] at found
      split at found
      next same =>
        cases found
        exact same
      next => exact language.keyed id other found
    · exact language.keyed id other found

theorem get?_add (language : LanguageMap) (unit : TranslationUnit) (id : String) :
    (language.add unit).get? id = (language.get? id).or (if unit.id = id then some unit else none) := by
  unfold get? add
  dsimp only
  cases before : language.units.get? unit.id with
  | none =>
      rw [IndexMap.get?_insert]
      split
      next same =>
        rw [← same, before]
        rfl
      next => simp
  | some held =>
      dsimp only
      split
      next same =>
        rw [← same, before]
        rfl
      next => simp

/-- The map a list of units is read into. The first unit with an id is kept. -/
def ofUnits (units : List TranslationUnit) : LanguageMap := units.foldl add empty

theorem get?_foldl_add (units : List TranslationUnit) (language : LanguageMap) (id : String) :
    (units.foldl add language).get? id = (language.get? id).or (units.find? (·.id = id)) := by
  induction units generalizing language with
  | nil => simp
  | cons unit rest ih =>
      rw [List.foldl_cons, ih, get?_add, Option.or_assoc, List.find?_cons]
      by_cases same : unit.id = id
      · simp [same]
      · simp [same]

@[simp] theorem get?_ofUnits (units : List TranslationUnit) (id : String) :
    (ofUnits units).get? id = units.find? (·.id = id) := by
  rw [ofUnits, get?_foldl_add, get?_empty, Option.none_or]

/-- A unit of a list without repeated ids is found under its id. -/
theorem get?_ofUnits_of_mem {units : List TranslationUnit} (distinct : (units.map (·.id)).Nodup) {unit : TranslationUnit}
    (member : unit ∈ units) : (ofUnits units).get? unit.id = some unit := by
  rw [get?_ofUnits]
  induction units with
  | nil => cases member
  | cons first rest ih =>
      obtain ⟨fresh, tail⟩ := List.nodup_cons.mp distinct
      rw [List.find?_cons]
      rcases List.mem_cons.mp member with rfl | later
      · simp
      · have apart : first.id ≠ unit.id := by
          intro same
          apply fresh
          show first.id ∈ rest.map (·.id)
          rw [same]
          exact List.mem_map_of_mem later
        simp only [apart, decide_false]
        exact ih tail later

end LanguageMap

end AlLanguage.Xliff
