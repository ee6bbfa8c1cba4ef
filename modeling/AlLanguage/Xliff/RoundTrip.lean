import AlLanguage.Xliff.ReadBack

/-!
# What a translation file keeps

- A text of several lines comes back exactly when its first line is not empty and does not end in white space.
- An object target comes back unless the id of its unit ends like the attribute.
-/

namespace AlLanguage.Xliff

/-! ## Texts of several lines -/

def firstLine (s : Text) : Text := s.takeWhile (· ≠ '\n')

/-- A text that is one line, or has a first line that does not end in white space and is not empty. -/
def KeepsLines (s : Text) : Prop := '\n' ∈ s → ((firstLine s).getLast?.any fun c => !Runtime.isWhitespace c) = true

instance (s : Text) : Decidable (KeepsLines s) :=
  inferInstanceAs (Decidable ('\n' ∈ s → ((firstLine s).getLast?.any fun c => !Runtime.isWhitespace c) = true))

variable {acc line : Text}

theorem firstLine_append (unbroken : '\n' ∉ line) (rest : Text) : firstLine (line ++ '\n' :: rest) = line := by
  rw [firstLine, List.takeWhile_append_of_pos]
  · simp
  · intro c inside
    simp only [ne_eq, decide_eq_true_eq]
    rintro rfl
    exact unbroken inside

theorem flatMap_splitOn (s : Text) : (s.splitOn '\n').flatMap ('\n' :: ·) = '\n' :: s := by
  induction length : s.length using Nat.strong_induction_on generalizing s with
  | _ n shorter =>
      subst length
      rcases exists_line s with unbroken | ⟨line, rest, unbroken, rfl⟩
      · rw [List.splitOn_eq_singleton unbroken]
        simp
      · rw [List.splitOn_append_cons_self_of_not_mem unbroken, List.flatMap_cons, shorter rest.length (by simp; omega) rest rfl]
        rfl

theorem foldl_append_nonempty (nonempty : acc ≠ []) (parts : List Text) :
    parts.foldl appendToAccumulator acc = acc ++ parts.flatMap ('\n' :: ·) := by
  induction parts generalizing acc with
  | nil => simp
  | cons part parts ih =>
      rw [List.foldl_cons, appendToAccumulator, if_neg nonempty, ih (by simp)]
      simp

theorem length_foldl_append (acc : Text) (parts : List Text) :
    (parts.foldl appendToAccumulator acc).length ≤ acc.length + (parts.flatMap ('\n' :: ·)).length := by
  induction parts generalizing acc with
  | nil => simp
  | cons part parts ih =>
      refine (ih _).trans ?_
      rw [appendToAccumulator, List.flatMap_cons]
      split <;> simp <;> omega

theorem trimEnd_eq_iff (nonempty : line ≠ []) : trimEnd line = line ↔ (line.getLast?.any fun c => !Runtime.isWhitespace c) = true := by
  rw [trimEnd, List.rdropWhile_eq_self_iff, List.getLast?_eq_some_getLast nonempty]
  simp [nonempty]

/-- The lines of a text are glued to the text they came from exactly when none is lost or trimmed. -/
theorem collected_eq_iff (s : Text) : collected s = s ↔ KeepsLines s := by
  rcases exists_line s with unbroken | ⟨line, rest, unbroken, rfl⟩
  · exact iff_of_true (collected_line unbroken) fun broken => absurd broken unbroken
  · have broken : '\n' ∈ line ++ '\n' :: rest := by simp
    rw [KeepsLines, firstLine_append unbroken, collected_lines unbroken]
    simp only [broken, forall_const]
    by_cases blank : trimEnd line = []
    · have short : ((rest.splitOn '\n').foldl appendToAccumulator (trimEnd line)).length < (line ++ '\n' :: rest).length := by
        obtain ⟨part, parts, split⟩ := List.exists_cons_of_ne_nil (List.splitOn_ne_nil '\n' rest)
        have whole := congrArg List.length (flatMap_splitOn rest)
        have bound := length_foldl_append part parts
        rw [blank, split, List.foldl_cons, appendToAccumulator, if_pos rfl, List.nil_append]
        rw [split, List.flatMap_cons] at whole
        simp only [List.length_append, List.length_cons] at whole ⊢
        omega
      refine iff_of_false (fun same => absurd (congrArg List.length same) (by omega)) ?_
      intro solid
      by_cases empty : line = []
      · simp [empty] at solid
      · exact empty (((trimEnd_eq_iff empty).mpr solid).symm.trans blank)
    · have nonempty : line ≠ [] := by
        rintro rfl
        exact blank rfl
      rw [foldl_append_nonempty blank, flatMap_splitOn, List.append_cancel_right_eq, trimEnd_eq_iff nonempty]

theorem readBack_eq_iff (s : String) : readBack s = s ↔ KeepsLines s.toList := by
  rw [← collected_eq_iff, readBack, ← String.toList_inj, String.toList_ofList]

/-! ## Files -/

/-- Units as they are written to one file. -/
structure WrittenFile where
  units : List TranslationUnit
  distinct : (units.map (·.id)).Nodup
  writable : ∀ unit ∈ units, Writable unit
  noted : ∀ unit ∈ units, ∀ developer, unit.developerNote = some developer → unit.note ≠ none

/-- All that a file says about a unit. -/
structure SameTexts (unit read : TranslationUnit) : Prop where
  source : read.source = unit.source
  target : read.target = unit.target
  state : read.state = unit.state
  note : read.note = unit.note
  developerNote : read.developerNote = unit.developerNote
  objectTarget : read.objectTarget = unit.objectTarget

/-- One unit for each id, with the texts that were written. -/
def ReadsBack (read : LanguageMap) (units : List TranslationUnit) : Prop :=
  (∀ id, (∃ unit, read.get? id = some unit) ↔ id ∈ units.map (·.id)) ∧
    ∀ unit ∈ units, ∃ other, read.get? unit.id = some other ∧ SameTexts unit other

/-- What a unit needs to come back. In a generated file a missing target has the state New, and every unit a developer
note. -/
structure ComesBack (generated : Bool) (unit : TranslationUnit) : Prop where
  source : KeepsLines unit.source.toList
  target : ∀ text, unit.target = some text → KeepsLines text.toList
  note : ∀ text, unit.note = some text → KeepsLines text.toList
  developerNote : ∀ text, unit.developerNote = some text → KeepsLines text.toList
  objectTarget : EndsLikeTarget unit.id → unit.objectTarget = some " size-unit="
  generated : generated = true → unit.developerNote ≠ none ∧ (unit.target = none → unit.state = .new)

variable {generated : Bool} {unit : TranslationUnit}

theorem map_readBack_iff (text : Option String) : text.map readBack = text ↔ ∀ s, text = some s → KeepsLines s.toList := by
  cases text with
  | none => simp
  | some s => simp [readBack_eq_iff]

theorem developerNote_iff :
    (readUnit generated unit).developerNote = unit.developerNote ↔
      (∀ text, unit.developerNote = some text → KeepsLines text.toList) ∧ (generated = true → unit.developerNote ≠ none) := by
  show (writtenDeveloperNote generated unit).map readBack = unit.developerNote ↔ _
  rw [writtenDeveloperNote]
  cases held : unit.developerNote with
  | some text => simp [readBack_eq_iff]
  | none => cases generated <;> simp

theorem note_iff (noted : ∀ developer, unit.developerNote = some developer → unit.note ≠ none)
    (developed : generated = true → unit.developerNote ≠ none) :
    (readUnit generated unit).note = unit.note ↔ ∀ text, unit.note = some text → KeepsLines text.toList := by
  show ((writtenNote unit).map readBack).or ((writtenDeveloperNote generated unit).map readBack) = unit.note ↔ _
  rw [writtenNote, writtenDeveloperNote]
  cases held : unit.note with
  | none =>
      have developer : unit.developerNote = none := by
        cases own : unit.developerNote with
        | none => rfl
        | some developer => exact absurd held (noted developer own)
      cases generated with
      | false => simp [developer]
      | true => exact absurd developer (developed rfl)
  | some text =>
      by_cases same : unit.developerNote = some text
      · simp [same, Option.filter_some, readBack_eq_iff]
      · simp [same, Option.filter_some, readBack_eq_iff]

theorem state_iff :
    (readUnit generated unit).state = unit.state ↔ (generated = true → unit.target = none → unit.state = .new) := by
  show (if generated = true ∧ unit.target = none then TranslationState.new else unit.state) = unit.state ↔ _
  split
  next both => exact ⟨fun same _ _ => same.symm, fun new => (new both.1 both.2).symm⟩
  next apart => exact iff_of_true rfl fun first second => absurd ⟨first, second⟩ apart

theorem objectTarget_iff :
    (readUnit generated unit).objectTarget = unit.objectTarget ↔ (EndsLikeTarget unit.id → unit.objectTarget = some " size-unit=") := by
  show (if EndsLikeTarget unit.id then some " size-unit=" else unit.objectTarget) = unit.objectTarget ↔ _
  split
  next ends => exact ⟨fun same _ => same.symm, fun same => (same ends).symm⟩
  next apart => exact iff_of_true rfl fun ends => absurd ends apart

theorem sameTexts_iff (noted : ∀ developer, unit.developerNote = some developer → unit.note ≠ none) :
    SameTexts unit (readUnit generated unit) ↔ ComesBack generated unit := by
  constructor
  · rintro ⟨source, target, state, note, developerNote, objectTarget⟩
    obtain ⟨developer, developed⟩ := developerNote_iff.mp developerNote
    exact ⟨(readBack_eq_iff _).mp source, (map_readBack_iff _).mp target, (note_iff noted developed).mp note, developer,
      objectTarget_iff.mp objectTarget, fun generated => ⟨developed generated, state_iff.mp state generated⟩⟩
  · rintro ⟨source, target, note, developerNote, objectTarget, both⟩
    have developed (generated : generated = true) := (both generated).1
    exact ⟨(readBack_eq_iff _).mpr source, (map_readBack_iff _).mpr target, state_iff.mpr fun generated => (both generated).2,
      (note_iff noted developed).mpr note, developerNote_iff.mpr ⟨developerNote, developed⟩, objectTarget_iff.mpr objectTarget⟩

theorem readUnit_ids (generated : Bool) (units : List TranslationUnit) :
    (units.map (readUnit generated)).map (·.id) = units.map (·.id) := by
  rw [List.map_map]
  rfl

theorem get?_read {units : List TranslationUnit} (distinct : (units.map (·.id)).Nodup) (member : unit ∈ units) :
    (LanguageMap.ofUnits (units.map (readUnit generated))).get? unit.id = some (readUnit generated unit) := by
  have ids : ((units.map (readUnit generated)).map (·.id)).Nodup := by
    rw [readUnit_ids]
    exact distinct
  exact LanguageMap.get?_ofUnits_of_mem ids (List.mem_map_of_mem member)

/-- What is read of a file has its units, each with the texts that were written, exactly when every unit comes back. -/
theorem readsBack_iff (appName sourceLanguage targetLanguage : String) (file : WrittenFile) :
    ReadsBack (parseXliff (generateXliff appName sourceLanguage targetLanguage file.units)) file.units ↔
      ∀ unit ∈ file.units, ComesBack (eqIgnoreAsciiCase sourceLanguage targetLanguage) unit := by
  rw [parse_generate appName sourceLanguage targetLanguage file.writable]
  generalize eqIgnoreAsciiCase sourceLanguage targetLanguage = generated
  constructor
  · rintro ⟨_, each⟩ unit member
    obtain ⟨other, found, same⟩ := each unit member
    rw [get?_read file.distinct member] at found
    cases found
    exact (sameTexts_iff (file.noted unit member)).mp same
  · intro each
    refine ⟨?_, ?_⟩
    · intro id
      constructor
      · rintro ⟨unit, found⟩
        rw [LanguageMap.get?_ofUnits] at found
        have same : unit.id = id := by simpa using List.find?_some found
        rw [← readUnit_ids generated, ← same]
        exact List.mem_map_of_mem (List.mem_of_find?_eq_some found)
      · intro listed
        obtain ⟨unit, member, rfl⟩ := List.mem_map.mp listed
        exact ⟨_, get?_read file.distinct member⟩
    · intro unit member
      exact ⟨_, get?_read file.distinct member, (sameTexts_iff (file.noted unit member)).mpr (each unit member)⟩

/-! ## Lost text -/

/-- A file with one unit, with this source. -/
def fileWith (source : String) (oneLine : '\r' ∉ source.toList) : WrittenFile where
  units := [⟨"A", "Table", 0, "", source, some "Hallo", .translated, none, none, none⟩]
  distinct := List.nodup_singleton _
  writable unit member := by
    obtain rfl := List.mem_singleton.mp member
    have id : '\n' ∉ "A".toList := by decide
    refine ⟨id, ?_, oneLine, ?_, ?_, ?_⟩ <;> intro text held <;> cases held
    decide
  noted unit member developer held := by
    obtain rfl := List.mem_singleton.mp member
    cases held

/-- An empty first line and the blank at the end of a first line are lost. -/
theorem lines_lost :
    (¬ReadsBack (parseXliff (generateXliff "App" "en-US" "de-DE" (fileWith "\nHello" (by decide)).units))
        (fileWith "\nHello" (by decide)).units ∧
      readBack "\nHello" = "Hello") ∧
    (¬ReadsBack (parseXliff (generateXliff "App" "en-US" "de-DE" (fileWith "Hello \nWorld" (by decide)).units))
        (fileWith "Hello \nWorld" (by decide)).units ∧
      readBack "Hello \nWorld" = "Hello\nWorld") := by
  have fails (source : String) (oneLine : '\r' ∉ source.toList) (lost : readBack source ≠ source) :
      ¬ReadsBack (parseXliff (generateXliff "App" "en-US" "de-DE" (fileWith source oneLine).units)) (fileWith source oneLine).units := by
    rintro ⟨_, each⟩
    obtain ⟨other, found, same⟩ := each _ (List.mem_singleton_self _)
    rw [parse_generate _ _ _ (fileWith source oneLine).writable, get?_read (fileWith source oneLine).distinct
      (List.mem_singleton_self _)] at found
    cases found
    exact lost same.source
  exact ⟨⟨fails _ _ (by decide), by decide⟩, ⟨fails _ _ (by decide), by decide⟩⟩

end AlLanguage.Xliff
