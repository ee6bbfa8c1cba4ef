import AlLanguage.Analysis.Surfaces

/-!
# When a surface serves another one

- An object serves a former one when it keeps its identity, its bases and all its members.
- The analysis reports no breaking change exactly then, if the names of fields and keys stay apart in the maps that it uses.
-/

namespace AlLanguage.Analysis

open Library AlLanguage.Symbols
open AlLanguage.Runtime (CaseMapping toLowercase toAsciiLowercase eqIgnoreAsciiCase)

/-! ## Changes that break -/

def Quiet (changes : List BreakingChange) : Prop := ∀ change ∈ changes, change.isBreaking = false

theorem quiet_nil : Quiet [] := List.forall_mem_nil _

theorem quiet_append (first second : List BreakingChange) : Quiet (first ++ second) ↔ Quiet first ∧ Quiet second :=
  List.forall_mem_append

theorem quiet_flatMap {α : Type} (items : List α) (changes : α → List BreakingChange) :
    Quiet (items.flatMap changes) ↔ ∀ item ∈ items, Quiet (changes item) := List.forall_mem_flatMap

theorem not_quiet_changeOf {old : SymbolEntry} {kind : BreakingChangeKind} {member : Option String} {description : String} :
    ¬Quiet [changeOf old kind member description] := fun quiet => Bool.noConfusion (quiet _ (List.mem_singleton_self _))

/-- One change, under a condition. -/
theorem quiet_if {c : Prop} [Decidable c] (old : SymbolEntry) (kind : BreakingChangeKind) (member : Option String)
    (description : String) : Quiet (if c then [changeOf old kind member description] else []) ↔ ¬c := by
  split
  next holds => exact iff_of_false (not_quiet_changeOf) (not_not.mpr holds)
  next fails => exact iff_of_true quiet_nil fails

/-! ## Compatible surfaces -/

structure SameObject (old new : SymbolEntry) : Prop where
  kind : new.kind = old.kind
  namespace_ : eqIgnoreAsciiCase new.namespace_ old.namespace_ = true
  name : eqIgnoreAsciiCase new.name old.name = true

theorem SameObject.identity {old new : SymbolEntry} : SameObject old new ↔ identity new = identity old := by
  rw [identity_iff]
  constructor
  · rintro ⟨kind, namespace_, name⟩
    exact ⟨kind, namespace_, name⟩
  · rintro ⟨kind, namespace_, name⟩
    exact ⟨kind, namespace_, name⟩

section Unicode

variable [CaseMapping]

/-- The access of the second is not lower. -/
def KeepsAccess (old new : List PropertyValue) : Prop := accessLevel old ≠ "internal" → accessLevel new ≠ "internal"

structure SameProcedure (old new : MethodSymbol) : Prop where
  name : toAsciiLowercase new.name = toAsciiLowercase old.name
  parameters : contract new = contract old
  result : new.returnType.map toLowercase = old.returnType.map toLowercase

structure SameField (old new : FieldSymbol) : Prop where
  name : toLowercase new.name = toLowercase old.name
  id : new.id = old.id
  type : normalizeName new.typeName = normalizeName old.typeName
  access : KeepsAccess old.properties new.properties

structure SameValue (old new : EnumValueSymbol) : Prop where
  name : toAsciiLowercase new.name = toAsciiLowercase old.name
  ordinal : new.ordinal = old.ordinal

structure SameKey (old new : KeySymbol) : Prop where
  name : toAsciiLowercase new.name = toAsciiLowercase old.name
  fields : new.fieldNames.map normalizeName = old.fieldNames.map normalizeName

structure Grants (old new : PermissionSymbol) : Prop where
  target : target new = target old
  mask : new.value &&& old.value = old.value

/-- A caller of the old object can use the new one. -/
structure Serves (old new : SymbolEntry) : Prop where
  id : new.id = old.id
  base : normalizeOptionalName new.extends_ = normalizeOptionalName old.extends_
  interfaces : ∀ interface ∈ old.implements, ∃ other ∈ new.implements, normalizeName other = normalizeName interface
  access : KeepsAccess old.properties new.properties
  procedures : ∀ method ∈ publicMethods old, ∃ other ∈ publicMethods new, SameProcedure method other
  fields : ∀ field ∈ old.fields, ∃ other ∈ new.fields, SameField field other
  values : ∀ value ∈ old.enumValues, ∃ other ∈ new.enumValues, SameValue value other
  keys : ∀ key ∈ old.keys, ∃ other ∈ new.keys, SameKey key other
  controls : ∀ name, (∃ control ∈ allControls old.controls, Named name control) → ∃ control ∈ allControls new.controls, Named name control
  permissions : ∀ permission ∈ old.permissions, ∃ other ∈ new.permissions, Grants permission other

def Compatible (baseline current : List SymbolEntry) : Prop :=
  ∀ old ∈ published baseline, ∃ new ∈ published current, SameObject old new ∧ Serves old new

theorem Serves.trans {a b c : SymbolEntry} (first : Serves a b) (second : Serves b c) : Serves a c where
  id := second.id.trans first.id
  base := second.base.trans first.base
  interfaces interface inside := by
    obtain ⟨middle, there, same⟩ := first.interfaces interface inside
    obtain ⟨last, here, same'⟩ := second.interfaces middle there
    exact ⟨last, here, same'.trans same⟩
  access := fun open_ => second.access (first.access open_)
  procedures method inside := by
    obtain ⟨middle, there, same⟩ := first.procedures method inside
    obtain ⟨last, here, same'⟩ := second.procedures middle there
    exact ⟨last, here, same'.name.trans same.name, same'.parameters.trans same.parameters, same'.result.trans same.result⟩
  fields field inside := by
    obtain ⟨middle, there, same⟩ := first.fields field inside
    obtain ⟨last, here, same'⟩ := second.fields middle there
    exact ⟨last, here, same'.name.trans same.name, same'.id.trans same.id, same'.type.trans same.type,
      fun open_ => same'.access (same.access open_)⟩
  values value inside := by
    obtain ⟨middle, there, same⟩ := first.values value inside
    obtain ⟨last, here, same'⟩ := second.values middle there
    exact ⟨last, here, same'.name.trans same.name, same'.ordinal.trans same.ordinal⟩
  keys key inside := by
    obtain ⟨middle, there, same⟩ := first.keys key inside
    obtain ⟨last, here, same'⟩ := second.keys middle there
    exact ⟨last, here, same'.name.trans same.name, same'.fields.trans same.fields⟩
  controls name named := second.controls name (first.controls name named)
  permissions permission inside := by
    obtain ⟨middle, there, same⟩ := first.permissions permission inside
    obtain ⟨last, here, same'⟩ := second.permissions middle there
    refine ⟨last, here, same'.target.trans same.target, ?_⟩
    rw [← same.mask, ← Int32.and_assoc, same'.mask]

theorem Compatible.trans {a b c : List SymbolEntry} (first : Compatible a b) (second : Compatible b c) : Compatible a c := by
  intro old inside
  obtain ⟨middle, there, same, serves⟩ := first old inside
  obtain ⟨last, here, same', serves'⟩ := second middle there
  refine ⟨last, here, ?_, serves.trans serves'⟩
  rw [SameObject.identity] at same same' ⊢
  exact same'.trans same

/-! ## The members one by one -/

omit [CaseMapping] in
theorem quiet_diffInterface (old new : SymbolEntry) (interface : String) :
    Quiet (diffInterface old new interface) ↔ ∃ other ∈ new.implements, normalizeName other = normalizeName interface := by
  rw [diffInterface, quiet_if, not_not, List.mem_map]

omit [CaseMapping] in
theorem parameterContractMatches_iff (old new : MethodSymbol) :
    parameterContractMatches old new = true ↔ contract new = contract old := by
  rw [parameterContractMatches, decide_eq_true_iff, contract, contract]
  generalize old.parameters = left
  generalize new.parameters = right
  induction left generalizing right with
  | nil =>
      cases right with
      | nil => simp
      | cons p right => simp
  | cons p left ih =>
      cases right with
      | nil => simp
      | cons q right =>
          rw [List.map_cons, List.map_cons, List.cons.injEq, Prod.mk.injEq, ← ih right, List.length_cons, List.length_cons,
            Nat.add_right_cancel_iff, List.zip_cons_cons, List.all_cons, Bool.and_eq_true, decide_eq_true_iff]
          constructor
          · rintro ⟨lengths, ⟨type, var_⟩, rest⟩
            exact ⟨⟨type.symm, var_.symm⟩, lengths, rest⟩
          · rintro ⟨⟨type, var_⟩, lengths, rest⟩
            exact ⟨lengths, ⟨type.symm, var_.symm⟩, rest⟩

omit [CaseMapping] in
/-- Parameters that differ are reported. -/
theorem not_quiet_checkIncompatibleSignature (object : SymbolEntry) {old new : MethodSymbol}
    (differ : parameterContractMatches old new = false) : ¬Quiet (checkIncompatibleSignature object old new) := by
  rw [checkIncompatibleSignature]
  split
  · exact not_quiet_changeOf
  next same =>
    intro quiet
    rw [quiet_flatMap] at quiet
    have each : ∀ pair ∈ old.parameters.zip new.parameters,
        normalizeName pair.1.typeName = normalizeName pair.2.typeName ∧ pair.1.isVar = pair.2.isVar := by
      intro pair inside
      obtain ⟨index, found⟩ := List.mem_iff_getElem?.mp inside
      have here := quiet (pair, index) (List.mem_zipIdx_iff_getElem?.mpr found)
      rw [quiet_append, quiet_if, quiet_if, not_not, not_not] at here
      exact here
    have matches_ : parameterContractMatches old new = true := by
      rw [parameterContractMatches, decide_eq_true_iff, List.all_eq_true]
      refine ⟨not_not.mp same, ?_⟩
      intro pair inside
      exact decide_eq_true (each pair inside)
    rw [differ] at matches_
    cases matches_

theorem quiet_checkMatchingSignature (object : SymbolEntry) (old new : MethodSymbol) :
    Quiet (checkMatchingSignature object old new) ↔ new.returnType.map toLowercase = old.returnType.map toLowercase := by
  rw [checkMatchingSignature, quiet_append, quiet_if, not_not, eq_comm]
  apply and_iff_left
  intro change inside
  obtain ⟨pair, _, reported⟩ := List.mem_flatMap.mp inside
  dsimp only at reported
  split at reported
  · rw [List.mem_singleton.mp reported]
  · cases reported

theorem quiet_diffMethod (old : SymbolEntry) {current : List MethodSymbol} (method : MethodSymbol)
    (unique : (current.map fun method => (toAsciiLowercase method.name, contract method)).Nodup) :
    Quiet (diffMethod old current method) ↔ ∃ other ∈ current, SameProcedure method other := by
  have sameName (other : MethodSymbol) : other ∈ current.filter (fun other => eqIgnoreAsciiCase other.name method.name) ↔
      other ∈ current ∧ toAsciiLowercase other.name = toAsciiLowercase method.name := by
    rw [List.mem_filter, eqIgnoreAsciiCase_iff]
  rw [diffMethod]
  cases exact_ : (current.filter fun other => eqIgnoreAsciiCase other.name method.name).find? fun other =>
      parameterContractMatches method other with
  | some other =>
      obtain ⟨inside, name⟩ := (sameName other).mp (List.mem_of_find?_eq_some exact_)
      have parameters := (parameterContractMatches_iff method other).mp (List.find?_some exact_)
      dsimp only
      rw [quiet_checkMatchingSignature]
      constructor
      · intro result
        exact ⟨other, inside, name, parameters, result⟩
      · rintro ⟨third, there, same⟩
        obtain rfl : third = other := by
          apply List.inj_on_of_nodup_map unique there inside
          rw [same.name, same.parameters, name, parameters]
        exact same.result
  | none =>
      have differ := List.find?_eq_none.mp exact_
      apply iff_of_false
      · dsimp only
        split
        · exact not_quiet_changeOf
        next only is =>
            have member : only ∈ current.filter fun other => eqIgnoreAsciiCase other.name method.name := by
              rw [is]
              exact List.mem_singleton_self _
            apply not_quiet_checkIncompatibleSignature
            exact Bool.eq_false_iff.mpr (differ only member)
        · exact not_quiet_changeOf
      · rintro ⟨other, inside, same⟩
        exact differ other ((sameName other).mpr ⟨inside, same.name⟩) ((parameterContractMatches_iff method other).mpr same.parameters)

omit [CaseMapping] in
theorem keepsAccess_iff (old new : List PropertyValue) :
    ¬(accessLevel old ≠ "internal" ∧ accessLevel new = "internal") ↔ KeepsAccess old new := by
  rw [KeepsAccess, not_and]

theorem quiet_diffField (old new : SymbolEntry) (nameLower : String) (field : FieldSymbol) :
    Quiet (diffField old new nameLower field) ↔ ∃ other, (fieldMap new).get? nameLower = some other ∧ other.id = field.id ∧
      normalizeName other.typeName = normalizeName field.typeName ∧ KeepsAccess field.properties other.properties := by
  rw [diffField]
  cases (fieldMap new).get? nameLower with
  | none =>
      apply iff_of_false
      · dsimp only
        split
        · exact not_quiet_changeOf
        · exact not_quiet_changeOf
      · rintro ⟨_, none, _⟩
        cases none
  | some other =>
      dsimp only
      rw [quiet_append, quiet_append, quiet_if, quiet_if, quiet_if, not_not, not_not, keepsAccess_iff, and_assoc]
      constructor
      · rintro ⟨id, type, access⟩
        exact ⟨other, rfl, id.symm, type.symm, access⟩
      · rintro ⟨_, same, id, type, access⟩
        obtain rfl := Option.some.inj same
        exact ⟨id.symm, type.symm, access⟩

omit [CaseMapping] in
/-- The first item with a folded name is the only one. -/
theorem find?_name {α : Type} {items : List α} (name : α → String) {wanted : String} {item : α}
    (unique : ∀ a ∈ items, ∀ b ∈ items, toAsciiLowercase (name a) = toAsciiLowercase (name b) → a = b) :
    items.find? (fun other => eqIgnoreAsciiCase (name other) wanted) = some item ↔
      item ∈ items ∧ toAsciiLowercase (name item) = toAsciiLowercase wanted := by
  constructor
  · intro found
    exact ⟨List.mem_of_find?_eq_some found, (eqIgnoreAsciiCase_iff ..).mp (by simpa using List.find?_some found)⟩
  · rintro ⟨inside, same⟩
    have some_ : (items.find? fun other => eqIgnoreAsciiCase (name other) wanted).isSome :=
      List.find?_isSome.mpr ⟨item, inside, (eqIgnoreAsciiCase_iff ..).mpr same⟩
    obtain ⟨other, found⟩ := Option.isSome_iff_exists.mp some_
    have named := (eqIgnoreAsciiCase_iff ..).mp (by simpa using List.find?_some found : eqIgnoreAsciiCase (name other) wanted = true)
    rw [found, unique other (List.mem_of_find?_eq_some found) item inside (named.trans same.symm)]

omit [CaseMapping] in
theorem quiet_diffEnumValue (old : SymbolEntry) {new : SymbolEntry} (unique : UniqueEntry new) (value : EnumValueSymbol) :
    Quiet (diffEnumValue old new value) ↔ ∃ other ∈ new.enumValues, SameValue value other := by
  have once : ∀ a ∈ new.enumValues, ∀ b ∈ new.enumValues, toAsciiLowercase a.name = toAsciiLowercase b.name → a = b :=
    fun a first b second same => List.inj_on_of_nodup_map unique.valueNames first second same
  rw [diffEnumValue]
  cases found : new.enumValues.find? fun other => eqIgnoreAsciiCase other.name value.name with
  | none =>
      apply iff_of_false not_quiet_changeOf
      rintro ⟨other, inside, same⟩
      rw [(find?_name EnumValueSymbol.name once).mpr ⟨inside, same.name⟩] at found
      cases found
  | some other =>
      obtain ⟨inside, name⟩ := (find?_name EnumValueSymbol.name once).mp found
      dsimp only
      rw [quiet_if, not_not]
      constructor
      · intro ordinal
        exact ⟨other, inside, name, ordinal.symm⟩
      · rintro ⟨third, there, same⟩
        rw [once other inside third there (name.trans same.name.symm), same.ordinal]

omit [CaseMapping] in
theorem quiet_diffPermission (old : SymbolEntry) {new : SymbolEntry} (unique : UniqueEntry new) (permission : PermissionSymbol) :
    Quiet (diffPermission old new permission) ↔ ∃ other ∈ new.permissions, Grants permission other := by
  have targets (other : PermissionSymbol) : (decide (other.permissionObject = permission.permissionObject ∧
      other.objectId = permission.objectId)) = true ↔ target other = target permission := by
    rw [decide_eq_true_iff, target, target, Prod.mk.injEq]
  rw [diffPermission]
  cases found : new.permissions.find? fun other =>
      other.permissionObject = permission.permissionObject ∧ other.objectId = permission.objectId with
  | none =>
      apply iff_of_false not_quiet_changeOf
      rintro ⟨other, inside, grants⟩
      exact List.find?_eq_none.mp found other inside ((targets other).mpr grants.target)
  | some other =>
      have inside := List.mem_of_find?_eq_some found
      have matched := List.find?_some found
      have same := (targets other).mp matched
      rw [quiet_if, Option.all_some, decide_eq_true_iff, not_not]
      constructor
      · intro mask
        exact ⟨other, inside, same, mask⟩
      · rintro ⟨third, there, grants⟩
        rw [List.inj_on_of_nodup_map unique.targets inside there (same.trans grants.target.symm)]
        exact grants.mask

/-! ## Objects -/

/-- Keys of one name have the same fields. -/
def KeysAgree (entry : SymbolEntry) : Prop :=
  ∀ key ∈ entry.keys, ∀ other ∈ entry.keys, toAsciiLowercase key.name = toAsciiLowercase other.name →
    key.fieldNames.map normalizeName = other.fieldNames.map normalizeName

/-- The analysis keeps the fields and the keys apart. -/
structure Separate (entry : SymbolEntry) : Prop where
  fields : (entry.fields.map fun field => toLowercase field.name).Nodup
  keys : KeysAgree entry

omit [CaseMapping] in
theorem quiet_diffKey (old : SymbolEntry) {new : SymbolEntry} (agree : KeysAgree new) (key : KeySymbol) :
    Quiet (diffKey old new key) ↔ ∃ other ∈ new.keys, SameKey key other := by
  rw [diffKey]
  cases found : new.keys.find? fun other => eqIgnoreAsciiCase other.name key.name with
  | none =>
      apply iff_of_false not_quiet_changeOf
      rintro ⟨other, inside, same⟩
      exact List.find?_eq_none.mp found other inside ((eqIgnoreAsciiCase_iff ..).mpr same.name)
  | some other =>
      have inside := List.mem_of_find?_eq_some found
      have matched := List.find?_some found
      have name := (eqIgnoreAsciiCase_iff other.name key.name).mp matched
      dsimp only
      rw [quiet_if, not_not]
      constructor
      · intro fields
        exact ⟨other, inside, name, fields.symm⟩
      · rintro ⟨third, there, same⟩
        rw [agree other inside third there (name.trans same.name.symm), same.fields]

theorem fieldMap_get?_iff {entry : SymbolEntry} (separate : Separate entry) (name : String) (field : FieldSymbol) :
    (fieldMap entry).get? name = some field ↔ field ∈ entry.fields ∧ toLowercase field.name = name := by
  rw [fieldMap, get?_collectMap]
  · rw [List.mem_map]
    constructor
    · rintro ⟨other, inside, same⟩
      obtain ⟨lower, rfl⟩ := Prod.mk.inj same
      exact ⟨inside, lower⟩
    · rintro ⟨inside, lower⟩
      exact ⟨field, inside, by rw [lower]⟩
  · rw [List.map_map]
    exact separate.fields

theorem quiet_fields {old new : SymbolEntry} (separate : Separate old) (separate' : Separate new) :
    (∀ entry ∈ (fieldMap old).entries, Quiet (diffField old new entry.1 entry.2)) ↔
      ∀ field ∈ old.fields, ∃ other ∈ new.fields, SameField field other := by
  have each (name : String) (field : FieldSymbol) : Quiet (diffField old new name field) ↔
      ∃ other ∈ new.fields, toLowercase other.name = name ∧ other.id = field.id ∧
        normalizeName other.typeName = normalizeName field.typeName ∧ KeepsAccess field.properties other.properties := by
    rw [quiet_diffField]
    simp only [fieldMap_get?_iff separate', and_assoc]
  constructor
  · intro quiet field inside
    have entry : (toLowercase field.name, field) ∈ (fieldMap old).entries :=
      (mem_entries_iff _).mpr ((fieldMap_get?_iff separate _ _).mpr ⟨inside, rfl⟩)
    obtain ⟨other, there, name, id, type, access⟩ := (each _ _).mp (quiet _ entry)
    exact ⟨other, there, name, id, type, access⟩
  · rintro kept ⟨name, field⟩ entry
    obtain ⟨inside, rfl⟩ := (fieldMap_get?_iff separate _ _).mp ((mem_entries_iff _).mp entry)
    obtain ⟨other, there, same⟩ := kept field inside
    exact (each _ _).mpr ⟨other, there, same.name, same.id, same.type, same.access⟩

omit [CaseMapping] in
theorem quiet_diffControls (old new : SymbolEntry) : Quiet (diffControls old new) ↔
    ∀ name, (∃ control ∈ allControls old.controls, Named name control) → ∃ control ∈ allControls new.controls, Named name control := by
  rw [diffControls, quiet_flatMap]
  constructor
  · intro quiet name named
    rw [← contains_controlNames, contains_iff_mem_entries] at named
    obtain ⟨written, entry⟩ := named
    have here := quiet _ entry
    dsimp only at here
    split at here
    next kept => exact (contains_controlNames ..).mp kept
    next => exact absurd here not_quiet_changeOf
  · rintro kept ⟨name, written⟩ entry
    have named := (contains_controlNames ..).mp ((contains_iff_mem_entries ..).mpr ⟨written, entry⟩)
    dsimp only
    rw [if_pos ((contains_controlNames ..).mpr (kept name named))]
    exact quiet_nil

/-- What is reported of an object, with the fields apart. -/
theorem quiet_parts (old : SymbolEntry) {new : SymbolEntry} (unique : UniqueEntry new) (agree : KeysAgree new) :
    Quiet (diffObject old new) ↔ Serves { old with fields := [] } new ∧
      ∀ entry ∈ (fieldMap old).entries, Quiet (diffField old new entry.1 entry.2) := by
  have methods (method : MethodSymbol) := quiet_diffMethod old method unique.contracts
  rw [diffObject]
  simp only [quiet_append, quiet_if, quiet_flatMap, not_not, diffKeys, quiet_diffInterface, keepsAccess_iff,
    quiet_diffEnumValue old unique, quiet_diffKey old agree, quiet_diffControls, quiet_diffPermission old unique]
  constructor
  · rintro ⟨⟨⟨⟨⟨⟨⟨⟨⟨id, base⟩, interfaces⟩, access⟩, procedures⟩, fields⟩, values⟩, keys⟩, controls⟩, permissions⟩
    exact ⟨⟨id.symm, base.symm, interfaces, access, fun method inside => (methods method).mp (procedures method inside),
      fun _ inside => (List.not_mem_nil inside).elim, values,
      keys, controls, permissions⟩, fields⟩
  · rintro ⟨serves, fields⟩
    have procedures : ∀ method ∈ publicMethods old, Quiet (diffMethod old (publicMethods new) method) :=
      fun method inside => (methods method).mpr (serves.procedures method inside)
    exact ⟨⟨⟨⟨⟨⟨⟨⟨⟨serves.id.symm, serves.base.symm⟩, serves.interfaces⟩, serves.access⟩, procedures⟩, fields⟩, serves.values⟩,
      serves.keys⟩, serves.controls⟩, serves.permissions⟩

theorem serves_parts (old new : SymbolEntry) :
    Serves old new ↔ Serves { old with fields := [] } new ∧ ∀ field ∈ old.fields, ∃ other ∈ new.fields, SameField field other := by
  constructor
  · intro serves
    exact ⟨⟨serves.id, serves.base, serves.interfaces, serves.access, serves.procedures, nofun, serves.values, serves.keys,
      serves.controls, serves.permissions⟩, serves.fields⟩
  · rintro ⟨serves, fields⟩
    exact ⟨serves.id, serves.base, serves.interfaces, serves.access, serves.procedures, fields, serves.values, serves.keys,
      serves.controls, serves.permissions⟩

/-- Nothing that breaks is reported of an object exactly when the new one serves the old one. -/
theorem quiet_diffObject {old new : SymbolEntry} (separate : Separate old) (unique : UniqueEntry new) (separate' : Separate new) :
    Quiet (diffObject old new) ↔ Serves old new := by
  rw [quiet_parts old unique separate'.keys, quiet_fields separate separate', serves_parts old]

theorem Serves.refl (entry : SymbolEntry) : Serves entry entry where
  id := rfl
  base := rfl
  interfaces interface inside := ⟨interface, inside, rfl⟩
  access := fun open_ => open_
  procedures method inside := ⟨method, inside, rfl, rfl, rfl⟩
  fields field inside := ⟨field, inside, rfl, rfl, rfl, fun open_ => open_⟩
  values value inside := ⟨value, inside, rfl, rfl⟩
  keys key inside := ⟨key, inside, rfl, rfl⟩
  controls _ named := named
  permissions permission inside := ⟨permission, inside, rfl, Int32.and_self⟩

/-! ## An object beside itself -/

def Breaks (changes : List BreakingChange) : Prop := ∀ change ∈ changes, change.isBreaking = true

omit [CaseMapping] in
theorem Breaks.eq_nil {changes : List BreakingChange} (breaks : Breaks changes) (quiet : Quiet changes) : changes = [] := by
  apply List.eq_nil_iff_forall_not_mem.mpr
  intro change inside
  have both := (breaks change inside).symm.trans (quiet change inside)
  cases both

omit [CaseMapping] in
theorem breaks_nil : Breaks [] := List.forall_mem_nil _

omit [CaseMapping] in
theorem breaks_append {first second : List BreakingChange} (left : Breaks first) (right : Breaks second) : Breaks (first ++ second) :=
  List.forall_mem_append.mpr ⟨left, right⟩

omit [CaseMapping] in
theorem breaks_flatMap {α : Type} {items : List α} {changes : α → List BreakingChange} (each : ∀ item, Breaks (changes item)) :
    Breaks (items.flatMap changes) := List.forall_mem_flatMap.mpr fun item _ => each item

omit [CaseMapping] in
theorem breaks_changeOf {old : SymbolEntry} {kind : BreakingChangeKind} {member : Option String} {description : String} :
    Breaks [changeOf old kind member description] := List.forall_mem_singleton.mpr rfl

omit [CaseMapping] in
theorem breaks_if {c : Prop} [Decidable c] {old : SymbolEntry} {kind : BreakingChangeKind} {member : Option String}
    {description : String} : Breaks (if c then [changeOf old kind member description] else []) := by
  split
  · exact breaks_changeOf
  · exact breaks_nil

theorem breaks_diffField (old new : SymbolEntry) (name : String) (field : FieldSymbol) : Breaks (diffField old new name field) := by
  rw [diffField]
  split
  · split
    · exact breaks_changeOf
    · exact breaks_changeOf
  · exact breaks_append (breaks_append breaks_if breaks_if) breaks_if

omit [CaseMapping] in
theorem breaks_diffEnumValue (old new : SymbolEntry) (value : EnumValueSymbol) : Breaks (diffEnumValue old new value) := by
  rw [diffEnumValue]
  split
  · exact breaks_changeOf
  · exact breaks_if

omit [CaseMapping] in
theorem breaks_diffKey (old new : SymbolEntry) (key : KeySymbol) : Breaks (diffKey old new key) := by
  rw [diffKey]
  split
  · exact breaks_changeOf
  · exact breaks_if

omit [CaseMapping] in
theorem breaks_diffControls (old new : SymbolEntry) : Breaks (diffControls old new) := by
  apply breaks_flatMap
  intro entry
  dsimp only
  split
  · exact breaks_nil
  · exact breaks_changeOf

/-- A procedure beside itself has no changes at all. -/
theorem diffMethod_self (old : SymbolEntry) {current : List MethodSymbol} {method : MethodSymbol} (inside : method ∈ current)
    (unique : (current.map fun method => (toAsciiLowercase method.name, contract method)).Nodup) :
    diffMethod old current method = [] := by
  have candidate : method ∈ current.filter fun other => eqIgnoreAsciiCase other.name method.name :=
    List.mem_filter.mpr ⟨inside, (eqIgnoreAsciiCase_iff ..).mpr rfl⟩
  have found : ((current.filter fun other => eqIgnoreAsciiCase other.name method.name).find? fun other =>
      parameterContractMatches method other) = some method := by
    cases search : (current.filter fun other => eqIgnoreAsciiCase other.name method.name).find? fun other =>
        parameterContractMatches method other with
    | none => exact absurd ((parameterContractMatches_iff method method).mpr rfl) (List.find?_eq_none.mp search method candidate)
    | some other =>
        obtain ⟨there, name⟩ := List.mem_filter.mp (List.mem_of_find?_eq_some search)
        have matched := List.find?_some search
        obtain rfl : other = method := by
          apply List.inj_on_of_nodup_map unique there inside
          rw [(eqIgnoreAsciiCase_iff ..).mp name, (parameterContractMatches_iff method other).mp matched]
        rfl
  rw [diffMethod, found]
  dsimp only
  rw [checkMatchingSignature, if_neg (not_not.mpr rfl), List.nil_append, List.flatMap_eq_nil_iff]
  rintro ⟨⟨first, second⟩, index⟩ pair
  have equal : first = second := by
    have found := List.mem_zipIdx_iff_getElem?.mp pair
    obtain ⟨within, is⟩ := List.getElem?_eq_some_iff.mp found
    rw [List.getElem_zip, Prod.mk.injEq] at is
    rw [← is.1, ← is.2]
  subst equal
  dsimp only
  rw [(eqIgnoreAsciiCase_iff first.name first.name).mpr rfl]
  rfl

theorem diffObject_self {entry : SymbolEntry} (unique : UniqueEntry entry) (agree : KeysAgree entry) : diffObject entry entry = [] := by
  have fields : ∀ field ∈ (fieldMap entry).entries, Quiet (diffField entry entry field.1 field.2) := by
    rintro ⟨name, field⟩ inside
    exact (quiet_diffField ..).mpr ⟨field, (fieldMap entry).get?_of_mem inside, rfl, rfl, fun open_ => open_⟩
  have serves := ((serves_parts entry entry).mp (Serves.refl entry)).1
  have quiet := (quiet_parts entry unique agree).mpr ⟨serves, fields⟩
  have methods : (publicMethods entry).flatMap (diffMethod entry (publicMethods entry)) = [] :=
    List.flatMap_eq_nil_iff.mpr fun method inside => diffMethod_self entry inside unique.contracts
  have breaks : Breaks (diffObject entry entry) := by
    rw [diffObject]
    simp only [publicMethods] at methods
    rw [methods]
    refine breaks_append (breaks_append (breaks_append (breaks_append (breaks_append (breaks_append (breaks_append (breaks_append
      (breaks_append breaks_if breaks_if) (breaks_flatMap ?_)) breaks_if) breaks_nil) (breaks_flatMap ?_)) (breaks_flatMap ?_))
      (breaks_flatMap ?_)) (breaks_diffControls entry entry)) (breaks_flatMap ?_)
    · exact fun interface => breaks_if
    · exact fun field => breaks_diffField entry entry field.1 field.2
    · exact breaks_diffEnumValue entry entry
    · exact breaks_diffKey entry entry
    · exact fun permission => breaks_if
  exact breaks.eq_nil quiet

end Unicode

end AlLanguage.Analysis
