import AlLanguage.Library.OrderedMap
import AlLanguage.Library.StableSort
import AlLanguage.Runtime.Tables
import AlLanguage.Symbols.Model
import Mathlib.Data.List.Lex
import Mathlib.Data.String.Basic

/-!
# Breaking changes between two symbol surfaces

The check that a surface names everything once, and the comparison of a baseline with a current surface.
-/

namespace AlLanguage.Analysis

open Library AlLanguage.Symbols
open AlLanguage.Runtime (CaseMapping toLowercase toAsciiLowercase eqIgnoreAsciiCase unquoteIdentifier)

inductive BreakingChangeKind where
  | objectRemoved
  | objectIdChanged
  | namespaceChanged
  | baseObjectChanged
  | interfaceRemoved
  | accessReduced
  | procedureRemoved
  | signatureChanged
  | parameterRenamed
  | returnTypeChanged
  | fieldRemoved
  | fieldRenamed
  | fieldIdChanged
  | fieldTypeChanged
  | enumValueRemoved
  | enumValueOrdinalChanged
  | permissionReduced
  | keyRemoved
  | keyFieldsChanged
  | controlRemoved
  deriving DecidableEq

structure BreakingChange where
  kind : BreakingChangeKind
  object : String
  objectKind : ObjectKind
  member : Option String
  description : String
  /-- A dependent extension has to change to keep compiling. -/
  isBreaking : Bool
  deriving DecidableEq

/-- `ObjectKind::to_string`. -/
def displayKind : ObjectKind → String
  | .table => "Table"
  | .tableExtension => "TableExtension"
  | .page => "Page"
  | .pageExtension => "PageExtension"
  | .codeunit => "Codeunit"
  | .report => "Report"
  | .reportExtension => "ReportExtension"
  | .xmlPort => "XmlPort"
  | .query => "Query"
  | .enum => "Enum"
  | .enumExtension => "EnumExtension"
  | .interface => "Interface"
  | .permissionSet => "PermissionSet"
  | .permissionSetExtension => "PermissionSetExtension"
  | .profile => "Profile"
  | .pageCustomization => "PageCustomization"
  | .controlAddIn => "ControlAddIn"
  | .entitlement => "Entitlement"
  | .profileExtension => "ProfileExtension"
  | .dotNet => "DotNet"

def namespaceLabel (namespace_ : String) : String := if namespace_ = "" then "(global)" else namespace_

def normalizeName (value : String) : String := toAsciiLowercase (unquoteIdentifier value)

def normalizeOptionalName (value : Option String) : Option String := value.map normalizeName

def accessLevel (properties : List PropertyValue) : String :=
  match properties.find? fun property => eqIgnoreAsciiCase property.name "Access" with
  | some property => normalizeName property.value
  | none => "public"

def methodLabel (method : MethodSymbol) : String :=
  let parameters := method.parameters.map fun parameter => (if parameter.isVar then "var " else "") ++ parameter.typeName
  method.name ++ "(" ++ ", ".intercalate parameters ++ ")"

def keyFields (key : KeySymbol) : String := ", ".intercalate key.fieldNames

/-! ## Unique surfaces -/

/-- A loop that refuses an item with a key that was seen before. An item may have several keys, each with its message. -/
def refuseRepeated {α κ : Type} [DecidableEq κ] (keys : α → Except String (List (κ × String))) :
    (seen : List κ) → List α → Except String Unit
  | _, [] => .ok ()
  | seen, item :: rest =>
    match keys item with
    | .error e => .error e
    | .ok found =>
      match refuseKeys seen found with
      | .error e => .error e
      | .ok seen => refuseRepeated keys seen rest
where
  refuseKeys : (seen : List κ) → List (κ × String) → Except String (List κ)
    | seen, [] => .ok seen
    | seen, (key, message) :: rest => if key ∈ seen then .error message else refuseKeys (key :: seen) rest

abbrev Identity := List String

def identity (entry : SymbolEntry) : Identity :=
  [toAsciiLowercase (displayKind entry.kind), toAsciiLowercase entry.namespace_, toAsciiLowercase entry.name]

/-- The name and the number of a field or an enum value. -/
inductive NameOrNumber where
  | name (folded : String)
  | number (n : Int32)
  deriving DecidableEq

def contract (method : MethodSymbol) : List (String × Bool) :=
  method.parameters.map fun parameter => (normalizeName parameter.typeName, parameter.isVar)

def validateEntrySurface (label : String) (entry : SymbolEntry) : Except String Unit := do
  let object := s!"{displayKind entry.kind} {namespaceLabel entry.namespace_}.{entry.name}"
  refuseRepeated (fun field : FieldSymbol => .ok
    [(NameOrNumber.name (toAsciiLowercase field.name), s!"{label} {object} contains duplicate field name '{field.name}'"),
      (.number field.id, s!"{label} {object} contains duplicate field ID {field.id}")]) [] entry.fields
  refuseRepeated (fun method : MethodSymbol => .ok
    [((toAsciiLowercase method.name, contract method),
      s!"{label} {object} contains duplicate public procedure contract '{methodLabel method}'")]) []
    (entry.methods.filter fun method => !method.isLocal)
  refuseRepeated (fun value : EnumValueSymbol => .ok
    [(NameOrNumber.name (toAsciiLowercase value.name), s!"{label} {object} contains duplicate enum value name '{value.name}'"),
      (.number value.ordinal, s!"{label} {object} contains duplicate enum ordinal {value.ordinal}")]) [] entry.enumValues
  refuseRepeated (fun permission : PermissionSymbol =>
    if permission.permissionObject ∉ [0, 1, 3, 5, 6, 8, 9, 10] then
      .error s!"{label} {object} contains unknown permission object code {permission.permissionObject}"
    else if permission.value < 0 ∨ 1023 < permission.value then
      .error s!"{label} {object} contains invalid permission mask {permission.value}"
    else .ok
      [((permission.permissionObject, permission.objectId),
        s!"{label} {object} contains duplicate permission target {permission.permissionObject}:{permission.objectId}")])
    [] entry.permissions

theorem lawful_identity : LawfulBEq Identity := inferInstance

attribute [local instance] lawful_identity

/-- The loop over the objects. -/
def validateObjects (label : String) : (seen : List Identity) → List SymbolEntry → Except String Unit
  | _, [] => .ok ()
  | seen, entry :: rest =>
      if identity entry ∈ seen then
        .error (s!"{label} contains duplicate public identity {displayKind entry.kind} " ++
          s!"{namespaceLabel entry.namespace_}.{entry.name}")
      else
        match validateEntrySurface label entry with
        | .error e => .error e
        | .ok () => validateObjects label (identity entry :: seen) rest

def validateUniqueSurface (label : String) (entries : List SymbolEntry) : Except String Unit :=
  validateObjects label [] (entries.filter fun entry => !entry.synthetic)

/-! ## Members -/

/-- Collecting pairs into a B-tree map. The last value of a key stays. -/
def collectMap {κ ν : Type} [Ord κ] [Std.TransOrd κ] (pairs : List (κ × ν)) : OrderedMap κ ν :=
  pairs.foldl (fun map pair => map.insert pair.1 pair.2) .empty

def buildMap (entries : List SymbolEntry) : OrderedMap Identity SymbolEntry :=
  collectMap ((entries.filter fun entry => !entry.synthetic).map fun entry => (identity entry, entry))

/-- All controls at any depth. -/
def allControls : List ControlSymbol → List ControlSymbol
  | [] => []
  | control :: rest => (control :: nestedControls control) ++ allControls rest
where
  nestedControls : ControlSymbol → List ControlSymbol
    | ⟨_, _, children⟩ => allControls children

/-- The loop over a stack of controls, the last one on top. Each turn takes one control. -/
def controlNamesLoop : (turns : Nat) → (names : OrderedMap String String) → (stack : List ControlSymbol) → OrderedMap String String
  | 0, names, _ => names
  | _ + 1, names, [] => names
  | turns + 1, names, control :: stack =>
      let names := if (Runtime.trim control.name) = "" then names else names.insert (normalizeName control.name) control.name
      controlNamesLoop turns names (control.children.reverse ++ stack)

def controlNames (controls : List ControlSymbol) : OrderedMap String String :=
  controlNamesLoop (allControls controls).length .empty controls.reverse

def parameterContractMatches (old new : MethodSymbol) : Bool :=
  old.parameters.length = new.parameters.length ∧
    (old.parameters.zip new.parameters).all fun (old, new) =>
      normalizeName old.typeName = normalizeName new.typeName ∧ old.isVar = new.isVar

/-! ## The comparison -/

/-- A change of an object or of one of its members. -/
def changeOf (old : SymbolEntry) (kind : BreakingChangeKind) (member : Option String) (description : String) : BreakingChange :=
  ⟨kind, old.name, old.kind, member, description, true⟩

def checkIncompatibleSignature (object : SymbolEntry) (old new : MethodSymbol) : List BreakingChange :=
  if old.parameters.length ≠ new.parameters.length then
    [changeOf object .signatureChanged (some old.name)
      s!"Procedure '{old.name}' parameter count changed from {old.parameters.length} to {new.parameters.length}"]
  else (old.parameters.zip new.parameters).zipIdx.flatMap fun ((oldParameter, newParameter), index) =>
    (if normalizeName oldParameter.typeName ≠ normalizeName newParameter.typeName then
      [changeOf object .signatureChanged (some old.name)
        (s!"Parameter {index + 1} type changed from '{oldParameter.typeName}' to '{newParameter.typeName}' in '{old.name}'")]
    else []) ++
    (if oldParameter.isVar ≠ newParameter.isVar then
      let modifier (isVar : Bool) := if isVar then "var" else "non-var"
      [changeOf object .signatureChanged (some old.name)
        (s!"Parameter {index + 1} '{oldParameter.name}' modifier changed from {modifier oldParameter.isVar} to " ++
          s!"{modifier newParameter.isVar} in '{old.name}'")]
    else [])

section Unicode

variable [CaseMapping]

def checkMatchingSignature (object : SymbolEntry) (old new : MethodSymbol) : List BreakingChange :=
  let oldType := old.returnType.getD "(none)"
  let newType := new.returnType.getD "(none)"
  (if old.returnType.map toLowercase ≠ new.returnType.map toLowercase then
    [changeOf object .returnTypeChanged (some old.name)
      s!"Return type of '{old.name}' changed from '{oldType}' to '{newType}'"]
  else []) ++
  ((old.parameters.zip new.parameters).zipIdx.flatMap fun ((oldParameter, newParameter), index) =>
    if !eqIgnoreAsciiCase oldParameter.name newParameter.name then
      [{ changeOf object .parameterRenamed (some old.name)
          (s!"Parameter {index + 1} in '{old.name}' was renamed from '{oldParameter.name}' to '{newParameter.name}'") with
        isBreaking := false }]
    else [])

def diffMethod (old : SymbolEntry) (currentPublic : List MethodSymbol) (oldMethod : MethodSymbol) : List BreakingChange :=
  let sameName := currentPublic.filter fun method => eqIgnoreAsciiCase method.name oldMethod.name
  match sameName.find? fun method => parameterContractMatches oldMethod method with
  | some newMethod => checkMatchingSignature old oldMethod newMethod
  | none =>
    match sameName with
    | [] =>
        [changeOf old .procedureRemoved (some oldMethod.name)
          s!"Public procedure '{methodLabel oldMethod}' was removed from '{old.name}'"]
    | [newMethod] => checkIncompatibleSignature old oldMethod newMethod
    | _ =>
        [changeOf old .signatureChanged (some oldMethod.name)
          s!"No current overload of '{oldMethod.name}' preserves baseline signature {methodLabel oldMethod}"]

def fieldMap (entry : SymbolEntry) : OrderedMap String FieldSymbol :=
  collectMap (entry.fields.map fun f => (toLowercase f.name, f))

def diffField (old new : SymbolEntry) (nameLower : String) (oldField : FieldSymbol) : List BreakingChange :=
  match (fieldMap new).get? nameLower with
  | none =>
    match new.fields.find? fun field => field.id = oldField.id with
    | some renamed =>
        [changeOf old .fieldRenamed (some oldField.name)
          s!"Field '{oldField.name}' (ID {oldField.id}) in '{old.name}' was renamed to '{renamed.name}'"]
    | none =>
        [changeOf old .fieldRemoved (some oldField.name) s!"Field '{oldField.name}' was removed from '{old.name}'"]
  | some newField =>
    (if oldField.id ≠ newField.id then
      [changeOf old .fieldIdChanged (some oldField.name)
        s!"Field '{oldField.name}' in '{old.name}' changed ID from {oldField.id} to {newField.id}"]
    else []) ++
    (if normalizeName oldField.typeName ≠ normalizeName newField.typeName then
      [changeOf old .fieldTypeChanged (some oldField.name)
        s!"Field '{oldField.name}' in '{old.name}' changed type from '{oldField.typeName}' to '{newField.typeName}'"]
    else []) ++
    (if accessLevel oldField.properties ≠ "internal" ∧ accessLevel newField.properties = "internal" then
      [changeOf old .accessReduced (some oldField.name)
        s!"Field '{oldField.name}' in '{old.name}' access changed to Internal"]
    else [])

def diffEnumValue (old new : SymbolEntry) (oldVal : EnumValueSymbol) : List BreakingChange :=
  match new.enumValues.find? fun value => eqIgnoreAsciiCase value.name oldVal.name with
  | none =>
      [changeOf old .enumValueRemoved (some oldVal.name) s!"Enum value '{oldVal.name}' was removed from '{old.name}'"]
  | some currentValue =>
      if oldVal.ordinal ≠ currentValue.ordinal then
        [changeOf old .enumValueOrdinalChanged (some oldVal.name)
          s!"Enum value '{oldVal.name}' in '{old.name}' changed ordinal from {oldVal.ordinal} to {currentValue.ordinal}"]
      else []

def diffKey (old new : SymbolEntry) (oldKey : KeySymbol) : List BreakingChange :=
  match new.keys.find? fun key => eqIgnoreAsciiCase key.name oldKey.name with
  | none =>
      [changeOf old .keyRemoved (some oldKey.name) s!"Key '{oldKey.name}' ({keyFields oldKey}) was removed from '{old.name}'"]
  | some newKey =>
      if oldKey.fieldNames.map normalizeName ≠ newKey.fieldNames.map normalizeName then
        [changeOf old .keyFieldsChanged (some oldKey.name)
          s!"Key '{oldKey.name}' in '{old.name}' changed fields from ({keyFields oldKey}) to ({keyFields newKey})"]
      else []

def diffKeys (old new : SymbolEntry) : List BreakingChange := old.keys.flatMap (diffKey old new)

def diffControls (old new : SymbolEntry) : List BreakingChange :=
  (controlNames old.controls).entries.flatMap fun (normalized, name) =>
    if (controlNames new.controls).contains normalized then []
    else [changeOf old .controlRemoved (some name) s!"Control '{name}' was removed from '{old.name}'"]

def diffPermission (old new : SymbolEntry) (oldPermission : PermissionSymbol) : List BreakingChange :=
  let current := new.permissions.find? fun permission =>
    permission.permissionObject = oldPermission.permissionObject ∧ permission.objectId = oldPermission.objectId
  if current.all fun permission => permission.value &&& oldPermission.value ≠ oldPermission.value then
    [changeOf old .permissionReduced (some s!"{oldPermission.permissionObject}:{oldPermission.objectId}")
      (s!"Permission grant {oldPermission.permissionObject}:{oldPermission.objectId} in '{old.name}' was removed or " ++
        s!"reduced from mask {oldPermission.value}")]
  else []

def diffInterface (old new : SymbolEntry) (interface : String) : List BreakingChange :=
  if normalizeName interface ∉ new.implements.map normalizeName then
    [changeOf old .interfaceRemoved (some interface) s!"Object '{old.name}' no longer implements interface '{interface}'"]
  else []

def diffObject (old new : SymbolEntry) : List BreakingChange :=
  let oldBase := old.extends_.getD "(none)"
  let newBase := new.extends_.getD "(none)"
  (if old.id ≠ new.id then
    [changeOf old .objectIdChanged none s!"Object '{old.name}' ID changed from {old.id} to {new.id}"]
  else []) ++
  (if normalizeOptionalName old.extends_ ≠ normalizeOptionalName new.extends_ then
    [changeOf old .baseObjectChanged none s!"Base object of '{old.name}' changed from '{oldBase}' to '{newBase}'"]
  else []) ++
  old.implements.flatMap (diffInterface old new) ++
  (if accessLevel old.properties ≠ "internal" ∧ accessLevel new.properties = "internal" then
    [changeOf old .accessReduced none s!"Object '{old.name}' access changed to Internal"]
  else []) ++
  (old.methods.filter fun method => !method.isLocal).flatMap (diffMethod old (new.methods.filter fun method => !method.isLocal)) ++
  (fieldMap old).entries.flatMap (fun (nameLower, oldField) => diffField old new nameLower oldField) ++
  old.enumValues.flatMap (diffEnumValue old new) ++
  diffKeys old new ++
  diffControls old new ++
  old.permissions.flatMap (diffPermission old new)

/-- What is reported of an object that the current surface does not name. -/
def missingObject (current : List SymbolEntry) (oldEntry : SymbolEntry) : BreakingChange :=
  let sameName := current.filter fun candidate =>
    !candidate.synthetic ∧ candidate.kind = oldEntry.kind ∧ eqIgnoreAsciiCase candidate.name oldEntry.name
  let removed := changeOf oldEntry .objectRemoved none s!"Object '{oldEntry.name}' ({displayKind oldEntry.kind}) was removed"
  match sameName with
  | [only] =>
      if !eqIgnoreAsciiCase only.namespace_ oldEntry.namespace_ then
        changeOf oldEntry .namespaceChanged none
          (s!"Object '{oldEntry.name}' moved from namespace '{namespaceLabel oldEntry.namespace_}' to " ++
            s!"'{namespaceLabel only.namespace_}'")
      else removed
  | _ => removed

/-- The changes are sorted by the object, the member and the description. -/
def changeKey (change : BreakingChange) : List (List String) :=
  [[toAsciiLowercase change.object], change.member.toList, [change.description]]

def analyzeBreakingChanges (baseline current : List SymbolEntry) : List BreakingChange :=
  sortBy changeKey ((buildMap baseline).entries.flatMap fun (key, oldEntry) =>
    match (buildMap current).get? key with
    | some newEntry => diffObject oldEntry newEntry
    | none => [missingObject current oldEntry])

def analyzeBreakingChangesChecked (baseline current : List SymbolEntry) : Except String (List BreakingChange) := do
  validateUniqueSurface "baseline" baseline
  validateUniqueSurface "current" current
  return analyzeBreakingChanges baseline current

end Unicode

end AlLanguage.Analysis
