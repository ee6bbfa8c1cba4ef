import AlLanguage.Symbols.Index

/-!
# Composed objects

An object with what its extensions add.
-/

namespace AlLanguage.Symbols

open Library AlLanguage.Runtime

def isWorkspacePackage (package : String) : Bool :=
  eqIgnoreAsciiCase package "workspace" || eqIgnoreAsciiCase package "(workspace)"

section Compose

variable [CaseMapping]

/-- Only the first of several items with one number or one name stays. -/
def dropConflicting {α : Type} (number : α → Int32) (name : α → String) : List α → List Int32 → List String → List α
  | [], _, _ => []
  | item :: rest, seenNumbers, seenNames =>
    let folded := toLowercase (name item)
    if number item ∈ seenNumbers ∨ folded ∈ seenNames then dropConflicting number name rest seenNumbers seenNames
    else item :: dropConflicting number name rest (number item :: seenNumbers) (folded :: seenNames)

def compose (base : Arc) (extensions : List Arc) : ComposedObject :=
  let allFields := base.value.fields ++ extensions.flatMap (·.value.fields)
  let allMethods := base.value.methods ++ extensions.flatMap (·.value.methods)
  let allControls := base.value.controls ++ extensions.flatMap (·.value.controls)
  let allEnumValues := base.value.enumValues ++ extensions.flatMap (·.value.enumValues)
  {
    base
    extensions
    allFields := dropConflicting (·.id) (·.name) (allFields.insertionSort (·.id ≤ ·.id)) [] []
    allMethods
    allControls
    allEnumValues := dropConflicting (·.ordinal) (·.name) (allEnumValues.insertionSort (·.ordinal ≤ ·.ordinal)) [] [] }

/-- The order of candidates for a base: the workspace first, then by package and number. -/
def compareCandidates (a b : Arc) : Ordering :=
  (compare (isWorkspacePackage b.value.package) (isWorkspacePackage a.value.package)).then
    ((compare (foldName a.value.package) (foldName b.value.package)).then (compare a.value.id b.value.id))

variable [LanguageData]

/-- The composition out of the entries with the name and of those that extend it. -/
def composeFrom (kind : ObjectKind) (named extending : List Arc) : Option ComposedObject :=
  if kind.isExtension then none
  else
    let candidates := (named.filter (·.value.kind = kind)).insertionSort fun a b => compareCandidates a b ≠ .gt
    match candidates with
    | [] => none
    | base :: _ => some (compose base (extending.filter (·.value.kind.baseKind = some kind)))

def getComposed (index : SymbolIndex) (kind : ObjectKind) (name : String) : Option ComposedObject :=
  composeFrom kind (index.getByName name) (index.getExtensionsOf name)

end Compose

end AlLanguage.Symbols
