import AlLanguage.Library.Groups
import AlLanguage.Symbols.Model

/-!
# The symbol index

- One map holds the entries, five others group them by a key.
- Composed objects, the event catalog, sorted names and source paths are derived and cached.
-/

namespace AlLanguage.Symbols

open Library AlLanguage.Runtime

attribute [instance] lexOrd

/-- A shared entry. Two handles are the same when their addresses are. -/
structure Arc where
  address : Nat
  value : SymbolEntry

structure IndexedEntry where
  arc : Arc
  nameKey : String
  packageKey : String

structure AppPathRecord where
  nameKey : String
  path : String

structure ComposedObject where
  base : Arc
  extensions : List Arc
  allFields : List FieldSymbol
  allMethods : List MethodSymbol
  allControls : List ControlSymbol
  allEnumValues : List EnumValueSymbol

inductive EventType where
  | integration
  | business
  deriving DecidableEq

structure PublisherRef where
  object : Arc
  methodIndex : Nat
  eventType : EventType

structure SubscriberRef where
  object : Arc
  methodIndex : Nat
  targetType : String
  targetName : String
  targetEvent : String

structure EventCatalog where
  publishers : List PublisherRef := []
  subscribers : List SubscriberRef := []

structure EventCatalogCache where
  generation : Nat
  catalog : EventCatalog

structure SymbolIndex where
  byName : OrderedMap String (List Arc) := .empty
  sortedNames : Option (List String) := none
  byKindId : OrderedMap (ObjectKind × Int32) (List Arc) := .empty
  byKind : OrderedMap ObjectKind (List Arc) := .empty
  byExtends : OrderedMap String (List Arc) := .empty
  byPackage : OrderedMap String (List Arc) := .empty
  all : OrderedMap Nat IndexedEntry := .empty
  nextId : Nat := 0
  appPaths : OrderedMap String AppPathRecord := .empty
  sourcePathCache : OrderedMap (String × ObjectKind × Int32) String := .empty
  composedCache : OrderedMap (ObjectKind × String) ComposedObject := .empty
  mutation : Nat := 0
  eventCatalogCache : Option EventCatalogCache := none
  /-- The address of the next allocation. -/
  nextAddress : Nat := 0

/-- `str::to_ascii_lowercase`. -/
def toAsciiLowercase (s : String) : String := String.ofList (s.toList.map Char.toLower)

section Names

variable [CaseMapping]

def foldName (name : String) : String := toLowercase name

def packageIdentityKey (appId name : String) : String :=
  let appId := trim appId
  if appId.isEmpty then "name:" ++ foldName name else "id:" ++ toAsciiLowercase appId

/-! ## The groups -/

def nameOf (arc : Arc) : Option String := some (foldName arc.value.name)

def packageOf (arc : Arc) : Option String := some (foldName arc.value.package)

/-- Only a positive number is an object number. -/
def kindIdOf (arc : Arc) : Option (ObjectKind × Int32) :=
  if 0 < arc.value.id then some (arc.value.kind, arc.value.id) else none

def kindOf (arc : Arc) : Option ObjectKind := some arc.value.kind

def extendsOf (arc : Arc) : Option String := arc.value.extends_.map toLowercase

end Names

namespace SymbolIndex

variable [CaseMapping] (index : SymbolIndex)

def noteMutation : SymbolIndex := { index with mutation := index.mutation + 1 }

def getByName (name : String) : List Arc := (index.byName.get? (toLowercase name)).getD []

def getById (kind : ObjectKind) (id : Int32) : List Arc := (index.byKindId.get? (kind, id)).getD []

def getExtensionsOf (baseName : String) : List Arc := (index.byExtends.get? (toLowercase baseName)).getD []

def allEntries : List Arc := index.all.values.map (·.arc)

end SymbolIndex

end AlLanguage.Symbols
