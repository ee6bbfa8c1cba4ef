import AlLanguage.Runtime.Text

/-!
# Symbols of a package

What the reader of a package hands on, and what the index and its disk cache hold.
-/

namespace AlLanguage.Symbols

open AlLanguage.Runtime

inductive ObjectKind where
  | table
  | tableExtension
  | page
  | pageExtension
  | codeunit
  | report
  | reportExtension
  | xmlPort
  | query
  | enum
  | enumExtension
  | interface
  | permissionSet
  | permissionSetExtension
  | profile
  | pageCustomization
  | controlAddIn
  | entitlement
  | profileExtension
  | dotNet
  deriving DecidableEq

namespace ObjectKind

instance : Ord ObjectKind := ⟨fun a b => compare a.ctorIdx b.ctorIdx⟩

instance : Std.TransOrd ObjectKind :=
  inferInstanceAs (Std.TransCmp (compareOn ObjectKind.ctorIdx))

instance : Std.LawfulEqOrd ObjectKind where
  eq_of_compare {a b} same := by
    have index : a.ctorIdx = b.ctorIdx := Nat.compare_eq_eq.mp same
    revert index
    cases a <;> cases b <;> first | exact fun _ => rfl | exact fun index => absurd index (by decide)

def alKeyword : ObjectKind → String
  | table => "table"
  | tableExtension => "tableextension"
  | page => "page"
  | pageExtension => "pageextension"
  | codeunit => "codeunit"
  | report => "report"
  | reportExtension => "reportextension"
  | xmlPort => "xmlport"
  | query => "query"
  | enum => "enum"
  | enumExtension => "enumextension"
  | interface => "interface"
  | permissionSet => "permissionset"
  | permissionSetExtension => "permissionsetextension"
  | profile => "profile"
  | pageCustomization => "pagecustomization"
  | controlAddIn => "controladdin"
  | entitlement => "entitlement"
  | profileExtension => "profileextension"
  | dotNet => "dotnet"

def requiresNumericId : ObjectKind → Bool
  | table | tableExtension | page | pageExtension | codeunit | report | reportExtension | xmlPort | query | enum
  | enumExtension | permissionSet | permissionSetExtension => true
  | interface | profile | pageCustomization | controlAddIn | entitlement | profileExtension | dotNet => false

/-- `str::parse::<ObjectKind>`. -/
def parse [CaseMapping] (s : String) : Option ObjectKind :=
  match toLowercase s with
  | "table" => some table
  | "tableextension" | "table_extension" | "table-extension" => some tableExtension
  | "page" => some page
  | "pageextension" | "page_extension" | "page-extension" => some pageExtension
  | "codeunit" => some codeunit
  | "report" => some report
  | "reportextension" | "report_extension" | "report-extension" => some reportExtension
  | "xmlport" => some xmlPort
  | "query" => some query
  | "enum" => some enum
  | "enumextension" | "enum_extension" | "enum-extension" => some enumExtension
  | "interface" => some interface
  | "permissionset" | "permission_set" | "permission-set" => some permissionSet
  | "permissionsetextension" | "permission_set_extension" | "permission-set-extension" => some permissionSetExtension
  | "profile" => some profile
  | "pagecustomization" | "page_customization" | "page-customization" => some pageCustomization
  | "controladdin" | "control_addin" | "control-addin" => some controlAddIn
  | "entitlement" => some entitlement
  | "profileextension" | "profile_extension" | "profile-extension" => some profileExtension
  | "dotnet" => some dotNet
  | _ => none

end ObjectKind

/-- The object types of the language data, which come with the grammar. -/
structure ObjectType where
  keyword : String
  extensions : List String

class LanguageData where
  objectTypes : List ObjectType

namespace ObjectKind

variable [CaseMapping] [LanguageData]

def baseKind (kind : ObjectKind) : Option ObjectKind :=
  let kw := kind.alKeyword
  (LanguageData.objectTypes.find? fun ot => ot.extensions.any fun e => eqIgnoreAsciiCase e kw).bind fun ot =>
    parse ot.keyword

def isExtension (kind : ObjectKind) : Bool := kind.baseKind.isSome

end ObjectKind

structure ParameterSymbol where
  name : String
  typeName : String
  isVar : Bool

structure AttributeSymbol where
  name : String
  arguments : List String

structure MethodSymbol where
  name : String
  parameters : List ParameterSymbol
  returnType : Option String
  attributes : List AttributeSymbol
  isLocal : Bool

structure PropertyValue where
  name : String
  value : String

structure PermissionSymbol where
  permissionObject : Int32
  objectId : Int32
  value : Int32

structure KeySymbol where
  name : String
  fieldNames : List String
  properties : List PropertyValue

structure VariableSymbol where
  name : String
  typeName : String
  isProtected : Bool

structure FieldSymbol where
  id : Int32
  name : String
  typeName : String
  properties : List PropertyValue

structure ControlSymbol where
  name : String
  kind : String
  children : List ControlSymbol

structure EnumValueSymbol where
  ordinal : Int32
  name : String

structure SymbolEntry where
  kind : ObjectKind
  id : Int32
  name : String
  synthetic : Bool := false
  extends_ : Option String := none
  implements : List String := []
  package : String := ""
  namespace_ : String := ""
  methods : List MethodSymbol := []
  fields : List FieldSymbol := []
  controls : List ControlSymbol := []
  enumValues : List EnumValueSymbol := []
  keys : List KeySymbol := []
  properties : List PropertyValue := []
  permissions : List PermissionSymbol := []
  variables_ : List VariableSymbol := []

structure SymbolPackage where
  appId : String
  name : String
  publisher : String
  version : String
  objects : List SymbolEntry
  objectCount : Nat

/-- The entries of a package but the pseudo-enums that the reader adds. -/
def SymbolPackage.declaredObjectCount (objects : List SymbolEntry) : Nat :=
  (objects.filter fun entry => !entry.synthetic).length

end AlLanguage.Symbols
