import AlLanguage.Symbols.Index

/-!
# The event catalog

The publishers and subscribers of all entries.
-/

namespace AlLanguage.Symbols

open Library AlLanguage.Runtime

/-! ## Texts -/

/-- `str::parse::<i32>`. -/
def parseI32 (s : String) : Option Int32 :=
  (parseI64 s).bind fun n => if -2147483648 ≤ n ∧ n ≤ 2147483647 then some n.toInt32 else none

def stripPrefix (c : Char) : List Char → List Char
  | head :: rest => if head = c then rest else head :: rest
  | [] => []

def stripSuffix (c : Char) (chars : List Char) : List Char :=
  if chars.getLast? = some c then chars.dropLast else chars

def cleanQuotes (s : String) : String :=
  String.ofList (stripSuffix '\'' (stripPrefix '\'' (stripSuffix '"' (stripPrefix '"' (trim s).toList))))

/-- What follows the first double colon. -/
def afterFirstColons : List Char → Option (List Char)
  | ':' :: ':' :: rest => some rest
  | _ :: rest => afterFirstColons rest
  | [] => none

/-- What follows the last double colon. -/
def afterLastColons : List Char → Option (List Char)
  | [] => none
  | c :: rest =>
    match afterLastColons rest with
    | some found => some found
    | none => if c = ':' ∧ rest.head? = some ':' then some rest.tail else none

def parseSubscriberArgs (arguments : List String) : String × String × String :=
  let targetType := (arguments[0]?.map trim).getD ""
  let targetName := (arguments[1]?.map fun s =>
    let cleaned := trim s
    match afterFirstColons cleaned.toList with
    | some rest => cleanQuotes (String.ofList rest)
    | none => cleanQuotes cleaned).getD ""
  let targetEvent := (arguments[2]?.map fun s => cleanQuotes (trim s)).getD ""
  (targetType, targetName, targetEvent)

/-! ## The catalog -/

/-- The order of publishers and of subscribers. -/
def eventOrder (object object' : Arc) (methodIndex methodIndex' : Nat) : Ordering :=
  (compare object.value.name object'.value.name).then
    ((compare object.value.kind object'.value.kind).then
      ((compare object.value.id object'.value.id).then (compare methodIndex methodIndex')))

variable [CaseMapping]

def publisherNameForId (index : SymbolIndex) (targetType target : String) : Option String := do
  let id ← parseI32 (trim target)
  let kindText := (afterLastColons targetType.toList).elim targetType String.ofList
  let kind ← ObjectKind.parse (trim kindText)
  (index.getById kind id).head?.map (·.value.name)

def addAttribute (index : SymbolIndex) (object : Arc) (methodIndex : Nat) (catalog : EventCatalog)
    (attr : AttributeSymbol) : EventCatalog :=
  if eqIgnoreAsciiCase attr.name "IntegrationEvent" then
    { catalog with publishers := catalog.publishers ++ [⟨object, methodIndex, .integration⟩] }
  else if eqIgnoreAsciiCase attr.name "BusinessEvent" then
    { catalog with publishers := catalog.publishers ++ [⟨object, methodIndex, .business⟩] }
  else if eqIgnoreAsciiCase attr.name "EventSubscriber" then
    let (targetType, targetName, targetEvent) := parseSubscriberArgs attr.arguments
    let targetName := (publisherNameForId index targetType targetName).getD targetName
    { catalog with subscribers := catalog.subscribers ++ [⟨object, methodIndex, targetType, targetName, targetEvent⟩] }
  else catalog

/-- The events that one entry declares. -/
def addEvents (index : SymbolIndex) (catalog : EventCatalog) (object : Arc) : EventCatalog :=
  object.value.methods.zipIdx.foldl (fun catalog (method, methodIndex) =>
    method.attributes.foldl (addAttribute index object methodIndex) catalog) catalog

def EventCatalog.sorted (catalog : EventCatalog) : EventCatalog where
  publishers := catalog.publishers.insertionSort fun a b => eventOrder a.object b.object a.methodIndex b.methodIndex ≠ .gt
  subscribers := catalog.subscribers.insertionSort fun a b => eventOrder a.object b.object a.methodIndex b.methodIndex ≠ .gt

def buildEventCatalog (index : SymbolIndex) : EventCatalog :=
  (index.allEntries.foldl (addEvents index) {}).sorted

end AlLanguage.Symbols
