import AlLanguage.Insight.Graph
import AlLanguage.Insight.Relations

/-!
# Building the graph from symbols

Objects and their members first, then the relations between them.
-/

namespace AlLanguage.Insight

open Library Symbols
open AlLanguage.Runtime (CaseMapping toLowercase)

/-! ## Attributes -/

def isAttr (attr : AttributeSymbol) (name : String) : Bool := Runtime.eqIgnoreAsciiCase (Runtime.trim attr.name) name

def stripQuote (c : Char) (s : Text) : Text :=
  let s := if s.head? = some c then s.tail else s
  if s.getLast? = some c then s.dropLast else s

def cleanQuotes (s : Text) : String := String.ofList (stripQuote (Char.ofNat 39) (stripQuote '"' (trimText s)))

/-- What follows the first double colon, or the whole text. -/
def behindColons (s : Text) : Text :=
  match Substrings.find "::".toList s with
  | some position => s.drop (position + 2)
  | none => s

structure SubscriberTarget where
  kind : Option ObjectKind := none
  object : String := ""
  event : String := ""

section Building

variable [CaseMapping]

def parseSubscriberTargetFull (attributes : List AttributeSymbol) : SubscriberTarget :=
  match attributes.find? fun attr => isAttr attr "EventSubscriber" with
  | none => {}
  | some attr => {
      kind := attr.arguments[0]?.bind fun s => ObjectKind.parse (String.ofList (behindColons (trimText s.toList)))
      object := (attr.arguments[1]?.map fun s => cleanQuotes (behindColons (trimText s.toList))).getD ""
      event := (attr.arguments[2]?.map fun s => cleanQuotes (trimText s.toList)).getD "" }

namespace InsightGraph

/-- One member of an object. -/
def addMember (entry : SymbolEntry) (object : NodeIndex) (g : InsightGraph) (method : MethodSymbol) : InsightGraph :=
  let isEvent := method.attributes.any fun a => isAttr a "IntegrationEvent" || isAttr a "BusinessEvent"
  let isSubscriber := method.attributes.any fun a => isAttr a "EventSubscriber"
  if isEvent then
    let eventType : EventNodeType :=
      if method.attributes.any fun a => isAttr a "BusinessEvent" then .business else .integration
    let (event, g) := g.ensureNode (.event entry.kind (toLowercase entry.name) (toLowercase method.name))
      (.event entry.kind entry.name method.name eventType)
    g.addEdge object event .publishes
  else if isSubscriber then
    let target := parseSubscriberTargetFull method.attributes
    let (subscriber, g) := g.ensureNode (.subscriber entry.kind (toLowercase entry.name) (toLowercase method.name))
      (.subscriber entry.kind entry.name method.name target.kind target.object target.event)
    g.addEdge object subscriber .contains
  else
    let (procedure, g) := g.ensureNode (.procedure entry.kind (toLowercase entry.name) (toLowercase method.name))
      (.procedure entry.kind entry.name method.name method.isLocal)
    g.addEdge object procedure .contains

def addObjectAndMembers (g : InsightGraph) (entry : SymbolEntry) : InsightGraph :=
  let (object, g) := g.ensureNode (.object entry.kind (toLowercase entry.name))
    (.object entry.kind entry.id entry.name entry.package)
  entry.methods.foldl (addMember entry object) g

/-- An edge between two objects of a package, when both are known. -/
def relate (package : String) (g : InsightGraph) (source target : NodeKey) (weight : InsightEdge) : InsightGraph :=
  match g.getNodeInPackage source package, g.getNodeInPackage target package with
  | some source, some target => g.addEdge source target weight
  | _, _ => g

def relateExtended [LanguageData] (g : InsightGraph) (entry : SymbolEntry) : InsightGraph :=
  match entry.extends_, entry.kind.baseKind with
  | some extendsName, some baseKind =>
      g.relate entry.package (.object entry.kind (toLowercase entry.name)) (.object baseKind (toLowercase extendsName)) .extends
  | _, _ => g

/-- The events of the first kind that has any, all of them. A stated kind is the only one tried. -/
def relateSubscriber (entry : SymbolEntry) (g : InsightGraph) (method : MethodSymbol) : InsightGraph :=
  if method.attributes.any fun a => isAttr a "EventSubscriber" then
    let target := parseSubscriberTargetFull method.attributes
    let kinds := match target.kind with
      | some kind => [kind]
      | none => eventPublisherKinds
    let event (kind : ObjectKind) : NodeKey := .event kind (toLowercase target.object) (toLowercase target.event)
    match kinds.find? fun kind => g.getNodes (event kind) ≠ [] with
    | none => g
    | some kind =>
        match g.getNode (.subscriber entry.kind (toLowercase entry.name) (toLowercase method.name)) with
        | none => g
        | some subscriber =>
            (g.getNodes (event kind)).foldl (fun g event => g.addEdge subscriber event .subscribesTo) g
  else g

variable [Alphanumeric]

/-- The tables that a field property names, in the order in which they are related. -/
def relatedTables (property : PropertyValue) : List String :=
  (if Runtime.eqIgnoreAsciiCase property.name "CalcFormula" then ((parseCalcFormula property.value).map (·.table)).toList
    else []) ++
  if Runtime.eqIgnoreAsciiCase property.name "TableRelation" ∧ property.value ≠ "" then
    extractTableRelationTables property.value
  else []

def relateTable (entry : SymbolEntry) (g : InsightGraph) (table : String) : InsightGraph :=
  g.relate entry.package (.object entry.kind (toLowercase entry.name)) (.object .table (toLowercase table)) .relatesTo

def relateFields (g : InsightGraph) (entry : SymbolEntry) : InsightGraph :=
  if entry.kind = .table ∨ entry.kind = .tableExtension then
    (entry.fields.flatMap fun field => field.properties.flatMap relatedTables).foldl (relateTable entry) g
  else g

def resolveRelationships [LanguageData] (g : InsightGraph) (entry : SymbolEntry) : InsightGraph :=
  (entry.methods.foldl (relateSubscriber entry) (g.relateExtended entry)).relateFields entry

def buildFromIndex [LanguageData] (g : InsightGraph) (allEntries : List SymbolEntry) : InsightGraph :=
  allEntries.foldl resolveRelationships (allEntries.foldl addObjectAndMembers g)

end InsightGraph

end Building

end AlLanguage.Insight
