import AlLanguage.Insight.CallGraph
import AlLanguage.Insight.Relations
import AlLanguage.Library.StableSort
import AlLanguage.Runtime.Tables
import AlLanguage.Symbols.Index
import Mathlib.Data.List.Lex
import Mathlib.Data.Prod.Lex

/-!
# Calls and the edges they give

- The calls of a procedure are resolved against the nodes of the insight graph and the objects of the symbol index.
- The objects with many calls are resolved first. A later pass resolves what is left.
-/

namespace AlLanguage.Insight

open Library Symbols
open AlLanguage.Runtime (CaseMapping toLowercase eqIgnoreAsciiCase unquoteIdentifier)

inductive RecordOp where
  | insert
  | modify
  | delete
  | validate
  | rename
  | deleteAll
  | modifyAll
  deriving DecidableEq

def RecordOp.fromMethodName [CaseMapping] (name : String) : Option RecordOp :=
  match toLowercase name with
  | "insert" => some insert
  | "modify" => some modify
  | "delete" => some delete
  | "validate" => some validate
  | "rename" => some rename
  | "deleteall" => some deleteAll
  | "modifyall" => some modifyAll
  | _ => none

inductive CallSite where
  | bareCall (name : String)
  | memberCall (object method : String)
  | recordOp (variable_ : String) (op : RecordOp) (runTrigger : Bool)
  /-- The codeunit is a literal. -/
  | codeunitRun (target : String)

/-- The calls of a body in the order of its walk, and the objects of its variables by their names in lower case. -/
structure ProcedureCalls where
  callSites : List CallSite := []
  recordVars : OrderedMap String String := .empty
  objectVars : OrderedMap String String := .empty

/-- The events of a table before and after an operation. -/
def recordOpEventNames (op : RecordOp) : List String :=
  let name := match op with
    | .insert => "Insert"
    | .modify | .modifyAll => "Modify"
    | .delete | .deleteAll => "Delete"
    | .validate => "Validate"
    | .rename => "Rename"
  ["OnBefore" ++ name ++ "Event", "OnAfter" ++ name ++ "Event"]

section Lookups

variable [CaseMapping]

namespace SymbolQueries

def getByKind (symbols : SymbolIndex) (kind : ObjectKind) : List SymbolEntry :=
  ((symbols.byKind.get? kind).getD []).map (·.value)

def getByName (symbols : SymbolIndex) (name : String) : List SymbolEntry := (symbols.getByName name).map (·.value)

def getExtensionsOf (symbols : SymbolIndex) (name : String) : List SymbolEntry := (symbols.getExtensionsOf name).map (·.value)

/-- The lower-case names of the procedures of an interface. The source keeps them in a hash set. -/
def interfaceMethodNames (symbols : SymbolIndex) (interface : String) : List String :=
  (((getByName symbols (String.ofList (trimMatches '"' interface.toList))).filter fun entry => entry.kind = .interface).flatMap
    fun entry => entry.methods.map fun m => Symbols.toAsciiLowercase m.name).dedup

end SymbolQueries

open SymbolQueries

/-- The node that holds the body of a member. -/
def callableNodeId (insight : InsightGraph) (objectKind : ObjectKind) (objectName procedureName : String) : Option NodeIndex :=
  let object := toLowercase objectName
  let member := toLowercase procedureName
  [NodeKey.subscriber objectKind object member, .event objectKind object member, .procedure objectKind object member].findSome?
    (CallGraph.nodeIdFor insight)

/-- A page of a package has the id of its source table, one of the workspace the name. -/
def sourceTableOfPage (page : SymbolEntry) (symbols : SymbolIndex) : Option String :=
  match page.properties.find? fun p => eqIgnoreAsciiCase p.name "SourceTable" with
  | none => none
  | some property =>
    match InsightGraph.parseI32 property.value with
    | some id => ((symbols.getById .table id).head?).map (·.value.name)
    | none => some property.value

/-- The objects that `this` or `Rec` can mean inside an object. -/
def selfTargets (object : String) (objectKind : ObjectKind) (objectName : String) (symbols : SymbolIndex) :
    Option (List (ObjectKind × String)) :=
  if eqIgnoreAsciiCase object "this" then some [(objectKind, objectName)]
  else if !eqIgnoreAsciiCase object "rec" then none
  else
    let find (kind : ObjectKind) (name : String) : Option SymbolEntry := (getByName symbols name).find? fun entry => entry.kind = kind
    let table : Option String := match objectKind with
      | .table => some objectName
      | .tableExtension => (find .tableExtension objectName).bind (·.extends_)
      | .page => (find .page objectName).bind fun page => sourceTableOfPage page symbols
      | .pageExtension => ((find .pageExtension objectName).bind (·.extends_)).bind fun page =>
          (find .page (unquoteIdentifier page)).bind fun page => sourceTableOfPage page symbols
      | _ => none
    table.map fun table =>
      let table := unquoteIdentifier table
      (.table, table) :: ((getExtensionsOf symbols table).filter fun entry => entry.kind = .tableExtension).map fun entry =>
        (.tableExtension, entry.name)

/-- Every codeunit that implements an interface. -/
def findInterfaceImplementors (symbols : SymbolIndex) (interfaceName : String) : List SymbolEntry :=
  (getByKind symbols .codeunit).filter fun entry =>
    entry.implements.any fun interface => eqIgnoreAsciiCase (unquoteIdentifier interface) (unquoteIdentifier interfaceName)

/-! ## Edges -/

/-- An event that is raised runs its subscribers. -/
def linkEventSubscribers (caller event : NodeIndex) (cg : CallGraph) : CallGraph :=
  (cg.subscribersOf event).foldl (fun cg subscriber => cg.addIndirectCall caller subscriber) cg

/-- A call of the member of an object, which can be a procedure or an event. -/
def linkMember (insight : InsightGraph) (caller : NodeIndex) (method : String) (cg : CallGraph) (target : ObjectKind × String) : CallGraph :=
  let name := toLowercase target.2
  let cg := match CallGraph.nodeIdFor insight (.procedure target.1 name method) with
    | some callee => cg.addDirectCall caller callee
    | none => cg
  match CallGraph.nodeIdFor insight (.event target.1 name method) with
  | some event => linkEventSubscribers caller event (cg.addDirectCall caller event)
  | none => cg

/-- An indirect call of a procedure, if there is one. -/
def linkIndirect (insight : InsightGraph) (caller : NodeIndex) (cg : CallGraph) (key : NodeKey) : CallGraph :=
  match CallGraph.nodeIdFor insight key with
  | some callee => cg.addIndirectCall caller callee
  | none => cg

def linkRecordOpEvents (caller : NodeIndex) (table : String) (op : RecordOp) (insight : InsightGraph) (cg : CallGraph) : CallGraph :=
  (recordOpEventNames op).foldl (fun cg name =>
    match CallGraph.nodeIdFor insight (.event .table (toLowercase table) (toLowercase name)) with
    | some event => linkEventSubscribers caller event (cg.addTrigger caller event)
    | none => cg) cg

variable (calls : ProcedureCalls) (objectKind : ObjectKind) (objectName : String) (symbols : SymbolIndex) (insight : InsightGraph)

/-- The table that a record variable stands for. -/
def tableOfVariable (name : String) : Option String :=
  match calls.recordVars.get? (toLowercase name) with
  | some table => some table
  | none => if objectKind = .table ∧ (eqIgnoreAsciiCase name "Rec" ∨ eqIgnoreAsciiCase name "xRec") then some objectName else none

def resolveSite (caller : NodeIndex) (cg : CallGraph) : CallSite → CallGraph
  | .bareCall name =>
    match CallGraph.nodeIdFor insight (.procedure objectKind (toLowercase objectName) (toLowercase name)) with
    | some callee => cg.addDirectCall caller callee
    | none =>
      match CallGraph.nodeIdFor insight (.event objectKind (toLowercase objectName) (toLowercase name)) with
      | some event => linkEventSubscribers caller event (cg.addDirectCall caller event)
      | none =>
        -- a bare record method is called on the table itself
        match if objectKind = .table then RecordOp.fromMethodName name else none with
        | some op => linkRecordOpEvents caller objectName op insight cg
        | none => cg
  | .memberCall object method =>
    match selfTargets object objectKind objectName symbols with
    | some targets => targets.foldl (linkMember insight caller (toLowercase method)) cg
    | none =>
        let resolved := (calls.objectVars.get? (toLowercase object)).getD object
        let entries := getByName symbols resolved
        let cg := (entries.map fun entry => (entry.kind, entry.name)).foldl (linkMember insight caller (toLowercase method)) cg
        if entries.any fun entry => entry.kind = .interface then
          ((findInterfaceImplementors symbols resolved).map fun entry =>
            NodeKey.procedure entry.kind (toLowercase entry.name) (toLowercase method)).foldl (linkIndirect insight caller) cg
        else cg
  | .recordOp name op _ =>
    match tableOfVariable calls objectKind objectName name with
    | some table => linkRecordOpEvents caller table op insight cg
    | none => cg
  | .codeunitRun target => linkIndirect insight caller cg (.procedure .codeunit (toLowercase target) "onrun")

def resolveCallsFrom (caller : NodeIndex) (cg : CallGraph) : CallGraph :=
  calls.callSites.foldl (resolveSite calls objectKind objectName symbols insight caller) cg

def resolveProcedureCalls (procedureName : String) (cg : CallGraph) : CallGraph :=
  match callableNodeId insight objectKind objectName procedureName with
  | none => cg
  | some caller => resolveCallsFrom calls objectKind objectName symbols insight caller cg

/-- The object is the caller of the calls in the heads of its sections. -/
def resolveObjectHeadCalls (cg : CallGraph) : CallGraph :=
  if calls.callSites.isEmpty then cg
  else
    match CallGraph.nodeIdFor insight (.object objectKind (toLowercase objectName)) with
    | none => cg
    | some caller => resolveCallsFrom calls objectKind objectName symbols insight caller cg

end Lookups

/-! ## Summarized files -/

structure ProcedureDecl where
  name : String

structure ObjectSummary where
  kind : String
  name : String
  startByte : Nat
  callSuffixes : Nat
  procedures : List ProcedureDecl
  /-- The calls of every declaration of a name, by the name in lower case. -/
  calls : OrderedMap String (List ProcedureCalls)
  headCalls : ProcedureCalls := {}

/-- The components of a path. -/
abbrev Path := List String

structure SummarizedFile where
  path : Path
  objects : List ObjectSummary

inductive SourceGraphError where
  | invalidObjectKind (path : Path) (kind : String)
  | missingCallableNode (path : Path) (kind : ObjectKind) (object member : String)
  deriving DecidableEq

abbrev Placed := Path × ObjectSummary

/-- The objects of all files by path and then by position. -/
def summarizedObjects (files : List SummarizedFile) : List Placed :=
  sortBy (fun placed : Placed => toLex (placed.1, placed.2.startByte)) (files.flatMap fun file => file.objects.map fun object => (file.path, object))

/-- The fanout from which objects are resolved eagerly: 5, or less where the eightieth percentile is less. -/
def tier1ThresholdOf (scores : List Nat) : Nat :=
  if scores.isEmpty then 5
  else
    let sorted := scores.insertionSort (· ≤ ·)
    max 1 (min 5 ((sorted[sorted.length * 8 / 10]?).getD 5))

section Passes

variable [CaseMapping] (symbols : SymbolIndex) (insight : InsightGraph)

/-- One procedure, unless it needs no resolution. -/
def resolveDecl (needs : EdgeResolutionState → Bool) (path : Path) (object : ObjectSummary) (kind : ObjectKind)
    (state : Nat × CallGraph) (decl : ProcedureDecl) : Except SourceGraphError (Nat × CallGraph) :=
  match callableNodeId insight kind object.name decl.name with
  | none => .error (.missingCallableNode path kind object.name decl.name)
  | some id =>
      if needs (state.2.resolutionState id) then
        let started := state.2.setResolutionState id .resolving
        let linked := ((object.calls.get? (toLowercase decl.name)).getD []).foldl (fun cg calls =>
          resolveProcedureCalls calls kind object.name symbols insight decl.name cg) started
        .ok (state.1 + 1, linked.setResolutionState id .resolved)
      else .ok state

def resolveObject (needs : EdgeResolutionState → Bool) (state : Nat × CallGraph) (placed : Placed) :
    Except SourceGraphError (Nat × CallGraph) :=
  match ObjectKind.parse placed.2.kind with
  | none => .error (.invalidObjectKind placed.1 placed.2.kind)
  | some kind => do
      let state ← placed.2.procedures.foldlM (resolveDecl symbols insight needs placed.1 placed.2 kind) state
      pure (state.1, resolveObjectHeadCalls placed.2.headCalls kind placed.2.name symbols insight state.2)

def resolveSummaryObjects (objects : List Placed) (needs : EdgeResolutionState → Bool) (cg : CallGraph) :
    Except SourceGraphError (Nat × CallGraph) := objects.foldlM (resolveObject symbols insight needs) (0, cg)

/-- The procedures of the objects with many calls that were not resolved yet. -/
def populateSummaryCallEdges (files : List SummarizedFile) (cg : CallGraph) : Except SourceGraphError (Nat × CallGraph) :=
  let objects := summarizedObjects files
  if objects.isEmpty then .ok (0, cg)
  else
    let threshold := tier1ThresholdOf (objects.map (·.2.callSuffixes))
    resolveSummaryObjects symbols insight (objects.filter fun placed => threshold ≤ placed.2.callSuffixes) (· = .unresolved) cg

def resolveAllSummaryCallEdges (files : List SummarizedFile) (cg : CallGraph) : Except SourceGraphError (Nat × CallGraph) :=
  resolveSummaryObjects symbols insight (summarizedObjects files) (· ≠ .resolved) cg

/-- The procedures of interfaces reach those of the codeunits that implement them. -/
def linkInterfaceImplementers (cg : CallGraph) : CallGraph :=
  (SymbolQueries.getByKind symbols .codeunit).foldl (fun cg entry =>
    entry.implements.foldl (fun cg interface =>
      let interface := unquoteIdentifier interface
      match CallGraph.nodeIdFor insight (.object .interface (toLowercase interface)) with
      | none => cg
      | some source => ((SymbolQueries.interfaceMethodNames symbols interface).map fun method =>
          NodeKey.procedure .codeunit (toLowercase entry.name) method).foldl (linkIndirect insight source) cg) cg) cg

end Passes

end AlLanguage.Insight
