import AlLanguage.Library.IndexMap
import AlLanguage.Library.Substrings
import AlLanguage.Symbols.Model
import Mathlib.Data.Finset.Basic

/-!
# The insight graph

- Nodes and edges in the order of their indices, an index of the nodes by key, and the set of the edges.
- An edge that is removed leaves its place to the last edge.
- Subscribers are connected to the events of the first kind of object that has any.
-/

namespace AlLanguage.Insight

open Library Symbols
open AlLanguage.Runtime (CaseMapping toLowercase)

inductive EventNodeType where
  | integration
  | business
  deriving DecidableEq

inductive InsightNode where
  | object (kind : ObjectKind) (id : Int32) (name package : String)
  | procedure (objectKind : ObjectKind) (objectName name : String) (isLocal : Bool)
  | event (objectKind : ObjectKind) (objectName name : String) (eventType : EventNodeType)
  /-- The target kind is the one that the attribute states. -/
  | subscriber (objectKind : ObjectKind) (objectName name : String) (targetKind : Option ObjectKind)
      (targetObject targetEvent : String)
  deriving DecidableEq

inductive InsightEdge where
  | extends
  | calls
  | publishes
  | subscribesTo
  | contains
  | relatesTo
  | triggers
  deriving DecidableEq

/-- Kinds and names in lower case. -/
inductive NodeKey where
  | object (kind : ObjectKind) (name : String)
  | procedure (objectKind : ObjectKind) (objectName name : String)
  | event (objectKind : ObjectKind) (objectName name : String)
  | subscriber (objectKind : ObjectKind) (objectName name : String)
  deriving DecidableEq

abbrev NodeIndex := Nat

structure Edge where
  source : NodeIndex
  target : NodeIndex
  weight : InsightEdge
  deriving DecidableEq

/-- The kinds of objects that publish events, in the order in which they are searched. -/
def eventPublisherKinds : List ObjectKind :=
  [.codeunit, .table, .page, .report, .xmlPort, .query, .interface, .tableExtension, .pageExtension, .reportExtension]

structure InsightGraph where
  nodes : List InsightNode := []
  edges : List Edge := []
  index : IndexMap NodeKey (List NodeIndex) := .empty
  edgeSet : Finset Edge := ∅

/-- Two nodes of one key that are the same. Objects are told apart by their package. -/
def sameNodeIdentity : InsightNode → InsightNode → Bool
  | .object _ _ _ a, .object _ _ _ b => Runtime.eqIgnoreAsciiCase a b
  | .procedure .., .procedure .. | .event .., .event .. | .subscriber .., .subscriber .. => true
  | _, _ => false

/-- The graph library's iterator over the outgoing edges of a node, of which the first one is used. -/
class OutgoingEdges where
  first : List Edge → NodeIndex → Option Nat
  first_source : ∀ edges node position, first edges node = some position →
    ∃ edge, edges[position]? = some edge ∧ edge.source = node
  first_none : ∀ edges node, first edges node = none → ∀ edge ∈ edges, edge.source ≠ node

/-- The last edge takes the place of the one that is removed. -/
def swapRemove (edges : List Edge) (position : Nat) : List Edge :=
  match edges.getLast? with
  | some last => (edges.set position last).dropLast
  | none => edges

def nameOfId (kind : ObjectKind) (id : Int32) : InsightNode → Option String
  | .object k i name _ => if k = kind ∧ i = id then some name else none
  | _ => none

namespace InsightGraph

def getNodes (g : InsightGraph) (key : NodeKey) : List NodeIndex := (g.index.get? key).getD []

def getNode (g : InsightGraph) (key : NodeKey) : Option NodeIndex := (g.getNodes key).head?

def declaredBy (g : InsightGraph) (package : String) (node : NodeIndex) : Bool :=
  match g.nodes[node]? with
  | some (.object _ _ _ p) => Runtime.eqIgnoreAsciiCase p package
  | _ => false

def getNodeInPackage (g : InsightGraph) (key : NodeKey) (package : String) : Option NodeIndex :=
  ((g.getNodes key).find? (g.declaredBy package)).or (g.getNodes key).head?

def isNode (g : InsightGraph) (incoming : InsightNode) (existing : NodeIndex) : Bool :=
  (g.nodes[existing]?).any (sameNodeIdentity · incoming)

def ensureNode (g : InsightGraph) (key : NodeKey) (node : InsightNode) : NodeIndex × InsightGraph :=
  match (g.getNodes key).find? (g.isNode node) with
  | some existing => (existing, g)
  | none =>
      (g.nodes.length, { g with
        nodes := g.nodes ++ [node]
        index := g.index.insert key (g.getNodes key ++ [g.nodes.length]) })

def addEdge (g : InsightGraph) (source target : NodeIndex) (weight : InsightEdge) : InsightGraph :=
  if ⟨source, target, weight⟩ ∈ g.edgeSet then g
  else { g with edges := g.edges ++ [⟨source, target, weight⟩], edgeSet := insert ⟨source, target, weight⟩ g.edgeSet }

section Removal

variable [OutgoingEdges]

/-- One turn of the loop, until the node has no outgoing edge. -/
def removeLoop : Nat → InsightGraph → NodeIndex → InsightGraph
  | 0, g, _ => g
  | turns + 1, g, node =>
    match OutgoingEdges.first g.edges node with
    | none => g
    | some position =>
        match g.edges[position]? with
        | none => g
        | some edge =>
            removeLoop turns { g with edges := swapRemove g.edges position, edgeSet := g.edgeSet.erase edge } node

def removeEdgesFrom (g : InsightGraph) (node : NodeIndex) : InsightGraph := g.removeLoop g.edges.length node

end Removal

/-! ## Subscriptions -/

section Subscriptions

variable [CaseMapping]

/-- `str::parse::<i32>`. -/
def parseI32 (s : String) : Option Int32 :=
  let value : Option Int := match s.toList with
    | '-' :: digits => (Runtime.digitsValue digits).map fun n => -(n : Int)
    | '+' :: digits => (Runtime.digitsValue digits).map fun n => (n : Int)
    | digits => (Runtime.digitsValue digits).map fun n => (n : Int)
  (value.filter fun n => -2147483648 ≤ n ∧ n ≤ 2147483647).map Int32.ofInt

/-- The name of the first object of a kind with an id. -/
def objectNamed (g : InsightGraph) (kind : ObjectKind) (id : Int32) : Option String := g.nodes.findSome? (nameOfId kind id)

def namedTarget (g : InsightGraph) (targetKind : Option ObjectKind) (targetObject : String) : String :=
  match parseI32 (Runtime.trim targetObject) with
  | none => targetObject
  | some id =>
      let kinds := match targetKind with
        | some kind => [kind]
        | none => eventPublisherKinds
      (kinds.findSome? fun kind => g.objectNamed kind id).getD targetObject

def nameTarget (g : InsightGraph) : InsightNode → InsightNode
  | .subscriber objectKind objectName name targetKind targetObject targetEvent =>
      .subscriber objectKind objectName name targetKind (g.namedTarget targetKind targetObject) targetEvent
  | node => node

def nameNumericSubscriberTargets (g : InsightGraph) : InsightGraph := { g with nodes := g.nodes.map g.nameTarget }

structure Subscriber where
  index : NodeIndex
  targetObject : String
  targetEvent : String

/-- The object and event of a subscriber, in lower case. One without both is passed over. -/
def asSubscriber (entry : InsightNode × Nat) : Option Subscriber :=
  match entry.1 with
  | .subscriber _ _ _ _ targetObject targetEvent =>
      if targetObject.isEmpty || targetEvent.isEmpty then none
      else some ⟨entry.2, toLowercase targetObject, toLowercase targetEvent⟩
  | _ => none

def subscribers (g : InsightGraph) : List Subscriber := g.nodes.zipIdx.filterMap asSubscriber

/-- The first kind that has events of this object and name. -/
def eventKind (g : InsightGraph) (object event : String) : Option ObjectKind :=
  eventPublisherKinds.find? fun kind => g.getNodes (.event kind object event) ≠ []

/-- The first kind that has an object of this name. -/
def publisherKind (g : InsightGraph) (object : String) : Option ObjectKind :=
  eventPublisherKinds.find? fun kind => (g.getNode (.object kind object)).isSome

def displayObject (g : InsightGraph) (node : NodeIndex) (lower : String) : String :=
  match g.nodes[node]? with
  | some (.object _ _ name _) => name
  | _ => lower

def displayEvent (g : InsightGraph) (node : NodeIndex) (lower : String) : String :=
  match g.nodes[node]? with
  | some (.subscriber _ _ _ _ _ targetEvent) => targetEvent
  | _ => lower

/-- An event that no source declares is added under its object. -/
def synthesize (g : InsightGraph) (subscriber : Subscriber) : InsightGraph :=
  match g.publisherKind subscriber.targetObject with
  | none => g
  | some kind =>
      match g.getNode (.object kind subscriber.targetObject) with
      | none => g
      | some object =>
          let (event, g) := g.ensureNode (.event kind subscriber.targetObject subscriber.targetEvent)
            (.event kind (g.displayObject object subscriber.targetObject) (g.displayEvent subscriber.index subscriber.targetEvent)
              .integration)
          (g.addEdge object event .publishes).addEdge subscriber.index event .subscribesTo

def connect (g : InsightGraph) (subscriber : Subscriber) : InsightGraph :=
  match g.eventKind subscriber.targetObject subscriber.targetEvent with
  | some kind =>
      (g.getNodes (.event kind subscriber.targetObject subscriber.targetEvent)).foldl
        (fun g event => g.addEdge subscriber.index event .subscribesTo) g
  | none => g.synthesize subscriber

def resolveSubscriberEdges (g : InsightGraph) : InsightGraph :=
  let named := g.nameNumericSubscriberTargets
  named.subscribers.foldl connect named

end Subscriptions

end InsightGraph

end AlLanguage.Insight
