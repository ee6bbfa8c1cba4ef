import AlLanguage.Analysis.BreakingChanges
import AlLanguage.Insight.Growth
import AlLanguage.Library.Breadth
import AlLanguage.Library.Filing
import AlLanguage.Library.Machine

/-!
# The call graph

- Edges are kept twice, with the node they leave and with the node they enter.
- The two lists of edges tell the same in every state, and `reachable_callers` finds every node with a chain of edges to a seed.
-/

open Relation (ReflTransGen)

namespace AlLanguage.Insight

open Library Symbols
open AlLanguage.Runtime (CaseMapping toLowercase)

inductive EdgeKind where
  | directCall
  | eventSubscription
  | recordTrigger
  | indirectCall
  deriving DecidableEq

inductive EdgeResolutionState where
  | unresolved
  | resolving
  | resolved
  deriving DecidableEq

structure CallEdge where
  source : NodeIndex
  target : NodeIndex
  kind : EdgeKind
  deriving DecidableEq

structure NodeInfo where
  id : NodeIndex
  nodeType : String
  name : String
  object : String

structure CallGraph where
  outgoing : IndexMap NodeIndex (List CallEdge) := .empty
  incoming : IndexMap NodeIndex (List CallEdge) := .empty
  nodes : IndexMap NodeIndex NodeInfo := .empty
  resolution : IndexMap NodeIndex EdgeResolutionState := .empty

def nodeInfo (id : NodeIndex) : InsightNode → NodeInfo
  | .object kind _ name _ => ⟨id, "object", name, Analysis.displayKind kind⟩
  | .procedure _ objectName name _ => ⟨id, "procedure", name, objectName⟩
  | .event _ objectName name _ => ⟨id, "event", name, objectName⟩
  | .subscriber _ objectName name _ _ _ => ⟨id, "subscriber", name, objectName⟩

namespace CallGraph

def calleesOf (cg : CallGraph) (node : NodeIndex) : List CallEdge := Filing.filed cg.outgoing node

def callersOf (cg : CallGraph) (node : NodeIndex) : List CallEdge := Filing.filed cg.incoming node

/-- An edge that is there is not added again. -/
def insertEdge (cg : CallGraph) (edge : CallEdge) : CallGraph :=
  if (cg.calleesOf edge.source).any fun e => e.target = edge.target ∧ e.kind = edge.kind then cg
  else { cg with
    outgoing := Filing.push cg.outgoing edge.source edge
    incoming := Filing.push cg.incoming edge.target edge }

def addDirectCall (cg : CallGraph) (source target : NodeIndex) : CallGraph := cg.insertEdge ⟨source, target, .directCall⟩

def addTrigger (cg : CallGraph) (source target : NodeIndex) : CallGraph := cg.insertEdge ⟨source, target, .recordTrigger⟩

def addIndirectCall (cg : CallGraph) (source target : NodeIndex) : CallGraph := cg.insertEdge ⟨source, target, .indirectCall⟩

/-- The edges from a node are taken from the lists of their targets too. -/
def removeEdgesFrom (cg : CallGraph) (node : NodeIndex) : CallGraph :=
  { cg with
    outgoing := cg.outgoing.erase node
    incoming := ((cg.calleesOf node).map (·.target)).foldl (Filing.retainAt fun e => e.source ≠ node) cg.incoming
    resolution := cg.resolution.erase node }

def nodeIdFor (graph : InsightGraph) (key : NodeKey) : Option NodeIndex := graph.getNode key

/-- The metadata of the nodes of a graph. -/
def describe (graph : InsightGraph) : CallGraph where
  nodes := graph.nodes.zipIdx.foldl (fun nodes entry => nodes.insert entry.2 (nodeInfo entry.2 entry.1)) .empty

def buildFromInsight (graph : InsightGraph) : CallGraph :=
  graph.edges.foldl (fun cg edge =>
    if edge.weight = .subscribesTo then cg.insertEdge ⟨edge.source, edge.target, .eventSubscription⟩ else cg) (describe graph)

def subscribersOf (cg : CallGraph) (event : NodeIndex) : List NodeIndex :=
  ((cg.callersOf event).filter fun e => e.kind = .eventSubscription).map (·.source)

def edgeCount (cg : CallGraph) : Nat := cg.outgoing.weight fun _ edges => edges.length

/-- Every node with a chain of edges to a seed. The turns of the loop are enough for every graph. -/
def reachableCallers (cg : CallGraph) (seeds : List NodeIndex) : Finset NodeIndex :=
  Breadth.search (fun node => (cg.callersOf node).map (·.source)) (seeds.length + cg.incoming.weight fun _ edges => edges.length) seeds

def info (cg : CallGraph) (id : NodeIndex) : Option NodeInfo := cg.nodes.get? id

def registerNode (cg : CallGraph) (id : NodeIndex) (info : NodeInfo) : CallGraph := { cg with nodes := cg.nodes.insert id info }

def resolutionState (cg : CallGraph) (node : NodeIndex) : EdgeResolutionState := (cg.resolution.get? node).getD .unresolved

def setResolutionState (cg : CallGraph) (node : NodeIndex) (state : EdgeResolutionState) : CallGraph :=
  { cg with resolution := cg.resolution.insert node state }

/-! ## The two lists of edges -/

variable {cg : CallGraph} {edges : Finset CallEdge}

/-- Both lists hold the edges of a set. -/
structure Records (cg : CallGraph) (edges : Finset CallEdge) : Prop where
  outgoing : Filing.Files cg.outgoing CallEdge.source edges
  incoming : Filing.Files cg.incoming CallEdge.target edges

theorem records_new : Records {} ∅ := ⟨Filing.files_empty, Filing.files_empty⟩

theorem Records.mem_calleesOf (records : cg.Records edges) (node : NodeIndex) (e : CallEdge) :
    e ∈ cg.calleesOf node ↔ e ∈ edges ∧ e.source = node := records.outgoing.mem node e

theorem Records.mem_callersOf (records : cg.Records edges) (node : NodeIndex) (e : CallEdge) :
    e ∈ cg.callersOf node ↔ e ∈ edges ∧ e.target = node := records.incoming.mem node e

/-- An edge is found by its target and kind among those of its source. -/
theorem Records.any_same (records : cg.Records edges) (edge : CallEdge) :
    ((cg.calleesOf edge.source).any fun e => e.target = edge.target ∧ e.kind = edge.kind) = true ↔ edge ∈ edges := by
  rw [List.any_eq_true]
  constructor
  · rintro ⟨e, inside, same⟩
    obtain ⟨there, source⟩ := (records.mem_calleesOf _ e).mp inside
    obtain ⟨target, kind⟩ := of_decide_eq_true same
    cases e
    cases edge
    cases source
    cases target
    cases kind
    exact there
  · intro there
    exact ⟨edge, (records.mem_calleesOf _ _).mpr ⟨there, rfl⟩, by simp⟩

theorem records_insertEdge (records : cg.Records edges) (edge : CallEdge) : (cg.insertEdge edge).Records (insert edge edges) := by
  unfold insertEdge
  split
  next there =>
    rw [Finset.insert_eq_of_mem ((records.any_same edge).mp there)]
    exact records
  next missing =>
    have fresh : edge ∉ edges := fun there => missing ((records.any_same edge).mpr there)
    exact ⟨Filing.files_push records.outgoing fresh, Filing.files_push records.incoming fresh⟩

theorem records_removeEdgesFrom (records : cg.Records edges) (node : NodeIndex) :
    (cg.removeEdgesFrom node).Records (edges.filter fun e => e.source ≠ node) where
  outgoing := Filing.files_erase records.outgoing node
  incoming := by
    have same : (edges.filter fun e => e.source ≠ node) =
        edges.filter fun e => decide (e.source ≠ node) = true ∨ e.target ∉ (cg.calleesOf node).map (·.target) := by
      apply Finset.filter_congr
      intro e there
      rw [decide_eq_true_iff]
      refine ⟨.inl, ?_⟩
      rintro (apart | unlisted) source
      · exact apart source
      · exact unlisted (List.mem_map_of_mem ((records.mem_calleesOf node e).mpr ⟨there, source⟩))
    rw [same]
    exact Filing.files_retainAts records.incoming _ _

theorem Records.edgeCount_eq (records : cg.Records edges) : cg.edgeCount = edges.card := records.outgoing.card_eq.symm

theorem Records.mem_subscribersOf (records : cg.Records edges) (event node : NodeIndex) :
    node ∈ cg.subscribersOf event ↔ ⟨node, event, .eventSubscription⟩ ∈ edges := by
  unfold subscribersOf
  rw [List.mem_map]
  constructor
  · rintro ⟨e, inside, rfl⟩
    obtain ⟨inside, kind⟩ := List.mem_filter.mp inside
    obtain ⟨there, target⟩ := (records.mem_callersOf event e).mp inside
    cases e
    cases of_decide_eq_true kind
    cases target
    exact there
  · intro there
    exact ⟨_, List.mem_filter.mpr ⟨(records.mem_callersOf event _).mpr ⟨there, rfl⟩, by simp⟩, rfl⟩

/-- One edge of the set, against its direction. -/
def CalledBy (edges : Finset CallEdge) (callee caller : NodeIndex) : Prop := ∃ e ∈ edges, e.target = callee ∧ e.source = caller

theorem Records.mem_reachableCallers (records : cg.Records edges) (seeds : List NodeIndex) (node : NodeIndex) :
    node ∈ cg.reachableCallers seeds ↔ ∃ s ∈ seeds, ReflTransGen (CalledBy edges) s node := by
  have within : ∀ a, ∀ b ∈ (cg.callersOf a).map (·.source), b ∈ edges.image (·.source) := by
    intro a b inside
    obtain ⟨e, member, rfl⟩ := List.mem_map.mp inside
    exact Finset.mem_image_of_mem _ ((records.mem_callersOf a e).mp member).1
  have enough : seeds.length + (edges.image (·.source)).card ≤ seeds.length + cg.incoming.weight fun _ edges => edges.length := by
    rw [← records.incoming.card_eq]
    exact Nat.add_le_add_left Finset.card_image_le _
  have step : (fun a b => b ∈ (cg.callersOf a).map (·.source)) = CalledBy edges := by
    funext a b
    apply propext
    rw [List.mem_map]
    constructor
    · rintro ⟨e, member, rfl⟩
      obtain ⟨there, target⟩ := (records.mem_callersOf a e).mp member
      exact ⟨e, there, target, rfl⟩
    · rintro ⟨e, there, target, rfl⟩
      exact ⟨e, (records.mem_callersOf a e).mpr ⟨there, target⟩, rfl⟩
  rw [reachableCallers, Breadth.mem_search within enough, step]

/-! ## Runs -/

inductive CallAction where
  | addDirectCall (source target : NodeIndex)
  | addTrigger (source target : NodeIndex)
  | addIndirectCall (source target : NodeIndex)
  | removeEdgesFrom (node : NodeIndex)
  | registerNode (id : NodeIndex) (info : NodeInfo)
  | setResolutionState (node : NodeIndex) (state : EdgeResolutionState)

def act (cg : CallGraph) : CallAction → CallGraph
  | .addDirectCall source target => cg.addDirectCall source target
  | .addTrigger source target => cg.addTrigger source target
  | .addIndirectCall source target => cg.addIndirectCall source target
  | .removeEdgesFrom node => cg.removeEdgesFrom node
  | .registerNode id info => cg.registerNode id info
  | .setResolutionState node state => cg.setResolutionState node state

/-- The set of edges that an action leaves. -/
def edgesAfter (edges : Finset CallEdge) : CallAction → Finset CallEdge
  | .addDirectCall source target => insert ⟨source, target, .directCall⟩ edges
  | .addTrigger source target => insert ⟨source, target, .recordTrigger⟩ edges
  | .addIndirectCall source target => insert ⟨source, target, .indirectCall⟩ edges
  | .removeEdgesFrom node => edges.filter fun e => e.source ≠ node
  | .registerNode _ _ | .setResolutionState _ _ => edges

/-- The edges of an insight graph that are subscriptions. -/
def subscriptions (graph : InsightGraph) : Finset CallEdge :=
  ((graph.edges.filter fun edge => edge.weight = .subscribesTo).map fun edge =>
    ⟨edge.source, edge.target, .eventSubscription⟩).toFinset

theorem records_act (records : cg.Records edges) (action : CallAction) : (cg.act action).Records (edgesAfter edges action) := by
  cases action with
  | addDirectCall source target => exact records_insertEdge records _
  | addTrigger source target => exact records_insertEdge records _
  | addIndirectCall source target => exact records_insertEdge records _
  | removeEdgesFrom node => exact records_removeEdgesFrom records node
  | registerNode id info => exact ⟨records.outgoing, records.incoming⟩
  | setResolutionState node state => exact ⟨records.outgoing, records.incoming⟩

theorem records_buildFromInsight (graph : InsightGraph) : (buildFromInsight graph).Records (subscriptions graph) := by
  have built (links : List Edge) : ∀ (cg : CallGraph) (edges : Finset CallEdge), cg.Records edges →
      (links.foldl (fun cg edge =>
        if edge.weight = .subscribesTo then cg.insertEdge ⟨edge.source, edge.target, .eventSubscription⟩ else cg) cg).Records
        (edges ∪ ((links.filter fun edge => edge.weight = .subscribesTo).map fun edge =>
          ⟨edge.source, edge.target, .eventSubscription⟩).toFinset) := by
    induction links with
    | nil =>
        intro cg edges records
        simpa using records
    | cons link rest ih =>
        intro cg edges records
        rw [List.foldl_cons]
        by_cases subscribes : link.weight = .subscribesTo
        · rw [if_pos subscribes, List.filter_cons_of_pos (by simpa using subscribes), List.map_cons, List.toFinset_cons,
            Finset.union_insert, ← Finset.insert_union]
          exact ih _ _ (records_insertEdge records _)
        · rw [if_neg subscribes, List.filter_cons_of_neg (by simpa using subscribes)]
          exact ih _ _ records
  have all := built graph.edges (describe graph) ∅ ⟨Filing.files_empty, Filing.files_empty⟩
  rw [Finset.empty_union] at all
  exact all

theorem records_run (actions : List CallAction) (records : cg.Records edges) :
    (Machine.run act cg actions).Records (Machine.run edgesAfter edges actions) := by
  induction actions generalizing cg edges with
  | nil => exact records
  | cons action rest ih => exact ih (records_act records action)

/-- The call graph after a run, and the set of its edges. -/
def after (graph : InsightGraph) (actions : List CallAction) : CallGraph := Machine.run act (buildFromInsight graph) actions

def edgesOf (graph : InsightGraph) (actions : List CallAction) : Finset CallEdge := Machine.run edgesAfter (subscriptions graph) actions

/-- After any run the lists of a node are the edges of the set, without repetitions, and a search backward finds every node with a
chain of edges to a seed, and no other. -/
theorem call_graph_exact (graph : InsightGraph) (actions : List CallAction) (seeds : List NodeIndex) :
    (∀ node e, e ∈ (after graph actions).calleesOf node ↔ e ∈ edgesOf graph actions ∧ e.source = node) ∧
    (∀ node e, e ∈ (after graph actions).callersOf node ↔ e ∈ edgesOf graph actions ∧ e.target = node) ∧
    (∀ node, ((after graph actions).calleesOf node).Nodup ∧ ((after graph actions).callersOf node).Nodup) ∧
    (after graph actions).edgeCount = (edgesOf graph actions).card ∧
    ∀ node, node ∈ (after graph actions).reachableCallers seeds ↔
      ∃ s ∈ seeds, ReflTransGen (CalledBy (edgesOf graph actions)) s node := by
  have records : (after graph actions).Records (edgesOf graph actions) := records_run actions (records_buildFromInsight graph)
  exact ⟨records.mem_calleesOf, records.mem_callersOf, fun node => ⟨records.outgoing.once node, records.incoming.once node⟩,
    records.edgeCount_eq, records.mem_reachableCallers seeds⟩

end CallGraph

end AlLanguage.Insight
