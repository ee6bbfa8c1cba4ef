import AlLanguage.Insight.Growth
import AlLanguage.Library.Machine

/-!
# What resolving subscriptions does

- Where a subscriber lands depends on the names alone, and no other subscriber changes it.
- A subscriber that is connected stays connected, and connecting it again changes nothing.
-/

namespace AlLanguage.Insight

open Library Symbols
open AlLanguage.Runtime (CaseMapping toLowercase)

def InsightNode.isEvent : InsightNode → Bool
  | .event .. => true
  | _ => false

namespace InsightGraph

variable {g n h : InsightGraph} {source : NodeIndex} {targets : List NodeIndex} {weight : InsightEdge} {key : NodeKey}

/-! ## Several edges -/

@[simp] theorem nodes_addEdges (g : InsightGraph) (source : NodeIndex) (targets : List NodeIndex) (weight : InsightEdge) :
    (g.addEdges source targets weight).nodes = g.nodes := by
  induction targets generalizing g with
  | nil => rfl
  | cons target rest ih => exact (ih _).trans (nodes_addEdge g source target weight)

@[simp] theorem getNodes_addEdges (g : InsightGraph) (source : NodeIndex) (targets : List NodeIndex) (weight : InsightEdge)
    (key : NodeKey) : (g.addEdges source targets weight).getNodes key = g.getNodes key := by
  induction targets generalizing g with
  | nil => rfl
  | cons target rest ih => exact (ih _).trans (getNodes_addEdge g source target weight key)

theorem mem_edges_addEdges (sound : g.Sound) (sourceIn : source < g.nodes.length)
    (targetsIn : ∀ target ∈ targets, target < g.nodes.length) (weight : InsightEdge) (edge : Edge) :
    edge ∈ (g.addEdges source targets weight).edges ↔
      edge ∈ g.edges ∨ ∃ target ∈ targets, edge = ⟨source, target, weight⟩ := by
  induction targets generalizing g with
  | nil => simp [addEdges]
  | cons target rest ih =>
      have first := sound_addEdge sound sourceIn (targetsIn target List.mem_cons_self) weight
      have others := ih first (by rwa [nodes_addEdge]) (by
        intro other member
        rw [nodes_addEdge]
        exact targetsIn other (List.mem_cons_of_mem _ member))
      refine others.trans ?_
      rw [mem_edges_addEdge sound]
      simp only [List.mem_cons, exists_eq_or_imp, or_assoc]

theorem addEdge_held (sound : g.Sound) {target : NodeIndex} (held : ⟨source, target, weight⟩ ∈ g.edges) :
    g.addEdge source target weight = g := by
  rw [addEdge, if_pos ((sound.exact _).mpr held)]

theorem addEdges_held (sound : g.Sound) (held : ∀ target ∈ targets, ⟨source, target, weight⟩ ∈ g.edges) :
    g.addEdges source targets weight = g := by
  apply Machine.run_idle
  intro target member
  exact addEdge_held sound (held target member)

/-! ## Landing -/

/-- The kind of object whose events a subscriber is connected to. -/
def landing (g : InsightGraph) (object event : String) : Option ObjectKind :=
  (g.eventKind object event).or (g.publisherKind object)

/-- The event that is added for a subscriber. -/
def standIn (g : InsightGraph) (subscriber : Subscriber) (kind : ObjectKind) (object : NodeIndex) : InsightNode :=
  .event kind (g.displayObject object subscriber.targetObject) (g.displayEvent subscriber.index subscriber.targetEvent)
    .integration

/-- The graph in which a subscriber is connected to an event that is added for it. -/
def withStandIn (g : InsightGraph) (subscriber : Subscriber) (kind : ObjectKind) (object : NodeIndex) : InsightGraph :=
  ((g.withNode (.event kind subscriber.targetObject subscriber.targetEvent) (g.standIn subscriber kind object)).addEdge
    object g.nodes.length .publishes).addEdge subscriber.index g.nodes.length .subscribesTo

theorem eventKind_none {object event : String} (none_has : g.eventKind object event = none) {kind : ObjectKind}
    (publisher : kind ∈ eventPublisherKinds) : g.getNodes (.event kind object event) = [] := by
  have apart := List.find?_eq_none.mp none_has kind publisher
  simpa using apart

theorem publisherKind_mem {object : String} {kind : ObjectKind} (found : g.publisherKind object = some kind) :
    kind ∈ eventPublisherKinds := List.mem_of_find?_eq_some found

theorem connect_cases (g : InsightGraph) (subscriber : Subscriber) :
    (∃ kind, g.eventKind subscriber.targetObject subscriber.targetEvent = some kind ∧
      g.connect subscriber = g.addEdges subscriber.index
        (g.getNodes (.event kind subscriber.targetObject subscriber.targetEvent)) .subscribesTo) ∨
    (g.eventKind subscriber.targetObject subscriber.targetEvent = none ∧ ∃ kind object,
      g.publisherKind subscriber.targetObject = some kind ∧
      object ∈ g.getNodes (.object kind subscriber.targetObject) ∧
      g.connect subscriber = g.withStandIn subscriber kind object) ∨
    (g.landing subscriber.targetObject subscriber.targetEvent = none ∧ g.connect subscriber = g) := by
  unfold connect landing
  cases declared : g.eventKind subscriber.targetObject subscriber.targetEvent with
  | some kind => exact .inl ⟨kind, rfl, rfl⟩
  | none =>
      right
      dsimp only
      unfold synthesize
      cases known : g.publisherKind subscriber.targetObject with
      | none => exact .inr ⟨rfl, rfl⟩
      | some kind =>
          left
          refine ⟨rfl, kind, ?_⟩
          have held := List.find?_some known
          obtain ⟨object, first⟩ := Option.isSome_iff_exists.mp held
          have missing := eventKind_none declared (publisherKind_mem known)
          refine ⟨object, rfl, List.mem_of_mem_head? first, ?_⟩
          rcases ensureNode_cases g (.event kind subscriber.targetObject subscriber.targetEvent)
            (g.standIn subscriber kind object) with ⟨i, inside, _⟩ | ⟨_, added⟩
          · rw [missing] at inside
            cases inside
          · dsimp only
            rw [first]
            dsimp only
            rw [standIn] at added
            rw [added]
            rfl

theorem nodes_withStandIn (g : InsightGraph) (subscriber : Subscriber) (kind : ObjectKind) (object : NodeIndex) :
    (g.withStandIn subscriber kind object).nodes = g.nodes ++ [g.standIn subscriber kind object] := by
  rw [withStandIn, nodes_addEdge, nodes_addEdge]
  rfl

theorem getNodes_withStandIn (g : InsightGraph) (subscriber : Subscriber) (kind : ObjectKind) (object : NodeIndex)
    (key : NodeKey) : (g.withStandIn subscriber kind object).getNodes key =
      if .event kind subscriber.targetObject subscriber.targetEvent = key then g.getNodes key ++ [g.nodes.length]
      else g.getNodes key := by
  rw [withStandIn, getNodes_addEdge, getNodes_addEdge, getNodes_withNode]

theorem publisherKind_withStandIn (g : InsightGraph) (subscriber : Subscriber) (kind : ObjectKind) (object : NodeIndex)
    (name : String) : (g.withStandIn subscriber kind object).publisherKind name = g.publisherKind name := by
  unfold publisherKind getNode
  congr 1
  funext other
  rw [getNodes_withStandIn, if_neg (by simp)]

theorem eventKind_withStandIn {subscriber : Subscriber} {kind : ObjectKind}
    (undeclared : g.eventKind subscriber.targetObject subscriber.targetEvent = none)
    (known : g.publisherKind subscriber.targetObject = some kind) (node : NodeIndex) :
    (g.withStandIn subscriber kind node).eventKind subscriber.targetObject subscriber.targetEvent = some kind := by
  cases found : (g.withStandIn subscriber kind node).eventKind subscriber.targetObject subscriber.targetEvent with
  | none =>
      have missing := eventKind_none found (publisherKind_mem known)
      rw [getNodes_withStandIn, if_pos rfl] at missing
      simp at missing
  | some other =>
      have listed : (g.withStandIn subscriber kind node).getNodes
          (.event other subscriber.targetObject subscriber.targetEvent) ≠ [] := by
        simpa using List.find?_some found
      rw [getNodes_withStandIn, eventKind_none undeclared (List.mem_of_find?_eq_some found)] at listed
      split at listed
      next same =>
        cases same
        rfl
      next => exact absurd rfl listed

/-- An event that is added for a subscriber is where every subscriber to it would have landed. -/
theorem landing_withStandIn {subscriber : Subscriber} {kind : ObjectKind}
    (undeclared : g.eventKind subscriber.targetObject subscriber.targetEvent = none)
    (known : g.publisherKind subscriber.targetObject = some kind) (node : NodeIndex) (object event : String) :
    (g.withStandIn subscriber kind node).landing object event = g.landing object event := by
  unfold landing
  rw [publisherKind_withStandIn]
  by_cases same : subscriber.targetObject = object ∧ subscriber.targetEvent = event
  · obtain ⟨rfl, rfl⟩ := same
    rw [eventKind_withStandIn undeclared known, undeclared, known]
    rfl
  · have kept : (g.withStandIn subscriber kind node).eventKind object event = g.eventKind object event := by
      unfold eventKind
      congr 1
      funext other
      rw [getNodes_withStandIn, if_neg]
      intro alike
      cases alike
      exact same ⟨rfl, rfl⟩
    rw [kept]

theorem eventKind_addEdges (g : InsightGraph) (source : NodeIndex) (targets : List NodeIndex) (weight : InsightEdge)
    (object event : String) : (g.addEdges source targets weight).eventKind object event = g.eventKind object event := by
  simp only [eventKind, getNodes_addEdges]

theorem landing_addEdges (g : InsightGraph) (source : NodeIndex) (targets : List NodeIndex) (weight : InsightEdge)
    (object event : String) : (g.addEdges source targets weight).landing object event = g.landing object event := by
  simp only [landing, eventKind_addEdges, publisherKind, getNode, getNodes_addEdges]

theorem sound_withStandIn {subscriber : Subscriber} (sound : h.Sound) (sourceIn : subscriber.index < h.nodes.length)
    {kind : ObjectKind} {object : NodeIndex} (inside : object ∈ h.getNodes (.object kind subscriber.targetObject))
    (missing : h.getNodes (.event kind subscriber.targetObject subscriber.targetEvent) = []) :
    (h.withStandIn subscriber kind object).Sound ∧ ∀ edge, edge ∈ (h.withStandIn subscriber kind object).edges ↔
      edge ∈ h.edges ∨ edge = ⟨object, h.nodes.length, .publishes⟩ ∨ edge = ⟨subscriber.index, h.nodes.length, .subscribesTo⟩ := by
  have objectIn := sound.within _ object inside
  have length : (h.withNode (.event kind subscriber.targetObject subscriber.targetEvent)
      (h.standIn subscriber kind object)).nodes.length = h.nodes.length + 1 := by simp [withNode]
  have added : (h.withNode (.event kind subscriber.targetObject subscriber.targetEvent)
      (h.standIn subscriber kind object)).Sound := by
    apply sound_withNode sound
    intro i listed
    rw [missing] at listed
    cases listed
  have published := sound_addEdge added (Nat.lt_of_lt_of_eq (Nat.lt_succ_of_lt objectIn) length.symm)
    (Nat.lt_of_lt_of_eq (Nat.lt_succ_self _) length.symm) .publishes
  constructor
  · apply sound_addEdge published
    · rw [nodes_addEdge, length]
      exact Nat.lt_succ_of_lt sourceIn
    · rw [nodes_addEdge, length]
      exact Nat.lt_succ_self _
  · intro edge
    rw [withStandIn, mem_edges_addEdge published, mem_edges_addEdge added, or_assoc]
    rfl

/-! ## One subscriber -/

/-- The events that a subscriber lands on are connected to it. -/
def Done (subscriber : Subscriber) (h : InsightGraph) : Prop :=
  ∀ kind, h.landing subscriber.targetObject subscriber.targetEvent = some kind →
    h.eventKind subscriber.targetObject subscriber.targetEvent = some kind ∧
    ∀ event ∈ h.getNodes (.event kind subscriber.targetObject subscriber.targetEvent),
      ⟨subscriber.index, event, .subscribesTo⟩ ∈ h.edges

theorem connect_done {subscriber : Subscriber} (sound : h.Sound) (done : Done subscriber h) : h.connect subscriber = h := by
  rcases connect_cases h subscriber with ⟨kind, declared, connected⟩ | ⟨undeclared, kind, object, known, _, _⟩ | ⟨_, kept⟩
  · have landed := done kind (by rw [landing, declared]; rfl)
    rw [connected, addEdges_held sound landed.2]
  · have landed := done kind (by rw [landing, undeclared, known]; rfl)
    rw [undeclared] at landed
    cases landed.1
  · exact kept

variable [CaseMapping]

theorem sound_connect {subscriber : Subscriber} (sound : h.Sound) (sourceIn : subscriber.index < h.nodes.length) :
    (h.connect subscriber).Sound ∧ h.nodes.length ≤ (h.connect subscriber).nodes.length := by
  rcases connect_cases h subscriber with ⟨kind, _, same⟩ | ⟨undeclared, kind, object, known, inside, same⟩ | ⟨_, same⟩
  · have grown := grown_addEdges sound sourceIn (.event kind subscriber.targetObject subscriber.targetEvent) .subscribesTo
    rw [same]
    exact ⟨grown.sound, grown.kept⟩
  · rw [same]
    refine ⟨(sound_withStandIn sound sourceIn inside (eventKind_none undeclared (publisherKind_mem known))).1, ?_⟩
    rw [nodes_withStandIn, List.length_append]
    exact Nat.le_add_right _ _
  · rw [same]
    exact ⟨sound, Nat.le_refl _⟩

theorem mem_subscribers {subscriber : Subscriber} (member : subscriber ∈ n.subscribers) :
    ∃ objectKind objectName name targetKind targetObject targetEvent,
      n.nodes[subscriber.index]? = some (.subscriber objectKind objectName name targetKind targetObject targetEvent) ∧
      targetObject ≠ "" ∧ targetEvent ≠ "" ∧ subscriber.targetObject = toLowercase targetObject ∧
      subscriber.targetEvent = toLowercase targetEvent := by
  obtain ⟨⟨node, i⟩, inside, read⟩ := List.mem_filterMap.mp member
  have here := List.mem_zipIdx_iff_getElem?.mp inside
  cases node with
  | subscriber objectKind objectName name targetKind targetObject targetEvent =>
      simp only [asSubscriber] at read
      split at read
      · cases read
      next filled =>
        cases read
        simp only [Bool.or_eq_true, not_or, String.isEmpty_iff] at filled
        exact ⟨_, _, _, _, _, _, here, filled.1, filled.2, rfl, rfl⟩
  | _ => cases read

theorem subscribers_mem {i : NodeIndex} {objectKind : ObjectKind} {objectName name targetObject targetEvent : String}
    {targetKind : Option ObjectKind}
    (here : n.nodes[i]? = some (.subscriber objectKind objectName name targetKind targetObject targetEvent))
    (object : targetObject ≠ "") (event : targetEvent ≠ "") :
    ⟨i, toLowercase targetObject, toLowercase targetEvent⟩ ∈ n.subscribers := by
  apply List.mem_filterMap.mpr
  refine ⟨(_, i), List.mem_zipIdx_iff_getElem?.mpr here, ?_⟩
  simp [asSubscriber, object, event]

theorem subscriber_lt {subscriber : Subscriber} (member : subscriber ∈ n.subscribers) :
    subscriber.index < n.nodes.length := by
  obtain ⟨_, _, _, _, _, _, here, _⟩ := mem_subscribers member
  exact (List.getElem?_eq_some_iff.mp here).1

/-- What connecting subscribers makes of a graph whose targets are named. -/
structure Resolving (n h : InsightGraph) : Prop where
  sound : h.Sound
  filed : h.Filed
  nodes : ∃ events, h.nodes = n.nodes ++ events ∧ ∀ node ∈ events, node.isEvent = true
  landing : ∀ object event, h.landing object event = n.landing object event
  untouched : ∀ kind object event,
    (∀ subscriber ∈ n.subscribers, subscriber.targetObject = object → subscriber.targetEvent = event →
      n.landing object event = none) →
    h.getNodes (.event kind object event) = n.getNodes (.event kind object event)
  kept : ∀ edge ∈ n.edges, edge ∈ h.edges
  subscribed : ∀ edge ∈ h.edges, edge.weight = .subscribesTo → edge ∈ n.edges ∨
    ∃ subscriber ∈ n.subscribers, edge.source = subscriber.index ∧
      ∃ kind, n.landing subscriber.targetObject subscriber.targetEvent = some kind ∧
        edge.target ∈ h.getNodes (.event kind subscriber.targetObject subscriber.targetEvent)

theorem Resolving.refl (sound : n.Sound) (filed : n.Filed) : Resolving n n where
  sound := sound
  filed := filed
  nodes := ⟨[], by simp, by simp⟩
  landing _ _ := rfl
  untouched _ _ _ _ := rfl
  kept _ member := member
  subscribed _ member _ := .inl member

theorem Resolving.node_eq (resolving : Resolving n h) {i : NodeIndex} (within : i < n.nodes.length) :
    h.nodes[i]? = n.nodes[i]? := by
  obtain ⟨events, grown, _⟩ := resolving.nodes
  rw [grown, List.getElem?_append_left within]

theorem Resolving.length_le (resolving : Resolving n h) : n.nodes.length ≤ h.nodes.length := by
  obtain ⟨events, grown, _⟩ := resolving.nodes
  rw [grown, List.length_append]
  exact Nat.le_add_right _ _

theorem standIn_key (resolving : Resolving n h) {subscriber : Subscriber} (member : subscriber ∈ n.subscribers)
    {kind : ObjectKind} {object : NodeIndex} (inside : object ∈ h.getNodes (.object kind subscriber.targetObject)) :
    (h.standIn subscriber kind object).key = .event kind subscriber.targetObject subscriber.targetEvent := by
  obtain ⟨node, hereObject, own⟩ := key_of_listed resolving.sound resolving.filed inside
  obtain ⟨_, _, _, _, _, targetEvent, here, _, _, _, event⟩ := mem_subscribers member
  have hereSubscriber := (resolving.node_eq (subscriber_lt member)).trans here
  cases node with
  | object k id name package =>
      rw [InsightNode.key, NodeKey.object.injEq] at own
      simp [standIn, displayObject, displayEvent, hereObject, hereSubscriber, InsightNode.key, own.2, event]
  | _ => cases own

/-- The case of events that are declared. -/
theorem resolving_declared (resolving : Resolving n h) {subscriber : Subscriber} (member : subscriber ∈ n.subscribers)
    {kind : ObjectKind} (declared : h.eventKind subscriber.targetObject subscriber.targetEvent = some kind)
    {events : List NodeIndex} (listed : events = h.getNodes (.event kind subscriber.targetObject subscriber.targetEvent)) :
    Resolving n (h.addEdges subscriber.index events .subscribesTo) ∧
      Done subscriber (h.addEdges subscriber.index events .subscribesTo) := by
  have sourceIn := Nat.lt_of_lt_of_le (subscriber_lt member) resolving.length_le
  have targetsIn : ∀ event ∈ events, event < h.nodes.length := by
    rw [listed]
    exact resolving.sound.within _
  have grown := grown_addEdges resolving.sound sourceIn (.event kind subscriber.targetObject subscriber.targetEvent)
    .subscribesTo
  rw [← listed] at grown
  have edges := mem_edges_addEdges resolving.sound sourceIn targetsIn .subscribesTo
  have landed : h.landing subscriber.targetObject subscriber.targetEvent = some kind := by rw [landing, declared]; rfl
  refine ⟨⟨grown.sound, grown.filed resolving.filed, ?_, ?_, ?_, ?_, ?_⟩, ?_⟩
  · rw [nodes_addEdges]
    exact resolving.nodes
  · intro object event
    rw [landing_addEdges]
    exact resolving.landing object event
  · intro other object event passed
    rw [getNodes_addEdges]
    exact resolving.untouched other object event passed
  · intro edge before
    exact (edges edge).mpr (.inl (resolving.kept edge before))
  · intro edge inside subscribes
    simp only [getNodes_addEdges]
    rcases (edges edge).mp inside with before | ⟨event, target, rfl⟩
    · exact resolving.subscribed edge before subscribes
    · exact .inr ⟨subscriber, member, rfl, kind, (resolving.landing _ _).symm.trans landed, listed ▸ target⟩
  · intro other lands
    rw [landing_addEdges, landed] at lands
    cases lands
    rw [eventKind_addEdges, getNodes_addEdges]
    refine ⟨declared, ?_⟩
    intro event target
    exact (edges _).mpr (.inr ⟨event, listed ▸ target, rfl⟩)

/-- The case of an event that is added. -/
theorem resolving_standIn (resolving : Resolving n h) {subscriber : Subscriber} (member : subscriber ∈ n.subscribers)
    (undeclared : h.eventKind subscriber.targetObject subscriber.targetEvent = none) {kind : ObjectKind}
    (known : h.publisherKind subscriber.targetObject = some kind) {object : NodeIndex}
    (inside : object ∈ h.getNodes (.object kind subscriber.targetObject)) :
    Resolving n (h.withStandIn subscriber kind object) ∧ Done subscriber (h.withStandIn subscriber kind object) := by
  have missing := eventKind_none undeclared (publisherKind_mem known)
  obtain ⟨sound, edges⟩ := sound_withStandIn resolving.sound (Nat.lt_of_lt_of_le (subscriber_lt member) resolving.length_le)
    inside missing
  have filed : (h.withStandIn subscriber kind object).Filed :=
    filed_addEdge (filed_addEdge (filed_withNode resolving.filed (standIn_key resolving member inside)))
  have landed : h.landing subscriber.targetObject subscriber.targetEvent = some kind := by
    rw [landing, undeclared, known]
    rfl
  have landing_eq := landing_withStandIn undeclared known object
  refine ⟨⟨sound, filed, ?_, ?_, ?_, ?_, ?_⟩, ?_⟩
  · obtain ⟨events, grown, all⟩ := resolving.nodes
    refine ⟨events ++ [h.standIn subscriber kind object], ?_, ?_⟩
    · rw [nodes_withStandIn, grown, List.append_assoc]
    · intro node inside
      rcases List.mem_append.mp inside with before | last
      · exact all node before
      · rw [List.mem_singleton.mp last]
        rfl
  · intro other event
    rw [landing_eq]
    exact resolving.landing other event
  · intro other name event passed
    rw [getNodes_withStandIn, if_neg]
    · exact resolving.untouched other name event passed
    · intro same
      cases same
      have unlanded := passed subscriber member rfl rfl
      rw [← resolving.landing, landed] at unlanded
      cases unlanded
  · intro edge before
    exact (edges edge).mpr (.inl (resolving.kept edge before))
  · intro edge inEdges subscribes
    rcases (edges edge).mp inEdges with before | rfl | rfl
    · rcases resolving.subscribed edge before subscribes with held | ⟨other, listed, source, lands, kindOf, target⟩
      · exact .inl held
      · refine .inr ⟨other, listed, source, lands, kindOf, ?_⟩
        rw [getNodes_withStandIn]
        split
        · exact List.mem_append_left _ target
        · exact target
    · cases subscribes
    · refine .inr ⟨subscriber, member, rfl, kind, (resolving.landing _ _).symm.trans landed, ?_⟩
      rw [getNodes_withStandIn, if_pos rfl]
      exact List.mem_append_right _ List.mem_cons_self
  · intro other lands
    rw [landing_eq, landed] at lands
    cases lands
    constructor
    · exact eventKind_withStandIn undeclared known object
    · intro event listed
      rw [getNodes_withStandIn, if_pos rfl, missing, List.nil_append, List.mem_singleton] at listed
      rw [listed]
      exact (edges _).mpr (.inr (.inr rfl))

theorem resolving_connect (resolving : Resolving n h) {subscriber : Subscriber} (member : subscriber ∈ n.subscribers) :
    Resolving n (h.connect subscriber) ∧ Done subscriber (h.connect subscriber) := by
  rcases connect_cases h subscriber with ⟨kind, declared, same⟩ | ⟨undeclared, kind, object, known, inside, same⟩ |
    ⟨unlanded, same⟩
  · rw [same]
    exact resolving_declared resolving member declared rfl
  · rw [same]
    exact resolving_standIn resolving member undeclared known inside
  · rw [same]
    refine ⟨resolving, ?_⟩
    intro kind lands
    rw [unlanded] at lands
    cases lands

/-- What is done for one subscriber stays when another one is connected. -/
theorem done_connect (resolving : Resolving n h) {subscriber other : Subscriber} (member : other ∈ n.subscribers)
    (done : Done subscriber h) : Done subscriber (h.connect other) := by
  intro kind lands
  have sourceIn := Nat.lt_of_lt_of_le (subscriber_lt member) resolving.length_le
  rw [(resolving_connect resolving member).1.landing, ← resolving.landing] at lands
  obtain ⟨declared, connected⟩ := done kind lands
  rcases connect_cases h other with ⟨otherKind, _, same⟩ | ⟨undeclared, otherKind, object, known, inside, same⟩ | ⟨_, same⟩
  · rw [same, eventKind_addEdges, getNodes_addEdges]
    refine ⟨declared, ?_⟩
    intro event listed
    exact (mem_edges_addEdges resolving.sound sourceIn (resolving.sound.within _) _ _).mpr (.inl (connected event listed))
  · have edges := (sound_withStandIn resolving.sound sourceIn inside (eventKind_none undeclared (publisherKind_mem known))).2
    have apart (k : ObjectKind) : NodeKey.event otherKind other.targetObject other.targetEvent ≠
        .event k subscriber.targetObject subscriber.targetEvent := by
      rw [ne_eq, NodeKey.event.injEq]
      rintro ⟨_, object, event⟩
      rw [← object, ← event, undeclared] at declared
      cases declared
    rw [same, getNodes_withStandIn, if_neg (apart kind)]
    constructor
    · rw [← declared]
      unfold eventKind
      congr 1
      funext k
      rw [getNodes_withStandIn, if_neg (apart k)]
    · intro event listed
      exact (edges _).mpr (.inl (connected event listed))
  · rw [same]
    exact ⟨declared, connected⟩

/-- After the last subscriber everything is connected, and nothing is left to do. -/
theorem resolving_subscribers (sound : n.Sound) (filed : n.Filed) :
    Resolving n (n.subscribers.foldl connect n) ∧ ∀ subscriber ∈ n.subscribers, Done subscriber (n.subscribers.foldl connect n) := by
  constructor
  · exact @Machine.run_invariant_mem _ _ connect (Resolving n) n.subscribers
      (fun h subscriber member resolving => (resolving_connect resolving member).1) n (Resolving.refl sound filed)
  · intro subscriber member
    exact @Machine.run_done _ _ connect (Resolving n) Done n.subscribers
      (fun h other inside resolving => (resolving_connect resolving inside).1)
      (fun h other inside resolving => (resolving_connect resolving inside).2)
      (fun h first other inside resolving done => done_connect resolving inside done) n (Resolving.refl sound filed)
      subscriber (.inr member)

end InsightGraph

end AlLanguage.Insight
