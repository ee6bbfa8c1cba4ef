import AlLanguage.Insight.Removal
import AlLanguage.Insight.Subscriptions
import AlLanguage.Runtime.Wildcards

/-!
# Runs of the graph

- The index and the edge set stay exact over every run, and a removal takes the outgoing edges of its node alone.
- Subscriptions are exact after each resolution that finds the kinds which the subscribers state. Resolution looks
  for the first kind that has the event and passes the stated kind over, so that a table comes before a page.
-/

namespace AlLanguage.Insight

open Library Symbols
open AlLanguage.Runtime (CaseMapping toLowercase)
open AlLanguage.Runtime.Filter (LowercaseTables)

def InsightNode.isEventOf (kind : ObjectKind) : InsightNode → Bool
  | .event k .. => k = kind
  | _ => false

/-- An event of a kind with the names of a target. -/
def InsightNode.isTarget [CaseMapping] (kind : ObjectKind) (object event : String) : InsightNode → Bool
  | .event k objectName name _ => k = kind ∧ toLowercase objectName = toLowercase object ∧ toLowercase name = toLowercase event
  | _ => false

/-- The target of a subscriber that states the kind of its publisher. -/
structure StatedTarget where
  kind : ObjectKind
  object : String
  event : String

def InsightNode.statedTarget : InsightNode → Option StatedTarget
  | .subscriber _ _ _ (some kind) targetObject targetEvent => some ⟨kind, targetObject, targetEvent⟩
  | _ => none

theorem InsightNode.statedTarget_eq {node : InsightNode} {target : StatedTarget} (states : node.statedTarget = some target) :
    ∃ objectKind objectName name, node = .subscriber objectKind objectName name (some target.kind) target.object target.event := by
  unfold InsightNode.statedTarget at states
  split at states
  · cases states
    exact ⟨_, _, _, rfl⟩
  · cases states

namespace InsightGraph

variable {g : InsightGraph}

/-! ## Names for numbers -/

section Naming

theorem node_named {i : NodeIndex} {node : InsightNode} :
    g.nameNumericSubscriberTargets.nodes[i]? = some node ↔ ∃ before, g.nodes[i]? = some before ∧ g.nameTarget before = node := by
  show (g.nodes.map g.nameTarget)[i]? = some node ↔ _
  rw [List.getElem?_map, Option.map_eq_some_iff]

theorem sameNodeIdentity_nameTarget (g : InsightGraph) (a b : InsightNode) :
    sameNodeIdentity (g.nameTarget a) (g.nameTarget b) = sameNodeIdentity a b := by
  cases a <;> cases b <;> rfl

variable [CaseMapping]

theorem key_nameTarget (g : InsightGraph) (a : InsightNode) : (g.nameTarget a).key = a.key := by
  cases a <;> rfl

omit [CaseMapping] in
theorem sound_named (sound : g.Sound) : g.nameNumericSubscriberTargets.Sound := by
  have length : g.nameNumericSubscriberTargets.nodes.length = g.nodes.length := List.length_map _
  refine ⟨sound.once, sound.exact, ?_, ?_, sound.oneKey, sound.distinct, ?_, ?_⟩
  · rw [length]
    exact sound.within
  · rw [length]
    exact sound.listed
  · intro key i inI j inJ a b hereI hereJ same
    obtain ⟨a', beforeI, rfl⟩ := node_named.mp hereI
    obtain ⟨b', beforeJ, rfl⟩ := node_named.mp hereJ
    rw [sameNodeIdentity_nameTarget] at same
    exact sound.apart key i inI j inJ a' b' beforeI beforeJ same
  · rw [length]
    exact sound.ends

theorem filed_named (filed : g.Filed) : g.nameNumericSubscriberTargets.Filed := by
  rw [filed_iff] at filed ⊢
  intro i node here
  obtain ⟨before, there, rfl⟩ := node_named.mp here
  rw [key_nameTarget]
  exact filed i before there

/-- Events that are added and targets that are named leave the objects as they are. -/
theorem nameTarget_resolving {h : InsightGraph} (resolving : Resolving g.nameNumericSubscriberTargets h) (node : InsightNode) :
    h.nameTarget node = g.nameTarget node := by
  obtain ⟨events, grown, all⟩ := resolving.nodes
  have objects (kind : ObjectKind) (id : Int32) : h.objectNamed kind id = g.objectNamed kind id := by
    have unnamed : events.findSome? (nameOfId kind id) = none := by
      apply List.findSome?_eq_none_iff.mpr
      intro node member
      have event := all node member
      cases node with
      | event => rfl
      | _ => cases event
    have named : nameOfId kind id ∘ g.nameTarget = nameOfId kind id := by
      funext node
      cases node <;> rfl
    rw [objectNamed, grown, List.findSome?_append, unnamed, Option.or_none]
    show (g.nodes.map g.nameTarget).findSome? (nameOfId kind id) = _
    rw [List.findSome?_map, named]
    rfl
  cases node with
  | subscriber => simp [nameTarget, namedTarget, objects]
  | _ => rfl

/-- Naming the targets a second time changes nothing. -/
def Stable (g : InsightGraph) : Prop := ∀ node ∈ g.nodes, g.nameTarget (g.nameTarget node) = g.nameTarget node

theorem named_resolving {h : InsightGraph} (stable : g.Stable) (resolving : Resolving g.nameNumericSubscriberTargets h) :
    h.nameNumericSubscriberTargets = h := by
  obtain ⟨events, grown, all⟩ := resolving.nodes
  have same : h.nodes.map h.nameTarget = h.nodes := by
    rw [grown, List.map_append]
    congr 1
    · show (g.nodes.map g.nameTarget).map h.nameTarget = _
      rw [List.map_map]
      apply List.map_congr_left
      intro node member
      exact (nameTarget_resolving resolving _).trans (stable node member)
    · nth_rewrite 2 [← List.map_id events]
      apply List.map_congr_left
      intro node member
      have event := all node member
      cases node with
      | event => rfl
      | _ => cases event
  unfold nameNumericSubscriberTargets
  rw [same]

/-- The events that are added are no subscribers. -/
theorem subscribers_resolving {n h : InsightGraph} (resolving : Resolving n h) : h.subscribers = n.subscribers := by
  obtain ⟨events, grown, all⟩ := resolving.nodes
  unfold subscribers
  rw [grown, List.zipIdx_append, List.filterMap_append]
  have none_added : (events.zipIdx (0 + n.nodes.length)).filterMap asSubscriber = [] := by
    apply List.filterMap_eq_nil_iff.mpr
    intro entry member
    obtain ⟨_, _, same⟩ := List.mem_zipIdx member
    have event := all entry.1 (same ▸ List.getElem_mem _)
    unfold asSubscriber
    split
    next same =>
      rw [same] at event
      cases event
    next => rfl
  rw [none_added, List.append_nil]

/-- A second resolution adds nothing. -/
theorem resolve_twice (sound : g.Sound) (filed : g.Filed) (stable : g.Stable) :
    g.resolveSubscriberEdges.resolveSubscriberEdges = g.resolveSubscriberEdges := by
  obtain ⟨resolving, done⟩ := resolving_subscribers (sound_named sound) (filed_named filed)
  have again : g.resolveSubscriberEdges.nameNumericSubscriberTargets = g.resolveSubscriberEdges :=
    named_resolving stable resolving
  have same : g.resolveSubscriberEdges.subscribers = g.nameNumericSubscriberTargets.subscribers :=
    subscribers_resolving resolving
  show g.resolveSubscriberEdges.nameNumericSubscriberTargets.subscribers.foldl connect
    g.resolveSubscriberEdges.nameNumericSubscriberTargets = _
  rw [again, same]
  apply Machine.run_idle
  intro subscriber member
  exact connect_done resolving.sound (done subscriber member)

theorem sound_resolve (sound : g.Sound) : g.resolveSubscriberEdges.Sound := by
  have turn : ∀ h : InsightGraph, ∀ subscriber ∈ g.nameNumericSubscriberTargets.subscribers,
      h.Sound ∧ g.nameNumericSubscriberTargets.nodes.length ≤ h.nodes.length →
      (h.connect subscriber).Sound ∧ g.nameNumericSubscriberTargets.nodes.length ≤ (h.connect subscriber).nodes.length := by
    rintro h subscriber member ⟨kept, length⟩
    have connected := sound_connect kept (Nat.lt_of_lt_of_le (subscriber_lt member) length)
    exact ⟨connected.1, length.trans connected.2⟩
  exact (@Machine.run_invariant_mem _ _ connect
    (fun h => h.Sound ∧ g.nameNumericSubscriberTargets.nodes.length ≤ h.nodes.length) _ turn _
    ⟨sound_named sound, Nat.le_refl _⟩).1

end Naming

/-! ## Kinds that are stated -/

/-- The events that a node subscribes to are of one kind. -/
def OnlyKind (g : InsightGraph) (i : NodeIndex) (kind : ObjectKind) : Prop :=
  ∀ edge ∈ g.edges, edge.source = i → edge.weight = .subscribesTo → (g.nodes[edge.target]?).any (·.isEventOf kind) = true

section Stated

variable [LowercaseTables]

/-- A node subscribes to every event that its target names. -/
def AllTargets (g : InsightGraph) (i : NodeIndex) (target : StatedTarget) : Prop :=
  ∀ entry ∈ g.nodes.zipIdx, entry.1.isTarget target.kind target.object target.event = true →
    ⟨i, entry.2, .subscribesTo⟩ ∈ g.edges

/-- Each subscriber that states a kind has the events of this kind that it names, and no others. -/
def Subscribed (g : InsightGraph) : Prop :=
  ∀ entry ∈ g.nodes.zipIdx, ∀ target ∈ entry.1.statedTarget.toList,
    g.OnlyKind entry.2 target.kind ∧ g.AllTargets entry.2 target

/-- The first kind that has the event, or else the first kind that has the object, is the stated one. -/
def Lands (g : InsightGraph) (i : NodeIndex) (target : StatedTarget) : Prop :=
  g.OnlyKind i target.kind ∧
    if target.object = "" ∨ target.event = "" ∨ g.landing (toLowercase target.object) (toLowercase target.event) = none then
      g.AllTargets i target
    else g.landing (toLowercase target.object) (toLowercase target.event) = some target.kind

/-- The graphs whose subscriptions can be resolved. -/
def Resolvable (g : InsightGraph) : Prop :=
  g.Filed ∧ g.Stable ∧ ∀ entry ∈ g.nodes.zipIdx, ∀ target ∈ (g.nameTarget entry.1).statedTarget.toList, g.Lands entry.2 target

theorem toLowercase_eq_empty {s : String} : toLowercase s = "" ↔ s = "" := by
  constructor
  · intro empty
    have chars : CaseMapping.lowerText s.toList = [] := String.ofList_injective empty
    have length := Runtime.Filter.le_lowered [] s.toList
    rw [← Runtime.Filter.lowerText_lowered, chars, List.length_nil, Nat.le_zero] at length
    exact String.toList_injective (List.eq_nil_of_length_eq_zero length)
  · rintro rfl
    exact congrArg String.ofList (CaseMapping.lower_ascii [] (by simp))

variable {h : InsightGraph} {i : NodeIndex} {target : StatedTarget} {node : InsightNode}

theorem onlyKind_resolving (resolving : Resolving g.nameNumericSubscriberTargets h) (lands : g.Lands i target)
    (here : g.nameNumericSubscriberTargets.nodes[i]? = some node) (states : node.statedTarget = some target) :
    h.OnlyKind i target.kind := by
  obtain ⟨only, landing⟩ := lands
  intro edge inside source subscribes
  rcases resolving.subscribed edge inside subscribes with before | ⟨subscriber, member, same, kind, landed, listed⟩
  · obtain ⟨event, there, isKind⟩ := (Option.any_eq_true _ _).mp (only edge before source subscribes)
    have named := node_named.mpr ⟨event, there, rfl⟩
    rw [resolving.node_eq (List.getElem?_eq_some_iff.mp named).1, named]
    cases event with
    | event => exact isKind
    | _ => cases isKind
  · obtain ⟨_, _, _, _, targetObject, targetEvent, there, object, event, lowerObject, lowerEvent⟩ := mem_subscribers member
    obtain ⟨_, _, _, rfl⟩ := InsightNode.statedTarget_eq states
    rw [← same, source, here] at there
    cases there
    have landed : g.landing (toLowercase target.object) (toLowercase target.event) = some kind := by
      rw [← lowerObject, ← lowerEvent]
      exact landed
    rw [landed, if_neg (by simp [object, event])] at landing
    cases landing
    obtain ⟨other, found, own⟩ := key_of_listed resolving.sound resolving.filed listed
    rw [found]
    cases other with
    | event objectKind =>
        rw [InsightNode.key, NodeKey.event.injEq] at own
        exact decide_eq_true own.1
    | _ => cases own

theorem key_of_isTarget {kind : ObjectKind} {object event : String} (is : node.isTarget kind object event = true) :
    node.key = .event kind (toLowercase object) (toLowercase event) := by
  cases node with
  | event => simpa [InsightNode.isTarget, InsightNode.key] using is
  | _ => cases is

theorem isTarget_nameTarget (g : InsightGraph) (node : InsightNode) (kind : ObjectKind) (object event : String) :
    (g.nameTarget node).isTarget kind object event = node.isTarget kind object event := by
  cases node <;> rfl

/-- A target that no subscriber lands on gets no new event. -/
theorem allTargets_untouched (sound : g.Sound) (resolving : Resolving g.nameNumericSubscriberTargets h) (all : g.AllTargets i target)
    (passed : ∀ subscriber ∈ g.nameNumericSubscriberTargets.subscribers, subscriber.targetObject = toLowercase target.object →
      subscriber.targetEvent = toLowercase target.event →
      g.landing (toLowercase target.object) (toLowercase target.event) = none) : h.AllTargets i target := by
  intro entry member is
  have there := List.mem_zipIdx_iff_getElem?.mp member
  have listed := filed_iff.mp resolving.filed entry.2 entry.1 there
  rw [key_of_isTarget is, resolving.untouched _ _ _ passed] at listed
  obtain ⟨before, first⟩ : ∃ before, g.nodes[entry.2]? = some before :=
    ⟨_, List.getElem?_eq_getElem (sound.within _ _ listed)⟩
  have named := node_named.mpr ⟨before, first, rfl⟩
  rw [resolving.node_eq (List.getElem?_eq_some_iff.mp named).1, named] at there
  rw [← Option.some_inj.mp there, isTarget_nameTarget] at is
  exact resolving.kept _ (all (before, entry.2) (List.mem_zipIdx_iff_getElem?.mpr first) is)

theorem allTargets_resolving (sound : g.Sound) (resolving : Resolving g.nameNumericSubscriberTargets h)
    (done : ∀ subscriber ∈ g.nameNumericSubscriberTargets.subscribers, Done subscriber h) (lands : g.Lands i target)
    (here : g.nameNumericSubscriberTargets.nodes[i]? = some node) (states : node.statedTarget = some target) :
    h.AllTargets i target := by
  obtain ⟨only, landing⟩ := lands
  obtain ⟨_, _, _, rfl⟩ := InsightNode.statedTarget_eq states
  split at landing
  next passed =>
    apply allTargets_untouched sound resolving landing
    intro subscriber member sameObject sameEvent
    obtain ⟨_, _, _, _, targetObject, targetEvent, _, object, event, lowerObject, lowerEvent⟩ := mem_subscribers member
    rcases passed with empty | empty | unlanded
    · rw [empty, lowerObject, toLowercase_eq_empty.mpr rfl] at sameObject
      exact absurd (toLowercase_eq_empty.mp sameObject) object
    · rw [empty, lowerEvent, toLowercase_eq_empty.mpr rfl] at sameEvent
      exact absurd (toLowercase_eq_empty.mp sameEvent) event
    · exact unlanded
  next filled =>
    rw [not_or, not_or] at filled
    have connected := done _ (subscribers_mem here filled.1 filled.2.1)
    intro entry member is
    have there := List.mem_zipIdx_iff_getElem?.mp member
    have listed := filed_iff.mp resolving.filed entry.2 entry.1 there
    rw [key_of_isTarget is] at listed
    exact (connected target.kind ((resolving.landing _ _).trans landing)).2 entry.2 listed

theorem subscribed_resolve (sound : g.Sound) (resolvable : g.Resolvable) : g.resolveSubscriberEdges.Subscribed := by
  obtain ⟨filed, _, lands⟩ := resolvable
  obtain ⟨resolving, done⟩ := resolving_subscribers (sound_named sound) (filed_named filed)
  rintro ⟨node, i⟩ member target states
  rw [Option.mem_toList] at states
  have there := List.mem_zipIdx_iff_getElem?.mp member
  have here : g.nameNumericSubscriberTargets.nodes[i]? = some node := by
    obtain ⟨events, grown, all⟩ := resolving.nodes
    replace there : (g.nameNumericSubscriberTargets.subscribers.foldl connect g.nameNumericSubscriberTargets).nodes[i]? =
      some node := there
    rw [grown] at there
    rcases Nat.lt_or_ge i g.nameNumericSubscriberTargets.nodes.length with old | new
    · rwa [List.getElem?_append_left old] at there
    · rw [List.getElem?_append_right new] at there
      have event := all node (List.mem_of_getElem? there)
      obtain ⟨_, _, _, rfl⟩ := InsightNode.statedTarget_eq states
      cases event
  obtain ⟨before, first, rfl⟩ := node_named.mp here
  have landed := lands (before, i) (List.mem_zipIdx_iff_getElem?.mpr first) target (Option.mem_toList.mpr states)
  exact ⟨onlyKind_resolving resolving landed here states, allTargets_resolving sound resolving done landed here states⟩

end Stated

/-! ## Runs -/

section Runs

variable [LowercaseTables] [LanguageData] [Alphanumeric] [OutgoingEdges]

inductive Action where
  | ensureNode (key : NodeKey) (node : InsightNode)
  | addEdge (source target : NodeIndex) (weight : InsightEdge)
  | removeEdgesFrom (node : NodeIndex)
  | buildFromIndex (allEntries : List SymbolEntry)
  | resolveSubscriberEdges

/-- The graph library panics on an edge to a node that does not exist. -/
def act (g : InsightGraph) : Action → Option InsightGraph
  | .ensureNode key node => some (g.ensureNode key node).2
  | .addEdge source target weight =>
      if ⟨source, target, weight⟩ ∈ g.edgeSet ∨ source < g.nodes.length ∧ target < g.nodes.length then
        some (g.addEdge source target weight)
      else none
  | .removeEdgesFrom node => some (g.removeEdgesFrom node)
  | .buildFromIndex allEntries => some (g.buildFromIndex allEntries)
  | .resolveSubscriberEdges => some g.resolveSubscriberEdges

def step (state : Option InsightGraph) (action : Action) : Option InsightGraph := state.bind (·.act action)

theorem sound_act (sound : g.Sound) (action : Action) {g' : InsightGraph} (acted : g.act action = some g') : g'.Sound := by
  cases action with
  | ensureNode key node =>
      cases acted
      exact (sound_ensureNode sound key node).1
  | addEdge source target weight =>
      unfold act at acted
      dsimp only at acted
      split at acted
      next possible =>
        cases acted
        rcases possible with held | ⟨sourceIn, targetIn⟩
        · rwa [addEdge, if_pos held]
        · exact sound_addEdge sound sourceIn targetIn weight
      next => cases acted
  | removeEdgesFrom node =>
      cases acted
      exact (removed_removeEdgesFrom sound node).sound
  | buildFromIndex allEntries =>
      cases acted
      exact (grown_buildFromIndex sound allEntries).sound
  | resolveSubscriberEdges =>
      cases acted
      exact sound_resolve sound

/-- A removal ends, and it takes the outgoing edges of the node alone. -/
def RemovesExactly (g : InsightGraph) (action : Action) (g' : InsightGraph) : Prop :=
  ∀ node, action = .removeEdgesFrom node →
    Removed g g' node ∧ ∀ turns, g.edges.length ≤ turns → g.removeLoop turns node = g'

/-- The index and the edge set are exact before and after an action. -/
def ExactStep (state : Option InsightGraph) (action : Action) : Prop :=
  ∀ g ∈ state, g.Sound ∧ ∀ g' ∈ g.act action, g'.Sound ∧ g.RemovesExactly action g'

/-- A resolution makes subscriptions exact, and a second one adds nothing. -/
def SubscribedStep (state : Option InsightGraph) (action : Action) : Prop :=
  ∀ g ∈ state, action = .resolveSubscriberEdges →
    g.resolveSubscriberEdges.resolveSubscriberEdges = g.resolveSubscriberEdges ∧ g.resolveSubscriberEdges.Subscribed

def ResolvableStep (state : Option InsightGraph) (action : Action) : Prop :=
  ∀ g ∈ state, action = .resolveSubscriberEdges → g.Resolvable

theorem sound_step (state : Option InsightGraph) (action : Action) (sound : ∀ g ∈ state, g.Sound) :
    ∀ g ∈ step state action, g.Sound := by
  intro g' reached
  obtain ⟨g, held, acted⟩ := Option.bind_eq_some_iff.mp reached
  exact sound_act (sound g held) action acted

theorem exact_run (actions : List Action) : Machine.Allowed step ExactStep (some {}) actions := by
  apply Machine.allowed_of_invariant sound_step
  · intro state action sound g held
    refine ⟨sound g held, ?_⟩
    intro g' acted
    refine ⟨sound_act (sound g held) action acted, ?_⟩
    rintro node rfl
    cases acted
    exact ⟨removed_removeEdgesFrom (sound g held) node, fun turns enough => removeLoop_ends (sound g held) node enough⟩
  · intro g start
    cases start
    exact sound_new

/-- Index, edge set and removals are exact over every run, and subscriptions over every run that resolves resolvable graphs. -/
theorem graph_exact (actions : List Action) : Machine.Allowed step ExactStep (some {}) actions ∧
    (Machine.Allowed step ResolvableStep (some {}) actions → Machine.Allowed step SubscribedStep (some {}) actions) := by
  refine ⟨exact_run actions, ?_⟩
  intro resolvable
  refine Machine.allowed_mono sound_step ?_ ?_ actions resolvable
  · intro state action sound allowed g held resolves
    have fit := allowed g held resolves
    exact ⟨resolve_twice (sound g held) fit.1 fit.2.1, subscribed_resolve (sound g held) fit⟩
  · intro g start
    cases start
    exact sound_new

end Runs

section Examples

/-- The graph library gives the edge that was added last. -/
def lastOutgoing : List Edge → NodeIndex → Option Nat
  | [], _ => none
  | edge :: rest, node => ((lastOutgoing rest node).map (· + 1)).or (if edge.source = node then some 0 else none)

@[reducible] def OutgoingEdges.last : OutgoingEdges where
  first := lastOutgoing
  first_source edges node := by
    induction edges with
    | nil =>
        intro position found
        cases found
    | cons edge rest ih =>
        intro position found
        rcases Option.or_eq_some_iff.mp found with later | ⟨_, here⟩
        · obtain ⟨before, there, rfl⟩ := Option.map_eq_some_iff.mp later
          exact ih before there
        · split at here
          next same =>
            cases here
            exact ⟨edge, rfl, same⟩
          next => cases here
  first_none edges node := by
    induction edges with
    | nil =>
        intro _ edge member
        cases member
    | cons edge rest ih =>
        intro missing other member
        obtain ⟨later, here⟩ := Option.or_eq_none_iff.mp missing
        rcases List.mem_cons.mp member with rfl | member
        · intro same
          rw [if_pos same] at here
          cases here
        · exact ih (Option.map_eq_none_iff.mp later) other member

@[reducible] def plainKinds : LanguageData := ⟨[]⟩

@[reducible] def plainAlphanumeric : Alphanumeric := ⟨Char.isAlphanum⟩

attribute [local instance] LowercaseTables.latin OutgoingEdges.last plainKinds plainAlphanumeric

instance (g : InsightGraph) : Decidable g.Filed := inferInstanceAs (Decidable (∀ _ ∈ _, _))

instance (g : InsightGraph) : Decidable g.Stable := inferInstanceAs (Decidable (∀ _ ∈ _, _))

instance (g : InsightGraph) (i : NodeIndex) (kind : ObjectKind) : Decidable (g.OnlyKind i kind) :=
  inferInstanceAs (Decidable (∀ _ ∈ _, _ → _ → _))

instance (g : InsightGraph) (i : NodeIndex) (target : StatedTarget) : Decidable (g.AllTargets i target) :=
  inferInstanceAs (Decidable (∀ _ ∈ _, _ → _))

instance (g : InsightGraph) (i : NodeIndex) (target : StatedTarget) : Decidable (g.Lands i target) :=
  inferInstanceAs (Decidable (g.OnlyKind i target.kind ∧
    if target.object = "" ∨ target.event = "" ∨ g.landing (toLowercase target.object) (toLowercase target.event) = none then
      g.AllTargets i target
    else g.landing (toLowercase target.object) (toLowercase target.event) = some target.kind))

instance (g : InsightGraph) : Decidable g.Subscribed := inferInstanceAs (Decidable (∀ _ ∈ _, ∀ _ ∈ _, _ ∧ _))

instance (g : InsightGraph) : Decidable g.Resolvable :=
  inferInstanceAs (Decidable (g.Filed ∧ g.Stable ∧ ∀ entry ∈ g.nodes.zipIdx, ∀ target ∈ (g.nameTarget entry.1).statedTarget.toList,
    g.Lands entry.2 target))

def publisherOf (kind : ObjectKind) : SymbolEntry where
  kind := kind
  id := 50000
  name := "Log"
  methods := [⟨"OnPost", [], none, [⟨"IntegrationEvent", ["false", "false"]⟩], false⟩]

def subscriberOf (kind : String) : SymbolEntry where
  kind := .codeunit
  id := 50001
  name := "Audit"
  methods := [⟨"Handle", [], none, [⟨"EventSubscriber", ["ObjectType::" ++ kind, kind ++ "::Log", "'OnPost'", "''", "false", "false"]⟩], false⟩]

/-- A subscriber of the page is connected to the event of the table as well. -/
theorem page_passed_over : ¬ Machine.Allowed step SubscribedStep (some {})
    [.buildFromIndex [publisherOf .table, publisherOf .page, subscriberOf "Page"], .resolveSubscriberEdges] := by
  rintro ⟨_, resolved, _⟩
  have subscribed := (resolved _ rfl rfl).2
  revert subscribed
  decide +kernel

/-- A subscriber of the table is not. -/
theorem graph_exact_table : Machine.Allowed step SubscribedStep (some {})
    [.buildFromIndex [publisherOf .table, publisherOf .page, subscriberOf "Table"], .resolveSubscriberEdges] := by
  refine (graph_exact _).2 ⟨?_, ?_, trivial⟩
  · intro g _ resolves
    cases resolves
  · intro g built _
    cases built
    decide +kernel

end Examples

end InsightGraph

end AlLanguage.Insight
