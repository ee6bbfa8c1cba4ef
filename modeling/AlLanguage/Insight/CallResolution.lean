import AlLanguage.Insight.CallSites

/-!
# The edges that resolution leaves

- Each call gives its own edges whatever was resolved before it.
- When the last pass is over every object, the graph has the edges of all calls, and no others. Which objects were resolved
  earlier makes no difference.
-/

open Relation (ReflTransGen)

namespace AlLanguage.Insight

open Library Symbols
open AlLanguage.Runtime (CaseMapping toLowercase eqIgnoreAsciiCase unquoteIdentifier)
open CallGraph (nodeIdFor)

/-! ## What calls reach -/

/-- What is run when an event is raised. -/
inductive Raises (subscribed : Finset CallEdge) (event : NodeIndex) (kind : EdgeKind) : NodeIndex → EdgeKind → Prop where
  | event : Raises subscribed event kind event kind
  | subscriber {node : NodeIndex} (subscribes : ⟨node, event, .eventSubscription⟩ ∈ subscribed) :
      Raises subscribed event kind node .indirectCall

section Specification

variable [CaseMapping]

/-- What a member of an object can be. -/
inductive Reaches (insight : InsightGraph) (subscribed : Finset CallEdge) (target : ObjectKind × String) (method : String) :
    NodeIndex → EdgeKind → Prop where
  | procedure {node : NodeIndex} (found : nodeIdFor insight (.procedure target.1 (toLowercase target.2) method) = some node) :
      Reaches insight subscribed target method node .directCall
  | event {event node : NodeIndex} {kind : EdgeKind} (found : nodeIdFor insight (.event target.1 (toLowercase target.2) method) = some event)
      (raises : Raises subscribed event .directCall node kind) : Reaches insight subscribed target method node kind

/-- What a record operation on a table runs. -/
inductive Operates (insight : InsightGraph) (subscribed : Finset CallEdge) (table : String) (op : RecordOp) :
    NodeIndex → EdgeKind → Prop where
  | event {name : String} {event node : NodeIndex} {kind : EdgeKind} (named : name ∈ recordOpEventNames op)
      (found : nodeIdFor insight (.event .table (toLowercase table) (toLowercase name)) = some event)
      (raises : Raises subscribed event .recordTrigger node kind) : Operates insight subscribed table op node kind

variable (calls : ProcedureCalls) (objectKind : ObjectKind) (objectName : String) (symbols : SymbolIndex) (insight : InsightGraph)
  (subscribed : Finset CallEdge)

/-- The object that a call through a variable names. -/
def receiver (object : String) : String := (calls.objectVars.get? (toLowercase object)).getD object

/-- The nodes that a call can run. -/
inductive SiteCalls : CallSite → NodeIndex → EdgeKind → Prop where
  | procedure {name : String} {node : NodeIndex}
      (found : nodeIdFor insight (.procedure objectKind (toLowercase objectName) (toLowercase name)) = some node) :
      SiteCalls (.bareCall name) node .directCall
  | event {name : String} {event node : NodeIndex} {kind : EdgeKind}
      (missing : nodeIdFor insight (.procedure objectKind (toLowercase objectName) (toLowercase name)) = none)
      (found : nodeIdFor insight (.event objectKind (toLowercase objectName) (toLowercase name)) = some event)
      (raises : Raises subscribed event .directCall node kind) : SiteCalls (.bareCall name) node kind
  | ownOperation {name : String} {op : RecordOp} {node : NodeIndex} {kind : EdgeKind}
      (missing : nodeIdFor insight (.procedure objectKind (toLowercase objectName) (toLowercase name)) = none)
      (silent : nodeIdFor insight (.event objectKind (toLowercase objectName) (toLowercase name)) = none) (table : objectKind = .table)
      (operation : RecordOp.fromMethodName name = some op) (operates : Operates insight subscribed objectName op node kind) :
      SiteCalls (.bareCall name) node kind
  | ownMember {object method : String} {targets : List (ObjectKind × String)} {target : ObjectKind × String} {node : NodeIndex}
      {kind : EdgeKind} (own : selfTargets object objectKind objectName symbols = some targets) (member : target ∈ targets)
      (reaches : Reaches insight subscribed target (toLowercase method) node kind) : SiteCalls (.memberCall object method) node kind
  | member {object method : String} {entry : SymbolEntry} {node : NodeIndex} {kind : EdgeKind}
      (foreign : selfTargets object objectKind objectName symbols = none)
      (named : entry ∈ SymbolQueries.getByName symbols (receiver calls object))
      (reaches : Reaches insight subscribed (entry.kind, entry.name) (toLowercase method) node kind) :
      SiteCalls (.memberCall object method) node kind
  | implementor {object method : String} {interface entry : SymbolEntry} {node : NodeIndex}
      (foreign : selfTargets object objectKind objectName symbols = none)
      (named : interface ∈ SymbolQueries.getByName symbols (receiver calls object)) (isInterface : interface.kind = .interface)
      (implements : entry ∈ findInterfaceImplementors symbols (receiver calls object))
      (found : nodeIdFor insight (.procedure entry.kind (toLowercase entry.name) (toLowercase method)) = some node) :
      SiteCalls (.memberCall object method) node .indirectCall
  | operation {name table : String} {op : RecordOp} {runTrigger : Bool} {node : NodeIndex} {kind : EdgeKind}
      (record : tableOfVariable calls objectKind objectName name = some table)
      (operates : Operates insight subscribed table op node kind) : SiteCalls (.recordOp name op runTrigger) node kind
  | onRun {target : String} {node : NodeIndex}
      (found : nodeIdFor insight (.procedure .codeunit (toLowercase target) "onrun") = some node) :
      SiteCalls (.codeunitRun target) node .indirectCall

/-- The edges of the calls of a body. -/
def BodyCalls (caller : NodeIndex) (e : CallEdge) : Prop :=
  e.source = caller ∧ ∃ site ∈ calls.callSites, SiteCalls calls objectKind objectName symbols insight subscribed site e.target e.kind

end Specification

/-! ## What a step of the resolution adds -/

variable {insight : InsightGraph} {subscribed : Finset CallEdge} {cg : CallGraph} {held : CallEdge → Prop} {p q : CallEdge → Prop}
  {f g : CallGraph → CallGraph}

/-- The edges of a call graph. Its subscriptions are given. -/
structure Holds (subscribed : Finset CallEdge) (cg : CallGraph) (held : CallEdge → Prop) : Prop where
  records : ∃ edges, cg.Records edges ∧ ∀ e, e ∈ edges ↔ held e
  subscribed : ∀ e : CallEdge, e.kind = .eventSubscription → (held e ↔ e ∈ subscribed)

/-- The step adds these edges, whatever there was. -/
def Adds (subscribed : Finset CallEdge) (p : CallEdge → Prop) (f : CallGraph → CallGraph) : Prop :=
  ∀ cg held, Holds subscribed cg held → Holds subscribed (f cg) (fun e => held e ∨ p e) ∧ (f cg).resolution = cg.resolution

theorem Holds.congr {held' : CallEdge → Prop} (holds : Holds subscribed cg held) (same : ∀ e, held e ↔ held' e) :
    Holds subscribed cg held' := by
  obtain rfl : held = held' := funext fun e => propext (same e)
  exact holds

theorem Adds.congr (adds : Adds subscribed p f) (same : ∀ e, p e ↔ q e) : Adds subscribed q f := by
  obtain rfl : p = q := funext fun e => propext (same e)
  exact adds

theorem adds_nothing : Adds subscribed (fun _ => False) fun cg => cg :=
  fun _ _ holds => ⟨holds.congr fun _ => (iff_of_eq (or_false _)).symm, rfl⟩

theorem Adds.comp (first : Adds subscribed p f) (second : Adds subscribed q g) : Adds subscribed (fun e => p e ∨ q e) fun cg => g (f cg) := by
  intro cg held holds
  obtain ⟨holds', same⟩ := first cg held holds
  obtain ⟨holds'', same'⟩ := second _ _ holds'
  exact ⟨holds''.congr fun _ => or_assoc, same'.trans same⟩

theorem adds_foldl {α : Type} {p : α → CallEdge → Prop} (items : List α) (step : CallGraph → α → CallGraph)
    (each : ∀ a ∈ items, Adds subscribed (p a) fun cg => step cg a) :
    Adds subscribed (fun e => ∃ a ∈ items, p a e) fun cg => items.foldl step cg := by
  induction items with
  | nil => exact adds_nothing.congr fun e => by simp
  | cons a rest ih =>
      have later := ih fun b member => each b (List.mem_cons_of_mem _ member)
      exact ((each a List.mem_cons_self).comp later).congr fun e => by simp

theorem CallGraph.resolution_insertEdge (cg : CallGraph) (edge : CallEdge) : (cg.insertEdge edge).resolution = cg.resolution := by
  unfold CallGraph.insertEdge
  split <;> rfl

theorem adds_insertEdge (edge : CallEdge) (other : edge.kind ≠ .eventSubscription) :
    Adds subscribed (fun e => e = edge) fun cg => cg.insertEdge edge := by
  intro cg held holds
  obtain ⟨edges, records, same⟩ := holds.records
  refine ⟨⟨⟨_, CallGraph.records_insertEdge records edge, ?_⟩, ?_⟩, ?_⟩
  · intro e
    rw [Finset.mem_insert, same]
    exact or_comm
  · intro e kind
    rw [holds.subscribed e kind, or_iff_left]
    rintro rfl
    exact other kind
  · exact CallGraph.resolution_insertEdge cg edge

theorem adds_linkEventSubscribers (caller event : NodeIndex) :
    Adds subscribed (fun e => e.source = caller ∧ ⟨e.target, event, .eventSubscription⟩ ∈ subscribed ∧ e.kind = .indirectCall)
      (linkEventSubscribers caller event) := by
  intro cg held holds
  obtain ⟨edges, records, same⟩ := holds.records
  obtain ⟨holds', kept⟩ := adds_foldl (cg.subscribersOf event) (fun cg subscriber => cg.addIndirectCall caller subscriber)
    (fun subscriber _ => adds_insertEdge ⟨caller, subscriber, .indirectCall⟩ (by simp)) cg held holds
  refine ⟨holds'.congr fun e => or_congr_right ?_, kept⟩
  constructor
  · rintro ⟨subscriber, member, rfl⟩
    exact ⟨rfl, (holds.subscribed _ rfl).mp ((same _).mp ((records.mem_subscribersOf event subscriber).mp member)), rfl⟩
  · rintro ⟨rfl, there, kind⟩
    refine ⟨e.target, (records.mem_subscribersOf event _).mpr ((same _).mpr ((holds.subscribed _ rfl).mpr there)), ?_⟩
    rw [← kind]

/-- An event that is reached by an edge of some kind. -/
theorem adds_event (kind : EdgeKind) (other : kind ≠ .eventSubscription) (caller event : NodeIndex) :
    Adds subscribed (fun e => e.source = caller ∧ Raises subscribed event kind e.target e.kind)
      fun cg => linkEventSubscribers caller event (cg.insertEdge ⟨caller, event, kind⟩) := by
  refine ((adds_insertEdge _ other).comp (adds_linkEventSubscribers caller event)).congr ?_
  rintro ⟨source, target, kind'⟩
  constructor
  · rintro (same | ⟨rfl, subscribes, rfl⟩)
    · cases same
      exact ⟨rfl, .event⟩
    · exact ⟨rfl, .subscriber subscribes⟩
  · rintro ⟨rfl, raises⟩
    cases raises with
    | event => exact .inl rfl
    | subscriber subscribes => exact .inr ⟨rfl, subscribes, rfl⟩

section Calls

/-- A call found in the graph is one edge, from its caller. -/
theorem adds_found (caller : NodeIndex) (found : Option NodeIndex) : Adds subscribed
    (fun e => e.source = caller ∧ found = some e.target ∧ e.kind = .directCall)
    fun cg => match found with
      | some callee => cg.addDirectCall caller callee
      | none => cg := by
  cases found with
  | none => exact adds_nothing.congr fun e => by simp
  | some callee =>
      refine (adds_insertEdge _ (by simp)).congr ?_
      rintro ⟨source, target, kind⟩
      simp only [CallEdge.mk.injEq, Option.some.injEq]
      tauto

theorem adds_foundEvent (caller : NodeIndex) (found : Option NodeIndex) : Adds subscribed
    (fun e => e.source = caller ∧ ∃ event, found = some event ∧ Raises subscribed event .directCall e.target e.kind)
    fun cg => match found with
      | some event => linkEventSubscribers caller event (cg.addDirectCall caller event)
      | none => cg := by
  cases found with
  | none => exact adds_nothing.congr fun e => by simp
  | some event => exact (adds_event _ (by simp) caller event).congr fun e => by simp

theorem adds_foundTrigger (caller : NodeIndex) (found : Option NodeIndex) : Adds subscribed
    (fun e => e.source = caller ∧ ∃ event, found = some event ∧ Raises subscribed event .recordTrigger e.target e.kind)
    fun cg => match found with
      | some event => linkEventSubscribers caller event (cg.addTrigger caller event)
      | none => cg := by
  cases found with
  | none => exact adds_nothing.congr fun e => by simp
  | some event => exact (adds_event _ (by simp) caller event).congr fun e => by simp

variable [CaseMapping]

theorem adds_linkMember (caller : NodeIndex) (method : String) (target : ObjectKind × String) :
    Adds subscribed (fun e => e.source = caller ∧ Reaches insight subscribed target method e.target e.kind)
      fun cg => linkMember insight caller method cg target := by
  have procedure : Adds subscribed _ _ := adds_found caller (nodeIdFor insight (.procedure target.1 (toLowercase target.2) method))
  have event : Adds subscribed _ _ := adds_foundEvent caller (nodeIdFor insight (.event target.1 (toLowercase target.2) method))
  refine (procedure.comp event).congr ?_
  rintro ⟨source, node, kind⟩
  constructor
  · rintro (⟨rfl, found, rfl⟩ | ⟨rfl, event, found, raises⟩)
    · exact ⟨rfl, .procedure found⟩
    · exact ⟨rfl, .event found raises⟩
  · rintro ⟨rfl, reaches⟩
    cases reaches with
    | procedure found => exact .inl ⟨rfl, found, rfl⟩
    | event found raises => exact .inr ⟨rfl, _, found, raises⟩

omit [CaseMapping] in
theorem adds_linkIndirect (caller : NodeIndex) (key : NodeKey) :
    Adds subscribed (fun e => e.source = caller ∧ nodeIdFor insight key = some e.target ∧ e.kind = .indirectCall)
      fun cg => linkIndirect insight caller cg key := by
  unfold linkIndirect
  cases nodeIdFor insight key with
  | none => exact adds_nothing.congr fun e => by simp
  | some callee =>
      refine (adds_insertEdge _ (by simp)).congr ?_
      rintro ⟨source, target, kind⟩
      simp only [CallEdge.mk.injEq, Option.some.injEq]
      tauto

theorem adds_linkRecordOpEvents (caller : NodeIndex) (table : String) (op : RecordOp) :
    Adds subscribed (fun e => e.source = caller ∧ Operates insight subscribed table op e.target e.kind)
      (linkRecordOpEvents caller table op insight) := by
  refine (adds_foldl (recordOpEventNames op) _ fun name _ =>
    adds_foundTrigger caller (nodeIdFor insight (.event .table (toLowercase table) (toLowercase name)))).congr ?_
  rintro ⟨source, node, kind⟩
  constructor
  · rintro ⟨name, named, rfl, event, found, raises⟩
    exact ⟨rfl, .event named found raises⟩
  · rintro ⟨rfl, operates⟩
    cases operates with
    | event named found raises => exact ⟨_, named, rfl, _, found, raises⟩

variable (calls : ProcedureCalls) (objectKind : ObjectKind) (objectName : String) (symbols : SymbolIndex)

/-- A call through an interface reaches the codeunits that implement it. -/
theorem adds_implementors (caller : NodeIndex) (resolved method : String) :
    Adds subscribed (fun e => e.source = caller ∧ (∃ interface ∈ SymbolQueries.getByName symbols resolved, interface.kind = .interface) ∧
      ∃ entry ∈ findInterfaceImplementors symbols resolved,
        nodeIdFor insight (.procedure entry.kind (toLowercase entry.name) method) = some e.target ∧ e.kind = .indirectCall)
      fun cg => if (SymbolQueries.getByName symbols resolved).any fun entry => entry.kind = .interface then
        ((findInterfaceImplementors symbols resolved).map fun entry =>
          NodeKey.procedure entry.kind (toLowercase entry.name) method).foldl (linkIndirect insight caller) cg
      else cg := by
  by_cases saw : ((SymbolQueries.getByName symbols resolved).any fun entry => entry.kind = .interface) = true
  · have interfaces : ∃ interface ∈ SymbolQueries.getByName symbols resolved, interface.kind = .interface := by
      simpa [List.any_eq_true] using saw
    simp only [if_pos saw]
    refine (adds_foldl _ _ fun key _ => adds_linkIndirect caller key).congr ?_
    intro e
    constructor
    · rintro ⟨key, member, source, found, kind⟩
      obtain ⟨entry, implements, rfl⟩ := List.mem_map.mp member
      exact ⟨source, interfaces, entry, implements, found, kind⟩
    · rintro ⟨source, _, entry, implements, found, kind⟩
      exact ⟨_, List.mem_map_of_mem implements, source, found, kind⟩
  · simp only [if_neg saw]
    refine adds_nothing.congr fun e => iff_of_false id ?_
    rintro ⟨_, ⟨interface, named, isInterface⟩, _⟩
    exact saw (List.any_eq_true.mpr ⟨interface, named, by simpa using isInterface⟩)

/-- A call adds the edges to the nodes that it can run. -/
theorem adds_resolveSite (caller : NodeIndex) (site : CallSite) :
    Adds subscribed (fun e => e.source = caller ∧ SiteCalls calls objectKind objectName symbols insight subscribed site e.target e.kind)
      fun cg => resolveSite calls objectKind objectName symbols insight caller cg site := by
  cases site with
  | bareCall name =>
      unfold resolveSite
      dsimp only
      cases procedure : nodeIdFor insight (.procedure objectKind (toLowercase objectName) (toLowercase name)) with
      | some callee =>
          refine (adds_insertEdge ⟨caller, callee, .directCall⟩ (by simp)).congr ?_
          rintro ⟨source, node, kind⟩
          constructor
          · intro same
            cases same
            exact ⟨rfl, .procedure procedure⟩
          · rintro ⟨rfl, reaches⟩
            cases reaches with
            | procedure found =>
                rw [procedure] at found
                cases found
                rfl
            | event missing => rw [procedure] at missing; cases missing
            | ownOperation missing => rw [procedure] at missing; cases missing
      | none =>
          dsimp only
          cases event : nodeIdFor insight (.event objectKind (toLowercase objectName) (toLowercase name)) with
          | some event' =>
              refine (adds_event .directCall (by simp) caller event').congr ?_
              rintro ⟨source, node, kind⟩
              constructor
              · rintro ⟨rfl, raises⟩
                exact ⟨rfl, .event procedure event raises⟩
              · rintro ⟨rfl, reaches⟩
                cases reaches with
                | procedure found => rw [procedure] at found; cases found
                | event _ found raises =>
                    rw [event] at found
                    cases found
                    exact ⟨rfl, raises⟩
                | ownOperation _ silent => rw [event] at silent; cases silent
          | none =>
              dsimp only
              cases operation : (if objectKind = .table then RecordOp.fromMethodName name else none) with
              | some op =>
                  obtain ⟨table, operation'⟩ : objectKind = .table ∧ RecordOp.fromMethodName name = some op := by
                    split at operation
                    next table => exact ⟨table, operation⟩
                    next => cases operation
                  refine (adds_linkRecordOpEvents caller objectName op).congr ?_
                  rintro ⟨source, node, kind⟩
                  constructor
                  · rintro ⟨rfl, operates⟩
                    exact ⟨rfl, .ownOperation procedure event table operation' operates⟩
                  · rintro ⟨rfl, reaches⟩
                    cases reaches with
                    | procedure found => rw [procedure] at found; cases found
                    | event _ found => rw [event] at found; cases found
                    | ownOperation _ _ _ found operates =>
                        rw [operation'] at found
                        cases found
                        exact ⟨rfl, operates⟩
              | none =>
                  refine adds_nothing.congr ?_
                  rintro ⟨source, node, kind⟩
                  refine iff_of_false id ?_
                  rintro ⟨rfl, reaches⟩
                  cases reaches with
                  | procedure found => rw [procedure] at found; cases found
                  | event _ found => rw [event] at found; cases found
                  | ownOperation _ _ table found =>
                      rw [if_pos table, found] at operation
                      cases operation
  | memberCall object method =>
      unfold resolveSite
      dsimp only
      cases own : selfTargets object objectKind objectName symbols with
      | some targets =>
          refine (adds_foldl targets _ fun target _ => adds_linkMember caller (toLowercase method) target).congr ?_
          rintro ⟨source, node, kind⟩
          constructor
          · rintro ⟨target, member, rfl, reaches⟩
            exact ⟨rfl, .ownMember own member reaches⟩
          · rintro ⟨rfl, reaches⟩
            cases reaches with
            | ownMember own' member reaches =>
                rw [own] at own'
                cases own'
                exact ⟨_, member, rfl, reaches⟩
            | member foreign => rw [own] at foreign; cases foreign
            | implementor foreign => rw [own] at foreign; cases foreign
      | none =>
          dsimp only
          refine ((adds_foldl _ _ fun target _ => adds_linkMember caller (toLowercase method) target).comp
            (adds_implementors symbols caller (receiver calls object) (toLowercase method))).congr ?_
          rintro ⟨source, node, kind⟩
          constructor
          · rintro (⟨target, member, rfl, reaches⟩ | ⟨rfl, ⟨interface, named, isInterface⟩, entry, implements, found, rfl⟩)
            · obtain ⟨entry, named, rfl⟩ := List.mem_map.mp member
              exact ⟨rfl, .member own named reaches⟩
            · exact ⟨rfl, .implementor own named isInterface implements found⟩
          · rintro ⟨rfl, reaches⟩
            cases reaches with
            | ownMember own' => rw [own] at own'; cases own'
            | member _ named reaches => exact .inl ⟨_, List.mem_map_of_mem named, rfl, reaches⟩
            | implementor _ named isInterface implements found =>
                exact .inr ⟨rfl, ⟨_, named, isInterface⟩, _, implements, found, rfl⟩
  | recordOp name op runTrigger =>
      unfold resolveSite
      dsimp only
      cases record : tableOfVariable calls objectKind objectName name with
      | some table =>
          refine (adds_linkRecordOpEvents caller table op).congr ?_
          rintro ⟨source, node, kind⟩
          constructor
          · rintro ⟨rfl, operates⟩
            exact ⟨rfl, .operation record operates⟩
          · rintro ⟨rfl, reaches⟩
            cases reaches with
            | operation record' operates =>
                rw [record] at record'
                cases record'
                exact ⟨rfl, operates⟩
      | none =>
          refine adds_nothing.congr ?_
          rintro ⟨source, node, kind⟩
          refine iff_of_false id ?_
          rintro ⟨rfl, reaches⟩
          cases reaches with
          | operation record' => rw [record] at record'; cases record'
  | codeunitRun target =>
      refine (adds_linkIndirect caller (.procedure .codeunit (toLowercase target) "onrun")).congr ?_
      rintro ⟨source, node, kind⟩
      constructor
      · rintro ⟨rfl, found, rfl⟩
        exact ⟨rfl, .onRun found⟩
      · rintro ⟨rfl, reaches⟩
        cases reaches with
        | onRun found => exact ⟨rfl, found, rfl⟩

theorem adds_resolveCallsFrom (caller : NodeIndex) :
    Adds subscribed (BodyCalls calls objectKind objectName symbols insight subscribed caller)
      (resolveCallsFrom calls objectKind objectName symbols insight caller) := by
  refine (adds_foldl calls.callSites _ fun site _ => adds_resolveSite calls objectKind objectName symbols caller site).congr ?_
  intro e
  constructor
  · rintro ⟨site, member, source, reaches⟩
    exact ⟨source, site, member, reaches⟩
  · rintro ⟨source, site, member, reaches⟩
    exact ⟨site, member, source, reaches⟩

end Calls

end AlLanguage.Insight
