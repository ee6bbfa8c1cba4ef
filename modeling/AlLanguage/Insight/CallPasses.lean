import AlLanguage.Insight.CallResolution

/-!
# Resolution in passes

- A pass resolves some of the objects, and can leave the others to a later pass.
- When one of the passes was over every object, the call graph has the edges of all calls, and no others, in whatever order the passes
  went and wherever the threshold of the eager passes was.
-/

open Relation (ReflTransGen)

namespace AlLanguage.Insight

open Library Symbols
open AlLanguage.Runtime (CaseMapping toLowercase unquoteIdentifier)
open CallGraph (nodeIdFor)

section Passes

variable [CaseMapping] (symbols : SymbolIndex) (insight : InsightGraph) (files : List SummarizedFile)

inductive Pass where
  | populate
  | interfaces
  | all
  deriving DecidableEq

def pass (cg : CallGraph) : Pass → Except SourceGraphError CallGraph
  | .populate => (populateSummaryCallEdges symbols insight files cg).map (·.2)
  | .interfaces => .ok (linkInterfaceImplementers symbols insight cg)
  | .all => (resolveAllSummaryCallEdges symbols insight files cg).map (·.2)

/-! ## What the sources say -/

/-- The edges of a declaration: of all bodies under its name. -/
def DeclCalls (object : ObjectSummary) (kind : ObjectKind) (member : String) (e : CallEdge) : Prop :=
  ∃ id, callableNodeId insight kind object.name member = some id ∧
    ∃ calls ∈ (object.calls.get? (toLowercase member)).getD [],
      BodyCalls calls kind object.name symbols insight (CallGraph.subscriptions insight) id e

/-- The edges of the calls that are in no procedure. -/
def HeadCalls (object : ObjectSummary) (kind : ObjectKind) (e : CallEdge) : Prop :=
  ∃ id, nodeIdFor insight (.object kind (toLowercase object.name)) = some id ∧
    BodyCalls object.headCalls kind object.name symbols insight (CallGraph.subscriptions insight) id e

inductive ObjectCalls (object : ObjectSummary) (e : CallEdge) : Prop where
  | declaration {kind : ObjectKind} {decl : ProcedureDecl} (known : ObjectKind.parse object.kind = some kind)
      (declared : decl ∈ object.procedures) (calls : DeclCalls symbols insight object kind decl.name e) : ObjectCalls object e
  | head {kind : ObjectKind} (known : ObjectKind.parse object.kind = some kind) (calls : HeadCalls symbols insight object kind e) :
      ObjectCalls object e

/-- A procedure of an interface reaches those of the codeunits that implement it. -/
def InterfaceCalls (e : CallEdge) : Prop :=
  ∃ entry ∈ SymbolQueries.getByKind symbols .codeunit, ∃ interface ∈ entry.implements,
    nodeIdFor insight (.object .interface (toLowercase (unquoteIdentifier interface))) = some e.source ∧
      ∃ method ∈ SymbolQueries.interfaceMethodNames symbols (unquoteIdentifier interface),
        nodeIdFor insight (.procedure .codeunit (toLowercase entry.name) method) = some e.target ∧ e.kind = .indirectCall

/-- Every edge that a graph can have. -/
inductive Stated (passes : List Pass) (e : CallEdge) : Prop where
  | subscription (subscribes : e ∈ CallGraph.subscriptions insight) : Stated passes e
  | interface (linked : .interfaces ∈ passes) (calls : InterfaceCalls symbols insight e) : Stated passes e
  | object {file : SummarizedFile} {object : ObjectSummary} (inside : file ∈ files) (declared : object ∈ file.objects)
      (calls : ObjectCalls symbols insight object e) : Stated passes e

/-- No two objects have one kind and one name. -/
def Distinct : Prop :=
  ∀ a ∈ summarizedObjects files, ∀ b ∈ summarizedObjects files, ObjectKind.parse a.2.kind = ObjectKind.parse b.2.kind →
    toLowercase a.2.name = toLowercase b.2.name → a.2 = b.2

omit [CaseMapping] in
theorem mem_summarizedObjects (placed : Placed) :
    placed ∈ summarizedObjects files ↔ ∃ file ∈ files, placed.1 = file.path ∧ placed.2 ∈ file.objects := by
  rw [summarizedObjects, mem_sortBy, List.mem_flatMap]
  constructor
  · rintro ⟨file, inside, member⟩
    obtain ⟨object, declared, rfl⟩ := List.mem_map.mp member
    exact ⟨file, inside, rfl, declared⟩
  · rintro ⟨file, inside, path, declared⟩
    refine ⟨file, inside, List.mem_map.mpr ⟨_, declared, ?_⟩⟩
    rw [← path]

/-- A node has the body of one member of one object. -/
theorem one_callable (sound : insight.Sound) {kind kind' : ObjectKind} {object object' member member' : String} {id : NodeIndex}
    (found : callableNodeId insight kind object member = some id) (found' : callableNodeId insight kind' object' member' = some id) :
    kind = kind' ∧ toLowercase object = toLowercase object' ∧ toLowercase member = toLowercase member' := by
  obtain ⟨key, listed, here⟩ := List.exists_of_findSome?_eq_some found
  obtain ⟨key', listed', here'⟩ := List.exists_of_findSome?_eq_some found'
  have same := sound.oneKey key key' id (List.mem_of_mem_head? here) (List.mem_of_mem_head? here')
  subst same
  simp only [List.mem_cons, List.not_mem_nil, or_false] at listed listed'
  rcases listed with rfl | rfl | rfl <;> simpa using listed'

/-! ## What a pass keeps -/

/-- An edge of the graph. -/
def CallGraph.Has (cg : CallGraph) (e : CallEdge) : Prop := e ∈ cg.calleesOf e.source

section Edges

variable {subscribed : Finset CallEdge} {cg : CallGraph} {held p : CallEdge → Prop} {f : CallGraph → CallGraph}

omit [CaseMapping] in
theorem Holds.has (holds : Holds subscribed cg held) (e : CallEdge) : held e ↔ cg.Has e := by
  obtain ⟨edges, records, same⟩ := holds.records
  rw [CallGraph.Has, records.mem_calleesOf, same]
  exact (and_iff_left rfl).symm

omit [CaseMapping] in
theorem Adds.has (adds : Adds subscribed p f) (holds : Holds subscribed cg cg.Has) :
    Holds subscribed (f cg) (f cg).Has ∧ (∀ e, (f cg).Has e ↔ cg.Has e ∨ p e) ∧ (f cg).resolution = cg.resolution := by
  obtain ⟨holds', same⟩ := adds cg cg.Has holds
  exact ⟨holds'.congr holds'.has, fun e => (holds'.has e).symm, same⟩

omit [CaseMapping] in
theorem resolutionState_set (cg : CallGraph) (node other : NodeIndex) (state : EdgeResolutionState) :
    (cg.setResolutionState node state).resolutionState other = if node = other then state else cg.resolutionState other := by
  unfold CallGraph.setResolutionState CallGraph.resolutionState
  dsimp only
  rw [IndexMap.get?_insert]
  split <;> rfl

omit [CaseMapping] in
theorem holds_setResolutionState (holds : Holds subscribed cg held) (node : NodeIndex) (state : EdgeResolutionState) :
    Holds subscribed (cg.setResolutionState node state) held := by
  obtain ⟨edges, records, same⟩ := holds.records
  exact ⟨⟨edges, ⟨records.outgoing, records.incoming⟩, same⟩, holds.subscribed⟩

end Edges

variable {symbols insight files} {passes : List Pass} {cg : CallGraph} {kind : ObjectKind} {placed : Placed} {decl : ProcedureDecl}
  {needs : EdgeResolutionState → Bool}

/-- Between two declarations: the edges are stated, and the resolved members have all of theirs. -/
structure Stage (symbols : SymbolIndex) (insight : InsightGraph) (files : List SummarizedFile) (passes : List Pass) (cg : CallGraph) :
    Prop where
  holds : Holds (CallGraph.subscriptions insight) cg cg.Has
  within : ∀ e, cg.Has e → Stated symbols insight files passes e
  done : ∀ placed ∈ summarizedObjects files, ∀ kind, ObjectKind.parse placed.2.kind = some kind → ∀ decl ∈ placed.2.procedures, ∀ id,
    callableNodeId insight kind placed.2.name decl.name = some id → cg.resolutionState id = .resolved →
    ∀ e, DeclCalls symbols insight placed.2 kind decl.name e → cg.Has e

/-- No edge and no resolution is lost. -/
structure Later (cg cg' : CallGraph) : Prop where
  has : ∀ e, cg.Has e → cg'.Has e
  resolved : ∀ id, cg.resolutionState id = .resolved → cg'.resolutionState id = .resolved

omit [CaseMapping] in
theorem Later.refl (cg : CallGraph) : Later cg cg := ⟨fun _ => id, fun _ => id⟩

omit [CaseMapping] in
theorem Later.trans {a b c : CallGraph} (first : Later a b) (second : Later b c) : Later a c :=
  ⟨fun e there => second.has e (first.has e there), fun id there => second.resolved id (first.resolved id there)⟩

theorem Stage.add {p : CallEdge → Prop} {f : CallGraph → CallGraph} (stage : Stage symbols insight files passes cg)
    (adds : Adds (CallGraph.subscriptions insight) p f) (stated : ∀ e, p e → Stated symbols insight files passes e) :
    Stage symbols insight files passes (f cg) ∧ Later cg (f cg) ∧ ∀ e, p e → (f cg).Has e := by
  obtain ⟨holds, has, resolution⟩ := adds.has stage.holds
  have states (id : NodeIndex) : (f cg).resolutionState id = cg.resolutionState id := by
    unfold CallGraph.resolutionState
    rw [resolution]
  refine ⟨⟨holds, ?_, ?_⟩, ⟨fun e there => (has e).mpr (.inl there), fun id there => (states id).trans there⟩,
    fun e there => (has e).mpr (.inr there)⟩
  · intro e there
    rcases (has e).mp there with before | new
    · exact stage.within e before
    · exact stated e new
  · intro placed listed kind known decl declared id found resolved e calls
    exact (has e).mpr (.inl (stage.done placed listed kind known decl declared id found ((states id).symm.trans resolved) e calls))

/-- A member is resolved when its edges are there. -/
theorem Stage.set_resolved (stage : Stage symbols insight files passes cg) (sound : insight.Sound) (distinct : Distinct files)
    (listed : placed ∈ summarizedObjects files) (known : ObjectKind.parse placed.2.kind = some kind)
    {id : NodeIndex} (found : callableNodeId insight kind placed.2.name decl.name = some id)
    (has : ∀ e, DeclCalls symbols insight placed.2 kind decl.name e → cg.Has e) :
    Stage symbols insight files passes (cg.setResolutionState id .resolved) := by
  refine ⟨holds_setResolutionState stage.holds id _, stage.within, ?_⟩
  intro placed' listed' kind' known' decl' declared' id' found' resolved e calls
  by_cases same : id = id'
  · subst same
    obtain ⟨rfl, names, members⟩ := one_callable insight sound found found'
    have object : placed.2 = placed'.2 := distinct placed listed placed' listed' (known.trans known'.symm) names
    apply has
    unfold DeclCalls callableNodeId at calls ⊢
    rw [object, members]
    exact calls
  · rw [resolutionState_set, if_neg same] at resolved
    exact stage.done placed' listed' kind' known' decl' declared' id' found' resolved e calls

theorem Stage.set_resolving (stage : Stage symbols insight files passes cg) (id : NodeIndex) :
    Stage symbols insight files passes (cg.setResolutionState id .resolving) := by
  refine ⟨holds_setResolutionState stage.holds id _, stage.within, ?_⟩
  intro placed listed kind known decl declared id' found resolved e calls
  rw [resolutionState_set] at resolved
  split at resolved
  next => cases resolved
  next => exact stage.done placed listed kind known decl declared id' found resolved e calls

theorem adds_declCalls {id : NodeIndex} (found : callableNodeId insight kind placed.2.name decl.name = some id) :
    Adds (CallGraph.subscriptions insight) (DeclCalls symbols insight placed.2 kind decl.name) fun cg =>
      ((placed.2.calls.get? (toLowercase decl.name)).getD []).foldl (fun cg calls =>
        resolveProcedureCalls calls kind placed.2.name symbols insight decl.name cg) cg := by
  have each (calls : ProcedureCalls) : Adds (CallGraph.subscriptions insight)
      (BodyCalls calls kind placed.2.name symbols insight (CallGraph.subscriptions insight) id)
      (resolveProcedureCalls calls kind placed.2.name symbols insight decl.name) := by
    have same : resolveProcedureCalls calls kind placed.2.name symbols insight decl.name =
        resolveCallsFrom calls kind placed.2.name symbols insight id := by
      funext cg
      unfold resolveProcedureCalls
      rw [found]
    rw [same]
    exact adds_resolveCallsFrom calls kind placed.2.name symbols id
  refine (adds_foldl _ _ fun calls _ => each calls).congr fun e => ?_
  constructor
  · exact fun calls => ⟨id, found, calls⟩
  · rintro ⟨id', found', calls⟩
    rw [found] at found'
    cases found'
    exact calls

theorem adds_headCalls (object : ObjectSummary) (kind : ObjectKind) :
    Adds (CallGraph.subscriptions insight) (HeadCalls symbols insight object kind)
      (resolveObjectHeadCalls object.headCalls kind object.name symbols insight) := by
  unfold resolveObjectHeadCalls
  by_cases empty : object.headCalls.callSites.isEmpty
  · simp only [if_pos empty]
    refine adds_nothing.congr fun e => iff_of_false id ?_
    rintro ⟨_, _, _, site, member, _⟩
    rw [List.isEmpty_iff.mp empty] at member
    cases member
  · simp only [if_neg empty]
    cases found : nodeIdFor insight (.object kind (toLowercase object.name)) with
    | none =>
        refine adds_nothing.congr fun e => iff_of_false id ?_
        rintro ⟨id, found', _⟩
        rw [found] at found'
        cases found'
    | some id =>
        refine (adds_resolveCallsFrom object.headCalls kind object.name symbols id).congr fun e => ?_
        constructor
        · exact fun calls => ⟨id, found, calls⟩
        · rintro ⟨id', found', calls⟩
          rw [found] at found'
          cases found'
          exact calls

/-! ## One step of a pass -/

/-- A pass that leaves nothing unresolved. -/
def Complete (needs : EdgeResolutionState → Bool) : Prop := ∀ state, state ≠ .resolved → needs state = true

theorem stage_resolveDecl (sound : insight.Sound) (distinct : Distinct files) (listed : placed ∈ summarizedObjects files)
    (known : ObjectKind.parse placed.2.kind = some kind) (declared : decl ∈ placed.2.procedures) {state state' : Nat × CallGraph}
    (stage : Stage symbols insight files passes state.2)
    (answered : resolveDecl symbols insight needs placed.1 placed.2 kind state decl = .ok state') :
    Stage symbols insight files passes state'.2 ∧ Later state.2 state'.2 ∧
      (Complete needs → ∀ id, callableNodeId insight kind placed.2.name decl.name = some id → state'.2.resolutionState id = .resolved) := by
  unfold resolveDecl at answered
  cases found : callableNodeId insight kind placed.2.name decl.name with
  | none =>
      rw [found] at answered
      cases answered
  | some id =>
      rw [found] at answered
      dsimp only at answered
      split at answered
      next wanted =>
        cases answered
        obtain ⟨linked, later, has⟩ := (stage.set_resolving id).add (adds_declCalls found) fun e calls => by
          obtain ⟨file, inside, _, object⟩ := (mem_summarizedObjects files placed).mp listed
          exact .object inside object (.declaration known declared calls)
        refine ⟨linked.set_resolved sound distinct listed known found has, ⟨later.has, ?_⟩, ?_⟩
        · intro id' resolved
          rw [resolutionState_set]
          split
          next => rfl
          next apart =>
            apply later.resolved
            rw [resolutionState_set, if_neg apart]
            exact resolved
        · rintro _ _ ⟨⟩
          rw [resolutionState_set, if_pos rfl]
      next skipped =>
        cases answered
        refine ⟨stage, .refl _, ?_⟩
        rintro complete _ ⟨⟩
        by_contra unresolved
        exact skipped (complete _ unresolved)

/-- The members of an object are resolved, and the calls of its heads are there. -/
structure Finished (symbols : SymbolIndex) (insight : InsightGraph) (placed : Placed) (cg : CallGraph) : Prop where
  resolved : ∀ kind, ObjectKind.parse placed.2.kind = some kind → ∀ decl ∈ placed.2.procedures, ∀ id,
    callableNodeId insight kind placed.2.name decl.name = some id → cg.resolutionState id = .resolved
  heads : ∀ kind, ObjectKind.parse placed.2.kind = some kind → ∀ e, HeadCalls symbols insight placed.2 kind e → cg.Has e

theorem Finished.later {cg' : CallGraph} (later : Later cg cg') (finished : Finished symbols insight placed cg) :
    Finished symbols insight placed cg' :=
  ⟨fun kind known decl declared id found => later.resolved id (finished.resolved kind known decl declared id found),
    fun kind known e calls => later.has e (finished.heads kind known e calls)⟩

theorem stage_procedures (sound : insight.Sound) (distinct : Distinct files) (listed : placed ∈ summarizedObjects files)
    (known : ObjectKind.parse placed.2.kind = some kind) {state state' : Nat × CallGraph}
    (stage : Stage symbols insight files passes state.2)
    (answered : placed.2.procedures.foldlM (resolveDecl symbols insight needs placed.1 placed.2 kind) state = .ok state') :
    Stage symbols insight files passes state'.2 ∧ Later state.2 state'.2 ∧ ∀ decl ∈ placed.2.procedures, Complete needs →
      ∀ id, callableNodeId insight kind placed.2.name decl.name = some id → state'.2.resolutionState id = .resolved := by
  refine @Machine.foldlM_done _ _ _ (resolveDecl symbols insight needs placed.1 placed.2 kind)
    (fun s : Nat × CallGraph => Stage symbols insight files passes s.2) (fun s t => Later s.2 t.2) (fun decl s => Complete needs →
      ∀ id, callableNodeId insight kind placed.2.name decl.name = some id → s.2.resolutionState id = .resolved)
    ?_ ?_ ?_ placed.2.procedures ?_ state state' stage answered
  · exact fun s => .refl s.2
  · exact fun _ _ _ => .trans
  · exact fun _ _ _ later resolved complete id found => later.resolved id (resolved complete id found)
  · exact fun s decl declared t stage now => stage_resolveDecl sound distinct listed known declared stage now

theorem stage_resolveObject (sound : insight.Sound) (distinct : Distinct files) (listed : placed ∈ summarizedObjects files)
    {state state' : Nat × CallGraph} (stage : Stage symbols insight files passes state.2)
    (answered : resolveObject symbols insight needs state placed = .ok state') :
    Stage symbols insight files passes state'.2 ∧ Later state.2 state'.2 ∧ (Complete needs → Finished symbols insight placed state'.2) := by
  unfold resolveObject at answered
  cases known : ObjectKind.parse placed.2.kind with
  | none =>
      rw [known] at answered
      cases answered
  | some kind =>
      rw [known] at answered
      dsimp only at answered
      cases members : placed.2.procedures.foldlM (resolveDecl symbols insight needs placed.1 placed.2 kind) state with
      | error e =>
          rw [members] at answered
          cases answered
      | ok middle =>
          rw [members] at answered
          cases answered
          obtain ⟨stage', later, resolved⟩ := stage_procedures sound distinct listed known stage members
          obtain ⟨stage'', later', has⟩ := stage'.add (adds_headCalls placed.2 kind) fun e calls => by
            obtain ⟨file, inside, _, object⟩ := (mem_summarizedObjects files placed).mp listed
            exact .object inside object (.head known calls)
          refine ⟨stage'', later.trans later', fun complete => ⟨?_, ?_⟩⟩
          · intro kind' known' decl declared id found
            rw [known] at known'
            cases known'
            exact later'.resolved id (resolved decl declared complete id found)
          · intro kind' known'
            rw [known] at known'
            cases known'
            exact has

theorem stage_resolveSummaryObjects (sound : insight.Sound) (distinct : Distinct files) {objects : List Placed}
    (listed : ∀ placed ∈ objects, placed ∈ summarizedObjects files) {answer : Nat × CallGraph}
    (stage : Stage symbols insight files passes cg) (answered : resolveSummaryObjects symbols insight objects needs cg = .ok answer) :
    Stage symbols insight files passes answer.2 ∧ Later cg answer.2 ∧
      ∀ placed ∈ objects, Complete needs → Finished symbols insight placed answer.2 := by
  unfold resolveSummaryObjects at answered
  refine @Machine.foldlM_done _ _ _ (resolveObject symbols insight needs) (fun s : Nat × CallGraph => Stage symbols insight files passes s.2)
    (fun s t => Later s.2 t.2) (fun placed s => Complete needs → Finished symbols insight placed s.2) ?_ ?_ ?_ objects ?_ (0, cg) answer
    stage answered
  · exact fun s => .refl s.2
  · exact fun _ _ _ => .trans
  · exact fun _ _ _ later finished complete => (finished complete).later later
  · exact fun s placed member t stage now => stage_resolveObject sound distinct (listed placed member) stage now

theorem adds_implementer (entry : SymbolEntry) (interface : String) : Adds (CallGraph.subscriptions insight)
    (fun e => nodeIdFor insight (.object .interface (toLowercase (unquoteIdentifier interface))) = some e.source ∧
      ∃ method ∈ SymbolQueries.interfaceMethodNames symbols (unquoteIdentifier interface),
        nodeIdFor insight (.procedure .codeunit (toLowercase entry.name) method) = some e.target ∧ e.kind = .indirectCall)
    fun cg => match nodeIdFor insight (.object .interface (toLowercase (unquoteIdentifier interface))) with
      | none => cg
      | some source => ((SymbolQueries.interfaceMethodNames symbols (unquoteIdentifier interface)).map fun method =>
          NodeKey.procedure .codeunit (toLowercase entry.name) method).foldl (linkIndirect insight source) cg := by
  cases nodeIdFor insight (.object .interface (toLowercase (unquoteIdentifier interface))) with
  | none => exact adds_nothing.congr fun e => by simp
  | some source =>
      refine (adds_foldl _ _ fun key _ => adds_linkIndirect source key).congr fun e => ?_
      constructor
      · rintro ⟨key, member, rfl, found, kind⟩
        obtain ⟨method, named, rfl⟩ := List.mem_map.mp member
        exact ⟨rfl, method, named, found, kind⟩
      · rintro ⟨⟨⟩, method, named, found, kind⟩
        exact ⟨_, List.mem_map_of_mem named, rfl, found, kind⟩

theorem adds_linkInterfaceImplementers :
    Adds (CallGraph.subscriptions insight) (InterfaceCalls symbols insight) (linkInterfaceImplementers symbols insight) :=
  adds_foldl _ _ fun entry _ => adds_foldl _ _ fun interface _ => adds_implementer entry interface

/-! ## Runs of passes -/

omit [CaseMapping] in
theorem ok_of_map {ε α β : Type} {computed : Except ε α} {f : α → β} {b : β} (answered : computed.map f = .ok b) :
    ∃ a, computed = .ok a ∧ f a = b := by
  cases computed with
  | error e => cases answered
  | ok a =>
      cases answered
      exact ⟨a, rfl, rfl⟩

omit [CaseMapping] in
theorem resolutionState_buildFromInsight (id : NodeIndex) : (CallGraph.buildFromInsight insight).resolutionState id = .unresolved := by
  have kept : (CallGraph.buildFromInsight insight).resolution = (CallGraph.describe insight).resolution := by
    refine @Machine.run_invariant _ _ _ (fun cg : CallGraph => cg.resolution = (CallGraph.describe insight).resolution) ?_ _ rfl insight.edges
    intro cg edge same
    split
    next => exact (CallGraph.resolution_insertEdge cg _).trans same
    next => exact same
  unfold CallGraph.resolutionState
  rw [kept]
  rfl

theorem stage_buildFromInsight : Stage symbols insight files passes (CallGraph.buildFromInsight insight) := by
  have records := CallGraph.records_buildFromInsight insight
  have has (e : CallEdge) : (CallGraph.buildFromInsight insight).Has e ↔ e ∈ CallGraph.subscriptions insight := by
    rw [CallGraph.Has, records.mem_calleesOf]
    exact and_iff_left rfl
  refine ⟨⟨⟨_, records, fun e => (has e).symm⟩, fun e _ => has e⟩, fun e there => .subscription ((has e).mp there), ?_⟩
  intro placed listed kind known decl declared id found resolved
  rw [resolutionState_buildFromInsight] at resolved
  cases resolved

/-- What a pass has done. -/
def Did (symbols : SymbolIndex) (insight : InsightGraph) (files : List SummarizedFile) (cg : CallGraph) : Pass → Prop
  | .populate => True
  | .interfaces => ∀ e, InterfaceCalls symbols insight e → cg.Has e
  | .all => ∀ placed ∈ summarizedObjects files, Finished symbols insight placed cg

theorem stage_pass (sound : insight.Sound) (distinct : Distinct files) {p : Pass} (member : p ∈ passes) {cg' : CallGraph}
    (stage : Stage symbols insight files passes cg) (answered : pass symbols insight files cg p = .ok cg') :
    Stage symbols insight files passes cg' ∧ Later cg cg' ∧ Did symbols insight files cg' p := by
  cases p with
  | populate =>
      unfold pass populateSummaryCallEdges at answered
      dsimp only at answered
      split at answered
      next =>
        cases answered
        exact ⟨stage, .refl _, trivial⟩
      next =>
        obtain ⟨answer, resolved, rfl⟩ := ok_of_map answered
        obtain ⟨stage', later, _⟩ := stage_resolveSummaryObjects sound distinct (fun _ inside => (List.mem_filter.mp inside).1) stage resolved
        exact ⟨stage', later, trivial⟩
  | interfaces =>
      cases answered
      exact stage.add adds_linkInterfaceImplementers fun e calls => .interface member calls
  | all =>
      obtain ⟨answer, resolved, rfl⟩ := ok_of_map answered
      obtain ⟨stage', later, finished⟩ := stage_resolveSummaryObjects sound distinct (fun _ => id) stage resolved
      exact ⟨stage', later, fun placed listed => finished placed listed fun state apart => by simpa using apart⟩

/-- When a pass was over every object, the edges are those of the subscriptions, of all calls, and of the interfaces if a pass linked them,
and a search backward follows them. -/
theorem resolved_exact (sound : insight.Sound) (distinct : Distinct files) (complete : .all ∈ passes)
    (answered : passes.foldlM (pass symbols insight files) (CallGraph.buildFromInsight insight) = .ok cg) (seeds : List NodeIndex) :
    (∀ e, e ∈ cg.calleesOf e.source ↔ Stated symbols insight files passes e) ∧
    (∀ e, e ∈ cg.callersOf e.target ↔ Stated symbols insight files passes e) ∧
    ∀ node, node ∈ cg.reachableCallers seeds ↔ ∃ s ∈ seeds,
      ReflTransGen (fun callee caller => ∃ e, Stated symbols insight files passes e ∧ e.target = callee ∧ e.source = caller) s node := by
  obtain ⟨stage, later, did⟩ := @Machine.foldlM_done _ _ _ _ (Stage symbols insight files passes) Later
    (fun p cg => Did symbols insight files cg p) .refl (fun _ _ _ => .trans) (fun p _ _ later did => by
      cases p with
      | populate => trivial
      | interfaces => exact fun e calls => later.has e (did e calls)
      | all => exact fun placed listed => (did placed listed).later later)
    _ (fun _ p member _ stage now => stage_pass sound distinct member stage now) _ _ stage_buildFromInsight answered
  have has (e : CallEdge) : cg.Has e ↔ Stated symbols insight files passes e := by
    refine ⟨stage.within e, fun stated => ?_⟩
    cases stated with
    | subscription subscribes =>
        apply later.has
        exact ((CallGraph.records_buildFromInsight insight).mem_calleesOf _ e).mpr ⟨subscribes, rfl⟩
    | interface linked calls => exact did .interfaces linked e calls
    | @object file object inside declared calls =>
        have listed : (file.path, object) ∈ summarizedObjects files := (mem_summarizedObjects files _).mpr ⟨file, inside, rfl, declared⟩
        have finished := did .all complete _ listed
        cases calls with
        | declaration known member calls =>
            obtain ⟨id, found, _⟩ := id calls
            exact stage.done _ listed _ known _ member id found (finished.resolved _ known _ member id found) e calls
        | head known calls => exact finished.heads _ known e calls
  obtain ⟨edges, records, same⟩ := stage.holds.records
  have stated (e : CallEdge) : e ∈ edges ↔ Stated symbols insight files passes e := (same e).trans (has e)
  refine ⟨has, fun e => ?_, fun node => ?_⟩
  · rw [records.mem_callersOf, and_iff_left rfl, stated]
  · rw [records.mem_reachableCallers]
    unfold CallGraph.CalledBy
    simp only [stated]

end Passes

section Examples

attribute [local instance] CaseMapping.latin1

/-- A codeunit with an event, and the procedure that raises it. -/
def postingInsight : InsightGraph :=
  let node := fun (g : InsightGraph) (n : InsightNode) => (g.ensureNode n.key n).2
  (([.procedure .codeunit "Posting" "Post" false, .event .codeunit "Posting" "OnPost" .integration,
    .subscriber .codeunit "Audit" "Handle" none "Posting" "OnPost"] : List InsightNode).foldl node {}).addEdge 2 1 .subscribesTo

def postingFiles : List SummarizedFile :=
  [⟨["Posting.al"], [⟨"codeunit", "Posting", 0, 1, [⟨"Post"⟩, ⟨"OnPost"⟩],
    .insert .empty "post" [⟨[.bareCall "ONPOST"], .empty, .empty⟩], {}⟩]⟩]

/-- The subscriber of an event is among what its publisher runs. -/
theorem resolved_exact_posting : ∃ cg, [Pass.populate, .interfaces, .all].foldlM (pass {} postingInsight postingFiles)
      (CallGraph.buildFromInsight postingInsight) = .ok cg ∧ 0 ∈ cg.reachableCallers [2] ∧
    ∀ e, e ∈ cg.calleesOf e.source ↔ Stated {} postingInsight postingFiles [.populate, .interfaces, .all] e := by
  have sound : postingInsight.Sound := by
    refine InsightGraph.sound_addEdge ?_ (by decide +kernel) (by decide +kernel) .subscribesTo
    exact @Machine.run_invariant _ _ _ InsightGraph.Sound
      (fun _ (node : InsightNode) sound => (InsightGraph.sound_ensureNode sound node.key node).1) _ InsightGraph.sound_new _
  have distinct : Distinct postingFiles := by
    intro a first b second _ _
    obtain ⟨_, inside, _, object⟩ := (mem_summarizedObjects _ a).mp first
    obtain ⟨_, inside', _, object'⟩ := (mem_summarizedObjects _ b).mp second
    rw [List.mem_singleton.mp inside] at object
    rw [List.mem_singleton.mp inside'] at object'
    exact (List.mem_singleton.mp object).trans (List.mem_singleton.mp object').symm
  cases run : [Pass.populate, .interfaces, .all].foldlM (pass {} postingInsight postingFiles)
      (CallGraph.buildFromInsight postingInsight) with
  | error e =>
      have answers : ([Pass.populate, .interfaces, .all].foldlM (pass {} postingInsight postingFiles)
        (CallGraph.buildFromInsight postingInsight)).toBool = true := by decide +kernel
      rw [run] at answers
      cases answers
  | ok cg =>
      refine ⟨cg, rfl, ?_, (resolved_exact sound distinct (by decide) run []).1⟩
      have reaches : ([Pass.populate, .interfaces, .all].foldlM (pass {} postingInsight postingFiles)
        (CallGraph.buildFromInsight postingInsight)).toOption.all fun cg => 0 ∈ cg.reachableCallers [2] := by decide +kernel
      rw [run] at reaches
      exact of_decide_eq_true reaches

end Examples

end AlLanguage.Insight
