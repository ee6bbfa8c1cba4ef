import AlLanguage.Insight.Building

/-!
# How the graph grows

- `Sound`: the edge set is that of the edges, and the index lists each node once.
- Building adds nodes and edges one at a time, each under the key of the node and between nodes of the graph.
-/

namespace AlLanguage.Insight

open Library Symbols
open AlLanguage.Runtime (CaseMapping toLowercase)

/-- The key under which every caller files a node. -/
def InsightNode.key [CaseMapping] : InsightNode → NodeKey
  | .object kind _ name _ => .object kind (toLowercase name)
  | .procedure objectKind objectName name _ => .procedure objectKind (toLowercase objectName) (toLowercase name)
  | .event objectKind objectName name _ => .event objectKind (toLowercase objectName) (toLowercase name)
  | .subscriber objectKind objectName name _ _ _ => .subscriber objectKind (toLowercase objectName) (toLowercase name)

/-! ## Identity -/

variable {g g' : InsightGraph} {key other : NodeKey} {node : InsightNode} {i j source target : NodeIndex} {weight : InsightEdge}

theorem eqIgnoreAsciiCase_iff (a b : String) :
    Runtime.eqIgnoreAsciiCase a b = true ↔ Runtime.toAsciiUppercase a = Runtime.toAsciiUppercase b := beq_iff_eq

theorem sameNodeIdentity_refl (a : InsightNode) : sameNodeIdentity a a = true := by
  cases a <;> simp [sameNodeIdentity, eqIgnoreAsciiCase_iff]

theorem sameNodeIdentity_symm {a b : InsightNode} (same : sameNodeIdentity a b = true) : sameNodeIdentity b a = true := by
  cases a <;> cases b <;> simp_all [sameNodeIdentity, eqIgnoreAsciiCase_iff]

/-! ## One node, one edge -/

namespace InsightGraph

/-- The graph with a node that it lacks. -/
def withNode (g : InsightGraph) (key : NodeKey) (node : InsightNode) : InsightGraph :=
  { g with nodes := g.nodes ++ [node], index := g.index.insert key (g.getNodes key ++ [g.nodes.length]) }

theorem ensureNode_cases (g : InsightGraph) (key : NodeKey) (node : InsightNode) :
    (∃ i, i ∈ g.getNodes key ∧ g.ensureNode key node = (i, g)) ∨
      (∀ i ∈ g.getNodes key, g.isNode node i = false) ∧ g.ensureNode key node = (g.nodes.length, g.withNode key node) := by
  unfold ensureNode
  cases held : (g.getNodes key).find? (g.isNode node) with
  | some i => exact .inl ⟨i, List.mem_of_find?_eq_some held, rfl⟩
  | none =>
      refine .inr ⟨?_, rfl⟩
      intro i inside
      simpa using List.find?_eq_none.mp held i inside

theorem getNodes_withNode (g : InsightGraph) (key other : NodeKey) (node : InsightNode) :
    (g.withNode key node).getNodes other = if key = other then g.getNodes other ++ [g.nodes.length] else g.getNodes other := by
  unfold withNode getNodes
  dsimp only
  rw [IndexMap.get?_insert]
  split
  next same => rw [same]; rfl
  next => rfl

@[simp] theorem getNodes_addEdge (g : InsightGraph) (source target : NodeIndex) (weight : InsightEdge) (key : NodeKey) :
    (g.addEdge source target weight).getNodes key = g.getNodes key := by
  unfold addEdge
  split <;> rfl

@[simp] theorem nodes_addEdge (g : InsightGraph) (source target : NodeIndex) (weight : InsightEdge) :
    (g.addEdge source target weight).nodes = g.nodes := by
  unfold addEdge
  split <;> rfl

/-- The set of the edges is kept, the index lists every node once, and edges connect nodes. -/
structure Sound (g : InsightGraph) : Prop where
  once : g.edges.Nodup
  exact : ∀ edge, edge ∈ g.edgeSet ↔ edge ∈ g.edges
  within : ∀ key, ∀ i ∈ g.getNodes key, i < g.nodes.length
  listed : ∀ i < g.nodes.length, ∃ key, i ∈ g.getNodes key
  oneKey : ∀ key other i, i ∈ g.getNodes key → i ∈ g.getNodes other → key = other
  distinct : ∀ key, (g.getNodes key).Nodup
  apart : ∀ key, ∀ i ∈ g.getNodes key, ∀ j ∈ g.getNodes key, ∀ a b, g.nodes[i]? = some a → g.nodes[j]? = some b →
    sameNodeIdentity a b = true → i = j
  ends : ∀ edge ∈ g.edges, edge.source < g.nodes.length ∧ edge.target < g.nodes.length

theorem sound_new : Sound {} where
  once := List.nodup_nil
  exact edge := by simp
  within key i inside := by cases inside
  listed i within := by cases within
  oneKey key other i inside := by cases inside
  distinct key := List.nodup_nil
  apart key i inside := by cases inside
  ends edge member := by cases member

theorem mem_edges_addEdge (sound : g.Sound) (source target : NodeIndex) (weight : InsightEdge) (edge : Edge) :
    edge ∈ (g.addEdge source target weight).edges ↔ edge ∈ g.edges ∨ edge = ⟨source, target, weight⟩ := by
  unfold addEdge
  split
  next held =>
    have there := (sound.exact _).mp held
    constructor
    · exact .inl
    · rintro (member | rfl)
      · exact member
      · exact there
  next => simp

theorem sound_addEdge (sound : g.Sound) (sourceIn : source < g.nodes.length) (targetIn : target < g.nodes.length)
    (weight : InsightEdge) : (g.addEdge source target weight).Sound where
  once := by
    unfold addEdge
    split
    next => exact sound.once
    next missing =>
      refine List.nodup_append.mpr ⟨sound.once, List.nodup_singleton _, ?_⟩
      rintro edge member _ here rfl
      exact missing ((sound.exact _).mpr (List.mem_singleton.mp here ▸ member))
  exact edge := by
    rw [mem_edges_addEdge sound]
    unfold addEdge
    split
    next held =>
      have there := (sound.exact _).mp held
      rw [sound.exact]
      constructor
      · exact .inl
      · rintro (member | rfl)
        · exact member
        · exact there
    next => rw [Finset.mem_insert, sound.exact, or_comm]
  within key := by simpa using sound.within key
  listed := by simpa using sound.listed
  oneKey := by simpa using sound.oneKey
  distinct := by simpa using sound.distinct
  apart := by simpa using sound.apart
  ends edge member := by
    rw [nodes_addEdge]
    rcases (mem_edges_addEdge sound source target weight edge).mp member with before | rfl
    · exact sound.ends edge before
    · exact ⟨sourceIn, targetIn⟩

theorem sound_withNode (sound : g.Sound) (fresh : ∀ i ∈ g.getNodes key, g.isNode node i = false) :
    (g.withNode key node).Sound := by
  have new_listed : ∀ other, g.nodes.length ∉ g.getNodes other := fun other inside =>
    Nat.lt_irrefl _ (sound.within other _ inside)
  have length : (g.withNode key node).nodes.length = g.nodes.length + 1 := by simp [withNode]
  have old {i : NodeIndex} (here : i < g.nodes.length) : (g.withNode key node).nodes[i]? = g.nodes[i]? :=
    List.getElem?_append_left here
  have new : (g.withNode key node).nodes[g.nodes.length]? = some node := by simp [withNode]
  have mem_iff (other : NodeKey) (i : NodeIndex) :
      i ∈ (g.withNode key node).getNodes other ↔ i ∈ g.getNodes other ∨ key = other ∧ i = g.nodes.length := by
    rw [getNodes_withNode]
    split <;> simp_all
  have different {i : NodeIndex} (inside : i ∈ g.getNodes key) {a : InsightNode} (here : g.nodes[i]? = some a) :
      sameNodeIdentity a node = false := by
    have apart := fresh i inside
    rw [isNode, here] at apart
    simpa using apart
  refine ⟨sound.once, sound.exact, ?_, ?_, ?_, ?_, ?_, ?_⟩
  · intro other i inside
    rw [length]
    rcases (mem_iff other i).mp inside with before | ⟨_, rfl⟩
    · exact Nat.lt_succ_of_lt (sound.within other i before)
    · exact Nat.lt_succ_self _
  · intro i here
    rw [length] at here
    rcases Nat.lt_succ_iff_lt_or_eq.mp here with before | rfl
    · obtain ⟨other, inside⟩ := sound.listed i before
      exact ⟨other, (mem_iff other i).mpr (.inl inside)⟩
    · exact ⟨key, (mem_iff key _).mpr (.inr ⟨rfl, rfl⟩)⟩
  · intro first second i inFirst inSecond
    rcases (mem_iff first i).mp inFirst with inFirst | ⟨rfl, rfl⟩ <;> rcases (mem_iff second _).mp inSecond with inSecond | ⟨rfl, same⟩
    · exact sound.oneKey _ _ _ inFirst inSecond
    · exact absurd (same ▸ inFirst) (new_listed first)
    · exact absurd inSecond (new_listed second)
    · rfl
  · intro other
    rw [getNodes_withNode]
    split
    next =>
      refine List.nodup_append.mpr ⟨sound.distinct other, List.nodup_singleton _, ?_⟩
      rintro i inside _ here rfl
      exact new_listed other (List.mem_singleton.mp here ▸ inside)
    next => exact sound.distinct other
  · intro other i inI j inJ a b hereI hereJ same
    rcases (mem_iff other i).mp inI with inI | ⟨same_key, rfl⟩ <;>
      rcases (mem_iff other j).mp inJ with inJ | ⟨same_key', rfl⟩
    · rw [old (sound.within _ i inI)] at hereI
      rw [old (sound.within _ j inJ)] at hereJ
      exact sound.apart _ i inI j inJ a b hereI hereJ same
    · rw [old (sound.within _ i inI)] at hereI
      rw [new] at hereJ
      cases hereJ
      rw [different (same_key' ▸ inI) hereI] at same
      cases same
    · rw [old (sound.within _ j inJ)] at hereJ
      rw [new] at hereI
      cases hereI
      have apart := different (same_key ▸ inJ) hereJ
      rw [sameNodeIdentity_symm same] at apart
      cases apart
    · rfl
  · intro edge member
    obtain ⟨sourceIn, targetIn⟩ := sound.ends edge member
    rw [length]
    exact ⟨Nat.lt_succ_of_lt sourceIn, Nat.lt_succ_of_lt targetIn⟩

/-! ## Nodes under their own keys -/

variable [CaseMapping]

/-- Every node is listed under its own key. -/
def Filed (g : InsightGraph) : Prop := ∀ entry ∈ g.nodes.zipIdx, entry.2 ∈ g.getNodes entry.1.key

theorem filed_iff : g.Filed ↔ ∀ i node, g.nodes[i]? = some node → i ∈ g.getNodes node.key := by
  unfold Filed
  constructor
  · intro filed i node here
    exact filed (node, i) (List.mem_zipIdx_iff_getElem?.mpr here)
  · intro filed entry member
    exact filed entry.2 entry.1 (List.mem_zipIdx_iff_getElem?.mp member)

theorem key_of_listed (sound : g.Sound) (filed : g.Filed) (inside : i ∈ g.getNodes key) :
    ∃ node, g.nodes[i]? = some node ∧ node.key = key := by
  have here := List.getElem?_eq_getElem (sound.within key i inside)
  exact ⟨_, here, sound.oneKey _ _ _ (filed_iff.mp filed i _ here) inside⟩

theorem filed_new : Filed {} := by
  intro entry member
  cases member

theorem filed_addEdge (filed : g.Filed) : (g.addEdge source target weight).Filed := by
  simpa [Filed] using filed

theorem filed_withNode (filed : g.Filed) (own : node.key = key) : (g.withNode key node).Filed := by
  rw [filed_iff] at filed ⊢
  intro i a here
  rw [getNodes_withNode]
  rcases Nat.lt_trichotomy i g.nodes.length with before | rfl | beyond
  · have inside := filed i a (by simpa [withNode, List.getElem?_append_left before] using here)
    split
    · exact List.mem_append_left _ inside
    · exact inside
  · have same : node = a := by simpa [withNode] using here
    rw [if_pos (own.symm.trans (congrArg InsightNode.key same))]
    exact List.mem_append_right _ (List.mem_singleton.mpr rfl)
  · rw [List.getElem?_eq_none (by simp [withNode]; omega)] at here
    cases here

/-- A graph that grew from another one is sound, and its nodes are under their own keys if those before were. -/
structure Grown (g g' : InsightGraph) : Prop where
  sound : g'.Sound
  filed : g.Filed → g'.Filed
  kept : g.nodes.length ≤ g'.nodes.length

theorem Grown.refl (sound : g.Sound) : Grown g g := ⟨sound, id, Nat.le_refl _⟩

theorem Grown.trans {h : InsightGraph} (first : Grown g g') (second : Grown g' h) : Grown g h :=
  ⟨second.sound, second.filed ∘ first.filed, first.kept.trans second.kept⟩

/-- What every turn of a loop grows, the loop grows. -/
theorem grown_foldl {α : Type} {f : InsightGraph → α → InsightGraph} {items : List α} (sound : g.Sound)
    (turn : ∀ h, Grown g h → ∀ item ∈ items, Grown h (f h item)) : Grown g (items.foldl f g) := by
  induction items generalizing g with
  | nil => exact Grown.refl sound
  | cons item rest ih =>
      have first := turn g (Grown.refl sound) item List.mem_cons_self
      refine first.trans (ih first.sound ?_)
      intro h later other member
      exact turn h (first.trans later) other (List.mem_cons_of_mem _ member)

theorem grown_addEdge (sound : g.Sound) (sourceIn : source < g.nodes.length) (targetIn : target < g.nodes.length) :
    Grown g (g.addEdge source target weight) :=
  ⟨sound_addEdge sound sourceIn targetIn weight, filed_addEdge, by rw [nodes_addEdge]⟩

omit [CaseMapping] in
theorem sound_ensureNode (sound : g.Sound) (key : NodeKey) (node : InsightNode) :
    (g.ensureNode key node).2.Sound ∧ (g.ensureNode key node).1 < (g.ensureNode key node).2.nodes.length := by
  rcases ensureNode_cases g key node with ⟨i, inside, held⟩ | ⟨fresh, added⟩
  · rw [held]
    exact ⟨sound, sound.within key i inside⟩
  · rw [added]
    exact ⟨sound_withNode sound fresh, by simp [withNode]⟩

theorem grown_ensureNode (sound : g.Sound) (node : InsightNode) (own : node.key = key) :
    Grown g (g.ensureNode key node).2 := by
  refine ⟨(sound_ensureNode sound key node).1, ?_, ?_⟩
  · intro filed
    rcases ensureNode_cases g key node with ⟨i, _, held⟩ | ⟨_, added⟩
    · rwa [held]
    · rw [added]
      exact filed_withNode filed own
  · rcases ensureNode_cases g key node with ⟨i, _, held⟩ | ⟨_, added⟩
    · rw [held]
    · rw [added]
      simp [withNode]

theorem grown_ensure_edge (sound : g.Sound) (node : InsightNode) (own : node.key = key) (sourceIn : source < g.nodes.length) :
    Grown g ((g.ensureNode key node).2.addEdge source (g.ensureNode key node).1 weight) := by
  have ensured := grown_ensureNode sound node own
  exact ensured.trans
    (grown_addEdge ensured.sound (Nat.lt_of_lt_of_le sourceIn ensured.kept) (sound_ensureNode sound key node).2)

/-! ## Building -/

theorem grown_addMember (sound : g.Sound) (entry : SymbolEntry) {object : NodeIndex} (within : object < g.nodes.length)
    (method : MethodSymbol) : Grown g (addMember entry object g method) := by
  unfold addMember
  dsimp only
  split
  · exact grown_ensure_edge sound _ rfl within
  · split
    · exact grown_ensure_edge sound _ rfl within
    · exact grown_ensure_edge sound _ rfl within

theorem grown_addObjectAndMembers (sound : g.Sound) (entry : SymbolEntry) : Grown g (g.addObjectAndMembers entry) := by
  unfold addObjectAndMembers
  have ensured := @grown_ensureNode g (.object entry.kind (toLowercase entry.name)) _ sound
    (.object entry.kind entry.id entry.name entry.package) rfl
  have within := (sound_ensureNode sound (.object entry.kind (toLowercase entry.name))
    (.object entry.kind entry.id entry.name entry.package)).2
  refine ensured.trans (grown_foldl ensured.sound ?_)
  intro h grown method _
  exact grown_addMember grown.sound entry (Nat.lt_of_lt_of_le within grown.kept) method

omit [CaseMapping] in
theorem getNode_lt (sound : g.Sound) (found : g.getNode key = some i) : i < g.nodes.length :=
  sound.within key i (List.mem_of_mem_head? found)

omit [CaseMapping] in
theorem getNodeInPackage_lt (sound : g.Sound) {package : String} (found : g.getNodeInPackage key package = some i) :
    i < g.nodes.length := by
  unfold getNodeInPackage at found
  rcases Option.or_eq_some_iff.mp found with found | ⟨_, found⟩
  · exact sound.within key i (List.mem_of_find?_eq_some found)
  · exact getNode_lt sound found

theorem grown_relate (sound : g.Sound) (package : String) (source target : NodeKey) (weight : InsightEdge) :
    Grown g (g.relate package source target weight) := by
  unfold relate
  split
  next source target foundSource foundTarget =>
    exact grown_addEdge sound (getNodeInPackage_lt sound foundSource) (getNodeInPackage_lt sound foundTarget)
  next => exact Grown.refl sound

/-- One edge to each of several nodes. -/
def addEdges (g : InsightGraph) (source : NodeIndex) (targets : List NodeIndex) (weight : InsightEdge) : InsightGraph :=
  targets.foldl (fun h target => h.addEdge source target weight) g

theorem grown_addEdges (sound : g.Sound) (sourceIn : source < g.nodes.length) (key : NodeKey) (weight : InsightEdge) :
    Grown g (g.addEdges source (g.getNodes key) weight) := by
  apply grown_foldl sound
  intro h grown event member
  exact grown_addEdge grown.sound (Nat.lt_of_lt_of_le sourceIn grown.kept)
    (Nat.lt_of_lt_of_le (sound.within key event member) grown.kept)

theorem grown_relateSubscriber (sound : g.Sound) (entry : SymbolEntry) (method : MethodSymbol) :
    Grown g (relateSubscriber entry g method) := by
  unfold relateSubscriber
  dsimp only
  split
  · split
    · exact Grown.refl sound
    · split
      · exact Grown.refl sound
      next subscriber found => exact grown_addEdges sound (getNode_lt sound found) _ _
  · exact Grown.refl sound

theorem grown_relateExtended [LanguageData] (sound : g.Sound) (entry : SymbolEntry) : Grown g (g.relateExtended entry) := by
  unfold relateExtended
  split
  · exact grown_relate sound _ _ _ _
  · exact Grown.refl sound

variable [Alphanumeric]

theorem grown_relateFields (sound : g.Sound) (entry : SymbolEntry) : Grown g (g.relateFields entry) := by
  unfold relateFields
  split
  · apply grown_foldl sound
    intro h grown table _
    exact grown_relate grown.sound _ _ _ _
  · exact Grown.refl sound

theorem grown_resolveRelationships [LanguageData] (sound : g.Sound) (entry : SymbolEntry) :
    Grown g (g.resolveRelationships entry) := by
  have extended := grown_relateExtended sound entry
  have subscribed : Grown g (entry.methods.foldl (relateSubscriber entry) (g.relateExtended entry)) := by
    refine extended.trans (grown_foldl extended.sound ?_)
    intro h grown method _
    exact grown_relateSubscriber grown.sound entry method
  exact subscribed.trans (grown_relateFields subscribed.sound entry)

theorem grown_buildFromIndex [LanguageData] (sound : g.Sound) (allEntries : List SymbolEntry) :
    Grown g (g.buildFromIndex allEntries) := by
  have objects : Grown g (allEntries.foldl addObjectAndMembers g) := by
    apply grown_foldl sound
    intro h grown entry _
    exact grown_addObjectAndMembers grown.sound entry
  refine objects.trans (grown_foldl objects.sound ?_)
  intro h grown entry _
  exact grown_resolveRelationships grown.sound entry

end InsightGraph

end AlLanguage.Insight
