import AlLanguage.Runtime.JsonMethods

/-!
# The arena is a forest

- Every child and every target is a node, no node is held twice, and nothing holds itself.
- A copy and an import add new trees and leave the nodes that were there alone.
-/

namespace AlLanguage.Runtime.Json

open Library
open Relation (TransGen ReflTransGen)

namespace JsonArena

variable {a a' : JsonArena} {id parent child : NodeId} {node : Node}

def Exists (a : JsonArena) (id : NodeId) : Prop := (a.nodes.get? id).isSome = true

/-- Some container holds the node. -/
def Held (a : JsonArena) (id : NodeId) : Prop := ∃ parent, id ∈ a.children parent

def Contains (a : JsonArena) (parent child : NodeId) : Prop := child ∈ a.children parent

structure Forest (a : JsonArena) : Prop where
  below : ∀ id, a.Exists id → id < a.nextId
  targets : ∀ handle node, a.targets.get? handle = some node → handle < a.nextId ∧ a.Exists node
  resolves : ∀ parent, ∀ child ∈ a.children parent, a.Exists child
  nodup : ∀ parent, (a.children parent).Nodup
  once : ∀ parent other child, child ∈ a.children parent → child ∈ a.children other → parent = other
  attached : ∀ parent, ∀ child ∈ a.children parent, child ∈ a.attached
  present : ∀ id ∈ a.attached, a.Exists id
  acyclic : ∀ id, ¬ TransGen a.Contains id id

/-- The nodes and targets that were there are as they were. -/
structure Extends (a a' : JsonArena) : Prop where
  nodes : ∀ id, a.Exists id → a'.nodes.get? id = a.nodes.get? id
  targets : ∀ handle node, a.targets.get? handle = some node → a'.targets.get? handle = some node
  nextId : a.nextId ≤ a'.nextId

theorem Extends.refl (a : JsonArena) : Extends a a := ⟨fun _ _ => rfl, fun _ _ same => same, Nat.le_refl _⟩

theorem Extends.exists_ (grown : Extends a a') (there : a.Exists id) : a'.Exists id := by
  rw [Exists, grown.nodes id there]
  exact there

theorem Extends.trans {b : JsonArena} (first : Extends a a') (second : Extends a' b) : Extends a b where
  nodes id there := (second.nodes id (first.exists_ there)).trans (first.nodes id there)
  targets handle node same := second.targets handle node (first.targets handle node same)
  nextId := first.nextId.trans second.nextId

theorem Extends.node_eq (grown : Extends a a') (there : a.Exists id) : a'.node id = a.node id := by
  rw [JsonArena.node, JsonArena.node, grown.nodes id there]

theorem Extends.children_eq (grown : Extends a a') (there : a.Exists id) : a'.children id = a.children id :=
  congrArg Node.children (grown.node_eq there)

theorem children_of_missing (missing : ¬ a.Exists id) : a.children id = [] := by
  rw [Exists, Option.not_isSome_iff_eq_none] at missing
  rw [children, JsonArena.node, missing]
  rfl

theorem exists_of_child (inside : child ∈ a.children id) : a.Exists id := by
  by_contra missing
  rw [children_of_missing missing] at inside
  cases inside

theorem Forest.missing (forest : a.Forest) (new : a.nextId ≤ id) : ¬ a.Exists id :=
  fun there => Nat.lt_irrefl _ (Nat.lt_of_lt_of_le (forest.below id there) new)

theorem Forest.exists_of_held (forest : a.Forest) (held : a.Held id) : a.Exists id := by
  obtain ⟨parent, inside⟩ := held
  exact forest.resolves parent id inside

theorem forest_new : Forest {} where
  below id there := by cases there
  targets handle node same := by cases same
  resolves parent child inside := by cases inside
  nodup parent := List.nodup_nil
  once parent other child inside := by cases inside
  attached parent child inside := by cases inside
  present id inside := by simp at inside
  acyclic id cycle := by
    obtain ⟨_, first, _⟩ := TransGen.head'_iff.mp cycle
    cases first

/-! ## One operation -/

theorem get?_push (a : JsonArena) (node : Node) (id : NodeId) :
    (a.push node).2.nodes.get? id = if a.nextId = id then some node else a.nodes.get? id := IndexMap.get?_insert ..

theorem exists_push (a : JsonArena) (node : Node) (id : NodeId) :
    (a.push node).2.Exists id ↔ id = a.nextId ∨ a.Exists id := by
  unfold Exists
  rw [get?_push]
  split
  next same => simp [same]
  next apart => simp [Ne.symm apart]

theorem children_push (a : JsonArena) (node : Node) (id : NodeId) :
    (a.push node).2.children id = if a.nextId = id then node.children else a.children id := by
  unfold children JsonArena.node
  rw [get?_push]
  split <;> rfl

theorem extends_push (forest : a.Forest) (node : Node) : Extends a (a.push node).2 where
  nodes id there := by
    rw [get?_push, if_neg]
    rintro rfl
    exact Nat.lt_irrefl _ (forest.below _ there)
  targets _ _ same := same
  nextId := Nat.le_succ _

theorem held_push (forest : a.Forest) (node : Node) (id : NodeId) :
    (a.push node).2.Held id ↔ a.Held id ∨ id ∈ node.children := by
  unfold Held
  simp only [children_push]
  constructor
  · rintro ⟨parent, inside⟩
    split at inside
    · exact .inr inside
    · exact .inl ⟨parent, inside⟩
  · rintro (⟨parent, inside⟩ | inside)
    · refine ⟨parent, ?_⟩
      rw [if_neg]
      · exact inside
      · rintro rfl
        exact Nat.lt_irrefl _ (forest.below _ (exists_of_child inside))
    · exact ⟨a.nextId, by rwa [if_pos rfl]⟩

/-- A new container takes nodes that nothing holds. -/
theorem forest_push (forest : a.Forest) (nodup : node.children.Nodup)
    (loose : ∀ c ∈ node.children, a.Exists c ∧ ¬ a.Held c ∧ c ∈ a.attached) : (a.push node).2.Forest where
  below id there := by
    rcases (exists_push a node id).mp there with rfl | there
    · exact Nat.lt_succ_self _
    · exact Nat.lt_succ_of_lt (forest.below id there)
  targets handle n same := by
    obtain ⟨below, there⟩ := forest.targets handle n same
    exact ⟨Nat.lt_succ_of_lt below, (exists_push a node n).mpr (.inr there)⟩
  resolves parent child inside := by
    rw [children_push] at inside
    apply (exists_push a node child).mpr
    split at inside
    · exact .inr (loose child inside).1
    · exact .inr (forest.resolves parent child inside)
  nodup parent := by
    rw [children_push]
    split
    · exact nodup
    · exact forest.nodup parent
  once parent other child inside inOther := by
    rw [children_push] at inside inOther
    split at inside <;> split at inOther
    next same same' => exact same.symm.trans same'
    next => exact absurd ⟨other, inOther⟩ (loose child inside).2.1
    next => exact absurd ⟨parent, inside⟩ (loose child inOther).2.1
    next => exact forest.once parent other child inside inOther
  attached parent child inside := by
    rw [children_push] at inside
    split at inside
    · exact (loose child inside).2.2
    · exact forest.attached parent child inside
  present id inside := (exists_push a node id).mpr (.inr (forest.present id inside))
  acyclic := by
    apply Search.acyclic_fresh forest.acyclic
    · intro x y inside
      rw [Contains, children_push] at inside
      split at inside
      next same => exact .inr same.symm
      next => exact .inl inside
    · intro x inside
      rw [Contains, children_push] at inside
      split at inside
      · exact forest.missing (Nat.le_refl _) (loose _ inside).1
      · exact forest.missing (Nat.le_refl _) (forest.resolves _ _ inside)

theorem forest_attach (forest : a.Forest) (there : a.Exists id) : (a.attach id).Forest where
  below := forest.below
  targets := forest.targets
  resolves := forest.resolves
  nodup := forest.nodup
  once := forest.once
  attached parent child inside := Finset.mem_insert_of_mem (forest.attached parent child inside)
  present other inside := by
    rcases Finset.mem_insert.mp inside with rfl | inside
    · exact there
    · exact forest.present other inside
  acyclic := forest.acyclic

theorem mem_attach (a : JsonArena) (id other : NodeId) : other ∈ (a.attach id).attached ↔ other = id ∨ other ∈ a.attached :=
  Finset.mem_insert

/-- A handle gets a node. -/
theorem forest_retarget (forest : a.Forest) {handle : Nat} (known : handle < a.nextId) (there : a.Exists id) :
    Forest { a with targets := a.targets.insert handle id } where
  below := forest.below
  targets other node same := by
    rw [IndexMap.get?_insert] at same
    split at same
    next here =>
      cases same
      exact ⟨here ▸ known, there⟩
    next => exact forest.targets other node same
  resolves := forest.resolves
  nodup := forest.nodup
  once := forest.once
  attached := forest.attached
  present := forest.present
  acyclic := forest.acyclic

theorem forest_freshId (forest : a.Forest) : a.freshId.2.Forest where
  below id there := Nat.lt_succ_of_lt (forest.below id there)
  targets handle node same := ⟨Nat.lt_succ_of_lt (forest.targets handle node same).1, (forest.targets handle node same).2⟩
  resolves := forest.resolves
  nodup := forest.nodup
  once := forest.once
  attached := forest.attached
  present := forest.present
  acyclic := forest.acyclic

/-! ## A node that is changed -/

theorem get?_set (a : JsonArena) (id : NodeId) (node : Node) (other : NodeId) :
    (a.set id node).nodes.get? other = if id = other then some node else a.nodes.get? other := IndexMap.get?_insert ..

theorem children_set (a : JsonArena) (id : NodeId) (node : Node) (other : NodeId) :
    (a.set id node).children other = if id = other then node.children else a.children other := by
  unfold children JsonArena.node
  rw [get?_set]
  split <;> rfl

theorem exists_set (there : a.Exists id) (node : Node) (other : NodeId) : (a.set id node).Exists other ↔ a.Exists other := by
  unfold Exists
  rw [get?_set]
  split
  next same =>
    rw [← same]
    exact iff_of_true rfl there
  next => exact Iff.rfl

/-- A container takes nodes that nothing holds and that do not hold it. -/
theorem forest_set (forest : a.Forest) (there : a.Exists id) (nodup : node.children.Nodup)
    (loose : ∀ c ∈ node.children, c ∈ a.children id ∨
      a.Exists c ∧ ¬ a.Held c ∧ c ∈ a.attached ∧ ¬ ReflTransGen a.Contains c id) : (a.set id node).Forest where
  below other inside := forest.below other ((exists_set there node other).mp inside)
  targets handle n same := by
    obtain ⟨below, inside⟩ := forest.targets handle n same
    exact ⟨below, (exists_set there node n).mpr inside⟩
  resolves parent child inside := by
    rw [children_set] at inside
    apply (exists_set there node child).mpr
    split at inside
    · rcases loose child inside with old | new
      · exact forest.resolves id child old
      · exact new.1
    · exact forest.resolves parent child inside
  nodup parent := by
    rw [children_set]
    split
    · exact nodup
    · exact forest.nodup parent
  once parent other child inside inOther := by
    have from_set : ∀ p, child ∈ (if id = p then node.children else a.children p) → id = p ∧ ¬ a.Held child ∨ child ∈ a.children p := by
      intro p inside
      split at inside
      next same =>
        rcases loose child inside with old | new
        · exact .inr (same ▸ old)
        · exact .inl ⟨same, new.2.1⟩
      next => exact .inr inside
    rw [children_set] at inside inOther
    rcases from_set parent inside with ⟨here, new⟩ | old <;> rcases from_set other inOther with ⟨here', new'⟩ | old'
    · exact here.symm.trans here'
    · exact absurd ⟨other, old'⟩ new
    · exact absurd ⟨parent, old⟩ new'
    · exact forest.once parent other child old old'
  attached parent child inside := by
    rw [children_set] at inside
    split at inside
    · rcases loose child inside with old | new
      · exact forest.attached id child old
      · exact new.2.2.1
    · exact forest.attached parent child inside
  present other inside := (exists_set there node other).mpr (forest.present other inside)
  acyclic := by
    apply Search.acyclic_link forest.acyclic
    · intro x y inside
      rw [Contains, children_set] at inside
      split at inside
      next same =>
        rcases loose y inside with old | new
        · exact .inl (same ▸ old)
        · exact .inr ⟨same.symm, new.2.2.2⟩
      next => exact .inl inside

end JsonArena

end AlLanguage.Runtime.Json
