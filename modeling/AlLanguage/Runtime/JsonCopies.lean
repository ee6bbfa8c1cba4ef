import AlLanguage.Runtime.JsonForest

/-!
# Copies and imports

- What is made is new, and nothing that was there holds it.
- A value that is too deep in its first line fails before anything is made. Elsewhere the copies that were made stay
  attached.
-/

namespace AlLanguage.Runtime.Json

open Library
open Relation (TransGen ReflTransGen)

namespace JsonArena

variable {a b c : JsonArena} {id new : NodeId} {node : Node} {roots marked : List NodeId}

/-- New trees were added. Of their roots some are attached. -/
structure Added (a b : JsonArena) (roots marked : List NodeId) : Prop where
  forest : b.Forest
  grown : Extends a b
  targets : b.targets = a.targets
  nodup : roots.Nodup
  roots : ∀ r ∈ roots, a.nextId ≤ r ∧ b.Exists r ∧ ¬ b.Held r
  old : ∀ id, a.Exists id → (b.Held id ↔ a.Held id)
  attached : ∀ id, id ∈ b.attached ↔ id ∈ a.attached ∨ ¬ a.Exists id ∧ b.Held id ∨ id ∈ marked

theorem Added.refl (forest : a.Forest) : Added a a [] [] where
  forest := forest
  grown := .refl a
  targets := rfl
  nodup := List.nodup_nil
  roots r inside := by cases inside
  old id _ := Iff.rfl
  attached id := by
    constructor
    · exact .inl
    · rintro (inside | ⟨missing, held⟩ | inside)
      · exact inside
      · exact absurd (forest.exists_of_held held) missing
      · cases inside

theorem Added.mark (added : Added a b [new] []) : Added a (b.attach new) [new] [new] where
  forest := forest_attach added.forest (added.roots new List.mem_cons_self).2.1
  grown := ⟨added.grown.nodes, added.grown.targets, added.grown.nextId⟩
  targets := added.targets
  nodup := added.nodup
  roots := added.roots
  old := added.old
  attached id := by
    have same : (b.attach new).Held id ↔ b.Held id := Iff.rfl
    rw [mem_attach, added.attached, same]
    simp only [List.not_mem_nil, List.mem_singleton, or_false]
    tauto

/-- Trees that are added later stand beside those that were added before. -/
theorem Added.trans {later marked' : List NodeId} (first : Added a b roots marked)
    (second : Added b c later marked') : Added a c (roots ++ later) (marked ++ marked') where
  forest := second.forest
  grown := first.grown.trans second.grown
  targets := second.targets.trans first.targets
  nodup := by
    refine List.nodup_append.mpr ⟨first.nodup, second.nodup, ?_⟩
    rintro r inside _ here rfl
    exact first.forest.missing (second.roots r here).1 (first.roots r inside).2.1
  roots r inside := by
    rcases List.mem_append.mp inside with before | after
    · obtain ⟨new, there, loose⟩ := first.roots r before
      exact ⟨new, second.grown.exists_ there, fun held => loose ((second.old r there).mp held)⟩
    · obtain ⟨new, there, loose⟩ := second.roots r after
      exact ⟨first.grown.nextId.trans new, there, loose⟩
  old id there := (second.old id (first.grown.exists_ there)).trans (first.old id there)
  attached id := by
    rw [second.attached, first.attached, List.mem_append]
    have held_mono : b.Held id → c.Held id := fun held => (second.old id (first.forest.exists_of_held held)).mpr held
    have exists_mono : a.Exists id → b.Exists id := first.grown.exists_
    have held_back : b.Exists id → c.Held id → b.Held id := fun there => (second.old id there).mp
    by_cases there : b.Exists id
    · tauto
    · tauto

/-- The new trees become the children of a new container. -/
theorem Added.push (forest : a.Forest) (added : Added a b roots roots) (children : node.children = roots) :
    Added a (b.push node).2 [b.nextId] [] := by
  have pushed : (b.push node).2.Forest := by
    apply forest_push added.forest
    · rw [children]
      exact added.nodup
    · intro r inside
      rw [children] at inside
      obtain ⟨_, there, loose⟩ := added.roots r inside
      exact ⟨there, loose, (added.attached r).mpr (.inr (.inr inside))⟩
  have held (id : NodeId) := held_push added.forest node id
  rw [children] at held
  have roots_new (r : NodeId) (inside : r ∈ roots) : ¬ a.Exists r := forest.missing (added.roots r inside).1
  refine ⟨pushed, added.grown.trans (extends_push added.forest node), added.targets, List.nodup_singleton _, ?_, ?_, ?_⟩
  · intro r inside
    rw [List.mem_singleton.mp inside]
    refine ⟨added.grown.nextId, (exists_push b node _).mpr (.inl rfl), ?_⟩
    intro inParent
    have missing := added.forest.missing (Nat.le_refl b.nextId)
    rcases (held b.nextId).mp inParent with before | below
    · exact missing (added.forest.exists_of_held before)
    · exact missing (added.roots _ below).2.1
  · intro id there
    rw [held, ← added.old id there]
    constructor
    · rintro (before | below)
      · exact before
      · exact absurd there (roots_new id below)
    · exact .inl
  · intro id
    show id ∈ b.attached ↔ _
    rw [added.attached, held]
    have := roots_new id
    simp only [List.not_mem_nil, or_false]
    tauto

/-! ## Copies -/

/-- What is left when making one node fails. -/
structure Partial (a b : JsonArena) : Prop where
  forest : b.Forest
  grown : Extends a b
  targets : b.targets = a.targets

theorem Added.partial_ (added : Added a b roots marked) : Partial a b := ⟨added.forest, added.grown, added.targets⟩

theorem Partial.trans (first : Partial a b) (second : Partial b c) : Partial a c :=
  ⟨second.forest, first.grown.trans second.grown, second.targets.trans first.targets⟩

/-- A new tree, or what is left of it. -/
def Makes (a : JsonArena) : Except String NodeId × JsonArena → Prop
  | (.ok new, b) => Added a b [new] []
  | (.error _, b) => Partial a b

/-- New trees in a row, or what is left of them. -/
def MakesAll (a : JsonArena) : Except String (List NodeId) × JsonArena → Prop
  | (.ok copies, b) => Added a b copies copies
  | (.error _, b) => Partial a b

theorem makesAll_copyAll {copy : JsonArena → NodeId → Except String NodeId × JsonArena}
    (makes : ∀ (b : JsonArena) (id : NodeId), b.Forest → b.Exists id → b.Makes (copy b id)) (children : List NodeId) :
    ∀ a : JsonArena, a.Forest → (∀ child ∈ children, a.Exists child) → a.MakesAll (copyAll copy a children) := by
  induction children with
  | nil => exact fun a forest _ => Added.refl forest
  | cons child rest ih =>
      intro a forest there
      have first := makes a child forest (there child List.mem_cons_self)
      rw [copyAll]
      cases made : copy a child with
      | mk result b =>
          rw [made] at first
          cases result with
          | error e => exact first
          | ok new =>
              have marked := Added.mark first
              have others := ih (b.attach new) marked.forest fun other member =>
                marked.grown.exists_ (there other (List.mem_cons_of_mem _ member))
              dsimp only
              cases madeAll : copyAll copy (b.attach new) rest with
              | mk result c =>
                  rw [madeAll] at others
                  cases result with
                  | error e => exact marked.partial_.trans others
                  | ok copies => exact Added.trans marked others

theorem copyAll_length {copy : JsonArena → NodeId → Except String NodeId × JsonArena} {children copies : List NodeId}
    (made : copyAll copy a children = (.ok copies, b)) : copies.length = children.length := by
  induction children generalizing a copies with
  | nil =>
      cases made
      rfl
  | cons child rest ih =>
      rw [copyAll] at made
      split at made
      next => cases made
      next =>
        split at made
        next => cases made
        next copied =>
          cases made
          rw [List.length_cons, List.length_cons, ih copied]

theorem children_withChildren {copies : List NodeId} (node : Node) (length : copies.length = node.children.length) :
    (Node.withChildren copies node).children = copies := by
  cases node with
  | object entries =>
      show ((entries.map (·.1)).zip copies).map (·.2) = copies
      apply List.map_snd_zip
      simpa [Node.children] using length.le
  | array items => rfl
  | scalar s => exact (List.eq_nil_of_length_eq_zero length).symm

theorem makes_deepCopyAt (levels : Nat) : ∀ (a : JsonArena) (id : NodeId), a.Forest → a.Exists id → a.Makes (deepCopyAt levels a id) := by
  induction levels with
  | zero => exact fun a id forest _ => (Added.refl forest).partial_
  | succ levels ih =>
      intro a id forest there
      have copied := makesAll_copyAll ih (a.children id) a forest (forest.resolves id)
      rw [deepCopyAt]
      cases made : copyAll (deepCopyAt levels) a (a.children id) with
      | mk result b =>
          rw [made] at copied
          cases result with
          | error e => exact copied
          | ok copies => exact Added.push forest copied (children_withChildren _ (copyAll_length made))

/-! ## Imports -/

section Import

variable [JsonSyntax]

/-- New trees under keys, or what is left of them. -/
def MakesEntries (a : JsonArena) : Except String (List (String × NodeId)) × JsonArena → Prop
  | (.ok entries, b) => Added a b (entries.map (·.2)) (entries.map (·.2))
  | (.error _, b) => Partial a b

omit [JsonSyntax] in
/-- A new scalar is a tree of its own. -/
theorem makes_scalar (forest : a.Forest) (s : Scalar) : Added a (a.push (.scalar s)).2 [a.nextId] [] :=
  Added.push forest (Added.refl forest) rfl

mutual

theorem makes_importValue : ∀ (parsed : Parsed) (a : JsonArena), a.Forest → a.Makes (a.importValue parsed)
  | .object entries, a, forest => by
      have imported := makesEntries_importEntries entries a forest
      rw [importValue]
      cases made : a.importEntries entries with
      | mk result b =>
          rw [made] at imported
          cases result with
          | error e => exact imported
          | ok children => exact Added.push forest imported rfl
  | .array items, a, forest => by
      have imported := makesAll_importItems items a forest
      rw [importValue]
      cases made : a.importItems items with
      | mk result b =>
          rw [made] at imported
          cases result with
          | error e => exact imported
          | ok children => exact Added.push forest imported rfl
  | .null, a, forest => makes_scalar forest _
  | .bool _, a, forest => makes_scalar forest _
  | .number text, a, forest => by
      rw [importValue]
      split
      · exact (Added.refl forest).partial_
      · exact makes_scalar forest _
  | .string _, a, forest => makes_scalar forest _

theorem makesEntries_importEntries : ∀ (entries : List (String × Parsed)) (a : JsonArena), a.Forest →
    a.MakesEntries (a.importEntries entries)
  | [], a, forest => Added.refl forest
  | (key, value) :: rest, a, forest => by
      have first := makes_importValue value a forest
      rw [importEntries]
      cases made : a.importValue value with
      | mk result b =>
          rw [made] at first
          cases result with
          | error e => exact first
          | ok new =>
              have marked := Added.mark first
              have others := makesEntries_importEntries rest (b.attach new) marked.forest
              dsimp only
              cases madeAll : (b.attach new).importEntries rest with
              | mk result c =>
                  rw [madeAll] at others
                  cases result with
                  | error e => exact marked.partial_.trans others
                  | ok made => exact Added.trans marked others

theorem makesAll_importItems : ∀ (items : List Parsed) (a : JsonArena), a.Forest → a.MakesAll (a.importItems items)
  | [], a, forest => Added.refl forest
  | value :: rest, a, forest => by
      have first := makes_importValue value a forest
      rw [importItems]
      cases made : a.importValue value with
      | mk result b =>
          rw [made] at first
          cases result with
          | error e => exact first
          | ok new =>
              have marked := Added.mark first
              have others := makesAll_importItems rest (b.attach new) marked.forest
              dsimp only
              cases madeAll : (b.attach new).importItems rest with
              | mk result c =>
                  rw [madeAll] at others
                  cases result with
                  | error e => exact marked.partial_.trans others
                  | ok made => exact Added.trans marked others

end

end Import

end JsonArena

end AlLanguage.Runtime.Json
