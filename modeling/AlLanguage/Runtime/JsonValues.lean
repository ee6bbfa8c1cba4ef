import AlLanguage.Runtime.JsonRuns
import AlLanguage.Runtime.JsonSelection
import Mathlib.Order.WellFoundedSet

/-!
# What variables stand for

- In every state that a program reaches each variable stands for exactly one tree, which is of its type.
- A call that fails leaves what every variable stands for as it was.
-/

namespace AlLanguage.Runtime.Json

open Library
open Relation (TransGen ReflTransGen)

/-- Whether a tree is of the type that a variable is declared with. -/
def Tree.OfKind : JsonKind → Tree → Prop
  | .object, .object _ | .array, .array _ | .value, .scalar _ | .token, _ => True
  | _, _ => False

def emptyTree : JsonKind → Tree
  | .object => .object []
  | .array => .array []
  | .value | .token => .scalar .null

namespace JsonArena

variable {a b : JsonArena} {κ : Nat → JsonKind} {id : NodeId} {ref : JsonRef}

/-! ## Every node stands for one tree -/

theorem contains_of_get? {node : Node} {child : NodeId} (there : a.nodes.get? id = some node) (inside : child ∈ node.children) :
    a.Contains id child := by
  rw [Contains, children, node_of_get? there]
  exact inside

mutual

/-- A tree is kept if the nodes below its root are. -/
theorem shows_kept : ∀ (t : Tree) (id : NodeId), (∀ x, ReflTransGen a.Contains id x → b.nodes.get? x = a.nodes.get? x) →
    a.Shows id t → b.Shows id t
  | .object entries, id, kept, shown => by
      obtain ⟨children, node, all⟩ := shown
      refine ⟨children, (kept id .refl).trans node, showsEntries_kept entries children ?_ all⟩
      intro entry inside x walk
      exact kept x (.head (contains_of_get? node (List.mem_map_of_mem inside)) walk)
  | .array items, id, kept, shown => by
      obtain ⟨children, node, all⟩ := shown
      refine ⟨children, (kept id .refl).trans node, showsItems_kept items children ?_ all⟩
      intro child inside x walk
      exact kept x (.head (contains_of_get? node inside) walk)
  | .scalar _, id, kept, shown => (kept id .refl).trans shown

theorem showsItems_kept : ∀ (items : List Tree) (ids : List NodeId),
    (∀ id ∈ ids, ∀ x, ReflTransGen a.Contains id x → b.nodes.get? x = a.nodes.get? x) → a.ShowsItems ids items → b.ShowsItems ids items
  | [], [], _, _ => trivial
  | [], _ :: _, _, shown => shown.elim
  | _ :: _, [], _, shown => shown.elim
  | item :: rest, id :: ids, kept, shown =>
      ⟨shows_kept item id (kept id List.mem_cons_self) shown.1,
        showsItems_kept rest ids (fun other inside => kept other (List.mem_cons_of_mem _ inside)) shown.2⟩

theorem showsEntries_kept : ∀ (entries : List (String × Tree)) (ids : List (String × NodeId)),
    (∀ entry ∈ ids, ∀ x, ReflTransGen a.Contains entry.2 x → b.nodes.get? x = a.nodes.get? x) →
    a.ShowsEntries ids entries → b.ShowsEntries ids entries
  | [], [], _, _ => trivial
  | [], _ :: _, _, shown => shown.elim
  | _ :: _, [], _, shown => shown.elim
  | (_, item) :: rest, (_, id) :: ids, kept, shown =>
      ⟨shown.1, shows_kept item id (kept _ List.mem_cons_self) shown.2.1,
        showsEntries_kept rest ids (fun other inside => kept other (List.mem_cons_of_mem _ inside)) shown.2.2⟩

end

theorem exists_showsItems (ids : List NodeId) (each : ∀ id ∈ ids, ∃ t, a.Shows id t) : ∃ items, a.ShowsItems ids items := by
  induction ids with
  | nil => exact ⟨[], trivial⟩
  | cons id rest ih =>
      obtain ⟨t, shown⟩ := each id List.mem_cons_self
      obtain ⟨items, others⟩ := ih fun other inside => each other (List.mem_cons_of_mem _ inside)
      exact ⟨t :: items, shown, others⟩

theorem exists_showsEntries (ids : List (String × NodeId)) (each : ∀ entry ∈ ids, ∃ t, a.Shows entry.2 t) :
    ∃ entries, a.ShowsEntries ids entries := by
  induction ids with
  | nil => exact ⟨[], trivial⟩
  | cons entry rest ih =>
      obtain ⟨t, shown⟩ := each entry List.mem_cons_self
      obtain ⟨entries, others⟩ := ih fun other inside => each other (List.mem_cons_of_mem _ inside)
      exact ⟨(entry.1, t) :: entries, rfl, shown, others⟩

/-- Containment goes down to scalars. -/
theorem Forest.contains_wellFounded (forest : a.Forest) :
    Set.WellFoundedOn {id | a.Exists id} fun child parent => TransGen a.Contains parent child := by
  have finite : Set.Finite {id | a.Exists id} := by
    apply Set.Finite.subset (Finset.finite_toSet (Finset.range a.nextId))
    intro id there
    exact Finset.mem_coe.mpr (Finset.mem_range.mpr (forest.below id there))
  have : IsStrictOrder NodeId fun child parent => TransGen a.Contains parent child :=
    { irrefl := forest.acyclic
      trans := fun _ _ _ below later => TransGen.trans later below }
  exact finite.wellFoundedOn

theorem Forest.exists_shows (forest : a.Forest) (there : a.Exists id) : ∃ t, a.Shows id t := by
  apply forest.contains_wellFounded.induction there (P := fun id => ∃ t, a.Shows id t)
  intro id there ih
  obtain ⟨node, held⟩ := Option.isSome_iff_exists.mp there
  have each : ∀ child ∈ node.children, ∃ t, a.Shows child t := by
    intro child inside
    have contains := contains_of_get? held inside
    exact ih child (forest.resolves id child contains) (.single contains)
  cases node with
  | object entries =>
      obtain ⟨trees, all⟩ := exists_showsEntries entries fun entry inside => each entry.2 (List.mem_map_of_mem inside)
      exact ⟨.object trees, entries, held, all⟩
  | array items =>
      obtain ⟨trees, all⟩ := exists_showsItems items each
      exact ⟨.array trees, items, held, all⟩
  | scalar s => exact ⟨.scalar s, held⟩

/-- A tree is of the type of its root. -/
theorem ofKind_of_agrees {kind : JsonKind} {t : Tree} (agrees : Agrees kind (a.node id)) (shown : a.Shows id t) : t.OfKind kind := by
  cases t with
  | object entries =>
      obtain ⟨children, node, _⟩ := shown
      rw [node_of_get? node] at agrees
      cases kind <;> exact agrees
  | array items =>
      obtain ⟨children, node, _⟩ := shown
      rw [node_of_get? node] at agrees
      cases kind <;> exact agrees
  | scalar s =>
      rw [node_of_get? shown] at agrees
      cases kind <;> exact agrees

/-! ## References -/

/-- What a reference stands for. A handle that is used for the first time gets an empty value. -/
def Reads (a : JsonArena) (ref : JsonRef) (t : Tree) : Prop := (a.target ref).2.Shows (a.target ref).1 t

theorem shows_emptyNode {kind : JsonKind} (there : a.nodes.get? id = some (emptyNode kind)) : a.Shows id (emptyTree kind) := by
  cases kind with
  | object => exact ⟨[], there, trivial⟩
  | array => exact ⟨[], there, trivial⟩
  | token => exact there
  | value => exact there

theorem reads_held (held : a.targets.get? ref.handle = some id) (t : Tree) : a.Reads ref t ↔ a.Shows id t := by
  rw [Reads, target, held]

theorem reads_missing (missing : a.targets.get? ref.handle = none) : a.Reads ref (emptyTree ref.kind) := by
  rw [Reads, target, missing]
  apply shows_emptyNode
  show (a.push (emptyNode ref.kind)).2.nodes.get? a.nextId = _
  rw [get?_push, if_pos rfl]

theorem reads_unique {t t' : Tree} (reads : a.Reads ref t) (reads' : a.Reads ref t') : t = t' := shows_unique t t' _ reads reads'

theorem exists_reads (typed : a.Typed κ) (knows : a.Knows κ ref) : ∃ t, a.Reads ref t ∧ t.OfKind ref.kind := by
  have made := targeted typed knows
  obtain ⟨t, shown⟩ := made.moves.typed.forest.exists_shows made.there
  exact ⟨t, shown, ofKind_of_agrees (agrees_target typed knows) shown⟩

/-- What is only grown reads as it did. -/
theorem Quiet.reads (quiet : Quiet κ a b) (knows : a.Knows κ ref) {t : Tree} (reads : a.Reads ref t) : b.Reads ref t := by
  cases held : a.targets.get? ref.handle with
  | some node =>
      rw [reads_held held] at reads
      rw [reads_held (quiet.grown.targets _ _ held)]
      exact quiet.grown.keeps.shows t node reads
  | none =>
      rw [reads_unique reads (reads_missing held)]
      cases later : b.targets.get? ref.handle with
      | none => exact reads_missing later
      | some node =>
          rw [reads_held later]
          rcases quiet.made _ _ later with before | ⟨_, _, new⟩
          · rw [held] at before
            cases before
          · rw [knows.2] at new
            exact shows_emptyNode new

theorem Quiet.reads_iff (quiet : Quiet κ a b) (typed : a.Typed κ) (knows : a.Knows κ ref) {t : Tree} : b.Reads ref t ↔ a.Reads ref t := by
  refine ⟨?_, quiet.reads knows⟩
  intro reads
  obtain ⟨t', reads', _⟩ := exists_reads typed knows
  rw [reads_unique reads (quiet.reads knows reads')]
  exact reads'

end JsonArena

/-! ## Variables -/

namespace JsonState

variable {s : JsonState}

def Stands (s : JsonState) (name : String) (t : Tree) : Prop := ∃ ref, s.vars.get? name = some ref ∧ s.arena.Reads ref t

/-- The type of a variable. -/
def kindOf (s : JsonState) (name : String) : Option JsonKind := (s.vars.get? name).map JsonRef.kind

theorem stands_unique {name : String} {t t' : Tree} (stands : s.Stands name t) (stands' : s.Stands name t') : t = t' := by
  obtain ⟨ref, found, reads⟩ := stands
  obtain ⟨ref', found', reads'⟩ := stands'
  rw [found] at found'
  cases found'
  exact JsonArena.reads_unique reads reads'

section Runs

variable [JsonSyntax] [CaseMapping]

/-- In every state that a program reaches the arena is a forest, and a variable stands for one tree of its type. -/
theorem reached_stands (reached : s.Reached) : s.arena.Forest ∧ ∀ name kind, s.kindOf name = some kind →
    ∃ t, s.Stands name t ∧ t.OfKind kind ∧ ∀ t', s.Stands name t' → t' = t := by
  obtain ⟨κ, typed, knows⟩ := reached.sound
  refine ⟨typed.forest, ?_⟩
  intro name kind declared
  obtain ⟨ref, found, rfl⟩ := Option.map_eq_some_iff.mp declared
  obtain ⟨t, reads, ofKind⟩ := JsonArena.exists_reads typed (knows name ref found)
  exact ⟨t, ⟨ref, found, reads⟩, ofKind, fun t' stands => stands_unique stands ⟨ref, found, reads⟩⟩

/-- A call that fails is not seen. -/
theorem failed_call_unseen (reached : s.Reached) (recv : String) (method : JsonMethod) (operands : List Operand) (into : List String)
    {e : JsonError} {arena : JsonArena} (failed : s.answer recv method operands = some (.error e, arena)) (name : String) (t : Tree) :
    (s.step (.call recv method operands into)).Stands name t ↔ s.Stands name t := by
  obtain ⟨κ, sound⟩ := reached.sound
  have quiet := (served_answer sound failed).quiet e rfl
  have after : s.step (.call recv method operands into) = { s with arena := arena } := by
    rw [step, failed]
  rw [after]
  constructor
  · rintro ⟨ref, found, reads⟩
    exact ⟨ref, found, (quiet.reads_iff sound.1 (sound.2 name ref found)).mp reads⟩
  · rintro ⟨ref, found, reads⟩
    exact ⟨ref, found, quiet.reads (sound.2 name ref found) reads⟩

end Runs

section Examples

attribute [local instance] JsonSyntax.paths CaseMapping.latin1

def declared : List JsonAction := [.declare "order" .object, .assign "copy" "order"]

theorem reached_stands_order : ∃ t, (Machine.run step {} declared).Stands "order" t ∧ t.OfKind .object ∧
    ∀ t', (Machine.run step {} declared).Stands "order" t' → t' = t :=
  (reached_stands ⟨declared, rfl⟩).2 "order" .object rfl

theorem failed_call_unseen_order :
    ((Machine.run step {} declared).step (.call "order" .add [.value (.text "lines")] [])).Stands "copy" (.object []) ↔
      (Machine.run step {} declared).Stands "copy" (.object []) :=
  failed_call_unseen ⟨declared, rfl⟩ "order" .add [.value (.text "lines")] [] rfl "copy" _

end Examples

end JsonState

end AlLanguage.Runtime.Json
