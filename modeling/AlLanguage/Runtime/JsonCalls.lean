import AlLanguage.Runtime.JsonCopies
import Mathlib.Algebra.Order.BigOperators.Group.Finset

/-!
# One call

- Whatever a call does, the arena stays a forest, a handle keeps its node, and nodes keep their types.
- A call that fails leaves every node that was there as it was.
-/

namespace AlLanguage.Runtime.Json

open Library
open Relation (TransGen ReflTransGen)

/-- Whether a node is of the type that a handle is declared with. -/
def Agrees : JsonKind → Node → Prop
  | .object, .object _ | .array, .array _ | .value, .scalar _ | .token, _ => True
  | _, _ => False

theorem agrees_emptyNode (kind : JsonKind) : Agrees kind (emptyNode kind) := by
  cases kind <;> trivial

namespace JsonArena

variable {a b c : JsonArena} {κ κ' κ'' : Nat → JsonKind} {id parent child : NodeId} {node : Node} {ref : JsonRef}

/-- A forest in which each handle has a node of its type. -/
structure Typed (κ : Nat → JsonKind) (a : JsonArena) : Prop where
  forest : a.Forest
  agrees : ∀ handle node, a.targets.get? handle = some node → Agrees (κ handle) (a.node node)

/-- A reference that the program holds. -/
def Knows (κ : Nat → JsonKind) (a : JsonArena) (ref : JsonRef) : Prop := ref.handle < a.nextId ∧ κ ref.handle = ref.kind

/-- What every call keeps. The types of handles that are made are added. -/
structure Moves (κ κ' : Nat → JsonKind) (a b : JsonArena) : Prop where
  typed : b.Typed κ'
  nextId : a.nextId ≤ b.nextId
  kinds : ∀ handle < a.nextId, κ' handle = κ handle
  targets : ∀ handle node, a.targets.get? handle = some node → b.targets.get? handle = some node

theorem Moves.refl (typed : a.Typed κ) : Moves κ κ a a := ⟨typed, Nat.le_refl _, fun _ _ => rfl, fun _ _ same => same⟩

theorem Moves.trans (first : Moves κ κ' a b) (second : Moves κ' κ'' b c) : Moves κ κ'' a c where
  typed := second.typed
  nextId := first.nextId.trans second.nextId
  kinds handle known := (second.kinds handle (Nat.lt_of_lt_of_le known first.nextId)).trans (first.kinds handle known)
  targets handle node same := second.targets handle node (first.targets handle node same)

theorem Moves.knows (moves : Moves κ κ' a b) (knows : a.Knows κ ref) : b.Knows κ' ref :=
  ⟨Nat.lt_of_lt_of_le knows.1 moves.nextId, (moves.kinds _ knows.1).trans knows.2⟩

/-- Nothing but first nodes of handles can be told apart. -/
structure Quiet (κ : Nat → JsonKind) (a b : JsonArena) : Prop where
  grown : Extends a b
  made : ∀ handle node, b.targets.get? handle = some node →
    a.targets.get? handle = some node ∨
      a.targets.get? handle = none ∧ ¬ a.Exists node ∧ b.nodes.get? node = some (emptyNode (κ handle))

theorem Quiet.refl (a : JsonArena) : Quiet κ a a := ⟨.refl a, fun _ _ same => .inl same⟩

theorem Quiet.trans (forest : b.Forest) (first : Quiet κ a b) (second : Quiet κ b c) : Quiet κ a c where
  grown := first.grown.trans second.grown
  made handle node same := by
    rcases second.made handle node same with before | ⟨none_before, unknown, new⟩
    · rcases first.made handle node before with first_before | ⟨missing, unknown, new⟩
      · exact .inl first_before
      · exact .inr ⟨missing, unknown, (second.grown.nodes node (forest.targets handle node before).2).trans new⟩
    · refine .inr ⟨?_, fun there => unknown (first.grown.exists_ there), new⟩
      cases there : a.targets.get? handle with
      | none => rfl
      | some old =>
          rw [first.grown.targets handle old there] at none_before
          cases none_before

/-- New trees and no new handle. -/
theorem Partial.moves (typed : a.Typed κ) (left : Partial a b) : Moves κ κ a b where
  typed := by
    refine ⟨left.forest, ?_⟩
    intro handle node same
    rw [left.targets] at same
    rw [left.grown.node_eq (typed.forest.targets handle node same).2]
    exact typed.agrees handle node same
  nextId := left.grown.nextId
  kinds _ _ := rfl
  targets handle node same := by rwa [left.targets]

theorem Partial.quiet (left : Partial a b) : Quiet κ a b where
  grown := left.grown
  made _ _ same := .inl (left.targets ▸ same)

/-! ## Targets and references -/

/-- The node of a known handle, made when it is first used. -/
theorem target_cases (a : JsonArena) (ref : JsonRef) :
    (∃ node, a.targets.get? ref.handle = some node ∧ a.target ref = (node, a)) ∨
      a.targets.get? ref.handle = none ∧ a.target ref = (a.nextId,
        { (a.push (emptyNode ref.kind)).2 with targets := a.targets.insert ref.handle a.nextId }) := by
  unfold target
  cases held : a.targets.get? ref.handle with
  | some node => exact .inl ⟨node, rfl, rfl⟩
  | none => exact .inr ⟨rfl, rfl⟩

theorem children_emptyNode (kind : JsonKind) : (emptyNode kind).children = [] := by
  cases kind <;> rfl

theorem forest_pushEmpty (forest : a.Forest) (kind : JsonKind) : (a.push (emptyNode kind)).2.Forest := by
  apply forest_push forest
  · rw [children_emptyNode]
    exact List.nodup_nil
  · intro c inside
    rw [children_emptyNode] at inside
    cases inside

structure Targeted (κ : Nat → JsonKind) (a : JsonArena) (node : NodeId) (b : JsonArena) : Prop where
  moves : Moves κ κ a b
  quiet : Quiet κ a b
  there : b.Exists node
  attached : b.attached = a.attached
  children : ∀ id, b.children id = a.children id

theorem targeted (typed : a.Typed κ) (knows : a.Knows κ ref) : Targeted κ a (a.target ref).1 (a.target ref).2 := by
  rcases target_cases a ref with ⟨node, held, same⟩ | ⟨missing, same⟩
  · rw [same]
    exact ⟨.refl typed, .refl a, (typed.forest.targets _ _ held).2, rfl, fun _ => rfl⟩
  · have pushed := forest_pushEmpty typed.forest ref.kind
    have grown := extends_push typed.forest (emptyNode ref.kind)
    have there : (a.push (emptyNode ref.kind)).2.Exists a.nextId := (exists_push a _ _).mpr (.inl rfl)
    rw [same]
    refine ⟨⟨⟨?_, ?_⟩, Nat.le_succ _, fun _ _ => rfl, ?_⟩, ⟨⟨grown.nodes, ?_, Nat.le_succ _⟩, ?_⟩, there, rfl, ?_⟩
    · exact forest_retarget pushed (Nat.lt_succ_of_lt knows.1) there
    · intro handle node found
      replace found : (a.targets.insert ref.handle a.nextId).get? handle = some node := found
      rw [IndexMap.get?_insert] at found
      split at found
      next here =>
        cases found
        rw [← here, knows.2]
        show Agrees ref.kind ((a.push (emptyNode ref.kind)).2.node a.nextId)
        rw [JsonArena.node, get?_push, if_pos rfl]
        exact agrees_emptyNode ref.kind
      next =>
        show Agrees (κ handle) ((a.push (emptyNode ref.kind)).2.node node)
        rw [grown.node_eq (typed.forest.targets handle node found).2]
        exact typed.agrees handle node found
    · intro handle node found
      show (a.targets.insert ref.handle a.nextId).get? handle = some node
      rw [IndexMap.get?_insert, if_neg]
      · exact found
      · rintro rfl
        rw [missing] at found
        cases found
    · intro handle node found
      show (a.targets.insert ref.handle a.nextId).get? handle = some node
      rw [IndexMap.get?_insert, if_neg]
      · exact found
      · rintro rfl
        rw [missing] at found
        cases found
    · intro handle node found
      replace found : (a.targets.insert ref.handle a.nextId).get? handle = some node := found
      rw [IndexMap.get?_insert] at found
      split at found
      next here =>
        cases found
        refine .inr ⟨here ▸ missing, typed.forest.missing (Nat.le_refl _), ?_⟩
        show (a.push (emptyNode ref.kind)).2.nodes.get? a.nextId = _
        rw [get?_push, if_pos rfl, ← here, knows.2]
      next => exact .inl found
    · intro id
      show (a.push (emptyNode ref.kind)).2.children id = a.children id
      rw [children_push]
      split
      next here =>
        rw [children_emptyNode, children_of_missing (here ▸ typed.forest.missing (Nat.le_refl _))]
      next => rfl

theorem reference_eq (a : JsonArena) (kind : JsonKind) (node : NodeId) : a.reference kind node =
    (⟨kind, a.nextId⟩, { a with nextId := a.nextId + 1, targets := a.targets.insert a.nextId node }) := rfl

/-- A reference gets a handle of its own. -/
theorem moves_reference (typed : a.Typed κ) {kind : JsonKind} (there : a.Exists id) (agrees : Agrees kind (a.node id)) :
    Moves κ (Function.update κ a.nextId kind) a (a.reference kind id).2 ∧
      (a.reference kind id).2.Knows (Function.update κ a.nextId kind) (a.reference kind id).1 := by
  rw [reference_eq]
  refine ⟨⟨⟨?_, ?_⟩, Nat.le_succ _, ?_, ?_⟩, Nat.lt_succ_self _, Function.update_self ..⟩
  · exact forest_retarget (forest_freshId typed.forest) (Nat.lt_succ_self _) there
  · intro handle node found
    replace found : (a.targets.insert a.nextId id).get? handle = some node := found
    show Agrees _ (a.node node)
    rw [IndexMap.get?_insert] at found
    split at found
    next here =>
      cases found
      rw [← here, Function.update_self]
      exact agrees
    next apart =>
      rw [Function.update_of_ne (Ne.symm apart)]
      exact typed.agrees handle node found
  · intro handle known
    exact Function.update_of_ne (Nat.ne_of_lt known) ..
  · intro handle node found
    show (a.targets.insert a.nextId id).get? handle = some node
    rw [IndexMap.get?_insert, if_neg]
    · exact found
    · rintro rfl
      exact Nat.lt_irrefl _ (typed.forest.targets _ _ found).1

/-! ## Changes to a node -/

/-- A node keeps its type when it is changed. -/
theorem moves_set (typed : a.Typed κ) (forest : (a.set id node).Forest)
    (agrees : ∀ kind, Agrees kind (a.node id) → Agrees kind node) : Moves κ κ a (a.set id node) where
  typed := by
    refine ⟨forest, ?_⟩
    intro handle other found
    have before := typed.agrees handle other found
    unfold JsonArena.node
    rw [get?_set]
    split
    next same => exact agrees _ (same ▸ before)
    next => exact before
  nextId := Nat.le_refl _
  kinds _ _ := rfl
  targets _ _ same := same

/-! ## What is placed -/

theorem sum_children (a : JsonArena) : ∑ id ∈ (a.nodes.entries.map (·.1)).toFinset, (a.children id).reverse.length =
    (a.nodes.entries.map fun entry => entry.2.children.length).sum := by
  rw [List.sum_toFinset _ a.nodes.distinct, List.map_map]
  congr 1
  apply List.map_congr_left
  rintro ⟨id, node⟩ member
  have held := (IndexMap.mem_entries_iff a.nodes id node).mp member
  simp [children, JsonArena.node, held]

/-- The turns of a search are enough for every arena. -/
theorem turns_enough (a : JsonArena) (node : NodeId) :
    Search.turnsFor (fun id => (a.children id).reverse) (a.nodes.entries.map (·.1)).toFinset [node] [] ≤
      1 + (a.nodes.entries.map fun entry => entry.2.children.length).sum := by
  rw [← sum_children]
  exact Nat.add_le_add_left (Finset.sum_le_sum_of_subset (Finset.filter_subset _ _)) _

theorem children_unlisted (a : JsonArena) (id : NodeId) (unlisted : id ∉ (a.nodes.entries.map (·.1)).toFinset) :
    a.children id = [] := by
  apply children_of_missing
  intro there
  obtain ⟨node, held⟩ := Option.isSome_iff_exists.mp there
  have member := List.mem_map_of_mem (f := (·.1)) ((IndexMap.mem_entries_iff a.nodes id node).mpr held)
  exact unlisted (List.mem_toFinset.mpr member)

theorem holds_iff (a : JsonArena) (node wanted : NodeId) : a.holds node wanted = true ↔ ReflTransGen a.Contains node wanted := by
  unfold holds
  rw [Search.finds_iff (fun id unlisted => by rw [children_unlisted a id unlisted, List.reverse_nil]) (turns_enough a node) (by simp)]
  simp only [List.mem_reverse, List.mem_singleton, exists_eq_left]
  exact Iff.rfl

/-- A child that nothing holds yet and that does not hold its container. -/
structure Loose (a : JsonArena) (parent child : NodeId) : Prop where
  there : a.Exists child
  free : ¬ a.Held child
  attached : child ∈ a.attached
  apart : ¬ ReflTransGen a.Contains child parent

/-- A child to place, or what is left of it. -/
structure Offers (κ : Nat → JsonKind) (a : JsonArena) (parent : NodeId) (offer : Except String NodeId × JsonArena) : Prop where
  moves : Moves κ κ a offer.2
  quiet : Quiet κ a offer.2
  loose : ∀ child, offer.1 = .ok child → offer.2.Loose parent child

/-- What is below a new node is new. -/
theorem Added.below_new {roots marked : List NodeId} (added : Added a b roots marked) {x y : NodeId}
    (walk : ReflTransGen b.Contains x y) (new : ¬ a.Exists x) : ¬ a.Exists y := by
  induction walk with
  | refl => exact new
  | tail _ last ih =>
      intro there
      obtain ⟨p, inside⟩ := (added.old _ there).mp ⟨_, last⟩
      have parentThere := exists_of_child inside
      rw [← added.grown.children_eq parentThere] at inside
      rw [added.forest.once _ _ _ last inside] at ih
      exact ih parentThere

/-- The last steps keep what was found. -/
theorem offers_attachChild (moves : Moves κ κ a b) (quiet : Quiet κ a b) (there : b.Exists child)
    (free : ¬ b.Held child) (apart : ¬ ReflTransGen b.Contains child parent) :
    Offers κ a parent (attachChild (.ok child, b)) := by
  have forest := forest_attach moves.typed.forest there
  have kept : Moves κ κ a (b.attach child) := ⟨⟨forest, moves.typed.agrees⟩, moves.nextId, moves.kinds, moves.targets⟩
  have still : Quiet κ a (b.attach child) := ⟨⟨quiet.grown.nodes, quiet.grown.targets, quiet.grown.nextId⟩, quiet.made⟩
  unfold attachChild
  dsimp only
  split
  · refine ⟨kept, still, ?_⟩
    intro c same
    cases same
  · refine ⟨kept, still, ?_⟩
    intro c same
    cases same
    exact ⟨there, free, (mem_attach b child child).mpr (.inl rfl), apart⟩

theorem offers_added (typed : a.Typed κ) (parentThere : a.Exists parent) (added : Added a b [child] []) :
    Offers κ a parent (attachChild (.ok child, b)) := by
  obtain ⟨new, there, free⟩ := added.roots child List.mem_cons_self
  apply offers_attachChild (added.partial_.moves typed) added.partial_.quiet there free
  intro walk
  exact added.below_new walk (typed.forest.missing new) parentThere

theorem offers_placed (typed : a.Typed κ) (parentThere : a.Exists parent) (there : a.Exists id) :
    Offers κ a parent (attachChild (a.placed parent id)) := by
  unfold placed
  split
  next =>
    have made := makes_deepCopyAt (maxJsonDepth + 1) a id typed.forest there
    unfold deepCopy
    cases copied : deepCopyAt (maxJsonDepth + 1) a id with
    | mk result b =>
        rw [copied] at made
        cases result with
        | error e =>
            refine ⟨made.moves typed, made.quiet, ?_⟩
            intro c same
            cases same
        | ok new => exact offers_added typed parentThere made
  next free =>
    rw [not_or, holds_iff] at free
    apply offers_attachChild (.refl typed) (.refl a) there
    · rintro ⟨p, inside⟩
      exact free.1 (typed.forest.attached p id inside)
    · exact free.2

theorem Offers.after (forest : b.Forest) (moves : Moves κ κ a b) (quiet : Quiet κ a b)
    {offer : Except String NodeId × JsonArena} (offers : Offers κ b parent offer) : Offers κ a parent offer :=
  ⟨moves.trans offers.moves, quiet.trans forest offers.quiet, offers.loose⟩

/-- The JSON values among the arguments are known. -/
def KnowsArg (κ : Nat → JsonKind) (a : JsonArena) : JsonArg → Prop
  | .json ref => a.Knows κ ref
  | .value _ => True

/-! ## Answers -/

/-- What a call keeps, and what it leaves alone when it fails. -/
structure Serves (κ : Nat → JsonKind) (a : JsonArena) (answer : Answer) : Prop where
  moves : ∃ κ', Moves κ κ' a answer.2 ∧ ∀ reply, answer.1 = .ok reply → ∀ ref ∈ reply.refs, answer.2.Knows κ' ref
  quiet : ∀ e, answer.1 = .error e → Quiet κ a answer.2

theorem serves_error (moves : Moves κ κ a b) (quiet : Quiet κ a b) (e : JsonError) : Serves κ a (.error e, b) where
  moves := ⟨κ, moves, fun _ same => by cases same⟩
  quiet _ _ := quiet

theorem serves_ok (moves : Moves κ κ' a b) {reply : Reply} (knows : ∀ ref ∈ reply.refs, b.Knows κ' ref) :
    Serves κ a (.ok reply, b) where
  moves := ⟨κ', moves, fun other same => by
    cases same
    exact knows⟩
  quiet _ same := by cases same

/-- An answer that only reads. -/
theorem serves_same (typed : a.Typed κ) {result : Except JsonError Reply} (none_made : ∀ reply, result = .ok reply → reply.refs = []) :
    Serves κ a (result, a) where
  moves := by
    refine ⟨κ, .refl typed, ?_⟩
    intro reply same ref inside
    rw [none_made reply same] at inside
    cases inside
  quiet _ _ := .refl a

theorem Serves.after (moves : Moves κ κ a b) (quiet : Quiet κ a b) {answer : Answer} (serves : Serves κ b answer) :
    Serves κ a answer where
  moves := by
    obtain ⟨κ', later, knows⟩ := serves.moves
    exact ⟨κ', moves.trans later, knows⟩
  quiet e same := quiet.trans moves.typed.forest (serves.quiet e same)

theorem serves_withArg (typed : a.Typed κ) {α : Type} {arg : Except JsonError α} {next : α → Answer}
    (serves : ∀ value, Serves κ a (next value)) : Serves κ a (a.withArg arg next) := by
  cases arg with
  | error e => exact serves_error (.refl typed) (.refl a) e
  | ok value => exact serves value

theorem serves_reference (typed : a.Typed κ) {kind : JsonKind} (there : a.Exists id) (agrees : Agrees kind (a.node id)) :
    Serves κ a (a.referenceAnswer kind id) := by
  obtain ⟨moves, knows⟩ := moves_reference typed there agrees
  apply serves_ok moves
  intro ref inside
  rw [Reply.refs, List.filterMap_nil, List.append_nil] at inside
  rw [List.mem_singleton.mp inside]
  exact knows

theorem serves_token (typed : a.Typed κ) (there : a.Exists id) : Serves κ a (a.tokenAnswer id) := by
  obtain ⟨moves, knows⟩ := moves_reference typed there (show Agrees .token (a.node id) from trivial)
  apply serves_ok moves
  intro ref inside
  rw [List.mem_singleton.mp inside]
  exact knows

/-! ## Placing a value -/

section Calls

variable [JsonSyntax]

theorem offers_childFor (typed : a.Typed κ) (parentThere : a.Exists parent) {arg : JsonArg} (knows : a.KnowsArg κ arg) :
    Offers κ a parent (a.childFor parent arg) := by
  cases arg with
  | json ref =>
      have made := targeted typed knows
      exact (offers_placed made.moves.typed (made.quiet.grown.exists_ parentThere) made.there).after made.moves.typed.forest
        made.moves made.quiet
  | value v =>
      unfold childFor
      dsimp only
      cases scalarOf v with
      | error e =>
          refine ⟨.refl typed, .refl a, ?_⟩
          intro c same
          cases same
      | ok s => exact offers_added typed parentThere (makes_scalar typed.forest s)

theorem serves_place (typed : a.Typed κ) (there : a.Exists parent) {value : Option JsonArg}
    (knows : ∀ arg ∈ value, a.KnowsArg κ arg) {put : NodeId → Node}
    (agrees : ∀ child kind, Agrees kind (a.node parent) → Agrees kind (put child))
    (nodup : ∀ child, child ∉ a.children parent → (put child).children.Nodup)
    (within : ∀ child, ∀ c ∈ (put child).children, c ∈ a.children parent ∨ c = child) :
    Serves κ a (a.place parent value put) := by
  cases value with
  | none => exact serves_error (.refl typed) (.refl a) _
  | some value =>
      have offers := offers_childFor typed there (knows value rfl)
      unfold place
      dsimp only
      cases offered : a.childFor parent value with
      | mk result b =>
          rw [offered] at offers
          cases result with
          | error e => exact serves_error offers.moves offers.quiet _
          | ok child =>
              have loose := offers.loose child rfl
              have same := offers.quiet.grown.children_eq there
              have forest : (b.set parent (put child)).Forest := by
                apply forest_set offers.moves.typed.forest (offers.quiet.grown.exists_ there)
                · apply nodup
                  intro inside
                  exact loose.free ⟨parent, same ▸ inside⟩
                · intro c inside
                  rcases within child c inside with old | rfl
                  · exact .inl (same ▸ old)
                  · exact .inr ⟨loose.there, loose.free, loose.attached, loose.apart⟩
              have moves : Moves κ κ a (b.set parent (put child)) := by
                apply offers.moves.trans
                apply moves_set offers.moves.typed forest
                intro kind
                rw [offers.quiet.grown.node_eq there]
                exact agrees child kind
              apply serves_ok moves
              · intro ref inside
                cases inside

end Calls

end JsonArena

end AlLanguage.Runtime.Json
