import AlLanguage.Runtime.JsonCalls
import Mathlib.Logic.Relator

/-!
# What a path denotes

- A step relates a node to nodes. A descent is the reflexive and transitive closure of containment.
- The nodes that are followed are those that the path denotes. With one descent none of them is listed twice.
-/

namespace AlLanguage.Runtime.Json

open Library
open Relation (TransGen ReflTransGen)

namespace JsonArena

section Denotation

variable (a : JsonArena) (root : NodeId)

mutual

def StepTo : PathStep → NodeId → NodeId → Prop
  | .member key, node, found => a.member node key = some found
  | .index place, node, found => ∃ items, a.node node = .array items ∧ items[place]? = some found
  | .wildcard, node, found => found ∈ a.children node
  | .descend, node, found => ReflTransGen a.Contains node found
  | .filter f, node, found => ∃ items, a.node node = .array items ∧ found ∈ items ∧ Passes f found

def Denotes : List PathStep → NodeId → NodeId → Prop
  | [], node, found => found = node
  | step :: rest, node, found => ∃ next, StepTo step node next ∧ Denotes rest next found

def Passes : PathFilter → NodeId → Prop
  | .any parts, item => PassesAny parts item
  | .all parts, item => PassesAll parts item
  | .exists_ o, item => ∃ v, Yields o item v
  | .compare left op right, item => ∃ l r, Yields left item l ∧ Yields right item r ∧ compareScalars l op r = true

def PassesAny : List PathFilter → NodeId → Prop
  | [], _ => False
  | part :: rest, item => Passes part item ∨ PassesAny rest item

def PassesAll : List PathFilter → NodeId → Prop
  | [], _ => True
  | part :: rest, item => Passes part item ∧ PassesAll rest item

def Yields : FilterOperand → NodeId → Option Scalar → Prop
  | .literal s, _, v => v = some s
  | .path fromRoot steps, item, v => ∃ node, Denotes steps (if fromRoot then root else item) node ∧ v = a.scalarAt node

end

end Denotation

end JsonArena

mutual

/-- A descent is never the last step, in the filters too. -/
def PathStep.Closed : PathStep → Prop
  | .filter f => f.Closed
  | _ => True

def ClosedSteps : List PathStep → Prop
  | [] => True
  | step :: rest => step.Closed ∧ ClosedSteps rest ∧ (step = .descend → rest ≠ [])

def PathFilter.Closed : PathFilter → Prop
  | .any parts => ClosedParts parts
  | .all parts => ClosedParts parts
  | .exists_ o => o.Closed
  | .compare left _ right => left.Closed ∧ right.Closed

def ClosedParts : List PathFilter → Prop
  | [] => True
  | part :: rest => part.Closed ∧ ClosedParts rest

def FilterOperand.Closed : FilterOperand → Prop
  | .literal _ => True
  | .path _ steps => ClosedSteps steps

end

namespace JsonArena

variable {a : JsonArena} {root node : NodeId}

theorem mem_selfAndDescendants (a : JsonArena) (node found : NodeId) :
    found ∈ a.selfAndDescendants node ↔ ReflTransGen a.Contains node found := by
  have turns : Search.turnsFor a.children (a.nodes.entries.map (·.1)).toFinset [node] [] ≤
      1 + (a.nodes.entries.map fun entry => entry.2.children.length).sum := by
    have enough := turns_enough a node
    simpa only [Search.turnsFor, List.length_reverse] using enough
  unfold selfAndDescendants
  rw [Search.mem_visit_iff (children_unlisted a) turns (by simp)]
  simp only [List.not_mem_nil, false_or, List.mem_singleton, exists_eq_left]
  exact Iff.rfl

theorem nodup_selfAndDescendants (a : JsonArena) (node : NodeId) : (a.selfAndDescendants node).Nodup :=
  Search.nodup_visit List.nodup_nil

/-- A second descent adds nothing. -/
theorem denotes_descend_descend (steps : List PathStep) (node found : NodeId) :
    a.Denotes root (.descend :: .descend :: steps) node found ↔ a.Denotes root (.descend :: steps) node found := by
  simp only [Denotes, StepTo]
  constructor
  · rintro ⟨x, first, y, second, rest⟩
    exact ⟨y, first.trans second, rest⟩
  · rintro ⟨y, walk, rest⟩
    exact ⟨node, .refl, y, walk, rest⟩

/-- The scope of a step: the current nodes, or all that is below them. -/
def scope (a : JsonArena) (descend : Bool) (current : List NodeId) : List NodeId :=
  if descend then current.flatMap a.selfAndDescendants else current

theorem mem_scope (descend : Bool) (current : List NodeId) (steps : List PathStep) (found : NodeId) :
    (∃ node ∈ a.scope descend current, a.Denotes root steps node found) ↔
      ∃ node ∈ current, a.Denotes root (if descend then .descend :: steps else steps) node found := by
  cases descend with
  | false => exact Iff.rfl
  | true =>
    simp only [scope, if_true, List.mem_flatMap, mem_selfAndDescendants, Denotes, StepTo]
    constructor
    · rintro ⟨x, ⟨s, inside, walk⟩, rest⟩
      exact ⟨s, inside, x, walk, rest⟩
    · rintro ⟨s, inside, x, walk, rest⟩
      exact ⟨x, ⟨s, inside, walk⟩, rest⟩

mutual

theorem mem_follow : ∀ (steps : List PathStep) (descend : Bool) (current : List NodeId) (found : NodeId), ClosedSteps steps →
    (descend = true → steps ≠ []) → (found ∈ a.follow root steps descend current ↔
      ∃ node ∈ current, a.Denotes root (if descend then .descend :: steps else steps) node found)
  | [], descend, current, found, _, more => by
      have kept : descend = false := by
        cases descend with
        | false => rfl
        | true => exact absurd rfl (more rfl)
      rw [follow, kept, if_neg Bool.false_ne_true]
      simp only [Denotes, eq_comm (a := found), exists_eq_right]
  | step :: rest, descend, current, found, closed, _ => by
      obtain ⟨first, later, followed⟩ := closed
      have stepped := mem_stepAt step
      rw [follow]
      cases next : a.stepAt root step with
      | none =>
        have is : step = .descend := by
          cases step with
          | descend => rfl
          | _ => cases next
        subst is
        dsimp only
        rw [mem_follow rest true current found later fun _ => followed rfl]
        cases descend with
        | false => exact Iff.rfl
        | true =>
          apply exists_congr
          intro s
          exact and_congr_right fun _ => (denotes_descend_descend rest s found).symm
      | some next_of =>
        have passes := fun node found => stepped first next_of next node found
        dsimp only
        rw [mem_follow rest false _ found later Bool.noConfusion]
        refine Iff.trans ?_ (mem_scope descend current (step :: rest) found)
        simp only [Bool.false_eq_true, if_false, List.mem_flatMap, Denotes]
        constructor
        · rintro ⟨m, ⟨x, inside, reached⟩, denoted⟩
          exact ⟨x, inside, m, (passes x m).mp reached, denoted⟩
        · rintro ⟨x, inside, m, reached, denoted⟩
          exact ⟨m, ⟨x, inside, (passes x m).mpr reached⟩, denoted⟩

theorem mem_stepAt : ∀ (step : PathStep), step.Closed → ∀ next, a.stepAt root step = some next → ∀ node found,
    found ∈ next node ↔ a.StepTo root step node found
  | .member key, _, next, is, node, found => by
      rw [stepAt] at is
      cases is
      rw [Option.mem_toList, StepTo]
  | .index place, _, next, is, node, found => by
      rw [stepAt] at is
      cases is
      simp only [StepTo]
      cases a.node node with
      | array items => simp
      | object entries => simp
      | scalar s => simp
  | .wildcard, _, next, is, node, found => by
      rw [stepAt] at is
      cases is
      rw [StepTo]
  | .descend, _, next, is, node, found => by
      rw [stepAt] at is
      cases is
  | .filter f, closed, next, is, node, found => by
      rw [stepAt] at is
      cases is
      simp only [StepTo]
      cases a.node node with
      | array items => simp [List.mem_filter, accepts_iff f closed found]
      | object entries => simp
      | scalar s => simp

theorem accepts_iff : ∀ (f : PathFilter), f.Closed → ∀ item, a.accepts root f item = true ↔ a.Passes root f item
  | .any parts, closed, item => by
      rw [accepts, Passes]
      exact acceptsAny_iff parts closed item
  | .all parts, closed, item => by
      rw [accepts, Passes]
      exact acceptsAll_iff parts closed item
  | .exists_ o, closed, item => by
      rw [accepts, Passes, decide_eq_true_iff, ne_eq, List.eq_nil_iff_forall_not_mem]
      simp only [mem_operand o closed, not_forall, not_not]
  | .compare left op right, closed, item => by
      rw [accepts, Passes, List.any_eq_true]
      simp only [List.any_eq_true, mem_operand left closed.1, mem_operand right closed.2]
      constructor
      · rintro ⟨l, yields, r, yields', holds⟩
        exact ⟨l, r, yields, yields', holds⟩
      · rintro ⟨l, r, yields, yields', holds⟩
        exact ⟨l, yields, r, yields', holds⟩

theorem acceptsAny_iff : ∀ (parts : List PathFilter), ClosedParts parts → ∀ item,
    a.acceptsAny root parts item = true ↔ a.PassesAny root parts item
  | [], _, item => by simp [acceptsAny, PassesAny]
  | part :: rest, closed, item => by
      rw [acceptsAny, PassesAny, Bool.or_eq_true, accepts_iff part closed.1 item, acceptsAny_iff rest closed.2 item]

theorem acceptsAll_iff : ∀ (parts : List PathFilter), ClosedParts parts → ∀ item,
    a.acceptsAll root parts item = true ↔ a.PassesAll root parts item
  | [], _, item => by simp [acceptsAll, PassesAll]
  | part :: rest, closed, item => by
      rw [acceptsAll, PassesAll, Bool.and_eq_true, accepts_iff part closed.1 item, acceptsAll_iff rest closed.2 item]

theorem mem_operand : ∀ (o : FilterOperand), o.Closed → ∀ item v, v ∈ a.operand root o item ↔ a.Yields root o item v
  | .literal s, _, item, v => by rw [operand, Yields, List.mem_singleton]
  | .path fromRoot steps, closed, item, v => by
      rw [operand, Yields, List.mem_map]
      simp only [mem_follow steps false _ _ closed Bool.noConfusion, List.mem_singleton, exists_eq_left, eq_comm (a := v)]
      rfl

end

/-! ## No node twice -/

/-- None of the nodes is below another one. -/
def Spread (a : JsonArena) (current : List NodeId) : Prop :=
  ∀ x ∈ current, ∀ y ∈ current, ReflTransGen a.Contains x y → x = y

/-- Of two nodes above one node, one is above the other. -/
theorem Forest.above_total (forest : a.Forest) {x y z : NodeId} (left : ReflTransGen a.Contains x z) (right : ReflTransGen a.Contains y z) :
    ReflTransGen a.Contains x y ∨ ReflTransGen a.Contains y x := by
  have unique : Relator.RightUnique (Function.swap a.Contains) := by
    intro child parent other inside inOther
    exact forest.once parent other child inside inOther
  have total := ReflTransGen.total_of_right_unique unique (Relation.reflTransGen_swap.mpr left) (Relation.reflTransGen_swap.mpr right)
  exact total.symm.imp Relation.reflTransGen_swap.mp Relation.reflTransGen_swap.mp

theorem stepAt_children {step : PathStep} {next : NodeId → List NodeId} (forest : a.Forest) (is : a.stepAt root step = some next) (node : NodeId) :
    (next node).Nodup ∧ ∀ child ∈ next node, a.Contains node child := by
  have nodup := forest.nodup node
  cases step with
  | member key =>
    rw [stepAt] at is
    cases is
    refine ⟨Option.toList_nodup _, ?_⟩
    intro child inside
    rw [Option.mem_toList, JsonArena.member] at inside
    split at inside
    next entries object =>
      obtain ⟨entry, found, rfl⟩ := Option.map_eq_some_iff.mp inside
      rw [Contains, children, object]
      exact List.mem_map_of_mem (List.mem_of_find?_eq_some found)
    next => cases inside
  | index place =>
    rw [stepAt] at is
    cases is
    dsimp only
    split
    next items array =>
      refine ⟨Option.toList_nodup _, ?_⟩
      intro child inside
      rw [Option.mem_toList] at inside
      rw [Contains, children, array]
      exact List.mem_of_getElem? inside
    next => exact ⟨List.nodup_nil, List.forall_mem_nil _⟩
  | wildcard =>
    rw [stepAt] at is
    cases is
    exact ⟨nodup, fun child inside => inside⟩
  | descend =>
    rw [stepAt] at is
    cases is
  | filter f =>
    rw [stepAt] at is
    cases is
    dsimp only
    split
    next items array =>
      rw [children, array] at nodup
      refine ⟨nodup.filter _, ?_⟩
      intro child inside
      rw [Contains, children, array]
      exact (List.mem_filter.mp inside).1
    next => exact ⟨List.nodup_nil, List.forall_mem_nil _⟩

section Steps

variable {step : PathStep} {next : NodeId → List NodeId} {current : List NodeId}

/-- Different nodes have different children. -/
theorem nodup_step (forest : a.Forest) (is : a.stepAt root step = some next) (nodup : current.Nodup) : (current.flatMap next).Nodup := by
  rw [List.nodup_flatMap]
  refine ⟨fun node _ => (stepAt_children forest is node).1, nodup.imp ?_⟩
  intro x y apart child inX inY
  exact apart (forest.once x y child ((stepAt_children forest is x).2 child inX) ((stepAt_children forest is y).2 child inY))

theorem spread_step (forest : a.Forest) (is : a.stepAt root step = some next) (spread : a.Spread current) :
    a.Spread (current.flatMap next) := by
  intro c inC d inD walk
  obtain ⟨x, inside, below⟩ := List.mem_flatMap.mp inC
  obtain ⟨y, inside', below'⟩ := List.mem_flatMap.mp inD
  have down := (stepAt_children forest is x).2 c below
  have down' := (stepAt_children forest is y).2 d below'
  obtain same | ⟨p, before, last⟩ := ReflTransGen.cases_tail walk
  · exact same.symm
  · -- the parent of the lower node would be below its own parent
    obtain rfl := forest.once p y d last down'
    obtain rfl := spread x inside p inside' (.head down before)
    exact absurd (TransGen.head' down before) (forest.acyclic x)

theorem nodup_descend (forest : a.Forest) (nodup : current.Nodup) (spread : a.Spread current) :
    (current.flatMap a.selfAndDescendants).Nodup := by
  rw [List.nodup_flatMap]
  refine ⟨fun node _ => nodup_selfAndDescendants a node, ?_⟩
  apply List.Pairwise.imp_of_mem (R := (· ≠ ·)) ?_ nodup
  intro x y inX inY apart z below below'
  rw [mem_selfAndDescendants] at below below'
  obtain down | down := forest.above_total below below'
  · exact apart (spread x inX y inY down)
  · exact apart (spread y inY x inX down).symm

end Steps

/-- The descents of a path, those inside of filters apart. -/
def descents : List PathStep → Nat
  | [] => 0
  | .descend :: rest => descents rest + 1
  | _ :: rest => descents rest

theorem nodup_follow (forest : a.Forest) (steps : List PathStep) {descend : Bool} {current : List NodeId} (nodup : current.Nodup)
    (once : descend.toNat + descents steps ≤ 1) (spread : descend.toNat + descents steps = 1 → a.Spread current) :
    (a.follow root steps descend current).Nodup := by
  induction steps generalizing descend current with
  | nil => rwa [follow]
  | cons step rest ih =>
    rw [follow]
    cases is : a.stepAt root step with
    | none =>
      have descending : step = .descend := by
        cases step with
        | descend => rfl
        | _ => cases is
      subst descending
      rw [descents] at once spread
      have bound : true.toNat + descents rest ≤ 1 := by
        rw [Bool.toNat_true]
        omega
      refine ih nodup bound ?_
      intro one
      apply spread
      rw [Bool.toNat_true] at one
      omega
    | some next =>
      have same : descents (step :: rest) = descents rest := by
        cases step with
        | descend => cases is
        | _ => rfl
      rw [same] at once spread
      dsimp only
      cases descend with
      | true =>
        rw [Bool.toNat_true] at once spread
        have whole := nodup_descend forest nodup (spread (by omega))
        apply ih (nodup_step forest is whole)
        · rw [Bool.toNat_false]
          omega
        · intro one
          rw [Bool.toNat_false] at one
          omega
      | false =>
        apply ih (nodup_step forest is nodup) once
        intro one
        exact spread_step forest is (spread one)

/-- A path only leads down. -/
theorem follow_below (forest : a.Forest) (steps : List PathStep) {descend : Bool} {current : List NodeId} {found : NodeId}
    (inside : found ∈ a.follow root steps descend current) : ∃ start ∈ current, ReflTransGen a.Contains start found := by
  induction steps generalizing descend current with
  | nil =>
    rw [follow] at inside
    exact ⟨found, inside, .refl⟩
  | cons step rest ih =>
    rw [follow] at inside
    cases is : a.stepAt root step with
    | none =>
      rw [is] at inside
      exact ih inside
    | some next =>
      rw [is] at inside
      obtain ⟨middle, among, below⟩ := ih inside
      obtain ⟨node, inScope, child⟩ := List.mem_flatMap.mp among
      have down := (stepAt_children forest is node).2 middle child
      cases descend with
      | false => exact ⟨node, inScope, .head down below⟩
      | true =>
        obtain ⟨start, inCurrent, walk⟩ := List.mem_flatMap.mp inScope
        rw [mem_selfAndDescendants] at walk
        exact ⟨start, inCurrent, walk.trans (.head down below)⟩

theorem Forest.exists_below (forest : a.Forest) {start found : NodeId} (there : a.Exists start) (walk : ReflTransGen a.Contains start found) :
    a.Exists found := by
  induction walk with
  | refl => exact there
  | tail _ last ih => exact forest.resolves _ _ last

theorem follow_from (forest : a.Forest) (node : NodeId) {steps : List PathStep} (closed : ClosedSteps steps) :
    (∀ found, found ∈ a.follow node steps false [node] ↔ a.Denotes node steps node found) ∧
      (descents steps ≤ 1 → (a.follow node steps false [node]).Nodup) := by
  constructor
  · intro found
    rw [mem_follow steps false [node] found closed Bool.noConfusion]
    simp only [Bool.false_eq_true, if_false, List.mem_singleton, exists_eq_left]
  · intro once
    apply nodup_follow forest steps (List.nodup_singleton node)
    · rwa [Bool.toNat_false, Nat.zero_add]
    · intro _ x inX y inY _
      rw [List.mem_singleton.mp inX, List.mem_singleton.mp inY]

end JsonArena

end AlLanguage.Runtime.Json
