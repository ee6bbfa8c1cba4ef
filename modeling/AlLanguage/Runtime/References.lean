import AlLanguage.Library.SharedWalk
import AlLanguage.Runtime.Json
import AlLanguage.Runtime.SharedValue
import Mathlib.Data.Fintype.Sigma

/-!
# The order of values with references

- A List or a Dictionary is a reference to contents that may hold it again.
- The comparison ends on all values. On values without a cycle it is the order of the trees they unfold to, and a total order.
-/

namespace AlLanguage.Runtime

open Library

def Value.isScalar : Value → Bool
  | variant _ | array _ | range .. => false
  | _ => true

/-- A value that holds no other. -/
structure ScalarValue where
  value : Value
  holdsNone : value.isScalar = true

/-- All values. The addresses of the contents are of the type of their kind. -/
inductive RefValue (A : ContentsKind → Type) where
  | scalar (v : ScalarValue)
  | textBuilder (address : A .text)
  | json (kind : Json.JsonKind) (handle : Option Nat)
  | variant (inner : RefValue A)
  | array (items : List (RefValue A))
  | list (address : A .list)
  | dict (address : A .dict)
  | range (start stop : RefValue A)

/-- The contents that values share. -/
structure RefHeap (A : ContentsKind → Type) where
  lists : A .list → List (RefValue A)
  dicts : A .dict → IndexMap String (RefValue A × RefValue A)
  texts : A .text → String

def Json.JsonKind.index : Json.JsonKind → Nat
  | object => 0
  | array => 1
  | token => 2
  | value => 3

variable {A : ContentsKind → Type}

namespace RefValue

def variantIndex : RefValue A → Nat
  | scalar v => v.value.variantIndex
  | variant _ => 16
  | array _ => 17
  | list _ => 18
  | dict _ => 19
  | range .. => 23
  | textBuilder _ => 24
  | json .. => 25

mutual

/-- The size of a value without the contents it refers to. -/
def weight : RefValue A → Nat
  | variant inner => weight inner + 2
  | array items => weightAll items + 2
  | range start stop => weight start + weight stop + 2
  | _ => 2

def weightAll : List (RefValue A) → Nat
  | [] => 0
  | v :: vs => weight v + weightAll vs

end

theorem weightAll_eq (vs : List (RefValue A)) : weightAll vs = (vs.map weight).sum := by
  induction vs with
  | nil => rfl
  | cons v vs ih => rw [weightAll, ih, List.map_cons, List.sum_cons]

end RefValue

namespace RefHeap

/-- The keys and values of a Dictionary's entries, entry by entry. -/
def entriesInOrder (heap : RefHeap A) (dict : A .dict) : List (RefValue A) :=
  (heap.dicts dict).entries.flatMap fun entry => [entry.2.1, entry.2.2]

/-! ## Comparing one pair -/

section Compare

variable [∀ k, DecidableEq (A k)] (heap : RefHeap A)

abbrev MetPairs (A : ContentsKind → Type) := Finset ((Σ k, A k) × (Σ k, A k))

/-- Compare two values of which neither holds others, or give the rows the comparison continues with. -/
def compareOne (met : MetPairs A) (left right : RefValue A) : Visit (RefValue A) × MetPairs A :=
  if left.variantIndex ≠ right.variantIndex then (.done (compare left.variantIndex right.variantIndex), met)
  else
    match left, right with
    | .scalar a, .scalar b => (.done (compare a.value b.value), met)
    | .textBuilder a, .textBuilder b => if a = b then (.done .eq, met) else (.done (compare (heap.texts a) (heap.texts b)), met)
    | .json a ah, .json b bh => (.done ((compare a.index b.index).then (compare ah bh)), met)
    | .variant a, .variant b => (.descend [a] [b], met)
    | .array a, .array b => (.descend a b, met)
    | .list a, .list b =>
      if a = b ∨ (⟨.list, a⟩, ⟨.list, b⟩) ∈ met then (.done .eq, met)
      else (.descend (heap.lists a) (heap.lists b), insert (⟨.list, a⟩, ⟨.list, b⟩) met)
    | .dict a, .dict b =>
      if a = b ∨ (⟨.dict, a⟩, ⟨.dict, b⟩) ∈ met then (.done .eq, met)
      else (.descend (heap.entriesInOrder a) (heap.entriesInOrder b), insert (⟨.dict, a⟩, ⟨.dict, b⟩) met)
    | .range s e, .range s' e' => (.descend [s, e] [s', e'], met)
    | _, _ => (.done .eq, met)

/-- The loop within so many turns. Before each turn it asks whether the test is cancelled. -/
def compareWithin (cancelled : Nat → Bool) (fuel : Nat) (left right : RefValue A) : Option Ordering :=
  Walk.compareWithin heap.compareOne cancelled fuel left right

end Compare

/-! ## The graph of the references -/

section Graph

variable (heap : RefHeap A)

def scalarPart : RefValue A → Value
  | .scalar v => v.value
  | _ => .null

def textPart : RefValue A → String
  | .textBuilder a => heap.texts a
  | _ => ""

def kindPart : RefValue A → Nat
  | .json kind _ => kind.index
  | _ => 0

def handlePart : RefValue A → Option Nat
  | .json _ handle => handle
  | _ => none

/-- Two values without the values they hold, the variant index first. -/
def plainOrder : RefValue A → RefValue A → Ordering :=
  compareLex (compareOn RefValue.variantIndex) <| compareLex (compareOn scalarPart) <|
  compareLex (compareOn heap.textPart) <| compareLex (compareOn kindPart) (compareOn handlePart)

instance : Std.TransCmp heap.plainOrder := by unfold plainOrder; infer_instance

def held : RefValue A → Option (List (RefValue A))
  | .variant inner => some [inner]
  | .array items => some items
  | .list a => some (heap.lists a)
  | .dict a => some (heap.entriesInOrder a)
  | .range start stop => some [start, stop]
  | _ => none

def address : RefValue A → Option (Σ k, A k)
  | .list a => some ⟨.list, a⟩
  | .dict a => some ⟨.dict, a⟩
  | _ => none

def contents : (Σ k, A k) → List (RefValue A)
  | ⟨.list, a⟩ => heap.lists a
  | ⟨.dict, a⟩ => heap.entriesInOrder a
  | ⟨.text, _⟩ => []

theorem index_of_plainOrder {a b : RefValue A} (same : heap.plainOrder a b = .eq) : a.variantIndex = b.variantIndex := by
  unfold plainOrder at same
  rw [compareLex_eq_eq] at same
  exact Std.LawfulEqOrd.eq_of_compare same.1

/-- Which kind of value has the index. -/
inductive Shape where
  | scalar | textBuilder | json | variant | array | list | dict | range

def shapeOf : RefValue A → Shape
  | .scalar _ => .scalar
  | .textBuilder _ => .textBuilder
  | .json .. => .json
  | .variant _ => .variant
  | .array _ => .array
  | .list _ => .list
  | .dict _ => .dict
  | .range .. => .range

def shapeOfIndex : Nat → Shape
  | 16 => .variant
  | 17 => .array
  | 18 => .list
  | 19 => .dict
  | 23 => .range
  | 24 => .textBuilder
  | 25 => .json
  | _ => .scalar

theorem shapeOf_eq (v : RefValue A) : shapeOf v = shapeOfIndex v.variantIndex := by
  cases v
  case scalar v =>
    obtain ⟨value, holdsNone⟩ := v
    cases value <;> first
      | rfl
      | cases holdsNone
  all_goals rfl

theorem same_shape {a b : RefValue A} (same : a.variantIndex = b.variantIndex) : shapeOf a = shapeOf b := by
  rw [shapeOf_eq, shapeOf_eq, same]

theorem isSome_of_shape {a b : RefValue A} (same : shapeOf a = shapeOf b) :
    (heap.held a).isSome = (heap.held b).isSome ∧ (address a).isSome = (address b).isSome := by
  cases a <;> cases b <;> first
    | exact ⟨rfl, rfl⟩
    | cases same

def graph : SharedGraph (RefValue A) (Σ k, A k) where
  plain := heap.plainOrder
  held := heap.held
  address := address
  contents := heap.contents
  weight := RefValue.weight
  held_address v k at_ := by
    cases v <;> cases at_ <;> rfl
  plain_address a b k left right := by
    cases a <;> cases left <;> cases b <;> cases right <;> simp [plainOrder, compareLex, compareOn, RefValue.variantIndex,
      scalarPart, textPart, kindPart, handlePart]
  held_isSome a b same := (heap.isSome_of_shape (same_shape (heap.index_of_plainOrder same))).1
  address_isSome a b same := (heap.isSome_of_shape (same_shape (heap.index_of_plainOrder same))).2
  weight_pos v := by cases v <;> simp [RefValue.weight]
  weight_held v vs unshared held := by
    cases v
    case list => cases unshared
    case dict => cases unshared
    all_goals cases held
    all_goals simp [RefValue.weight, RefValue.weightAll_eq]

theorem plainOrder_of_index {a b : RefValue A} (different : a.variantIndex ≠ b.variantIndex) :
    heap.plainOrder a b = compare a.variantIndex b.variantIndex := by
  have order : compare a.variantIndex b.variantIndex ≠ .eq := fun equal => different (Std.LawfulEqOrd.eq_of_compare equal)
  unfold plainOrder compareLex compareOn
  cases result : compare a.variantIndex b.variantIndex with
  | eq => exact absurd result order
  | lt => rfl
  | gt => rfl

theorem plainOrder_scalar {a b : ScalarValue} (same : a.value.variantIndex = b.value.variantIndex) :
    heap.plainOrder (.scalar a) (.scalar b) = compare a.value b.value := by
  simp [plainOrder, compareLex, compareOn, RefValue.variantIndex, scalarPart, textPart, kindPart, handlePart, same]

theorem plainOrder_textBuilder (a b : A .text) :
    heap.plainOrder (.textBuilder a) (.textBuilder b) = compare (heap.texts a) (heap.texts b) := by
  simp [plainOrder, compareLex, compareOn, RefValue.variantIndex, scalarPart, textPart, kindPart, handlePart]

theorem plainOrder_json (a b : Json.JsonKind) (ah bh : Option Nat) :
    heap.plainOrder (.json a ah) (.json b bh) = (compare a.index b.index).then (compare ah bh) := by
  simp [plainOrder, compareLex, compareOn, RefValue.variantIndex, scalarPart, textPart, kindPart, handlePart]

theorem plainOrder_holding {a b : RefValue A} (same : a.variantIndex = b.variantIndex) (holds : (heap.held a).isSome = true) :
    heap.plainOrder a b = .eq := by
  have shape := same_shape same
  cases a <;> cases b <;> simp only [shapeOf, reduceCtorEq] at shape <;> first
    | (simp only [held, Option.isSome_none, Bool.false_eq_true] at holds; done)
    | simp [plainOrder, compareLex, compareOn, RefValue.variantIndex, scalarPart, textPart, kindPart, handlePart]

variable [∀ k, DecidableEq (A k)]

theorem compareOne_eq : heap.compareOne = heap.graph.visit := by
  funext met a b
  by_cases same : a.variantIndex = b.variantIndex
  · have shape := same_shape same
    unfold compareOne SharedGraph.visit
    rw [if_neg (not_not.mpr same)]
    dsimp only [graph]
    cases a <;> cases b <;> simp only [shapeOf, reduceCtorEq] at shape
    case scalar.scalar a b =>
      rw [heap.plainOrder_scalar same]
      cases order : compare a.value b.value <;> simp [order, held]
    case textBuilder.textBuilder a b =>
      rw [heap.plainOrder_textBuilder]
      by_cases alike : a = b
      · simp [alike, held]
      · cases order : compare (heap.texts a) (heap.texts b) <;> simp [order, held, alike]
    case json.json a ah b bh =>
      rw [heap.plainOrder_json]
      cases order : (compare a.index b.index).then (compare ah bh) <;> simp [order, held]
    case list.list a b =>
      rw [heap.plainOrder_holding same rfl]
      simp [held, address]
    case dict.dict a b =>
      rw [heap.plainOrder_holding same rfl]
      simp [held, address]
    all_goals
      rw [heap.plainOrder_holding same rfl]
      simp [held, address]
  · have order := heap.plainOrder_of_index same
    have different : compare a.variantIndex b.variantIndex ≠ .eq := fun equal => same (Std.LawfulEqOrd.eq_of_compare equal)
    unfold compareOne SharedGraph.visit
    rw [if_pos same]
    dsimp only [graph]
    rw [order]
    cases result : compare a.variantIndex b.variantIndex with
    | eq => exact absurd result different
    | lt => rfl
    | gt => rfl

end Graph

/-! ## The order -/

section Order

instance : Fintype ContentsKind := ⟨{.list, .dict, .text}, fun kind => by cases kind <;> decide⟩

variable [∀ k, Fintype (A k)] [∀ k, DecidableEq (A k)] (heap : RefHeap A) (cancelled : Nat → Bool)

/-- So many turns are enough for a comparison with the left value. -/
def enough (left : RefValue A) : Nat := heap.graph.enough left

def compare (left right : RefValue A) : Ordering :=
  (heap.compareWithin cancelled (heap.enough left) left right).getD .eq

/-- `==`. -/
def equal (left right : RefValue A) : Bool := (heap.compare cancelled left right).isEq

/-- No List or Dictionary that the value leads to leads to itself. -/
def Acyclic (value : RefValue A) : Prop := heap.graph.Acyclic value

/-- The tree of a value and all that it leads to. -/
def Unfolds (tree : Library.Tree (RefValue A)) (value : RefValue A) : Prop := heap.graph.Unfolds tree value

/-- The recursive order: the variant index first, then the values themselves, then what they hold row by row. -/
def structuralOrder (left right : Library.Tree (RefValue A)) : Ordering := Library.Tree.compare heap.plainOrder left right

theorem compareWithin_enough (left right : RefValue A) {fuel : Nat} (le : heap.enough left ≤ fuel) :
    heap.compareWithin cancelled fuel left right = some (heap.compare cancelled left right) := by
  obtain ⟨answer, found⟩ := heap.graph.compareWithin_isSome cancelled left right (Nat.le_refl (heap.enough left))
  rw [← compareOne_eq] at found
  change heap.compareWithin cancelled (heap.enough left) left right = some answer at found
  rw [compare, found, Option.getD_some]
  exact Walk.compareWithin_mono found le

variable {heap cancelled}

theorem compare_unfolds (quiet : ∀ i, cancelled i = false) {a b : RefValue A} {s t : Library.Tree (RefValue A)} (left : heap.Unfolds s a)
    (right : heap.Unfolds t b) : heap.compare cancelled a b = heap.structuralOrder s t := by
  have found := heap.compareWithin_enough cancelled a b (Nat.le_refl _)
  rw [compareWithin, compareOne_eq] at found
  have transitive : Std.TransCmp heap.graph.plain := inferInstanceAs (Std.TransCmp heap.plainOrder)
  exact SharedGraph.compareWithin_unfolds left right quiet found

/-- What the comparison is on values without a cycle. -/
structure LawfulOrder (heap : RefHeap A) (cancelled : Nat → Bool) : Prop where
  unfolds : ∀ a, heap.Acyclic a → ∃! s, heap.Unfolds s a
  structural : ∀ a b s t, heap.Unfolds s a → heap.Unfolds t b → heap.compare cancelled a b = heap.structuralOrder s t
  refl : ∀ a, heap.Acyclic a → heap.compare cancelled a a = .eq
  swap : ∀ a b, heap.Acyclic a → heap.Acyclic b → heap.compare cancelled b a = (heap.compare cancelled a b).swap
  antisymm : ∀ a b, heap.Acyclic a → heap.Acyclic b → (heap.compare cancelled a b).isLE → (heap.compare cancelled b a).isLE →
    heap.equal cancelled a b
  trans : ∀ a b c, heap.Acyclic a → heap.Acyclic b → heap.Acyclic c → (heap.compare cancelled a b).isLE →
    (heap.compare cancelled b c).isLE → (heap.compare cancelled a c).isLE
  equal_iff : ∀ a b, heap.equal cancelled a b ↔ heap.compare cancelled a b = .eq

theorem lawfulOrder (quiet : ∀ i, cancelled i = false) : LawfulOrder heap cancelled := by
  have swap (a b : RefValue A) (left : heap.Acyclic a) (right : heap.Acyclic b) :
      heap.compare cancelled b a = (heap.compare cancelled a b).swap := by
    obtain ⟨s, first⟩ := SharedGraph.acyclic_unfolds left
    obtain ⟨t, second⟩ := SharedGraph.acyclic_unfolds right
    rw [compare_unfolds quiet first second, compare_unfolds quiet second first]
    exact @Std.OrientedCmp.eq_swap _ (Library.Tree.compare heap.plainOrder) _ t s
  have equal_iff (a b : RefValue A) : heap.equal cancelled a b ↔ heap.compare cancelled a b = .eq := by
    rw [equal, Ordering.isEq_iff_eq_eq]
  refine ⟨fun a acyclic => ?_, fun _ _ _ _ => compare_unfolds quiet, fun a acyclic => ?_, swap, fun a b left right le ge => ?_,
    fun a b c first second third le le' => ?_, equal_iff⟩
  · obtain ⟨s, unfolds⟩ := SharedGraph.acyclic_unfolds acyclic
    exact ⟨s, unfolds, fun t other => SharedGraph.unfolds_unique other unfolds⟩
  · obtain ⟨s, unfolds⟩ := SharedGraph.acyclic_unfolds acyclic
    rw [compare_unfolds quiet unfolds unfolds]
    exact @Std.ReflCmp.compare_self _ (Library.Tree.compare heap.plainOrder) _ s
  · rw [equal_iff]
    rw [swap a b left right] at ge
    cases order : heap.compare cancelled a b with
    | eq => rfl
    | lt =>
        rw [order] at ge
        cases ge
    | gt =>
        rw [order] at le
        cases le
  · obtain ⟨s, leftTree⟩ := SharedGraph.acyclic_unfolds first
    obtain ⟨t, middleTree⟩ := SharedGraph.acyclic_unfolds second
    obtain ⟨r, rightTree⟩ := SharedGraph.acyclic_unfolds third
    rw [compare_unfolds quiet leftTree middleTree] at le
    rw [compare_unfolds quiet middleTree rightTree] at le'
    rw [compare_unfolds quiet leftTree rightTree]
    exact @Std.TransCmp.isLE_trans _ (Library.Tree.compare heap.plainOrder) _ s t r le le'

variable (heap cancelled)

/-- The comparison ends on all values, and unless it is cancelled it is a total order on those without a cycle. -/
theorem compare_lawful :
    (∀ left right fuel, heap.enough left ≤ fuel →
      heap.compareWithin cancelled fuel left right = some (heap.compare cancelled left right)) ∧
    ((∀ i, cancelled i = false) → LawfulOrder heap cancelled) :=
  ⟨fun left right _ le => heap.compareWithin_enough cancelled left right le, lawfulOrder⟩

end Order

section Examples

/-- A heap without contents. -/
def emptyHeap : RefHeap fun _ => Fin 0 := ⟨fun a => a.elim0, fun a => a.elim0, fun a => a.elim0⟩

def oneElement (n : Int64) : RefValue fun _ => Fin 0 := .array [.scalar ⟨.integer n, rfl⟩]

/-- In a test that is cancelled the arrays of one and of two are equal. -/
theorem cancelled_equal : ¬ ∀ (cancelled : Nat → Bool) s t, emptyHeap.Unfolds s (oneElement 1) → emptyHeap.Unfolds t (oneElement 2) →
    emptyHeap.compare cancelled (oneElement 1) (oneElement 2) = emptyHeap.structuralOrder s t := by
  intro structural
  have answer := structural (fun _ => true) (.node (oneElement 1) [.node (.scalar ⟨.integer 1, rfl⟩) []])
    (.node (oneElement 2) [.node (.scalar ⟨.integer 2, rfl⟩) []]) ⟨rfl, ⟨rfl, trivial⟩, trivial⟩ ⟨rfl, ⟨rfl, trivial⟩, trivial⟩
  exact absurd answer (by decide)

end Examples

end RefHeap

end AlLanguage.Runtime
