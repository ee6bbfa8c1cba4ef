import Mathlib

/-!
# Ordered trees

Trees are compared by their labels first and then child by child, a shorter row of children that matches so far first. The order
is a total preorder when the order of the labels is one.
-/

namespace AlLanguage.Library

universe u

inductive Tree (P : Type u) where
  | node (label : P) (kids : List (Tree P))

namespace Tree

variable {P : Type u}

def label : Tree P → P
  | node label _ => label

def kids : Tree P → List (Tree P)
  | node _ kids => kids

theorem sizeOf_kids {s t : Tree P} (member : s ∈ t.kids) : sizeOf s < sizeOf t := by
  cases t with
  | node label kids =>
      have smaller := List.sizeOf_lt_of_mem member
      simp only [node.sizeOf_spec, Tree.kids] at smaller ⊢
      omega

theorem induction_kids {motive : Tree P → Prop} (step : ∀ t, (∀ s ∈ t.kids, motive s) → motive t) (t : Tree P) : motive t :=
  step t fun s member =>
    have := sizeOf_kids member
    induction_kids step s
termination_by sizeOf t

variable (cmp : P → P → Ordering)

mutual

def compare : Tree P → Tree P → Ordering
  | node a as, node b bs => (cmp a b).then (compareAll as bs)

def compareAll : List (Tree P) → List (Tree P) → Ordering
  | [], [] => .eq
  | [], _ :: _ => .lt
  | _ :: _, [] => .gt
  | s :: ss, t :: ts => (compare s t).then (compareAll ss ts)

end

theorem compare_eq (s t : Tree P) : compare cmp s t = (cmp s.label t.label).then (compareAll cmp s.kids t.kids) := by
  cases s
  cases t
  rfl

/-! ## The order is a total preorder -/

mutual

/-- The labels in the order in which `compare` meets them, each row of children closed by an end mark. -/
def tokens : Tree P → List (Option P)
  | node label kids => some label :: (tokensAll kids ++ [none])

def tokensAll : List (Tree P) → List (Option P)
  | [] => []
  | t :: ts => tokens t ++ tokensAll ts

end

def compareToken : Option P → Option P → Ordering
  | none, none => .eq
  | none, some _ => .lt
  | some _, none => .gt
  | some a, some b => cmp a b

def compareTokens : List (Option P) → List (Option P) → Ordering := List.compareLex (compareToken cmp)

theorem compare_tokensAll {ss : List (Tree P)}
    (each : ∀ s ∈ ss, ∀ t x y, compareTokens cmp (tokens s ++ x) (tokens t ++ y) = (compare cmp s t).then (compareTokens cmp x y))
    (ts : List (Tree P)) (x y : List (Option P)) :
    compareTokens cmp (tokensAll ss ++ none :: x) (tokensAll ts ++ none :: y) =
      (compareAll cmp ss ts).then (compareTokens cmp x y) := by
  induction ss generalizing ts with
  | nil =>
      cases ts with
      | nil => exact List.compareLex_cons_cons
      | cons t ts =>
          cases t
          exact List.compareLex_cons_cons
  | cons s ss ih =>
      cases ts with
      | nil =>
          cases s
          exact List.compareLex_cons_cons
      | cons t ts =>
          simp only [tokensAll, List.append_assoc, compareAll]
          rw [each s (List.mem_cons_self ..) t, ih fun v member => each v (List.mem_cons_of_mem _ member)]
          exact (Ordering.then_assoc ..).symm

theorem compare_tokens (s t : Tree P) (x y : List (Option P)) :
    compareTokens cmp (tokens s ++ x) (tokens t ++ y) = (compare cmp s t).then (compareTokens cmp x y) := by
  induction s using induction_kids generalizing t x y with
  | step s ih =>
      cases s with
      | node a as =>
          cases t with
          | node b bs =>
              have inner := compare_tokensAll cmp ih bs x y
              rw [kids] at inner
              rw [tokens, tokens, compare, Ordering.then_assoc, ← inner]
              simp only [List.cons_append, List.append_assoc, List.nil_append]
              exact List.compareLex_cons_cons

theorem compare_eq_compareOn : compare cmp = fun s t => compareTokens cmp (tokens s) (tokens t) := by
  funext s t
  have lifted := compare_tokens cmp s t [] []
  simp only [List.append_nil] at lifted
  rw [lifted]
  cases compare cmp s t <;> rfl

instance [Std.TransCmp cmp] : Std.TransCmp (compareToken cmp) where
  eq_swap {a b} := by
    cases a <;> cases b
    case some.some a b => exact @Std.OrientedCmp.eq_swap _ cmp _ a b
    all_goals rfl
  isLE_trans {a b c} first second := by
    cases a <;> cases b <;> cases c
    case some.some.some a b c => exact @Std.TransCmp.isLE_trans _ cmp _ a b c first second
    all_goals first
      | rfl
      | cases first
      | cases second

instance [Std.TransCmp cmp] : Std.TransCmp (compare cmp) := by
  have lexicographic : Std.TransCmp (compareTokens cmp) := inferInstanceAs (Std.TransCmp (List.compareLex _))
  rw [compare_eq_compareOn]
  exact {
    eq_swap := Std.OrientedCmp.eq_swap
    isLE_trans := Std.TransCmp.isLE_trans }

end Tree

end AlLanguage.Library
