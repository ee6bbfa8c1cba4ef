import Mathlib

/-!
# Trees of binary operators and their flat forms

A flat chain of operands and operators, the tree in which higher tiers bind more tightly and each tier is left-associative,
the conversion of the chain to reverse Polish notation, and its evaluation with a stack of values.
-/

namespace AlLanguage.Library

variable {α ω : Type}

inductive Token (α ω : Type) where
  | operand (a : α)
  | operator (op : ω)
  deriving DecidableEq

inductive OperatorTree (α ω : Type) where
  | operand (a : α)
  | binary (op : ω) (left right : OperatorTree α ω)

namespace OperatorTree

def inorder : OperatorTree α ω → List (Token α ω)
  | operand a => [.operand a]
  | binary op left right => left.inorder ++ .operator op :: right.inorder

def postorder : OperatorTree α ω → List (Token α ω)
  | operand a => [.operand a]
  | binary op left right => left.postorder ++ right.postorder ++ [.operator op]

def operands : OperatorTree α ω → List α
  | operand a => [a]
  | binary _ left right => left.operands ++ right.operands

theorem mem_operands_iff (a : α) (t : OperatorTree α ω) : a ∈ t.operands ↔ .operand a ∈ t.inorder := by
  induction t with
  | operand b => simp [operands, inorder]
  | binary op left right ih_left ih_right => simp [operands, inorder, ih_left, ih_right]

variable (tier : ω → Nat)

/-- The operator at the root, if there is one, is of the tier or of a higher one. -/
def AtLeast (n : Nat) : OperatorTree α ω → Prop
  | operand _ => True
  | binary op _ _ => n ≤ tier op

/-- Higher tiers bind more tightly, and each tier is left-associative. -/
def Ordered : OperatorTree α ω → Prop
  | operand _ => True
  | binary op left right => left.Ordered ∧ right.Ordered ∧ left.AtLeast tier (tier op) ∧ right.AtLeast tier (tier op + 1)

variable {tier}

theorem AtLeast.mono {m n : Nat} {t : OperatorTree α ω} (high : t.AtLeast tier n) (less : m ≤ n) : t.AtLeast tier m := by
  cases t with
  | operand a => trivial
  | binary op left right => exact le_trans less high

/-! ## The tree of a chain -/

variable (tier)

/-- The tree of a chain with one more operator and operand. -/
def snoc (op : ω) (last : α) : OperatorTree α ω → OperatorTree α ω
  | operand a => binary op (operand a) (operand last)
  | binary root left right =>
    if tier op ≤ tier root then binary op (binary root left right) (operand last) else binary root left (right.snoc op last)

def ofChain (first : α) (rest : List (ω × α)) : OperatorTree α ω :=
  rest.foldl (fun tree next => tree.snoc tier next.1 next.2) (operand first)

/-- The tokens of a chain. -/
def chainTokens (first : α) (rest : List (ω × α)) : List (Token α ω) :=
  .operand first :: rest.flatMap fun next => [.operator next.1, .operand next.2]

variable {tier}

theorem inorder_snoc (op : ω) (last : α) (t : OperatorTree α ω) :
    (t.snoc tier op last).inorder = t.inorder ++ [.operator op, .operand last] := by
  induction t with
  | operand a => rfl
  | binary root left right _ ih =>
    rw [snoc]
    split
    · rfl
    · rw [inorder, ih, inorder, List.append_assoc, List.cons_append]

theorem AtLeast.snoc {n : Nat} {op : ω} {last : α} {t : OperatorTree α ω} (high : t.AtLeast tier n) (above : n ≤ tier op) :
    (t.snoc tier op last).AtLeast tier n := by
  cases t with
  | operand a => exact above
  | binary root left right =>
    rw [OperatorTree.snoc]
    split
    · exact above
    · exact high

theorem Ordered.snoc {op : ω} {last : α} {t : OperatorTree α ω} (ordered : t.Ordered tier) : (t.snoc tier op last).Ordered tier := by
  induction t with
  | operand a => exact ⟨trivial, trivial, trivial, trivial⟩
  | binary root left right _ ih =>
    rw [OperatorTree.snoc]
    obtain ⟨ordered_left, ordered_right, high_left, high_right⟩ := ordered
    split
    next low => exact ⟨⟨ordered_left, ordered_right, high_left, high_right⟩, trivial, low, trivial⟩
    next high => exact ⟨ordered_left, ih ordered_right, high_left, high_right.snoc (by omega)⟩

theorem ordered_ofChain (first : α) (rest : List (ω × α)) : (ofChain tier first rest).Ordered tier := by
  induction rest using List.reverseRecOn with
  | nil => trivial
  | append_singleton rest next ih =>
    rw [ofChain, List.foldl_append]
    exact ih.snoc

theorem inorder_ofChain (first : α) (rest : List (ω × α)) : (ofChain tier first rest).inorder = chainTokens first rest := by
  induction rest using List.reverseRecOn with
  | nil => rfl
  | append_singleton rest next ih =>
    rw [ofChain, List.foldl_append]
    change (snoc tier next.1 next.2 (ofChain tier first rest)).inorder = _
    rw [inorder_snoc, ih, chainTokens, chainTokens, List.flatMap_append]
    rfl

end OperatorTree

/-! ## Reverse Polish notation -/

section Shunting

variable (tier : ω → Nat)

/-- The operators wait on a stack until one of a lower tier, or of the same one, follows. -/
def shunt : (waiting : List ω) → List (Token α ω) → List (Token α ω)
  | waiting, [] => waiting.map .operator
  | waiting, .operand a :: rest => .operand a :: shunt waiting rest
  | waiting, .operator op :: rest =>
    (waiting.takeWhile (tier op ≤ tier ·)).map .operator ++ shunt (op :: waiting.dropWhile (tier op ≤ tier ·)) rest

/-- What follows a tree of at least the tier: no more tokens, or an operator that does not bind more tightly. -/
def Follows (n : Nat) : List (Token α ω) → Prop
  | [] => True
  | .operand _ :: _ => False
  | .operator op :: _ => tier op ≤ n

variable {tier}

theorem Follows.mono {m n : Nat} {rest : List (Token α ω)} (follows : Follows tier m rest) (less : m ≤ n) : Follows tier n rest := by
  match rest with
  | [] => trivial
  | .operand _ :: _ => exact follows
  | .operator _ :: _ => exact le_trans follows less

theorem shunt_waiting {op : ω} {waiting : List ω} {rest : List (Token α ω)} (follows : Follows tier (tier op) rest) :
    shunt tier (op :: waiting) rest = .operator op :: shunt tier waiting rest := by
  match rest with
  | [] => rfl
  | .operand _ :: _ => exact follows.elim
  | .operator next :: rest =>
    have low : tier next ≤ tier op := follows
    rw [shunt, shunt, List.takeWhile_cons_of_pos (by simpa using low), List.dropWhile_cons_of_pos (by simpa using low)]
    rfl

theorem shunt_inorder {n : Nat} {t : OperatorTree α ω} (ordered : t.Ordered tier) (high : t.AtLeast tier n) {waiting : List ω}
    (low : ∀ op ∈ waiting.head?, tier op < n) {rest : List (Token α ω)} (follows : Follows tier n rest) :
    shunt tier waiting (t.inorder ++ rest) = t.postorder ++ shunt tier waiting rest := by
  induction t generalizing n waiting rest with
  | operand a => rfl
  | binary op left right ih_left ih_right =>
    obtain ⟨ordered_left, ordered_right, high_left, high_right⟩ := ordered
    have push : shunt tier waiting (.operator op :: (right.inorder ++ rest)) = shunt tier (op :: waiting) (right.inorder ++ rest) := by
      cases waiting with
      | nil => rfl
      | cons top below =>
        have less : ¬tier op ≤ tier top := Nat.not_le.mpr (lt_of_lt_of_le (low top rfl) high)
        rw [shunt, List.takeWhile_cons_of_neg (by simpa using less), List.dropWhile_cons_of_neg (by simpa using less)]
        rfl
    calc
      shunt tier waiting ((left.inorder ++ .operator op :: right.inorder) ++ rest)
        = shunt tier waiting (left.inorder ++ .operator op :: (right.inorder ++ rest)) := by
          rw [List.append_assoc, List.cons_append]
      _ = left.postorder ++ shunt tier waiting (.operator op :: (right.inorder ++ rest)) :=
          ih_left ordered_left high_left (fun top is => lt_of_lt_of_le (low top is) high) (le_refl (tier op))
      _ = left.postorder ++ shunt tier (op :: waiting) (right.inorder ++ rest) := by rw [push]
      _ = left.postorder ++ (right.postorder ++ shunt tier (op :: waiting) rest) := by
          rw [ih_right ordered_right high_right _ (follows.mono (Nat.le_succ_of_le high))]
          intro top is
          obtain rfl : op = top := Option.mem_some.mp is
          exact Nat.lt_succ_self _
      _ = (OperatorTree.binary op left right).postorder ++ shunt tier waiting rest := by
          rw [shunt_waiting (follows.mono high), OperatorTree.postorder, List.append_assoc, List.append_assoc]
          rfl

/-- The conversion of a chain yields its tree from the leaves to the root. -/
theorem shunt_ordered {t : OperatorTree α ω} (ordered : t.Ordered tier) : shunt tier [] t.inorder = t.postorder := by
  have high : t.AtLeast tier 0 := by cases t <;> simp [OperatorTree.AtLeast]
  have converted : shunt tier [] (t.inorder ++ []) = t.postorder ++ shunt tier [] [] :=
    shunt_inorder ordered high (by simp) trivial
  simpa [shunt] using converted

end Shunting

/-! ## Evaluation -/

section Evaluation

variable {β : Type} {m : Type → Type} [Monad m] (operand : α → m β) (apply : ω → β → β → m β)

/-- The value of a tree: left operand, right operand, operator. -/
def OperatorTree.evaluate : OperatorTree α ω → m β
  | .operand a => operand a
  | .binary op left right => do
    let l ← left.evaluate
    let r ← right.evaluate
    apply op l r

/-- The evaluation of reverse Polish notation, the last value on top. -/
def execute (stuck : List β → m (List β)) : List (Token α ω) → (values : List β) → m (List β)
  | [], values => pure values
  | .operand a :: rest, values => do
    let value ← operand a
    execute stuck rest (value :: values)
  | .operator op :: rest, right :: left :: values => do
    let value ← apply op left right
    execute stuck rest (value :: values)
  | .operator _ :: _, values => stuck values

theorem execute_postorder [LawfulMonad m] (stuck : List β → m (List β)) (t : OperatorTree α ω) (rest : List (Token α ω)) (values : List β) :
    execute operand apply stuck (t.postorder ++ rest) values = (do
      let value ← t.evaluate operand apply
      execute operand apply stuck rest (value :: values)) := by
  induction t generalizing rest values with
  | operand a => rfl
  | binary op left right ih_left ih_right =>
    rw [OperatorTree.postorder, List.append_assoc, List.append_assoc, ih_left, OperatorTree.evaluate, bind_assoc]
    apply bind_congr
    intro l
    rw [ih_right, bind_assoc]
    rfl

end Evaluation

/-- The order from the leaves to the root determines a tree. -/
theorem OperatorTree.postorder_inj {t t' : OperatorTree α ω} (same : t.postorder = t'.postorder) : t = t' := by
  have rebuilt : ∀ t : OperatorTree α ω, t.evaluate (m := Id) OperatorTree.operand OperatorTree.binary = t := by
    intro t
    induction t with
    | operand a => rfl
    | binary op left right ih_left ih_right =>
      change OperatorTree.binary op (left.evaluate (m := Id) _ _) (right.evaluate (m := Id) _ _) = _
      rw [ih_left, ih_right]
  have run := execute_postorder (m := Id) OperatorTree.operand OperatorTree.binary (id : List (OperatorTree α ω) → _) t [] []
  rw [same, execute_postorder] at run
  have tops : [t'.evaluate (m := Id) OperatorTree.operand OperatorTree.binary] =
    [t.evaluate (m := Id) OperatorTree.operand OperatorTree.binary] := run
  rw [rebuilt, rebuilt] at tops
  exact (List.singleton_inj.mp tops).symm

/-- A chain has one ordered tree only. -/
theorem OperatorTree.Ordered.unique {tier : ω → Nat} {t t' : OperatorTree α ω} (ordered : t.Ordered tier) (ordered' : t'.Ordered tier)
    (same : t.inorder = t'.inorder) : t = t' := by
  apply postorder_inj
  rw [← shunt_ordered ordered, ← shunt_ordered ordered', same]

end AlLanguage.Library
