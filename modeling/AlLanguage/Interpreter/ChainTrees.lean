import AlLanguage.Interpreter.ConditionVectors

/-!
# Flat chains as trees

The loops over a flat chain evaluate the tree of the chain.
-/

namespace AlLanguage.Interpreter

open Library
open AlLanguage.Runtime (Value DecimalArithmetic DecimalProducts)

/-! ## Reading a chain -/

theorem chainTokens_operand {index : Nat} (even : index % 2 = 0) (child : Node) (rest : List Node) :
    chainTokens index (child :: rest) = (chainTokens (index + 1) rest).map (.operand child :: ·) := by
  rw [chainTokens, if_pos even]

theorem chainTokens_operator {index : Nat} (odd : index % 2 = 1) (child : Node) (rest : List Node) :
    chainTokens index (child :: rest) =
      if (binaryPrecedence child.operatorText).isSome then
        (chainTokens (index + 1) rest).map (.operator child.operatorText :: ·)
      else .error ("unsupported binary operator in expression: `" ++ child.operatorText ++ "`") := by
  rw [chainTokens, if_neg (by omega)]
  dsimp only
  split
  next known =>
    rw [known]
    rfl
  next unknown =>
    rw [unknown]
    rfl

theorem chainRest_cons (operator operand : Node) (rest : List Node) :
    chainRest (operator :: operand :: rest) =
      if (binaryPrecedence operator.operatorText).isSome then (chainRest rest).map ((operator.operatorText, operand) :: ·)
      else .error ("unsupported binary operator in expression: `" ++ operator.operatorText ++ "`") := by
  rw [chainRest]
  split
  next known =>
    rw [known]
    rfl
  next unknown =>
    rw [unknown]
    rfl

theorem chainTokens_rest {index : Nat} (odd : index % 2 = 1) : ∀ below : List Node, below.length % 2 = 0 →
    chainTokens index below =
      (chainRest below).map fun rest => rest.flatMap fun next => [Token.operator next.1, Token.operand next.2]
  | [], _ => rfl
  | [_], even => by simp at even
  | operator :: operand :: below, even => by
    have next_odd : (index + 2) % 2 = 1 := by omega
    have ih := chainTokens_rest next_odd below (by simpa [Nat.add_assoc] using even)
    rw [chainTokens_operator odd, chainTokens_operand (by omega), ih, chainRest_cons]
    split
    · cases chainRest below with
      | error message => rfl
      | ok rest => rfl
    · rfl

theorem chainTokens_cons {first : Node} {below : List Node} (even : below.length % 2 = 0) :
    chainTokens 0 (first :: below) = (chainRest below).map (OperatorTree.chainTokens first) := by
  rw [chainTokens_operand rfl, chainTokens_rest rfl below even]
  cases chainRest below with
  | error message => rfl
  | ok rest => rfl

theorem chainRest_cons_ne_nil (operator operand : Node) (below : List Node) : chainRest (operator :: operand :: below) ≠ .ok [] := by
  intro empty
  rw [chainRest_cons] at empty
  split at empty
  · cases deeper : chainRest below with
    | error message =>
      rw [deeper] at empty
      cases empty
    | ok rest =>
      rw [deeper] at empty
      cases empty
  · cases empty

theorem chainRest_nil {below : List Node} (even : below.length % 2 = 0) (empty : chainRest below = .ok []) : below = [] := by
  cases below with
  | nil => rfl
  | cons operator below =>
    cases below with
    | nil => simp at even
    | cons operand below => exact (chainRest_cons_ne_nil operator operand below empty).elim

/-- A chain of several operands has a tree with an operator at its root. -/
theorem chainTree_several {children : List Node} {tree : OperatorTree Node String} (read : chainTree children = .ok tree)
    (several : children.length ≠ 1) : ∃ operator left right, tree = .binary operator left right := by
  cases tree with
  | binary operator left right => exact ⟨operator, left, right, rfl⟩
  | operand node =>
    obtain ⟨first, below, rest, rfl, even, tail, is⟩ := chainTree_ok read
    have tokens : (OperatorTree.ofChain precedence first rest).inorder = OperatorTree.chainTokens first rest :=
      OperatorTree.inorder_ofChain first rest
    rw [← is, OperatorTree.inorder, OperatorTree.chainTokens, List.cons.injEq] at tokens
    have none_ : rest = [] := by
      cases rest with
      | nil => rfl
      | cons next rest => cases tokens.2
    rw [none_] at tail
    rw [chainRest_nil even tail] at several
    exact (several rfl).elim

/-! ## Evaluating a chain -/

section Evaluation

variable {σ : Type} [DecimalArithmetic] [DecimalProducts] (evaluate : Node → Run σ Eval)

/-- The recursive evaluation of a tree, with traces. -/
def tracedTree (tree : OperatorTree Node String) : ExceptT Eval (StateT (DispatchCtx σ) Option) TracedValue :=
  tree.evaluate (operandValue evaluate) fun operator left right => ExceptT.mk (pure (applyTraced operator left right))

theorem evalExprChain_single (child : Node) : evalExprChain evaluate [child] = (do
    let result ← evaluate child
    pure (result, none)) := rfl

theorem evalExprChain_error {children : List Node} {message : String} (refused : chainTree children = .error message) :
    evalExprChain evaluate children = pure (.failed message, none) := by
  match children with
  | [] =>
    cases refused
    rfl
  | [child] => cases refused
  | first :: second :: below =>
    rw [chainTree] at refused
    rw [evalExprChain]
    split at refused
    next odd =>
      rw [if_pos (by rw [List.length_cons]; omega)]
      cases refused
      rfl
    next even =>
      rw [if_neg (by rw [List.length_cons]; omega), chainTokens_cons (by omega)]
      cases tail : chainRest (second :: below) with
      | ok rest =>
        rw [tail] at refused
        cases refused
      | error found =>
        rw [tail] at refused
        cases refused
        rfl

theorem evalTokens_postorder (tree : OperatorTree Node String) : evalTokens evaluate tree.postorder = (do
      match ← (tracedTree evaluate tree).run with
      | .ok traced => pure (.normal traced.value, traced.conditions)
      | .error other => pure (other, none)) := by
  rw [evalTokens, ← List.append_nil tree.postorder, execute_postorder, ExceptT.run_bind, bind_assoc]
  apply bind_congr
  intro result
  cases result with
  | error other => rfl
  | ok traced => rfl

theorem evalExprChain_tree {children : List Node} {tree : OperatorTree Node String} (read : chainTree children = .ok tree)
    (several : children.length ≠ 1) : evalExprChain evaluate children = (do
      match ← (tracedTree evaluate tree).run with
      | .ok traced => pure (.normal traced.value, traced.conditions)
      | .error other => pure (other, none)) := by
  obtain ⟨first, below, rest, rfl, even, tail, rfl⟩ := chainTree_ok read
  match below with
  | [] => exact (several rfl).elim
  | second :: below =>
    have converted : shunt precedence [] (OperatorTree.chainTokens first rest) = (OperatorTree.ofChain precedence first rest).postorder := by
      rw [← shunt_ordered (OperatorTree.ordered_ofChain first rest), OperatorTree.inorder_ofChain]
    rw [evalExprChain, if_neg (by rw [List.length_cons]; omega), chainTokens_cons even, tail, ← evalTokens_postorder, ← converted]
    rfl

/-! ## The conditional operator -/

theorem evalComputationChain_flat {children : List Node} (flat : conditionalParts children = .flat) :
    evalComputationChain evaluate children = evalExprChain evaluate children := by
  rw [evalComputationChain]
  split
  next => rfl
  next message refused =>
    rw [flat] at refused
    cases refused
  next parts =>
    rw [flat] at parts
    cases parts

theorem evalComputationChain_malformed {children : List Node} {message : String} (malformed : conditionalParts children = .malformed message) :
    evalComputationChain evaluate children = pure (.failed message, none) := by
  rw [evalComputationChain]
  split
  next flat =>
    rw [malformed] at flat
    cases flat
  next found refused =>
    rw [malformed] at refused
    cases refused
    rfl
  next parts =>
    rw [malformed] at parts
    cases parts

theorem evalComputationChain_parts {children condition ifTrue ifFalse : List Node}
    (found : conditionalParts children = .parts condition ifTrue ifFalse) :
    evalComputationChain evaluate children =
      evalConditional (evalComputationChain evaluate condition) (evalComputationChain evaluate ifTrue)
        (evalComputationChain evaluate ifFalse) := by
  rw [evalComputationChain]
  split
  next flat =>
    rw [found] at flat
    cases flat
  next refused =>
    rw [found] at refused
    cases refused
  next parts =>
    rw [found] at parts
    cases parts
    rfl

end Evaluation

end AlLanguage.Interpreter
