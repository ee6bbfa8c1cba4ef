import AlLanguage.Interpreter.Statements

/-!
# The condition vectors of a run

The same interpreter without maps of traces: every expression returns the values that its atomic conditions took, and the run keeps a
log of what a collector of traces and coverage would do. `width` is the number of atomic conditions of an expression.
-/

namespace AlLanguage.Interpreter

open Library
open AlLanguage.Runtime (Value UnaryOp BinaryOp applyUnary applyBinary Coverage Record Observed DecimalArithmetic DecimalProducts)

/-! ## Logs -/

inductive Event where
  /-- An expression of these bytes was a Boolean. -/
  | wrote (span : Span)
  /-- The trace of an expression is about to be read. These spans should be without one. -/
  | read (unread : List Span)
  /-- A branch of the conditional operator was a Boolean. Its last operator is a logical one, or not. -/
  | branch (logical : Bool)
  | opened
  | closed (decision condition : Node) (observed : Option Observed)
  | record (r : Record)

/-- The state of the interpreter and the log of its run, the last event first. -/
structure Told (σ : Type) extends EvalState σ where
  log : List Event

abbrev Exact (σ α : Type) := StateT (Told σ) Option α

section Logs

variable {σ : Type}

def tell (event : Event) : Exact σ Unit := modify fun told => { told with log := event :: told.log }

instance : Evaluates σ (StateT (Told σ) Option) where
  onState f := fun told => (f told.toEvalState).map fun (a, state) => (a, { told with toEvalState := state })
  record r := tell (.record r)

end Logs

/-- What a collector holds: the coverage and, for each open decision, the spans with a trace. `clean` says that no trace that was
read had been there before, and that no selected branch was built by a logical operator. -/
structure Collected where
  coverage : Option Coverage
  frames : List (List Span)
  clean : Bool

/-- What the end of a decision adds to the coverage. -/
def observe (decision : Node) : Option Observed → Coverage → Coverage
  | some observed, coverage => coverage.recordConditionObservation decision.line observed.conditions observed.outcome
  | none, coverage => coverage

namespace Collected

def collect (c : Collected) : Event → Collected
  | .wrote span => { c with frames := c.frames.modifyHead (span :: ·) }
  | .read unread => { c with clean := c.clean && (c.coverage.isNone || unread.all (· ∉ c.frames.headD [])) }
  | .branch logical => { c with clean := c.clean && (c.coverage.isNone || !logical) }
  | .opened => if c.coverage.isSome then { c with frames := [] :: c.frames } else c
  | .closed decision _ observed =>
    if c.coverage.isSome then
      { c with
        frames := c.frames.tail
        coverage := c.coverage.map (observe decision observed) }
    else c
  | .record r => { c with coverage := c.coverage.map (·.apply r) }

def collectAll (c : Collected) (log : List Event) : Collected := log.foldr (fun event c => c.collect event) c

end Collected

/-! ## The roles of nodes -/

inductive Role where
  | missing (message : String)
  | wrapper (inner : Node)
  | unary (operator operand : Node)
  | assignment (target : Node) (operator : String) (chain : List Node)
  | computation
  | leaf

namespace Node

def chainRole (node : Node) : Role :=
  match node.children with
  | [] => .missing "expression: no children"
  | [child] => .wrapper child
  | children =>
    match assignmentParts children with
    | some (target, operator, chain) => .assignment target operator chain
    | none => .computation

def wrapperRole (node : Node) (message : String) : Role :=
  match node.children with
  | [] => .missing message
  | inner :: _ => .wrapper inner

/-- What is evaluated of a node, by its kind. -/
def role (node : Node) : Role :=
  match node.kind with
  | .expression => node.chainRole
  | .caseLabelExpression => if 1 < node.children.length then node.chainRole else node.wrapperRole "empty expression wrapper"
  | .parenthesizedExpression | .primaryExpression => node.wrapperRole "empty expression wrapper"
  | .postfixExpression =>
    if node.isCallPostfix || 1 < node.children.length then .leaf else node.wrapperRole "empty postfix expression"
  | .unaryExpression =>
    match node.children with
    | operator :: operand :: _ => .unary operator operand
    | _ => node.wrapperRole "unary expression: empty node"
  | _ => .leaf

/-- The spans whose traces are read before the trace of the node itself. -/
def unread (node : Node) : List Span :=
  match node.role with
  | .missing _ | .computation => []
  | .wrapper inner => if inner.span = node.span then [] else [node.span]
  | .unary operator operand => if operand.span = node.span then [] else [node.span, operator.span]
  | .assignment .. | .leaf => node.span :: if isTransparent node then node.children.map span else []

end Node

theorem wrapperRole_mem {node inner : Node} {message : String} (role : node.wrapperRole message = .wrapper inner) :
    node.children.head? = some inner := by
  rw [Node.wrapperRole] at role
  split at role
  next => cases role
  next first rest children =>
    cases role
    rw [children]
    rfl

theorem chainRole_mem {node inner : Node} (role : node.chainRole = .wrapper inner) : node.children.head? = some inner := by
  rw [Node.chainRole] at role
  split at role
  next => cases role
  next child children =>
    cases role
    rw [children]
    rfl
  next =>
    split at role
    · cases role
    · cases role

/-- The evaluated child of a wrapper is the first one. -/
theorem role_wrapper {node inner : Node} (role : node.role = .wrapper inner) : node.children.head? = some inner := by
  rw [Node.role] at role
  split at role
  next => exact chainRole_mem role
  next =>
    split at role
    · exact chainRole_mem role
    · exact wrapperRole_mem role
  next => exact wrapperRole_mem role
  next => exact wrapperRole_mem role
  next =>
    split at role
    · cases role
    · exact wrapperRole_mem role
  next =>
    split at role
    · cases role
    · exact wrapperRole_mem role
  next => cases role

theorem role_unary {node operator operand : Node} (role : node.role = .unary operator operand) :
    node.kind = .unaryExpression ∧ ∃ rest, node.children = operator :: operand :: rest := by
  have no_chain : node.chainRole ≠ .unary operator operand := by
    intro chain
    rw [Node.chainRole] at chain
    split at chain
    · cases chain
    · cases chain
    · split at chain
      · cases chain
      · cases chain
  have no_wrapper : ∀ message, node.wrapperRole message ≠ .unary operator operand := by
    intro message wrapper
    rw [Node.wrapperRole] at wrapper
    split at wrapper
    · cases wrapper
    · cases wrapper
  rw [Node.role] at role
  split at role
  next => exact (no_chain role).elim
  next =>
    split at role
    · exact (no_chain role).elim
    · exact (no_wrapper _ role).elim
  next => exact (no_wrapper _ role).elim
  next => exact (no_wrapper _ role).elim
  next =>
    split at role
    · cases role
    · exact (no_wrapper _ role).elim
  next kind =>
    split at role
    next first second rest children =>
      cases role
      exact ⟨kind, rest, children⟩
    next => exact (no_wrapper _ role).elim
  next => cases role

/-! ## Chains -/

/-- The operators and operands behind the first operand. -/
def chainRest : List Node → Except String (List (String × Node))
  | operator :: operand :: rest =>
    match binaryPrecedence operator.operatorText with
    | some _ => (chainRest rest).map ((operator.operatorText, operand) :: ·)
    | none => .error ("unsupported binary operator in expression: `" ++ operator.operatorText ++ "`")
  | _ => .ok []

def chainTree : List Node → Except String (OperatorTree Node String)
  | [] => .error "expression chain: empty"
  | first :: rest =>
    if rest.length % 2 = 1 then .error "expression chain: expected alternating operands and operators"
    else (chainRest rest).map (OperatorTree.ofChain precedence first)

/-- The last operator of a chain is a logical one. -/
def endsLogical (children : List Node) : Bool :=
  match chainTree children with
  | .ok (.binary operator _ _) => isLogical operator
  | _ => false

theorem chainRest_mem {children : List Node} {rest : List (String × Node)} (read : chainRest children = .ok rest) :
    ∀ next ∈ rest, next.2 ∈ children := by
  induction children using chainRest.induct generalizing rest with
  | case1 operator operand below precedence known ih =>
    rw [chainRest, known] at read
    cases tail : chainRest below with
    | error message =>
      rw [tail] at read
      cases read
    | ok found =>
      rw [tail] at read
      cases read
      intro next inside
      obtain rfl | inside := List.mem_cons.mp inside
      · simp
      · exact List.mem_cons_of_mem _ (List.mem_cons_of_mem _ (ih tail next inside))
  | case2 operator operand below unknown =>
    rw [chainRest, unknown] at read
    cases read
  | case3 children short =>
    rw [chainRest] at read
    · cases read
      exact fun _ inside => nomatch inside
    · exact short

theorem chainTree_ok {children : List Node} {tree : OperatorTree Node String} (read : chainTree children = .ok tree) :
    ∃ first below rest, children = first :: below ∧ below.length % 2 = 0 ∧ chainRest below = .ok rest ∧
      tree = .ofChain precedence first rest := by
  match children with
  | [] => cases read
  | first :: below =>
    rw [chainTree] at read
    split at read
    next => cases read
    next even =>
      cases tail : chainRest below with
      | error message =>
        rw [tail] at read
        cases read
      | ok rest =>
        rw [tail] at read
        cases read
        exact ⟨first, below, rest, rfl, by omega, tail, rfl⟩

theorem chainTree_mem {children : List Node} {tree : OperatorTree Node String} (read : chainTree children = .ok tree) {node : Node}
    (inside : node ∈ tree.operands) : node ∈ children := by
  obtain ⟨first, below, rest, rfl, -, tail, rfl⟩ := chainTree_ok read
  rw [OperatorTree.mem_operands_iff, OperatorTree.inorder_ofChain, OperatorTree.chainTokens] at inside
  simp only [List.mem_cons, List.mem_flatMap, Token.operand.injEq, List.not_mem_nil, or_false, reduceCtorEq, false_or] at inside
  obtain rfl | ⟨next, there, rfl⟩ := inside
  · exact List.mem_cons_self
  · exact List.mem_cons_of_mem _ (chainRest_mem tail next there)

/-- The number of conditions of a chain, if those of its operands are known. -/
def treeWidth : (tree : OperatorTree Node String) → (∀ node ∈ tree.operands, Nat) → Nat
  | .operand node, width => width node (List.mem_singleton_self node)
  | .binary operator left right, width =>
    if isLogical operator then
      treeWidth left (fun node inside => width node (List.mem_append_left _ inside)) +
        treeWidth right (fun node inside => width node (List.mem_append_right _ inside))
    else 1

theorem sizeOf_child {node child : Node} (inside : child ∈ node.children) : sizeOf child < sizeOf node := by
  have smaller := List.sizeOf_lt_of_mem inside
  cases node
  simp only [Node.mk.sizeOf_spec]
  dsimp only at smaller
  omega

/-- The number of atomic conditions of an expression. -/
def width (node : Node) : Nat :=
  match _role : node.role with
  | .wrapper inner => width inner
  | .unary _ operand => width operand
  | .computation =>
    match conditionalParts node.children with
    | .flat =>
      match _tree : chainTree node.children with
      | .ok tree => treeWidth tree fun operand _ => width operand
      | .error _ => 1
    | _ => 1
  | _ => 1
termination_by sizeOf node
decreasing_by
  · exact sizeOf_child (List.mem_of_mem_head? (role_wrapper _role))
  · obtain ⟨_, _, children⟩ := role_unary _role
    exact sizeOf_child (by simp [children])
  · exact sizeOf_child (chainTree_mem _tree ‹_›)

/-- A value is one condition if it is a Boolean. -/
def Eval.ownConditions (result : Eval) : List Bool := result.boolean?.toList

section Evaluation

variable {σ : Type}

def exactOperand (evaluate : Bool → Node → Exact σ (Eval × List Bool)) (watched : Bool) (node : Node) :
    ExceptT Eval (StateT (Told σ) Option) (Value × List Bool) :=
  ExceptT.mk do
    match ← evaluate watched node with
    | (.normal value, conditions) => pure (.ok (value, conditions))
    | (other, _) => pure (.error other)

variable [DecimalArithmetic] [DecimalProducts]

def exactApply (operator : String) (left right : Value × List Bool) : Except Eval (Value × List Bool) :=
  match applyBinary (binaryOp operator) left.1 right.1 with
  | .error message => .error (.failed message)
  | .ok value => .ok (value, if isLogical operator then left.2 ++ right.2 else (booleanOf value).toList)

/-- The conditions of a logical operator are those of its operands, in source order. Every other value is one condition. -/
def exactTree (evaluate : Bool → Node → Exact σ (Eval × List Bool)) :
    (watched : Bool) → OperatorTree Node String → ExceptT Eval (StateT (Told σ) Option) (Value × List Bool)
  | watched, .operand node => exactOperand evaluate watched node
  | watched, .binary operator left right => do
    let l ← exactTree evaluate (watched && isLogical operator) left
    let r ← exactTree evaluate (watched && isLogical operator) right
    ExceptT.mk (pure (exactApply operator l r))

def exactChain (evaluate : Bool → Node → Exact σ (Eval × List Bool)) (watched : Bool) (children : List Node) :
    Exact σ (Eval × List Bool) :=
  match chainTree children with
  | .error message => pure (.failed message, [])
  | .ok tree => do
    match ← (exactTree evaluate watched tree).run with
    | .ok (value, conditions) => pure (.normal value, conditions)
    | .error other => pure (other, [])

def isConditional (children : List Node) : Bool :=
  match conditionalParts children with
  | .flat => false
  | _ => true

omit [DecimalArithmetic] [DecimalProducts] in
/-- A conditional is one condition, whichever branch it selects. -/
def exactConditional (watched : Bool) (branches : Bool → List Node) (condition : Exact σ (Eval × List Bool))
    (branch : Bool → Exact σ (Eval × List Bool)) : Exact σ (Eval × List Bool) := do
  match (← condition).1 with
  | .normal (.boolean value) =>
    let (result, _) ← branch value
    if watched && result.boolean?.isSome then
      tell (.branch (endsLogical (branches value)))
    pure (result, result.ownConditions)
  | .normal other => pure (.failed ("conditional expression requires Boolean condition, got " ++ other.typeName), [])
  | other => pure (other, [])

/-- Of a conditional, only a nested conditional in a branch is watched. -/
def exactComputation (evaluate : Bool → Node → Exact σ (Eval × List Bool)) (watched : Bool) (children : List Node) :
    Exact σ (Eval × List Bool) :=
  match _found : conditionalParts children with
  | .flat => exactChain evaluate watched children
  | .malformed message => pure (.failed message, [])
  | .parts condition ifTrue ifFalse =>
    exactConditional watched (fun value => if value then ifTrue else ifFalse) (exactComputation evaluate false condition) fun value =>
      if value then exactComputation evaluate (watched && isConditional ifTrue) ifTrue
      else exactComputation evaluate (watched && isConditional ifFalse) ifFalse
termination_by children.length
decreasing_by
  · exact (conditionalParts_length _found).1
  · exact (conditionalParts_length _found).2.1
  · exact (conditionalParts_length _found).2.2

/-! ## Expressions -/

omit [DecimalArithmetic] [DecimalProducts] in
def exactLeaf (result : Exact σ Eval) : Exact σ (Eval × List Bool) := do
  let result ← result
  pure (result, result.ownConditions)

def exactInner (evaluate : Bool → Node → Exact σ (Eval × List Bool)) (proceed : Task → Exact σ Eval) (watched : Bool) (node : Node) :
    Exact σ (Eval × List Bool) :=
  match node.role with
  | .missing message => pure (.failed message, [])
  | .wrapper inner => evaluate watched inner
  | .unary operator operand => do
    match ← evaluate watched operand with
    | (.normal value, conditions) => pure (.ofExcept (applyUnary (unaryOp operator.operatorText) value), conditions)
    | (other, _) => pure (other, [])
  | .assignment target operator chain => do
    match (← exactComputation evaluate false chain).1 with
    | .normal value => exactLeaf (proceed (.assignment target operator value))
    | other => pure (other, [])
  | .computation => do
    let result ← exactComputation evaluate watched node.children
    if result.1.boolean?.isSome then tell (.wrote node.span)
    pure result
  | .leaf => exactLeaf (proceed (.leaf node))

def exactExprStep (evaluate : Bool → Node → Exact σ (Eval × List Bool)) (proceed : Task → Exact σ Eval) (watched : Bool) (node : Node) :
    Exact σ (Eval × List Bool) := do
  if ← enterExpr then
    let result ← exactInner evaluate proceed watched node
    exitExpr
    if result.1.boolean?.isSome then
      if watched then tell (.read node.unread)
      tell (.wrote node.span)
    pure result
  else
    pure (.failed "expression nesting depth exceeded (max 2560 levels) — likely a pathological or generated test source", [])

omit [DecimalArithmetic] [DecimalProducts] in
def exactDecision (evaluate : Bool → Node → Exact σ (Eval × List Bool)) (condition decision : Node) : Exact σ Eval := do
  tell .opened
  let (result, conditions) ← evaluate true condition
  tell (.closed decision condition (result.boolean?.map fun outcome => ⟨conditions, outcome⟩))
  pure result

def isWrote : Event → Bool
  | .wrote _ => true
  | _ => false

omit [DecimalArithmetic] [DecimalProducts] in
/-- No decision is recorded, but the traces are written. -/
def exactStandalone (evaluate : Bool → Node → Exact σ (Eval × List Bool)) (node : Node) : Exact σ Eval := fun told =>
  (evaluate false node { told with log := [] }).map fun (result, after) =>
    (result.1, { after with log := after.log.filter isWrote ++ told.log })

omit [DecimalArithmetic] [DecimalProducts] in
def unwatched (evaluate : Bool → Node → Exact σ (Eval × List Bool)) (node : Node) : Exact σ Eval := do
  let result ← evaluate false node
  pure result.1

variable [Remaining σ]

mutual

def exactExpr : (turns : Nat) → (watched : Bool) → Node → Exact σ (Eval × List Bool)
  | 0, _, _ => outOfTurns
  | turns + 1, watched, node =>
    exactExprStep (exactExpr turns)
      (runTask (unwatched (exactExpr turns)) (exactStandalone (exactExpr turns)) (exactStmt turns) turns) watched node

def exactStmt : (turns : Nat) → Node → Exact σ Eval
  | 0, _ => outOfTurns
  | turns + 1, node =>
    evalStmtStep (exactDecision (exactExpr turns)) (exactStmt turns)
      (runTask (unwatched (exactExpr turns)) (exactStandalone (exactExpr turns)) (exactStmt turns) turns) turns node

end

end Evaluation

end AlLanguage.Interpreter
