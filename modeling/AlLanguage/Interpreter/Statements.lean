import AlLanguage.Interpreter.Expressions

/-!
# Decisions and statements

`if`, `while` and `repeat` evaluate their condition with a trace of its own. The other statements belong to the remaining interpreter.
-/

namespace AlLanguage.Interpreter

open AlLanguage.Runtime (Value Coverage Record DecimalArithmetic DecimalProducts)

namespace Node

def childByFieldName (node : Node) (name : String) : Option Node := node.children.find? (·.fieldName = name)

def isPunctuation : NodeKind → Bool
  | .other kind => kind ∈ ["comment", ";", ",", "(", ")", "\x7b", "\x7d", "semicolon", "comma"] || kind.startsWith "kw_"
  | _ => false

def namedStmtChild (node : Node) (n : Nat) : Option Node := (node.children.filter fun child => !isPunctuation child.kind)[n]?

/-- The child in a field, or else the one at an index. -/
def part (node : Node) (name : String) (n : Nat) : Option Node := (node.childByFieldName name).or (node.namedStmtChild n)

end Node

def isTruthy : Value → Bool
  | .boolean b => b
  | _ => false

section Shared

variable {σ : Type} {m : Type → Type} [Monad m] [Evaluates σ m]

def maxAstDepth : Nat := 2560

def evalIf (decide : (condition decision : Node) → m Eval) (stmt : Node → m Eval) (node : Node) : m Eval :=
  match node.part "condition" 0 with
  | none => pure (.failed "if_statement: missing condition node")
  | some condition => do
    match ← decide condition node with
    | .normal (.boolean taken) =>
      record (.decision node.line taken)
      match if taken then node.part "consequence" 1 else node.part "alternative" 2 with
      | some branch => stmt branch
      | none => pure (.normal .empty)
    | .normal other => pure (.failed ("if condition must be Boolean, got " ++ other.typeName))
    | other => pure other

/-- The body of a loop, and whether another turn follows it. -/
def evalBody (stmt : Node → m Eval) (body : Option Node) : m (Except Eval Unit) :=
  match body with
  | none => pure (.ok ())
  | some body => do
    match ← stmt body with
    | .normal _ | .continue_ => pure (.ok ())
    | .break_ => pure (.error (.normal .empty))
    | other => pure (.error other)

variable [Remaining σ]

/-- The checks at the start of a turn of a loop. -/
def turnRefused (loop : String) : m (Option Eval) := do
  if ← onRest Remaining.isCancelled then pure (some (.failed s!"interpreter cancelled in {loop} loop"))
  else if ← onRest Remaining.deadlineExceeded then pure (some (.failed s!"interpreter deadline exceeded in {loop} loop"))
  else pure none

def whileLoop (decide : (condition decision : Node) → m Eval) (stmt : Node → m Eval) (node condition : Node) (body : Option Node) :
    (turns : Nat) → m Eval
  | 0 => outOfTurns
  | turns + 1 => do
    match ← turnRefused "while" with
    | some refused => pure refused
    | none =>
      match ← decide condition node with
      | .normal value =>
        record (.decision node.line (isTruthy value))
        if isTruthy value then
          match ← evalBody stmt body with
          | .ok () => whileLoop decide stmt node condition body turns
          | .error result => pure result
        else pure (.normal .empty)
      | other => pure other

def evalWhile (decide : (condition decision : Node) → m Eval) (stmt : Node → m Eval) (turns : Nat) (node : Node) : m Eval :=
  match node.part "condition" 0 with
  | none => pure (.failed "while_statement: missing condition")
  | some condition => whileLoop decide stmt node condition (node.part "body" 1) turns

def repeatLoop (decide : (condition decision : Node) → m Eval) (stmt : Node → m Eval) (node : Node) (condition body : Option Node) :
    (turns : Nat) → m Eval
  | 0 => outOfTurns
  | turns + 1 => do
    match ← turnRefused "repeat" with
    | some refused => pure refused
    | none =>
      match ← evalBody stmt body with
      | .error result => pure result
      | .ok () =>
        match condition with
        | none => pure (.failed "repeat_statement: missing until condition")
        | some condition =>
          match ← decide condition node with
          | .normal value =>
            record (.decision node.line (isTruthy value))
            if isTruthy value then pure (.normal .empty)
            else repeatLoop decide stmt node (some condition) body turns
          | other => pure other

def evalRepeat (decide : (condition decision : Node) → m Eval) (stmt : Node → m Eval) (turns : Nat) (node : Node) : m Eval :=
  repeatLoop decide stmt node (node.part "condition" 1) (node.part "body" 0) turns

def evalStmtInner (decide : (condition decision : Node) → m Eval) (stmt : Node → m Eval) (proceed : Task → m Eval) (turns : Nat)
    (node : Node) : m Eval :=
  match node.kind with
  | .ifStatement | .emptyIfStatement => evalIf decide stmt node
  | .whileStatement => evalWhile decide stmt turns node
  | .repeatStatement => evalRepeat decide stmt turns node
  | _ => proceed (.statement node)

def enterStmt : m Bool := onState fun state => some (decide (state.astDepth < maxAstDepth), state)

def changeAstDepth (change : Nat → Nat) : m Unit := onState fun state => some ((), { state with astDepth := change state.astDepth })

/-- One level of `eval_stmt`. -/
def evalStmtStep (decide : (condition decision : Node) → m Eval) (stmt : Node → m Eval) (proceed : Task → m Eval) (turns : Nat)
    (node : Node) : m Eval := do
  if ← enterStmt then
    record (.statement node.line)
    changeAstDepth (· + 1)
    let result ← evalStmtInner decide stmt proceed turns node
    changeAstDepth (· - 1)
    pure result
  else
    pure (.failed ("AST nesting depth exceeded (max 2560 levels) — likely a pathological or generated test source"))

end Shared

section Runs

variable {σ : Type} [Remaining σ] [DecimalArithmetic] [DecimalProducts]

omit [Remaining σ] [DecimalArithmetic] [DecimalProducts] in
def evalDecisionCondition (evaluate : Node → Run σ Eval) (condition decision : Node) : Run σ Eval := do
  covBeginConditionTrace
  let result ← evaluate condition
  let trace ← covFinishConditionTrace condition
  match result.boolean? with
  | some outcome =>
    covRecordConditionObservation decision trace outcome
    pure result
  | none => pure result

omit [Remaining σ] [DecimalArithmetic] [DecimalProducts] in
/-- The coverage is taken away and put back. The stack of traces stays. -/
def evalStandaloneExpression (evaluate : Node → Run σ Eval) (node : Node) : Run σ Eval := fun ctx =>
  (evaluate node { ctx with coverage := none }).map fun (result, after) => (result, { after with coverage := ctx.coverage })

omit [Remaining σ] in
/-- One level of `eval_expr`. -/
def evalExprStep (evaluate : Node → Run σ Eval) (proceed : Task → Run σ Eval) (node : Node) : Run σ Eval := do
  if ← enterExpr then
    let result ← evalExprInner evaluate proceed node
    exitExpr
    recordConditionTrace node result
    pure result
  else
    pure (.failed ("expression nesting depth exceeded (max 2560 levels) — likely a pathological or generated test source"))

mutual

def evalExpr : (turns : Nat) → Node → Run σ Eval
  | 0, _ => outOfTurns
  | turns + 1, node =>
    evalExprStep (evalExpr turns)
      (runTask (evalExpr turns) (evalStandaloneExpression (evalExpr turns)) (evalStmt turns) turns) node

def evalStmt : (turns : Nat) → Node → Run σ Eval
  | 0, _ => outOfTurns
  | turns + 1, node =>
    evalStmtStep (evalDecisionCondition (evalExpr turns)) (evalStmt turns)
      (runTask (evalExpr turns) (evalStandaloneExpression (evalExpr turns)) (evalStmt turns) turns) turns node

end

end Runs

end AlLanguage.Interpreter
