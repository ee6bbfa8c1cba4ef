import AlLanguage.Library.OperatorTrees
import AlLanguage.Runtime.Arithmetic
import AlLanguage.Runtime.CoverageSums
import AlLanguage.Runtime.Tables
import AlLanguage.Runtime.Text

/-!
# The evaluation of expressions and its condition traces

Syntax nodes, the part of the context that the traces depend on, and the evaluator of wrappers, unary operators and flat chains.
Everything else that the interpreter does (calls, members, literals, assignments) is a machine that runs on its own state and asks
for the evaluation of expressions and statements.
-/

namespace AlLanguage.Interpreter

open Library
open AlLanguage.Runtime (Value ErrorInfo UnaryOp BinaryOp applyUnary applyBinary Coverage Record DecimalArithmetic DecimalProducts
  toAsciiLowercase trim)

/-! ## Nodes -/

inductive NodeKind where
  | expression
  | parenthesizedExpression
  | primaryExpression
  | caseLabelExpression
  | unaryExpression
  | postfixExpression
  | unaryOperator
  | binaryOperator
  | callSuffix
  | memberCallSuffix
  | scopeCallSuffix
  | ifStatement
  | emptyIfStatement
  | whileStatement
  | repeatStatement
  | other (kind : String)
  deriving DecidableEq

abbrev Span := Nat × Nat

/-- A syntax node with its named children. `fieldName` is the field of its parent that it fills. -/
structure Node where
  kind : NodeKind
  text : String
  startByte : Nat
  endByte : Nat
  row : Nat
  children : List Node
  fieldName : String := ""

namespace Node

def span (node : Node) : Span := (node.startByte, node.endByte)

def line (node : Node) : UInt32 := UInt32.ofNat node.row + 1

/-- The last child is named in every postfix expression. -/
def isCallPostfix (node : Node) : Bool :=
  match node.children.getLast? with
  | some last => last.kind = .callSuffix || last.kind = .memberCallSuffix || last.kind = .scopeCallSuffix
  | none => false

def operatorText (node : Node) : String := toAsciiLowercase (trim node.text)

end Node

/-! ## Results and contexts -/

inductive Eval where
  | normal (value : Value)
  | error (info : ErrorInfo)
  | exit (value : Value)
  | break_
  | continue_

def booleanOf : Value → Option Bool
  | .boolean b => some b
  | _ => none

def errorInfo (message : String) : ErrorInfo := ⟨message, none, none⟩

namespace Eval

def failed (message : String) : Eval := error (errorInfo message)

def ofExcept : Except String Value → Eval
  | .ok value => normal value
  | .error message => failed message

def boolean? : Eval → Option Bool
  | normal value => booleanOf value
  | _ => none

end Eval

/-- The state of the interpreter, its traces and its coverage apart. -/
structure EvalState (σ : Type) where
  rest : σ
  exprDepth : Nat
  astDepth : Nat

/-- One map of the stack of condition traces. -/
abbrev Traces := Span → Option (List Bool)

structure DispatchCtx (σ : Type) extends EvalState σ where
  coverage : Option Coverage
  conditionTraceStack : List Traces

/-- A computation of the interpreter. It ends without a result when it is out of turns. -/
abbrev Run (σ α : Type) := StateT (DispatchCtx σ) Option α

/-- A monad for the parts of the evaluator that use neither the traces nor the coverage. -/
class Evaluates (σ : outParam Type) (m : Type → Type) where
  onState {α : Type} : (EvalState σ → Option (α × EvalState σ)) → m α
  record : Record → m Unit

instance {σ : Type} : Evaluates σ (StateT (DispatchCtx σ) Option) where
  onState f := fun ctx => (f ctx.toEvalState).map fun (a, state) => (a, { ctx with toEvalState := state })
  record r := modify fun ctx => { ctx with coverage := ctx.coverage.map (·.apply r) }

export Evaluates (onState record)

/-! ## The remaining interpreter -/

inductive Task where
  | leaf (node : Node)
  | assignment (target : Node) (operator : String) (value : Value)
  | statement (node : Node)

def isCondition : Record → Bool
  | .condition .. => true
  | _ => false

/-- The records that the statements write themselves. -/
abbrev LineRecord := { r : Record // isCondition r = false }

inductive Request where
  | finished (result : Eval)
  | expression (node : Node)
  | standalone (node : Node)
  | statement (node : Node)
  | record (r : LineRecord)

class Remaining (σ : Type) where
  begin : Task → σ → σ
  next : σ → Request × σ
  resume : Eval → σ → σ
  isCancelled : σ → Bool × σ
  deadlineExceeded : σ → Bool × σ

section Shared

variable {σ : Type} {m : Type → Type} [Monad m] [Evaluates σ m]

def outOfTurns {α : Type} : m α := onState fun _ => none

def onRest {α : Type} (f : σ → α × σ) : m α :=
  onState fun state => some ((f state.rest).1, { state with rest := (f state.rest).2 })

def maxExprDepth : Nat := 2560

def enterExpr : m Bool :=
  onState fun state =>
    if maxExprDepth ≤ state.exprDepth then some (false, state) else some (true, { state with exprDepth := state.exprDepth + 1 })

def exitExpr : m Unit := onState fun state => some ((), { state with exprDepth := state.exprDepth - 1 })

variable [Remaining σ]

/-- The machine runs until it is finished. -/
def runRequests (expression standalone statement : Node → m Eval) : (turns : Nat) → m Eval
  | 0 => outOfTurns
  | turns + 1 => do
    match ← onRest Remaining.next with
    | .finished result => pure result
    | .expression node => do
      let result ← expression node
      onRest fun rest => ((), Remaining.resume result rest)
      runRequests expression standalone statement turns
    | .standalone node => do
      let result ← standalone node
      onRest fun rest => ((), Remaining.resume result rest)
      runRequests expression standalone statement turns
    | .statement node => do
      let result ← statement node
      onRest fun rest => ((), Remaining.resume result rest)
      runRequests expression standalone statement turns
    | .record r => do
      record r.1
      runRequests expression standalone statement turns

def runTask (expression standalone statement : Node → m Eval) (turns : Nat) (task : Task) : m Eval := do
  onRest fun rest => ((), Remaining.begin task rest)
  runRequests expression standalone statement turns

end Shared

/-! ## Condition traces -/

namespace DispatchCtx

variable {σ : Type}

def covConditionTraceActive (ctx : DispatchCtx σ) : Bool := !ctx.conditionTraceStack.isEmpty

def covExpressionTrace (ctx : DispatchCtx σ) (node : Node) : Option (List Bool) :=
  ctx.conditionTraceStack.head?.bind fun traces => traces node.span

def covSetExpressionTrace (ctx : DispatchCtx σ) (node : Node) (conditions : List Bool) : DispatchCtx σ :=
  { ctx with conditionTraceStack := ctx.conditionTraceStack.modifyHead fun traces => Function.update traces node.span (some conditions) }

end DispatchCtx

section Expressions

variable {σ : Type}

def covBeginConditionTrace : Run σ Unit :=
  modify fun ctx =>
    if ctx.coverage.isSome then { ctx with conditionTraceStack := (fun _ => none) :: ctx.conditionTraceStack } else ctx

def covFinishConditionTrace (condition : Node) : Run σ (Option (List Bool)) :=
  modifyGet fun ctx =>
    if ctx.coverage.isNone then (none, ctx)
    else (ctx.covExpressionTrace condition, { ctx with conditionTraceStack := ctx.conditionTraceStack.tail })

def covRecordConditionObservation (node : Node) (conditions : Option (List Bool)) (outcome : Bool) : Run σ Unit :=
  match conditions.filter fun conditions => !conditions.isEmpty with
  | none => pure ()
  | some conditions => record (.condition node.line conditions outcome)

def isTransparent (node : Node) : Bool :=
  match node.kind with
  | .expression | .parenthesizedExpression | .primaryExpression | .caseLabelExpression | .unaryExpression => true
  | .postfixExpression => !node.isCallPostfix
  | _ => false

def recordConditionTrace (node : Node) (result : Eval) : Run σ Unit :=
  modify fun ctx =>
    if !ctx.covConditionTraceActive || (ctx.covExpressionTrace node).isSome then ctx
    else
      match result.boolean? with
      | some outcome =>
        let inherited := if isTransparent node then node.children.findSome? ctx.covExpressionTrace else none
        ctx.covSetExpressionTrace node (inherited.getD [outcome])
      | none => ctx

/-! ## Flat chains -/

def binaryPrecedence (operator : String) : Option Nat :=
  match toAsciiLowercase operator with
  | "*" | "/" | "div" | "mod" | "and" | "xor" => some 4
  | "+" | "-" | "or" => some 3
  | ">" | ">=" | "<" | "<=" | "=" | "<>" | "in" => some 2
  | ".." => some 1
  | _ => none

def precedence (operator : String) : Nat := (binaryPrecedence operator).getD 0

def binaryOp : String → BinaryOp
  | "+" => .add
  | "-" => .sub
  | "*" => .mul
  | "/" => .divide
  | "div" => .div
  | "mod" => .mod
  | "=" => .eq
  | "<>" => .ne
  | "<" => .lt
  | "<=" => .le
  | ">" => .gt
  | ">=" => .ge
  | "and" => .and
  | "or" => .or
  | "xor" => .xor
  | ".." => .range
  | "in" => .member
  | text => .other text

def unaryOp : String → UnaryOp
  | "+" => .plus
  | "-" => .minus
  | "not" => .not
  | text => .other text

def isLogical (operator : String) : Bool := operator = "and" || operator = "or" || operator = "xor"

abbrev ChainToken := Token Node String

/-- Operands are at the even indices. An operator that is not in the table is refused before anything is evaluated. -/
def chainTokens : (index : Nat) → List Node → Except String (List ChainToken)
  | _, [] => .ok []
  | index, child :: rest =>
    if index % 2 = 0 then (chainTokens (index + 1) rest).map (.operand child :: ·)
    else
      let operator := child.operatorText
      match binaryPrecedence operator with
      | some _ => (chainTokens (index + 1) rest).map (.operator operator :: ·)
      | none => .error s!"unsupported binary operator in expression: `{operator}`"

structure TracedValue where
  value : Value
  conditions : Option (List Bool)

/-- The conditions of an operand of a logical operator. An operand without a trace is one condition. -/
def TracedValue.conditionsOrOwn (traced : TracedValue) : List Bool :=
  traced.conditions.getD (booleanOf traced.value).toList

variable [DecimalArithmetic] [DecimalProducts]

def applyTraced (operator : String) (left right : TracedValue) : Except Eval TracedValue :=
  match applyBinary (binaryOp operator) left.value right.value with
  | .error message => .error (.failed message)
  | .ok value =>
    .ok ⟨value, (booleanOf value).map fun outcome =>
      if isLogical operator then left.conditionsOrOwn ++ right.conditionsOrOwn else [outcome]⟩

def missingOperand : List TracedValue → Eval
  | [] => .failed "expression chain: binary operator missing right operand"
  | _ => .failed "expression chain: binary operator missing left operand"

omit [DecimalArithmetic] [DecimalProducts] in
def operandValue (evaluate : Node → Run σ Eval) (node : Node) : ExceptT Eval (StateT (DispatchCtx σ) Option) TracedValue :=
  ExceptT.mk do
    match ← evaluate node with
    | .normal value => modifyGet fun ctx => (.ok ⟨value, ctx.covExpressionTrace node⟩, ctx)
    | other => pure (.error other)

/-- The loop over the reverse Polish notation of a chain. -/
def evalTokens (evaluate : Node → Run σ Eval) (tokens : List ChainToken) : Run σ (Eval × Option (List Bool)) := do
  match ← (execute (operandValue evaluate) (fun operator left right => ExceptT.mk (pure (applyTraced operator left right)))
    (fun values => throw (missingOperand values)) tokens []).run with
  | .ok [traced] => pure (.normal traced.value, traced.conditions)
  | .ok _ => pure (.failed "expression chain: invalid operand/operator structure", none)
  | .error other => pure (other, none)

def evalExprChain (evaluate : Node → Run σ Eval) : (children : List Node) → Run σ (Eval × Option (List Bool))
  | [] => pure (.failed "expression chain: empty", none)
  | [child] => do
    let result ← evaluate child
    pure (result, none)
  | child :: next :: rest =>
    if (child :: next :: rest).length % 2 = 0 then
      pure (.failed "expression chain: expected alternating operands and operators", none)
    else
      match chainTokens 0 (child :: next :: rest) with
      | .error message => pure (.failed message, none)
      | .ok tokens => evalTokens evaluate (shunt precedence [] tokens)

/-! ## The conditional operator -/

def isBinaryOperator (text : String) (node : Node) : Bool := node.kind = .binaryOperator && trim node.text = text

/-- The first question mark at an odd index. -/
def questionIndex (children : List Node) : Option Nat :=
  (children.zipIdx.find? fun (child, index) => index % 2 = 1 && isBinaryOperator "?" child).map (·.2)

/-- The colon of the question mark: the loop over every other child from the given index on. -/
def colonIndex : (index nestedQuestions : Nat) → List Node → Option Nat
  | _, _, [] => none
  | index, nested, child :: rest =>
    if isBinaryOperator "?" child then colonIndex (index + 2) (nested + 1) rest.tail
    else if isBinaryOperator ":" child then
      if nested = 0 then some index else colonIndex (index + 2) (nested - 1) rest.tail
    else colonIndex (index + 2) nested rest.tail
termination_by _ _ children => children.length
decreasing_by all_goals simp only [List.length_tail, List.length_cons]; omega

inductive ConditionalParts where
  | flat
  | malformed (message : String)
  | parts (condition ifTrue ifFalse : List Node)

def conditionalParts (children : List Node) : ConditionalParts :=
  match questionIndex children with
  | none => .flat
  | some question =>
    match colonIndex (question + 2) 0 (children.drop (question + 2)) with
    | none => .malformed "conditional expression: `?` has no matching `:`"
    | some colon =>
      let condition := children.take question
      let ifTrue := (children.take colon).drop (question + 1)
      let ifFalse := children.drop (colon + 1)
      if condition.isEmpty || ifTrue.isEmpty || ifFalse.isEmpty then
        .malformed "conditional expression: condition and both result branches are required"
      else .parts condition ifTrue ifFalse

omit [DecimalArithmetic] [DecimalProducts] in
theorem conditionalParts_length {children condition ifTrue ifFalse : List Node}
    (parts : conditionalParts children = .parts condition ifTrue ifFalse) :
    condition.length < children.length ∧ ifTrue.length < children.length ∧ ifFalse.length < children.length := by
  rw [conditionalParts] at parts
  split at parts
  next => cases parts
  next question found =>
    split at parts
    next => cases parts
    next colon _ =>
      dsimp only at parts
      split at parts
      next => cases parts
      next full =>
        cases parts
        simp only [Bool.or_eq_true, List.isEmpty_iff, not_or, ← List.length_pos_iff_ne_nil, List.length_take, List.length_drop] at full
        simp only [List.length_take, List.length_drop]
        omega

omit [DecimalArithmetic] [DecimalProducts] in
/-- Only the selected branch is evaluated. -/
def evalConditional (condition ifTrue ifFalse : Run σ (Eval × Option (List Bool))) : Run σ (Eval × Option (List Bool)) := do
  match (← condition).1 with
  | .normal (.boolean value) =>
    let (result, selected) ← if value then ifTrue else ifFalse
    pure (result, result.boolean?.map fun outcome => selected.getD [outcome])
  | .normal other => pure (.failed ("conditional expression requires Boolean condition, got " ++ other.typeName), none)
  | other => pure (other, none)

/-- A computation with its condition trace. The conditional operator binds less tightly than the other operators. -/
def evalComputationChain (evaluate : Node → Run σ Eval) (children : List Node) : Run σ (Eval × Option (List Bool)) :=
  match _found : conditionalParts children with
  | .flat => evalExprChain evaluate children
  | .malformed message => pure (.failed message, none)
  | .parts condition ifTrue ifFalse =>
    evalConditional (evalComputationChain evaluate condition) (evalComputationChain evaluate ifTrue)
      (evalComputationChain evaluate ifFalse)
termination_by children.length
decreasing_by
  · exact (conditionalParts_length _found).1
  · exact (conditionalParts_length _found).2.1
  · exact (conditionalParts_length _found).2.2

/-! ## Nodes of expressions -/

/-- The first assignment operator of a chain, with the operand before it and the chain behind it. -/
def assignmentParts (children : List Node) : Option (Node × String × List Node) :=
  (children.zipIdx.find? fun (child, index) =>
    index % 2 = 1 && child.kind = .binaryOperator && trim child.text ∈ [":=", "+=", "-=", "*=", "/="]).bind
  fun (operator, index) => children[index - 1]?.map fun target => (target, trim operator.text, children.drop (index + 1))

def evalExpressionNode (evaluate : Node → Run σ Eval) (proceed : Task → Run σ Eval) (node : Node) : Run σ Eval :=
  match node.children with
  | [] => pure (.failed "expression: no children")
  | [child] => evaluate child
  | children =>
    match assignmentParts children with
    | some (target, operator, chain) => do
      match (← evalComputationChain evaluate chain).1 with
      | .normal value => proceed (.assignment target operator value)
      | other => pure other
    | none => do
      let (result, trace) ← evalComputationChain evaluate children
      match trace with
      | some conditions => modifyGet fun ctx => (result, ctx.covSetExpressionTrace node conditions)
      | none => pure result

omit [DecimalArithmetic] [DecimalProducts] in
def evalUnary (evaluate : Node → Run σ Eval) (node : Node) : Run σ Eval :=
  match node.children with
  | [] => pure (.failed "unary expression: empty node")
  | [inner] => evaluate inner
  | operator :: operand :: _ => do
    match ← evaluate operand with
    | .normal value => pure (.ofExcept (applyUnary (unaryOp operator.operatorText) value))
    | other => pure other

omit [DecimalArithmetic] [DecimalProducts] in
/-- Calls and the forms with suffixes are left to the remaining interpreter. -/
def evalPostfix (evaluate : Node → Run σ Eval) (proceed : Task → Run σ Eval) (node : Node) : Run σ Eval :=
  if node.isCallPostfix then proceed (.leaf node)
  else
    match node.children with
    | [] => pure (.failed "empty postfix expression")
    | [inner] => evaluate inner
    | _ => proceed (.leaf node)

omit [DecimalArithmetic] [DecimalProducts] in
def evalWrapper (evaluate : Node → Run σ Eval) (node : Node) : Run σ Eval :=
  match node.children with
  | [] => pure (.failed "empty expression wrapper")
  | inner :: _ => evaluate inner

def evalExprInner (evaluate : Node → Run σ Eval) (proceed : Task → Run σ Eval) (node : Node) : Run σ Eval :=
  match node.kind with
  | .expression => evalExpressionNode evaluate proceed node
  | .postfixExpression => evalPostfix evaluate proceed node
  | .caseLabelExpression =>
    if 1 < node.children.length then evalExpressionNode evaluate proceed node else evalWrapper evaluate node
  | .parenthesizedExpression | .primaryExpression => evalWrapper evaluate node
  | .unaryExpression => evalUnary evaluate node
  | _ => proceed (.leaf node)

end Expressions

end AlLanguage.Interpreter
