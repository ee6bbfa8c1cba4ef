import AlLanguage.Interpreter.ChainTrees
import AlLanguage.Library.Lockstep

/-!
# Runs with and without maps of traces

The interpreter and its exact version run in lockstep. The spans with a trace and, as long as the run is clean, the traces of the
conditions themselves follow from the log.
-/

namespace AlLanguage.Interpreter

open Library
open AlLanguage.Runtime (Value Coverage Record Observed DecimalArithmetic DecimalProducts)

/-! ## Logs and contexts -/

def Node.condition? (node : Node) : Option Node :=
  if node.kind = .repeatStatement then node.part "condition" 1 else node.part "condition" 0

/-- A vector is as wide as the condition of its decision. -/
def Event.Fits : Event → Prop
  | .closed decision condition (some observed) => decision.condition? = some condition ∧ observed.conditions.length = width condition
  | _ => True

namespace Collected

theorem isSome_collectAll (base : Collected) (log : List Event) :
    (base.collectAll log).coverage.isSome = base.coverage.isSome := by
  induction log with
  | nil => rfl
  | cons event log ih =>
    change ((base.collectAll log).collect event).coverage.isSome = _
    rw [← ih]
    cases event with
    | wrote span => rfl
    | read unread => rfl
    | branch logical => rfl
    | opened =>
      rw [collect]
      split
      · rfl
      · rfl
    | closed decision condition observed =>
      rw [collect]
      split
      · exact Option.isSome_map
      · rfl
    | record r => exact Option.isSome_map

theorem clean_of_collect {c : Collected} {event : Event} (clean : (c.collect event).clean = true) : c.clean = true := by
  cases event with
  | wrote span => exact clean
  | read unread => exact (Bool.and_eq_true_iff.mp clean).1
  | branch logical => exact (Bool.and_eq_true_iff.mp clean).1
  | opened =>
    rw [collect] at clean
    split at clean
    · exact clean
    · exact clean
  | closed decision condition observed =>
    rw [collect] at clean
    split at clean
    · exact clean
    · exact clean
  | record r => exact clean

end Collected

/-- The spans with a trace in a map. -/
def Holds (traces : Traces) (spans : List Span) : Prop := ∀ span, (traces span).isSome = true ↔ span ∈ spans

/-- A context follows from the log of the exact run, `k` decisions deep. `known` holds of what has happened as long as the run is
clean. -/
structure Tracks {σ : Type} (base : Collected) (k : Nat) (known : Prop) (ctx : DispatchCtx σ) (told : Told σ) : Prop where
  state : ctx.toEvalState = told.toEvalState
  frames : List.Forall₂ Holds ctx.conditionTraceStack (base.collectAll told.log).frames
  depth : ctx.conditionTraceStack.length = k
  covered : ctx.coverage.isSome = base.coverage.isSome
  coverage : (base.collectAll told.log).clean = true → ctx.coverage = (base.collectAll told.log).coverage
  fits : ∀ event ∈ told.log, event.Fits
  known : (base.collectAll told.log).clean = true → known

theorem Tracks.weaken {σ : Type} {base : Collected} {k : Nat} {known known' : Prop} {ctx : DispatchCtx σ} {told : Told σ}
    (tracks : Tracks base k known ctx told) (weaker : known → known') : Tracks base k known' ctx told :=
  { tracks with known := fun clean => weaker (tracks.known clean) }

/-! ## The parts without traces -/

section Shared

variable {σ : Type} {base : Collected} {k : Nat} {known : Prop}

/-- Equal results in lockstep. -/
abbrev Same (base : Collected) (k : Nat) (known : Prop) {α : Type} (m : Run σ α) (n : Exact σ α) : Prop := Alike (Tracks base k known) m n

theorem same_onState {α : Type} (f : EvalState σ → Option (α × EvalState σ)) :
    Same base k known (onState f : Run σ α) (onState f : Exact σ α) := by
  intro ctx told tracks
  change Option.Rel _ ((f ctx.toEvalState).map _) ((f told.toEvalState).map _)
  rw [tracks.state]
  cases f told.toEvalState with
  | none => exact .none
  | some result => exact .some ⟨rfl, { tracks with state := rfl }⟩

theorem same_record (r : Record) : Same base k known (record r : Run σ Unit) (record r : Exact σ Unit) := by
  intro ctx told tracks
  refine .some ⟨rfl, ?_⟩
  exact {
    tracks with
    covered := Option.isSome_map.trans tracks.covered
    coverage := fun clean => congrArg (Option.map _) (tracks.coverage clean)
    fits := List.forall_mem_cons.mpr ⟨trivial, tracks.fits⟩ }

theorem same_outOfTurns {α : Type} : Same base k known (outOfTurns : Run σ α) (outOfTurns : Exact σ α) := same_onState _

theorem same_onRest {α : Type} (f : σ → α × σ) : Same base k known (onRest f : Run σ α) (onRest f : Exact σ α) := same_onState _

section Requests

variable [Remaining σ] {expression standalone statement : Node → Run σ Eval} {expression' standalone' statement' : Node → Exact σ Eval}

theorem same_runRequests (expressions : ∀ node, Same base k known (expression node) (expression' node))
    (standalones : ∀ node, Same base k known (standalone node) (standalone' node))
    (statements : ∀ node, Same base k known (statement node) (statement' node)) (turns : Nat) :
    Same base k known (runRequests expression standalone statement turns) (runRequests expression' standalone' statement' turns) := by
  induction turns with
  | zero => exact same_outOfTurns
  | succ turns ih =>
    have resumed : ∀ result : Eval, Same base k known
        (do onRest fun rest => ((), Remaining.resume result rest); runRequests expression standalone statement turns)
        (do onRest fun rest => ((), Remaining.resume result rest); runRequests expression' standalone' statement' turns) :=
      fun result => (same_onRest _).bind fun _ => ih
    apply (same_onRest _).bind
    intro request
    cases request with
    | finished result => exact .pure result
    | expression node => exact (expressions node).bind resumed
    | standalone node => exact (standalones node).bind resumed
    | statement node => exact (statements node).bind resumed
    | record r => exact (same_record r.1).bind fun _ => ih

theorem same_runTask (expressions : ∀ node, Same base k known (expression node) (expression' node))
    (standalones : ∀ node, Same base k known (standalone node) (standalone' node))
    (statements : ∀ node, Same base k known (statement node) (statement' node)) (turns : Nat) (task : Task) :
    Same base k known (runTask expression standalone statement turns task) (runTask expression' standalone' statement' turns task) :=
  (same_onRest _).bind fun _ => same_runRequests expressions standalones statements turns

end Requests

section Statements

variable {decide : Node → Node → Run σ Eval} {decide' : Node → Node → Exact σ Eval} {stmt : Node → Run σ Eval} {stmt' : Node → Exact σ Eval}

theorem same_evalIf {node : Node}
    (decides : ∀ condition, node.part "condition" 0 = some condition → Same base k known (decide condition node) (decide' condition node))
    (stmts : ∀ node, Same base k known (stmt node) (stmt' node)) :
    Same base k known (evalIf decide stmt node) (evalIf decide' stmt' node) := by
  rw [evalIf, evalIf]
  split
  · exact .pure _
  next condition found =>
    apply (decides condition found).bind
    intro result
    split
    · apply (same_record _).bind
      intro _
      split
      · exact stmts _
      · exact .pure _
    · exact .pure _
    · exact .pure _

theorem same_evalBody (stmts : ∀ node, Same base k known (stmt node) (stmt' node)) (body : Option Node) :
    Same base k known (evalBody stmt body) (evalBody stmt' body) := by
  cases body with
  | none => exact .pure _
  | some body =>
    apply (stmts body).bind
    intro result
    cases result with
    | normal value => exact .pure _
    | error info => exact .pure _
    | exit value => exact .pure _
    | break_ => exact .pure _
    | continue_ => exact .pure _

variable [Remaining σ]

theorem same_turnRefused (loop : String) : Same base k known (turnRefused loop : Run σ (Option Eval)) (turnRefused loop : Exact σ (Option Eval)) := by
  apply (same_onRest _).bind
  intro cancelled
  cases cancelled with
  | true => exact .pure _
  | false =>
    apply (same_onRest _).bind
    intro exceeded
    cases exceeded with
    | true => exact .pure _
    | false => exact .pure _

theorem same_whileLoop {node condition : Node} (decides : Same base k known (decide condition node) (decide' condition node))
    (stmts : ∀ node, Same base k known (stmt node) (stmt' node)) (body : Option Node) (turns : Nat) :
    Same base k known (whileLoop decide stmt node condition body turns) (whileLoop decide' stmt' node condition body turns) := by
  induction turns with
  | zero => exact same_outOfTurns
  | succ turns ih =>
    apply (same_turnRefused _).bind
    intro refused
    cases refused with
    | some refused => exact .pure _
    | none =>
      apply decides.bind
      intro result
      split
      · apply (same_record _).bind
        intro _
        split
        · apply (same_evalBody stmts body).bind
          intro next
          split
          · exact ih
          · exact .pure _
        · exact .pure _
      · exact .pure _

theorem same_repeatLoop {node : Node} {condition : Option Node}
    (decides : ∀ until_, condition = some until_ → Same base k known (decide until_ node) (decide' until_ node))
    (stmts : ∀ node, Same base k known (stmt node) (stmt' node)) (body : Option Node) (turns : Nat) :
    Same base k known (repeatLoop decide stmt node condition body turns) (repeatLoop decide' stmt' node condition body turns) := by
  induction turns with
  | zero => exact same_outOfTurns
  | succ turns ih =>
    apply (same_turnRefused _).bind
    intro refused
    cases refused with
    | some refused => exact .pure _
    | none =>
      apply (same_evalBody stmts body).bind
      intro next
      cases next with
      | error result => exact .pure _
      | ok _ =>
        cases condition with
        | none => exact .pure _
        | some condition =>
          apply (decides condition rfl).bind
          intro result
          split
          · apply (same_record _).bind
            intro _
            split
            · exact .pure _
            · exact ih
          · exact .pure _

theorem same_evalStmtStep {proceed : Task → Run σ Eval} {proceed' : Task → Exact σ Eval}
    (decides : ∀ condition decision, decision.condition? = some condition →
      Same base k known (decide condition decision) (decide' condition decision))
    (stmts : ∀ node, Same base k known (stmt node) (stmt' node)) (proceeds : ∀ task, Same base k known (proceed task) (proceed' task))
    (turns : Nat) (node : Node) :
    Same base k known (evalStmtStep decide stmt proceed turns node) (evalStmtStep decide' stmt' proceed' turns node) := by
  have inner : Same base k known (evalStmtInner decide stmt proceed turns node) (evalStmtInner decide' stmt' proceed' turns node) := by
    rw [evalStmtInner, evalStmtInner]
    split
    next kind => exact same_evalIf (fun condition found => decides condition node (by rw [Node.condition?, kind]; exact found)) stmts
    next kind => exact same_evalIf (fun condition found => decides condition node (by rw [Node.condition?, kind]; exact found)) stmts
    next kind =>
      rw [evalWhile, evalWhile]
      split
      · exact .pure _
      next condition found =>
        have listed : node.condition? = some condition := by
          rw [Node.condition?, kind]
          exact found
        exact same_whileLoop (decides condition node listed) stmts _ turns
    next kind => exact same_repeatLoop (fun until_ found => decides until_ node (by rw [Node.condition?, kind]; exact found)) stmts _ turns
    next => exact proceeds _
  apply (same_onState _).bind
  intro entered
  cases entered with
  | false => exact .pure _
  | true =>
    apply (same_record _).bind
    intro _
    apply (same_onState _).bind
    intro _
    apply inner.bind
    intro result
    apply (same_onState _).bind
    intro _
    exact .pure result

end Statements

end Shared

end AlLanguage.Interpreter
