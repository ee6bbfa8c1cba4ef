import AlLanguage.Interpreter.ChainSemantics
import AlLanguage.Interpreter.TracedNodes

/-!
# Recorded condition vectors

- With coverage and without it every statement has the same result and leaves the same state.
- In a clean run every decision records the values that its atomic conditions took, in source order. All vectors of a decision have one
  width.
- A procedure that is called by a condition can leave a trace of other bytes with the same offsets, and a conditional whose branch ends
  in a logical operator records the conditions of the branch.
-/

namespace AlLanguage.Interpreter

open Library
open AlLanguage.Runtime (Value Coverage Record Observed DecimalArithmetic DecimalProducts)

/-! ## Widths -/

theorem treeWidth_pos {tree : OperatorTree Node String} {widths : ∀ node ∈ tree.operands, Nat}
    (positive : ∀ node inside, 0 < widths node inside) : 0 < treeWidth tree widths := by
  induction tree with
  | operand node => exact positive node _
  | binary operator left right ih_left _ =>
    rw [treeWidth]
    split
    · exact Nat.add_pos_left (ih_left fun node inside => positive node _) _
    · exact Nat.one_pos

theorem chainWidth_pos {children : List Node} (positive : ∀ child ∈ children, 0 < width child) : 0 < chainWidth children := by
  rw [chainWidth]
  split
  next read => exact treeWidth_pos fun operand inside => positive operand (chainTree_mem read inside)
  next => exact Nat.one_pos

theorem width_pos (node : Node) : 0 < width node := by
  have own : (∀ inner, node.role ≠ .wrapper inner) → (∀ operator operand, node.role ≠ .unary operator operand) →
      node.role ≠ .computation → 0 < width node := by
    intro wrapper unary computation
    rw [width_own wrapper unary computation]
    exact Nat.one_pos
  cases role : node.role with
  | wrapper inner =>
    rw [width_wrapper role]
    exact width_pos inner
  | unary operator operand =>
    rw [width_unary role]
    exact width_pos operand
  | computation =>
    rw [width_computation role]
    split
    · exact Nat.one_pos
    · exact chainWidth_pos fun child inside => width_pos child
  | missing message => exact own (by simp [role]) (by simp [role]) (by simp [role])
  | assignment target operator chain => exact own (by simp [role]) (by simp [role]) (by simp [role])
  | leaf => exact own (by simp [role]) (by simp [role]) (by simp [role])
termination_by sizeOf node
decreasing_by
  · exact sizeOf_child (List.mem_of_mem_head? (role_wrapper role))
  · obtain ⟨_, _, children⟩ := role_unary role
    exact sizeOf_child (by simp [children])
  · exact sizeOf_child inside

/-! ## Decisions -/

section Decisions

variable {σ : Type} {base : Collected} {k : Nat} {known : Prop}

/-- One more map is open while a condition is evaluated with coverage. -/
def Collected.inside (base : Collected) (k : Nat) : Nat := if base.coverage.isSome then k + 1 else k

theorem deep_inside (base : Collected) (k : Nat) : Deep base (base.inside k) true := by
  intro _ on
  rw [Collected.inside, if_pos on]
  exact Nat.succ_pos k

theorem lockstep_open : Lockstep (Tracks base k known) (covBeginConditionTrace : Run σ Unit) (tell .opened : Exact σ Unit)
    fun _ _ => Tracks base (base.inside k) known := by
  apply Lockstep.modify
  intro ctx told tracks
  have event : base.collectAll (.opened :: told.log) = (base.collectAll told.log).collect .opened := rfl
  have on : (base.collectAll told.log).coverage.isSome = base.coverage.isSome := Collected.isSome_collectAll base told.log
  rw [Collected.inside, tracks.covered]
  split
  next covered =>
    rw [Collected.collect, on, if_pos covered] at event
    exact {
      state := tracks.state
      frames := by rw [event]; exact .cons (fun _ => by simp) tracks.frames
      depth := congrArg Nat.succ tracks.depth
      covered := tracks.covered
      coverage := fun clean => by rw [event] at clean ⊢; exact tracks.coverage clean
      fits := List.forall_mem_cons.mpr ⟨trivial, tracks.fits⟩
      known := fun clean => by rw [event] at clean; exact tracks.known clean }
  next off =>
    rw [Collected.collect, on, if_neg off] at event
    exact {
      state := tracks.state
      frames := by rw [event]; exact tracks.frames
      depth := tracks.depth
      covered := tracks.covered
      coverage := fun clean => by rw [event] at clean ⊢; exact tracks.coverage clean
      fits := List.forall_mem_cons.mpr ⟨trivial, tracks.fits⟩
      known := fun clean => by rw [event] at clean; exact tracks.known clean }

theorem Tracks.close {ctx : DispatchCtx σ} {told : Told σ} (tracks : Tracks base (k + 1) known ctx told) (on : base.coverage.isSome = true)
    {decision condition : Node} {observed : Option Observed} (fits : Event.Fits (.closed decision condition observed))
    {coverage : Option Coverage} (covered : coverage.isSome = true)
    (exact_ : (base.collectAll told.log).clean = true → coverage = ctx.coverage.map (observe decision observed)) :
    Tracks base k known { ctx with coverage := coverage, conditionTraceStack := ctx.conditionTraceStack.tail }
      { told with log := .closed decision condition observed :: told.log } := by
  have event : base.collectAll (.closed decision condition observed :: told.log) =
      (base.collectAll told.log).collect (.closed decision condition observed) := rfl
  rw [Collected.collect, Collected.isSome_collectAll, if_pos on] at event
  refine {
    state := tracks.state
    frames := ?_
    depth := ?_
    covered := covered.trans on.symm
    coverage := ?_
    fits := List.forall_mem_cons.mpr ⟨fits, tracks.fits⟩
    known := ?_ }
  · rw [event]
    have before := tracks.frames
    revert before
    cases ctx.conditionTraceStack <;> cases (base.collectAll told.log).frames <;> simp
  · rw [List.length_tail, tracks.depth, Nat.add_sub_cancel]
  · intro clean
    rw [event] at clean ⊢
    rw [exact_ clean, tracks.coverage clean]
  · intro clean
    rw [event] at clean
    exact tracks.known clean

theorem Tracks.closeOff {ctx : DispatchCtx σ} {told : Told σ} (tracks : Tracks base k known ctx told) (off : base.coverage.isSome = false)
    {decision condition : Node} {observed : Option Observed} (fits : Event.Fits (.closed decision condition observed)) :
    Tracks base k known ctx { told with log := .closed decision condition observed :: told.log } := by
  have event : base.collectAll (.closed decision condition observed :: told.log) =
      (base.collectAll told.log).collect (.closed decision condition observed) := rfl
  rw [Collected.collect, Collected.isSome_collectAll, off, if_neg Bool.false_ne_true] at event
  exact {
    state := tracks.state
    frames := by rw [event]; exact tracks.frames
    depth := tracks.depth
    covered := tracks.covered
    coverage := fun clean => by rw [event] at clean ⊢; exact tracks.coverage clean
    fits := List.forall_mem_cons.mpr ⟨fits, tracks.fits⟩
    known := fun clean => by rw [event] at clean; exact tracks.known clean }

/-- An observation changes the coverage only, and adds a vector that is not empty. -/
theorem covRecordConditionObservation_run (decision : Node) (conditions : Option (List Bool)) (outcome : Bool) (ctx : DispatchCtx σ) :
    ∃ coverage, covRecordConditionObservation decision conditions outcome ctx = some ((), { ctx with coverage := coverage }) ∧
      coverage.isSome = ctx.coverage.isSome ∧
      ∀ found, conditions = some found → 0 < found.length → coverage = ctx.coverage.map (observe decision (some ⟨found, outcome⟩)) := by
  unfold covRecordConditionObservation
  cases something : conditions.filter fun conditions => !conditions.isEmpty with
  | none =>
    refine ⟨ctx.coverage, rfl, rfl, ?_⟩
    rintro found rfl positive
    rw [Option.filter_some, if_pos (by simpa [← List.length_pos_iff_ne_nil] using positive)] at something
    cases something
  | some kept =>
    refine ⟨_, rfl, Option.isSome_map, ?_⟩
    rintro found rfl _
    obtain ⟨same, _⟩ := Option.filter_eq_some_iff.mp something
    cases same
    rfl

theorem covFinishConditionTrace_run (condition : Node) (ctx : DispatchCtx σ) :
    covFinishConditionTrace condition ctx =
      some (if ctx.coverage.isNone then (none, ctx)
        else (ctx.covExpressionTrace condition, { ctx with conditionTraceStack := ctx.conditionTraceStack.tail })) := rfl

theorem lockstep_close {condition decision : Node} (listed : decision.condition? = some condition) (result : Eval) (found : Eval × List Bool) :
    Lockstep (Found base (base.inside k) known true condition result found)
      (do
        let trace ← covFinishConditionTrace condition
        match result.boolean? with
        | some outcome =>
          covRecordConditionObservation decision trace outcome
          pure result
        | none => pure result : Run σ Eval)
      (do
        tell (.closed decision condition (found.1.boolean?.map fun outcome => ⟨found.2, outcome⟩))
        pure found.1 : Exact σ Eval)
      (fun a b ctx told => a = b ∧ Tracks base k known ctx told) := by
  intro ctx told both
  obtain ⟨result', conditions⟩ := found
  obtain rfl : result = result' := both.same
  have tracks := both.tracks
  have fits : Event.Fits (.closed decision condition (result.boolean?.map fun outcome => ⟨conditions, outcome⟩)) := by
    cases is : result.boolean? with
    | none => trivial
    | some outcome => exact ⟨listed, both.width (by rw [is]; rfl)⟩
  cases on : base.coverage.isSome with
  | false =>
    have covered : ctx.coverage.isNone = true := by rw [← Option.not_isSome, tracks.covered, on]; rfl
    rw [Collected.inside, on, if_neg Bool.false_ne_true] at tracks
    have closed := tracks.closeOff on fits
    rw [bind_run, covFinishConditionTrace_run, if_pos covered]
    cases is : result.boolean? with
    | none =>
      rw [is] at closed
      exact .some ⟨rfl, closed⟩
    | some outcome =>
      rw [is] at closed
      exact .some ⟨rfl, closed⟩
  | true =>
    have covered : ctx.coverage.isNone = false := by rw [← Option.not_isSome, tracks.covered, on]; rfl
    rw [Collected.inside, if_pos on] at tracks
    rw [bind_run, covFinishConditionTrace_run, covered, if_neg Bool.false_ne_true]
    cases is : result.boolean? with
    | none =>
      have same : ctx.coverage = ctx.coverage.map (observe decision none) := by
        cases ctx.coverage with
        | none => rfl
        | some coverage => rfl
      rw [is] at fits
      exact .some ⟨rfl, tracks.close on fits (tracks.covered.trans on) fun _ => same⟩
    | some outcome =>
      rw [is] at fits
      obtain ⟨coverage, run, isSome, observed⟩ := covRecordConditionObservation_run decision (ctx.covExpressionTrace condition) outcome
        { ctx with conditionTraceStack := ctx.conditionTraceStack.tail }
      have recorded : (base.collectAll told.log).clean = true → coverage = ctx.coverage.map (observe decision (some ⟨conditions, outcome⟩)) := by
        intro clean
        have boolean : result.boolean?.isSome = true := by rw [is]; rfl
        have positive : 0 < conditions.length := (both.width boolean).symm ▸ width_pos condition
        exact observed conditions (both.traced boolean rfl on clean) positive
      have closed := tracks.close on fits (isSome.trans (tracks.covered.trans on)) recorded
      dsimp only [Option.bind_some]
      rw [bind_run, run]
      exact .some ⟨rfl, closed⟩

theorem same_decision {evaluate : Node → Run σ Eval} {exact_ : Bool → Node → Exact σ (Eval × List Bool)}
    (follow : ∀ k, Follow base k evaluate exact_) {condition decision : Node} (listed : decision.condition? = some condition) :
    Same base k known (evalDecisionCondition evaluate condition decision) (exactDecision exact_ condition decision) := by
  apply Lockstep.bind lockstep_open
  intro _ _
  apply Lockstep.bind (follow (base.inside k) known true condition (deep_inside base k))
  intro result found
  exact lockstep_close listed result found

end Decisions

/-! ## Standalone expressions -/

section Standalone

variable {σ : Type} {base : Collected} {k : Nat} {known : Prop}

theorem collectAll_append (base : Collected) (log log' : List Event) : base.collectAll (log ++ log') = (base.collectAll log').collectAll log :=
  List.foldr_append

/-- Without coverage the log changes the spans with a trace only, and only when a trace is written. -/
theorem collectAll_wrote {base paused : Collected} (off : paused.coverage = none) (same : paused.frames = base.frames) (log : List Event) :
    (base.collectAll (log.filter isWrote)).frames = (paused.collectAll log).frames ∧
      (base.collectAll (log.filter isWrote)).coverage = base.coverage ∧ (base.collectAll (log.filter isWrote)).clean = base.clean := by
  induction log with
  | nil => exact ⟨same.symm, rfl, rfl⟩
  | cons event log ih =>
    obtain ⟨frames, coverage, clean⟩ := ih
    have none_ : (paused.collectAll log).coverage.isSome = false := by rw [Collected.isSome_collectAll, off]; rfl
    have last : paused.collectAll (event :: log) = (paused.collectAll log).collect event := rfl
    rw [last]
    cases event with
    | wrote span => exact ⟨congrArg (List.modifyHead (span :: ·)) frames, coverage, clean⟩
    | read unread => exact ⟨frames, coverage, clean⟩
    | branch logical => exact ⟨frames, coverage, clean⟩
    | record r => exact ⟨frames, coverage, clean⟩
    | opened =>
      rw [Collected.collect, none_, if_neg Bool.false_ne_true]
      exact ⟨frames, coverage, clean⟩
    | closed decision condition observed =>
      rw [Collected.collect, none_, if_neg Bool.false_ne_true]
      exact ⟨frames, coverage, clean⟩

theorem same_standalone {evaluate : Node → Run σ Eval} {exact_ : Bool → Node → Exact σ (Eval × List Bool)}
    (follow : ∀ base k, Follow base k evaluate exact_) (node : Node) :
    Same base k known (evalStandaloneExpression evaluate node) (exactStandalone exact_ node) := by
  intro ctx told tracks
  let paused : Collected := ⟨none, (base.collectAll told.log).frames, true⟩
  have start : Tracks paused k True { ctx with coverage := none } { told with log := [] } := {
    state := tracks.state
    frames := tracks.frames
    depth := tracks.depth
    covered := rfl
    coverage := fun _ => rfl
    fits := List.forall_mem_nil _
    known := fun _ => trivial }
  have runs := follow paused k True false node (fun watch => nomatch watch) start
  apply rel_map runs
  rintro ⟨result, after⟩ ⟨found, after'⟩ both
  refine ⟨both.same, ?_⟩
  have same_frames : paused.frames = (base.collectAll told.log).frames := rfl
  obtain ⟨frames, coverage, clean⟩ := collectAll_wrote rfl same_frames after'.log
  rw [← collectAll_append] at frames coverage clean
  refine {
    state := both.tracks.state
    frames := by rw [frames]; exact both.tracks.frames
    depth := both.tracks.depth
    covered := tracks.covered
    coverage := fun is_clean => by rw [coverage]; exact tracks.coverage (clean.symm.trans is_clean)
    fits := ?_
    known := ?_ }
  · intro event inside
    obtain inside | inside := List.mem_append.mp inside
    · exact both.tracks.fits event (List.mem_of_mem_filter inside)
    · exact tracks.fits event inside
  · intro is_clean
    apply tracks.known
    exact clean.symm.trans is_clean

end Standalone

/-! ## Runs -/

section Runs

variable {σ : Type} [Remaining σ] [DecimalArithmetic] [DecimalProducts]

/-- The evaluation of expressions and statements, by induction on the turns. -/
theorem follow_eval (turns : Nat) :
    (∀ base k, Follow (σ := σ) base k (evalExpr turns) (exactExpr turns)) ∧
      ∀ base k known node, Same (σ := σ) base k known (evalStmt turns node) (exactStmt turns node) := by
  induction turns with
  | zero =>
    refine ⟨?_, ?_⟩
    · intro base k known watched node _ ctx told _
      exact .none
    · intro base k known node
      exact same_outOfTurns
  | succ turns ih =>
    obtain ⟨expressions, statements⟩ := ih
    have tasks : ∀ base k known task, Same (σ := σ) base k known
        (runTask (evalExpr turns) (evalStandaloneExpression (evalExpr turns)) (evalStmt turns) turns task)
        (runTask (unwatched (exactExpr turns)) (exactStandalone (exactExpr turns)) (exactStmt turns) turns task) := by
      intro base k known task
      apply same_runTask
      · intro node
        rw [← bind_pure (evalExpr turns node)]
        apply Lockstep.bind (expressions base k known false node fun watch => nomatch watch)
        intro result found
        exact Lockstep.pure fun _ _ both => ⟨both.same, both.tracks⟩
      · exact same_standalone expressions
      · exact statements base k known
    refine ⟨?_, ?_⟩
    · intro base k
      exact follow_step (expressions base k) (tasks base k)
    · intro base k known node
      apply same_evalStmtStep
      · intro condition decision listed
        exact same_decision (expressions base) listed
      · exact statements base k known
      · exact tasks base k known

/-- A run begins without an open decision. -/
def DispatchCtx.start (state : EvalState σ) (coverage : Option Coverage) : DispatchCtx σ := ⟨state, coverage, []⟩

def Collected.start (coverage : Option Coverage) : Collected := ⟨coverage, [], true⟩

/-- The result of a run and the state that it leaves, coverage and traces apart. -/
def outcome (run : Eval × DispatchCtx σ) : Eval × EvalState σ := (run.1, run.2.toEvalState)

/-- The coverage after a run, if it was collected in `before`: every decision has recorded the values of its atomic conditions, and as
many of them whenever it was evaluated. -/
structure ExactVectors (before : Option Coverage) (log : List Event) (after : Option Coverage) : Prop where
  recorded : after = ((Collected.start before).collectAll log).coverage
  width : ∀ decision condition observed, .closed decision condition (some observed) ∈ log →
    decision.condition? = some condition ∧ observed.conditions.length = width condition

omit [Remaining σ] [DecimalArithmetic] [DecimalProducts] in
theorem tracks_start (state : EvalState σ) (coverage : Option Coverage) :
    Tracks (Collected.start coverage) 0 True (DispatchCtx.start state coverage) { toEvalState := state, log := [] } where
  state := rfl
  frames := .nil
  depth := rfl
  covered := rfl
  coverage _ := rfl
  fits := List.forall_mem_nil _
  known _ := trivial

theorem evalStmt_outcome (state : EvalState σ) (coverage : Option Coverage) (turns : Nat) (node : Node) :
    (evalStmt turns node (DispatchCtx.start state coverage)).map outcome =
      (exactStmt turns node { toEvalState := state, log := [] }).map fun run => (run.1, run.2.toEvalState) := by
  have same := (follow_eval turns).2 (Collected.start coverage) 0 True node (tracks_start state coverage)
  apply map_eq_of_rel same
  rintro ⟨result, ctx⟩ ⟨result', told⟩ ⟨results, tracks⟩
  exact Prod.ext results tracks.state

/-- Coverage changes no result, and in a clean run the recorded condition vectors are exact. -/
theorem vectors_exact (state : EvalState σ) (coverage : Option Coverage) (turns : Nat) (node : Node) :
    (evalStmt turns node (DispatchCtx.start state coverage)).map outcome =
        (evalStmt turns node (DispatchCtx.start state none)).map outcome ∧
      ∀ result after, evalStmt turns node (DispatchCtx.start state coverage) = some (result, after) →
        ∃ told, exactStmt turns node { toEvalState := state, log := [] } = some (result, told) ∧
          (((Collected.start coverage).collectAll told.log).clean = true → ExactVectors coverage told.log after.coverage) := by
  refine ⟨?_, ?_⟩
  · rw [evalStmt_outcome, evalStmt_outcome]
  · intro result after run
    have same := (follow_eval turns).2 (Collected.start coverage) 0 True node (tracks_start state coverage)
    rw [run] at same
    cases exact_ : exactStmt turns node { toEvalState := state, log := [] } with
    | none =>
      rw [exact_] at same
      cases same
    | some found =>
      rw [exact_] at same
      obtain ⟨result', told⟩ := found
      obtain ⟨results, tracks⟩ := Option.rel_some_some.mp same
      cases results
      refine ⟨told, rfl, ?_⟩
      intro clean
      refine {
        recorded := tracks.coverage clean
        width := ?_ }
      intro decision condition observed inside
      exact tracks.fits _ inside

end Runs

/-! ## Samples -/

section Samples

attribute [local instance] DecimalArithmetic.plain DecimalProducts.plain

/-- Variables, procedures that consist of one `exit` statement, and what is still to be done. -/
structure Sample where
  values : List (String × Value)
  procedures : List (String × Node)
  pending : List Request

instance : Remaining Sample where
  begin
    | .leaf node, s =>
      match s.procedures.lookup node.text with
      | some body => { s with pending := .statement body :: s.pending }
      | none => { s with pending := .finished (.normal ((s.values.lookup node.text).getD .empty)) :: s.pending }
    | .statement node, s =>
      match node.children with
      | [argument] => { s with pending := .expression argument :: s.pending }
      | _ => { s with pending := .finished (.normal .empty) :: s.pending }
    | .assignment _ _ value, s => { s with pending := .finished (.normal value) :: s.pending }
  next s := (s.pending.headD (.finished (.failed "nothing to do")), { s with pending := s.pending.tail })
  resume
    | .normal value, s => { s with pending := .finished (.exit value) :: s.pending }
    | .exit value, s => { s with pending := .finished (.normal value) :: s.pending }
    | other, s => { s with pending := .finished other :: s.pending }
  isCancelled s := (false, s)
  deadlineExceeded s := (false, s)

def sampleState (values : List (String × Bool)) (procedures : List (String × Node)) : EvalState Sample :=
  ⟨⟨values.map fun (name, b) => (name, .boolean b), procedures, []⟩, 0, 0⟩

def ifOf (startByte endByte : Nat) (condition : Node) : Node :=
  ⟨.emptyIfStatement, "", startByte, endByte, 4, [{ condition with fieldName := "condition" }], ""⟩

/-- `if Other.F() and a then;` -/
def callAnd : Node :=
  ifOf 98 122 ⟨.expression, "", 101, 116, 4, [
    ⟨.postfixExpression, "Other.F()", 101, 110, 4, [nameAt "Other" 101, ⟨.memberCallSuffix, ".F()", 106, 110, 4, [], ""⟩], ""⟩,
    operatorAt "and" 111, nameAt "a" 115], ""⟩

/-- `exit(not z);` in the other file. -/
def exitNot (startByte : Nat) : Node :=
  ⟨.other "exit_statement", "exit(not z);", startByte, startByte + 12, 8,
    [⟨.unaryExpression, "not z", startByte + 5, startByte + 10, 8,
      [⟨.unaryOperator, "not", startByte + 5, startByte + 8, 8, [], ""⟩, nameAt "z" (startByte + 9)], ""⟩], ""⟩

/-- `if a ? b and c : d then;` -/
def choice : Node :=
  ifOf 111 135 ⟨.expression, "", 114, 129, 4, [nameAt "a" 114, operatorAt "?" 116, nameAt "b" 118, operatorAt "and" 120,
    nameAt "c" 124, operatorAt ":" 126, nameAt "d" 128], ""⟩

/-- The callee begins at the given byte of its file. -/
def calledAt (startByte : Nat) : EvalState Sample := sampleState [("a", true), ("z", false)] [("Other.F()", exitNot startByte)]

def observations (coverage : Option Coverage) : List Observed :=
  (coverage.map fun c => c.branches.values.flatMap fun lines => lines.values.flatMap fun tally => tally.conditionObservations.keys).getD []

theorem vectors_exact_calledAt : ∃ result after told,
    evalStmt 12 callAnd (DispatchCtx.start (calledAt 206) (some .new)) = some (result, after) ∧
      exactStmt 12 callAnd { toEvalState := calledAt 206, log := [] } = some (result, told) ∧
      ExactVectors (some .new) told.log after.coverage := by
  have ends : (evalStmt 12 callAnd (DispatchCtx.start (calledAt 206) (some .new))).isSome = true := by decide +kernel
  have clean : (exactStmt 12 callAnd { toEvalState := calledAt 206, log := [] }).map
      (fun run => ((Collected.start (some .new)).collectAll run.2.log).clean) = some true := by decide +kernel
  obtain ⟨⟨result, after⟩, run⟩ := Option.isSome_iff_exists.mp ends
  obtain ⟨told, exact_, exactly⟩ := (vectors_exact (calledAt 206) (some .new) 12 callAnd).2 result after run
  rw [exact_] at clean
  exact ⟨result, after, told, run, exact_, exactly (Option.some.inj clean)⟩

/-- The callee leaves the trace of `z` at the offsets of `a`, which is true. A conditional of a decision is recorded as two conditions or
as one. -/
theorem vectors_stale :
    (∃ result after told, evalStmt 12 callAnd (DispatchCtx.start (calledAt 106) (some .new)) = some (result, after) ∧
      exactStmt 12 callAnd { toEvalState := calledAt 106, log := [] } = some (result, told) ∧
      observations after.coverage = [⟨[true, false], true⟩] ∧
      observations ((Collected.start (some .new)).collectAll told.log).coverage = [⟨[true, true], true⟩] ∧
      ¬ExactVectors (some .new) told.log after.coverage) ∧
    ((evalStmt 12 choice (DispatchCtx.start (sampleState [("a", true), ("b", true), ("c", false), ("d", false)] []) (some .new))).bind fun run =>
      (evalStmt 12 choice (DispatchCtx.start (sampleState [("a", false), ("b", true), ("c", false), ("d", false)] []) run.2.coverage)).map
        fun run => observations run.2.coverage) = some [⟨[false], false⟩, ⟨[true, false], false⟩] := by
  refine ⟨?_, by decide +kernel⟩
  have recorded : (evalStmt 12 callAnd (DispatchCtx.start (calledAt 106) (some .new))).map (fun run => observations run.2.coverage) =
      some [⟨[true, false], true⟩] := by decide +kernel
  have took : (exactStmt 12 callAnd { toEvalState := calledAt 106, log := [] }).map
      (fun run => observations ((Collected.start (some .new)).collectAll run.2.log).coverage) = some [⟨[true, true], true⟩] := by decide +kernel
  obtain ⟨⟨result, after⟩, run, recorded⟩ := Option.map_eq_some_iff.mp recorded
  obtain ⟨⟨result', told⟩, exact_, took⟩ := Option.map_eq_some_iff.mp took
  have results := evalStmt_outcome (calledAt 106) (some .new) 12 callAnd
  rw [run, exact_] at results
  cases (Prod.ext_iff.mp (Option.some.inj results)).1
  refine ⟨result, after, told, run, exact_, recorded, took, ?_⟩
  intro exactly
  rw [exactly.recorded, took] at recorded
  cases recorded

end Samples

end AlLanguage.Interpreter
