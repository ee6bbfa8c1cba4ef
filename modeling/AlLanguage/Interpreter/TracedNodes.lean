import AlLanguage.Interpreter.TracedExpressions

/-!
# The traces of nodes

One level of the evaluator: what is evaluated of a node by its role, and the trace that it leaves.
-/

namespace AlLanguage.Interpreter

open Library
open AlLanguage.Runtime (Value applyUnary DecimalArithmetic DecimalProducts)

/-! ## Widths -/

theorem width_wrapper {node inner : Node} (role : node.role = .wrapper inner) : width node = width inner := by
  rw [width]
  split
  next found =>
    rw [role] at found
    cases found
    rfl
  next found =>
    rw [role] at found
    cases found
  next found =>
    rw [role] at found
    cases found
  next other _ _ => exact (other inner role).elim

theorem width_unary {node operator operand : Node} (role : node.role = .unary operator operand) : width node = width operand := by
  rw [width]
  split
  next found =>
    rw [role] at found
    cases found
  next found =>
    rw [role] at found
    cases found
    rfl
  next found =>
    rw [role] at found
    cases found
  next _ other _ => exact (other operator operand role).elim

theorem width_computation {node : Node} (role : node.role = .computation) :
    width node = if isConditional node.children then 1 else chainWidth node.children := by
  rw [width]
  split
  next found =>
    rw [role] at found
    cases found
  next found =>
    rw [role] at found
    cases found
  next =>
    split
    next flat =>
      rw [isConditional, flat, chainWidth]
      split
      next tree read =>
        rw [read]
        rfl
      next read =>
        rw [read]
        rfl
    next conditional =>
      rw [isConditional]
      split
      · exact (conditional ‹_›).elim
      · rfl
  next _ _ other => exact (other role).elim

theorem width_own {node : Node} (wrapper : ∀ inner, node.role ≠ .wrapper inner)
    (unary : ∀ operator operand, node.role ≠ .unary operator operand) (computation : node.role ≠ .computation) : width node = 1 := by
  rw [width]
  split
  next found => exact (wrapper _ found).elim
  next found => exact (unary _ _ found).elim
  next found => exact (computation found).elim
  next => rfl

/-! ## The evaluation by roles -/

section Roles

variable {σ : Type} [DecimalArithmetic] [DecimalProducts] (evaluate : Node → Run σ Eval) (proceed : Task → Run σ Eval)

def evalRole (node : Node) : Role → Run σ Eval
  | .missing message => pure (.failed message)
  | .wrapper inner => evaluate inner
  | .unary operator operand => do
    match ← evaluate operand with
    | .normal value => pure (.ofExcept (applyUnary (unaryOp operator.operatorText) value))
    | other => pure other
  | .assignment target operator chain => do
    match (← evalComputationChain evaluate chain).1 with
    | .normal value => proceed (.assignment target operator value)
    | other => pure other
  | .computation => do
    let (result, trace) ← evalComputationChain evaluate node.children
    match trace with
    | some conditions => modifyGet fun ctx => (result, ctx.covSetExpressionTrace node conditions)
    | none => pure result
  | .leaf => proceed (.leaf node)

theorem evalRole_computation {node : Node} {children : List Node} (is : node.children = children) :
    evalRole evaluate proceed node .computation = (do
      let (result, trace) ← evalComputationChain evaluate children
      match trace with
      | some conditions => modifyGet fun ctx => (result, ctx.covSetExpressionTrace node conditions)
      | none => pure result) := by
  subst is
  rfl

theorem evalExpressionNode_role (node : Node) : evalExpressionNode evaluate proceed node = evalRole evaluate proceed node node.chainRole := by
  unfold evalExpressionNode Node.chainRole
  match children : node.children with
  | [] => rfl
  | [child] => rfl
  | first :: second :: rest =>
    dsimp only
    cases assignmentParts (first :: second :: rest) with
    | some parts => rfl
    | none => exact (evalRole_computation evaluate proceed children).symm

theorem wrapper_role (node : Node) (message : String) :
    (match node.children with
      | [] => pure (.failed message)
      | inner :: _ => evaluate inner) = evalRole evaluate proceed node (node.wrapperRole message) := by
  unfold Node.wrapperRole
  cases node.children with
  | nil => rfl
  | cons inner rest => rfl

theorem evalUnary_role {node : Node} (unary : node.kind = .unaryExpression) :
    evalUnary evaluate node = evalRole evaluate proceed node node.role := by
  rw [Node.role, unary]
  unfold evalUnary Node.wrapperRole
  rcases node.children with _ | ⟨operator, _ | ⟨operand, rest⟩⟩ <;> rfl

theorem evalPostfix_role {node : Node} (postfix_ : node.kind = .postfixExpression) :
    evalPostfix evaluate proceed node = evalRole evaluate proceed node node.role := by
  rw [Node.role, postfix_]
  unfold evalPostfix Node.wrapperRole
  cases node.isCallPostfix with
  | true => rfl
  | false => rcases node.children with _ | ⟨first, _ | ⟨second, rest⟩⟩ <;> rfl

theorem evalExprInner_role (node : Node) : evalExprInner evaluate proceed node = evalRole evaluate proceed node node.role := by
  cases kind : node.kind with
  | expression =>
    rw [evalExprInner, Node.role, kind]
    exact evalExpressionNode_role evaluate proceed node
  | parenthesizedExpression =>
    rw [evalExprInner, Node.role, kind]
    exact wrapper_role evaluate proceed node _
  | primaryExpression =>
    rw [evalExprInner, Node.role, kind]
    exact wrapper_role evaluate proceed node _
  | caseLabelExpression =>
    rw [evalExprInner, Node.role, kind]
    dsimp only
    split
    · exact evalExpressionNode_role evaluate proceed node
    · exact wrapper_role evaluate proceed node _
  | unaryExpression =>
    rw [evalExprInner, kind]
    exact evalUnary_role evaluate proceed kind
  | postfixExpression =>
    rw [evalExprInner, kind]
    exact evalPostfix_role evaluate proceed kind
  | _ =>
    rw [evalExprInner, Node.role, kind]
    rfl

end Roles

/-! ## Traces and logs -/

section Traces

variable {σ : Type} {base : Collected} {k : Nat} {known : Prop} {ctx : DispatchCtx σ} {told : Told σ}

theorem read_clean {log : List Event} {unread : List Span} (clean : (base.collectAll (.read unread :: log)).clean = true) :
    (base.collectAll log).clean = true ∧
      (base.coverage.isSome = true → ∀ span ∈ unread, span ∉ (base.collectAll log).frames.headD []) := by
  have both : ((base.collectAll log).clean && ((base.collectAll log).coverage.isNone ||
      unread.all (· ∉ (base.collectAll log).frames.headD []))) = true := clean
  obtain ⟨before, absent⟩ := Bool.and_eq_true_iff.mp both
  refine ⟨before, ?_⟩
  intro on span inside
  rw [← Option.not_isSome, Collected.isSome_collectAll, on, Bool.not_true, Bool.false_or, List.all_eq_true] at absent
  exact of_decide_eq_true (absent span inside)

theorem Tracks.read (tracks : Tracks base k known ctx told) (unread : List Span) :
    Tracks base k known ctx { told with log := .read unread :: told.log } where
  state := tracks.state
  frames := tracks.frames
  depth := tracks.depth
  covered := tracks.covered
  coverage clean := tracks.coverage (read_clean clean).1
  fits := List.forall_mem_cons.mpr ⟨trivial, tracks.fits⟩
  known clean := tracks.known (read_clean clean).1

/-- A map that holds one more span. -/
theorem Tracks.ofFrames (tracks : Tracks base k known ctx told) (span : Span) {stack : List Traces}
    (frames : List.Forall₂ Holds stack ((base.collectAll told.log).frames.modifyHead (span :: ·))) :
    Tracks base k known { ctx with conditionTraceStack := stack } { told with log := .wrote span :: told.log } where
  state := tracks.state
  frames := frames
  depth := by
    have lengths := tracks.frames.length_eq
    rw [tracks.depth] at lengths
    rw [frames.length_eq, List.length_modifyHead, ← lengths]
  covered := tracks.covered
  coverage clean := tracks.coverage clean
  fits := List.forall_mem_cons.mpr ⟨trivial, tracks.fits⟩
  known clean := tracks.known clean

theorem Holds.update {traces : Traces} {spans : List Span} (holds : Holds traces spans) (span : Span) (conditions : List Bool) :
    Holds (Function.update traces span (some conditions)) (span :: spans) := by
  intro other
  rw [List.mem_cons]
  by_cases same : other = span
  · rw [same, Function.update_self]
    simp
  · rw [Function.update_of_ne same, holds other]
    simp [same]

theorem Holds.again {traces : Traces} {spans : List Span} (holds : Holds traces spans) {span : Span} (there : (traces span).isSome = true) :
    Holds traces (span :: spans) := by
  intro other
  rw [List.mem_cons, holds other]
  have inside := (holds span).mp there
  refine ⟨.inr, ?_⟩
  rintro (rfl | found)
  · exact inside
  · exact found

section Frames

variable {stack : List Traces} {frames : List (List Span)}

theorem holds_set (related : List.Forall₂ Holds stack frames) (span : Span) (conditions : List Bool) :
    List.Forall₂ Holds (stack.modifyHead fun traces => Function.update traces span (some conditions)) (frames.modifyHead (span :: ·)) := by
  cases related with
  | nil => exact .nil
  | cons holds below => exact .cons (holds.update span conditions) below

theorem holds_again (related : List.Forall₂ Holds stack frames) {span : Span} (there : stack = [] ∨ (stack.head?.bind (· span)).isSome = true) :
    List.Forall₂ Holds stack (frames.modifyHead (span :: ·)) := by
  cases related with
  | nil => exact .nil
  | cons holds below =>
    obtain none_ | there := there
    · cases none_
    · exact .cons (holds.again there) below

theorem holds_absent (related : List.Forall₂ Holds stack frames) {span : Span} (absent : span ∉ frames.headD []) :
    stack.head?.bind (· span) = none := by
  cases related with
  | nil => rfl
  | cons holds below =>
    rw [← Option.not_isSome_iff_eq_none]
    exact fun there => absent ((holds span).mp there)

end Frames

theorem Tracks.set (tracks : Tracks base k known ctx told) (node : Node) (conditions : List Bool) :
    Tracks base k known (ctx.covSetExpressionTrace node conditions) { told with log := .wrote node.span :: told.log } :=
  tracks.ofFrames node.span (holds_set tracks.frames node.span conditions)

theorem Tracks.again (tracks : Tracks base k known ctx told) {node : Node}
    (there : ctx.conditionTraceStack = [] ∨ (ctx.covExpressionTrace node).isSome = true) :
    Tracks base k known ctx { told with log := .wrote node.span :: told.log } :=
  tracks.ofFrames node.span (holds_again tracks.frames there)

theorem covExpressionTrace_set (positive : ctx.conditionTraceStack ≠ []) (node : Node) (conditions : List Bool) :
    (ctx.covSetExpressionTrace node conditions).covExpressionTrace node = some conditions := by
  rw [DispatchCtx.covExpressionTrace, DispatchCtx.covSetExpressionTrace]
  cases stack : ctx.conditionTraceStack with
  | nil => exact (positive stack).elim
  | cons traces below => exact Function.update_self _ _ _

/-! ## The trace that a node is given -/

def recordedTrace (ctx : DispatchCtx σ) (node : Node) (outcome : Bool) : List Bool :=
  (ctx.covExpressionTrace node).getD
    ((if isTransparent node then node.children.findSome? ctx.covExpressionTrace else none).getD [outcome])

theorem recordConditionTrace_run (node : Node) (result : Eval) (ctx : DispatchCtx σ) :
    recordConditionTrace node result ctx =
      some ((), if !ctx.covConditionTraceActive || (ctx.covExpressionTrace node).isSome then ctx
        else
          match result.boolean? with
          | some outcome =>
            ctx.covSetExpressionTrace node
              ((if isTransparent node then node.children.findSome? ctx.covExpressionTrace else none).getD [outcome])
          | none => ctx) := rfl

/-- The trace of a Boolean is recorded, unless there is one. -/
theorem recordConditionTrace_boolean (tracks : Tracks base k known ctx told) {node : Node} {result : Eval} {b : Bool}
    (is : result.boolean? = some b) : ∃ after, recordConditionTrace node result ctx = some ((), after) ∧
      Tracks base k known after { told with log := .wrote node.span :: told.log } ∧
      (0 < k → after.covExpressionTrace node = some (recordedTrace ctx node b)) := by
  rw [recordConditionTrace_run, is]
  refine ⟨_, rfl, ?_⟩
  by_cases inactive : ctx.conditionTraceStack = []
  · have none_ : (!ctx.covConditionTraceActive) = true := by rw [DispatchCtx.covConditionTraceActive, inactive]; rfl
    rw [if_pos (by rw [none_, Bool.true_or])]
    refine ⟨tracks.again (.inl inactive), ?_⟩
    intro deep
    rw [← tracks.depth, inactive] at deep
    cases deep
  · have active : (!ctx.covConditionTraceActive) = false := by
      rw [DispatchCtx.covConditionTraceActive, Bool.not_not, List.isEmpty_eq_false_iff]
      exact inactive
    rw [active, Bool.false_or, recordedTrace]
    cases before : ctx.covExpressionTrace node with
    | some conditions =>
      rw [if_pos Option.isSome_some]
      exact ⟨tracks.again (.inr (by rw [before]; rfl)), fun _ => before⟩
    | none =>
      rw [if_neg (by simp)]
      exact ⟨tracks.set node _, fun _ => covExpressionTrace_set inactive node _⟩

theorem recordConditionTrace_other {node : Node} {result : Eval} (other : result.boolean? = none) (ctx : DispatchCtx σ) :
    recordConditionTrace node result ctx = some ((), ctx) := by
  rw [recordConditionTrace_run, other, ite_self]

end Traces

theorem booleanOf_eq {value : Value} {b : Bool} (is : booleanOf value = some b) : value = .boolean b := by
  unfold booleanOf at is
  split at is
  · rw [Option.some.inj is]
  · cases is

/-! ## One level of the evaluator -/

section Steps

variable {σ : Type} {base : Collected} {k : Nat} {known : Prop} {evaluate : Node → Run σ Eval}
  {exact_ : Bool → Node → Exact σ (Eval × List Bool)} {proceed : Task → Run σ Eval} {proceed' : Task → Exact σ Eval}

/-- The two results of a node before its trace is recorded. -/
structure InnerFound (base : Collected) (k : Nat) (known : Prop) (watched : Bool) (node : Node) (result : Eval)
    (found : Eval × List Bool) (ctx : DispatchCtx σ) (told : Told σ) : Prop where
  same : result = found.1
  tracks : Tracks base k known ctx told
  width : result.boolean?.isSome = true → found.2.length = width node
  recorded : ∀ b, result.boolean? = some b → watched = true → base.coverage.isSome = true → (base.collectAll told.log).clean = true →
    (∀ span ∈ node.unread, span ∉ (base.collectAll told.log).frames.headD []) → recordedTrace ctx node b = found.2

theorem InnerFound.refused {watched : Bool} {node : Node} {result : Eval} (none_ : result.boolean? = none) {ctx : DispatchCtx σ}
    {told : Told σ} (tracks : Tracks base k known ctx told) : InnerFound base k known watched node result (result, []) ctx told where
  same := rfl
  tracks := tracks
  width boolean := by
    rw [none_] at boolean
    cases boolean
  recorded b is := by
    rw [none_] at is
    cases is

theorem transparent_wrapper {node inner : Node} (role : node.role = .wrapper inner) : isTransparent node = true := by
  rw [Node.role] at role
  rw [isTransparent]
  split at role
  next kind => rw [kind]
  next kind => rw [kind]
  next kind => rw [kind]
  next kind => rw [kind]
  next kind =>
    rw [kind]
    split at role
    next => cases role
    next plain =>
      rw [Bool.or_eq_true, not_or, Bool.not_eq_true] at plain
      dsimp only
      rw [plain.1]
      rfl
  next kind => rw [kind]
  next => cases role

/-- A node without a trace inherits that of the first child that has one. -/
theorem recordedTrace_inherited {node inner : Node} {before behind : List Node} {ctx : DispatchCtx σ} {conditions : List Bool}
    (transparent : isTransparent node = true) (children : node.children = before ++ inner :: behind)
    (trace : ctx.covExpressionTrace inner = some conditions) (own : ctx.covExpressionTrace node = none)
    (absent : ∀ child ∈ before, ctx.covExpressionTrace child = none) (b : Bool) : recordedTrace ctx node b = conditions := by
  have nothing : before.findSome? ctx.covExpressionTrace = none := List.findSome?_eq_none_iff.mpr absent
  rw [recordedTrace, own, transparent, children, List.findSome?_append, nothing, Option.none_or, List.findSome?_cons, trace]
  rfl

theorem recordedTrace_present {node inner : Node} {ctx : DispatchCtx σ} {conditions : List Bool}
    (trace : ctx.covExpressionTrace inner = some conditions) (same : inner.span = node.span) (b : Bool) :
    recordedTrace ctx node b = conditions := by
  have own : ctx.covExpressionTrace node = some conditions := by
    rw [DispatchCtx.covExpressionTrace, same] at trace
    exact trace
  rw [recordedTrace, own]
  rfl

theorem recordedTrace_wrapper {node inner : Node} (role : node.role = .wrapper inner) {ctx : DispatchCtx σ} {told : Told σ}
    (tracks : Tracks base k known ctx told) {conditions : List Bool} (trace : ctx.covExpressionTrace inner = some conditions)
    (absent : ∀ span ∈ node.unread, span ∉ (base.collectAll told.log).frames.headD []) (b : Bool) :
    recordedTrace ctx node b = conditions := by
  by_cases same : inner.span = node.span
  · exact recordedTrace_present trace same b
  · rw [Node.unread, role] at absent
    dsimp only at absent
    rw [if_neg same] at absent
    obtain ⟨behind, children⟩ : ∃ behind, node.children = [] ++ inner :: behind :=
      List.head?_eq_some_iff.mp (role_wrapper role)
    have own : ctx.covExpressionTrace node = none := holds_absent tracks.frames (absent node.span List.mem_cons_self)
    exact recordedTrace_inherited (transparent_wrapper role) children trace own (List.forall_mem_nil _) b

theorem recordedTrace_unary {node operator operand : Node} (role : node.role = .unary operator operand) {ctx : DispatchCtx σ}
    {told : Told σ} (tracks : Tracks base k known ctx told) {conditions : List Bool} (trace : ctx.covExpressionTrace operand = some conditions)
    (absent : ∀ span ∈ node.unread, span ∉ (base.collectAll told.log).frames.headD []) (b : Bool) :
    recordedTrace ctx node b = conditions := by
  by_cases same : operand.span = node.span
  · exact recordedTrace_present trace same b
  · rw [Node.unread, role] at absent
    dsimp only at absent
    rw [if_neg same] at absent
    obtain ⟨kind, behind, children⟩ := role_unary role
    have transparent : isTransparent node = true := by rw [isTransparent, kind]
    have own : ctx.covExpressionTrace node = none := holds_absent tracks.frames (absent node.span (by simp))
    have first : ctx.covExpressionTrace operator = none := holds_absent tracks.frames (absent operator.span (by simp))
    have listed : node.children = [operator] ++ operand :: behind := children
    exact recordedTrace_inherited transparent listed trace own (List.forall_mem_singleton.mpr first) b

/-- A node of which nothing is evaluated with a trace is one condition. -/
theorem recordedTrace_own {node : Node} {ctx : DispatchCtx σ} {told : Told σ} (tracks : Tracks base k known ctx told)
    (absent : ∀ span ∈ node.span :: (if isTransparent node then node.children.map Node.span else []),
      span ∉ (base.collectAll told.log).frames.headD []) (b : Bool) : recordedTrace ctx node b = [b] := by
  have own : ctx.covExpressionTrace node = none := holds_absent tracks.frames (absent node.span List.mem_cons_self)
  rw [recordedTrace, own]
  split at absent
  next transparent =>
    have nothing : node.children.findSome? ctx.covExpressionTrace = none := by
      rw [List.findSome?_eq_none_iff]
      intro child inside
      exact holds_absent tracks.frames (absent child.span (List.mem_cons_of_mem _ (List.mem_map_of_mem inside)))
    rw [if_pos transparent, nothing]
    rfl
  next plain =>
    rw [if_neg plain]
    rfl

theorem lockstep_leaf (proceeds : ∀ task, Same base k known (proceed task) (proceed' task)) (watched : Bool) {node : Node}
    (atomic : node.role = .leaf ∨ ∃ target operator chain, node.role = .assignment target operator chain) (task : Task) :
    Lockstep (Tracks base k known) (proceed task) (exactLeaf (proceed' task)) (InnerFound base k known watched node) := by
  have width_node : width node = 1 := by
    obtain role | ⟨target, operator, chain, role⟩ := atomic
    · exact width_own (fun _ => by rw [role]; exact Role.noConfusion) (fun _ _ => by rw [role]; exact Role.noConfusion)
        (by rw [role]; exact Role.noConfusion)
    · exact width_own (fun _ => by rw [role]; exact Role.noConfusion) (fun _ _ => by rw [role]; exact Role.noConfusion)
        (by rw [role]; exact Role.noConfusion)
  have unread : node.unread = node.span :: if isTransparent node then node.children.map Node.span else [] := by
    obtain role | ⟨target, operator, chain, role⟩ := atomic
    · rw [Node.unread, role]
    · rw [Node.unread, role]
  rw [← bind_pure (proceed task)]
  apply Lockstep.bind (proceeds task)
  rintro result result' ctx told ⟨rfl, tracks⟩
  refine .some {
    same := rfl
    tracks := tracks
    width := ?_
    recorded := ?_ }
  · intro boolean
    obtain ⟨b, is⟩ := Option.isSome_iff_exists.mp boolean
    rw [width_node, Eval.ownConditions, is]
    rfl
  · intro b is _ _ _ absent
    rw [unread] at absent
    rw [recordedTrace_own tracks absent, Eval.ownConditions, is]
    rfl

theorem found_unary {watched : Bool} {node operator operand : Node} (role : node.role = .unary operator operand)
    {outcome : Except String Value} {value : Value} {conditions : List Bool}
    (operands : ∀ b, outcome = .ok (.boolean b) → ∃ a, value = .boolean a) {ctx : DispatchCtx σ} {told : Told σ}
    (both : Found base k known watched operand (.normal value) (.normal value, conditions) ctx told) :
    InnerFound base k known watched node (.ofExcept outcome) (.ofExcept outcome, conditions) ctx told := by
  have operand_boolean : ∀ b, (Eval.ofExcept outcome).boolean? = some b → (Eval.normal value).boolean?.isSome = true := by
    intro b is
    cases outcome with
    | error message => cases is
    | ok found =>
      obtain ⟨a, rfl⟩ := operands b (congrArg Except.ok (booleanOf_eq is))
      rfl
  refine {
    same := rfl
    tracks := both.tracks
    width := ?_
    recorded := ?_ }
  · intro boolean
    obtain ⟨b, is⟩ := Option.isSome_iff_exists.mp boolean
    rw [width_unary role]
    exact both.width (operand_boolean b is)
  · intro b is watch on clean absent
    have trace := both.traced (operand_boolean b is) watch on clean
    exact recordedTrace_unary role both.tracks trace absent b

theorem several_of_role {node : Node} (role : node.role = .computation) : node.children.length ≠ 1 := by
  have chain : node.chainRole = .computation → node.children.length ≠ 1 := by
    intro is single
    obtain ⟨child, children⟩ := List.length_eq_one_iff.mp single
    rw [Node.chainRole, children] at is
    cases is
  have wrapper : ∀ message, node.wrapperRole message ≠ .computation := by
    intro message is
    rw [Node.wrapperRole] at is
    split at is
    · cases is
    · cases is
  rw [Node.role] at role
  split at role
  next => exact chain role
  next =>
    split at role
    · exact chain role
    · exact (wrapper _ role).elim
  next => exact (wrapper _ role).elim
  next => exact (wrapper _ role).elim
  next =>
    split at role
    · cases role
    · exact (wrapper _ role).elim
  next =>
    split at role
    · cases role
    · exact (wrapper _ role).elim
  next => cases role

/-- The trace of a computation is set before that of its node is recorded. -/
theorem lockstep_setTrace {watched : Bool} {node : Node} (role : node.role = .computation) (deep : Deep base k watched)
    (result : Eval × Option (List Bool)) (found : Eval × List Bool) :
    Lockstep (ComputationFound base k known watched node.children result found)
      (match result.2 with
        | some conditions => modifyGet fun ctx => (result.1, ctx.covSetExpressionTrace node conditions)
        | none => pure result.1 : Run σ Eval)
      (do
        if found.1.boolean?.isSome then tell (.wrote node.span)
        pure found : Exact σ (Eval × List Bool))
      (InnerFound base k known watched node) := by
  intro ctx told both
  have several := several_of_role role
  have traced := both.traced several
  have width_found : result.1.boolean?.isSome = true → found.2.length = width node := by
    intro boolean
    rw [width_computation role]
    exact both.width boolean
  rw [← both.same]
  cases trace : result.2 with
  | some conditions =>
    rw [trace, Option.isSome_some] at traced
    rw [if_pos traced.symm]
    refine .some {
      same := both.same
      tracks := both.tracks.set node conditions
      width := width_found
      recorded := ?_ }
    intro b is watch on clean _
    have exact_conditions : some conditions = some found.2 := trace ▸ both.own traced.symm watch on clean several
    have inside : ctx.conditionTraceStack ≠ [] := by
      have positive := deep watch on
      rw [← both.tracks.depth] at positive
      exact List.length_pos_iff_ne_nil.mp positive
    dsimp only
    rw [recordedTrace, covExpressionTrace_set inside]
    exact Option.some.inj exact_conditions
  | none =>
    rw [trace, Option.isSome_none] at traced
    rw [← traced, if_neg Bool.false_ne_true]
    refine .some {
      same := both.same
      tracks := both.tracks
      width := width_found
      recorded := ?_ }
    intro b is
    rw [is] at traced
    cases traced

variable [DecimalArithmetic] [DecimalProducts]

theorem lockstep_inner (follow : Follow base k evaluate exact_) (proceeds : ∀ task, Same base k known (proceed task) (proceed' task))
    (watched : Bool) (node : Node) (deep : Deep base k watched) :
    Lockstep (Tracks base k known) (evalExprInner evaluate proceed node) (exactInner exact_ proceed' watched node)
      (InnerFound base k known watched node) := by
  rw [evalExprInner_role, exactInner]
  cases role : node.role with
  | missing message => exact Lockstep.pure fun _ _ tracks => .refused rfl tracks
  | leaf => exact lockstep_leaf proceeds watched (.inl role) _
  | wrapper inner =>
    apply (follow known watched inner deep).mono (fun _ _ tracks => tracks)
    intro result found ctx told both
    refine {
      same := both.same
      tracks := both.tracks
      width := ?_
      recorded := ?_ }
    · intro boolean
      rw [width_wrapper role]
      exact both.width boolean
    · intro b is watch on clean absent
      have trace := both.traced (by rw [is]; rfl) watch on clean
      exact recordedTrace_wrapper role both.tracks trace absent b
  | unary operator operand =>
    apply (follow known watched operand deep).bind
    rintro result ⟨found, conditions⟩ ctx told both
    obtain rfl : result = found := both.same
    cases result with
    | error info => exact .some (.refused rfl both.tracks)
    | exit value => exact .some (.refused rfl both.tracks)
    | break_ => exact .some (.refused rfl both.tracks)
    | continue_ => exact .some (.refused rfl both.tracks)
    | normal value =>
      have operands : ∀ b, applyUnary (unaryOp operator.operatorText) value = .ok (.boolean b) → ∃ a, value = .boolean a :=
        fun b applied => not_operand applied
      dsimp only
      generalize applyUnary (unaryOp operator.operatorText) value = outcome at operands ⊢
      exact .some (found_unary role operands both)
  | assignment target operator chain =>
    apply (lockstep_computation follow false (fun watch => nomatch watch) chain).bind
    rintro ⟨result, trace⟩ ⟨result', conditions⟩
    apply Lockstep.given (fun _ _ both => both.same)
    rintro (rfl : result = result')
    apply Lockstep.mono _ (fun _ _ both => both.tracks) (fun _ _ _ _ both => both)
    cases result with
    | error info => exact Lockstep.pure fun _ _ tracks => .refused rfl tracks
    | exit value => exact Lockstep.pure fun _ _ tracks => .refused rfl tracks
    | break_ => exact Lockstep.pure fun _ _ tracks => .refused rfl tracks
    | continue_ => exact Lockstep.pure fun _ _ tracks => .refused rfl tracks
    | normal value => exact lockstep_leaf proceeds watched (.inr ⟨target, operator, chain, role⟩) _
  | computation =>
    apply Lockstep.bind (lockstep_computation follow watched deep node.children)
    intro result found
    exact lockstep_setTrace role deep result found

omit [DecimalArithmetic] [DecimalProducts] in
theorem lockstep_exit {watched : Bool} {node : Node} (result : Eval) (found : Eval × List Bool) :
    Lockstep (InnerFound base k known watched node result found) (exitExpr : Run σ Unit) (exitExpr : Exact σ Unit)
      fun _ _ => InnerFound base k known watched node result found := by
  intro ctx told both
  refine .some {
    same := both.same
    tracks := { both.tracks with state := ?_ }
    width := both.width
    recorded := both.recorded }
  have same : ctx.toEvalState = told.toEvalState := both.tracks.state
  rw [same]

omit [DecimalArithmetic] [DecimalProducts] in
theorem lockstep_record {watched : Bool} {node : Node} (deep : Deep base k watched) (result : Eval) (found : Eval × List Bool) :
    Lockstep (InnerFound base k known watched node result found)
      (do
        recordConditionTrace node result
        pure result : Run σ Eval)
      (do
        if found.1.boolean?.isSome then
          if watched then tell (.read node.unread)
          tell (.wrote node.span)
        pure found : Exact σ (Eval × List Bool))
      (Found base k known watched node) := by
  intro ctx told both
  rw [← both.same]
  cases is : result.boolean? with
  | none =>
    change Option.Rel _ ((recordConditionTrace node result ctx).bind fun after => some (result, after.2)) _
    rw [recordConditionTrace_other is]
    exact .some {
      same := both.same
      tracks := both.tracks
      width := fun boolean => by rw [is] at boolean; cases boolean
      traced := fun boolean => by rw [is] at boolean; cases boolean }
  | some b =>
    change Option.Rel _ ((recordConditionTrace node result ctx).bind fun after => some (result, after.2)) _
    cases watched with
    | false =>
      obtain ⟨after, run, tracks, -⟩ := recordConditionTrace_boolean both.tracks is
      rw [run]
      exact .some {
        same := both.same
        tracks := tracks
        width := both.width
        traced := fun _ watch => nomatch watch }
    | true =>
      obtain ⟨after, run, tracks, trace⟩ := recordConditionTrace_boolean (both.tracks.read node.unread) is
      rw [run]
      refine .some {
        same := both.same
        tracks := tracks
        width := both.width
        traced := ?_ }
      intro _ watch on clean
      obtain ⟨before, absent⟩ := read_clean clean
      rw [trace (deep watch on), both.recorded b is watch on before (absent on)]

/-- One level of the evaluator keeps the traces, if the levels below it do. -/
theorem follow_step (follow : Follow base k evaluate exact_) (proceeds : ∀ known task, Same base k known (proceed task) (proceed' task)) :
    Follow base k (evalExprStep evaluate proceed) (exactExprStep exact_ proceed') := by
  intro known watched node deep
  apply Lockstep.bind (same_onState _)
  rintro entered entered'
  apply Lockstep.given (fun _ _ both => both.1)
  rintro (rfl : entered = entered')
  apply Lockstep.mono _ (fun _ _ both => both.2) (fun _ _ _ _ both => both)
  cases entered with
  | false =>
    exact Lockstep.pure fun _ _ tracks => {
      same := rfl
      tracks := tracks
      width := fun boolean => nomatch boolean
      traced := fun boolean => nomatch boolean }
  | true =>
    apply Lockstep.bind (lockstep_inner follow (proceeds known) watched node deep)
    intro result found
    apply Lockstep.bind (lockstep_exit result found)
    intro _ _
    exact lockstep_record deep result found

end Steps

end AlLanguage.Interpreter
