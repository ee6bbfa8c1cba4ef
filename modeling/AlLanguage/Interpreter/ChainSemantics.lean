import AlLanguage.Interpreter.ChainTrees
import AlLanguage.Library.ConditionalTrees
import AlLanguage.Library.Lockstep
import AlLanguage.Runtime.IntegerRange

/-!
# The meaning of flat chains

A chain of operands, operators and conditionals is evaluated like the one tree of its symbols.
-/

namespace AlLanguage.Interpreter

open Library
open AlLanguage.Runtime (Value applyBinary DecimalArithmetic DecimalProducts)

/-! ## Chains -/

def flatNodes (first : Node) (rest : List (Node × Node)) : List Node := first :: rest.flatMap fun next => [next.1, next.2]

/-- Operators of the table. -/
def Known (rest : List (Node × Node)) : Prop := ∀ next ∈ rest, (binaryPrecedence next.1.operatorText).isSome = true

inductive WellFormed : List Node → Prop where
  | flat {first : Node} {rest : List (Node × Node)} (known : Known rest) : WellFormed (flatNodes first rest)
  | conditional {first : Node} {rest : List (Node × Node)} {question colon : Node} {ifTrue ifFalse : List Node} (known : Known rest)
    (is_question : isBinaryOperator "?" question = true) (is_colon : isBinaryOperator ":" colon = true) (true_ : WellFormed ifTrue)
    (false_ : WellFormed ifFalse) : WellFormed (flatNodes first rest ++ question :: (ifTrue ++ colon :: ifFalse))

def symbolOf (operator : Node) : ChainSymbol Node String :=
  if isBinaryOperator "?" operator then .question
  else if isBinaryOperator ":" operator then .colon
  else .token (.operator operator.operatorText)

/-- Operands are at the even indices. -/
def symbols : List Node → List (ChainSymbol Node String)
  | operand :: operator :: rest => .token (.operand operand) :: symbolOf operator :: symbols rest
  | [operand] => [.token (.operand operand)]
  | [] => []

theorem unknown_symbol {text : String} (symbol : text = "?" ∨ text = ":") {operator : Node}
    (known : (binaryPrecedence operator.operatorText).isSome = true) : isBinaryOperator text operator = false := by
  rw [isBinaryOperator, Bool.and_eq_false_iff]
  right
  rw [decide_eq_false_iff_not]
  intro same
  rw [Node.operatorText, same] at known
  obtain rfl | rfl := symbol
  · exact absurd known (by decide)
  · exact absurd known (by decide)

theorem Known.tail {next : Node × Node} {rest : List (Node × Node)} (known : Known (next :: rest)) : Known rest :=
  fun other inside => known other (List.mem_cons_of_mem _ inside)

theorem flat_length (rest : List (Node × Node)) : (rest.flatMap fun next => [next.1, next.2]).length = 2 * rest.length := by
  induction rest with
  | nil => rfl
  | cons next rest ih =>
    rw [List.flatMap_cons, List.length_append, ih, List.length_cons, List.length_cons, List.length_cons, List.length_nil]
    ring

theorem flatNodes_length (first : Node) (rest : List (Node × Node)) : (flatNodes first rest).length = 2 * rest.length + 1 := by
  rw [flatNodes, List.length_cons, flat_length]

theorem WellFormed.odd {children : List Node} (wellFormed : WellFormed children) : children.length % 2 = 1 := by
  induction wellFormed with
  | flat known =>
    rw [flatNodes_length]
    omega
  | conditional known _ _ _ _ ih_true ih_false =>
    rw [List.length_append, flatNodes_length, List.length_cons, List.length_append, List.length_cons]
    omega

theorem symbols_flat (first : Node) {rest : List (Node × Node)} (known : Known rest) :
    symbols (flatNodes first rest) =
      (OperatorTree.chainTokens first (rest.map fun next => (next.1.operatorText, next.2))).map ChainSymbol.token := by
  induction rest generalizing first with
  | nil => rfl
  | cons next rest ih =>
    have listed := known next List.mem_cons_self
    have operator : symbolOf next.1 = .token (.operator next.1.operatorText) := by
      rw [symbolOf, unknown_symbol (.inl rfl) listed, unknown_symbol (.inr rfl) listed]
      rfl
    change ChainSymbol.token (.operand first) :: symbolOf next.1 :: symbols (flatNodes next.2 rest) = _
    rw [operator, ih next.2 known.tail]
    rfl

theorem symbols_append {before : List Node} (odd : before.length % 2 = 1) (operator : Node) (rest : List Node) :
    symbols (before ++ operator :: rest) = symbols before ++ symbolOf operator :: symbols rest := by
  induction before using symbols.induct with
  | case1 operand operator' before ih =>
    have below : before.length % 2 = 1 := by
      simp only [List.length_cons] at odd
      omega
    rw [List.cons_append, List.cons_append, symbols, symbols, ih below]
    rfl
  | case2 operand => rfl
  | case3 => cases odd

/-! ## The conditional operator -/

theorem colonIndex_known {rest : List (Node × Node)} (known : Known rest) (index nested : Nat) (more : List Node) :
    colonIndex index nested ((rest.flatMap fun next => [next.1, next.2]) ++ more) = colonIndex (index + 2 * rest.length) nested more := by
  induction rest generalizing index with
  | nil => rfl
  | cons next rest ih =>
    have shift : index + 2 + 2 * rest.length = index + 2 * (rest.length + 1) := by ring
    have listed := known next List.mem_cons_self
    rw [List.flatMap_cons, List.append_assoc, List.cons_append, colonIndex, unknown_symbol (.inl rfl) listed,
      unknown_symbol (.inr rfl) listed, if_neg Bool.false_ne_true, if_neg Bool.false_ne_true, List.cons_append, List.tail_cons,
      List.nil_append, ih known.tail, List.length_cons, shift]

theorem colonIndex_question {question operand : Node} (is_question : isBinaryOperator "?" question = true) (index nested : Nat)
    (rest : List Node) : colonIndex index nested (question :: operand :: rest) = colonIndex (index + 2) (nested + 1) rest := by
  rw [colonIndex, if_pos is_question, List.tail_cons]

theorem not_question {colon : Node} (is_colon : isBinaryOperator ":" colon = true) : isBinaryOperator "?" colon = false := by
  rw [isBinaryOperator, Bool.and_eq_true_iff, decide_eq_true_eq, decide_eq_true_eq] at is_colon
  rw [isBinaryOperator, Bool.and_eq_false_iff, is_colon.2]
  exact .inr (by decide)

theorem colonIndex_colon {colon : Node} (is_colon : isBinaryOperator ":" colon = true) (index nested : Nat) (rest : List Node) :
    colonIndex index nested (colon :: rest) = if nested = 0 then some index else colonIndex (index + 2) (nested - 1) rest.tail := by
  rw [colonIndex, not_question is_colon, if_neg Bool.false_ne_true, if_pos is_colon]

/-- The search for a colon passes over a chain, its first operand apart. -/
theorem WellFormed.colonIndex {children : List Node} (wellFormed : WellFormed children) : ∃ first below, children = first :: below ∧
    ∀ index nested more, colonIndex index nested (below ++ more) = colonIndex (index + below.length) nested more := by
  induction wellFormed with
  | @flat first rest known =>
    refine ⟨first, _, rfl, ?_⟩
    intro index nested more
    rw [colonIndex_known known, flat_length]
  | @conditional first rest question colon ifTrue ifFalse known is_question is_colon _ _ ih_true ih_false =>
    obtain ⟨first_true, below_true, rfl, pass_true⟩ := ih_true
    obtain ⟨first_false, below_false, rfl, pass_false⟩ := ih_false
    refine ⟨first, (rest.flatMap fun next => [next.1, next.2]) ++
      question :: first_true :: (below_true ++ colon :: first_false :: below_false), rfl, ?_⟩
    intro index nested more
    simp only [List.append_assoc, List.cons_append]
    rw [colonIndex_known known, colonIndex_question is_question, pass_true, colonIndex_colon is_colon,
      if_neg (Nat.succ_ne_zero nested), List.tail_cons, Nat.add_sub_cancel, pass_false]
    simp only [List.length_append, List.length_cons, flat_length]
    congr 1
    ring

theorem find_question_known {rest : List (Node × Node)} (known : Known rest) {index : Nat} (odd : index % 2 = 1) (more : List Node) :
    (((rest.flatMap fun next => [next.1, next.2]) ++ more).zipIdx index).find?
        (fun (child, index) => index % 2 = 1 && isBinaryOperator "?" child) =
      (more.zipIdx (index + 2 * rest.length)).find? fun (child, index) => index % 2 = 1 && isBinaryOperator "?" child := by
  induction rest generalizing index with
  | nil => rfl
  | cons next rest ih =>
    have shift : index + 1 + 1 + 2 * rest.length = index + 2 * (rest.length + 1) := by ring
    have odd_next : (index + 1 + 1) % 2 = 1 := by omega
    have even : decide ((index + 1) % 2 = 1) = false := decide_eq_false (by omega)
    have listed := known next List.mem_cons_self
    rw [List.flatMap_cons, List.append_assoc, List.cons_append, List.cons_append, List.nil_append, List.zipIdx_cons, List.zipIdx_cons,
      List.find?_cons, List.find?_cons]
    dsimp only
    rw [unknown_symbol (.inl rfl) listed, Bool.and_false, even, Bool.false_and]
    dsimp only
    rw [ih known.tail odd_next, List.length_cons, shift]

theorem questionIndex_flat {first : Node} {rest : List (Node × Node)} (known : Known rest) : questionIndex (flatNodes first rest) = none := by
  have found := find_question_known known (rfl : 1 % 2 = 1) []
  rw [List.append_nil] at found
  rw [questionIndex, flatNodes, List.zipIdx_cons, List.find?_cons]
  dsimp only
  rw [Nat.zero_add, found]
  rfl

theorem questionIndex_question {first question : Node} {rest : List (Node × Node)} (known : Known rest)
    (is_question : isBinaryOperator "?" question = true) (more : List Node) :
    questionIndex (flatNodes first rest ++ question :: more) = some (flatNodes first rest).length := by
  have found := find_question_known known (rfl : 1 % 2 = 1) (question :: more)
  have odd : decide ((1 + 2 * rest.length) % 2 = 1) = true := decide_eq_true (by omega)
  rw [questionIndex, flatNodes_length, flatNodes, List.cons_append, List.zipIdx_cons, List.find?_cons]
  dsimp only
  rw [Nat.zero_add, found, List.zipIdx_cons, List.find?_cons]
  dsimp only
  rw [odd, is_question, Nat.add_comm]
  rfl

theorem conditionalParts_flat {first : Node} {rest : List (Node × Node)} (known : Known rest) :
    conditionalParts (flatNodes first rest) = .flat := by
  rw [conditionalParts, questionIndex_flat known]

theorem conditionalParts_wellFormed {first question colon : Node} {rest : List (Node × Node)} {ifTrue ifFalse : List Node} (known : Known rest)
    (is_question : isBinaryOperator "?" question = true) (is_colon : isBinaryOperator ":" colon = true) (true_ : WellFormed ifTrue)
    (false_ : WellFormed ifFalse) : conditionalParts (flatNodes first rest ++ question :: (ifTrue ++ colon :: ifFalse)) =
      .parts (flatNodes first rest) ifTrue ifFalse := by
  obtain ⟨first_true, below_true, rfl, pass⟩ := true_.colonIndex
  obtain ⟨first_false, below_false, rfl, _⟩ := false_.colonIndex
  have full : (flatNodes first rest).isEmpty = false := rfl
  have question_at : questionIndex (flatNodes first rest ++ question :: (first_true :: below_true ++ colon :: first_false :: below_false)) =
      some (flatNodes first rest).length := questionIndex_question known is_question _
  generalize flatNodes first rest = condition at full question_at ⊢
  -- the chain, cut behind its condition, in front of the colon and behind it
  generalize whole : condition ++ question :: (first_true :: below_true ++ colon :: first_false :: below_false) = children at question_at ⊢
  have behind : children.drop (condition.length + 2) = below_true ++ colon :: first_false :: below_false := by
    have cut : children = (condition ++ [question, first_true]) ++ (below_true ++ colon :: first_false :: below_false) := by simp [← whole]
    rw [cut, List.drop_left' (by simp)]
  have before : children.take (condition.length + 2 + below_true.length) = condition ++ question :: first_true :: below_true := by
    have cut : children = (condition ++ question :: first_true :: below_true) ++ colon :: first_false :: below_false := by simp [← whole]
    rw [cut, List.take_left' (by simp only [List.length_append, List.length_cons]; ring)]
  have last : children.drop (condition.length + 2 + below_true.length + 1) = first_false :: below_false := by
    have cut : children = (condition ++ question :: first_true :: (below_true ++ [colon])) ++ first_false :: below_false := by simp [← whole]
    rw [cut, List.drop_left' (by simp only [List.length_append, List.length_cons, List.length_nil]; ring)]
  have condition_is : children.take condition.length = condition := by
    rw [← whole, List.take_left' rfl]
  have true_is : (condition ++ question :: first_true :: below_true).drop (condition.length + 1) = first_true :: below_true := by
    have cut : condition ++ question :: first_true :: below_true = (condition ++ [question]) ++ first_true :: below_true := by simp
    rw [cut, List.drop_left' (by simp)]
  rw [conditionalParts, question_at]
  dsimp only
  rw [behind, pass, colonIndex_colon is_colon, if_pos rfl]
  dsimp only
  rw [before, last, true_is, condition_is, full]
  rfl

/-! ## The meaning of a tree -/

/-- A value, or what ends the evaluation of a chain. -/
def asExcept : Eval → Except Eval Value
  | .normal value => .ok value
  | other => .error other

def toEval : Except Eval Value → Eval
  | .ok value => .normal value
  | .error other => other

theorem toEval_asExcept (result : Eval) : toEval (asExcept result) = result := by
  cases result with
  | normal value => rfl
  | error info => rfl
  | exit value => rfl
  | break_ => rfl
  | continue_ => rfl

def decided : Value → Except Eval Bool
  | .boolean b => .ok b
  | other => .error (.failed ("conditional expression requires Boolean condition, got " ++ other.typeName))

section Evaluation

variable {σ : Type} [DecimalArithmetic] [DecimalProducts]

omit [DecimalArithmetic] [DecimalProducts] in
def operandResult (evaluate : Node → Run σ Eval) (node : Node) : ExceptT Eval (StateT (DispatchCtx σ) Option) Value :=
  ExceptT.mk do
    let result ← evaluate node
    pure (asExcept result)

def operatorResult (operator : String) (left right : Value) : Except Eval Value :=
  (applyBinary (binaryOp operator) left right).mapError Eval.failed

def evalTree (evaluate : Node → Run σ Eval) (t : ConditionalTree Node String) : ExceptT Eval (StateT (DispatchCtx σ) Option) Value :=
  t.evaluate (operandResult evaluate) (fun operator left right => ExceptT.mk (pure (operatorResult operator left right)))
    fun value => ExceptT.mk (pure (decided value))

omit [DecimalArithmetic] [DecimalProducts] in
def finished (m : ExceptT Eval (StateT (DispatchCtx σ) Option) Value) : Run σ Eval := toEval <$> m.run

omit [DecimalArithmetic] [DecimalProducts] in
theorem finished_run (m : ExceptT Eval (StateT (DispatchCtx σ) Option) Value) (ctx : DispatchCtx σ) :
    finished m ctx = (m.run ctx).map fun (found, after) => (toEval found, after) := by
  change (m.run ctx).bind _ = _
  cases m.run ctx with
  | none => rfl
  | some found => rfl

/-! ## The evaluation of a chain -/

variable (evaluate : Node → Run σ Eval)

theorem tracedTree_value (tree : OperatorTree Node String) :
    TracedValue.value <$> tracedTree evaluate tree = evalTree evaluate (.flat tree) := by
  apply OperatorTree.evaluate_map
  · intro node
    apply ExceptT.ext
    rw [ExceptT.run_map]
    change Except.map TracedValue.value <$> (evaluate node >>= _) = evaluate node >>= _
    rw [map_bind]
    apply bind_congr
    intro result
    cases result with
    | normal value => rfl
    | error info => rfl
    | exit value => rfl
    | break_ => rfl
    | continue_ => rfl
  · intro operator l r
    rw [applyTraced, operatorResult]
    cases applyBinary (binaryOp operator) l.value r.value with
    | error message => rfl
    | ok value => rfl

omit [DecimalArithmetic] [DecimalProducts] in
theorem chainRest_known {rest : List (Node × Node)} (known : Known rest) :
    chainRest (rest.flatMap fun next => [next.1, next.2]) = .ok (rest.map fun next => (next.1.operatorText, next.2)) := by
  induction rest with
  | nil => rfl
  | cons next rest ih =>
    rw [List.flatMap_cons, List.cons_append, List.cons_append, List.nil_append, chainRest_cons, if_pos (known next List.mem_cons_self),
      ih known.tail]
    rfl

omit [DecimalArithmetic] [DecimalProducts] in
theorem chainTree_known {first : Node} {rest : List (Node × Node)} (known : Known rest) :
    chainTree (flatNodes first rest) = .ok (.ofChain precedence first (rest.map fun next => (next.1.operatorText, next.2))) := by
  rw [flatNodes, chainTree, flat_length, if_neg (by omega), chainRest_known known]
  rfl

theorem evalExprChain_result {first : Node} {rest : List (Node × Node)} (known : Known rest) :
    Prod.fst <$> evalExprChain evaluate (flatNodes first rest) =
      finished (evalTree evaluate (.flat (.ofChain precedence first (rest.map fun next => (next.1.operatorText, next.2))))) := by
  cases rest with
  | nil =>
    change Prod.fst <$> (evaluate first >>= _) = toEval <$> (evaluate first >>= _)
    rw [map_bind, map_bind]
    apply bind_congr
    intro result
    rw [map_pure, map_pure, toEval_asExcept]
  | cons next rest =>
    have several : (flatNodes first (next :: rest)).length ≠ 1 := by
      rw [flatNodes_length, List.length_cons]
      omega
    rw [evalExprChain_tree evaluate (chainTree_known known) several, ← tracedTree_value, finished, ExceptT.run_map, map_bind,
      map_eq_pure_bind, bind_map_left]
    apply bind_congr
    intro result
    cases result with
    | ok traced => rfl
    | error other => rfl

/-- The evaluation of a tree does not end early with a value. -/
theorem evalTree_stops (t : ConditionalTree Node String) (ctx : DispatchCtx σ) (value : Value) (after : DispatchCtx σ) :
    (evalTree evaluate t).run ctx ≠ some (.error (.normal value), after) := by
  intro run
  have operands : ∀ node ctx e after, (operandResult evaluate node).run ctx = some (.error e, after) → e ≠ .normal value := by
    intro node ctx e after run
    have ran : ((evaluate node ctx).bind fun found => some (asExcept found.1, found.2)) = some (.error e, after) := run
    obtain ⟨⟨result, last⟩, -, is⟩ := Option.bind_eq_some_iff.mp ran
    obtain ⟨is, -⟩ := Prod.mk.inj (Option.some.inj is)
    rintro rfl
    cases result with
    | normal value => cases is
    | _ => cases is
  have fails : ∀ e, Fails operatorResult decided e → e ≠ .normal value := by
    rintro e (⟨operator, l, r, failed⟩ | ⟨condition, failed⟩)
    · rw [operatorResult] at failed
      cases applied : applyBinary (binaryOp operator) l r with
      | error message =>
        rw [applied] at failed
        cases failed
        exact Eval.noConfusion
      | ok found =>
        rw [applied] at failed
        cases failed
    · unfold decided at failed
      split at failed
      · cases failed
      · cases failed
        exact Eval.noConfusion
  exact t.evaluate_error operands fails run rfl

omit [DecimalArithmetic] [DecimalProducts] in
theorem map_reported (selected : Run σ (Eval × Option (List Bool))) (report : Eval → Option (List Bool) → Option (List Bool)) :
    Prod.fst <$> (do
      let (result, trace) ← selected
      pure (result, report result trace)) = Prod.fst <$> selected := by
  rw [map_bind, map_eq_pure_bind]
  apply bind_congr
  rintro ⟨result, trace⟩
  rfl

omit [DecimalArithmetic] [DecimalProducts] in
theorem evalConditional_cases (condition ifTrue ifFalse : Run σ (Eval × Option (List Bool))) :
    Prod.fst <$> evalConditional condition ifTrue ifFalse = (do
      match ← Prod.fst <$> condition with
      | .normal (.boolean value) => if value then Prod.fst <$> ifTrue else Prod.fst <$> ifFalse
      | .normal other => pure (.failed ("conditional expression requires Boolean condition, got " ++ other.typeName))
      | other => pure other) := by
  rw [evalConditional, map_bind, bind_map_left]
  apply bind_congr
  rintro ⟨result, trace⟩
  have branch (selected : Run σ (Eval × Option (List Bool))) :=
    map_reported selected fun result trace => result.boolean?.map fun outcome => trace.getD [outcome]
  cases result with
  | error info => rfl
  | exit value => rfl
  | break_ => rfl
  | continue_ => rfl
  | normal value =>
    cases value with
    | boolean value =>
      cases value with
      | false => exact branch ifFalse
      | true => exact branch ifTrue
    | _ => rfl

omit [DecimalArithmetic] [DecimalProducts] in
theorem evalConditional_result {condition ifTrue ifFalse : Run σ (Eval × Option (List Bool))}
    {c t f : ExceptT Eval (StateT (DispatchCtx σ) Option) Value} (stops : ∀ ctx value after, c.run ctx ≠ some (.error (.normal value), after))
    (condition_is : Prod.fst <$> condition = finished c) (true_is : Prod.fst <$> ifTrue = finished t)
    (false_is : Prod.fst <$> ifFalse = finished f) :
    Prod.fst <$> evalConditional condition ifTrue ifFalse = finished (do
      let value ← c
      if ← ExceptT.mk (pure (decided value)) then t else f) := by
  rw [evalConditional_cases, condition_is, true_is, false_is]
  funext ctx
  rw [bind_run, finished_run, finished_run, ExceptT.run_bind, bind_run]
  cases ran : c.run ctx with
  | none => rfl
  | some found =>
    obtain ⟨found, after⟩ := found
    cases found with
    | error other =>
      cases other with
      | normal value => exact (stops ctx value after ran).elim
      | error info => rfl
      | exit value => rfl
      | break_ => rfl
      | continue_ => rfl
    | ok value =>
      cases value with
      | boolean value =>
        cases value with
        | false => exact finished_run f after
        | true => exact finished_run t after
      | _ => rfl

/-- A well-formed chain has a tree, and is evaluated like it. -/
theorem WellFormed.evaluated {children : List Node} (wellFormed : WellFormed children) :
    ∃ t : ConditionalTree Node String, t.Ordered precedence ∧ t.yield = symbols children ∧
      ∀ {σ : Type} (evaluate : Node → Run σ Eval), Prod.fst <$> evalComputationChain evaluate children = finished (evalTree evaluate t) := by
  induction wellFormed with
  | @flat first rest known =>
    refine ⟨.flat (.ofChain precedence first (rest.map fun next => (next.1.operatorText, next.2))), OperatorTree.ordered_ofChain _ _, ?_, ?_⟩
    · rw [symbols_flat first known, ConditionalTree.yield, OperatorTree.inorder_ofChain]
    · intro σ evaluate
      rw [evalComputationChain_flat evaluate (conditionalParts_flat known), evalExprChain_result evaluate known]
  | @conditional first rest question colon ifTrue ifFalse known is_question is_colon true_ false_ ih_true ih_false =>
    obtain ⟨t, ordered_true, yield_true, eval_true⟩ := ih_true
    obtain ⟨f, ordered_false, yield_false, eval_false⟩ := ih_false
    refine ⟨.conditional (.ofChain precedence first (rest.map fun next => (next.1.operatorText, next.2))) t f,
      ⟨OperatorTree.ordered_ofChain _ _, ordered_true, ordered_false⟩, ?_, ?_⟩
    · have odd : (flatNodes first rest).length % 2 = 1 := (WellFormed.flat known).odd
      have question_symbol : symbolOf question = .question := by rw [symbolOf, if_pos is_question]
      have colon_symbol : symbolOf colon = .colon := by
        rw [symbolOf, not_question is_colon, if_neg Bool.false_ne_true, if_pos is_colon]
      rw [symbols_append odd, symbols_append true_.odd, symbols_flat first known, question_symbol, colon_symbol, ConditionalTree.yield,
        OperatorTree.inorder_ofChain, yield_true, yield_false]
    · intro σ evaluate
      rw [evalComputationChain_parts evaluate (conditionalParts_wellFormed known is_question is_colon true_ false_)]
      have condition_is : Prod.fst <$> evalComputationChain evaluate (flatNodes first rest) =
          finished (evalTree evaluate (.flat (.ofChain precedence first (rest.map fun next => (next.1.operatorText, next.2))))) := by
        rw [evalComputationChain_flat evaluate (conditionalParts_flat known), evalExprChain_result evaluate known]
      have stops := evalTree_stops evaluate (.flat (.ofChain precedence first (rest.map fun next => (next.1.operatorText, next.2))))
      exact evalConditional_result stops condition_is (eval_true evaluate) (eval_false evaluate)

omit [DecimalArithmetic] [DecimalProducts] in
theorem asExcept_toEval {found : Except Eval Value} (stops : ∀ value, found ≠ .error (.normal value)) : asExcept (toEval found) = found := by
  cases found with
  | ok value => rfl
  | error other =>
    cases other with
    | normal value => exact (stops value rfl).elim
    | error info => rfl
    | exit value => rfl
    | break_ => rfl
    | continue_ => rfl

end Evaluation

/-! ## A sample -/

def nameAt (text : String) (startByte : Nat) : Node := ⟨.other "identifier", text, startByte, startByte + text.length, 4, [], ""⟩

def operatorAt (text : String) (startByte : Nat) : Node := ⟨.binaryOperator, text, startByte, startByte + text.length, 4, [], ""⟩

/-- `a ? b and c : d` -/
def choiceChain : List Node :=
  flatNodes (nameAt "a" 114) [] ++ operatorAt "?" 116 ::
    (flatNodes (nameAt "b" 118) [(operatorAt "and" 120, nameAt "c" 124)] ++ operatorAt ":" 126 :: flatNodes (nameAt "d" 128) [])

/-- Every operand is true. -/
def allTrue (node : Node) : Run (List (Node × Except Eval Value)) Eval := fun ctx =>
  some (.normal (.boolean true), { ctx with rest := ctx.rest ++ [(node, .ok (.boolean true))] })

section Sample

attribute [local instance] DecimalArithmetic.plain DecimalProducts.plain

end Sample

end AlLanguage.Interpreter
