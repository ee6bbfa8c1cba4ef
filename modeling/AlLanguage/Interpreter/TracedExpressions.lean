import AlLanguage.Interpreter.ConditionRuns

/-!
# The traces of expressions

In a clean run the trace of a watched expression is its condition vector.
-/

namespace AlLanguage.Interpreter

open Library
open AlLanguage.Runtime (Value UnaryOp BinaryOp applyUnary applyBinary applyOther applyTemporalArithmetic Coverage Record Observed
  DecimalArithmetic DecimalProducts)

/-! ## Operators on Booleans -/

section Operators

theorem isLogical_iff (operator : String) : isLogical operator = true ↔ operator = "and" ∨ operator = "or" ∨ operator = "xor" := by
  simp [isLogical, or_assoc]

theorem applyOther_operands {op : BinaryOp} (logical : op = .and ∨ op = .or ∨ op = .xor) {left right value : Value}
    (applied : applyOther op left right = .ok value) : ∃ a b c, left = .boolean a ∧ right = .boolean b ∧ value = .boolean c := by
  unfold applyOther at applied
  split at applied
  case h_11 | h_12 | h_13 =>
    cases applied
    exact ⟨_, _, _, rfl, rfl, rfl⟩
  case h_16 => cases applied
  all_goals obtain refused | refused | refused := logical <;> cases refused

theorem logical_operands [DecimalArithmetic] [DecimalProducts] {operator : String} (logical : isLogical operator = true)
    {left right value : Value} (applied : applyBinary (binaryOp operator) left right = .ok value) :
    ∃ a b c, left = .boolean a ∧ right = .boolean b ∧ value = .boolean c := by
  obtain rfl | rfl | rfl := (isLogical_iff operator).mp logical
  · exact applyOther_operands (.inl rfl) applied
  · exact applyOther_operands (.inr (.inl rfl)) applied
  · exact applyOther_operands (.inr (.inr rfl)) applied

theorem checkedInt_notBoolean (n : Option Int64) (big b : Bool) : Runtime.checkedInt n big ≠ .ok (.boolean b) := by
  unfold Runtime.checkedInt
  split
  · split
    · exact nofun
    · split
      · exact nofun
      · exact nofun
  · exact nofun

theorem not_operand {op : UnaryOp} {operand : Value} {b : Bool} (applied : applyUnary op operand = .ok (.boolean b)) :
    ∃ a, operand = .boolean a := by
  unfold applyUnary at applied
  split at applied
  case h_9 => exact ⟨_, rfl⟩
  case h_5 | h_6 | h_8 => exact (checkedInt_notBoolean _ _ _ applied).elim
  all_goals cases applied

end Operators

/-! ## Trees -/

section Trees

variable {σ : Type} {base : Collected} {k : Nat} {known : Prop}

theorem treeWidth_congr {tree : OperatorTree Node String} {f g : ∀ node ∈ tree.operands, Nat} (same : ∀ node inside, f node inside = g node inside) :
    treeWidth tree f = treeWidth tree g := by
  have equal : f = g := funext fun node => funext (same node)
  rw [equal]

/-- The trace of a watched node is its condition vector. -/
def Traced (base : Collected) (watched : Bool) (node : Node) (conditions : List Bool) (ctx : DispatchCtx σ) (told : Told σ) : Prop :=
  watched = true → base.coverage.isSome = true → (base.collectAll told.log).clean = true → ctx.covExpressionTrace node = some conditions

/-- A watched evaluation takes place inside a decision. -/
def Deep (base : Collected) (k : Nat) (watched : Bool) : Prop := watched = true → base.coverage.isSome = true → 0 < k

/-- The two results of a node. -/
structure Found (base : Collected) (k : Nat) (known : Prop) (watched : Bool) (node : Node) (result : Eval) (found : Eval × List Bool)
    (ctx : DispatchCtx σ) (told : Told σ) : Prop where
  same : result = found.1
  tracks : Tracks base k known ctx told
  width : result.boolean?.isSome = true → found.2.length = width node
  traced : result.boolean?.isSome = true → Traced base watched node found.2 ctx told

/-- The evaluations of nodes in lockstep. -/
def Follow (base : Collected) (k : Nat) (evaluate : Node → Run σ Eval) (exact_ : Bool → Node → Exact σ (Eval × List Bool)) : Prop :=
  ∀ known watched node, Deep base k watched →
    Lockstep (Tracks base k known) (evaluate node) (exact_ watched node) (Found base k known watched node)

/-- The trace that the root of a tree leaves. -/
def RootTrace : OperatorTree Node String → TracedValue → Prop
  | .operand _, _ => True
  | .binary operator _ _, traced =>
    traced.conditions.isSome = (booleanOf traced.value).isSome ∧
      (isLogical operator = false → traced.conditions = (booleanOf traced.value).map fun b => [b])

/-- An evaluation without a value. -/
structure TreeFailed (base : Collected) (k : Nat) (known : Prop) (result : Eval) (ctx : DispatchCtx σ) (told : Told σ) : Prop where
  none_ : result.boolean? = none
  tracks : Tracks base k known ctx told

/-- The two results of a tree. -/
structure TreeFound (base : Collected) (k : Nat) (known : Prop) (watched : Bool) (tree : OperatorTree Node String) (traced : TracedValue)
    (found : Value × List Bool) (ctx : DispatchCtx σ) (told : Told σ) : Prop where
  value : traced.value = found.1
  tracks : Tracks base k known ctx told
  width : (booleanOf found.1).isSome = true → found.2.length = treeWidth tree fun node _ => width node
  own : (booleanOf found.1).isSome = true → watched = true → base.coverage.isSome = true →
    (base.collectAll told.log).clean = true → traced.conditionsOrOwn = found.2
  root : RootTrace tree traced

theorem TreeFound.weaken {known' : Prop} {watched : Bool} {tree : OperatorTree Node String} {traced : TracedValue}
    {found : Value × List Bool} {ctx : DispatchCtx σ} {told : Told σ} (results : TreeFound base k known watched tree traced found ctx told)
    (weaker : known → known') : TreeFound base k known' watched tree traced found ctx told :=
  { results with tracks := results.tracks.weaken weaker }

variable {evaluate : Node → Run σ Eval} {exact_ : Bool → Node → Exact σ (Eval × List Bool)}

theorem lockstep_operand (follow : Follow base k evaluate exact_) (watched : Bool) (deep : Deep base k watched) (node : Node) :
    Lockstep (Tracks base k known) (operandValue evaluate node).run (exactOperand exact_ watched node).run
      (Ended (TreeFound base k known watched (.operand node)) (TreeFailed base k known)) := by
  apply (follow known watched node deep).bind
  rintro result ⟨found, conditions⟩ ctx told both
  obtain rfl : result = found := both.same
  cases result with
  | normal value =>
    refine .some {
      value := rfl
      tracks := both.tracks
      width := both.width
      own := ?_
      root := trivial }
    intro boolean watch on clean
    have trace := both.traced boolean watch on clean
    rw [TracedValue.conditionsOrOwn, trace]
    rfl
  | error info => exact .some ⟨rfl, rfl, both.tracks⟩
  | exit value => exact .some ⟨rfl, rfl, both.tracks⟩
  | break_ => exact .some ⟨rfl, rfl, both.tracks⟩
  | continue_ => exact .some ⟨rfl, rfl, both.tracks⟩

variable [DecimalArithmetic] [DecimalProducts]

theorem applyTraced_root {operator : String} {l r traced : TracedValue} (applied : applyTraced operator l r = .ok traced)
    (left right : OperatorTree Node String) : RootTrace (.binary operator left right) traced := by
  rw [applyTraced] at applied
  split at applied
  · cases applied
  · cases applied
    refine ⟨Option.isSome_map, ?_⟩
    intro atomic
    simp only [atomic, Bool.false_eq_true, if_false]

theorem found_apply {operator : String} {watched : Bool} {left right : OperatorTree Node String} {l r : TracedValue}
    {l' r' : Value × List Bool} {ctx : DispatchCtx σ} {told : Told σ} (left_value : l.value = l'.1)
    (left_width : (booleanOf l'.1).isSome = true → l'.2.length = treeWidth left fun node _ => width node)
    (left_own : known → (booleanOf l'.1).isSome = true → (watched && isLogical operator) = true → base.coverage.isSome = true →
      l.conditionsOrOwn = l'.2) (found : TreeFound base k known (watched && isLogical operator) right r r' ctx told) :
    Ended (TreeFound base k known watched (.binary operator left right)) (TreeFailed base k known) (applyTraced operator l r)
      (exactApply operator l' r') ctx told := by
  have root := fun traced (applied : applyTraced operator l r = .ok traced) => applyTraced_root applied left right
  rw [applyTraced, left_value, found.value] at root ⊢
  rw [exactApply]
  cases applied : applyBinary (binaryOp operator) l'.1 r'.1 with
  | error message => exact ⟨rfl, rfl, found.tracks⟩
  | ok value =>
    rw [applied] at root
    refine {
      value := rfl
      tracks := found.tracks
      width := ?_
      own := ?_
      root := root _ rfl }
    · intro boolean
      dsimp only
      rw [treeWidth]
      split
      next logical =>
        obtain ⟨a, b, c, left_is, right_is, -⟩ := logical_operands logical applied
        rw [List.length_append, left_width (by rw [left_is]; rfl), found.width (by rw [right_is]; rfl)]
      next =>
        obtain ⟨b, is⟩ := Option.isSome_iff_exists.mp boolean
        rw [show booleanOf value = some b from is]
        rfl
    · intro boolean watch on clean
      obtain ⟨b, is⟩ := Option.isSome_iff_exists.mp boolean
      rw [TracedValue.conditionsOrOwn]
      dsimp only at is ⊢
      rw [is]
      dsimp only [Option.map, Option.getD, Option.toList]
      split
      next logical =>
        obtain ⟨a, b, c, left_is, right_is, -⟩ := logical_operands logical applied
        have both : (watched && isLogical operator) = true := by rw [watch, logical]; rfl
        rw [left_own (found.tracks.known clean) (by rw [left_is]; rfl) both on, found.own (by rw [right_is]; rfl) both on clean]
      next => rfl

/-- A tree, by induction on it: while the right operand is evaluated, the conditions of the left one are known. -/
theorem lockstep_tree (follow : Follow base k evaluate exact_) (watched : Bool) (deep : Deep base k watched)
    (tree : OperatorTree Node String) :
    Lockstep (Tracks base k known) (tracedTree evaluate tree).run (exactTree exact_ watched tree).run
      (Ended (TreeFound base k known watched tree) (TreeFailed base k known)) := by
  induction tree generalizing watched known with
  | operand node => exact lockstep_operand follow watched deep node
  | binary operator left right ih_left ih_right =>
    have inner : Deep base k (watched && isLogical operator) := fun both => deep (Bool.and_eq_true_iff.mp both).1
    apply (ih_left (watched && isLogical operator) inner).bind_except
    intro l l'
    let left_own : Prop := (booleanOf l'.1).isSome = true → (watched && isLogical operator) = true → base.coverage.isSome = true →
      l.conditionsOrOwn = l'.2
    apply Lockstep.given (fun _ _ found => And.intro found.value found.width)
    rintro ⟨left_value, left_width⟩
    have evaluated : Lockstep (Tracks base k (known ∧ left_own)) (tracedTree evaluate right).run
        (exactTree exact_ (watched && isLogical operator) right).run
        (Ended (TreeFound base k (known ∧ left_own) (watched && isLogical operator) right) (TreeFailed base k (known ∧ left_own))) :=
      ih_right (watched && isLogical operator) inner
    refine (evaluated.mono ?_ fun a b c s ended => ended.mono (fun _ _ found => found) fun _ failed => { failed with tracks := failed.tracks.weaken And.left }).bind_except ?_
    · intro ctx told found
      exact { found.tracks with known := fun clean => ⟨found.tracks.known clean, fun boolean watch on => found.own boolean watch on clean⟩ }
    · intro r r' ctx told found
      have ended := found_apply left_value left_width And.right found
      exact .some (ended.mono (fun _ _ found => found.weaken And.left) fun _ failed => { failed with tracks := failed.tracks.weaken And.left })

end Trees

/-! ## Computations -/

section Computations

variable {σ : Type} {base : Collected} {k : Nat} {known : Prop} {evaluate : Node → Run σ Eval}
  {exact_ : Bool → Node → Exact σ (Eval × List Bool)}

def chainWidth (children : List Node) : Nat :=
  match chainTree children with
  | .ok tree => treeWidth tree fun node _ => width node
  | .error _ => 1

/-- The two results of a chain of operands and operators, and the trace that its value leaves. -/
structure ComputationFound (base : Collected) (k : Nat) (known : Prop) (watched : Bool) (children : List Node)
    (result : Eval × Option (List Bool)) (found : Eval × List Bool) (ctx : DispatchCtx σ) (told : Told σ) : Prop where
  same : result.1 = found.1
  tracks : Tracks base k known ctx told
  width : result.1.boolean?.isSome = true → found.2.length = if isConditional children then 1 else chainWidth children
  traced : children.length ≠ 1 → result.2.isSome = result.1.boolean?.isSome
  own : result.1.boolean?.isSome = true → watched = true → base.coverage.isSome = true → (base.collectAll told.log).clean = true →
    children.length ≠ 1 → result.2 = some found.2
  branch : isConditional children = false → endsLogical children = false → ∀ b, result.1.boolean? = some b → result.2.getD [b] = [b]
  conditional : isConditional children = true → found.2 = result.1.ownConditions

theorem found_refused {watched : Bool} {children : List Node} (message : String) {ctx : DispatchCtx σ} {told : Told σ}
    (tracks : Tracks base k known ctx told) :
    ComputationFound base k known watched children (.failed message, none) (.failed message, []) ctx told where
  same := rfl
  tracks := tracks
  width := nofun
  traced _ := rfl
  own := nofun
  branch _ _ := nofun
  conditional _ := rfl

variable [DecimalArithmetic] [DecimalProducts]

/-- What a single operand leaves: the vector of a value, and none of an error. -/
def operandFound : Eval × List Bool → Eval × List Bool
  | (.normal value, conditions) => (.normal value, conditions)
  | (other, _) => (other, [])

theorem exactChain_single (watched : Bool) (child : Node) :
    exactChain exact_ watched [child] = (do
      let found ← exact_ watched child
      pure (operandFound found)) := by
  change ((exact_ watched child >>= _) >>= _) = _
  rw [bind_assoc]
  apply bind_congr
  rintro ⟨result, conditions⟩
  cases result with
  | normal value => rfl
  | error info => rfl
  | exit value => rfl
  | break_ => rfl
  | continue_ => rfl

theorem lockstep_single (follow : Follow base k evaluate exact_) (watched : Bool) (deep : Deep base k watched) {child : Node}
    (flat : isConditional [child] = false) :
    Lockstep (Tracks base k known) (evalExprChain evaluate [child]) (exactChain exact_ watched [child])
      (ComputationFound base k known watched [child]) := by
  rw [exactChain_single, evalExprChain_single]
  apply (follow known watched child deep).bind
  rintro result ⟨found, conditions⟩ ctx told both
  obtain rfl : result = found := both.same
  have refused : ∀ other : Eval, other.boolean? = none →
      ComputationFound base k known watched [child] (other, none) (other, []) ctx told := by
    intro other none_
    exact {
      same := rfl
      tracks := both.tracks
      width := fun boolean => by rw [none_] at boolean; cases boolean
      traced := fun several => (several rfl).elim
      own := fun _ _ _ _ several => (several rfl).elim
      branch := fun _ _ _ _ => rfl
      conditional := fun conditional => by rw [flat] at conditional; cases conditional }
  cases result with
  | normal value =>
    refine .some {
      same := rfl
      tracks := both.tracks
      width := ?_
      traced := fun several => (several rfl).elim
      own := fun _ _ _ _ several => (several rfl).elim
      branch := fun _ _ _ _ => rfl
      conditional := fun conditional => by rw [flat] at conditional; cases conditional }
    intro boolean
    rw [flat]
    exact both.width boolean
  | error info => exact .some (refused _ rfl)
  | exit value => exact .some (refused _ rfl)
  | break_ => exact .some (refused _ rfl)
  | continue_ => exact .some (refused _ rfl)

omit [DecimalArithmetic] [DecimalProducts] in
theorem found_tree {watched : Bool} {children : List Node} {tree : OperatorTree Node String} (read : chainTree children = .ok tree)
    (several : children.length ≠ 1) (flat : isConditional children = false) {traced : TracedValue} {found : Value × List Bool}
    {ctx : DispatchCtx σ} {told : Told σ} (both : TreeFound base k known watched tree traced found ctx told) :
    ComputationFound base k known watched children (.normal traced.value, traced.conditions) (.normal found.1, found.2) ctx told := by
  obtain ⟨operator, left, right, rfl⟩ := chainTree_several read several
  obtain ⟨traced_some, traced_atomic⟩ := both.root
  refine {
    same := congrArg Eval.normal both.value
    tracks := both.tracks
    width := ?_
    traced := fun _ => traced_some
    own := ?_
    branch := ?_
    conditional := fun conditional => by rw [flat] at conditional; cases conditional }
  · intro boolean
    rw [flat, chainWidth, read]
    rw [Eval.boolean?, both.value] at boolean
    exact both.width boolean
  · intro boolean watch on clean _
    rw [Eval.boolean?, both.value] at boolean
    have own := both.own boolean watch on clean
    rw [both.value, boolean] at traced_some
    obtain ⟨conditions, is⟩ := Option.isSome_iff_exists.mp traced_some
    rw [TracedValue.conditionsOrOwn, is] at own
    rw [is]
    exact congrArg some own
  · intro _ atomic b is
    rw [endsLogical, read] at atomic
    have trace := traced_atomic atomic
    rw [Eval.boolean?] at is
    rw [is] at trace
    rw [trace]
    rfl

theorem lockstep_chain (follow : Follow base k evaluate exact_) (watched : Bool) (deep : Deep base k watched) {children : List Node}
    (flat : isConditional children = false) :
    Lockstep (Tracks base k known) (evalExprChain evaluate children) (exactChain exact_ watched children)
      (ComputationFound base k known watched children) := by
  cases read : chainTree children with
  | error message =>
    rw [evalExprChain_error evaluate read, exactChain, read]
    exact .pure fun _ _ tracks => found_refused message tracks
  | ok tree =>
    by_cases single : children.length = 1
    · obtain ⟨child, rfl⟩ := List.length_eq_one_iff.mp single
      exact lockstep_single follow watched deep flat
    · rw [evalExprChain_tree evaluate read single, exactChain, read]
      apply (lockstep_tree follow watched deep tree).bind
      intro traced found ctx told ended
      cases traced with
      | error other =>
        cases found with
        | ok found => exact ended.elim
        | error other' =>
          obtain ⟨rfl, failed⟩ := ended
          exact .some {
            same := rfl
            tracks := failed.tracks
            width := fun boolean => by rw [failed.none_] at boolean; cases boolean
            traced := fun _ => by rw [failed.none_]; rfl
            own := fun boolean => by rw [failed.none_] at boolean; cases boolean
            branch := fun _ _ b is => by rw [failed.none_] at is; cases is
            conditional := fun conditional => by rw [flat] at conditional; cases conditional }
      | ok traced =>
        cases found with
        | error other' => exact ended.elim
        | ok found => exact .some (found_tree read single flat ended)

omit [DecimalArithmetic] [DecimalProducts] in
theorem several_of_isConditional {children : List Node} (conditional : isConditional children = true) : children.length ≠ 1 := by
  intro single
  obtain ⟨child, rfl⟩ := List.length_eq_one_iff.mp single
  cases conditional

theorem exactComputation_flat {watched : Bool} {children : List Node} (flat : conditionalParts children = .flat) :
    exactComputation exact_ watched children = exactChain exact_ watched children := by
  rw [exactComputation]
  split
  next => rfl
  next refused =>
    rw [flat] at refused
    cases refused
  next parts =>
    rw [flat] at parts
    cases parts

theorem exactComputation_malformed {watched : Bool} {children : List Node} {message : String}
    (malformed : conditionalParts children = .malformed message) :
    exactComputation exact_ watched children = pure (.failed message, []) := by
  rw [exactComputation]
  split
  next flat =>
    rw [malformed] at flat
    cases flat
  next refused =>
    rw [malformed] at refused
    cases refused
    rfl
  next parts =>
    rw [malformed] at parts
    cases parts

theorem exactComputation_parts {watched : Bool} {children condition ifTrue ifFalse : List Node}
    (found : conditionalParts children = .parts condition ifTrue ifFalse) :
    exactComputation exact_ watched children =
      exactConditional watched (fun value => if value then ifTrue else ifFalse) (exactComputation exact_ false condition) fun value =>
        exactComputation exact_ (watched && isConditional (if value then ifTrue else ifFalse)) (if value then ifTrue else ifFalse) := by
  rw [exactComputation]
  split
  next flat =>
    rw [found] at flat
    cases flat
  next refused =>
    rw [found] at refused
    cases refused
  next parts =>
    rw [found] at parts
    cases parts
    apply congrArg
    funext value
    cases value with
    | false => rfl
    | true => rfl

omit [DecimalArithmetic] [DecimalProducts] in
theorem branch_clean {log : List Event} {logical : Bool} (clean : (base.collectAll (.branch logical :: log)).clean = true) :
    (base.collectAll log).clean = true ∧ (base.coverage.isSome = true → logical = false) := by
  have both : ((base.collectAll log).clean && ((base.collectAll log).coverage.isNone || !logical)) = true := clean
  obtain ⟨before, atomic⟩ := Bool.and_eq_true_iff.mp both
  refine ⟨before, ?_⟩
  intro on
  rw [← Option.not_isSome, Collected.isSome_collectAll, on] at atomic
  simpa using atomic

omit [DecimalArithmetic] [DecimalProducts] in
theorem Tracks.branch {ctx : DispatchCtx σ} {told : Told σ} (tracks : Tracks base k known ctx told) (logical : Bool) :
    Tracks base k known ctx { told with log := .branch logical :: told.log } where
  state := tracks.state
  frames := tracks.frames
  depth := tracks.depth
  covered := tracks.covered
  coverage clean := tracks.coverage (branch_clean clean).1
  fits := List.forall_mem_cons.mpr ⟨trivial, tracks.fits⟩
  known clean := tracks.known (branch_clean clean).1

omit [DecimalArithmetic] [DecimalProducts] in
/-- In a clean run the trace of the selected branch is its value. -/
theorem selected_own {watched : Bool} {selected : List Node} {result : Eval × Option (List Bool)} {found : Eval × List Bool}
    {ctx : DispatchCtx σ} {told : Told σ}
    (both : ComputationFound base k known (watched && isConditional selected) selected result found ctx told) {b : Bool}
    (is : result.1.boolean? = some b) (watch : watched = true) (on : base.coverage.isSome = true)
    (clean : (base.collectAll told.log).clean = true) (atomic : endsLogical selected = false) : result.2.getD [b] = [b] := by
  cases conditional : isConditional selected with
  | false => exact both.branch conditional atomic b is
  | true =>
    have boolean : result.1.boolean?.isSome = true := by rw [is]; rfl
    have inner : (watched && isConditional selected) = true := by rw [watch, conditional]; rfl
    rw [both.own boolean inner on clean (several_of_isConditional conditional), both.conditional conditional, Eval.ownConditions, is]
    rfl

omit [DecimalArithmetic] [DecimalProducts] in
/-- A conditional passes on the trace of the branch, and its exact version the value. -/
theorem lockstep_selected {watched : Bool} {children selected : List Node} (conditional : isConditional children = true)
    {branch : Run σ (Eval × Option (List Bool))} {branch' : Exact σ (Eval × List Bool)}
    (run : Lockstep (Tracks base k known) branch branch'
      (ComputationFound base k known (watched && isConditional selected) selected)) :
    Lockstep (Tracks base k known)
      (do
        let (result, trace) ← branch
        pure (result, result.boolean?.map fun outcome => trace.getD [outcome]))
      (do
        let (result, _) ← branch'
        if watched && result.boolean?.isSome then
          tell (.branch (endsLogical selected))
        pure (result, result.ownConditions))
      (ComputationFound base k known watched children) := by
  apply run.bind
  rintro ⟨result, trace⟩ ⟨result', conditions⟩ ctx told both
  obtain rfl : result = result' := both.same
  have one : result.boolean?.isSome = true → result.ownConditions.length = if isConditional children then 1 else chainWidth children := by
    intro boolean
    obtain ⟨b, is⟩ := Option.isSome_iff_exists.mp boolean
    rw [conditional, Eval.ownConditions, is]
    rfl
  by_cases logged : (watched && result.boolean?.isSome) = true
  · obtain ⟨watch, boolean⟩ := Bool.and_eq_true_iff.mp logged
    obtain ⟨b, is⟩ := Option.isSome_iff_exists.mp boolean
    dsimp only
    rw [if_pos logged]
    refine .some {
      same := rfl
      tracks := both.tracks.branch (endsLogical selected)
      width := one
      traced := fun _ => Option.isSome_map
      own := ?_
      branch := fun flat => by rw [conditional] at flat; cases flat
      conditional := fun _ => rfl }
    intro _ _ on clean _
    obtain ⟨before, atomic⟩ := branch_clean clean
    dsimp only
    rw [is, Eval.ownConditions, is]
    exact congrArg some (selected_own both is watch on before (atomic on))
  · dsimp only
    rw [if_neg logged]
    refine .some {
      same := rfl
      tracks := both.tracks
      width := one
      traced := fun _ => Option.isSome_map
      own := ?_
      branch := fun flat => by rw [conditional] at flat; cases flat
      conditional := fun _ => rfl }
    intro boolean watch
    exact (logged (Bool.and_eq_true_iff.mpr ⟨watch, boolean⟩)).elim

omit [DecimalArithmetic] [DecimalProducts] in
theorem lockstep_conditional {watched : Bool} {children : List Node} (conditional : isConditional children = true)
    {branches : Bool → List Node} {condition ifTrue ifFalse : Run σ (Eval × Option (List Bool))} {condition' : Exact σ (Eval × List Bool)}
    {branch' : Bool → Exact σ (Eval × List Bool)} {decided : List Node}
    (decide : Lockstep (Tracks base k known) condition condition' (ComputationFound base k known false decided))
    (select : ∀ value : Bool, Lockstep (Tracks base k known) (if value then ifTrue else ifFalse) (branch' value)
      (ComputationFound base k known (watched && isConditional (branches value)) (branches value))) :
    Lockstep (Tracks base k known) (evalConditional condition ifTrue ifFalse) (exactConditional watched branches condition' branch')
      (ComputationFound base k known watched children) := by
  have refused : ∀ other : Eval, other.boolean? = none → ∀ (ctx : DispatchCtx σ) (told : Told σ), Tracks base k known ctx told →
      ComputationFound base k known watched children (other, none) (other, []) ctx told := by
    intro other none_ ctx told tracks
    exact {
      same := rfl
      tracks := tracks
      width := fun boolean => by rw [none_] at boolean; cases boolean
      traced := fun _ => by rw [none_]; rfl
      own := fun boolean => by rw [none_] at boolean; cases boolean
      branch := fun _ _ b is => by rw [none_] at is; cases is
      conditional := fun _ => by rw [Eval.ownConditions, none_]; rfl }
  apply decide.bind
  rintro ⟨result, trace⟩ ⟨result', conditions⟩
  apply Lockstep.given (fun _ _ both => both.same)
  rintro (rfl : result = result')
  apply Lockstep.mono _ (fun _ _ both => both.tracks) (fun _ _ _ _ both => both)
  cases result with
  | error info => exact Lockstep.pure (refused _ rfl)
  | exit value => exact Lockstep.pure (refused _ rfl)
  | break_ => exact Lockstep.pure (refused _ rfl)
  | continue_ => exact Lockstep.pure (refused _ rfl)
  | normal value =>
    cases value with
    | boolean value =>
      cases value with
      | false => exact lockstep_selected conditional (select false)
      | true => exact lockstep_selected conditional (select true)
    | _ => exact Lockstep.pure (refused _ rfl)

theorem lockstep_computation (follow : Follow base k evaluate exact_) (watched : Bool) (deep : Deep base k watched)
    (children : List Node) :
    Lockstep (Tracks base k known) (evalComputationChain evaluate children) (exactComputation exact_ watched children)
      (ComputationFound base k known watched children) := by
  induction children using evalComputationChain.induct generalizing watched with
  | case1 children flat =>
    rw [evalComputationChain_flat evaluate flat, exactComputation_flat flat]
    exact lockstep_chain follow watched deep (by rw [isConditional, flat])
  | case2 children message malformed =>
    rw [evalComputationChain_malformed evaluate malformed, exactComputation_malformed malformed]
    exact .pure fun _ _ tracks => found_refused message tracks
  | case3 children condition ifTrue ifFalse parts ih_condition ih_true ih_false =>
    rw [evalComputationChain_parts evaluate parts, exactComputation_parts parts]
    apply lockstep_conditional (by rw [isConditional, parts]) (ih_condition false nofun)
    intro value
    cases value with
    | false => exact ih_false _ fun both => deep (Bool.and_eq_true_iff.mp both).1
    | true => exact ih_true _ fun both => deep (Bool.and_eq_true_iff.mp both).1

end Computations

end AlLanguage.Interpreter
