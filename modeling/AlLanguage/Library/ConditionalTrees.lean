import AlLanguage.Library.OperatorTrees
import Mathlib.Data.List.Basic

/-!
# Conditionals over trees of operators

`condition ? ifTrue : ifFalse` binds less tightly than every operator and associates to the right. A tree is determined by its symbols,
and its evaluation visits the operands in source order.
-/

namespace AlLanguage.Library

variable {α ω : Type}

inductive ChainSymbol (α ω : Type) where
  | token (t : Token α ω)
  | question
  | colon

inductive ConditionalTree (α ω : Type) where
  | flat (tree : OperatorTree α ω)
  | conditional (condition : OperatorTree α ω) (ifTrue ifFalse : ConditionalTree α ω)

namespace ConditionalTree

def yield : ConditionalTree α ω → List (ChainSymbol α ω)
  | flat tree => tree.inorder.map .token
  | conditional condition ifTrue ifFalse => condition.inorder.map .token ++ .question :: (ifTrue.yield ++ .colon :: ifFalse.yield)

def operands : ConditionalTree α ω → List α
  | flat tree => tree.operands
  | conditional condition ifTrue ifFalse => condition.operands ++ (ifTrue.operands ++ ifFalse.operands)

def Ordered (tier : ω → Nat) : ConditionalTree α ω → Prop
  | flat tree => tree.Ordered tier
  | conditional condition ifTrue ifFalse => condition.Ordered tier ∧ ifTrue.Ordered tier ∧ ifFalse.Ordered tier

/-! ## One tree only -/

/-- The number of symbols before the colon that closes `nested + 1` open conditionals. -/
def closing : (nested : Nat) → List (ChainSymbol α ω) → Option Nat
  | _, [] => none
  | nested, .question :: rest => (closing (nested + 1) rest).map (· + 1)
  | 0, .colon :: _ => some 0
  | nested + 1, .colon :: rest => (closing nested rest).map (· + 1)
  | nested, .token _ :: rest => (closing nested rest).map (· + 1)

theorem closing_tokens (nested : Nat) (tokens : List (Token α ω)) (rest : List (ChainSymbol α ω)) :
    closing nested (tokens.map .token ++ rest) = (closing nested rest).map (· + tokens.length) := by
  induction tokens with
  | nil => simp
  | cons token tokens ih =>
    rw [List.map_cons, List.cons_append, closing, ih, Option.map_map]
    rfl

theorem closing_yield (t : ConditionalTree α ω) (nested : Nat) (rest : List (ChainSymbol α ω)) :
    closing nested (t.yield ++ rest) = (closing nested rest).map (· + t.yield.length) := by
  induction t generalizing nested rest with
  | flat tree =>
    rw [yield, closing_tokens, List.length_map]
  | conditional condition ifTrue ifFalse ih_true ih_false =>
    rw [yield, List.append_assoc, closing_tokens, List.cons_append, closing, List.append_assoc, ih_true, List.cons_append, closing, ih_false]
    simp only [Option.map_map, Function.comp_def, List.length_append, List.length_cons, List.length_map]
    apply congrArg (Option.map · _)
    funext n
    omega

theorem question_notMem (tokens : List (Token α ω)) : ChainSymbol.question ∉ tokens.map ChainSymbol.token := by simp

theorem question_inj {tokens tokens' : List (Token α ω)} {rest rest' : List (ChainSymbol α ω)}
    (same : tokens.map ChainSymbol.token ++ .question :: rest = tokens'.map ChainSymbol.token ++ .question :: rest') :
    tokens = tokens' ∧ rest = rest' := by
  induction tokens generalizing tokens' with
  | nil =>
    cases tokens' with
    | nil => exact ⟨rfl, (List.cons.inj same).2⟩
    | cons token tokens' => cases (List.cons.inj same).1
  | cons token tokens ih =>
    cases tokens' with
    | nil => cases (List.cons.inj same).1
    | cons token' tokens' =>
      obtain ⟨first, below⟩ := List.cons.inj same
      obtain ⟨rfl, rfl⟩ := ih below
      exact ⟨congrArg (· :: tokens) (ChainSymbol.token.inj first), rfl⟩

/-- The colon of a conditional is the first one that is not inside another conditional. -/
theorem colon_inj {t t' : ConditionalTree α ω} {rest rest' : List (ChainSymbol α ω)}
    (same : t.yield ++ .colon :: rest = t'.yield ++ .colon :: rest') : t.yield = t'.yield ∧ rest = rest' := by
  have closes : closing 0 (t.yield ++ .colon :: rest) = some t.yield.length := by
    rw [closing_yield, closing, Option.map_some, Nat.zero_add]
  have closes' : closing 0 (t'.yield ++ .colon :: rest') = some t'.yield.length := by
    rw [closing_yield, closing, Option.map_some, Nat.zero_add]
  have lengths : t.yield.length = t'.yield.length := by
    rw [same, closes'] at closes
    exact (Option.some.inj closes).symm
  obtain ⟨yields, behind⟩ := List.append_inj same lengths
  exact ⟨yields, (List.cons.inj behind).2⟩

/-- The symbols of a tree determine it. -/
theorem Ordered.unique {tier : ω → Nat} {t t' : ConditionalTree α ω} (ordered : t.Ordered tier) (ordered' : t'.Ordered tier)
    (same : t.yield = t'.yield) : t = t' := by
  induction t generalizing t' with
  | flat tree =>
    cases t' with
    | flat tree' =>
      have tokens : tree.inorder = tree'.inorder := List.map_injective_iff.mpr (fun _ _ => ChainSymbol.token.inj) same
      rw [OperatorTree.Ordered.unique ordered ordered' tokens]
    | conditional condition' ifTrue' ifFalse' =>
      have inside : ChainSymbol.question ∈ tree.inorder.map ChainSymbol.token := by
        have equal : tree.inorder.map ChainSymbol.token = (conditional condition' ifTrue' ifFalse').yield := same
        rw [equal, yield]
        simp
      exact (question_notMem _ inside).elim
  | conditional condition ifTrue ifFalse ih_true ih_false =>
    cases t' with
    | flat tree' =>
      have inside : ChainSymbol.question ∈ tree'.inorder.map ChainSymbol.token := by
        have equal : (conditional condition ifTrue ifFalse).yield = tree'.inorder.map ChainSymbol.token := same
        rw [← equal, yield]
        simp
      exact (question_notMem _ inside).elim
    | conditional condition' ifTrue' ifFalse' =>
      obtain ⟨tokens, behind⟩ := question_inj same
      obtain ⟨yields_true, yields_false⟩ := colon_inj behind
      rw [OperatorTree.Ordered.unique ordered.1 ordered'.1 tokens, ih_true ordered.2.1 ordered'.2.1 yields_true,
        ih_false ordered.2.2 ordered'.2.2 yields_false]

end ConditionalTree

/-! ## Evaluation -/

section Evaluation

variable {β : Type} {m : Type → Type} [Monad m] (operand : α → m β) (apply : ω → β → β → m β) (decide : β → m Bool)

/-- Only the selected branch is evaluated. -/
def ConditionalTree.evaluate : ConditionalTree α ω → m β
  | .flat tree => tree.evaluate operand apply
  | .conditional condition ifTrue ifFalse => do
    let value ← condition.evaluate operand apply
    if ← decide value then ifTrue.evaluate else ifFalse.evaluate

variable {operand apply decide} {β' : Type} {operand' : α → m β'} {apply' : ω → β' → β' → m β'} {decide' : β' → m Bool} {f : β → β'}

/-- Values that carry more than the result. -/
theorem OperatorTree.evaluate_map [LawfulMonad m] (operands : ∀ a, f <$> operand a = operand' a)
    (applies : ∀ op l r, f <$> apply op l r = apply' op (f l) (f r)) (tree : OperatorTree α ω) :
    f <$> tree.evaluate operand apply = tree.evaluate operand' apply' := by
  induction tree with
  | operand a => exact operands a
  | binary op left right ih_left ih_right =>
    rw [evaluate, evaluate, ← ih_left, ← ih_right, map_bind, bind_map_left]
    apply bind_congr
    intro l
    rw [map_bind, bind_map_left]
    apply bind_congr
    intro r
    exact applies op l r

end Evaluation

/-! ## The order of evaluation -/

/-- The operands that the evaluation of a tree visits: all of them, or the first ones. -/
def OperatorTree.Visits (tree : OperatorTree α ω) (complete : Bool) (seen : List α) : Prop :=
  if complete then seen = tree.operands else seen <+: tree.operands

/-- The operands outside unselected branches, or the first ones of them. -/
inductive ConditionalTree.Visits : ConditionalTree α ω → (complete : Bool) → List α → Prop where
  | flat {tree : OperatorTree α ω} {complete : Bool} {seen : List α} (visits : tree.Visits complete seen) : Visits (.flat tree) complete seen
  | undecided {condition : OperatorTree α ω} {ifTrue ifFalse : ConditionalTree α ω} {seen : List α} (before : seen <+: condition.operands) :
    Visits (.conditional condition ifTrue ifFalse) false seen
  | ifTrue {condition : OperatorTree α ω} {ifTrue ifFalse : ConditionalTree α ω} {complete : Bool} {seen : List α}
    (branch : Visits ifTrue complete seen) : Visits (.conditional condition ifTrue ifFalse) complete (condition.operands ++ seen)
  | ifFalse {condition : OperatorTree α ω} {ifTrue ifFalse : ConditionalTree α ω} {complete : Bool} {seen : List α}
    (branch : Visits ifFalse complete seen) : Visits (.conditional condition ifTrue ifFalse) complete (condition.operands ++ seen)

theorem OperatorTree.Visits.first {tree : OperatorTree α ω} {complete : Bool} {seen : List α} (visits : tree.Visits complete seen) :
    seen <+: tree.operands := by
  cases complete with
  | true =>
    obtain rfl : seen = tree.operands := visits
    exact List.prefix_refl _
  | false => exact visits

/-- No operand is visited twice, and none before one to its left. -/
theorem ConditionalTree.Visits.sublist {t : ConditionalTree α ω} {complete : Bool} {seen : List α} (visits : t.Visits complete seen) :
    seen.Sublist t.operands := by
  induction visits with
  | flat visits => exact visits.first.sublist
  | undecided before => exact before.sublist.trans (List.sublist_append_left _ _)
  | ifTrue _ ih => exact (List.Sublist.refl _).append (ih.trans (List.sublist_append_left _ _))
  | ifFalse _ ih => exact (List.Sublist.refl _).append (ih.trans (List.sublist_append_right _ _))

section Logs

variable {β ε γ : Type}

/-- Every evaluation of an operand appends its result. -/
def Logs (operand : α → ExceptT ε (StateT γ Option) β) (log : γ → List (α × Except ε β)) : Prop :=
  ∀ a s result s', (operand a).run s = some (result, s') → log s' = log s ++ [(a, result)]

/-- An operand without a value is the last one, and the result is its error. -/
def Ends (result : Except ε β) : List (α × Except ε β) → Prop
  | [] => True
  | (_, .ok _) :: rest => Ends result rest
  | (_, .error e) :: rest => rest = [] ∧ result = .error e

theorem Ends.append {value : β} {result : Except ε β} {first second : List (α × Except ε β)} (before : Ends (.ok value) first)
    (after : Ends result second) : Ends result (first ++ second) := by
  induction first with
  | nil => exact after
  | cons entry first ih =>
    obtain ⟨a, found⟩ := entry
    cases found with
    | ok value => exact ih before
    | error e => cases before.2

variable {operand : α → ExceptT ε (StateT γ Option) β} {apply : ω → β → β → Except ε β} {decide : β → Except ε Bool}
  {log : γ → List (α × Except ε β)}

/-- The errors of operators and of conditions. -/
def Fails (apply : ω → β → β → Except ε β) (decide : β → Except ε Bool) (e : ε) : Prop :=
  (∃ op l r, apply op l r = .error e) ∨ ∃ value, decide value = .error e

/-- What an evaluation has added to the log, and where its error comes from. -/
def Added (apply : ω → β → β → Except ε β) (decide : β → Except ε Bool) (visits : (complete : Bool) → List α → Prop)
    (before after : List (α × Except ε β)) (result : Except ε β) : Prop :=
  ∃ seen, after = before ++ seen ∧ visits result.isOk (seen.map Prod.fst) ∧ Ends result seen ∧
    ∀ e, result = .error e → (∃ a, (a, .error e) ∈ seen) ∨ Fails apply decide e

namespace Added

variable {visits visits' final : Bool → List α → Prop} {before middle after : List (α × Except ε β)} {result : Except ε β}

theorem mono (added : Added apply decide visits before after result) (weaker : ∀ seen, visits result.isOk seen → visits' result.isOk seen) :
    Added apply decide visits' before after result := by
  obtain ⟨seen, is, visited, ends, origin⟩ := added
  exact ⟨seen, is, weaker _ visited, ends, origin⟩

theorem append {value : β} (first : Added apply decide visits before middle (.ok value)) (second : Added apply decide visits' middle after result)
    (both : ∀ xs ys, visits true xs → visits' result.isOk ys → final result.isOk (xs ++ ys)) :
    Added apply decide final before after result := by
  obtain ⟨xs, rfl, visited, ends, _⟩ := first
  obtain ⟨ys, rfl, visited', ends', origin⟩ := second
  refine ⟨xs ++ ys, List.append_assoc _ _ _, ?_, ends.append ends', ?_⟩
  · rw [List.map_append]
    exact both _ _ visited visited'
  · intro e is
    obtain ⟨a, inside⟩ | fails := origin e is
    · exact .inl ⟨a, List.mem_append_right _ inside⟩
    · exact .inr fails

theorem value {found found' : β} (added : Added apply decide visits before after (.ok found)) :
    Added apply decide visits before after (.ok found') := by
  obtain ⟨seen, rfl, visited, ends, _⟩ := added
  refine ⟨seen, rfl, visited, ?_, fun e is => nomatch is⟩
  have all : Ends (Except.ok found' : Except ε β) (seen ++ []) := ends.append trivial
  rwa [List.append_nil] at all

theorem fail {value : β} {e : ε} (first : Added apply decide visits before after (.ok value)) (fails : Fails apply decide e)
    (weaker : ∀ seen, visits true seen → visits' false seen) : Added apply decide visits' before after (.error e) := by
  obtain ⟨seen, rfl, visited, ends, _⟩ := first
  refine ⟨seen, rfl, weaker _ visited, ?_, ?_⟩
  · have stopped : Ends (Except.error e : Except ε β) (seen ++ []) := ends.append trivial
    rwa [List.append_nil] at stopped
  · intro e' is
    cases is
    exact .inr fails

end Added

/-- A computation with errors stops at its first part or runs the second one. -/
theorem except_bind_run {β' : Type} {m : ExceptT ε (StateT γ Option) β'} {f : β' → ExceptT ε (StateT γ Option) β} {s s' : γ}
    {result : Except ε β} (run : (m >>= f).run s = some (result, s')) :
    (∃ e, m.run s = some (.error e, s') ∧ result = .error e) ∨ ∃ value middle, m.run s = some (.ok value, middle) ∧
      (f value).run middle = some (result, s') := by
  change (m.run s).bind _ = _ at run
  obtain ⟨⟨first, middle⟩, ran, rest⟩ := Option.bind_eq_some_iff.mp run
  cases first with
  | error e =>
    cases rest
    exact .inl ⟨e, ran, rfl⟩
  | ok value => exact .inr ⟨value, middle, ran, rest⟩

theorem OperatorTree.evaluate_added (logs : Logs operand log) (tree : OperatorTree α ω) {s s' : γ} {result : Except ε β}
    (run : (tree.evaluate operand fun op l r => ExceptT.mk (pure (apply op l r))).run s = some (result, s')) :
    Added apply decide tree.Visits (log s) (log s') result := by
  induction tree generalizing s s' result with
  | operand a =>
    refine ⟨[(a, result)], logs a s result s' run, ?_, ?_, ?_⟩
    · cases result with
      | ok value => exact rfl
      | error e => exact List.prefix_refl _
    · cases result with
      | ok value => trivial
      | error e => exact ⟨rfl, rfl⟩
    · rintro e rfl
      exact .inl ⟨a, List.mem_singleton_self _⟩
  | binary op left right ih_left ih_right =>
    obtain ⟨e, ran, rfl⟩ | ⟨l, middle, ran, rest⟩ := except_bind_run run
    · exact (ih_left ran).mono fun seen visited => List.IsPrefix.trans visited (List.prefix_append _ _)
    · obtain ⟨e, ran', rfl⟩ | ⟨r, last, ran', rest⟩ := except_bind_run rest
      · apply (ih_left ran).append (ih_right ran')
        rintro xs ys (rfl : xs = left.operands) visited
        exact (List.prefix_append_right_inj _).mpr visited
      · have all : Added apply decide (OperatorTree.binary op left right).Visits (log s) (log last) (.ok r) := by
          apply (ih_left ran).append (ih_right ran')
          rintro xs ys (rfl : xs = left.operands) (rfl : ys = right.operands)
          rfl
        have applied : some (apply op l r, last) = some (result, s') := rest
        obtain ⟨is, rfl⟩ := Prod.mk.inj (Option.some.inj applied)
        cases result with
        | ok value => exact all.value
        | error e => exact all.fail (.inl ⟨op, l, r, is⟩) fun seen visited => visited.first

/-- Operands are evaluated in source order, and none behind one that has no value. -/
theorem ConditionalTree.evaluate_added (logs : Logs operand log) (t : ConditionalTree α ω) {s s' : γ} {result : Except ε β}
    (run : (t.evaluate operand (fun op l r => ExceptT.mk (pure (apply op l r))) fun value => ExceptT.mk (pure (decide value))).run s =
      some (result, s')) : Added apply decide t.Visits (log s) (log s') result := by
  induction t generalizing s s' result with
  | flat tree => exact (tree.evaluate_added logs run).mono fun seen visited => .flat visited
  | conditional condition ifTrue ifFalse ih_true ih_false =>
    obtain ⟨e, ran, rfl⟩ | ⟨value, middle, ran, rest⟩ := except_bind_run run
    · exact (condition.evaluate_added logs ran).mono fun seen visited => .undecided visited
    · have first : Added apply decide condition.Visits (log s) (log middle) (.ok value) := condition.evaluate_added logs ran
      obtain ⟨e, ran', rfl⟩ | ⟨b, last, ran', rest⟩ := except_bind_run rest
      · obtain ⟨is, rfl⟩ := Prod.mk.inj (Option.some.inj (show some (decide value, middle) = some (.error e, s') from ran'))
        exact first.fail (.inr ⟨value, is⟩) fun seen visited => .undecided visited.first
      · obtain ⟨-, rfl⟩ := Prod.mk.inj (Option.some.inj (show some (decide value, middle) = some (.ok b, last) from ran'))
        cases b with
        | true =>
          apply first.append (ih_true rest)
          rintro xs ys (rfl : xs = condition.operands) visited
          exact .ifTrue visited
        | false =>
          apply first.append (ih_false rest)
          rintro xs ys (rfl : xs = condition.operands) visited
          exact .ifFalse visited

/-- The errors of an evaluation are errors of its operands, its operators and its conditions. -/
theorem OperatorTree.evaluate_error {p : ε → Prop} (operands : ∀ a s e s', (operand a).run s = some (.error e, s') → p e)
    (fails : ∀ e, Fails apply decide e → p e) (tree : OperatorTree α ω) {s s' : γ} {e : ε}
    (run : (tree.evaluate operand fun op l r => ExceptT.mk (pure (apply op l r))).run s = some (.error e, s')) : p e := by
  induction tree generalizing s s' with
  | operand a => exact operands a s e s' run
  | binary op left right ih_left ih_right =>
    obtain ⟨e', ran, is⟩ | ⟨l, middle, ran, rest⟩ := except_bind_run run
    · cases is
      exact ih_left ran
    · obtain ⟨e', ran', is⟩ | ⟨r, last, ran', rest⟩ := except_bind_run rest
      · cases is
        exact ih_right ran'
      · obtain ⟨is, -⟩ := Prod.mk.inj (Option.some.inj (show some (apply op l r, last) = some (.error e, s') from rest))
        exact fails e (.inl ⟨op, l, r, is⟩)

theorem ConditionalTree.evaluate_error {p : ε → Prop} (operands : ∀ a s e s', (operand a).run s = some (.error e, s') → p e)
    (fails : ∀ e, Fails apply decide e → p e) (t : ConditionalTree α ω) {s s' : γ} {e : ε}
    (run : (t.evaluate operand (fun op l r => ExceptT.mk (pure (apply op l r))) fun value => ExceptT.mk (pure (decide value))).run s =
      some (.error e, s')) : p e := by
  induction t generalizing s s' with
  | flat tree => exact tree.evaluate_error operands fails run
  | conditional condition ifTrue ifFalse ih_true ih_false =>
    obtain ⟨e', ran, is⟩ | ⟨value, middle, ran, rest⟩ := except_bind_run run
    · cases is
      exact condition.evaluate_error operands fails ran
    · obtain ⟨e', ran', is⟩ | ⟨b, last, ran', rest⟩ := except_bind_run rest
      · cases is
        obtain ⟨is, -⟩ := Prod.mk.inj (Option.some.inj (show some (decide value, middle) = some (.error e, s') from ran'))
        exact fails e (.inr ⟨value, is⟩)
      · cases b with
        | true => exact ih_true rest
        | false => exact ih_false rest

end Logs

end AlLanguage.Library
