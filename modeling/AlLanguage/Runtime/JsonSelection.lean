import AlLanguage.Library.Fueled
import AlLanguage.Runtime.JsonPathSyntax

/-!
# Selecting a token

- The parser answers every text, and no path that it accepts ends in a descent.
- `SelectToken` gives the token that a path denotes when it denotes just one.
-/

namespace AlLanguage.Runtime.Json

open Library Fueled

namespace PathSyntax

/-! ## Parts without filters -/

theorem span_length {p : Char → Bool} {text before after : List Char} (split : text.span p = (before, after)) :
    text.length = before.length + after.length := by
  rw [List.span_eq_takeWhile_dropWhile] at split
  cases split
  rw [← List.length_append, List.takeWhile_append_dropWhile]

theorem trimStart_length (text : List Char) : (trimStart text).length ≤ text.length :=
  (List.dropWhile_suffix _).length_le

/-- A step that is no descent and has no filter. -/
def Plain (step : PathStep) : Prop := step.Closed ∧ step ≠ .descend

theorem dottedStep_ok {path : String} {inFilter : Bool} {text rest : List Char} {step : PathStep}
    (done : dottedStep path inFilter text = .ok (step, rest)) : rest.length < text.length ∧ Plain step := by
  unfold dottedStep at done
  split at done
  · cases done
    exact ⟨Nat.lt_succ_self _, trivial, PathStep.noConfusion⟩
  · split at done
    next => cases done
    next name after nonempty split =>
      cases done
      have length := span_length split
      have positive := List.length_pos_iff.mpr nonempty
      refine ⟨?_, trivial, PathStep.noConfusion⟩
      omega

theorem splitAt_ok {stop : Char} {text before after : List Char} (done : splitAt stop text = some (before, after)) :
    before.length + after.length < text.length := by
  unfold splitAt at done
  split at done
  next => cases done
  next split =>
    cases done
    rw [span_length split, List.length_cons]
    omega

theorem quotedStep_ok {path : String} {text rest : List Char} {step : PathStep} (done : quotedStep path text = .ok (step, rest)) :
    rest.length ≤ text.length ∧ Plain step := by
  unfold quotedStep at done
  split at done
  next => cases done
  next key after found =>
    split at done
    next shape =>
      cases done
      have length := splitAt_ok found
      have trimmed := trimStart_length after
      rw [shape, List.length_cons] at trimmed
      refine ⟨?_, trivial, PathStep.noConfusion⟩
      omega
    next => cases done

theorem plainStep_ok {path : String} {inner rest : List Char} {step : PathStep} (done : plainStep path inner = .ok (step, rest)) :
    rest.length ≤ inner.length ∧ Plain step := by
  unfold plainStep at done
  split at done
  next => cases done
  next between after found =>
    have length := splitAt_ok found
    dsimp only at done
    split at done
    · cases done
      refine ⟨?_, trivial, PathStep.noConfusion⟩
      omega
    · split at done
      next =>
        split at done
        · cases done
          refine ⟨?_, trivial, PathStep.noConfusion⟩
          omega
        · cases done
      next => cases done

theorem filterEnd_ok {text before expression rest : List Char} {depth : Nat} {quoted : Bool}
    (done : filterEnd text depth quoted before = some (expression, rest)) :
    expression.length + rest.length + 2 ≤ text.length + before.length := by
  induction text generalizing depth quoted before with
  | nil => cases done
  | cons c text ih =>
    have onward : ∀ {depth quoted}, filterEnd text depth quoted (c :: before) = some (expression, rest) →
        expression.length + rest.length + 2 ≤ (c :: text).length + before.length := by
      intro depth quoted found
      have length := ih found
      rw [List.length_cons] at length ⊢
      omega
    unfold filterEnd at done
    split at done
    · exact onward done
    · split at done
      · exact onward done
      · split at done
        · split at done
          · split at done
            next =>
              cases done
              rw [List.length_reverse, List.length_cons, List.length_cons]
              omega
            next => cases done
          · exact onward done
        · exact onward done

theorem readOp_ok {text rest : List Char} {op : CompareOp} (done : readOp text = some (op, rest)) : rest.length ≤ text.length := by
  unfold readOp at done
  split at done
  all_goals
    cases done
  all_goals
    simp only [List.length_cons]
    omega

theorem closedParts_append {parts more : List PathFilter} (closed : ClosedParts parts) (closed' : ClosedParts more) :
    ClosedParts (parts ++ more) := by
  induction parts with
  | nil => exact closed'
  | cons part rest ih =>
    rw [List.cons_append, ClosedParts]
    rw [ClosedParts] at closed
    exact ⟨closed.1, ih closed.2⟩

theorem closed_joined {join : List PathFilter → PathFilter} (joins : ∀ parts, ClosedParts parts → (join parts).Closed)
    {parts : List PathFilter} (closed : ClosedParts parts) : (joined join parts).Closed := by
  unfold joined
  split
  next part =>
    rw [ClosedParts] at closed
    exact closed.1
  next => exact joins _ closed

theorem closed_any {parts : List PathFilter} (closed : ClosedParts parts) : (PathFilter.any parts).Closed := by
  rwa [PathFilter.Closed]

theorem closed_all {parts : List PathFilter} (closed : ClosedParts parts) : (PathFilter.all parts).Closed := by
  rwa [PathFilter.Closed]

theorem closedParts_singleton {part : PathFilter} (closed : part.Closed) : ClosedParts [part] := by
  rw [ClosedParts, ClosedParts]
  exact ⟨closed, trivial⟩

theorem closed_steps {step : PathStep} {steps : List PathStep} (plain : Plain step) (closed : ClosedSteps steps) :
    ClosedSteps (step :: steps) := by
  rw [ClosedSteps]
  exact ⟨plain.1, closed, fun descend => absurd descend plain.2⟩

theorem closed_descend {steps : List PathStep} (closed : ClosedSteps steps) (more : steps ≠ []) : ClosedSteps (.descend :: steps) := by
  rw [ClosedSteps]
  exact ⟨trivial, closed, fun _ => more⟩

/-! ## Fuel -/

section Syntax

variable {parseNumber : String → Option Decimal}

theorem numberOperand_ok {refuse : PathError} {text rest : List Char} {o : FilterOperand}
    (done : numberOperand parseNumber refuse text = .ok (o, rest)) : rest.length ≤ text.length ∧ o.Closed := by
  unfold numberOperand at done
  cases split : text.span fun c => c.isDigit || ['+', '-', '.', 'e', 'E'].contains c with
  | mk number after =>
    rw [split] at done
    dsimp only at done
    have length := span_length split
    split at done
    · cases done
      rw [FilterOperand.Closed]
      refine ⟨?_, trivial⟩
      omega
    · cases done

/-- Each parser has an answer on fuel three times the text, and a little more. -/
theorem parsers_end (parseNumber : String → Option Decimal) (path : String) (fuel : Nat) :
    (∀ inFilter text, 3 * text.length + 1 ≤ fuel → Ends (fun r => r.2.length ≤ text.length ∧ ClosedSteps r.1 ∧
      (text.head? = some '[' → r.1 ≠ [])) (parseSteps parseNumber path inFilter fuel text)) ∧
    (∀ inner, 3 * inner.length + 3 ≤ fuel → Ends (fun r => r.2.length ≤ inner.length ∧ Plain r.1) (bracketStep parseNumber path fuel inner)) ∧
    (∀ expression any all text, 3 * text.length + 2 ≤ fuel → ClosedParts any → ClosedParts all →
      Ends PathFilter.Closed (parseFilter parseNumber path expression fuel any all text)) ∧
    (∀ refuse text, 3 * text.length + 1 ≤ fuel → Ends (fun r => r.2.length ≤ text.length ∧ r.1.Closed)
      (parseOperand parseNumber path refuse fuel text)) := by
  induction fuel with
  | zero => simp
  | succ fuel ih =>
    obtain ⟨steps, bracket, filter, operand⟩ := ih
    refine ⟨?_, ?_, ?_, ?_⟩
    · intro inFilter text enough
      unfold parseSteps
      split
      next => contradiction
      next fuel' after same =>
        cases same
        simp only [List.length_cons] at enough ⊢
        apply ends_bind (steps inFilter ('[' :: after) (by rw [List.length_cons]; omega))
        rintro ⟨rest, left⟩ ⟨shorter, closed, more⟩
        rw [List.length_cons] at shorter
        apply ends_pure
        refine ⟨?_, closed_descend closed (more rfl), fun is => by cases is⟩
        dsimp only at shorter ⊢
        omega
      next fuel' after _ same =>
        cases same
        simp only [List.length_cons] at enough ⊢
        apply ends_bind (ends_mk fun _ done => dottedStep_ok done)
        rintro ⟨step, later⟩ ⟨fewer, plain⟩
        dsimp only at fewer plain
        apply ends_bind (steps inFilter later (by omega))
        rintro ⟨rest, left⟩ ⟨shorter, closed, more⟩
        apply ends_pure
        refine ⟨?_, closed_descend (closed_steps plain closed) (List.cons_ne_nil _ _), fun is => by cases is⟩
        dsimp only at shorter ⊢
        omega
      next fuel' after _ _ same =>
        cases same
        simp only [List.length_cons] at enough ⊢
        apply ends_bind (ends_mk fun _ done => dottedStep_ok done)
        rintro ⟨step, later⟩ ⟨fewer, plain⟩
        dsimp only at fewer plain
        apply ends_bind (steps inFilter later (by omega))
        rintro ⟨rest, left⟩ ⟨shorter, closed, more⟩
        apply ends_pure
        refine ⟨?_, closed_steps plain closed, fun is => by cases is⟩
        dsimp only at shorter ⊢
        omega
      next fuel' inner same =>
        cases same
        simp only [List.length_cons] at enough ⊢
        apply ends_bind (bracket inner (by omega))
        rintro ⟨step, later⟩ ⟨fewer, plain⟩
        dsimp only at fewer plain
        apply ends_bind (steps inFilter later (by omega))
        rintro ⟨rest, left⟩ ⟨shorter, closed, more⟩
        apply ends_pure
        refine ⟨?_, closed_steps plain closed, fun _ => List.cons_ne_nil _ _⟩
        dsimp only at fewer shorter ⊢
        omega
      next fuel' no_bracket =>
        apply ends_pure
        refine ⟨Nat.le_refl _, trivial, ?_⟩
        intro is
        obtain ⟨inner, shape⟩ := List.head?_eq_some_iff.mp is
        exact (no_bracket inner shape).elim
    · intro inner enough
      unfold bracketStep
      split
      next => contradiction
      next fuel' after same =>
        cases same
        simp only [List.length_cons] at enough ⊢
        split
        next => exact ends_throw _
        next expression rest found =>
          have length := filterEnd_ok found
          rw [List.length_nil] at length
          apply ends_bind (filter expression [] [] expression (by omega) trivial trivial)
          intro f closed
          apply ends_pure
          refine ⟨?_, ?_, PathStep.noConfusion⟩
          · dsimp only
            omega
          · rwa [PathStep.Closed]
      next fuel' text same =>
        apply ends_mk
        rintro ⟨step, rest⟩ done
        obtain ⟨shorter, plain⟩ := quotedStep_ok done
        refine ⟨?_, plain⟩
        rw [List.length_cons]
        exact Nat.le_succ_of_le shorter
      next =>
        apply ends_mk
        rintro ⟨step, rest⟩ done
        exact plainStep_ok done
    · intro expression any all text enough closedAny closedAll
      have shorter := trimStart_length text
      rw [parseFilter]
      dsimp only
      split
      · exact ends_throw _
      · apply ends_bind (operand _ (trimStart text) (by omega))
        rintro ⟨left, after⟩ ⟨fewer, closed⟩
        have trimmed := trimStart_length after
        dsimp only at fewer closed ⊢
        have part : Ends (fun r => r.2.length ≤ text.length ∧ r.1.Closed) (partFrom (unsupported "filter" (String.ofList expression) path)
            (parseOperand parseNumber path (unsupported "filter" (String.ofList expression) path) fuel) left (trimStart after)) := by
          unfold partFrom
          split
          next op later found =>
            have length := readOp_ok found
            have trimmed' := trimStart_length later
            apply ends_bind (operand _ (trimStart later) (by omega))
            rintro ⟨right, behind⟩ ⟨fewer', closed'⟩
            have trimmed'' := trimStart_length behind
            apply ends_pure
            refine ⟨?_, ?_⟩
            · dsimp only at fewer' ⊢
              omega
            · rw [PathFilter.Closed]
              exact ⟨closed, closed'⟩
          next =>
            split
            · apply ends_pure
              refine ⟨?_, ?_⟩
              · dsimp only
                omega
              · rwa [PathFilter.Closed]
            · exact ends_throw _
        apply ends_bind part
        rintro ⟨part, rest⟩ ⟨fewer', closed'⟩
        have all' := closedParts_append closedAll (closedParts_singleton closed')
        have any' := closedParts_append closedAny (closedParts_singleton (closed_joined (fun _ => closed_all) all'))
        dsimp only at fewer' ⊢
        split
        next later =>
          simp only [List.length_cons] at fewer'
          exact filter expression any _ later (by omega) closedAny all'
        next later =>
          simp only [List.length_cons] at fewer'
          exact filter expression _ [] later (by omega) any' trivial
        next =>
          apply ends_pure
          exact closed_joined (fun _ => closed_any) any'
        next => exact ends_throw _
    · intro refuse text enough
      have from_steps : ∀ (fromRoot : Bool) (rest : List Char), 3 * rest.length + 1 ≤ fuel →
          Ends (fun r => r.2.length ≤ rest.length + 1 ∧ r.1.Closed) (((parseSteps parseNumber path true fuel rest).adapt fun _ => refuse) >>=
            fun found => pure (FilterOperand.path fromRoot found.1, found.2) : PathParse (FilterOperand × List Char)) := by
        intro fromRoot rest enough
        apply ends_bind (ends_adapt (steps true rest enough))
        rintro ⟨steps, left⟩ ⟨shorter, closed, _⟩
        apply ends_pure
        refine ⟨Nat.le_succ_of_le shorter, ?_⟩
        rwa [FilterOperand.Closed]
      have literal : ∀ (s : Scalar) (rest : List Char), rest.length ≤ text.length →
          Ends (fun r => r.2.length ≤ text.length ∧ r.1.Closed) (pure (FilterOperand.literal s, rest) : PathParse _) := by
        intro s rest shorter
        apply ends_pure
        refine ⟨shorter, ?_⟩
        rw [FilterOperand.Closed]
        trivial
      unfold parseOperand
      split
      next => contradiction
      next fuel' rest same =>
        cases same
        rw [List.length_cons] at enough ⊢
        exact from_steps false rest (by omega)
      next fuel' rest same =>
        cases same
        rw [List.length_cons] at enough ⊢
        exact from_steps true rest (by omega)
      next fuel' rest same =>
        split
        next before after found =>
          have length := splitAt_ok found
          apply literal
          rw [List.length_cons]
          omega
        next => exact ends_throw _
      next =>
        apply literal
        simp only [List.length_cons]
        omega
      next =>
        apply literal
        simp only [List.length_cons]
        omega
      next =>
        apply literal
        simp only [List.length_cons]
        omega
      next =>
        apply ends_mk
        rintro ⟨o, rest⟩ done
        exact numberOperand_ok done

theorem parseFrom_ends (parseNumber : String → Option Decimal) (path : String) (text : List Char) :
    Ends (fun r => ClosedSteps r.1) (parseFrom parseNumber path (fuelFor text) text) := by
  have steps := (parsers_end parseNumber path (fuelFor text)).1 false
  have weaker : ∀ r : List PathStep × List Char, (r.2.length ≤ text.length ∧ ClosedSteps r.1 ∧ (text.head? = some '[' → r.1 ≠ [])) →
      ClosedSteps r.1 := fun _ facts => facts.2.1
  unfold parseFrom
  split
  next rest =>
    refine ends_mono (steps rest ?_) fun _ facts => facts.2.1
    rw [fuelFor, List.length_cons]
    omega
  next => exact ends_mono (steps [] (by decide)) fun _ facts => facts.2.1
  next c rest _ =>
    split
    · exact ends_mono (steps (c :: rest) (Nat.le_refl _)) fun _ facts => facts.2.1
    · cases split : nameAndRest false (c :: rest) with
      | mk name after =>
        have length := span_length split
        dsimp only
        apply ends_bind (steps after (by rw [fuelFor, length]; omega))
        rintro ⟨more, left⟩ ⟨_, closed, _⟩
        apply ends_pure
        exact closed_steps ⟨trivial, PathStep.noConfusion⟩ closed

theorem parseTrimmed_ends (parseNumber : String → Option Decimal) (path : String) (text : List Char) : Ends ClosedSteps (parseTrimmed parseNumber path text) := by
  apply ends_bind (parseFrom_ends parseNumber path text)
  rintro ⟨steps, rest⟩ closed
  dsimp only
  split
  · exact ends_pure closed
  · exact ends_throw _

theorem parsePath_closed {path : String} {steps : List PathStep} (parsed : parsePath parseNumber path = .ok steps) : ClosedSteps steps := by
  obtain ⟨answer, done, closed⟩ := parseTrimmed_ends parseNumber path (trim path).toList
  rw [parsePath, done, Option.getD_some] at parsed
  exact closed steps parsed

end Syntax

end PathSyntax

/-! ## The method -/

section Selection

variable [JsonSyntax] {a : JsonArena} {node : NodeId}

namespace JsonArena

omit [JsonSyntax] in
theorem tokenAnswer_inj {n m : NodeId} (same : a.tokenAnswer n = a.tokenAnswer m) : n = m := by
  have arenas : (a.tokenAnswer n).2.targets = (a.tokenAnswer m).2.targets := by rw [same]
  have found := congrArg (fun targets => targets.get? a.nextId) arenas
  replace found : (a.targets.insert a.nextId n).get? a.nextId = (a.targets.insert a.nextId m).get? a.nextId := found
  rw [IndexMap.get?_insert, IndexMap.get?_insert, if_pos rfl, if_pos rfl] at found
  exact Option.some.inj found

theorem selectToken_tokenAnswer_iff {path : String} {steps : List PathStep} (parsed : JsonSyntax.parsePath path = .ok steps) (n : NodeId) :
    a.selectToken node [.value (.text path)] = a.tokenAnswer n ↔ a.follow node steps false [node] = [n] := by
  have failed : ∀ e b, ((.error e, b) : Answer) ≠ a.tokenAnswer n := by
    intro e b same
    cases congrArg (fun answer : Answer => answer.1.isOk) same
  unfold selectToken
  rw [show keyArg [.value (.text path)] "the path" = .ok path from rfl]
  dsimp only [withArg]
  rw [select, parsed]
  dsimp only [Except.map]
  cases a.follow node steps false [node] with
  | nil => exact iff_of_false (failed _ _) (List.cons_ne_nil _ _).symm
  | cons found rest =>
    cases rest with
    | nil =>
      constructor
      · intro same
        rw [tokenAnswer_inj same]
      · rintro same
        cases same
        rfl
    | cons second rest =>
      refine iff_of_false (failed _ _) ?_
      intro same
      cases same

end JsonArena

/-- The parser answers every path text. The nodes a path selects in a forest are those that it denotes, and `SelectToken` gives a token
of one of them just when the path, with at most one descent, denotes no other node. -/
theorem selectToken_denotes (paths : ∀ path, JsonSyntax.parsePath path = (PathSyntax.parsePath JsonSyntax.parseNumber path).mapError PathSyntax.PathError.intoMessage)
    (forest : a.Forest) (node : NodeId) (path : String) :
    (∃ answer, (PathSyntax.parseTrimmed JsonSyntax.parseNumber path (trim path).toList).run = some answer) ∧
    ∀ steps, PathSyntax.parsePath JsonSyntax.parseNumber path = .ok steps →
      (∀ found, found ∈ a.follow node steps false [node] ↔ a.Denotes node steps node found) ∧
      (JsonArena.descents steps ≤ 1 → ∀ n, a.selectToken node [.value (.text path)] = a.tokenAnswer n ↔
        ∀ found, a.Denotes node steps node found ↔ found = n) := by
  constructor
  · obtain ⟨answer, done, _⟩ := PathSyntax.parseTrimmed_ends JsonSyntax.parseNumber path (trim path).toList
    exact ⟨answer, done⟩
  · intro steps parsed
    obtain ⟨members, nodup⟩ := JsonArena.follow_from forest node (PathSyntax.parsePath_closed parsed)
    refine ⟨members, ?_⟩
    intro once n
    have here : JsonSyntax.parsePath path = .ok steps := by
      rw [paths, parsed]
      rfl
    rw [JsonArena.selectToken_tokenAnswer_iff here]
    constructor
    · intro same found
      rw [← members, same, List.mem_singleton]
    · intro only
      apply List.perm_singleton.mp
      rw [List.perm_ext_iff_of_nodup (nodup once) (List.nodup_singleton n)]
      intro found
      rw [members, only, List.mem_singleton]

end Selection

section Examples

@[reducible] def JsonSyntax.paths : JsonSyntax where
  parseJson _ := .error "expected value at line 1 column 1"
  parseNumber := DecimalSyntax.plain.parseDecimal
  numberText d := d.normalize.render
  displayNumber := Decimal.render
  debugScalar _ := ""
  renderXml value := value.typeName
  parsePath path := (PathSyntax.parsePath DecimalSyntax.plain.parseDecimal path).mapError PathSyntax.PathError.intoMessage

attribute [local instance] JsonSyntax.paths

/-- `true` at node 1 in the array at node 2. -/
def flags : JsonArena := (((({} : JsonArena).push (.scalar (.bool true))).2.attach 1).push (.array [1])).2

theorem forest_flags : flags.Forest := by
  have first : (({} : JsonArena).push (.scalar (.bool true))).2.Forest :=
    JsonArena.forest_push JsonArena.forest_new List.nodup_nil (List.forall_mem_nil _)
  have attached := JsonArena.forest_attach first (show _ from (JsonArena.exists_push {} _ 1).mpr (.inl rfl))
  refine @JsonArena.forest_push _ (.array [1]) attached (List.nodup_singleton 1) ?_
  intro c inside
  obtain rfl := List.mem_singleton.mp inside
  refine ⟨(JsonArena.exists_push {} _ 1).mpr (.inl rfl), ?_, Finset.mem_insert_self _ _⟩
  rintro ⟨parent, held⟩
  replace held : 1 ∈ (({} : JsonArena).push (.scalar (.bool true))).2.children parent := held
  rw [JsonArena.children_push] at held
  split at held
  · cases held
  · cases held

theorem selectToken_denotes_flags :
    flags.selectToken 2 [.value (.text "$[0]")] = flags.tokenAnswer 1 ↔
      ∀ found, flags.Denotes 2 [.index 0] 2 found ↔ found = 1 := by
  have parsed : PathSyntax.parsePath DecimalSyntax.plain.parseDecimal "$[0]" = .ok [.index 0] := by rfl
  exact ((selectToken_denotes (fun _ => rfl) forest_flags 2 "$[0]").2 _ parsed).2 (Nat.zero_le _) 1

end Examples

end AlLanguage.Runtime.Json
