import AlLanguage.Runtime.FilterDerivations

/-!
# The filter parser accepts its grammar

The parser accepts what the strict grammar derives and nothing else, and its result is the tree of the only derivation. The grammar with
its alternatives taken literally derives more.
-/

namespace AlLanguage.Runtime.Filter

section Expressions

variable [DecimalSyntax] {p q : Parser}

/-! ## Trees -/

theorem single_andTerms (t : FilterTree) : single .and t.andTerms = t.ast := by
  cases t with
  | atom a => simp only [FilterTree.andTerms, FilterTree.ast, single]
  | paren inner => simp only [FilterTree.andTerms, FilterTree.ast, single]
  | or first rest => simp only [FilterTree.andTerms, FilterTree.ast, single]
  | and first rest =>
    have more : rest.andTerms ≠ [] := by cases rest <;> simp [FilterTree.andTerms]
    obtain ⟨second, others, is⟩ := List.exists_cons_of_ne_nil more
    simp only [FilterTree.andTerms, FilterTree.ast, is, single]

theorem single_orTerms (t : FilterTree) : single .or t.orTerms = t.ast := by
  cases t with
  | atom a => simp only [FilterTree.orTerms, FilterTree.ast, single]
  | paren inner => simp only [FilterTree.orTerms, FilterTree.ast, single]
  | and first rest => simp only [FilterTree.orTerms, FilterTree.ast, single]
  | or first rest =>
    have more : rest.orTerms ≠ [] := by cases rest <;> simp [FilterTree.orTerms]
    obtain ⟨second, others, is⟩ := List.exists_cons_of_ne_nil more
    simp only [FilterTree.orTerms, FilterTree.ast, is, single]

theorem Derives.andTerms {strict : Bool} {text rest : List Char} {t : FilterTree} (derived : Derives strict .prim text t rest) :
    t.andTerms = [t.ast] := by
  cases derived with
  | atom read => simp only [FilterTree.andTerms, FilterTree.ast]
  | paren opens inner closes => simp only [FilterTree.andTerms, FilterTree.ast]

theorem Derives.orTerms {strict : Bool} {text rest : List Char} {t : FilterTree} (derived : Derives strict .and text t rest) :
    t.orTerms = [t.ast] := by
  cases derived with
  | prim only =>
    cases only with
    | atom read => simp only [FilterTree.orTerms, FilterTree.ast]
    | paren opens inner closes => simp only [FilterTree.orTerms, FilterTree.ast]
  | and first symbol more => simp only [FilterTree.orTerms, FilterTree.ast]

/-! ## What is parsed is derived -/

omit [DecimalSyntax] in
theorem bind_ok {α β : Type} {parsed : ExceptT FilterParseError Option α} {next : α → ExceptT FilterParseError Option β} {b : β} :
    (parsed >>= next).run = some (.ok b) ↔ ∃ a, parsed.run = some (.ok a) ∧ (next a).run = some (.ok b) := by
  rw [ExceptT.run_bind]
  cases parsed.run with
  | none => simp [bind, Option.bind]
  | some answer =>
    cases answer with
    | error e => simp [bind, Option.bind]
    | ok a => simp [bind, Option.bind]

omit [DecimalSyntax] in
theorem Left.blanks {symbol : Char} {rest next : List Char} (left : Left q rest) (blanks : Blanks q.remaining (symbol :: next))
    (solid : isBlank symbol = false) : Blanks rest (symbol :: next) := by
  have start := blanks_dropWhile rest
  rwa [← left, blanks.symbol solid] at start

omit [DecimalSyntax] in
theorem peek_blanks {symbol : Char} (here : p.skipWhitespace.peek = some symbol) :
    Blanks p.remaining (symbol :: p.skipWhitespace.advance.remaining) := by
  have start := blanks_dropWhile p.remaining
  rw [← skipWhitespace_remaining] at start
  obtain ⟨next, begins⟩ := List.head?_eq_some_iff.mp here
  have after : p.skipWhitespace.advance.remaining = next := by rw [Parser.advance, begins]
  rwa [after, ← begins]

omit [DecimalSyntax] in
theorem skipBlanks_again (text : List Char) (pos : Nat) :
    Parser.skipBlanks (Parser.skipBlanks text pos).remaining (Parser.skipBlanks text pos).pos = Parser.skipBlanks text pos := by
  induction text generalizing pos with
  | nil => rfl
  | cons c rest ih =>
    rw [Parser.skipBlanks]
    split
    next => exact ih _
    next other => rw [Parser.skipBlanks, if_neg other]

theorem parseAtom_skipWhitespace (p : Parser) : parseAtom p.skipWhitespace = parseAtom p := by
  have again : p.skipWhitespace.skipWhitespace = p.skipWhitespace := skipBlanks_again _ _
  simp only [parseAtom, again]

def Parsed (n : NonTerminal) (p : Parser) (e : FilterExpr) (q : Parser) : Prop :=
  ∃ t rest, Derives true n p.remaining t rest ∧ t.ast = e ∧ Left q rest

/-- What a loop parses behind the terms it has: nothing, or its symbol and an expression. -/
def Continues (n : NonTerminal) (symbol : Char) (join : List FilterExpr → FilterExpr) (termsOf : FilterTree → List FilterExpr)
    (terms : List FilterExpr) (p : Parser) (e : FilterExpr) (q : Parser) : Prop :=
  (e = single join terms ∧ Left q p.remaining) ∨
    ∃ next t rest, Blanks p.remaining (symbol :: next) ∧ Derives true n next t rest ∧ Left q rest ∧ e = single join (terms ++ termsOf t)

theorem parsed_derived (fuel : Nat) :
    (∀ p e q, (parseExpr fuel p).run = some (.ok (e, q)) → Parsed .or p e q) ∧
    (∀ terms p e q, (parseOrTerms fuel terms p).run = some (.ok (e, q)) → Continues .or '|' .or FilterTree.orTerms terms p e q) ∧
    (∀ p e q, (parseAnd fuel p).run = some (.ok (e, q)) → Parsed .and p e q) ∧
    (∀ terms p e q, (parseAndTerms fuel terms p).run = some (.ok (e, q)) → Continues .and '&' .and FilterTree.andTerms terms p e q) ∧
    (∀ p e q, (parsePrimary fuel p).run = some (.ok (e, q)) → Parsed .prim p e q) := by
  induction fuel with
  | zero =>
    refine ⟨?_, ?_, ?_, ?_, ?_⟩
    all_goals
      intros
      rename_i done
      cases done
  | succ fuel ih =>
    obtain ⟨expr, orTerms, and, andTerms, primary⟩ := ih
    refine ⟨?_, ?_, ?_, ?_, ?_⟩
    · intro p e q done
      rw [parseExpr] at done
      obtain ⟨⟨first, r⟩, parsed, more⟩ := bind_ok.mp done
      obtain ⟨t, middle, derived, rfl, left⟩ := and _ _ _ parsed
      obtain ⟨is, left'⟩ | ⟨next, u, rest, blanks, derived', left', is⟩ := orTerms _ _ _ _ more
      · exact ⟨t, middle, .term derived, is.symm, left'.trans left⟩
      · refine ⟨.or t u, rest, .or derived (left.blanks blanks (by decide)) derived', ?_, left'⟩
        rw [is, ← single_orTerms, FilterTree.orTerms]
        rfl
    · intro terms p e q done
      rw [parseOrTerms] at done
      dsimp only at done
      split at done
      next bar =>
        obtain ⟨⟨term, r⟩, parsed, more⟩ := bind_ok.mp done
        obtain ⟨t, middle, derived, rfl, left⟩ := and _ _ _ parsed
        refine .inr ⟨p.skipWhitespace.advance.remaining, ?_⟩
        obtain ⟨is, left'⟩ | ⟨next, u, rest, blanks, derived', left', is⟩ := orTerms _ _ _ _ more
        · refine ⟨t, middle, peek_blanks bar, .term derived, left'.trans left, ?_⟩
          rw [is, derived.orTerms]
        · refine ⟨.or t u, rest, peek_blanks bar, .or derived (left.blanks blanks (by decide)) derived', left', ?_⟩
          rw [is, FilterTree.orTerms, List.append_assoc]
          rfl
      next =>
        cases done
        refine .inl ⟨rfl, ?_⟩
        rw [Left, skipWhitespace_remaining, dropWhile_again]
    · intro p e q done
      rw [parseAnd] at done
      obtain ⟨⟨first, r⟩, parsed, more⟩ := bind_ok.mp done
      obtain ⟨t, middle, derived, rfl, left⟩ := primary _ _ _ parsed
      obtain ⟨is, left'⟩ | ⟨next, u, rest, blanks, derived', left', is⟩ := andTerms _ _ _ _ more
      · exact ⟨t, middle, .prim derived, is.symm, left'.trans left⟩
      · refine ⟨.and t u, rest, .and derived (left.blanks blanks (by decide)) derived', ?_, left'⟩
        rw [is, ← single_andTerms, FilterTree.andTerms]
        rfl
    · intro terms p e q done
      rw [parseAndTerms] at done
      dsimp only at done
      split at done
      next ampersand =>
        obtain ⟨⟨term, r⟩, parsed, more⟩ := bind_ok.mp done
        obtain ⟨t, middle, derived, rfl, left⟩ := primary _ _ _ parsed
        refine .inr ⟨p.skipWhitespace.advance.remaining, ?_⟩
        obtain ⟨is, left'⟩ | ⟨next, u, rest, blanks, derived', left', is⟩ := andTerms _ _ _ _ more
        · refine ⟨t, middle, peek_blanks ampersand, .prim derived, left'.trans left, ?_⟩
          rw [is, derived.andTerms]
        · refine ⟨.and t u, rest, peek_blanks ampersand, .and derived (left.blanks blanks (by decide)) derived', left', ?_⟩
          rw [is, FilterTree.andTerms, List.append_assoc]
          rfl
      next =>
        cases done
        refine .inl ⟨rfl, ?_⟩
        rw [Left, skipWhitespace_remaining, dropWhile_again]
    · intro p e q done
      rw [parsePrimary] at done
      dsimp only at done
      split at done
      next opens =>
        obtain ⟨⟨inner, r⟩, parsed, more⟩ := bind_ok.mp done
        obtain ⟨t, middle, derived, rfl, left⟩ := expr _ _ _ parsed
        dsimp only at more
        split at more
        next closes =>
          cases more
          refine ⟨.paren t, _, .paren (peek_blanks opens) derived (left.blanks (peek_blanks closes) (by decide)), ?_, rfl⟩
          rw [FilterTree.ast]
        next => cases more
      next closed =>
        obtain ⟨⟨a, r⟩, parsed, more⟩ := bind_ok.mp done
        cases more
        rw [parseAtom_skipWhitespace] at parsed
        obtain ⟨tree, rest, read, rfl, left⟩ := parseAtom_ok (Option.some.inj parsed) closed
        refine ⟨.atom tree, rest, .atom read, ?_, left⟩
        rw [FilterTree.ast]

/-! ## What is derived is parsed -/

/-- The parse of a tree behind the terms a loop already has. -/
def Reads (t : FilterTree) (rest : List Char) (p : Parser) (fuel : Nat) : NonTerminal → Prop
  | .prim => 3 * p.remaining.length + 1 ≤ fuel → ∃ q, (parsePrimary fuel p).run = some (.ok (t.ast, q)) ∧ Left q rest
  | .and => 3 * p.remaining.length + 1 ≤ fuel → ∀ terms, ∃ q,
      (parsePrimary fuel p >>= fun found => parseAndTerms fuel (terms ++ [found.1]) found.2).run =
        some (.ok (single .and (terms ++ t.andTerms), q)) ∧ Left q rest
  | .or => 3 * p.remaining.length + 2 ≤ fuel → ∀ terms, ∃ q,
      (parseAnd fuel p >>= fun found => parseOrTerms fuel (terms ++ [found.1]) found.2).run =
        some (.ok (single .or (terms ++ t.orTerms), q)) ∧ Left q rest

theorem parsePrimary_shorter {fuel : Nat} {e : FilterExpr} (done : (parsePrimary fuel p).run = some (.ok (e, q)))
    (enough : 3 * p.remaining.length + 1 ≤ fuel) : q.remaining.length < p.remaining.length := by
  obtain ⟨answer, is, within⟩ := (parse_answers fuel).2.2.2.2 p enough
  rw [done] at is
  cases is
  exact within _ _ rfl

theorem parseAnd_shorter {fuel : Nat} {e : FilterExpr} (done : (parseAnd fuel p).run = some (.ok (e, q)))
    (enough : 3 * p.remaining.length + 2 ≤ fuel) : q.remaining.length < p.remaining.length := by
  obtain ⟨answer, is, within⟩ := (parse_answers fuel).2.2.1 p enough
  rw [done] at is
  cases is
  exact within _ _ rfl

omit [DecimalSyntax] in
/-- A symbol is met where a derivation has one. -/
theorem Left.symbol {symbol : Char} {rest next : List Char} (left : Left p rest) (blanks : Blanks rest (symbol :: next))
    (solid : isBlank symbol = false) :
    p.skipWhitespace.peek = some symbol ∧ p.skipWhitespace.advance.remaining = next ∧ next.length < p.remaining.length := by
  have here : p.skipWhitespace.remaining = symbol :: next := by rw [skipWhitespace_remaining, left, blanks.symbol solid]
  have shorter := skipWhitespace_length p
  rw [here, List.length_cons] at shorter
  refine ⟨?_, ?_, shorter⟩
  · rw [Parser.peek, here]
    rfl
  · rw [Parser.advance, here]

omit [DecimalSyntax] in
theorem Left.peek {symbol : Char} {rest : List Char} (left : Left p rest) (other : (rest.dropWhile isBlank).head? ≠ some symbol) :
    ¬p.skipWhitespace.peek = some symbol := by
  rwa [Parser.peek, skipWhitespace_remaining, left]

omit [DecimalSyntax] in
theorem Follows.symbol {symbol : Char} {rest next : List Char} (n : NonTerminal) (blanks : Blanks rest (symbol :: next))
    (solid : isBlank symbol = false) (dot : symbol ≠ '.') (ampersand : n = .prim ∨ symbol ≠ '&') (bar : n ≠ .or ∨ symbol ≠ '|') :
    Follows n (rest.dropWhile isBlank) := by
  rw [blanks.symbol solid]
  have dots : ∀ rest, symbol :: next ≠ '.' :: '.' :: rest := fun _ is => dot (List.cons.inj is).1
  cases n with
  | prim => exact dots
  | and => exact ⟨dots, by simpa using ampersand⟩
  | or => exact ⟨dots, by simpa using ampersand, by simpa using bar⟩

theorem Derives.reads {n : NonTerminal} {text rest : List Char} {t : FilterTree} (derived : Derives true n text t rest)
    (follows : Follows n (rest.dropWhile isBlank)) (here : Left p text) (fuel : Nat) : Reads t rest p fuel n := by
  induction derived generalizing p fuel with
  | atom read =>
    intro enough
    obtain ⟨fuel, rfl⟩ : ∃ f, fuel = f + 1 := Nat.exists_eq_add_of_le' (by omega)
    obtain ⟨closed, q, done, left⟩ := parseAtom_atom read here follows
    refine ⟨q, ?_, left⟩
    rw [parsePrimary]
    dsimp only
    rw [if_neg closed, parseAtom_skipWhitespace, done, FilterTree.ast]
    rfl
  | @paren text inside middle rest t opens inner closes ih =>
    intro enough
    obtain ⟨bracket, next, shorter⟩ := here.symbol opens (by decide)
    obtain ⟨fuel, rfl⟩ : ∃ f, fuel = f + 2 := Nat.exists_eq_add_of_le' (by omega)
    have start : Left p.skipWhitespace.advance inside := by rw [Left, next]
    obtain ⟨q, done, left⟩ := ih (.symbol .or closes (by decide) (by decide) (by decide) (by decide)) start fuel (by rw [next]; omega) []
    obtain ⟨bracket', next', -⟩ := left.symbol closes (by decide)
    refine ⟨q.skipWhitespace.advance, ?_, by rw [Left, next']⟩
    rw [parsePrimary]
    dsimp only
    rw [if_pos bracket, bind_ok]
    refine ⟨(t.ast, q), ?_, ?_⟩
    · rw [parseExpr, ← single_orTerms]
      exact done
    · dsimp only
      rw [if_pos bracket', FilterTree.ast]
      rfl
  | @prim text rest t only ih =>
    intro enough terms
    obtain ⟨q, done, left⟩ := ih follows.1 here fuel enough
    obtain ⟨fuel, rfl⟩ : ∃ f, fuel = f + 1 := Nat.exists_eq_add_of_le' (by omega)
    refine ⟨q.skipWhitespace, ?_, ?_⟩
    · rw [bind_ok]
      refine ⟨_, done, ?_⟩
      dsimp only
      rw [parseAndTerms]
      dsimp only
      rw [if_neg (left.peek follows.2), only.andTerms]
      rfl
    · rw [Left, skipWhitespace_remaining, dropWhile_again]
      exact left
  | @and text middle next rest t u first symbol more ihFirst ihMore =>
    intro enough terms
    obtain ⟨q, done, left⟩ := ihFirst (.symbol .prim symbol (by decide) (by decide) (by decide) (by decide)) here fuel enough
    have shorter := parsePrimary_shorter done enough
    obtain ⟨ampersand, after, shorter'⟩ := left.symbol symbol (by decide)
    obtain ⟨fuel, rfl⟩ : ∃ f, fuel = f + 1 := Nat.exists_eq_add_of_le' (by omega)
    have start : Left q.skipWhitespace.advance next := by rw [Left, after]
    obtain ⟨r, done', left'⟩ := ihMore follows start fuel (by rw [after]; omega) (terms ++ [t.ast])
    refine ⟨r, ?_, left'⟩
    rw [bind_ok]
    refine ⟨_, done, ?_⟩
    dsimp only
    rw [parseAndTerms]
    dsimp only
    rw [if_pos ampersand, FilterTree.andTerms]
    rw [List.append_assoc] at done'
    exact done'
  | @term text rest t only ih =>
    intro enough terms
    obtain ⟨fuel, rfl⟩ : ∃ f, fuel = f + 1 := Nat.exists_eq_add_of_le' (by omega)
    obtain ⟨q, done, left⟩ := ih ⟨follows.1, follows.2.1⟩ here fuel (by omega) []
    refine ⟨q.skipWhitespace, ?_, ?_⟩
    · rw [bind_ok]
      refine ⟨(t.ast, q), ?_, ?_⟩
      · rw [parseAnd, ← single_andTerms]
        exact done
      · dsimp only
        rw [parseOrTerms]
        dsimp only
        rw [if_neg (left.peek follows.2.2), only.orTerms]
        rfl
    · rw [Left, skipWhitespace_remaining, dropWhile_again]
      exact left
  | @or text middle next rest t u first symbol more ihFirst ihMore =>
    intro enough terms
    obtain ⟨fuel, rfl⟩ : ∃ f, fuel = f + 1 := Nat.exists_eq_add_of_le' (by omega)
    obtain ⟨q, done, left⟩ := ihFirst (.symbol .and symbol (by decide) (by decide) (by decide) (by decide)) here fuel (by omega) []
    have parsed : (parseAnd (fuel + 1) p).run = some (.ok (t.ast, q)) := by
      rw [parseAnd, ← single_andTerms]
      exact done
    have shorter := parseAnd_shorter parsed enough
    obtain ⟨bar, after, shorter'⟩ := left.symbol symbol (by decide)
    have start : Left q.skipWhitespace.advance next := by rw [Left, after]
    obtain ⟨r, done', left'⟩ := ihMore follows start fuel (by rw [after]; omega) (terms ++ [t.ast])
    refine ⟨r, ?_, left'⟩
    rw [bind_ok]
    refine ⟨_, parsed, ?_⟩
    dsimp only
    rw [parseOrTerms]
    dsimp only
    rw [if_pos bar, FilterTree.orTerms]
    rw [List.append_assoc] at done'
    exact done'

/-! ## One derivation -/

omit [DecimalSyntax] in
/-- A text begins with at most one operator. -/
theorem Comparison.unique {op op' : Comparison} {next next' : List Char} (same : op.symbol ++ next = op'.symbol ++ next')
    (longest : op.Longest next) (longest' : op'.Longest next') : op = op' ∧ next = next' := by
  cases op with
  | notEqual =>
    cases op' with
    | less => exact absurd rfl (longest' _ (congrArg List.head? (List.cons.inj same).2).symm).1
    | _ => simp_all [symbol]
  | lessEqual =>
    cases op' with
    | less => exact absurd rfl (longest' _ (congrArg List.head? (List.cons.inj same).2).symm).2
    | _ => simp_all [symbol]
  | less =>
    cases op' with
    | notEqual => exact absurd rfl (longest _ (congrArg List.head? (List.cons.inj same).2)).1
    | lessEqual => exact absurd rfl (longest _ (congrArg List.head? (List.cons.inj same).2)).2
    | _ => simp_all [symbol]
  | greaterEqual =>
    cases op' with
    | greater => exact absurd rfl (longest' _ (congrArg List.head? (List.cons.inj same).2).symm)
    | _ => simp_all [symbol]
  | greater =>
    cases op' with
    | greaterEqual => exact absurd rfl (longest _ (congrArg List.head? (List.cons.inj same).2))
    | _ => simp_all [symbol]

omit [DecimalSyntax] in
theorem Bare.no_comparison {op : Comparison} {next : List Char} (bare : Bare (op.symbol ++ next)) : False := by
  obtain less | greater := op.begins next
  · exact (bare _ less).1 rfl
  · exact (bare _ greater).2.1 rfl

section Unique

variable {text rest rest' : List Char}

omit [DecimalSyntax] in
theorem Atom.unique {a a' : AtomTree} (read : Atom true text a rest) (read' : Atom true text a' rest')
    (follows : Follows .prim (rest.dropWhile isBlank)) (follows' : Follows .prim (rest'.dropWhile isBlank)) : a = a' ∧ rest = rest' := by
  cases read with
  | @compare next operand _ op token start longest blanks token_read =>
    have here := start.dropWhile_eq (op.solid next)
    cases read' with
    | @compare next' operand' _ op' token' start' longest' blanks' token_read' =>
      rw [start'.dropWhile_eq (op'.solid next')] at here
      obtain ⟨rfl, rfl⟩ := Comparison.unique here (longest' rfl) (longest rfl)
      have same : operand = operand' := by
        rw [← blanks.dropWhile_eq token_read.solid, ← blanks'.dropWhile_eq token_read'.solid]
      subst same
      obtain ⟨rfl, rfl⟩ := token_read.unique token_read'
      exact ⟨rfl, rfl⟩
    | token start' bare token_read' =>
      rw [start'.dropWhile_eq token_read'.solid] at here
      exact (here ▸ bare rfl).no_comparison.elim
    | range start' bare token_read' dots blanks' token_read'' =>
      rw [start'.dropWhile_eq token_read'.solid] at here
      exact (here ▸ bare rfl).no_comparison.elim
  | @token operand _ token start bare token_read =>
    have here := start.dropWhile_eq token_read.solid
    cases read' with
    | @compare next' operand' _ op' token' start' longest' blanks' token_read' =>
      rw [start'.dropWhile_eq (op'.solid next')] at here
      exact (here ▸ bare rfl).no_comparison.elim
    | token start' bare' token_read' =>
      rw [start'.dropWhile_eq token_read'.solid] at here
      subst here
      obtain ⟨rfl, rfl⟩ := token_read.unique token_read'
      exact ⟨rfl, rfl⟩
    | range start' bare' token_read' dots blanks' token_read'' =>
      rw [start'.dropWhile_eq token_read'.solid] at here
      subst here
      obtain ⟨rfl, rfl⟩ := token_read.unique token_read'
      exact absurd (dots.symbol (by decide)) (follows _)
  | @range operand middle next operand' _ low high start bare token_read dots blanks token_read' =>
    have here := start.dropWhile_eq token_read.solid
    cases read' with
    | @compare next' operand' _ op' token' start' longest' blanks' token_read' =>
      rw [start'.dropWhile_eq (op'.solid next')] at here
      exact (here ▸ bare rfl).no_comparison.elim
    | token start' bare' token_read'' =>
      rw [start'.dropWhile_eq token_read''.solid] at here
      subst here
      obtain ⟨rfl, rfl⟩ := token_read.unique token_read''
      exact absurd (dots.symbol (by decide)) (follows' _)
    | @range operand₁ middle₁ next₁ operand₁' _ low₁ high₁ start₁ bare₁ token_read₁ dots₁ blanks₁ token_read₁' =>
      rw [start₁.dropWhile_eq token_read₁.solid] at here
      subst here
      obtain ⟨rfl, rfl⟩ := token_read.unique token_read₁
      have same := (dots.symbol (by decide)).symm.trans (dots₁.symbol (by decide))
      simp only [List.cons.injEq, true_and] at same
      subst same
      have same' : operand' = operand₁' := by
        rw [← blanks.dropWhile_eq token_read'.solid, ← blanks₁.dropWhile_eq token_read₁'.solid]
      subst same'
      obtain ⟨rfl, rfl⟩ := token_read'.unique token_read₁'
      exact ⟨rfl, rfl⟩

omit [DecimalSyntax] in
theorem Atom.no_paren {a : AtomTree} {inside : List Char} (read : Atom true text a rest) (opens : Blanks text ('(' :: inside)) : False := by
  have here := opens.symbol (by decide)
  cases read with
  | @compare next _ _ op token start longest blanks token_read =>
    rw [start.dropWhile_eq (op.solid next)] at here
    obtain less | greater := op.begins next
    · rw [here] at less
      cases less
    · rw [here] at greater
      cases greater
  | token start bare token_read =>
    rw [start.dropWhile_eq token_read.solid] at here
    exact (bare rfl _ (here ▸ rfl)).2.2 rfl
  | range start bare token_read dots blanks token_read' =>
    rw [start.dropWhile_eq token_read.solid] at here
    exact (bare rfl _ (here ▸ rfl)).2.2 rfl

omit [DecimalSyntax] in
theorem Blanks.unique {symbol : Char} {next next' : List Char} (blanks : Blanks text (symbol :: next)) (blanks' : Blanks text (symbol :: next'))
    (solid : isBlank symbol = false) : next = next' := by
  have same := (blanks.symbol solid).symm.trans (blanks'.symbol solid)
  exact (List.cons.inj same).2

omit [DecimalSyntax] in
theorem Blanks.head {symbol : Char} {next : List Char} (blanks : Blanks text (symbol :: next)) (solid : isBlank symbol = false) :
    (text.dropWhile isBlank).head? = some symbol := by
  rw [blanks.symbol solid]
  rfl

omit [DecimalSyntax] in
theorem Derives.unique {n : NonTerminal} {t t' : FilterTree} (derived : Derives true n text t rest) (derived' : Derives true n text t' rest')
    (follows : Follows n (rest.dropWhile isBlank)) (follows' : Follows n (rest'.dropWhile isBlank)) : t = t' ∧ rest = rest' := by
  induction derived generalizing t' rest' with
  | atom read =>
    cases derived' with
    | atom read' =>
      obtain ⟨rfl, rfl⟩ := read.unique read' follows follows'
      exact ⟨rfl, rfl⟩
    | paren opens inner closes => exact (read.no_paren opens).elim
  | paren opens inner closes ih =>
    cases derived' with
    | atom read => exact (read.no_paren opens).elim
    | paren opens' inner' closes' =>
      obtain rfl := opens.unique opens' (by decide)
      obtain ⟨rfl, rfl⟩ := ih inner' (.symbol .or closes (by decide) (by decide) (by decide) (by decide))
        (.symbol .or closes' (by decide) (by decide) (by decide) (by decide))
      exact ⟨rfl, closes.unique closes' (by decide)⟩
  | prim only ih =>
    cases derived' with
    | prim only' => exact ih only' follows.1 follows'.1
    | and first' symbol' more' =>
      obtain ⟨rfl, rfl⟩ := ih first' follows.1 (.symbol .prim symbol' (by decide) (by decide) (by decide) (by decide))
      exact absurd (symbol'.head (by decide)) follows.2
  | and first symbol more ihFirst ihMore =>
    have before := Follows.symbol .prim symbol (by decide) (by decide) (by decide) (by decide)
    cases derived' with
    | prim only' =>
      obtain ⟨rfl, rfl⟩ := ihFirst only' before follows'.1
      exact absurd (symbol.head (by decide)) follows'.2
    | and first' symbol' more' =>
      obtain ⟨rfl, rfl⟩ := ihFirst first' before (.symbol .prim symbol' (by decide) (by decide) (by decide) (by decide))
      obtain rfl := symbol.unique symbol' (by decide)
      obtain ⟨rfl, rfl⟩ := ihMore more' follows follows'
      exact ⟨rfl, rfl⟩
  | term only ih =>
    cases derived' with
    | term only' => exact ih only' ⟨follows.1, follows.2.1⟩ ⟨follows'.1, follows'.2.1⟩
    | or first' symbol' more' =>
      obtain ⟨rfl, rfl⟩ := ih first' ⟨follows.1, follows.2.1⟩ (.symbol .and symbol' (by decide) (by decide) (by decide) (by decide))
      exact absurd (symbol'.head (by decide)) follows.2.2
  | or first symbol more ihFirst ihMore =>
    have before := Follows.symbol .and symbol (by decide) (by decide) (by decide) (by decide)
    cases derived' with
    | term only' =>
      obtain ⟨rfl, rfl⟩ := ihFirst only' before ⟨follows'.1, follows'.2.1⟩
      exact absurd (symbol.head (by decide)) follows'.2.2
    | or first' symbol' more' =>
      obtain ⟨rfl, rfl⟩ := ihFirst first' before (.symbol .and symbol' (by decide) (by decide) (by decide) (by decide))
      obtain rfl := symbol.unique symbol' (by decide)
      obtain ⟨rfl, rfl⟩ := ihMore more' follows follows'
      exact ⟨rfl, rfl⟩

end Unique

/-! ## The parser -/

omit [DecimalSyntax] in
theorem follows_end {rest : List Char} (ended : Blanks rest []) (n : NonTerminal) : Follows n (rest.dropWhile isBlank) := by
  rw [ended.dropWhile]
  cases n with
  | prim => exact fun _ => (List.cons_ne_nil _ _).symm
  | and => exact ⟨fun _ => (List.cons_ne_nil _ _).symm, by decide⟩
  | or => exact ⟨fun _ => (List.cons_ne_nil _ _).symm, by decide, by decide⟩

theorem parseTrimmed_ok_iff (text : List Char) (e : FilterExpr) :
    (parseTrimmed (fuelFor text) text).run = some (.ok e) ↔ ∃ t rest, Derives true .or text t rest ∧ Blanks rest [] ∧ t.ast = e := by
  constructor
  · intro done
    rw [parseTrimmed, bind_ok] at done
    obtain ⟨⟨result, q⟩, parsed, more⟩ := done
    obtain ⟨t, rest, derived, rfl, left⟩ := (parsed_derived _).1 _ _ _ parsed
    dsimp only at more
    split at more
    next ended =>
      cases more
      refine ⟨t, rest, derived, ?_, rfl⟩
      have blanks := blanks_dropWhile rest
      rwa [← left, ← skipWhitespace_remaining, ended] at blanks
    next => cases more
  · rintro ⟨t, rest, derived, ended, rfl⟩
    obtain ⟨q, done, left⟩ := derived.reads (p := ⟨text, 0⟩) (follows_end ended .or) rfl (3 * text.length + 2) (Nat.le_refl _) []
    have nothing : q.skipWhitespace.remaining = [] := by
      rw [skipWhitespace_remaining, left, ended.dropWhile]
      rfl
    rw [parseTrimmed, bind_ok]
    refine ⟨(t.ast, q), ?_, ?_⟩
    · rw [fuelFor, parseExpr, ← single_orTerms]
      exact done
    · dsimp only
      rw [nothing]
      rfl

theorem parse_ok_iff (s : String) (e : FilterExpr) :
    parse s = .ok e ↔ (trim s).toList ≠ [] ∧ (parseTrimmed (fuelFor (trim s).toList) (trim s).toList).run = some (.ok e) := by
  obtain ⟨answer, done⟩ := parseTrimmed_answers (trim s).toList
  rw [parse]
  split
  next empty =>
    rw [List.isEmpty_iff] at empty
    simp [empty]
  next nonempty =>
    rw [List.isEmpty_iff] at nonempty
    rw [done]
    simp [nonempty]

/-- The parser ends on every text. It accepts the trimmed texts that the grammar derives to their end, and returns the tree of the only
derivation. -/
theorem parse_derives (s : String) :
    (∃ answer, (parseTrimmed (fuelFor (trim s).toList) (trim s).toList).run = some answer) ∧
    (∀ e, parse s = .ok e ↔ (trim s).toList ≠ [] ∧ ∃ t rest, Derives true .or (trim s).toList t rest ∧ Blanks rest [] ∧ t.ast = e) ∧
    ∀ t rest t' rest', Derives true .or (trim s).toList t rest → Blanks rest [] → Derives true .or (trim s).toList t' rest' →
      Blanks rest' [] → t = t' ∧ rest = rest' := by
  refine ⟨parseTrimmed_answers _, ?_, ?_⟩
  · intro e
    rw [parse_ok_iff, parseTrimmed_ok_iff]
  · intro t rest t' rest' derived ended derived' ended'
    exact derived.unique derived' (follows_end ended .or) (follows_end ended' .or)

end Expressions

section Example

attribute [local instance] DecimalSyntax.plain

/-- Taken literally, the alternatives derive `(a`, which the parser refuses, and `<5` both as a bound and as a token. -/
theorem literal_grammar_differs :
    (∃ t, Derives false .or (trim "(a").toList t [] ∧ ∀ e, parse "(a" ≠ .ok e) ∧
      ∃ t t', Derives false .or (trim "<5").toList t [] ∧ Derives false .or (trim "<5").toList t' [] ∧ t.ast ≠ t'.ast := by
  have here : ∀ text, Blanks text text := fun text => ⟨[], List.forall_mem_nil _, rfl⟩
  have token : ∀ c d, endsToken c [d] = false → endsToken d [] = false → Token false [c, d] (String.ofList [c, d]) [] :=
    fun c d first second => .plain (.step first (.step second .done)) Bool.noConfusion
  have whole : ∀ c d, endsToken c [d] = false → endsToken d [] = false →
      Derives false .or [c, d] (.atom (.token (String.ofList [c, d]))) [] :=
    fun c d first second => .term (.prim (.atom (.token (here _) Bool.noConfusion (token c d first second))))
  have bracket : (trim "(a").toList = ['(', 'a'] := by decide
  have less : (trim "<5").toList = ['<', '5'] := by decide
  rw [bracket, less]
  refine ⟨⟨_, whole '(' 'a' (by decide) (by decide), ?_⟩, _, .atom (.compare .less "5"), whole '<' '5' (by decide) (by decide), ?_, ?_⟩
  · intro e done
    have refused : (parse "(a").isOk = false := by decide +kernel
    rw [done] at refused
    cases refused
  · exact .term (.prim (.atom (.compare (here _) Bool.noConfusion (here _) (.plain (.step (by decide) .done) Bool.noConfusion))))
  · intro same
    simp only [FilterTree.ast, AtomTree.ast, FilterExpr.atom.injEq] at same
    cases same

end Example

end AlLanguage.Runtime.Filter
