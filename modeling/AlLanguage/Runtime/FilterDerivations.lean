import AlLanguage.Runtime.FilterGrammar

/-!
# Parsed atoms are derivable ones

Tokens and atoms are read from a text exactly where the strict grammar derives them from it.
-/

namespace AlLanguage.Runtime.Filter

/-! ## Tokens -/

section Tokens

variable {strict : Bool} {text rest : List Char} {token : String} {p q : Parser}

theorem endsToken_blank {c : Char} {rest : List Char} (inside : endsToken c rest = false) : isBlank c = false := by
  simp only [endsToken, Bool.or_eq_false_iff] at inside
  simp only [isBlank, Bool.or_eq_false_iff, decide_eq_false_iff_not]
  exact ⟨by simpa using inside.1.1.1.1.1, by simpa using inside.1.1.1.1.2⟩

theorem Token.solid (token : Token strict text token rest) : ∀ c ∈ text.head?, isBlank c = false := by
  intro c is
  cases token with
  | quoted is_quote inside =>
    obtain rfl := Option.some.inj is
    obtain rfl | rfl := is_quote
    · decide
    · decide
  | plain read unquoted =>
    obtain rfl := Option.some.inj is
    cases read with
    | step inside more => exact endsToken_blank inside

theorem Token.length (token : Token strict text token rest) : rest.length < text.length := by
  cases token with
  | quoted is_quote inside =>
    simp only [List.length_cons, List.length_append]
    omega
  | plain read unquoted =>
    rw [read.length, List.length_cons]
    omega

theorem skipWhitespace_remaining (p : Parser) : p.skipWhitespace.remaining = p.remaining.dropWhile isBlank := skipBlanks_remaining _ _

theorem readToken_token (blanks : Blanks p.remaining text) (read : Token true text token rest) :
    ∃ stop, readToken p = .ok (token, ⟨rest, stop⟩) := by
  have skipped : p.skipWhitespace.remaining = text := by
    rw [skipWhitespace_remaining, blanks.dropWhile_eq read.solid]
  unfold readToken
  dsimp only
  rw [skipped]
  cases read with
  | quoted is_quote inside =>
    dsimp only
    rw [if_pos is_quote]
    exact readQuoted_inside inside _ _ []
  | plain read unquoted =>
    obtain ⟨stop, done⟩ := readPlain_upTo read p.skipWhitespace.pos []
    dsimp only
    rw [if_neg (unquoted rfl), done]
    exact ⟨stop, rfl⟩

theorem readToken_ok (done : readToken p = .ok (token, q)) : ∃ text, Blanks p.remaining text ∧ Token true text token q.remaining := by
  refine ⟨p.remaining.dropWhile isBlank, blanks_dropWhile _, ?_⟩
  rw [← skipWhitespace_remaining]
  unfold readToken at done
  dsimp only at done
  split at done
  next => cases done
  next c rest shape =>
    rw [shape]
    split at done
    next is_quote =>
      obtain ⟨inner, inside, is, token_is⟩ := readQuoted_ok done
      rw [is, token_is]
      exact .quoted is_quote inside
    next unquoted =>
      obtain ⟨run, after, read⟩ := upTo_readPlain (c :: rest)
      obtain ⟨stop, plain⟩ := readPlain_upTo read p.skipWhitespace.pos []
      rw [shape, plain, List.reverse_nil, List.nil_append] at done
      cases read with
      | delimiter ends => cases done
      | step inside more =>
        cases done
        exact .plain (.step inside more) fun _ => unquoted

theorem Token.unique {token' : String} {rest' : List Char} (read : Token true text token rest) (read' : Token true text token' rest') :
    token = token' ∧ rest = rest' := by
  have here : Blanks (⟨text, 0⟩ : Parser).remaining text := ⟨[], List.forall_mem_nil _, rfl⟩
  obtain ⟨stop, done⟩ := readToken_token here read
  obtain ⟨stop', done'⟩ := readToken_token here read'
  rw [done] at done'
  cases done'
  exact ⟨rfl, rfl⟩

end Tokens

/-! ## Atoms -/

section Atoms

variable [DecimalSyntax] {p q : Parser}

/-- The same text is left, blanks in front of it apart. -/
def Left (q : Parser) (rest : List Char) : Prop := q.remaining.dropWhile isBlank = rest.dropWhile isBlank

theorem parseOrderableStr_orderableOf (token : String) : parseOrderableStr token = some (orderableOf token) := by
  unfold parseOrderableStr orderableOf
  cases parseI64 token with
  | some n => rfl
  | none =>
    cases parseDecimal token with
    | some d => rfl
    | none => rfl

theorem parseOrderable_eq (p : Parser) : parseOrderable p = (readToken p).map fun (token, p) => (orderableOf token, p) := by
  unfold parseOrderable
  cases readToken p with
  | error e => rfl
  | ok found =>
    simp only [bind, Except.bind, parseOrderableStr_orderableOf]
    rfl

omit [DecimalSyntax] in
theorem parsePattern_eq (p : Parser) : parsePattern p = (readToken p).map fun (token, p) => (patternOf token, p) := by
  unfold parsePattern
  cases readToken p with
  | error e => rfl
  | ok found => rfl

omit [DecimalSyntax] in
theorem comparison_or_bare (text : List Char) : text = [] ∨ (∃ op : Comparison, ∃ next, text = op.symbol ++ next ∧ op.Longest next) ∨
    ∃ c rest, text = c :: rest ∧ c ≠ '<' ∧ c ≠ '>' := by
  cases text with
  | nil => exact .inl rfl
  | cons c rest =>
    by_cases less : c = '<'
    · subst less
      by_cases longer : ∃ d ∈ rest.head?, d = '>' ∨ d = '='
      · obtain ⟨d, is, rfl | rfl⟩ := longer
        · obtain ⟨next, rfl⟩ := List.head?_eq_some_iff.mp is
          exact .inr (.inl ⟨.notEqual, next, rfl, trivial⟩)
        · obtain ⟨next, rfl⟩ := List.head?_eq_some_iff.mp is
          exact .inr (.inl ⟨.lessEqual, next, rfl, trivial⟩)
      · refine .inr (.inl ⟨.less, rest, rfl, ?_⟩)
        intro d is
        exact not_or.mp fun longest => longer ⟨d, is, longest⟩
    · by_cases greater : c = '>'
      · subst greater
        by_cases longer : '=' ∈ rest.head?
        · obtain ⟨next, rfl⟩ := List.head?_eq_some_iff.mp longer
          exact .inr (.inl ⟨.greaterEqual, next, rfl, trivial⟩)
        · refine .inr (.inl ⟨.greater, rest, rfl, ?_⟩)
          rintro d is rfl
          exact longer is
      · exact .inr (.inr ⟨c, rest, rfl, less, greater⟩)

omit [DecimalSyntax] in
theorem parsePattern_map (q : Parser) (f : Pattern → FilterAtom) : (do
      let (value, q) ← parsePattern q
      return (f value, q) : Except FilterParseError (FilterAtom × Parser)) = (readToken q).map fun (token, q) => (f (patternOf token), q) := by
  rw [parsePattern_eq]
  cases readToken q with
  | error e => rfl
  | ok found => rfl

theorem parseOrderable_map (q : Parser) (f : OrderableValue → FilterAtom) : (do
      let (value, q) ← parseOrderable q
      return (f value, q) : Except FilterParseError (FilterAtom × Parser)) = (readToken q).map fun (token, q) => (f (orderableOf token), q) := by
  rw [parseOrderable_eq]
  cases readToken q with
  | error e => rfl
  | ok found => rfl

theorem parseAtom_compare {op : Comparison} {next : List Char} (start : p.skipWhitespace.remaining = op.symbol ++ next)
    (longest : op.Longest next) :
    ∃ pos, parseAtom p = (readToken ⟨next, pos⟩).map fun (token, q) => ((AtomTree.compare op token).ast, q) := by
  unfold parseAtom
  dsimp only
  generalize p.skipWhitespace = s at start ⊢
  obtain ⟨remaining, at_⟩ := s
  dsimp only at start
  subst start
  cases op with
  | notEqual => exact ⟨_, parsePattern_map _ _⟩
  | lessEqual => exact ⟨_, parseOrderable_map _ _⟩
  | greaterEqual => exact ⟨_, parseOrderable_map _ _⟩
  | less =>
    refine ⟨at_ + '<'.utf8Size, ?_⟩
    cases next with
    | nil => exact parseOrderable_map _ .lessThan
    | cons c rest =>
      obtain ⟨greater, equal⟩ := longest c rfl
      simp only [Comparison.symbol, List.cons_append, List.nil_append]
      split
      case h_4 => exact parseOrderable_map _ .lessThan
      all_goals simp_all
  | greater =>
    refine ⟨at_ + '>'.utf8Size, ?_⟩
    cases next with
    | nil => exact parseOrderable_map _ .greaterThan
    | cons c rest =>
      have equal := longest c rfl
      simp only [Comparison.symbol, List.cons_append, List.nil_append]
      split
      case h_6 => exact parseOrderable_map _ .greaterThan
      all_goals simp_all

/-- An atom without an operator is an operand, with a second one behind dots. -/
theorem parseAtom_bare {c : Char} {rest : List Char} (start : p.skipWhitespace.remaining = c :: rest) (less : c ≠ '<') (greater : c ≠ '>') :
    parseAtom p = (do
      let (first, p) ← readToken p.skipWhitespace
      let p := p.skipWhitespace
      match p.remaining with
      | '.' :: '.' :: rest =>
          let (second, p) ← readToken ⟨rest, p.pos + 2⟩
          return (.range (orderableOf first) (orderableOf second), p)
      | _ => return (.equals (patternOf first), p)) := by
  simp only [parseAtom, start, parseOrderableStr_orderableOf]
  split
  case h_7 => rfl
  all_goals simp_all

theorem parseAtom_end (start : p.skipWhitespace.remaining = []) : parseAtom p = .error .unexpectedEnd := by
  simp only [parseAtom, start]
  rfl

/-- What an expression may have behind it without being longer. -/
def Follows : NonTerminal → (next : List Char) → Prop
  | .prim, next => ∀ rest, next ≠ '.' :: '.' :: rest
  | .and, next => (∀ rest, next ≠ '.' :: '.' :: rest) ∧ next.head? ≠ some '&'
  | .or, next => (∀ rest, next ≠ '.' :: '.' :: rest) ∧ next.head? ≠ some '&' ∧ next.head? ≠ some '|'

omit [DecimalSyntax] in
theorem dropWhile_again (text : List Char) : (text.dropWhile isBlank).dropWhile isBlank = text.dropWhile isBlank :=
  (blanks_dropWhile text).dropWhile.symm

omit [DecimalSyntax] in
theorem Comparison.begins (op : Comparison) (next : List Char) :
    (op.symbol ++ next).head? = some '<' ∨ (op.symbol ++ next).head? = some '>' := by
  cases op with
  | notEqual => exact .inl rfl
  | lessEqual => exact .inl rfl
  | less => exact .inl rfl
  | greaterEqual => exact .inr rfl
  | greater => exact .inr rfl

omit [DecimalSyntax] in
theorem Comparison.solid (op : Comparison) (next : List Char) : ∀ c ∈ (op.symbol ++ next).head?, isBlank c = false := by
  intro c is
  obtain less | greater := op.begins next
  · cases less.symm.trans is
    decide
  · cases greater.symm.trans is
    decide

omit [DecimalSyntax] in
theorem Token.bare {text rest : List Char} {token : String} (read : Token true text token rest) (bare : Bare text) :
    ∃ c rest, text = c :: rest ∧ c ≠ '<' ∧ c ≠ '>' ∧ c ≠ '(' := by
  cases text with
  | nil => cases read
  | cons c rest => exact ⟨c, rest, rfl, bare c rfl⟩

theorem parseAtom_ok {a : FilterAtom} (done : parseAtom p = .ok (a, q)) (opens : p.skipWhitespace.peek ≠ some '(') :
    ∃ tree rest, Atom true p.remaining tree rest ∧ tree.ast = a ∧ Left q rest := by
  have start := blanks_dropWhile p.remaining
  rw [← skipWhitespace_remaining] at start
  obtain ended | ⟨op, next, begins, longest⟩ | ⟨c, after, begins, less, greater⟩ := comparison_or_bare p.skipWhitespace.remaining
  · rw [parseAtom_end ended] at done
    cases done
  · obtain ⟨pos, parsed⟩ := parseAtom_compare begins longest
    rw [parsed] at done
    cases read : readToken ⟨next, pos⟩ with
    | error e =>
      rw [read] at done
      cases done
    | ok found =>
      obtain ⟨token, r⟩ := found
      rw [read] at done
      cases done
      obtain ⟨operand, blanks, token_read⟩ := readToken_ok read
      rw [begins] at start
      exact ⟨_, _, .compare start (fun _ => longest) blanks token_read, rfl, rfl⟩
  · rw [parseAtom_bare begins less greater] at done
    cases read : readToken p.skipWhitespace with
    | error e =>
      rw [read] at done
      cases done
    | ok found =>
      obtain ⟨first, r⟩ := found
      obtain ⟨operand, blanks, token_read⟩ := readToken_ok read
      have here : operand = c :: after := by
        rw [← blanks.dropWhile_eq token_read.solid, skipWhitespace_remaining, dropWhile_again, ← skipWhitespace_remaining, begins]
      have bare : Bare operand := by
        rintro d is
        rw [here] at is
        cases is
        refine ⟨less, greater, ?_⟩
        rintro rfl
        rw [Parser.peek, begins] at opens
        exact opens rfl
      have operand_start := blanks_trans start blanks
      rw [read] at done
      simp only [bind, Except.bind] at done
      split at done
      next next dots =>
        cases read' : readToken ⟨next, r.skipWhitespace.pos + 2⟩ with
        | error e =>
          rw [read'] at done
          cases done
        | ok found' =>
          obtain ⟨second, r'⟩ := found'
          rw [read'] at done
          cases done
          obtain ⟨operand', blanks', token_read'⟩ := readToken_ok read'
          have middle := blanks_dropWhile r.remaining
          rw [← skipWhitespace_remaining, dots] at middle
          exact ⟨_, _, .range operand_start (fun _ => bare) token_read middle blanks' token_read', rfl, rfl⟩
      next =>
        cases done
        refine ⟨_, _, .token operand_start (fun _ => bare) token_read, rfl, ?_⟩
        rw [Left, skipWhitespace_remaining, dropWhile_again]

theorem parseAtom_atom {text rest : List Char} {tree : AtomTree} (read : Atom true text tree rest)
    (here : p.remaining.dropWhile isBlank = text.dropWhile isBlank) (follows : Follows .prim (rest.dropWhile isBlank)) :
    p.skipWhitespace.peek ≠ some '(' ∧ ∃ q, parseAtom p = .ok (tree.ast, q) ∧ Left q rest := by
  rw [← skipWhitespace_remaining] at here
  have none : ∀ text : List Char, Blanks text text := fun text => ⟨[], List.forall_mem_nil _, rfl⟩
  cases read with
  | @compare next operand _ op token start longest blanks token_read =>
    rw [start.dropWhile_eq (op.solid next)] at here
    obtain ⟨pos, parsed⟩ := parseAtom_compare here (longest rfl)
    obtain ⟨stop, done⟩ := readToken_token (p := ⟨next, pos⟩) blanks token_read
    refine ⟨?_, ⟨rest, stop⟩, ?_, rfl⟩
    · rw [Parser.peek, here]
      obtain less | greater := op.begins next
      · rw [less]
        decide
      · rw [greater]
        decide
    · rw [parsed, done]
      rfl
  | @token operand _ token start bare token_read =>
    rw [start.dropWhile_eq token_read.solid] at here
    obtain ⟨c, after, begins, less, greater, opens⟩ := token_read.bare (bare rfl)
    obtain ⟨stop, done⟩ := readToken_token (p := p.skipWhitespace) (here ▸ none _) token_read
    refine ⟨?_, ?_⟩
    · rw [Parser.peek, here, begins]
      exact fun is => opens (Option.some.inj is)
    · rw [parseAtom_bare (here.trans begins) less greater, done]
      simp only [bind, Except.bind]
      split
      next next dots =>
        rw [skipWhitespace_remaining] at dots
        exact absurd dots (follows next)
      next =>
        refine ⟨_, rfl, ?_⟩
        rw [Left, skipWhitespace_remaining, dropWhile_again]
  | @range operand middle next operand' _ low high start bare token_read dots blanks token_read' =>
    rw [start.dropWhile_eq token_read.solid] at here
    obtain ⟨c, after, begins, less, greater, opens⟩ := token_read.bare (bare rfl)
    obtain ⟨stop, done⟩ := readToken_token (p := p.skipWhitespace) (here ▸ none _) token_read
    refine ⟨?_, ?_⟩
    · rw [Parser.peek, here, begins]
      exact fun is => opens (Option.some.inj is)
    · have between : (Parser.skipWhitespace ⟨middle, stop⟩).remaining = '.' :: '.' :: next := by
        rw [skipWhitespace_remaining]
        exact dots.symbol (by decide)
      obtain ⟨stop', done'⟩ := readToken_token (p := ⟨next, (Parser.skipWhitespace ⟨middle, stop⟩).pos + 2⟩) blanks token_read'
      refine ⟨⟨rest, stop'⟩, ?_, rfl⟩
      rw [parseAtom_bare (here.trans begins) less greater, done]
      simp only [bind, Except.bind, between, done']
      rfl

end Atoms

end AlLanguage.Runtime.Filter
