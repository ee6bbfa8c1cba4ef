import AlLanguage.Runtime.FilterParse

/-!
# The grammar of filter expressions

Derivations as trees, and what a text derives. With `strict`, an atom takes the longest operator in front of it, an atom without one
does not begin like an operator or a parenthesis, and a quote at the start of a token opens a quoted one.
-/

namespace AlLanguage.Runtime.Filter

/-! ## Tokens -/

def isBlank (c : Char) : Bool := c = ' ' || c = '\t'

/-- Optional blanks and tabs. -/
def Blanks (text rest : List Char) : Prop := ∃ blanks, (∀ c ∈ blanks, isBlank c = true) ∧ text = blanks ++ rest

/-- The characters up to the next delimiter. -/
inductive UpTo : (text run rest : List Char) → Prop where
  | done : UpTo [] [] []
  | delimiter {c : Char} {rest : List Char} (ends : endsToken c rest = true) : UpTo (c :: rest) [] (c :: rest)
  | step {c : Char} {text run rest : List Char} (inside : endsToken c text = false) (more : UpTo text run rest) : UpTo (c :: text) (c :: run) rest

inductive Token (strict : Bool) : (text : List Char) → (token : String) → (rest : List Char) → Prop where
  | quoted {quote : Char} {inner rest : List Char} (is_quote : quote = '\'' ∨ quote = '"') (inside : quote ∉ inner) :
    Token strict (quote :: (inner ++ quote :: rest)) (String.ofList inner) rest
  | plain {c : Char} {text run rest : List Char} (read : UpTo (c :: text) (c :: run) rest)
    (unquoted : strict = true → ¬(c = '\'' ∨ c = '"')) : Token strict (c :: text) (String.ofList (c :: run)) rest

/-! ## Atoms -/

inductive Comparison where
  | notEqual
  | lessEqual
  | less
  | greaterEqual
  | greater
  deriving DecidableEq

namespace Comparison

def symbol : Comparison → List Char
  | notEqual => ['<', '>']
  | lessEqual => ['<', '=']
  | less => ['<']
  | greaterEqual => ['>', '=']
  | greater => ['>']

/-- No longer operator begins here. -/
def Longest : Comparison → (next : List Char) → Prop
  | less, next => ∀ c ∈ next.head?, c ≠ '>' ∧ c ≠ '='
  | greater, next => ∀ c ∈ next.head?, c ≠ '='
  | _, _ => True

end Comparison

inductive AtomTree where
  | compare (op : Comparison) (token : String)
  | token (token : String)
  | range (low high : String)

/-- Neither an operator nor a parenthesis begins here. -/
def Bare (text : List Char) : Prop := ∀ c ∈ text.head?, c ≠ '<' ∧ c ≠ '>' ∧ c ≠ '('

inductive Atom (strict : Bool) : (text : List Char) → AtomTree → (rest : List Char) → Prop where
  | compare {text next operand rest : List Char} {op : Comparison} {token : String} (start : Blanks text (op.symbol ++ next))
    (longest : strict = true → op.Longest next) (blanks : Blanks next operand) (read : Token strict operand token rest) :
    Atom strict text (.compare op token) rest
  | token {text operand rest : List Char} {token : String} (start : Blanks text operand) (bare : strict = true → Bare operand)
    (read : Token strict operand token rest) : Atom strict text (.token token) rest
  | range {text operand middle next operand' rest : List Char} {low high : String} (start : Blanks text operand)
    (bare : strict = true → Bare operand) (read : Token strict operand low middle) (dots : Blanks middle ('.' :: '.' :: next))
    (blanks : Blanks next operand') (read' : Token strict operand' high rest) : Atom strict text (.range low high) rest

/-! ## Expressions -/

inductive NonTerminal where
  | or
  | and
  | prim
  deriving DecidableEq

inductive FilterTree where
  | atom (a : AtomTree)
  | paren (inner : FilterTree)
  | and (first rest : FilterTree)
  | or (first rest : FilterTree)

inductive Derives (strict : Bool) : NonTerminal → (text : List Char) → FilterTree → (rest : List Char) → Prop where
  | atom {text rest : List Char} {a : AtomTree} (read : Atom strict text a rest) : Derives strict .prim text (.atom a) rest
  | paren {text inside middle rest : List Char} {t : FilterTree} (opens : Blanks text ('(' :: inside)) (inner : Derives strict .or inside t middle)
    (closes : Blanks middle (')' :: rest)) : Derives strict .prim text (.paren t) rest
  | prim {text rest : List Char} {t : FilterTree} (only : Derives strict .prim text t rest) : Derives strict .and text t rest
  | and {text middle next rest : List Char} {t u : FilterTree} (first : Derives strict .prim text t middle) (symbol : Blanks middle ('&' :: next))
    (more : Derives strict .and next u rest) : Derives strict .and text (.and t u) rest
  | term {text rest : List Char} {t : FilterTree} (only : Derives strict .and text t rest) : Derives strict .or text t rest
  | or {text middle next rest : List Char} {t u : FilterTree} (first : Derives strict .and text t middle) (symbol : Blanks middle ('|' :: next))
    (more : Derives strict .or next u rest) : Derives strict .or text (.or t u) rest

section Asts

variable [DecimalSyntax]

def orderableOf (token : String) : OrderableValue :=
  match parseI64 token with
  | some n => .integer n
  | none =>
    match parseDecimal token with
    | some d => .decimal d
    | none => .text token

def AtomTree.ast : AtomTree → FilterAtom
  | .compare .notEqual text => .notEqual (patternOf text)
  | .compare .lessEqual text => .lessEqual (orderableOf text)
  | .compare .less text => .lessThan (orderableOf text)
  | .compare .greaterEqual text => .greaterEqual (orderableOf text)
  | .compare .greater text => .greaterThan (orderableOf text)
  | .token text => .equals (patternOf text)
  | .range low high => .range (orderableOf low) (orderableOf high)

mutual

/-- Parentheses only group. -/
def FilterTree.ast : FilterTree → FilterExpr
  | .atom a => .atom a.ast
  | .paren inner => inner.ast
  | .and first rest => .and (first.ast :: rest.andTerms)
  | .or first rest => .or (first.ast :: rest.orTerms)

def FilterTree.andTerms : FilterTree → List FilterExpr
  | .and first rest => first.ast :: rest.andTerms
  | .atom a => [.atom a.ast]
  | .paren inner => [inner.ast]
  | .or first rest => [.or (first.ast :: rest.orTerms)]

def FilterTree.orTerms : FilterTree → List FilterExpr
  | .or first rest => first.ast :: rest.orTerms
  | .atom a => [.atom a.ast]
  | .paren inner => [inner.ast]
  | .and first rest => [.and (first.ast :: rest.andTerms)]

end

end Asts

/-! ## Blanks -/

section Blanks

variable {text rest next : List Char}

theorem isBlank_iff (c : Char) : isBlank c = true ↔ c = ' ' ∨ c = '\t' := by simp [isBlank]

theorem skipBlanks_remaining (text : List Char) (pos : Nat) : (Parser.skipBlanks text pos).remaining = text.dropWhile isBlank := by
  induction text generalizing pos with
  | nil => rfl
  | cons c rest ih =>
    rw [Parser.skipBlanks]
    split
    next blank => rw [ih, List.dropWhile_cons_of_pos ((isBlank_iff c).mpr blank)]
    next other => rw [List.dropWhile_cons_of_neg (fun blank => other ((isBlank_iff c).mp blank))]

theorem blanks_dropWhile (text : List Char) : Blanks text (text.dropWhile isBlank) :=
  ⟨text.takeWhile isBlank, fun _ inside => List.mem_takeWhile_imp inside, List.takeWhile_append_dropWhile.symm⟩

theorem Blanks.dropWhile (blanks : Blanks text rest) : text.dropWhile isBlank = rest.dropWhile isBlank := by
  obtain ⟨before, all, rfl⟩ := blanks
  exact List.dropWhile_append_of_pos all

/-- Blanks end in front of a character that is none. -/
theorem Blanks.dropWhile_eq (blanks : Blanks text rest) (solid : ∀ c ∈ rest.head?, isBlank c = false) : text.dropWhile isBlank = rest := by
  rw [blanks.dropWhile]
  cases rest with
  | nil => rfl
  | cons c rest => exact List.dropWhile_cons_of_neg (by simp [solid c rfl])

theorem Blanks.symbol {c : Char} (blanks : Blanks text (c :: rest)) (solid : isBlank c = false) : text.dropWhile isBlank = c :: rest :=
  blanks.dropWhile_eq fun _ is => (Option.some.inj is) ▸ solid

theorem blanks_trans {middle : List Char} (first : Blanks text middle) (second : Blanks middle rest) : Blanks text rest := by
  obtain ⟨before, all, rfl⟩ := first
  obtain ⟨before', all', rfl⟩ := second
  refine ⟨before ++ before', ?_, (List.append_assoc _ _ _).symm⟩
  intro c inside
  obtain inside | inside := List.mem_append.mp inside
  · exact all c inside
  · exact all' c inside

end Blanks

/-! ## Reading tokens -/

section Tokens

variable {strict : Bool} {text run rest : List Char}

theorem UpTo.length (read : UpTo text run rest) : text.length = run.length + rest.length := by
  induction read with
  | done => rfl
  | delimiter ends => exact (Nat.zero_add _).symm
  | step inside more ih => rw [List.length_cons, List.length_cons, ih, Nat.succ_add]

theorem readPlain_upTo (read : UpTo text run rest) (pos : Nat) (before : List Char) :
    ∃ stop, readPlain text pos before = (before.reverse ++ run, ⟨rest, stop⟩) := by
  induction read generalizing pos before with
  | done => exact ⟨pos, by simp [readPlain]⟩
  | delimiter ends => exact ⟨pos, by simp [readPlain, ends]⟩
  | @step c text run rest inside more ih =>
    obtain ⟨stop, done⟩ := ih (pos + c.utf8Size) (c :: before)
    refine ⟨stop, ?_⟩
    rw [readPlain, inside, if_neg Bool.false_ne_true, done]
    simp

theorem upTo_readPlain (text : List Char) : ∃ run rest, UpTo text run rest := by
  induction text with
  | nil => exact ⟨[], [], .done⟩
  | cons c text ih =>
    cases ends : endsToken c text with
    | true => exact ⟨[], c :: text, .delimiter ends⟩
    | false =>
      obtain ⟨run, rest, more⟩ := ih
      exact ⟨c :: run, rest, .step ends more⟩

theorem readQuoted_inside {quote : Char} {inner : List Char} (inside : quote ∉ inner) (rest : List Char) (pos : Nat) (before : List Char) :
    ∃ stop, readQuoted quote (inner ++ quote :: rest) pos before = .ok (String.ofList (before.reverse ++ inner), ⟨rest, stop⟩) := by
  induction inner generalizing pos before with
  | nil => exact ⟨pos + quote.utf8Size, by simp [readQuoted]⟩
  | cons c inner ih =>
    obtain ⟨apart, below⟩ := not_or.mp (fun found => inside (List.mem_cons.mpr found))
    obtain ⟨stop, done⟩ := ih below (pos + c.utf8Size) (c :: before)
    refine ⟨stop, ?_⟩
    rw [List.cons_append, readQuoted, if_neg (Ne.symm apart), done]
    simp

theorem readQuoted_ok {quote : Char} {pos : Nat} {before : List Char} {token : String} {q : Parser}
    (done : readQuoted quote text pos before = .ok (token, q)) :
    ∃ inner, quote ∉ inner ∧ text = inner ++ quote :: q.remaining ∧ token = String.ofList (before.reverse ++ inner) := by
  induction text generalizing pos before with
  | nil => simp [readQuoted] at done
  | cons c text ih =>
    rw [readQuoted] at done
    split at done
    next is =>
      cases done
      exact ⟨[], List.not_mem_nil, by rw [is]; rfl, by rw [List.append_nil]⟩
    next apart =>
      obtain ⟨inner, inside, rfl, is⟩ := ih done
      refine ⟨c :: inner, ?_, rfl, by rw [is]; simp⟩
      rw [List.mem_cons, not_or]
      exact ⟨Ne.symm apart, inside⟩

end Tokens

end AlLanguage.Runtime.Filter
