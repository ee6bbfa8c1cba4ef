import AlLanguage.Runtime.FilterSyntax
import Mathlib.Data.List.Chain

/-!
# What the filter parser reads

The parser has fuel enough for every text. A text without the characters of the filter syntax is read as one
token, alone or on both sides of a range.
-/

namespace AlLanguage.Runtime.Filter

/-- A character without a meaning in filter expressions, the dot apart. -/
def isPlain (c : Char) : Bool :=
  !(isWhitespace c || ['\'', '"', '|', '&', '(', ')', '<', '>', '=', '@', '*', '?'].contains c)

/-- No two dots in a row. -/
def NoDots (text : List Char) : Prop := text.IsChain fun a b => a ≠ '.' ∨ b ≠ '.'

instance (text : List Char) : Decidable (NoDots text) := inferInstanceAs (Decidable (List.IsChain _ text))

/-- A text that filter expressions take literally. -/
structure FilterText (s : String) : Prop where
  nonempty : s.toList ≠ []
  plain : ∀ c ∈ s.toList, isPlain c = true
  noDots : NoDots s.toList

/-! ## Progress -/

theorem skipBlanks_length (text : List Char) (pos : Nat) :
    (Parser.skipBlanks text pos).remaining.length ≤ text.length := by
  induction text generalizing pos with
  | nil => simp [Parser.skipBlanks]
  | cons c rest ih =>
      rw [Parser.skipBlanks]
      split
      · exact (ih _).trans (Nat.le_succ _)
      · simp

theorem skipWhitespace_length (p : Parser) : p.skipWhitespace.remaining.length ≤ p.remaining.length :=
  skipBlanks_length _ _

theorem advance_length (p : Parser) : p.advance.remaining.length = p.remaining.length - 1 := by
  rcases p with ⟨_ | ⟨c, rest⟩, pos⟩ <;> simp [Parser.advance]

theorem readQuoted_length {quote : Char} {text : List Char} {pos : Nat} {read : List Char} {token : String} {q : Parser}
    (done : readQuoted quote text pos read = .ok (token, q)) : q.remaining.length < text.length := by
  induction text generalizing pos read with
  | nil => simp [readQuoted] at done
  | cons c rest ih =>
      rw [readQuoted] at done
      split at done
      · cases done
        simp
      · exact (ih done).trans (Nat.lt_succ_self _)

theorem readPlain_length (text : List Char) (pos : Nat) (read : List Char) :
    (readPlain text pos read).2.remaining.length + (readPlain text pos read).1.length = text.length + read.length := by
  induction text generalizing pos read with
  | nil => simp [readPlain]
  | cons c rest ih =>
      rw [readPlain]
      split
      · simp
      · rw [ih, List.length_cons, List.length_cons]
        omega

theorem readToken_length {p q : Parser} {token : String} (done : readToken p = .ok (token, q)) :
    q.remaining.length < p.remaining.length := by
  have skipped := skipWhitespace_length p
  unfold readToken at done
  dsimp only at done
  split at done
  · cases done
  next c rest shape =>
    rw [shape, List.length_cons] at skipped
    split at done
    · exact (readQuoted_length done).trans_le (by omega)
    · have length := readPlain_length p.skipWhitespace.remaining p.skipWhitespace.pos []
      split at done
      · cases done
      next read rest nonempty plain =>
        cases done
        rw [plain, shape] at length
        have positive := List.length_pos_iff.mpr fun empty => nonempty empty
        simp only [List.length_cons, List.length_nil] at length
        omega

/-- A parse that succeeds leaves fewer than `bound` characters. -/
def Within {α : Type} (bound : Nat) (parsed : Except FilterParseError (α × Parser)) : Prop :=
  ∀ a q, parsed = .ok (a, q) → q.remaining.length < bound

theorem within_error {α : Type} {bound : Nat} (e : FilterParseError) :
    Within bound (.error e : Except FilterParseError (α × Parser)) := by
  intro a q done
  cases done

theorem within_ok {α : Type} {bound : Nat} {a : α} {p : Parser} (shorter : p.remaining.length < bound) :
    Within bound (.ok (a, p)) := by
  intro b q done
  cases done
  exact shorter

theorem within_bind {α β : Type} {bound bound' : Nat} {parsed : Except FilterParseError (α × Parser)}
    {next : α × Parser → Except FilterParseError (β × Parser)} (first : Within bound parsed)
    (later : ∀ a q, q.remaining.length < bound → Within bound' (next (a, q))) : Within bound' (parsed >>= next) := by
  cases parsed with
  | error e => exact within_error e
  | ok result => exact later result.1 result.2 (first _ _ rfl)

theorem readToken_within {p : Parser} {bound : Nat} (shorter : p.remaining.length ≤ bound) :
    Within bound (readToken p) := by
  intro token q done
  exact (readToken_length done).trans_le shorter

theorem parsePattern_within {p : Parser} {bound : Nat} (shorter : p.remaining.length ≤ bound) :
    Within bound (parsePattern p) := by
  apply within_bind (readToken_within shorter)
  intro token q fewer
  exact within_ok fewer

/-- The parse has an answer, within `bound` if it is a success. -/
def Answers {α : Type} (bound : Nat) (parsed : ExceptT FilterParseError Option (α × Parser)) : Prop :=
  ∃ answer, parsed.run = some answer ∧ Within bound answer

theorem answers_pure {α : Type} {bound : Nat} {a : α} {p : Parser} (shorter : p.remaining.length < bound) :
    Answers bound (pure (a, p)) :=
  ⟨.ok (a, p), rfl, within_ok shorter⟩

theorem answers_throw {α : Type} {bound : Nat} (e : FilterParseError) :
    Answers (α := α) bound (throw e) :=
  ⟨.error e, rfl, within_error e⟩

theorem answers_bind {α β : Type} {bound bound' : Nat} {parsed : ExceptT FilterParseError Option (α × Parser)}
    {next : α × Parser → ExceptT FilterParseError Option (β × Parser)} (first : Answers bound parsed)
    (later : ∀ a q, q.remaining.length < bound → Answers bound' (next (a, q))) : Answers bound' (parsed >>= next) := by
  obtain ⟨answer, done, within⟩ := first
  rw [Answers, ExceptT.run_bind, done]
  cases answer with
  | error e => exact ⟨.error e, rfl, within_error e⟩
  | ok result => exact later result.1 result.2 (within _ _ rfl)

theorem peek_some {p : Parser} {c : Char} (here : p.peek = some c) : p.advance.remaining.length + 1 = p.remaining.length := by
  rcases p with ⟨_ | ⟨d, rest⟩, pos⟩
  · cases here
  · simp [Parser.advance]

section Parsing

variable [DecimalSyntax]

theorem parseOrderable_within {p : Parser} {bound : Nat} (shorter : p.remaining.length ≤ bound) :
    Within bound (parseOrderable p) := by
  apply within_bind (readToken_within shorter)
  intro token q fewer
  dsimp only
  split
  · exact within_ok fewer
  · exact within_error _

theorem parseAtom_within (p : Parser) : Within p.remaining.length (parseAtom p) := by
  have skipped := skipWhitespace_length p
  have one := advance_length p.skipWhitespace
  have two := advance_length p.skipWhitespace.advance
  unfold parseAtom
  dsimp only
  split
  · exact within_error _
  iterate 5
    first
    | apply within_bind (parsePattern_within (show _ ≤ p.remaining.length by omega))
    | apply within_bind (parseOrderable_within (show _ ≤ p.remaining.length by omega))
    intro value q fewer
    exact within_ok fewer
  · apply within_bind (readToken_within skipped)
    intro token q fewer
    have skippedAgain := skipWhitespace_length q
    dsimp only
    split
    next rest shape =>
      rw [shape, List.length_cons, List.length_cons] at skippedAgain
      apply within_bind (readToken_within (Nat.le_refl _))
      intro second q' fewer'
      dsimp only at fewer' ⊢
      split
      · exact within_ok (by omega)
      · exact within_error _
    · exact within_ok (by omega)

/-! ## Fuel -/

/-- Each rule answers on fuel three times the text that remains, and a little more. -/
theorem parse_answers (fuel : Nat) :
    (∀ p, 3 * p.remaining.length + 3 ≤ fuel → Answers p.remaining.length (parseExpr fuel p)) ∧
    (∀ terms p, 3 * p.remaining.length + 2 ≤ fuel → Answers (p.remaining.length + 1) (parseOrTerms fuel terms p)) ∧
    (∀ p, 3 * p.remaining.length + 2 ≤ fuel → Answers p.remaining.length (parseAnd fuel p)) ∧
    (∀ terms p, 3 * p.remaining.length + 1 ≤ fuel → Answers (p.remaining.length + 1) (parseAndTerms fuel terms p)) ∧
    (∀ p, 3 * p.remaining.length + 1 ≤ fuel → Answers p.remaining.length (parsePrimary fuel p)) := by
  induction fuel with
  | zero => simp
  | succ fuel ih =>
      obtain ⟨expr, orTerms, and, andTerms, primary⟩ := ih
      refine ⟨?_, ?_, ?_, ?_, ?_⟩
      · intro p enough
        rw [parseExpr]
        apply answers_bind (and p (by omega))
        intro first q fewer
        obtain ⟨answer, done, within⟩ := orTerms [first] q (by omega)
        exact ⟨answer, done, fun a r ok => (within a r ok).trans_le (by omega)⟩
      · intro terms p enough
        have skipped := skipWhitespace_length p
        rw [parseOrTerms]
        dsimp only
        split
        next bar =>
          have next := peek_some bar
          apply answers_bind (and _ (by omega))
          intro term q fewer
          obtain ⟨answer, done, within⟩ := orTerms (terms ++ [term]) q (by omega)
          exact ⟨answer, done, fun a r ok => (within a r ok).trans_le (by omega)⟩
        · exact answers_pure (by omega)
      · intro p enough
        rw [parseAnd]
        apply answers_bind (primary p (by omega))
        intro first q fewer
        obtain ⟨answer, done, within⟩ := andTerms [first] q (by omega)
        exact ⟨answer, done, fun a r ok => (within a r ok).trans_le (by omega)⟩
      · intro terms p enough
        have skipped := skipWhitespace_length p
        rw [parseAndTerms]
        dsimp only
        split
        next ampersand =>
          have next := peek_some ampersand
          apply answers_bind (primary _ (by omega))
          intro term q fewer
          obtain ⟨answer, done, within⟩ := andTerms (terms ++ [term]) q (by omega)
          exact ⟨answer, done, fun a r ok => (within a r ok).trans_le (by omega)⟩
        · exact answers_pure (by omega)
      · intro p enough
        have skipped := skipWhitespace_length p
        rw [parsePrimary]
        dsimp only
        split
        next paren =>
          have next := peek_some paren
          apply answers_bind (expr _ (by omega))
          intro inner q fewer
          have skippedAgain := skipWhitespace_length q
          dsimp only
          split
          next close =>
            have after := peek_some close
            exact answers_pure (by omega)
          · exact answers_throw _
        · apply answers_bind ⟨_, rfl, parseAtom_within _⟩
          intro atom q fewer
          dsimp only
          exact answers_pure (by omega)

/-- `parse` never answers for want of fuel. -/
theorem parseTrimmed_answers (text : List Char) : ∃ answer, (parseTrimmed (fuelFor text) text).run = some answer := by
  obtain ⟨answer, done, -⟩ := (parse_answers (fuelFor text)).1 ⟨text, 0⟩ (Nat.le_refl _)
  rw [parseTrimmed, ExceptT.run_bind, done]
  cases answer with
  | error e => exact ⟨_, rfl⟩
  | ok result =>
      dsimp only [bind, Option.bind]
      split <;> exact ⟨_, rfl⟩

/-! ## Plain texts -/

omit [DecimalSyntax] in
theorem skipBlanks_plain {c : Char} {rest : List Char} (plain : isPlain c = true) (pos : Nat) :
    Parser.skipBlanks (c :: rest) pos = ⟨c :: rest, pos⟩ := by
  rw [Parser.skipBlanks, if_neg]
  rintro (rfl | rfl) <;> exact absurd plain (by decide)

omit [DecimalSyntax] in
theorem endsToken_plain {c : Char} (plain : isPlain c = true) (rest : List Char) :
    endsToken c rest = (c == '.' && rest.head? == some '.') := by
  have delimiters : [' ', '\t', '|', '&', ')'].all (fun d => !isPlain d) = true := by decide
  have apart : ∀ d ∈ [' ', '\t', '|', '&', ')'], (c == d) = false := by
    intro d member
    rw [beq_eq_false_iff_ne]
    rintro rfl
    simpa [plain] using List.all_eq_true.mp delimiters c member
  simp only [List.forall_mem_cons] at apart
  simp [endsToken, apart]

/-! ## Reading a token -/

/-- What is left where reading a token stops. -/
def Stops (rest : List Char) : Prop := ∀ pos read, readPlain rest pos read = (read.reverse, ⟨rest, pos⟩)

omit [DecimalSyntax] in
theorem stops_nil : Stops [] := fun _ _ => rfl

omit [DecimalSyntax] in
theorem stops_dots (rest : List Char) : Stops ('.' :: '.' :: rest) := by
  intro pos read
  simp [readPlain, endsToken]

omit [DecimalSyntax] in
theorem readPlain_append {text rest : List Char} (plain : ∀ c ∈ text, isPlain c = true)
    (dots : NoDots (text ++ rest.take 1)) (stops : Stops rest) (pos : Nat) (read : List Char) :
    ∃ stop, readPlain (text ++ rest) pos read = (read.reverse ++ text, ⟨rest, stop⟩) := by
  induction text generalizing pos read with
  | nil => exact ⟨pos, by simp [stops pos read]⟩
  | cons c text ih =>
      obtain ⟨apart, later⟩ := List.isChain_cons.mp dots
      obtain ⟨stop, done⟩ := ih (fun d member => plain d (List.mem_cons_of_mem _ member)) later
        (pos + c.utf8Size) (c :: read)
      have inside : endsToken c (text ++ rest) = false := by
        rw [endsToken_plain (plain c (List.mem_cons_self ..)), Bool.and_eq_false_imp]
        intro dot
        rw [beq_eq_false_iff_ne]
        intro next
        have following : (text ++ rest.take 1).head? = some '.' := by
          cases text <;> cases rest <;> simp_all
        exact (apart '.' following).elim (fun other => other (by simpa using dot)) fun other => other rfl
      refine ⟨stop, ?_⟩
      rw [List.cons_append, readPlain, inside, if_neg Bool.false_ne_true, done]
      simp

omit [DecimalSyntax] in
theorem quotes_notPlain {c : Char} (plain : isPlain c = true) : ¬(c = '\'' ∨ c = '"') := by
  rintro (rfl | rfl) <;> exact absurd plain (by decide)

omit [DecimalSyntax] in
theorem readToken_append {text rest : List Char} (nonempty : text ≠ []) (plain : ∀ c ∈ text, isPlain c = true)
    (dots : NoDots (text ++ rest.take 1)) (stops : Stops rest) (pos : Nat) :
    ∃ stop, readToken ⟨text ++ rest, pos⟩ = .ok (String.ofList text, ⟨rest, stop⟩) := by
  obtain ⟨stop, done⟩ := readPlain_append plain dots stops pos []
  cases text with
  | nil => exact absurd rfl nonempty
  | cons c text =>
      have here := plain c (List.mem_cons_self ..)
      refine ⟨stop, ?_⟩
      simp only [List.cons_append] at done
      simp [readToken, Parser.skipWhitespace, skipBlanks_plain here, done, quotes_notPlain here]

omit [DecimalSyntax] in
/-- Dots in front of the text make an empty token. -/
theorem readToken_dots (rest : List Char) (pos : Nat) : readToken ⟨'.' :: '.' :: rest, pos⟩ = .error .unexpectedEnd := by
  have plain : isPlain '.' = true := by decide
  have stop := stops_dots rest pos []
  simp only [List.reverse_nil] at stop
  simp [readToken, Parser.skipWhitespace, skipBlanks_plain plain, stop]

/-! ## Plain expressions -/

omit [DecimalSyntax] in
theorem isWhitespace_plain {c : Char} (plain : isPlain c = true) : isWhitespace c = false := by
  simp only [isPlain, Bool.not_eq_true', Bool.or_eq_false_iff] at plain
  exact plain.1

omit [DecimalSyntax] in
theorem trim_solid {s : String} (solid : ∀ c ∈ s.toList, isWhitespace c = false) : trim s = s := by
  have left : s.toList.dropWhile isWhitespace = s.toList := by
    cases text : s.toList with
    | nil => rfl
    | cons c rest => rw [List.dropWhile_cons_of_neg (by simp [solid c (text ▸ List.mem_cons_self ..)])]
  have right : s.toList.rdropWhile isWhitespace = s.toList := by
    rw [List.rdropWhile_eq_self_iff]
    intro nonempty
    simp [solid _ (List.getLast_mem nonempty)]
  rw [trim, left, right, String.ofList_toList]

/-- The parse of an expression that is one atom. -/
theorem parse_alone {s : String} {c : Char} {rest : List Char} {answer : Except FilterParseError (FilterAtom × Parser)}
    (solid : ∀ c ∈ s.toList, isWhitespace c = false) (text : s.toList = c :: rest) (closed : c ≠ '(')
    (parsed : parseAtom ⟨s.toList, 0⟩ = answer) (whole : ∀ atom p, answer = .ok (atom, p) → p.remaining = []) :
    parse s = answer.map fun result => .atom result.1 := by
  have apart := solid c (text ▸ List.mem_cons_self ..)
  have still : Parser.skipBlanks (c :: rest) 0 = ⟨c :: rest, 0⟩ := by
    rw [Parser.skipBlanks, if_neg]
    rintro (rfl | rfl) <;> exact absurd apart (by decide)
  obtain ⟨fuel, enough⟩ : ∃ fuel, fuelFor s.toList = fuel + 4 :=
    ⟨3 * rest.length + 2, by rw [fuelFor, text, List.length_cons]; omega⟩
  rw [parse, trim_solid solid, if_neg (by simp [text]), parseTrimmed, enough]
  simp only [parseExpr, parseAnd, parsePrimary, Parser.skipWhitespace, text, still, Parser.peek,
    List.head?_cons, Option.some.injEq, closed, if_false]
  rw [← text, parsed]
  cases answer with
  | error e => rfl
  | ok result =>
      obtain ⟨atom, p⟩ := result
      have done : p = ⟨[], p.pos⟩ := by rw [← whole atom p rfl]
      rw [done]
      rfl

/-- On a plain text the parse is that of one atom. -/
theorem parse_atom {s : String} {answer : Except FilterParseError (FilterAtom × Parser)}
    (nonempty : s.toList ≠ []) (plain : ∀ c ∈ s.toList, isPlain c = true)
    (parsed : parseAtom ⟨s.toList, 0⟩ = answer) (whole : ∀ atom p, answer = .ok (atom, p) → p.remaining = []) :
    parse s = answer.map fun result => .atom result.1 := by
  obtain ⟨c, rest, text⟩ := List.exists_cons_of_ne_nil nonempty
  have here := plain c (text ▸ List.mem_cons_self ..)
  have closed : c ≠ '(' := by
    rintro rfl
    exact absurd here (by decide)
  exact parse_alone (fun c member => isWhitespace_plain (plain c member)) text closed parsed whole

theorem parseOrderableStr_some (s : String) : ∃ bound, parseOrderableStr s = some bound := by
  unfold parseOrderableStr
  split
  · exact ⟨_, rfl⟩
  · split <;> exact ⟨_, rfl⟩

/-- An atom without an operator in front is an operand, with a second one behind dots. -/
theorem parseAtom_plain {c : Char} {rest : List Char} (plain : isPlain c = true) (pos : Nat) :
    parseAtom ⟨c :: rest, pos⟩ = (do
      let (first, p) ← readToken ⟨c :: rest, pos⟩
      let p := p.skipWhitespace
      match p.remaining with
      | '.' :: '.' :: rest =>
          let (second, p) ← readToken ⟨rest, p.pos + 2⟩
          match parseOrderableStr first, parseOrderableStr second with
          | some low, some high => return (.range low high, p)
          | _, _ => throw (.invalidRange first second)
      | _ => return (.equals (patternOf first), p)) := by
  have less : c ≠ '<' := by
    rintro rfl
    exact absurd plain (by decide)
  have greater : c ≠ '>' := by
    rintro rfl
    exact absurd plain (by decide)
  simp only [parseAtom, Parser.skipWhitespace, skipBlanks_plain plain]
  split
  case h_7 => rfl
  all_goals simp_all

omit [DecimalSyntax] in
theorem skipWhitespace_dots (rest : List Char) (pos : Nat) :
    Parser.skipWhitespace ⟨'.' :: '.' :: rest, pos⟩ = ⟨'.' :: '.' :: rest, pos⟩ :=
  skipBlanks_plain (by decide) pos

section Range

variable {low high : List Char} (lowPlain : ∀ c ∈ low, isPlain c = true) (highPlain : ∀ c ∈ high, isPlain c = true)

include lowPlain highPlain

omit [DecimalSyntax] in
theorem plain_range : ∀ c ∈ (String.ofList (low ++ '.' :: '.' :: high)).toList, isPlain c = true := by
  intro c member
  have cases : c ∈ low ∨ c = '.' ∨ c ∈ high := by simpa using member
  rcases cases with inLow | rfl | inHigh
  · exact lowPlain c inLow
  · decide
  · exact highPlain c inHigh

omit highPlain in
/-- The atom behind a first operand and dots. -/
theorem parseAtom_range (nonempty : low ≠ []) (dots : NoDots (low ++ ['.'])) :
    ∃ stop, parseAtom ⟨low ++ '.' :: '.' :: high, 0⟩ = (do
      let (second, p) ← readToken ⟨high, stop⟩
      match parseOrderableStr (String.ofList low), parseOrderableStr second with
      | some low, some high => return (.range low high, p)
      | _, _ => throw (.invalidRange (String.ofList low) second)) := by
  obtain ⟨stop, first⟩ := @readToken_append low ('.' :: '.' :: high) nonempty lowPlain dots (stops_dots high) 0
  obtain ⟨c, rest, rfl⟩ := List.exists_cons_of_ne_nil nonempty
  refine ⟨stop + 2, ?_⟩
  rw [List.cons_append] at first ⊢
  rw [parseAtom_plain (lowPlain c (List.mem_cons_self ..)), first]
  simp only [bind, Except.bind, skipWhitespace_dots]

theorem parse_range (lowNonempty : low ≠ []) (lowDots : NoDots (low ++ ['.'])) (highNonempty : high ≠ [])
    (highDots : NoDots high) {lowBound highBound : OrderableValue}
    (lowRead : parseOrderableStr (String.ofList low) = some lowBound)
    (highRead : parseOrderableStr (String.ofList high) = some highBound) :
    parse (String.ofList (low ++ '.' :: '.' :: high)) = .ok (.atom (.range lowBound highBound)) := by
  obtain ⟨stop, atom⟩ := @parseAtom_range _ _ high lowPlain lowNonempty lowDots
  have dots : NoDots (high ++ ([] : List Char).take 1) := by simpa using highDots
  obtain ⟨last, second⟩ := readToken_append highNonempty highPlain dots stops_nil stop
  rw [List.append_nil] at second
  have parsed : parseAtom ⟨(String.ofList (low ++ '.' :: '.' :: high)).toList, 0⟩ =
      .ok (.range lowBound highBound, ⟨[], last⟩) := by
    rw [String.toList_ofList, atom, second]
    simp only [bind, Except.bind, lowRead, highRead]
    rfl
  rw [parse_atom (by simp) (plain_range lowPlain highPlain) parsed fun atom p done => by cases done; rfl]
  rfl

theorem parse_range_empty {rest : List Char} (lowNonempty : low ≠ []) (lowDots : NoDots (low ++ ['.']))
    (dots : high = '.' :: '.' :: rest) :
    parse (String.ofList (low ++ '.' :: '.' :: high)) = .error .unexpectedEnd := by
  obtain ⟨stop, atom⟩ := @parseAtom_range _ _ high lowPlain lowNonempty lowDots
  have parsed : parseAtom ⟨(String.ofList (low ++ '.' :: '.' :: high)).toList, 0⟩ = .error .unexpectedEnd := by
    rw [String.toList_ofList, atom, dots, readToken_dots]
    rfl
  rw [parse_atom (by simp) (plain_range lowPlain highPlain) parsed fun atom p done => by cases done]
  rfl

end Range

theorem parse_dots {rest : List Char} (plain : ∀ c ∈ rest, isPlain c = true) :
    parse (String.ofList ('.' :: '.' :: rest)) = .error .unexpectedEnd := by
  have parsed : parseAtom ⟨(String.ofList ('.' :: '.' :: rest)).toList, 0⟩ = .error .unexpectedEnd := by
    rw [String.toList_ofList, parseAtom_plain (by decide), readToken_dots]
    rfl
  have all : ∀ c ∈ (String.ofList ('.' :: '.' :: rest)).toList, isPlain c = true := by
    simp only [String.toList_ofList, List.forall_mem_cons]
    exact ⟨by decide, by decide, plain⟩
  rw [parse_atom (by simp) all parsed fun atom p done => by cases done]
  rfl

omit [DecimalSyntax] in
theorem patternOf_plain {s : String} (text : FilterText s) : patternOf s = ⟨s, true⟩ := by
  unfold patternOf
  split
  next rest starts => exact absurd (text.plain '@' (by rw [starts]; exact List.mem_cons_self)) (by decide)
  · rfl

theorem parse_equals {s : String} (text : FilterText s) : parse s = .ok (.atom (.equals ⟨s, true⟩)) := by
  have dots : NoDots (s.toList ++ ([] : List Char).take 1) := by simpa using text.noDots
  obtain ⟨stop, token⟩ := readToken_append text.nonempty text.plain dots stops_nil 0
  rw [List.append_nil, String.ofList_toList] at token
  obtain ⟨c, rest, shape⟩ := List.exists_cons_of_ne_nil text.nonempty
  have here := text.plain c (shape ▸ List.mem_cons_self ..)
  have parsed : parseAtom ⟨s.toList, 0⟩ = .ok (.equals ⟨s, true⟩, ⟨[], stop⟩) := by
    rw [shape] at token ⊢
    rw [parseAtom_plain here, token, ← patternOf_plain text]
    rfl
  rw [parse_atom text.nonempty text.plain parsed fun atom p done => by cases done; rfl]
  rfl

theorem parse_notEqual {s : String} (text : FilterText s) :
    parse (String.ofList ('<' :: '>' :: s.toList)) = .ok (.atom (.notEqual ⟨s, true⟩)) := by
  have dots : NoDots (s.toList ++ ([] : List Char).take 1) := by simpa using text.noDots
  obtain ⟨stop, token⟩ := readToken_append text.nonempty text.plain dots stops_nil 2
  rw [List.append_nil, String.ofList_toList] at token
  have parsed : parseAtom ⟨(String.ofList ('<' :: '>' :: s.toList)).toList, 0⟩ = .ok (.notEqual ⟨s, true⟩, ⟨[], stop⟩) := by
    rw [String.toList_ofList]
    change parsePattern ⟨s.toList, 2⟩ >>= _ = _
    rw [parsePattern, token, ← patternOf_plain text]
    rfl
  have solid : ∀ c ∈ (String.ofList ('<' :: '>' :: s.toList)).toList, isWhitespace c = false := by
    simp only [String.toList_ofList, List.forall_mem_cons]
    exact ⟨by decide, by decide, fun c member => isWhitespace_plain (text.plain c member)⟩
  rw [parse_alone solid (String.toList_ofList ..) (by decide) parsed fun atom p done => by cases done; rfl]
  rfl

end Parsing

end AlLanguage.Runtime.Filter
