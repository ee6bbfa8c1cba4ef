import AlLanguage.Insight.Scanners

/-!
# The tables of a relation

A TableRelation is a table, or a chain of conditions with a table each. Its tables are found if the parentheses of the
conditions are level in quotes too, and if no word in quotes is taken for an ELSE.
-/

namespace AlLanguage.Insight

open AlLanguage.Runtime (isWhitespace)

/-! ## Well-formed relations -/

def Blanks (text : Text) : Prop := ∀ c ∈ text, isWhitespace c = true

/-- Parentheses outside of quotes come in pairs. Names and constants in quotes hold anything but their quote. -/
inductive Conditions : Text → Prop where
  | nil : Conditions []
  | plain (c : Char) (rest : Text) : c ∉ ['"', Char.ofNat 39, '(', ')'] → Conditions rest → Conditions (c :: rest)
  | quoted (quote : Char) (body rest : Text) : quote ∈ ['"', Char.ofNat 39] → quote ∉ body → Conditions rest →
      Conditions (quote :: (body ++ quote :: rest))
  | group (inner rest : Text) : Conditions inner → Conditions rest → Conditions ('(' :: (inner ++ ')' :: rest))

inductive TableName where
  | bare (name : Text)
  | quoted (name : Text)

def TableName.name : TableName → Text
  | bare name => name
  | quoted name => name

def TableName.print : TableName → Text
  | bare name => name
  | quoted name => '"' :: (name ++ ['"'])

/-- A table, and what stands behind its name: a field, a WHERE clause and blanks. -/
structure Target where
  table : TableName
  behind : Text

def Target.print (target : Target) : Text := target.table.print ++ target.behind

/-- `IF (…)` with the blanks before and behind the parentheses. -/
structure IfPart where
  word : Text
  before : Text
  condition : Text
  behind : Text

def IfPart.print (part : IfPart) : Text := part.word ++ (part.before ++ '(' :: (part.condition ++ ')' :: part.behind))

inductive Relation where
  | single (target : Target)
  | conditional (part : IfPart) (target : Target)
  | otherwise (part : IfPart) (target : Target) (word gap : Text) (rest : Relation)

namespace Relation

def print : Relation → Text
  | single target => target.print
  | conditional part target => part.print ++ target.print
  | otherwise part target word gap rest => part.print ++ (target.print ++ (word ++ (gap ++ rest.print)))

/-- The tables in declaration order. -/
def tables : Relation → List Text
  | single target => [target.table.name]
  | conditional _ target => [target.table.name]
  | otherwise _ target _ _ rest => target.table.name :: rest.tables

end Relation

section Grammar

variable [Alphanumeric]

/-- No word runs on from one text into the next. -/
def Separated (before after : Text) : Prop := before.getLast?.any inWord = false ∨ after.head?.any inWord = false

def TableName.WellFormed : TableName → Prop
  | bare name => name ≠ [] ∧ (∀ c ∈ name, inWord c = true ∧ isWhitespace c = false) ∧
      name.map Char.toLower ∉ ["if".toList, "else".toList, "where".toList]
  | quoted name => name ≠ [] ∧ '"' ∉ name

inductive FieldPart : Text → Prop where
  | none : FieldPart []
  | some (before behind : Text) (name : TableName) : Blanks before → Blanks behind → name.WellFormed →
      FieldPart (before ++ '.' :: (behind ++ name.print))

inductive WherePart : Text → Prop where
  | none : WherePart []
  | some (before word behind conditions : Text) : Blanks before → word.map Char.toLower = "where".toList →
      Blanks behind → Conditions conditions → WherePart (before ++ (word ++ (behind ++ '(' :: (conditions ++ [')']))))

structure Target.WellFormed (target : Target) : Prop where
  table : target.table.WellFormed
  behind : ∃ field clause blanks, FieldPart field ∧ WherePart clause ∧ Blanks blanks ∧ Separated field clause ∧
    target.behind = field ++ (clause ++ blanks)
  apart : Separated target.table.print target.behind

structure IfPart.WellFormed (part : IfPart) : Prop where
  word : part.word.map Char.toLower = "if".toList
  before : Blanks part.before
  condition : Conditions part.condition
  behind : Blanks part.behind

namespace Relation

def WellFormed : Relation → Prop
  | single target => target.WellFormed
  | conditional part target => part.WellFormed ∧ target.WellFormed
  | otherwise part target word gap rest => part.WellFormed ∧ target.WellFormed ∧ word.map Char.toLower = "else".toList ∧
      Blanks gap ∧ Separated target.print word ∧ Separated word (gap ++ rest.print) ∧ rest.WellFormed

/-- The parentheses of the conditions are level, those in quotes included, and no ELSE stands behind a table but that of
the chain. -/
def Clear : Relation → Prop
  | single target => Lacks target.behind "else"
  | conditional part target => Level part.condition ∧ Lacks target.behind "else"
  | otherwise part target _ _ rest => Level part.condition ∧ Lacks target.behind "else" ∧ rest.Clear

/-- One table, or a chain that is clear. -/
def Unmistakable : Relation → Prop
  | single _ => True
  | conditional part target => Clear (conditional part target)
  | otherwise part target word gap rest => Clear (otherwise part target word gap rest)

end Relation

/-! ## Reading one branch -/

variable [LawfulAlphanumeric]

theorem not_inWord {c : Char} (small : c.toNat < 128) (other : (c.isAlphanum || c = '_') = false) : inWord c = false := by
  rw [inWord, LawfulAlphanumeric.ascii c small, other]

omit [Alphanumeric] [LawfulAlphanumeric] in
theorem Blanks.head {blanks rest : Text} {c : Char} (blank : Blanks blanks) (filled : blanks ≠ [])
    (first : (blanks ++ rest).head? = some c) : isWhitespace c = true := by
  obtain ⟨d, others, rfl⟩ := List.exists_cons_of_ne_nil filled
  cases first
  exact blank c List.mem_cons_self

theorem inWord_of_word {word keyword rest : Text} {c : Char} (spelled : word.map Char.toLower = keyword)
    (lower : Lowercase keyword) (filled : keyword ≠ []) (first : (word ++ rest).head? = some c) : inWord c = true := by
  cases word with
  | nil => exact absurd spelled.symm filled
  | cons d others =>
      cases first
      apply inWord_of_toLower
      apply List.all_eq_true.mp lower
      rw [← spelled]
      exact List.mem_cons_self

/-- A name ends, or a word begins. -/
theorem Target.WellFormed.head {target : Target} (formed : target.WellFormed) {c : Char}
    (first : target.behind.head? = some c) : endsName c = true ∨ inWord c = true := by
  obtain ⟨field, clause, blanks, fieldPart, wherePart, blank, -, text⟩ := formed.behind
  have white (d : Char) (here : isWhitespace d = true) : endsName d = true := by simp [endsName, here]
  rw [text] at first
  cases fieldPart with
  | some before behind name blank' _ _ =>
      left
      by_cases none : before = []
      · subst none
        cases first
        decide
      · rw [List.append_assoc] at first
        exact white c (blank'.head none first)
  | none =>
      rw [List.nil_append] at first
      cases wherePart with
      | none =>
          left
          cases blanks with
          | nil => cases first
          | cons d others =>
              cases first
              exact white c (blank c List.mem_cons_self)
      | some before word behind conditions blank' spelled _ _ =>
          by_cases none : before = []
          · right
            subst none
            rw [List.nil_append, List.append_assoc] at first
            exact inWord_of_word spelled (by decide) (by decide) first
          · left
            rw [List.append_assoc] at first
            exact white c (blank'.head none first)

omit [LawfulAlphanumeric] in
theorem TableName.WellFormed.last {name : Text} (formed : (TableName.bare name).WellFormed) :
    name.getLast?.any inWord = true := by
  rw [List.getLast?_eq_getLast_of_ne_nil formed.1, Option.any_some]
  exact (formed.2.1 _ (List.getLast_mem _)).1

/-- A bare name ends where its table does. -/
theorem Target.WellFormed.bare_ends {name behind rest : Text} (formed : Target.WellFormed ⟨.bare name, behind⟩)
    (apart : Separated (Target.print ⟨.bare name, behind⟩) rest) (word : ∀ c ∈ rest.head?, inWord c = true) :
    ∀ c ∈ (behind ++ rest).head?, endsName c = true := by
  intro c first
  have separate := formed.apart
  cases behind with
  | nil =>
      rw [Separated, Target.print, List.append_nil, TableName.print, formed.table.last] at apart
      rw [List.nil_append] at first
      rw [first, Option.any_some, word c first] at apart
      exact apart.elim nofun nofun
  | cons d others =>
      cases first
      rcases formed.head (c := c) rfl with ends | letter
      · exact ends
      · rw [Separated, TableName.print, formed.table.last, List.head?_cons, Option.any_some, letter] at separate
        exact separate.elim nofun nofun

theorem inWord_of_endsName {c : Char} (ends : endsName c = true) : inWord c = false := by
  simp only [endsName, Bool.or_eq_true, decide_eq_true_eq] at ends
  rcases ends with (white | rfl) | rfl
  · exact inWord_white white
  · exact not_inWord (by decide) (by decide)
  · exact not_inWord (by decide) (by decide)

theorem Target.WellFormed.takeTableName {target : Target} (formed : target.WellFormed) {rest : Text}
    (apart : Separated target.print rest) (word : ∀ c ∈ rest.head?, inWord c = true) :
    takeTableName (target.print ++ rest) = (some target.table.name, target.behind ++ rest) := by
  obtain ⟨table, behind⟩ := target
  cases table with
  | quoted name =>
      obtain ⟨filled, free⟩ := formed.table
      have text : Target.print ⟨.quoted name, behind⟩ ++ rest = '"' :: (name ++ '"' :: (behind ++ rest)) := by
        simp [Target.print, TableName.print]
      rw [text, takeTableName_quoted free filled]
      rfl
  | bare name =>
      obtain ⟨filled, letters, -⟩ := formed.table
      have text : Target.print ⟨.bare name, behind⟩ ++ rest = name ++ (behind ++ rest) := by
        simp [Target.print, TableName.print]
      have other {c d : Char} (member : c ∈ name) (small : d.toNat < 128) (symbol : (d.isAlphanum || d = '_') = false) :
          c ≠ d := by
        rintro rfl
        have letter := (letters c member).1
        rw [not_inWord small symbol] at letter
        cases letter
      rw [text]
      apply takeTableName_bare _ _ filled (formed.bare_ends apart word)
      · intro c member
        have white := (letters c member).2
        have dot := other member (d := '.') (by decide) (by decide)
        have paren := other member (d := '(') (by decide) (by decide)
        simp [endsName, white, dot, paren]
      · intro c member
        exact ⟨other member (by decide) (by decide), other member (by decide) (by decide)⟩

/-! ## Keywords at the beginning -/

theorem findKeyword_zero_iff {text : Text} {keyword : String} (lower : Lowercase keyword.toList)
    (filled : keyword.toList ≠ []) : findKeyword text keyword = some 0 ↔ WordAt text keyword.toList 0 :=
  ⟨wordAt_of_findKeyword, fun word => findKeyword_first word lower filled fun _ less => absurd less (Nat.not_lt_zero _)⟩

theorem Blanks.apart {blanks rest : Text} (blank : Blanks blanks) (apart : rest.head?.any inWord = false) :
    (blanks ++ rest).head?.any inWord = false := by
  cases blanks with
  | nil => exact apart
  | cons c others => exact inWord_white (blank c List.mem_cons_self)

theorem IfPart.WellFormed.findKeyword {part : IfPart} (formed : part.WellFormed) (rest : Text) :
    findKeyword (part.print ++ rest) "if" = some 0 := by
  have text : part.print ++ rest =
      [] ++ (part.word ++ (part.before ++ ('(' :: (part.condition ++ ')' :: part.behind) ++ rest))) := by
    simp [IfPart.print]
  rw [text, findKeyword_append (by decide) (by decide) formed.word (lacks_nil (by decide)) rfl]
  · rfl
  · exact formed.before.apart (not_inWord (by decide) (by decide))

omit [Alphanumeric] [LawfulAlphanumeric] in
/-- The condition is stepped over. -/
theorem IfPart.WellFormed.behindCondition {part : IfPart} (formed : part.WellFormed) (level : Level part.condition)
    (rest : Text) :
    (matchingParen (((part.print ++ rest).drop 2).dropWhile isWhitespace)).map
      (fun close => (((part.print ++ rest).drop 2).dropWhile isWhitespace).drop (close + 1)) = some (part.behind ++ rest) := by
  have size : part.word.length = 2 := by
    rw [← List.length_map (f := Char.toLower), formed.word]
    rfl
  have text : part.print ++ rest =
      part.word ++ (part.before ++ '(' :: (part.condition ++ ')' :: (part.behind ++ rest))) := by
    simp [IfPart.print]
  rw [text, List.drop_left' size, List.dropWhile_append_of_pos formed.before, List.dropWhile_cons_of_neg (by decide),
    matchingParen_level level, Option.map_some]
  have split : '(' :: (part.condition ++ ')' :: (part.behind ++ rest)) =
      ('(' :: part.condition ++ [')']) ++ (part.behind ++ rest) := by simp
  rw [split, List.drop_left' (by simp)]

/-- A table is not taken for an IF. -/
theorem Target.WellFormed.not_if {target : Target} (formed : target.WellFormed) {rest : Text}
    (apart : Separated target.print rest) (word : ∀ c ∈ rest.head?, inWord c = true) :
    Insight.findKeyword (target.print ++ rest) "if" ≠ some 0 := by
  rw [Ne, findKeyword_zero_iff (by decide) (by decide)]
  rintro ⟨starts, -, ends⟩
  obtain ⟨table, behind⟩ := target
  cases table with
  | quoted name =>
      obtain ⟨quote, -⟩ := List.cons_prefix_cons.mp starts
      revert quote
      decide
  | bare name =>
      obtain ⟨filled, letters, keyword⟩ := formed.table
      have next := formed.bare_ends apart word
      have text : Target.print ⟨.bare name, behind⟩ ++ rest = name ++ (behind ++ rest) := by
        simp [Target.print, TableName.print]
      rw [text] at starts ends
      match name, filled with
      | [c], _ =>
          cases after : behind ++ rest with
          | nil =>
              rw [after] at starts
              have long := starts.length_le
              simp at long
          | cons d others =>
              rw [after] at starts next
              obtain ⟨-, second⟩ := List.cons_prefix_cons.mp starts
              obtain ⟨same, -⟩ := List.cons_prefix_cons.mp second
              have letter : inWord d = true := by
                apply inWord_of_toLower
                rw [← same]
                decide
              rw [inWord_of_endsName (next d rfl)] at letter
              cases letter
      | [c, d], _ =>
          apply keyword
          obtain ⟨one, second⟩ := List.cons_prefix_cons.mp starts
          obtain ⟨two, -⟩ := List.cons_prefix_cons.mp second
          rw [List.map_cons, List.map_cons, List.map_nil, ← one, ← two]
          exact List.mem_cons_self
      | c :: d :: e :: others, _ =>
          have letter := (letters e (by simp)).1
          change (some e).any inWord = false at ends
          rw [Option.any_some, letter] at ends
          cases ends

/-! ## Reading the chain -/

omit [Alphanumeric] [LawfulAlphanumeric] in
theorem Blanks.dropWhile {blanks text : Text} (blank : Blanks blanks) (solid : text.head?.any isWhitespace = false) :
    (blanks ++ text).dropWhile isWhitespace = text := by
  rw [List.dropWhile_append_of_pos blank]
  cases text with
  | nil => rfl
  | cons c rest => exact List.dropWhile_cons_of_neg (by simpa using solid)

omit [LawfulAlphanumeric] in
theorem Target.WellFormed.solid {target : Target} (formed : target.WellFormed) (rest : Text) :
    (target.print ++ rest).head?.any isWhitespace = false := by
  obtain ⟨table, behind⟩ := target
  cases table with
  | quoted name =>
      change (some '"').any isWhitespace = false
      decide
  | bare name =>
      obtain ⟨filled, letters, -⟩ := formed.table
      obtain ⟨c, others, rfl⟩ := List.exists_cons_of_ne_nil filled
      exact (letters c List.mem_cons_self).2

theorem IfPart.WellFormed.solid {part : IfPart} (formed : part.WellFormed) (rest : Text) :
    (part.print ++ rest).head?.any isWhitespace = false := by
  cases first : (part.print ++ rest).head? with
  | none => rfl
  | some c =>
      rw [IfPart.print, List.append_assoc] at first
      have letter := inWord_of_word formed.word (by decide) (by decide) first
      rw [Option.any_some, Bool.eq_false_iff]
      intro white
      rw [inWord_white white] at letter
      cases letter

omit [LawfulAlphanumeric] in
/-- One branch, from behind its condition on. -/
theorem relationBranches_step {gap text rest remainder name : Text} (blank : Blanks gap)
    (solid : text.head?.any isWhitespace = false)
    (behind : (if Insight.findKeyword text "if" = some 0 then
        (matchingParen ((text.drop 2).dropWhile isWhitespace)).map
          fun close => ((text.drop 2).dropWhile isWhitespace).drop (close + 1)
      else some text) = some rest)
    (taken : Insight.takeTableName rest = (some name, remainder)) (turns : Nat) :
    relationBranches (turns + 1) (gap ++ text) =
      name :: match Insight.findKeyword remainder "else" with
        | some position => relationBranches turns (remainder.drop (position + 4))
        | none => [] := by
  rw [relationBranches]
  dsimp only
  rw [blank.dropWhile solid, behind]
  dsimp only
  rw [taken]
  rfl

/-- The ELSE behind a table. -/
theorem findKeyword_else {behind word rest : Text} {table : TableName} (lacks : Lacks behind "else")
    (spelled : word.map Char.toLower = "else".toList) (apart : Separated (table.print ++ behind) word)
    (apart' : Separated word rest) : Insight.findKeyword (behind ++ (word ++ rest)) "else" = some behind.length := by
  have filled : word ≠ [] := by
    rintro rfl
    revert spelled
    decide
  have letters : ∀ c ∈ word, inWord c = true := by
    intro c member
    apply inWord_of_toLower
    have lower : Lowercase "else".toList := by decide
    apply List.all_eq_true.mp lower
    rw [← spelled]
    exact List.mem_map_of_mem member
  have first : word.head?.any inWord = true := by
    obtain ⟨c, others, rfl⟩ := List.exists_cons_of_ne_nil filled
    exact letters c List.mem_cons_self
  have last : word.getLast?.any inWord = true := by
    rw [List.getLast?_eq_getLast_of_ne_nil filled]
    exact letters _ (List.getLast_mem filled)
  apply findKeyword_append (by decide) (by decide) spelled lacks
  · rcases apart with none_before | none_after
    · by_cases empty : behind = []
      · rw [empty]
        rfl
      · rwa [List.getLast?_append_of_ne_nil _ empty] at none_before
    · rw [first] at none_after
      cases none_after
  · rcases apart' with none_before | none_after
    · rw [last] at none_before
      cases none_before
    · exact none_after

theorem relationBranches_print {relation : Relation} (formed : relation.WellFormed) (clear : relation.Clear)
    {gap : Text} (blank : Blanks gap) (turns : Nat) (enough : relation.print.length < turns) :
    relationBranches turns (gap ++ relation.print) = relation.tables := by
  have ends (target : Target) : Separated target.print [] := .inr rfl
  have word : ∀ c ∈ ([] : Text).head?, inWord c = true := nofun
  induction relation generalizing gap turns with
  | single target =>
      obtain ⟨turns, rfl⟩ := Nat.exists_eq_succ_of_ne_zero (Nat.ne_zero_of_lt enough)
      have taken := formed.takeTableName (ends target) word
      have table := formed.not_if (ends target) word
      have solid := formed.solid []
      rw [List.append_nil] at taken table solid
      rw [Relation.print, relationBranches_step blank solid (if_neg table) taken, List.append_nil,
        findKeyword_none clear]
      rfl
  | conditional part target =>
      obtain ⟨turns, rfl⟩ := Nat.exists_eq_succ_of_ne_zero (Nat.ne_zero_of_lt enough)
      obtain ⟨partFormed, targetFormed⟩ := formed
      have taken := targetFormed.takeTableName (ends target) word
      rw [List.append_nil] at taken
      rw [← takeTableName_blanks partFormed.behind] at taken
      rw [Relation.print, relationBranches_step blank (partFormed.solid _)
        ((if_pos (partFormed.findKeyword _)).trans (partFormed.behindCondition clear.1 _)) taken, List.append_nil,
        findKeyword_none clear.2]
      rfl
  | otherwise part target elseWord gap' rest ih =>
      obtain ⟨turns, rfl⟩ := Nat.exists_eq_succ_of_ne_zero (Nat.ne_zero_of_lt enough)
      obtain ⟨partFormed, targetFormed, spelled, blank', apart, apart', restFormed⟩ := formed
      obtain ⟨level, lacks, restClear⟩ := clear
      have letters : ∀ c ∈ (elseWord ++ (gap' ++ rest.print)).head?, inWord c = true :=
        fun c first => inWord_of_word spelled (by decide) (by decide) first
      have size : elseWord.length = 4 := by
        rw [← List.length_map (f := Char.toLower), spelled]
        rfl
      have joined : Separated target.print (elseWord ++ (gap' ++ rest.print)) := by
        obtain ⟨c, others, rfl⟩ := List.exists_cons_of_ne_nil (List.ne_nil_of_length_eq_add_one size)
        exact apart
      have taken := targetFormed.takeTableName joined letters
      rw [← takeTableName_blanks partFormed.behind] at taken
      rw [Relation.print, relationBranches_step blank (partFormed.solid _)
        ((if_pos (partFormed.findKeyword _)).trans (partFormed.behindCondition level _)) taken,
        findKeyword_else lacks spelled apart apart']
      dsimp only
      have split : target.behind ++ (elseWord ++ (gap' ++ rest.print)) =
          (target.behind ++ elseWord) ++ (gap' ++ rest.print) := by simp
      have shorter : rest.print.length < turns := by
        rw [Relation.print] at enough
        simp only [List.length_append, size] at enough
        omega
      rw [split, List.drop_left' (by rw [List.length_append, size]), ih restFormed restClear blank' turns shorter]
      rfl

/-! ## The end of the loop -/

omit [Alphanumeric] [LawfulAlphanumeric] in
theorem takeTableName_length (text : Text) : (takeTableName text).2.length ≤ text.length := by
  have shorter := List.length_dropWhile_le isWhitespace text
  rw [takeTableName]
  split
  next afterOpen shape =>
      rw [shape, List.length_cons] at shorter
      split
      · exact Nat.zero_le _
      · dsimp only
        rw [List.length_drop]
        omega
  · exact (List.length_dropWhile_le _ _).trans shorter

omit [LawfulAlphanumeric] in
theorem findKeyword_shorter {text : Text} {keyword : String} {position : Nat} (filled : keyword.toList ≠ [])
    (found : findKeyword text keyword = some position) :
    (text.drop (position + keyword.toList.length)).length < text.length := by
  have positive := List.length_pos_of_ne_nil filled
  have inside := (wordAt_of_findKeyword found).1.length_le
  rw [List.length_drop, List.length_map] at inside
  rw [List.length_drop]
  omega

omit [LawfulAlphanumeric] in
/-- The loop ends by itself. -/
theorem relationBranches_turns (turns turns' : Nat) (text : Text) (enough : text.length < turns)
    (enough' : text.length < turns') : relationBranches turns text = relationBranches turns' text := by
  induction turns generalizing turns' text with
  | zero => omega
  | succ turns ih =>
      obtain ⟨turns', rfl⟩ := Nat.exists_eq_succ_of_ne_zero (Nat.ne_zero_of_lt enough')
      rw [relationBranches, relationBranches]
      dsimp only
      split
      · rfl
      next rest behind =>
          have shorter : rest.length ≤ text.length := by
            have blanks := List.length_dropWhile_le isWhitespace text
            split at behind
            · obtain ⟨close, -, rfl⟩ := Option.map_eq_some_iff.mp behind
              have blanks' := List.length_dropWhile_le isWhitespace ((text.dropWhile isWhitespace).drop 2)
              rw [List.length_drop] at blanks' ⊢
              omega
            · cases behind
              exact blanks
          congr 1
          have taken := takeTableName_length rest
          split
          next position found =>
              have later := findKeyword_shorter (by decide) found
              change ((takeTableName rest).2.drop (position + 4)).length < _ at later
              exact ih turns' _ (by omega) (by omega)
          · rfl

/-! ## Tables named once -/

/-- Names that differ in ASCII case only. -/
def sameTable (a b : Text) : Bool := a.map Char.toLower == b.map Char.toLower

omit [Alphanumeric] [LawfulAlphanumeric] in
theorem retainFirst_eraseDups (tables kept : List Text) :
    List.eraseDupsBy.loop sameTable tables kept =
      kept.reverse ++ retainFirst tables (kept.map fun table => table.map Char.toLower) := by
  induction tables generalizing kept with
  | nil => simp [List.eraseDupsBy.loop, retainFirst]
  | cons table rest ih =>
      have seen : kept.any (sameTable table) = true ↔ table.map Char.toLower ∈ kept.map fun table => table.map Char.toLower := by
        rw [List.any_eq_true, List.mem_map]
        apply exists_congr
        intro other
        rw [sameTable, beq_iff_eq, eq_comm]
      rw [List.eraseDupsBy.loop, retainFirst]
      split
      next known => rw [if_pos (seen.mp known), ih]
      next fresh =>
          have absent : table.map Char.toLower ∉ kept.map fun table => table.map Char.toLower := by
            rw [← seen, fresh]
            decide
          rw [if_neg absent, ih, List.reverse_cons, List.append_assoc]
          rfl

/-- The loop ends, and it finds the tables of a relation that is one table or whose chain is clear. -/
theorem relation_tables (relation : Relation) (formed : relation.WellFormed) (clear : relation.Unmistakable) (value : String)
    (trimmed : trimText value.toList = relation.print) :
    (∀ text turns, text.length < turns → relationBranches turns text = relationBranches (text.length + 1) text) ∧
      extractTableRelationTables value = (relation.tables.eraseDupsBy sameTable).map String.ofList := by
  constructor
  · intro text turns enough
    exact relationBranches_turns turns _ text enough (Nat.lt_succ_self _)
  · have chain (conditional : findKeyword relation.print "if" = some 0) (chainClear : relation.Clear) :
        extractTableRelationTables value = (relation.tables.eraseDupsBy sameTable).map String.ofList := by
      have noBlanks : Blanks [] := nofun
      have branches := relationBranches_print formed chainClear noBlanks _ (Nat.lt_succ_self _)
      rw [extractTableRelationTables, trimmed]
      split
      next empty =>
          rw [empty, findKeyword_none (lacks_nil (by decide))] at conditional
          cases conditional
      · rw [if_neg (not_not.mpr conditional), List.eraseDupsBy, retainFirst_eraseDups, ← branches]
        rfl
    cases relation with
    | single target =>
        have ends : Separated target.print [] := .inr rfl
        have word : ∀ c ∈ ([] : Text).head?, inWord c = true := nofun
        have taken := Target.WellFormed.takeTableName formed ends word
        have table := Target.WellFormed.not_if formed ends word
        rw [List.append_nil] at taken table
        have filled : target.print ≠ [] := by
          intro empty
          rw [empty] at taken
          cases taken
        rw [extractTableRelationTables, trimmed, Relation.print]
        rw [if_neg filled, if_pos table, taken]
        rfl
    | conditional part target => exact chain (formed.1.findKeyword _) clear
    | otherwise part target word gap rest => exact chain (formed.1.findKeyword _) clear

end Grammar

section Examples

attribute [local instance] Alphanumeric.ascii

theorem Conditions.plains {text rest : Text} (plain : text.all fun c => c ∉ ['"', Char.ofNat 39, '(', ')'])
    (conditions : Conditions rest) : Conditions (text ++ rest) := by
  induction text with
  | nil => exact conditions
  | cons c text ih =>
      rw [List.all_cons, Bool.and_eq_true] at plain
      exact .plain c _ (of_decide_eq_true plain.1) (ih plain.2)

theorem Conditions.plain_text {text : Text} (plain : text.all fun c => c ∉ ['"', Char.ofNat 39, '(', ')']) :
    Conditions text := by
  rw [← List.append_nil text]
  exact .plains plain .nil

theorem space_blanks : Blanks " ".toList := List.all_eq_true.mp (by decide)

theorem bare_wellFormed {name : Text} (filled : name ≠ [])
    (letters : name.all (fun c => inWord c && !isWhitespace c) = true)
    (keyword : name.map Char.toLower ∉ ["if".toList, "else".toList, "where".toList]) :
    (TableName.bare name).WellFormed := by
  refine ⟨filled, ?_, keyword⟩
  intro c member
  simpa using List.all_eq_true.mp letters c member

/-- `IF (Type = CONST(Item)) Item."No." ELSE "G/L Account"`. -/
def itemOrAccount : Relation :=
  .otherwise ⟨"IF".toList, " ".toList, "Type = CONST(Item)".toList, " ".toList⟩ ⟨.bare "Item".toList, ".\"No.\" ".toList⟩
    "ELSE".toList " ".toList (.single ⟨.quoted "G/L Account".toList, []⟩)

theorem itemOrAccount_wellFormed : itemOrAccount.WellFormed := by
  have part : IfPart.WellFormed ⟨"IF".toList, " ".toList, "Type = CONST(Item)".toList, " ".toList⟩ := by
    refine ⟨by decide, space_blanks, ?_, space_blanks⟩
    have text : "Type = CONST(Item)".toList = "Type = CONST".toList ++ '(' :: ("Item".toList ++ ')' :: []) := by decide
    rw [text]
    apply Conditions.plains (by decide)
    apply Conditions.group _ _ _ .nil
    exact Conditions.plain_text (by decide)
  have item : Target.WellFormed ⟨.bare "Item".toList, ".\"No.\" ".toList⟩ := by
    refine ⟨bare_wellFormed (by decide) (by decide) (by decide), ?_, .inr (by decide)⟩
    refine ⟨_, [], " ".toList, .some [] [] (.quoted "No.".toList) nofun nofun ⟨by decide, by decide⟩, .none, space_blanks,
      .inr rfl, by decide⟩
  have account : Target.WellFormed ⟨.quoted "G/L Account".toList, []⟩ :=
    ⟨⟨by decide, by decide⟩, ⟨[], [], [], .none, .none, nofun, .inr rfl, rfl⟩, .inr rfl⟩
  exact ⟨part, item, by decide, space_blanks, .inl (by decide), .inr (by decide), account⟩

theorem relation_tables_itemOrAccount :
    extractTableRelationTables "IF (Type = CONST(Item)) Item.\"No.\" ELSE \"G/L Account\"" = ["Item", "G/L Account"] := by
  have lacks : Lacks ".\"No.\" ".toList "else" := lacks_of_findKeyword (by decide) (by decide) (by decide +kernel)
  have clear : itemOrAccount.Unmistakable := ⟨by decide, lacks, lacks_nil (by decide)⟩
  exact (relation_tables itemOrAccount itemOrAccount_wellFormed clear _ (by decide)).2

/-- `IF ("Balance (LCY" = CONST(0)) Customer ELSE Vendor`. -/
def customerOrVendor : Relation :=
  .otherwise ⟨"IF".toList, " ".toList, "\"Balance (LCY\" = CONST(0)".toList, " ".toList⟩
    ⟨.bare "Customer".toList, " ".toList⟩ "ELSE".toList " ".toList (.single ⟨.bare "Vendor".toList, []⟩)

theorem customerOrVendor_wellFormed : customerOrVendor.WellFormed := by
  have part : IfPart.WellFormed ⟨"IF".toList, " ".toList, "\"Balance (LCY\" = CONST(0)".toList, " ".toList⟩ := by
    refine ⟨by decide, space_blanks, ?_, space_blanks⟩
    have text : "\"Balance (LCY\" = CONST(0)".toList =
        '"' :: ("Balance (LCY".toList ++ '"' :: (" = CONST".toList ++ '(' :: ("0".toList ++ ')' :: []))) := by decide
    rw [text]
    apply Conditions.quoted _ _ _ (by decide) (by decide)
    apply Conditions.plains (by decide)
    apply Conditions.group _ _ _ .nil
    exact Conditions.plain_text (by decide)
  have customer : Target.WellFormed ⟨.bare "Customer".toList, " ".toList⟩ :=
    ⟨bare_wellFormed (by decide) (by decide) (by decide),
      ⟨[], [], " ".toList, .none, .none, space_blanks, .inr rfl, rfl⟩, .inr (by decide)⟩
  have vendor : Target.WellFormed ⟨.bare "Vendor".toList, []⟩ :=
    ⟨bare_wellFormed (by decide) (by decide) (by decide), ⟨[], [], [], .none, .none, nofun, .inr rfl, rfl⟩, .inr rfl⟩
  exact ⟨part, customer, by decide, space_blanks, .inl (by decide), .inr (by decide), vendor⟩

/-- A parenthesis in a quoted name is counted, and no table is found. -/
theorem relation_tables_missed :
    customerOrVendor.WellFormed ∧ customerOrVendor.tables = ["Customer".toList, "Vendor".toList] ∧
      extractTableRelationTables (String.ofList customerOrVendor.print) = [] :=
  ⟨customerOrVendor_wellFormed, rfl, by decide +kernel⟩

-- The count ends inside of a quoted name, and what follows happens to hold the table between its next quotes.
example : extractTableRelationTables "IF (\"a)\"=CONST(x)) \"=CONST(x)) \"" = ["=CONST(x)) "] := by
  decide +kernel

end Examples

end AlLanguage.Insight
