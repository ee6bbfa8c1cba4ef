import AlLanguage.Insight.Relations
import Mathlib.Data.Nat.Find
import Mathlib.Tactic.Common

/-!
# Keywords, parentheses and table names in raw text

The scanners take no notice of quotes.
-/

namespace AlLanguage.Insight

open Library.Substrings
open AlLanguage.Runtime (isWhitespace)

/-- `char::is_alphanumeric` on ASCII and on white space. -/
class LawfulAlphanumeric [Alphanumeric] : Prop where
  ascii : ∀ c : Char, c.toNat < 128 → Alphanumeric.isAlphanumeric c = c.isAlphanum
  white : ∀ c : Char, isWhitespace c = true → Alphanumeric.isAlphanumeric c = false

instance : @LawfulAlphanumeric Alphanumeric.ascii := by
  apply @LawfulAlphanumeric.mk Alphanumeric.ascii
  · intro c _
    rfl
  · intro c white
    change c.isAlphanum = false
    rw [isWhitespace] at white
    simp only [Bool.or_eq_true, Bool.and_eq_true, decide_eq_true_eq, beq_iff_eq] at white
    simp only [Char.isAlphanum, Char.isAlpha, Char.isUpper, Char.isLower, Char.isDigit, ge_iff_le, UInt32.le_iff_toNat_le,
      Bool.or_eq_false_iff, Bool.and_eq_false_iff, decide_eq_false_iff_not]
    have code : c.toNat = c.val.toNat := rfl
    have bounds : 'A'.val.toNat = 65 ∧ 'Z'.val.toNat = 90 ∧ 'a'.val.toNat = 97 ∧ 'z'.val.toNat = 122 ∧
        '0'.val.toNat = 48 ∧ '9'.val.toNat = 57 := by decide
    omega

/-! ## Parentheses -/

/-- The open parentheses behind a text, if none is closed before it is opened. -/
def nesting : (depth : Nat) → Text → Option Nat
  | depth, [] => some depth
  | depth, c :: rest =>
    if c = '(' then nesting (depth + 1) rest
    else if c = ')' then if depth = 0 then none else nesting (depth - 1) rest
    else nesting depth rest

/-- Each parenthesis of the text has its partner there, whether or not it stands in quotes. -/
def Level (text : Text) : Prop := nesting 0 text = some 0

instance (text : Text) : Decidable (Level text) := inferInstanceAs (Decidable (_ = _))

theorem nesting_append (depth : Nat) (text rest : Text) :
    nesting depth (text ++ rest) = (nesting depth text).bind fun inner => nesting inner rest := by
  induction text generalizing depth with
  | nil => rfl
  | cons c text ih =>
      rw [List.cons_append, nesting, nesting]
      split
      · exact ih _
      · split
        · split
          · rfl
          · exact ih _
        · exact ih _

theorem nesting_lift {depth inner : Nat} {text : Text} (nested : nesting depth text = some inner) (outer : Nat) :
    nesting (depth + outer) text = some (inner + outer) := by
  induction text generalizing depth with
  | nil =>
      cases nested
      rfl
  | cons c text ih =>
      rw [nesting] at nested ⊢
      split at nested
      next opens =>
          rw [if_pos opens, Nat.add_right_comm]
          exact ih nested
      next notOpen =>
          rw [if_neg notOpen]
          split at nested
          next closes =>
              split at nested
              · cases nested
              next inside =>
                  rw [if_pos closes, if_neg (by omega), show depth + outer - 1 = depth - 1 + outer by omega]
                  exact ih nested
          next other =>
              rw [if_neg other]
              exact ih nested

theorem Level.append {text rest : Text} (level : Level text) (level' : Level rest) : Level (text ++ rest) := by
  rw [Level, nesting_append, level]
  exact level'

theorem Level.group {text : Text} (level : Level text) : Level ('(' :: text ++ [')']) := by
  have inside : nesting 1 text = some 1 := by
    have lifted := nesting_lift level 1
    rwa [Nat.zero_add] at lifted
  rw [Level, List.cons_append, nesting, if_pos rfl, Nat.zero_add, nesting_append, inside]
  rfl

theorem Level.plain {text : Text} (opens : '(' ∉ text) (closes : ')' ∉ text) : Level text := by
  induction text with
  | nil => rfl
  | cons c text ih =>
      obtain ⟨notOpen, opens⟩ := not_or.mp (List.mem_cons.not.mp opens)
      obtain ⟨notClose, closes⟩ := not_or.mp (List.mem_cons.not.mp closes)
      rw [Level, nesting, if_neg (Ne.symm notOpen), if_neg (Ne.symm notClose)]
      exact ih opens closes

theorem closingParen_cons (c : Char) (rest : Text) (depth position : Nat) :
    closingParen (c :: rest) depth position =
      if c = '(' then closingParen rest (depth + 1) (position + 1)
      else if c = ')' then if depth ≤ 1 then some position else closingParen rest (depth - 1) (position + 1)
      else closingParen rest depth (position + 1) := by
  by_cases opens : c = '('
  · subst opens
    rfl
  · rw [if_neg opens]
    by_cases closes : c = ')'
    · subst closes
      rw [closingParen, if_pos rfl]
    · rw [closingParen, if_neg closes]
      · exact opens
      · exact closes

/-- Within a parenthesis nothing closes it. -/
theorem closingParen_nesting {text : Text} {depth inner : Nat} (nested : nesting depth text = some inner) (rest : Text)
    (position : Nat) :
    closingParen (text ++ rest) (depth + 1) position = closingParen rest (inner + 1) (position + text.length) := by
  induction text generalizing depth position with
  | nil =>
      cases nested
      rfl
  | cons c text ih =>
      rw [List.cons_append, closingParen_cons, List.length_cons, Nat.add_comm text.length, ← Nat.add_assoc]
      rw [nesting] at nested
      split at nested
      next opens =>
          rw [if_pos opens]
          exact ih nested _
      next notOpen =>
          rw [if_neg notOpen]
          split at nested
          next closes =>
              split at nested
              · cases nested
              next inside =>
                  rw [if_pos closes, if_neg (by omega), show depth + 1 - 1 = depth - 1 + 1 by omega]
                  exact ih nested _
          next other =>
              rw [if_neg other]
              exact ih nested _

theorem matchingParen_level {text : Text} (level : Level text) (rest : Text) :
    matchingParen ('(' :: (text ++ ')' :: rest)) = some (text.length + 1) := by
  rw [matchingParen, List.head?_cons, if_pos rfl, closingParen_cons, if_pos rfl, closingParen_nesting level,
    closingParen_cons, if_neg (by decide), if_pos rfl, if_pos (by decide), Nat.zero_add, Nat.add_comm]

/-! ## Keywords -/

section Keywords

variable [Alphanumeric]

/-- A whole word at a position, in any case. -/
def WordAt (text keyword : Text) (position : Nat) : Prop :=
  keyword <+: (text.map Char.toLower).drop position ∧ (text.take position).getLast?.any inWord = false ∧
    (text.drop (position + keyword.length)).head?.any inWord = false

/-- A text without a whole word. -/
def Lacks (text : Text) (keyword : String) : Prop := ∀ position, ¬WordAt text keyword.toList position

def Lowercase (keyword : Text) : Prop := keyword.all Char.isLower = true

instance (keyword : Text) : Decidable (Lowercase keyword) := inferInstanceAs (Decidable (_ = _))

variable {text keyword : Text}

theorem inWord_of_toLower [LawfulAlphanumeric] {c : Char} (lower : c.toLower.isLower = true) : inWord c = true := by
  have letter : c.isAlphanum = true ∧ c.toNat < 128 := by
    by_cases upper : c.isUpper
    · have bound : c.val ≤ 'Z'.val := (of_decide_eq_true upper).2
      refine ⟨by simp [Char.isAlphanum, Char.isAlpha, upper], ?_⟩
      exact Nat.lt_of_le_of_lt (UInt32.le_iff_toNat_le.mp bound) (by decide)
    · have same : c.toLower = c := by
        rw [Char.toLower, dif_neg]
        exact fun both => upper (decide_eq_true both)
      rw [same] at lower
      have bound : c.val ≤ 'z'.val := of_decide_eq_true (Bool.and_eq_true_iff.mp lower).2
      refine ⟨by simp [Char.isAlphanum, Char.isAlpha, lower], ?_⟩
      exact Nat.lt_of_le_of_lt (UInt32.le_iff_toNat_le.mp bound) (by decide)
  rw [inWord, LawfulAlphanumeric.ascii c letter.2, letter.1]
  rfl

theorem inWord_white [LawfulAlphanumeric] {c : Char} (white : isWhitespace c = true) : inWord c = false := by
  have other : c ≠ '_' := by
    rintro rfl
    revert white
    decide
  rw [inWord, LawfulAlphanumeric.white c white]
  simpa using other

theorem lacks_nil {keyword : String} (filled : keyword.toList ≠ []) : Lacks [] keyword := by
  intro position word
  have empty := word.1
  rw [List.map_nil, List.drop_nil, List.prefix_nil] at empty
  exact filled empty

/-- A whole word does not begin inside of an occurrence of the keyword. -/
theorem WordAt.behind [LawfulAlphanumeric] {start position : Nat} (word : WordAt text keyword position)
    (lower : Lowercase keyword) (occurs : keyword <+: (text.map Char.toLower).drop start) (later : start < position) :
    start + keyword.length ≤ position := by
  by_contra inside
  obtain ⟨tail, split⟩ := occurs
  have letter : ((text.map Char.toLower).drop start)[position - 1 - start]? = keyword[position - 1 - start]? := by
    rw [← split, List.getElem?_append_left (by omega)]
  rw [List.getElem?_drop, show start + (position - 1 - start) = position - 1 by omega, List.getElem?_map,
    List.getElem?_eq_getElem (by omega : position - 1 - start < keyword.length)] at letter
  obtain ⟨c, here, same⟩ := Option.map_eq_some_iff.mp letter
  have last : (text.take position).getLast? = some c := by
    rw [List.getLast?_eq_getElem?, List.getElem?_take, List.length_take]
    have bound := (List.getElem?_eq_some_iff.mp here).1
    rw [if_pos (by omega), show min position text.length - 1 = position - 1 by omega, here]
  have alone := word.2.1
  rw [last, Option.any_some, inWord_of_toLower (by rw [same]; exact List.all_eq_true.mp lower _ (List.getElem_mem _))] at alone
  cases alone

theorem findKeywordFrom_first [LawfulAlphanumeric] {position : Nat} (word : WordAt text keyword position)
    (lower : Lowercase keyword) (filled : keyword ≠ []) (first : ∀ earlier < position, ¬WordAt text keyword earlier)
    (turns start : Nat) (reached : start ≤ position) (enough : position - start < turns) :
    findKeywordFrom text keyword turns start = some position := by
  induction turns generalizing start with
  | zero => omega
  | succ turns ih =>
      have occurs : keyword <+: ((text.map Char.toLower).drop start).drop (position - start) := by
        rw [List.drop_drop, show start + (position - start) = position by omega]
        exact word.1
      obtain ⟨relative, before, found⟩ := find_isSome occurs filled
      rw [findKeywordFrom, found]
      dsimp only
      by_cases here : start + relative = position
      · rw [here, word.2.1, word.2.2]
        rfl
      · have occurs' := (find_eq_some found).1
        rw [List.drop_drop] at occurs'
        have behind := word.behind lower occurs' (by omega)
        have other := first (start + relative) (by omega)
        have positive := List.length_pos_of_ne_nil filled
        rw [if_neg, ih _ behind (by omega)]
        intro both
        apply other
        rw [Bool.and_eq_true, Bool.not_eq_true', Bool.not_eq_true'] at both
        exact ⟨occurs', both.1, both.2⟩

theorem findKeyword_first [LawfulAlphanumeric] {keyword : String} {position : Nat} (word : WordAt text keyword.toList position)
    (lower : Lowercase keyword.toList) (filled : keyword.toList ≠ [])
    (first : ∀ earlier < position, ¬WordAt text keyword.toList earlier) : findKeyword text keyword = some position := by
  apply findKeywordFrom_first word lower filled first _ 0 (Nat.zero_le _)
  have inside := word.1.length_le
  have positive := List.length_pos_of_ne_nil filled
  rw [List.length_drop, List.length_map] at inside
  omega

theorem wordAt_of_findKeywordFrom {position : Nat} (turns start : Nat)
    (found : findKeywordFrom text keyword turns start = some position) : WordAt text keyword position := by
  induction turns generalizing start with
  | zero => cases found
  | succ turns ih =>
      rw [findKeywordFrom] at found
      split at found
      · cases found
      next relative here =>
          dsimp only at found
          split at found
          next both =>
              cases found
              rw [Bool.and_eq_true, Bool.not_eq_true', Bool.not_eq_true'] at both
              have occurs := (find_eq_some here).1
              rw [List.drop_drop] at occurs
              exact ⟨occurs, both.1, both.2⟩
          · exact ih _ found

theorem wordAt_of_findKeyword {keyword : String} {position : Nat} (found : findKeyword text keyword = some position) :
    WordAt text keyword.toList position := wordAt_of_findKeywordFrom _ _ found

theorem findKeyword_none {keyword : String} (lacks : Lacks text keyword) : findKeyword text keyword = none := by
  cases found : findKeyword text keyword with
  | none => rfl
  | some position => exact absurd (wordAt_of_findKeyword found) (lacks position)

theorem lacks_of_findKeyword [LawfulAlphanumeric] {keyword : String} (lower : Lowercase keyword.toList)
    (filled : keyword.toList ≠ []) (nowhere : findKeyword text keyword = none) : Lacks text keyword := by
  classical
  intro position word
  have some_word : ∃ position, WordAt text keyword.toList position := ⟨position, word⟩
  rw [findKeyword_first (Nat.find_spec some_word) lower filled fun earlier less => Nat.find_min some_word less] at nowhere
  cases nowhere

/-- A symbol does not join two texts to a word. -/
theorem lacks_around {keyword : String} {before rest : Text} {c : Char} (before_lacks : Lacks before keyword)
    (rest_lacks : Lacks rest keyword) (symbol : c.toLower ∉ keyword.toList) : Lacks (before ++ c :: rest) keyword := by
  rintro position ⟨occurs, prior, after⟩
  by_cases inside : position + keyword.toList.length ≤ before.length
  · apply before_lacks position
    refine ⟨?_, ?_, ?_⟩
    · rw [List.map_append, List.drop_append_of_le_length (by rw [List.length_map]; omega)] at occurs
      apply List.prefix_of_prefix_length_le occurs (List.prefix_append ..)
      rw [List.length_drop, List.length_map]
      omega
    · rwa [List.take_append_of_le_length (by omega)] at prior
    · rw [List.drop_append_of_le_length inside] at after
      cases shape : before.drop (position + keyword.toList.length) with
      | nil => rfl
      | cons d others =>
          rw [shape] at after
          exact after
  · have behind : before.length < position := by
      by_contra early
      apply symbol
      obtain ⟨tail, split⟩ := occurs
      have letter : ((before ++ c :: rest).map Char.toLower)[before.length]? =
          keyword.toList[before.length - position]? := by
        have here : ((before ++ c :: rest).map Char.toLower)[before.length]? =
            (((before ++ c :: rest).map Char.toLower).drop position)[before.length - position]? := by
          rw [List.getElem?_drop]
          congr 1
          omega
        rw [here, ← split, List.getElem?_append_left (by omega)]
      rw [List.getElem?_map, List.getElem?_append_right (Nat.le_refl _), Nat.sub_self] at letter
      exact List.mem_of_getElem? letter.symm
    obtain ⟨offset, rfl⟩ := Nat.exists_eq_add_of_lt behind
    apply rest_lacks offset
    have whole : before ++ c :: rest = (before ++ [c]) ++ rest := by simp
    have size : (before ++ [c]).length = before.length + 1 := by simp
    rw [whole] at occurs prior after
    refine ⟨?_, ?_, ?_⟩
    · rwa [List.map_append, Nat.add_right_comm, ← size, ← @List.length_map _ _ (before ++ [c]) Char.toLower,
        ← List.drop_drop, List.drop_left] at occurs
    · rw [Nat.add_right_comm, ← size, List.take_length_add_append] at prior
      by_cases first : rest.take offset = []
      · rw [first]
        rfl
      · rwa [List.getLast?_append_of_ne_nil _ first] at prior
    · have place : before.length + offset + 1 + keyword.toList.length =
          (before ++ [c]).length + (offset + keyword.toList.length) := by omega
      rwa [place, List.drop_length_add_append] at after

/-- A word behind a text without it. -/
theorem findKeyword_append [LawfulAlphanumeric] {keyword : String} {before word rest : Text}
    (lower : Lowercase keyword.toList) (filled : keyword.toList ≠ []) (spelled : word.map Char.toLower = keyword.toList)
    (lacks : Lacks before keyword) (apart : before.getLast?.any inWord = false) (apart' : rest.head?.any inWord = false) :
    findKeyword (before ++ (word ++ rest)) keyword = some before.length := by
  have size : word.length = keyword.toList.length := by rw [← spelled, List.length_map]
  have here : WordAt (before ++ (word ++ rest)) keyword.toList before.length := by
    refine ⟨?_, ?_, ?_⟩
    · rw [List.map_append, List.map_append, spelled, ← @List.length_map _ _ before Char.toLower, List.drop_left]
      exact List.prefix_append ..
    · rw [List.take_left]
      exact apart
    · rw [← size, ← List.append_assoc, ← List.length_append, List.drop_left]
      exact apart'
  apply findKeyword_first here lower filled
  intro earlier less word'
  have behind := here.behind lower word'.1 less
  apply lacks earlier
  obtain ⟨occurs, prior, after⟩ := word'
  rw [List.map_append, List.drop_append_of_le_length (by rw [List.length_map]; omega)] at occurs
  rw [List.take_append_of_le_length (by omega)] at prior
  refine ⟨?_, prior, ?_⟩
  · apply List.prefix_of_prefix_length_le occurs (List.prefix_append ..)
    rw [List.length_drop, List.length_map]
    omega
  · by_cases ends : earlier + keyword.toList.length = before.length
    · rw [ends, List.drop_length]
      rfl
    · rw [List.drop_append_of_le_length behind] at after
      obtain ⟨c, others, shape⟩ := List.exists_cons_of_ne_nil (l := before.drop (earlier + keyword.toList.length)) (by
        rw [Ne, List.drop_eq_nil_iff]
        omega)
      rw [shape] at after ⊢
      exact after

end Keywords

/-! ## Table names -/

theorem takeTableName_blanks {blanks : Text} (blank : ∀ c ∈ blanks, isWhitespace c = true) (text : Text) :
    takeTableName (blanks ++ text) = takeTableName text := by
  rw [takeTableName, takeTableName, List.dropWhile_append_of_pos blank]

theorem takeTableName_quoted {name : Text} (free : '"' ∉ name) (filled : name ≠ []) (rest : Text) :
    takeTableName ('"' :: (name ++ '"' :: rest)) = (some name, rest) := by
  rw [takeTableName, List.dropWhile_cons_of_neg (by decide)]
  split
  next afterOpen same =>
    obtain rfl := (List.cons.inj same).2
    rw [find_mark free]
    dsimp only
    rw [List.take_left, if_neg filled, ← List.singleton_append, ← List.append_assoc, List.drop_left' (by simp)]
  next unquoted => exact absurd rfl (unquoted _)

/-- What a bare name ends before. -/
def endsName (c : Char) : Bool := isWhitespace c || c = '.' || c = '('

theorem takeTableName_bare {name rest : Text} (solid : ∀ c ∈ name, endsName c = false)
    (plain : ∀ c ∈ name, c ≠ '"' ∧ c ≠ Char.ofNat 39) (filled : name ≠ []) (ends : ∀ c ∈ rest.head?, endsName c = true) :
    takeTableName (name ++ rest) = (some name, rest) := by
  obtain ⟨first, others, rfl⟩ := List.exists_cons_of_ne_nil filled
  have solid' : isWhitespace first = false := by
    have here := solid first List.mem_cons_self
    simp only [endsName, Bool.or_eq_false_iff] at here
    exact here.1.1
  have taken : ((first :: others) ++ rest).takeWhile (fun c => !endsName c) = first :: others := by
    rw [List.takeWhile_append_of_pos fun c member => by rw [solid c member]; rfl]
    cases rest with
    | nil => simp
    | cons c rest => simp [ends c rfl]
  have dropped : ((first :: others) ++ rest).dropWhile (fun c => !endsName c) = rest := by
    rw [List.dropWhile_append_of_pos fun c member => by rw [solid c member]; rfl]
    cases rest with
    | nil => rfl
    | cons c rest => simp [ends c rfl]
  have untrimmed : trimMatches (Char.ofNat 39) (first :: others) = first :: others := by
    rw [trimMatches, List.dropWhile_cons_of_neg (by simpa using (plain first List.mem_cons_self).2),
      List.rdropWhile_eq_self_iff.mpr]
    intro nonempty
    simpa using (plain _ (List.getLast_mem nonempty)).2
  rw [takeTableName]
  rw [List.cons_append, List.dropWhile_cons_of_neg (by simp [solid'])]
  split
  next shape => exact absurd (List.cons.inj shape).1 (plain first List.mem_cons_self).1
  · have taken' : ((first :: others) ++ rest).takeWhile (fun c => !(isWhitespace c || c = '.' || c = '(')) =
        first :: others := taken
    have dropped' : ((first :: others) ++ rest).dropWhile (fun c => !(isWhitespace c || c = '.' || c = '(')) = rest :=
      dropped
    rw [List.cons_append] at taken' dropped'
    rw [taken', dropped', untrimmed]
    rfl

end AlLanguage.Insight
