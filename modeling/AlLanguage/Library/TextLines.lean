import Mathlib

/-!
# Lines and positions of a text

A line ends at a line feed, a carriage return, or both in that order. A position is a line and a number of
UTF-16 units into its content.
-/

namespace AlLanguage.Library

/-! ## Lines -/

/-- The lines, each with its break. The last line has none. -/
def lines : List Char → List (List Char)
  | [] => [[]]
  | '\r' :: '\n' :: rest => ['\r', '\n'] :: lines rest
  | '\n' :: rest => ['\n'] :: lines rest
  | '\r' :: rest => ['\r'] :: lines rest
  | c :: rest =>
    match lines rest with
    | [] => [[c]]
    | first :: later => (c :: first) :: later

def Unbroken (content : List Char) : Prop := ∀ c ∈ content, c ≠ '\n' ∧ c ≠ '\r'

/-- One line break. A carriage return takes a line feed after it along. -/
def IsBreak (lineBreak rest : List Char) : Prop :=
  lineBreak = ['\n'] ∨ lineBreak = ['\r', '\n'] ∨ lineBreak = ['\r'] ∧ rest.head? ≠ some '\n'

/-- A text is its first line and the rest, or one line. -/
theorem exists_firstLine (text : List Char) :
    Unbroken text ∨ ∃ content lineBreak rest, Unbroken content ∧ IsBreak lineBreak rest ∧ text = content ++ lineBreak ++ rest := by
  induction text with
  | nil => exact .inl (by simp [Unbroken])
  | cons c text ih =>
      by_cases feed : c = '\n'
      · exact .inr ⟨[], ['\n'], text, by simp [Unbroken], .inl rfl, by simp [feed]⟩
      by_cases return_ : c = '\r'
      · subst return_
        cases text with
        | nil => exact .inr ⟨[], ['\r'], [], by simp [Unbroken], .inr (.inr ⟨rfl, by simp⟩), rfl⟩
        | cons d rest =>
            by_cases both : d = '\n'
            · exact .inr ⟨[], ['\r', '\n'], rest, by simp [Unbroken], .inr (.inl rfl), by simp [both]⟩
            · exact .inr ⟨[], ['\r'], d :: rest, by simp [Unbroken], .inr (.inr ⟨rfl, by simpa using both⟩), rfl⟩
      · rcases ih with unbroken | ⟨content, lineBreak, rest, unbroken, isBreak, rfl⟩
        · left
          intro d inside
          rcases List.mem_cons.mp inside with rfl | later
          · exact ⟨feed, return_⟩
          · exact unbroken d later
        · refine .inr ⟨c :: content, lineBreak, rest, ?_, isBreak, rfl⟩
          intro d inside
          rcases List.mem_cons.mp inside with rfl | later
          · exact ⟨feed, return_⟩
          · exact unbroken d later

theorem lines_cons {c : Char} (feed : c ≠ '\n') (return_ : c ≠ '\r') (text : List Char) :
    lines (c :: text) = match lines text with
      | [] => [[c]]
      | first :: later => (c :: first) :: later := by
  rw [lines]
  · intro rest same _
    exact return_ same
  · exact feed
  · exact return_

theorem lines_ne_nil (text : List Char) : lines text ≠ [] := by
  fun_cases lines text <;> simp

theorem lines_unbroken {content : List Char} (unbroken : Unbroken content) : lines content = [content] := by
  induction content with
  | nil => rfl
  | cons c rest ih =>
      obtain ⟨feed, return_⟩ := unbroken c (List.mem_cons_self ..)
      rw [lines_cons feed return_, ih fun d inside => unbroken d (.tail _ inside)]

theorem lines_append {content lineBreak rest : List Char} (unbroken : Unbroken content) (isBreak : IsBreak lineBreak rest) :
    lines (content ++ lineBreak ++ rest) = (content ++ lineBreak) :: lines rest := by
  induction content with
  | nil =>
      rcases isBreak with rfl | rfl | ⟨rfl, alone⟩
      · simp [lines]
      · simp [lines]
      · rw [List.nil_append, List.singleton_append, lines]
        intro later same
        simp [same] at alone
  | cons c content ih =>
      obtain ⟨feed, return_⟩ := unbroken c (List.mem_cons_self ..)
      rw [List.cons_append, List.cons_append, lines_cons feed return_, ih fun d inside => unbroken d (.tail _ inside)]

/-! ## UTF-16 -/

/-- A character above the basic plane takes two units. -/
def utf16Units (c : Char) : Nat := if c.toNat < 0x10000 then 1 else 2

theorem utf16Units_pos (c : Char) : 0 < utf16Units c := by
  unfold utf16Units
  split <;> decide

def utf16Length (text : List Char) : Nat := (text.map utf16Units).sum

@[simp] theorem utf16Length_nil : utf16Length [] = 0 := rfl

@[simp] theorem utf16Length_cons (c : Char) (text : List Char) :
    utf16Length (c :: text) = utf16Units c + utf16Length text := by simp [utf16Length]

@[simp] theorem utf16Length_append (text text' : List Char) :
    utf16Length (text ++ text') = utf16Length text + utf16Length text' := by simp [utf16Length]

/-! ## Positions -/

/-- How many characters of the first line end within `units`. Inside a surrogate pair this is the start of the pair,
past the content its end. -/
def column : List Char → (units : Nat) → Nat
  | [], _ => 0
  | c :: rest, units => if c = '\n' ∨ c = '\r' ∨ units < utf16Units c then 0 else column rest (units - utf16Units c) + 1

/-- The text after the first line break, and how many characters come before it. -/
def afterBreak : List Char → Option (Nat × List Char)
  | [] => none
  | '\r' :: '\n' :: rest => some (2, rest)
  | '\n' :: rest => some (1, rest)
  | '\r' :: rest => some (1, rest)
  | _ :: rest => (afterBreak rest).map fun (skipped, later) => (skipped + 1, later)

/-- The character offset of a position. A line that does not exist has none. -/
def offsetAt (text : List Char) : (line units : Nat) → Option Nat
  | 0, units => some (column text units)
  | line + 1, units =>
    match afterBreak text with
    | none => none
    | some (skipped, rest) => (offsetAt rest line units).map (skipped + ·)

theorem afterBreak_cons {c : Char} (feed : c ≠ '\n') (return_ : c ≠ '\r') (text : List Char) :
    afterBreak (c :: text) = (afterBreak text).map fun (skipped, later) => (skipped + 1, later) := by
  rw [afterBreak]
  · intro rest same _
    exact return_ same
  · exact feed
  · exact return_

theorem afterBreak_unbroken {content : List Char} (unbroken : Unbroken content) : afterBreak content = none := by
  induction content with
  | nil => rfl
  | cons c rest ih =>
      obtain ⟨feed, return_⟩ := unbroken c (List.mem_cons_self ..)
      rw [afterBreak_cons feed return_, ih fun d inside => unbroken d (.tail _ inside)]
      rfl

theorem afterBreak_append {content lineBreak rest : List Char} (unbroken : Unbroken content)
    (isBreak : IsBreak lineBreak rest) :
    afterBreak (content ++ lineBreak ++ rest) = some (content.length + lineBreak.length, rest) := by
  induction content with
  | nil =>
      rcases isBreak with rfl | rfl | ⟨rfl, alone⟩
      · simp [afterBreak]
      · simp [afterBreak]
      · rw [List.nil_append, List.singleton_append, afterBreak]
        · rfl
        · intro later same
          simp [same] at alone
  | cons c content ih =>
      obtain ⟨feed, return_⟩ := unbroken c (List.mem_cons_self ..)
      rw [List.cons_append, List.cons_append, afterBreak_cons feed return_, ih fun d inside => unbroken d (.tail _ inside)]
      simp only [Option.map_some, List.length_cons, Option.some.injEq, Prod.mk.injEq, and_true]
      omega

/-- The break does not count. -/
theorem column_append {content rest : List Char} (unbroken : Unbroken content)
    (ends : rest = [] ∨ rest.head? = some '\n' ∨ rest.head? = some '\r') (units : Nat) :
    column (content ++ rest) units = column content units := by
  induction content generalizing units with
  | nil =>
      rcases rest with _ | ⟨c, rest⟩
      · rfl
      · rcases ends with empty | feed | return_
        · cases empty
        · simp_all [column]
        · simp_all [column]
  | cons c content ih =>
      rw [List.cons_append, column, column, ih fun d inside => unbroken d (.tail _ inside)]

end AlLanguage.Library
