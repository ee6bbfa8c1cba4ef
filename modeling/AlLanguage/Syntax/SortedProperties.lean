import AlLanguage.Library.Lists
import AlLanguage.Library.SortedRuns
import AlLanguage.Syntax.LexedLines
import AlLanguage.Syntax.PropertySorting
import Mathlib.Algebra.Order.BigOperators.Group.List

/-!
# Which properties the sort keeps whole

- A property statement of an object reaches from its name to its `;`, with the parentheses and brackets counted over all its lines.
- The pass counts them anew on each line, and it takes every line at brace depth 1 that reads like `Name = value` for a property.
-/

namespace AlLanguage.Syntax

open Library

/-! ## Parts of a text -/

/-- A property with all its lines, or a line that stays. -/
inductive Part where
  | property (lines : List (List Char))
  | other (line : List Char)
  deriving DecidableEq

namespace Part

def lines : Part → List (List Char)
  | property lines => lines
  | other line => [line]

def isProperty : Part → Bool
  | property _ => true
  | other _ => false

def key : Part → String
  | property lines => propertyKey lines
  | other _ => ""

end Part

def linesOf (parts : List Part) : List (List Char) := parts.flatMap Part.lines

/-- Each run of properties sorted, with all the others where they are. -/
def arranged (parts : List Part) : List Part := sortRuns Part.isProperty Part.key parts

/-- What the pass collects, before it sorts. -/
def collected (depth : Int) (inBlock : Bool) : (lines : List (List Char)) → List Part
  | [] => []
  | line :: rest =>
      if depth = 1 ∧ inBlock = false ∧ isPropertyOpener (trim line) then
        let taken := takeProperty line rest
        let state := braceDeltas (depth, inBlock) taken.1
        .property taken.1 :: collected state.1 state.2 taken.2
      else
        let state := braceDeltas (depth, inBlock) [line]
        .other line :: collected state.1 state.2 rest
termination_by lines => lines.length
decreasing_by
  · exact Nat.lt_succ_of_le (takeProperty_length line rest)
  · exact Nat.lt_succ_self _

/-! ## The statements of an object -/

def openBrace : UInt8 := 123

def closeBrace : UInt8 := 125

/-- What the code of a line does to a statement. -/
inductive Reading where
  | ended
  | broken
  | more (paren bracket : Int)
  deriving DecidableEq

def readCode : (paren bracket : Int) → List UInt8 → Reading
  | paren, bracket, [] => .more paren bracket
  | paren, bracket, b :: rest =>
      if b = openParen then readCode (paren + 1) bracket rest
      else if b = closeParen then readCode (paren - 1) bracket rest
      else if b = openBracket then readCode paren (bracket + 1) rest
      else if b = closeBracket then readCode paren (bracket - 1) rest
      else if b = openBrace ∨ b = closeBrace then .broken
      else if b = semicolon ∧ paren = 0 ∧ bracket = 0 then .ended
      else readCode paren bracket rest

def readLine (inBlock : Bool) (paren bracket : Int) (line : List Char) : Reading :=
  readCode paren bracket ((codeBytes line inBlock).map Prod.fst)

/-- The lines up to the `;` that ends the statement and the lines behind. There must not be a brace before it. -/
def statementLines (inBlock : Bool) (paren bracket : Int) (line : List Char) :
    List (List Char) → Option (List (List Char) × List (List Char))
  | [] => if readLine inBlock paren bracket line = .ended then some ([line], []) else none
  | next :: rest =>
      match readLine inBlock paren bracket line with
      | .ended => some ([line], next :: rest)
      | .broken => none
      | .more paren bracket =>
          match statementLines (scanLine line inBlock).2.endsInBlockComment paren bracket next rest with
          | some (lines, behind) => some (line :: lines, behind)
          | none => none

/-! ## Places -/

def inWord (b : UInt8) : Bool := (48 ≤ b ∧ b ≤ 57) ∨ (65 ≤ b ∧ b ≤ 90) ∨ (97 ≤ b ∧ b ≤ 122) ∨ b = 95 ∨ 128 ≤ b

def lowered (b : UInt8) : UInt8 := if 65 ≤ b ∧ b ≤ 90 then b + 32 else b

/-- The words in the code of a line, in lower case. -/
def codeWords (line : List Char) (inBlock : Bool) : List (List UInt8) :=
  ((scanLine line inBlock).1.filter (·.kind = .code)).flatMap fun span => (span.text.map lowered).splitOnP fun b => !inWord b

/-- How many more blocks of statements the line opens than it ends. -/
def blockDelta (line : List Char) (inBlock : Bool) : Int :=
  let words := codeWords line inBlock
  words.count (asBytes "begin".toList) + words.count (asBytes "case".toList) - words.count (asBytes "end".toList)

/-- The open braces, the open block comment, and the open `begin` and `case` blocks where a line starts. -/
structure Place where
  depth : Int
  inBlock : Bool
  blocks : Int
  deriving DecidableEq

namespace Place

def start : Place := ⟨0, false, 0⟩

/-- Among the properties of an object. -/
def AtProperties (place : Place) : Prop := place = ⟨1, false, 0⟩

instance (place : Place) : Decidable place.AtProperties := inferInstanceAs (Decidable (place = _))

/-- The pass takes the line for the first one of a property. -/
def Opens (place : Place) (line : List Char) : Prop := place.depth = 1 ∧ place.inBlock = false ∧ isPropertyOpener (trim line)

instance (place : Place) (line : List Char) : Decidable (place.Opens line) := inferInstanceAs (Decidable (_ ∧ _))

def after (place : Place) (lines : List (List Char)) : Place :=
  let state := braceDeltas (place.depth, place.inBlock) lines
  ⟨state.1, state.2, place.blocks⟩

def afterLine (place : Place) (line : List Char) : Place :=
  { place.after [line] with blocks := max 0 (place.blocks + blockDelta line place.inBlock) }

end Place

def statementAt (place : Place) (line : List Char) (rest : List (List Char)) : Option (List (List Char) × List (List Char)) :=
  if place.AtProperties ∧ isPropertyOpener (trim line) then statementLines false 0 0 line rest else none

theorem statementLines_append {inBlock : Bool} {paren bracket : Int} {line : List Char} {rest lines behind : List (List Char)}
    (found : statementLines inBlock paren bracket line rest = some (lines, behind)) :
    ∃ more, lines = line :: more ∧ rest = more ++ behind ∧
      ∀ behind', statementLines inBlock paren bracket line (more ++ behind') = some (lines, behind') := by
  induction rest generalizing inBlock paren bracket line lines behind with
  | nil =>
      rw [statementLines] at found
      split at found
      next ends =>
          obtain ⟨rfl, rfl⟩ := Prod.mk.inj (Option.some.inj found)
          refine ⟨[], rfl, rfl, ?_⟩
          intro behind'
          cases behind' with
          | nil => rw [List.append_nil, statementLines, if_pos ends]
          | cons next rest => rw [List.nil_append, statementLines, ends]
      · cases found
  | cons next rest ih =>
      rw [statementLines] at found
      split at found
      next ends =>
          obtain ⟨rfl, rfl⟩ := Prod.mk.inj (Option.some.inj found)
          refine ⟨[], rfl, rfl, ?_⟩
          intro behind'
          cases behind' with
          | nil => rw [List.append_nil, statementLines, if_pos ends]
          | cons next' rest' => rw [List.nil_append, statementLines, ends]
      · cases found
      next paren' bracket' goes =>
          split at found
          next lines' behind'' later =>
              obtain ⟨rfl, rfl⟩ := Prod.mk.inj (Option.some.inj found)
              obtain ⟨more, rfl, rfl, same⟩ := ih later
              refine ⟨next :: more, rfl, rfl, ?_⟩
              intro behind'
              rw [List.cons_append, statementLines, goes]
              dsimp only
              rw [same]
          · cases found

theorem statementAt_append {place : Place} {line : List Char} {rest lines behind : List (List Char)}
    (found : statementAt place line rest = some (lines, behind)) : ∃ more, lines = line :: more ∧ rest = more ++ behind := by
  rw [statementAt] at found
  split at found
  · obtain ⟨more, first, whole, _⟩ := statementLines_append found
    exact ⟨more, first, whole⟩
  · cases found

theorem statementAt_length {place : Place} {line : List Char} {rest lines behind : List (List Char)}
    (found : statementAt place line rest = some (lines, behind)) : behind.length < (line :: rest).length := by
  obtain ⟨more, _, rfl⟩ := statementAt_append found
  rw [List.length_cons, List.length_append]
  omega

/-- The statements and the other lines of a text, each with the place where it starts. -/
def partsFrom (place : Place) : (lines : List (List Char)) → List (Place × Part)
  | [] => []
  | line :: rest =>
      match _found : statementAt place line rest with
      | some (lines, behind) => (place, .property lines) :: partsFrom (place.after lines) behind
      | none => (place, .other line) :: partsFrom (place.afterLine line) rest
termination_by lines => lines.length
decreasing_by
  · exact statementAt_length _found
  · exact Nat.lt_succ_self _

def partsOf (lines : List (List Char)) : List Part := (partsFrom .start lines).map Prod.snd

/-! ## When the pass keeps statements whole -/

/-- Only the last line shows a `;` to a count from the start of the line. -/
def EndsLate (prop : List (List Char)) : Prop := ∀ line ∈ prop.dropLast, firstTopLevel line semicolon = none

def ShowsEnd (prop : List (List Char)) : Prop := ∀ line ∈ prop.getLast?, (firstTopLevel line semicolon).isSome

/-- The pass sees where the statement ends, and that another line starts none. -/
def Seen : Place × Part → (behind : List (Place × Part)) → Prop
  | (_, .property prop), behind => EndsLate prop ∧ (behind = [] ∨ ShowsEnd prop)
  | (place, .other line), _ => ¬place.Opens line

/-- A property can stand before another one. -/
structure Passes (prop : List (List Char)) : Prop where
  shown : ShowsEnd prop
  level : braceDeltas (1, false) prop = (1, false)

/-- A property that cannot stand before another one is sorted to the end of its run. -/
def EndsRun (run : List Part) : Prop :=
  ∀ front prop, run = front ++ [.property prop] → Passes prop ∨ ∀ part ∈ front, part.key ≤ propertyKey prop

/-- - Each property shows its `;`, and nothing else reads like a property.
- What leaves a brace or a comment open, or does not show its `;`, is the last one of its sorted run.
- No line ends in a carriage return. -/
structure Settled (lines : List (List Char)) : Prop where
  seen : ∀ front part behind, partsFrom .start lines = front ++ part :: behind → Seen part behind
  ending : ∀ run ∈ runsOf Part.isProperty (partsOf lines), EndsRun run
  returns : ∀ line ∈ lines, line.getLast? ≠ some '\r'

/-- - The pass collects whole statements, and each run of them is sorted where it stands.
- The result has the same statements and lines, and the pass leaves it as it is. -/
structure SortsProperties (text : List Char) (options : FormatOptions) : Prop where
  divided : linesOf (partsOf (textLines text)) = textLines text
  whole : collected 0 false (textLines text) = partsOf (textLines text)
  runs : ∀ run ∈ runsOf Part.isProperty (partsOf (textLines text)), Arranges Part.key run (sortBy Part.key run)
  sorted : sortObjectProperties text options = joinLines (linesOf (arranged (partsOf (textLines text))))
  kept : partsOf (linesOf (arranged (partsOf (textLines text)))) = arranged (partsOf (textLines text)) ∧
    collected 0 false (linesOf (arranged (partsOf (textLines text)))) = arranged (partsOf (textLines text))
  twice : sortObjectProperties (sortObjectProperties text options) options = sortObjectProperties text options

/-! ## What the pass collects -/

theorem takeProperty_append (line : List Char) (rest : List (List Char)) :
    (takeProperty line rest).1 ++ (takeProperty line rest).2 = line :: rest := by
  induction rest generalizing line with
  | nil => rfl
  | cons next rest ih =>
      rw [takeProperty]
      split
      · rfl
      · exact congrArg (line :: ·) (ih next)

theorem collected_opens {place : Place} {line : List Char} (opens : place.Opens line) (rest : List (List Char)) :
    collected place.depth place.inBlock (line :: rest) = .property (takeProperty line rest).1 ::
      collected (place.after (takeProperty line rest).1).depth (place.after (takeProperty line rest).1).inBlock
        (takeProperty line rest).2 := by
  rw [collected]
  exact if_pos opens

theorem collected_other {place : Place} {line : List Char} (other : ¬place.Opens line) (rest : List (List Char)) :
    collected place.depth place.inBlock (line :: rest) =
      .other line :: collected (place.afterLine line).depth (place.afterLine line).inBlock rest := by
  rw [collected]
  exact if_neg other

theorem collected_lines (depth : Int) (inBlock : Bool) (lines : List (List Char)) :
    linesOf (collected depth inBlock lines) = lines := by
  fun_induction collected depth inBlock lines with
  | case1 => rfl
  | case2 depth inBlock line rest opens taken state ih =>
      rw [linesOf, List.flatMap_cons, ← linesOf, ih]
      exact takeProperty_append line rest
  | case3 depth inBlock line rest other state ih =>
      rw [linesOf, List.flatMap_cons, ← linesOf, ih]
      rfl

theorem linesOf_append (front back : List Part) : linesOf (front ++ back) = linesOf front ++ linesOf back := List.flatMap_append

theorem flush_eq (run : List (List (List Char))) (out : List (List Char)) :
    flush run out = out ++ linesOf (sortBy Part.key (run.map .property)) := by
  have properties := map_sortBy Part.key Part.property run
  rw [flush, linesOf, ← properties, List.flatMap_map, List.flatten_eq_flatMap]
  rfl

theorem property_moves (run : List (List (List Char))) : ∀ part ∈ run.map Part.property, part.isProperty := by
  intro part inside
  obtain ⟨prop, _, rfl⟩ := List.mem_map.mp inside
  rfl

/-- The loop sorts the runs of what it collects. -/
theorem sortLines_collected (run : List (List (List Char))) (depth : Int) (inBlock : Bool) (out lines : List (List Char)) :
    sortLines run depth inBlock out lines = out ++ linesOf (arranged (run.map .property ++ collected depth inBlock lines)) := by
  fun_induction sortLines run depth inBlock out lines with
  | case1 run depth inBlock out =>
      rw [flush_eq, collected, List.append_nil, arranged, sortRuns_of_all _ (property_moves run)]
  | case2 run depth inBlock out line rest opens taken state ih =>
      rw [ih, List.map_append, List.append_assoc, collected, if_pos opens]
      rfl
  | case3 run depth inBlock out line rest other state ih =>
      rw [ih, collected, if_neg other, flush_eq, arranged, arranged, sortRuns_run _ (property_moves run) rfl, linesOf_append]
      rw [List.append_assoc, List.append_assoc]
      rfl

theorem sortObjectProperties_eq {options : FormatOptions} (on : options.sortProperties = true) (text : List Char) :
    sortObjectProperties text options = joinLines (linesOf (arranged (collected 0 false (textLines text)))) := by
  rw [sortObjectProperties, if_pos on, sortLines_collected]
  rfl

/-! ## Parts that are read back -/

/-- A statement that ends on its last line, where the pass looks for the end. -/
structure Whole (prop : List (List Char)) : Prop where
  complete : ∃ line more, prop = line :: more ∧ isPropertyOpener (trim line) ∧
    ∀ behind, statementLines false 0 0 line (more ++ behind) = some (prop, behind)
  late : EndsLate prop

/-- Both the pass and the division of the text cut the lines of the parts into these parts. -/
def Reads : Place → List Part → Prop
  | _, [] => True
  | place, .property prop :: rest =>
      place.AtProperties ∧ Whole prop ∧ (rest = [] ∨ ShowsEnd prop) ∧ Reads (place.after prop) rest
  | place, .other line :: rest => ¬place.Opens line ∧ Reads (place.afterLine line) rest

/-- The place behind the parts. -/
def behindParts (place : Place) : List Part → Place
  | [] => place
  | .property prop :: rest => behindParts (place.after prop) rest
  | .other line :: rest => behindParts (place.afterLine line) rest

theorem takeProperty_iff (line : List Char) (more behind : List (List Char)) :
    takeProperty line (more ++ behind) = (line :: more, behind) ↔
      EndsLate (line :: more) ∧ (behind = [] ∨ ShowsEnd (line :: more)) := by
  induction more generalizing line with
  | nil =>
      rw [List.nil_append]
      have late : EndsLate [line] := nofun
      cases behind with
      | nil => exact iff_of_true rfl ⟨late, .inl rfl⟩
      | cons next rest =>
          rw [takeProperty]
          by_cases shows : (firstTopLevel line semicolon).isSome
          · rw [if_pos shows]
            exact iff_of_true rfl ⟨late, .inr (by simpa [ShowsEnd] using shows)⟩
          · rw [if_neg shows]
            apply iff_of_false
            · intro same
              have whole := takeProperty_append next rest
              rw [(List.cons.inj (Prod.mk.inj same).1).2, (Prod.mk.inj same).2] at whole
              simp at same
              have short := takeProperty_length next rest
              rw [same.2, List.length_cons] at short
              omega
            · rintro ⟨_, none | last⟩
              · cases none
              · exact shows (last line rfl)
  | cons next more ih =>
      have late : EndsLate (line :: next :: more) ↔ firstTopLevel line semicolon = none ∧ EndsLate (next :: more) := by
        rw [EndsLate, EndsLate, List.dropLast_cons_cons, List.forall_mem_cons]
      have last : ShowsEnd (line :: next :: more) ↔ ShowsEnd (next :: more) := by
        rw [ShowsEnd, ShowsEnd, List.getLast?_cons_cons]
      rw [late, last, and_assoc, ← ih, List.cons_append, takeProperty]
      by_cases shows : (firstTopLevel line semicolon).isSome
      · rw [if_pos shows]
        apply iff_of_false
        · intro same
          cases (List.cons.inj (Prod.mk.inj same).1).2
        · rintro ⟨none, _⟩
          rw [none] at shows
          cases shows
      · rw [if_neg shows, and_iff_right (by simpa using shows)]
        constructor
        · intro same
          obtain ⟨first, second⟩ := Prod.mk.inj same
          exact Prod.ext (List.cons.inj first).2 second
        · intro same
          rw [same]

theorem partsFrom_some {place : Place} {line : List Char} {rest prop behind : List (List Char)}
    (found : statementAt place line rest = some (prop, behind)) :
    partsFrom place (line :: rest) = (place, .property prop) :: partsFrom (place.after prop) behind := by
  rw [partsFrom]
  split
  next prop' behind' found' =>
      obtain ⟨rfl, rfl⟩ := Prod.mk.inj (Option.some.inj (found.symm.trans found'))
      rfl
  next none => cases found.symm.trans none

theorem partsFrom_none {place : Place} {line : List Char} {rest : List (List Char)} (none : statementAt place line rest = none) :
    partsFrom place (line :: rest) = (place, .other line) :: partsFrom (place.afterLine line) rest := by
  rw [partsFrom]
  split
  next found => cases none.symm.trans found
  next => rfl

theorem Place.AtProperties.opens {place : Place} (at_ : place.AtProperties) {line : List Char}
    (opener : isPropertyOpener (trim line) = true) : place.Opens line := by
  cases at_
  exact ⟨rfl, rfl, opener⟩

theorem statementAt_some {place : Place} {line : List Char} {rest prop behind : List (List Char)}
    (found : statementAt place line rest = some (prop, behind)) :
    place.AtProperties ∧ isPropertyOpener (trim line) = true ∧ statementLines false 0 0 line rest = some (prop, behind) := by
  rw [statementAt] at found
  split at found
  next both => exact ⟨both.1, both.2, found⟩
  next => cases found

theorem partsFrom_lines (place : Place) (lines : List (List Char)) : linesOf ((partsFrom place lines).map Prod.snd) = lines := by
  fun_induction partsFrom place lines with
  | case1 => rfl
  | case2 place line rest prop behind found ih =>
      obtain ⟨more, rfl, rfl⟩ := statementAt_append found
      rw [List.map_cons, linesOf, List.flatMap_cons, ← linesOf, ih]
      rfl
  | case3 place line rest none ih =>
      rw [List.map_cons, linesOf, List.flatMap_cons, ← linesOf, ih]
      rfl

theorem parts_empty_iff (place : Place) (lines : List (List Char)) : (partsFrom place lines).map Prod.snd = [] ↔ lines = [] := by
  constructor
  · intro empty
    rw [← partsFrom_lines place lines, empty]
    rfl
  · rintro rfl
    rw [partsFrom]
    rfl

/-- The pass collects the parts just when it reads them. -/
theorem collected_iff (place : Place) (lines : List (List Char)) :
    collected place.depth place.inBlock lines = (partsFrom place lines).map Prod.snd ↔
      Reads place ((partsFrom place lines).map Prod.snd) := by
  fun_induction partsFrom place lines with
  | case1 place => exact iff_of_true (by rw [collected]; rfl) trivial
  | case2 place line rest prop behind found ih =>
      obtain ⟨at_, opener, cut⟩ := statementAt_some found
      obtain ⟨more, first, whole, complete⟩ := statementLines_append cut
      subst first whole
      rw [collected_opens (at_.opens opener), List.map_cons, Reads, parts_empty_iff]
      constructor
      · intro same
        obtain ⟨head, tail⟩ := List.cons.inj same
        have taken : takeProperty line (more ++ behind) = (line :: more, behind) := by
          have together := takeProperty_append line (more ++ behind)
          have lines := Part.property.inj head
          rw [lines] at together
          exact Prod.ext lines (List.append_cancel_left together)
        obtain ⟨late, ends⟩ := (takeProperty_iff line more behind).mp taken
        rw [taken] at tail
        exact ⟨at_, ⟨⟨line, more, rfl, opener, complete⟩, late⟩, ends, ih.mp tail⟩
      · rintro ⟨_, whole, ends, later⟩
        rw [(takeProperty_iff line more behind).mpr ⟨whole.late, ends⟩]
        exact congrArg _ (ih.mpr later)
  | case3 place line rest none ih =>
      rw [List.map_cons, Reads]
      by_cases opens : place.Opens line
      · rw [collected_opens opens]
        apply iff_of_false
        · intro same
          cases (List.cons.inj same).1
        · exact fun both => both.1 opens
      · rw [collected_other opens, ← ih, List.cons.injEq]
        simp [opens]

/-- They are read just when each of them is seen. -/
theorem seen_iff (place : Place) (lines : List (List Char)) :
    (∀ front part behind, partsFrom place lines = front ++ part :: behind → Seen part behind) ↔
      Reads place ((partsFrom place lines).map Prod.snd) := by
  fun_induction partsFrom place lines with
  | case1 place => exact iff_of_true (by simp) trivial
  | case2 place line rest prop behind found ih =>
      obtain ⟨at_, opener, cut⟩ := statementAt_some found
      obtain ⟨more, first, whole, complete⟩ := statementLines_append cut
      rw [forall_cons_split, ih, Seen, List.map_cons, Reads, List.map_eq_nil_iff]
      constructor
      · rintro ⟨⟨late, ends⟩, later⟩
        exact ⟨at_, ⟨⟨line, more, first, opener, complete⟩, late⟩, ends, later⟩
      · rintro ⟨_, whole, ends, later⟩
        exact ⟨⟨whole.late, ends⟩, later⟩
  | case3 place line rest none ih =>
      rw [forall_cons_split, ih, Seen, List.map_cons, Reads]

theorem reads_parts {place : Place} {parts : List Part} (reads : Reads place parts) :
    (partsFrom place (linesOf parts)).map Prod.snd = parts := by
  induction parts generalizing place with
  | nil =>
      rw [linesOf, List.flatMap_nil, partsFrom]
      rfl
  | cons part parts ih =>
      rw [linesOf, List.flatMap_cons, ← linesOf]
      cases part with
      | property prop =>
          obtain ⟨at_, whole, _, later⟩ := reads
          obtain ⟨line, more, rfl, opener, complete⟩ := whole.complete
          have found : statementAt place line (more ++ linesOf parts) = some (line :: more, linesOf parts) := by
            rw [statementAt, if_pos ⟨at_, opener⟩, complete]
          rw [Part.lines, List.cons_append, partsFrom_some found, List.map_cons, ih later]
      | other line =>
          obtain ⟨none, later⟩ := reads
          have absent : statementAt place line (linesOf parts) = Option.none := by
            rw [statementAt, if_neg]
            exact fun both => none (both.1.opens both.2)
          rw [Part.lines, List.singleton_append, partsFrom_none absent, List.map_cons, ih later]

theorem reads_collected {place : Place} {parts : List Part} (reads : Reads place parts) :
    collected place.depth place.inBlock (linesOf parts) = parts := by
  have same := reads_parts reads
  have collects := (collected_iff place (linesOf parts)).mpr (by rwa [same])
  rwa [same] at collects

theorem reads_append {place : Place} {front back : List Part} (reads : Reads place (front ++ back)) :
    Reads place front ∧ Reads (behindParts place front) back := by
  induction front generalizing place with
  | nil => exact ⟨trivial, reads⟩
  | cons part front ih =>
      cases part with
      | property prop =>
          obtain ⟨at_, whole, ends, later⟩ := reads
          obtain ⟨first, second⟩ := ih later
          refine ⟨⟨at_, whole, ?_, first⟩, second⟩
          rcases ends with none | shown
          · exact .inl (List.append_eq_nil_iff.mp none).1
          · exact .inr shown
      | other line =>
          obtain ⟨none, later⟩ := reads
          obtain ⟨first, second⟩ := ih later
          exact ⟨⟨none, first⟩, second⟩

/-- What is behind a line that stays does not count before it. -/
theorem reads_replace {place : Place} {front back back' : List Part} {line : List Char}
    (reads : Reads place (front ++ .other line :: back)) (later : Reads (behindParts place (front ++ [.other line])) back') :
    Reads place (front ++ .other line :: back') := by
  induction front generalizing place with
  | nil => exact ⟨reads.1, later⟩
  | cons part front ih =>
      cases part with
      | property prop =>
          obtain ⟨at_, whole, ends, rest⟩ := reads
          refine ⟨at_, whole, ?_, ih rest later⟩
          exact .inr (ends.resolve_left (List.append_ne_nil_of_right_ne_nil front (List.cons_ne_nil _ _)))
      | other line' => exact ⟨reads.1, ih reads.2 later⟩

theorem behindParts_append (place : Place) (front back : List Part) :
    behindParts place (front ++ back) = behindParts (behindParts place front) back := by
  induction front generalizing place with
  | nil => rfl
  | cons part front ih =>
      cases part with
      | property prop => exact ih (place.after prop)
      | other line => exact ih (place.afterLine line)

/-! ## Properties that can stand anywhere in a run -/

def Free (part : Part) : Prop := ∃ prop, part = .property prop ∧ Whole prop ∧ Passes prop

theorem after_passes {place : Place} (at_ : place.AtProperties) {prop : List (List Char)} :
    place.after prop = place ↔ braceDeltas (1, false) prop = (1, false) := by
  cases at_
  rw [Place.after, Place.mk.injEq]
  constructor
  · rintro ⟨depth, inBlock, _⟩
    exact Prod.ext depth inBlock
  · intro level
    dsimp only
    rw [level]
    exact ⟨rfl, rfl, rfl⟩

theorem reads_free {place : Place} {run : List Part} (free : ∀ part ∈ run, Free part) (at_ : run = [] ∨ place.AtProperties)
    (rest : List Part) : (Reads place (run ++ rest) ↔ Reads place rest) ∧ behindParts place (run ++ rest) = behindParts place rest := by
  induction run with
  | nil => exact ⟨Iff.rfl, rfl⟩
  | cons part run ih =>
      have among : place.AtProperties := at_.resolve_left (List.cons_ne_nil part run)
      obtain ⟨first, later⟩ := List.forall_mem_cons.mp free
      obtain ⟨prop, rfl, whole, passes⟩ := first
      obtain ⟨reads, behind⟩ := ih later (.inr among)
      rw [List.cons_append, Reads, behindParts, (after_passes among).mpr passes.level, reads, behind]
      refine ⟨?_, rfl⟩
      constructor
      · exact fun all => all.2.2.2
      · exact fun reads => ⟨among, whole, .inr passes.shown, reads⟩

/-- In a run that is read, what comes before another property can stand anywhere. -/
theorem free_front {place : Place} {front : List Part} {last : Part} (all : ∀ part ∈ front ++ [last], part.isProperty)
    (reads : Reads place (front ++ [last])) : (∀ part ∈ front, Free part) ∧ place.AtProperties := by
  induction front generalizing place with
  | nil =>
      cases last with
      | property prop => exact ⟨nofun, reads.1⟩
      | other line => cases all (.other line) (List.mem_singleton_self _)
  | cons part front ih =>
      rw [List.cons_append] at all reads
      obtain ⟨first, others⟩ := List.forall_mem_cons.mp all
      cases part with
      | other line => cases first
      | property prop =>
          obtain ⟨at_, whole, ends, later⟩ := reads
          obtain ⟨free, next⟩ := ih others later
          have level := (after_passes at_).mp (next.trans at_.symm)
          have shown := ends.resolve_left (List.append_ne_nil_of_right_ne_nil front (List.cons_ne_nil last []))
          exact ⟨List.forall_mem_cons.mpr ⟨⟨prop, rfl, whole, shown, level⟩, free⟩, at_⟩

theorem exists_concat {α : Type} {items : List α} (filled : items ≠ []) : ∃ front last, items = front ++ [last] :=
  ⟨items.dropLast, items.getLast filled, (List.dropLast_append_getLast filled).symm⟩

/-- A run that is read can be sorted just when it ends with what sorts behind the others. -/
theorem reads_sortBy {place : Place} {run : List Part} (all : ∀ part ∈ run, part.isProperty) {rest : List Part}
    (reads : Reads place (run ++ rest)) (ending : EndsRun run) :
    Reads place (sortBy Part.key run ++ rest) ∧ behindParts place (sortBy Part.key run) = behindParts place run := by
  by_cases empty : run = []
  · subst empty
    exact ⟨reads, rfl⟩
  obtain ⟨front, last, rfl⟩ := exists_concat empty
  obtain ⟨free, at_⟩ := free_front all (reads_append reads).1
  have isProp := all last (by simp)
  cases last with
  | other line => cases isProp
  | property prop =>
      have sortedFree : ∀ part ∈ sortBy Part.key front, Free part := fun part inside => free part ((mem_sortBy _).mp inside)
      rw [List.append_assoc] at reads
      have lastReads := (reads_free free (.inr at_) _).1.mp reads
      have same := (reads_free free (.inr at_) [.property prop]).2
      rcases ending front prop rfl with passes | last
      · have whole : Free (.property prop) := ⟨prop, rfl, lastReads.2.1, passes⟩
        have allFree : ∀ part ∈ sortBy Part.key (front ++ [.property prop]), Free part := by
          intro part inside
          rcases List.mem_append.mp ((mem_sortBy _).mp inside) with early | single
          · exact free part early
          · exact List.mem_singleton.mp single ▸ whole
        have singleFree : ∀ part ∈ [Part.property prop], Free part := List.forall_mem_singleton.mpr whole
        have restReads := (reads_free singleFree (.inr at_) rest).1.mp lastReads
        have behind := (reads_free allFree (.inr at_) []).2
        have behind' := (reads_free singleFree (.inr at_) []).2
        rw [List.append_nil] at behind behind'
        exact ⟨(reads_free allFree (.inr at_) rest).1.mpr restReads, by rw [behind, same, behind']⟩
      · have concat : sortBy Part.key (front ++ [.property prop]) = sortBy Part.key front ++ [.property prop] :=
          sortBy_concat Part.key last
        rw [concat, List.append_assoc]
        have sortedReads := reads_free sortedFree (.inr at_) ([.property prop] ++ rest)
        have sortedBehind := reads_free sortedFree (.inr at_) [.property prop]
        exact ⟨sortedReads.1.mpr lastReads, by rw [sortedBehind.2, same]⟩

theorem endsRun_of_reads {place : Place} {run : List Part} (all : ∀ part ∈ run, part.isProperty)
    (reads : Reads place (sortBy Part.key run)) : EndsRun run := by
  rintro front prop rfl
  have sameMembers {part : Part} : part ∈ sortBy Part.key (front ++ [.property prop]) ↔ part ∈ front ++ [.property prop] :=
    mem_sortBy Part.key
  have filled : sortBy Part.key (front ++ [.property prop]) ≠ [] := by
    intro empty
    have member := sameMembers.mpr (List.mem_append_right front (List.mem_singleton_self (Part.property prop)))
    rw [empty] at member
    cases member
  obtain ⟨before, last, is⟩ := exists_concat filled
  have ordered := sortBy_ordered Part.key (front ++ [.property prop])
  rw [is] at reads ordered
  rw [is] at sameMembers
  have properties : ∀ part ∈ before ++ [last], part.isProperty := fun part inside => all part (sameMembers.mp inside)
  obtain ⟨free, _⟩ := free_front properties reads
  rcases List.mem_append.mp (sameMembers.mpr (List.mem_append_right front (List.mem_singleton_self (Part.property prop)))) with early | single
  · obtain ⟨prop', same, _, passes⟩ := free _ early
    obtain rfl := Part.property.inj same
    exact .inl passes
  · obtain rfl := List.mem_singleton.mp single
    right
    intro part inside
    rcases List.mem_append.mp (sameMembers.mpr (List.mem_append_left _ inside)) with early | same
    · have below := (List.pairwise_append.mp ordered).2.2 part early (.property prop) (List.mem_singleton_self _)
      exact below
    · rw [List.mem_singleton.mp same]
      exact le_refl (propertyKey prop)

/-- Sorted runs are read just when each run ends with what sorts behind the others. -/
theorem reads_arranged {place : Place} {parts : List Part} (reads : Reads place parts) :
    Reads place (arranged parts) ↔ ∀ run ∈ runsOf Part.isProperty parts, EndsRun run := by
  induction parts using run_induction generalizing place with
  | all run all =>
      rw [arranged, sortRuns_of_all _ all]
      by_cases empty : run = []
      · subst empty
        exact iff_of_true trivial nofun
      · rw [runsOf_of_all all empty, List.forall_mem_singleton]
        constructor
        · exact endsRun_of_reads all
        · intro ending
          rw [← List.append_nil (sortBy Part.key run)]
          exact (reads_sortBy all (by rwa [List.append_nil]) ending).1
  | stays run b rest all stays ih =>
      cases b with
      | property prop => cases stays
      | other line =>
          have runReads := (reads_append reads).1
          have here := (reads_append reads).2
          rw [arranged, sortRuns_run _ all stays, ← arranged, runsOf_append stays, List.forall_mem_append, List.forall_mem_cons]
          have alone : EndsRun [.other line] := by
            intro front prop same
            have last := congrArg List.getLast? same
            simp at last
          have runEnds : (∀ part ∈ runsOf Part.isProperty run, EndsRun part) ↔ EndsRun run := by
            by_cases empty : run = []
            · subst empty
              apply iff_of_true nofun
              intro front prop same
              simp at same
            · rw [runsOf_of_all all empty, List.forall_mem_singleton]
          rw [runEnds, and_iff_right alone, ← ih here.2]
          constructor
          · intro sorted
            have ending := endsRun_of_reads all (reads_append sorted).1
            have behind := (reads_append sorted).2
            rw [(reads_sortBy all reads ending).2] at behind
            exact ⟨ending, behind.2⟩
          · rintro ⟨ending, later⟩
            have replaced : Reads place (run ++ .other line :: arranged rest) := by
              apply reads_replace reads
              rw [behindParts_append]
              exact later
            exact (reads_sortBy all replaced ending).1

/-! ## Lines of a text -/

def dropReturn (line : List Char) : List Char := if line.getLast? = some '\r' then line.dropLast else line

theorem dropReturn_cons {c : Char} {line : List Char} (other : ¬(c = '\r' ∧ line = [])) :
    dropReturn (c :: line) = c :: dropReturn line := by
  cases line with
  | nil =>
      have plain : c ≠ '\r' := fun return_ => other ⟨return_, rfl⟩
      simp [dropReturn, plain]
  | cons d line =>
      rw [dropReturn, dropReturn, List.getLast?_cons_cons, List.dropLast_cons_cons]
      split
      · rfl
      · rfl

theorem joinLines_cons (line : List Char) {lines : List (List Char)} (more : lines ≠ []) :
    joinLines (line :: lines) = line ++ '\n' :: joinLines lines := by
  cases lines with
  | nil => exact absurd rfl more
  | cons next rest => simp [joinLines, List.intercalate]

theorem textLines_append {line : List Char} (unbroken : '\n' ∉ line) (rest : List Char) :
    textLines (line ++ '\n' :: rest) = dropReturn line :: textLines rest := by
  induction line with
  | nil => rfl
  | cons c line ih =>
      obtain ⟨feed, later⟩ := not_or.mp (List.mem_cons.not.mp unbroken)
      have next := ih later
      by_cases both : c = '\r' ∧ line = []
      · obtain ⟨rfl, rfl⟩ := both
        rfl
      · rw [List.cons_append, textLines, fileLines]
        · rw [textLines] at next
          cases split : fileLines (line ++ '\n' :: rest) with
          | nil =>
              rw [split] at next
              cases next
          | cons entry entries =>
              rw [split] at next
              obtain ⟨first, second⟩ := List.cons.inj next
              rw [List.map_cons, first, second, dropReturn_cons both]
        · exact fun same => feed same.symm
        · intro rest' return_ same
          cases line with
          | nil => exact both ⟨return_, rfl⟩
          | cons d line => exact later ((List.cons.inj same).1 ▸ List.mem_cons_self ..)

theorem textLines_joinLines {lines : List (List Char)} (filled : lines ≠ []) (unbroken : ∀ line ∈ lines, '\n' ∉ line) :
    textLines (joinLines lines) = lines.map dropReturn := by
  induction lines with
  | nil => exact absurd rfl filled
  | cons line lines ih =>
      obtain ⟨first, later⟩ := List.forall_mem_cons.mp unbroken
      by_cases empty : lines = []
      · subst empty
        have whole := textLines_append first []
        have none : textLines [] = [] := rfl
        rw [none] at whole
        simpa [joinLines, List.intercalate] using whole
      · rw [joinLines_cons line empty, textLines_append first, ih empty later, List.map_cons]

theorem textLines_unbroken (text : List Char) : ∀ line ∈ textLines text, '\n' ∉ line := by
  have areLines := (fileLines_spec text).1
  rw [textLines]
  generalize fileLines text = lines at areLines
  induction lines with
  | nil => nofun
  | cons entry lines ih =>
      obtain ⟨line, terminator⟩ := entry
      rw [List.map_cons, List.forall_mem_cons]
      exact ⟨areLines.1, ih areLines.2.2⟩

theorem dropReturn_length (line : List Char) :
    (dropReturn line).length ≤ line.length ∧ ((dropReturn line).length = line.length ↔ line.getLast? ≠ some '\r') := by
  rw [dropReturn]
  split
  next ends =>
      have filled : line.length ≠ 0 := by
        intro empty
        rw [List.length_eq_zero_iff.mp empty] at ends
        cases ends
      rw [List.length_dropLast]
      exact ⟨Nat.sub_le _ _, iff_of_false (by omega) (not_not.mpr ends)⟩
  next plain => exact ⟨Nat.le_refl _, iff_of_true rfl plain⟩

theorem joinLines_length {lines : List (List Char)} (filled : lines ≠ []) :
    (joinLines lines).length = (lines.map fun line => line.length + 1).sum := by
  induction lines with
  | nil => exact absurd rfl filled
  | cons line lines ih =>
      by_cases empty : lines = []
      · subst empty
        simp [joinLines, List.intercalate]
      · rw [joinLines_cons line empty, List.length_append, List.length_cons, ih empty, List.map_cons, List.sum_cons]
        omega

/-! ## The result -/

theorem arranged_perm (parts : List Part) : (linesOf (arranged parts)).Perm (linesOf parts) :=
  (sortRuns_perm Part.key parts).flatMap_right _

/-- What the pass makes of any lines has as many characters as they have. -/
theorem joinLines_collected {lines : List (List Char)} (filled : lines ≠ []) :
    (joinLines (linesOf (arranged (collected 0 false lines)))).length = (lines.map fun line => line.length + 1).sum := by
  have perm := arranged_perm (collected 0 false lines)
  rw [collected_lines] at perm
  rw [joinLines_length]
  · exact (perm.map _).sum_eq
  · intro empty
    rw [empty] at perm
    exact filled perm.nil_eq.symm

/-- The pass leaves its result as it is just when no line ends in a carriage return. -/
theorem twice_iff {lines : List (List Char)} (filled : lines ≠ []) (unbroken : ∀ line ∈ lines, '\n' ∉ line)
    (again : joinLines (linesOf (arranged (collected 0 false lines))) = joinLines lines) :
    joinLines (linesOf (arranged (collected 0 false (textLines (joinLines lines))))) = joinLines lines ↔
      ∀ line ∈ lines, line.getLast? ≠ some '\r' := by
  rw [textLines_joinLines filled unbroken]
  constructor
  · intro same
    have lengths := congrArg List.length same
    have dropped : lines.map dropReturn ≠ [] := List.map_eq_nil_iff.not.mpr filled
    rw [joinLines_collected dropped, joinLines_length filled, List.map_map] at lengths
    intro line inside
    by_contra ends
    have shorter : ((lines.map fun line => (dropReturn line).length + 1).sum) < (lines.map fun line => line.length + 1).sum := by
      apply List.sum_lt_sum
      · intro other _
        exact Nat.succ_le_succ (dropReturn_length other).1
      · refine ⟨line, inside, Nat.succ_lt_succ (Nat.lt_of_le_of_ne (dropReturn_length line).1 ?_)⟩
        exact fun equal => (dropReturn_length line).2.mp equal ends
    exact absurd lengths (Nat.ne_of_lt shorter)
  · intro none
    have each : ∀ line ∈ lines, dropReturn line = id line := fun line inside => if_neg (none line inside)
    rw [List.map_congr_left each, List.map_id, again]

def sorting : FormatOptions := { sortProperties := true }

def customerPage : List Char := "page 50100 P\n\x7b\n    PageType = List;\n    ApplicationArea = All,\n        Basic;\n\x7d\n".toList

/-- The view ends on its second line, behind a parenthesis of the first one. -/
def filteredPage : List Char :=
  ("page 50100 P\n\x7b\n    SourceTableView = where(Blocked = const(0),\n        Type = const(1));\n" ++
    "    PageType = List;\n    ApplicationArea = All;\n\x7d\n").toList

def branchingCodeunit : List Char :=
  ("codeunit 50100 C\n\x7b\n    procedure P()\n    begin\n        case true of\n            Z = 1: Foo();\n" ++
    "            A = 2: Bar();\n        end;\n    end;\n\x7d\n").toList

end AlLanguage.Syntax
