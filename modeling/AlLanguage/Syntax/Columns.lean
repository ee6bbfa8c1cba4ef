import AlLanguage.Library.Offsets
import AlLanguage.Source.Positions

/-!
# Columns of a line

- Byte columns of the parser and UTF-16 columns of the protocol.
- Both loops translate through the characters of the line. A column inside a surrogate pair goes to the character behind it, where the
  document store goes to the character itself.
-/

namespace AlLanguage.Syntax

open Library Source

/-! ## The converters -/

/-- The loop over the characters of a line. -/
def utf16Within (clamped : Nat) : (utf16 : UInt32) → (bytePos : Nat) → List Char → UInt32
  | utf16, _, [] => utf16
  | utf16, bytePos, ch :: rest =>
      if clamped ≤ bytePos then utf16
      else utf16Within clamped (utf16 + UInt32.ofNat (utf16Units ch)) (bytePos + ch.utf8Size) rest

def byteColToUtf16Col (line : List Char) (byteCol : Nat) : UInt32 :=
  let clamped := min byteCol (Rope.lenBytes line)
  utf16Within clamped 0 0 line

def byteOffsetWithin (length : Nat) : (remaining byteIdx : Nat) → List Char → Nat
  | _, _, [] => length
  | remaining, byteIdx, ch :: rest =>
      if remaining = 0 then byteIdx else byteOffsetWithin length (remaining - utf16Units ch) (byteIdx + ch.utf8Size) rest

def utf16ColToByteOffset (line : List Char) (utf16Col : Nat) : Nat :=
  byteOffsetWithin (Rope.lenBytes line) utf16Col 0 line

/-! ## Translation through the characters -/

/-- Where a character of a line starts. -/
def byteStart (line : List Char) (index : Nat) : Nat := startOf Char.utf8Size line index

def unitStart (line : List Char) (index : Nat) : Nat := startOf utf16Units line index

theorem utf16Within_eq (clamped : Nat) (utf16 : UInt32) (bytePos : Nat) (line : List Char) :
    utf16Within clamped utf16 bytePos line =
      utf16 + UInt32.ofNat (Library.translate Char.utf8Size utf16Units line (clamped - bytePos)) := by
  induction line generalizing utf16 bytePos with
  | nil => simp [utf16Within, Library.translate]
  | cons ch rest ih =>
      rw [utf16Within, Library.translate, indexFrom]
      by_cases reached : clamped ≤ bytePos
      · rw [if_pos reached, if_pos (by omega), startOf_zero]
        simp
      · rw [if_neg reached, if_neg (by omega), ih, startOf_cons, Library.translate, ← Nat.sub_sub, UInt32.ofNat_add, UInt32.add_assoc]

theorem byteColToUtf16Col_eq (line : List Char) (byteCol : Nat) :
    byteColToUtf16Col line byteCol = UInt32.ofNat (Library.translate Char.utf8Size utf16Units line byteCol) := by
  rw [byteColToUtf16Col, utf16Within_eq, UInt32.zero_add, Nat.sub_zero, Library.translate, Library.translate, Rope.lenBytes,
    indexFrom_clamped line byteCol Char.utf8Size_pos]

theorem byteOffsetWithin_eq (remaining byteIdx : Nat) (line : List Char) :
    byteOffsetWithin (byteIdx + Rope.lenBytes line) remaining byteIdx line =
      byteIdx + Library.translate utf16Units Char.utf8Size line remaining := by
  induction line generalizing remaining byteIdx with
  | nil => simp [byteOffsetWithin, Library.translate, Rope.lenBytes]
  | cons ch rest ih =>
      rw [byteOffsetWithin, Library.translate, indexFrom]
      split
      next zero => simp
      next =>
          have length : byteIdx + Rope.lenBytes (ch :: rest) = byteIdx + ch.utf8Size + Rope.lenBytes rest := by
            rw [Rope.lenBytes, Rope.lenBytes, List.map_cons, List.sum_cons, Nat.add_assoc]
          rw [length, ih, startOf_cons, Library.translate, Nat.add_assoc]

theorem utf16ColToByteOffset_eq (line : List Char) (utf16Col : Nat) :
    utf16ColToByteOffset line utf16Col = Library.translate utf16Units Char.utf8Size line utf16Col := by
  have within := byteOffsetWithin_eq utf16Col 0 line
  rwa [Nat.zero_add, Nat.zero_add] at within

theorem utf16CuToChar_eq (line : Rope) (unit : Nat) : line.utf16CuToChar unit = indexAt utf16Units line unit := by
  induction line generalizing unit with
  | nil => rfl
  | cons ch rest ih => rw [Rope.utf16CuToChar, indexAt, ih]

theorem byteToChar_byteStart {line : Rope} {index : Nat} (within : index ≤ line.length) : line.byteToChar (byteStart line index) = index := by
  induction line generalizing index with
  | nil => exact (Nat.le_zero.mp within).symm
  | cons ch rest ih =>
      cases index with
      | zero => exact Rope.byteToChar_zero _
      | succ index =>
          have later := ih (Nat.le_of_succ_le_succ within)
          rw [byteStart] at later
          rw [byteStart, startOf_cons, Rope.byteToChar, if_neg (by omega), Nat.add_sub_cancel_left, later]

/-! ## What the converters promise -/

/-- They are inverse on the starts of the characters and at the end of the line, keep the order, stop at the end and give no offset
inside a character. -/
structure Converts (line : List Char) : Prop where
  bytesBack : ∀ index ≤ line.length,
    utf16ColToByteOffset line (byteColToUtf16Col line (byteStart line index)).toNat = byteStart line index
  unitsBack : ∀ index ≤ line.length,
    (byteColToUtf16Col line (utf16ColToByteOffset line (unitStart line index))).toNat = unitStart line index
  unitsMonotone : ∀ {column column'}, column ≤ column' → utf16ColToByteOffset line column ≤ utf16ColToByteOffset line column'
  bytesMonotone : ∀ {column column'}, column ≤ column' → byteColToUtf16Col line column ≤ byteColToUtf16Col line column'
  unitsPast : ∀ column, utf16Length line ≤ column → utf16ColToByteOffset line column = Rope.lenBytes line
  bytesPast : ∀ column, Rope.lenBytes line ≤ column → (byteColToUtf16Col line column).toNat = utf16Length line
  onCharacter : ∀ column, ∃ index ≤ line.length, utf16ColToByteOffset line column = byteStart line index

/-- The line of a document without its break. -/
def lineContent (rope : Rope) (line : Nat) : List Char :=
  (rope.line line).take ((rope.line line).length - lineBreakUtf16Width (rope.line line))

/-- Both name the same character of the line of the document. -/
def SamePosition (rope : Rope) (line character : UInt32) : Prop :=
  ∀ offset, positionToOffset rope line character = some offset →
    offset = rope.byteToChar (rope.lineToByte line.toNat) +
      Rope.byteToChar (lineContent rope line.toNat) (utf16ColToByteOffset (lineContent rope line.toNat) character.toNat)

/-- The column lies behind the start of a character and before the start of the next one. -/
def InsidePair (line : List Char) (column : Nat) : Prop :=
  ∃ index < line.length, unitStart line index < column ∧ column < unitStart line (index + 1)

/-! ## The line of the document -/

theorem utf16Length_break (slice : Rope) :
    utf16Length (slice.drop (slice.length - lineBreakUtf16Width slice)) = lineBreakUtf16Width slice := by
  have single {c : Char} (last : slice[slice.length - 1]? = some c) : slice.drop (slice.length - 1) = [c] := by
    obtain ⟨within, is⟩ := List.getElem?_eq_some_iff.mp last
    rw [List.drop_eq_getElem_cons within, is, List.drop_eq_nil_of_le (by omega)]
  unfold lineBreakUtf16Width
  dsimp only
  by_cases empty : slice.length = 0
  · rw [if_pos empty, Nat.sub_zero, List.drop_length]
    rfl
  rw [if_neg empty]
  by_cases feed : slice[slice.length - 1]? = some '\n'
  · rw [if_pos feed]
    by_cases both : 2 ≤ slice.length ∧ slice[slice.length - 2]? = some '\r'
    · rw [if_pos both]
      obtain ⟨within, is⟩ := List.getElem?_eq_some_iff.mp both.2
      have next : slice.length - 2 + 1 = slice.length - 1 := by omega
      rw [List.drop_eq_getElem_cons within, is, next, single feed]
      decide
    · rw [if_neg both, single feed]
      decide
  · rw [if_neg feed]
    split
    next return_ =>
      rw [single return_]
      decide
    next =>
      rw [Nat.sub_zero, List.drop_length]
      rfl

theorem utf16Length_lineContent (rope : Rope) (line : Nat) :
    utf16Length (lineContent rope line) = utf16Length (rope.line line) - lineBreakUtf16Width (rope.line line) := by
  have whole := utf16Length_append (lineContent rope line) ((rope.line line).drop ((rope.line line).length - lineBreakUtf16Width (rope.line line)))
  rw [lineContent, List.take_append_drop, utf16Length_break] at whole
  rw [lineContent]
  omega

theorem positionToOffset_indexAt (rope : Rope) (line character : UInt32) :
    positionToOffset rope line character =
      if rope.lenLines ≤ line.toNat then none
      else some (rope.byteToChar (rope.lineToByte line.toNat) + indexAt utf16Units (lineContent rope line.toNat) character.toNat) := by
  unfold positionToOffset
  dsimp only
  rw [← utf16Length_lineContent, utf16CuToChar_eq]
  have split : rope.line line.toNat = lineContent rope line.toNat ++
      (rope.line line.toNat).drop ((rope.line line.toNat).length - lineBreakUtf16Width (rope.line line.toNat)) := by
    rw [lineContent, List.take_append_drop]
  generalize (rope.line line.toNat).drop _ = after at split
  rw [split, utf16Length, indexAt_append _ _ _ utf16Units_pos]

/-! ## When the converters agree -/

theorem converts_iff (line : List Char) : Converts line ↔ utf16Length line < 2 ^ 32 := by
  constructor
  · intro converts
    rw [← converts.bytesPast _ (Nat.le_refl _)]
    exact UInt32.toNat_lt _
  · intro short
    have units (column : Nat) : (byteColToUtf16Col line column).toNat = Library.translate Char.utf8Size utf16Units line column := by
      have within : Library.translate Char.utf8Size utf16Units line column ≤ utf16Length line := by
        rw [utf16Length, ← startOf_length]
        exact startOf_mono line (indexFrom_le_length line column)
      rw [byteColToUtf16Col_eq]
      exact UInt32.toNat_ofNat_of_lt' (Nat.lt_of_le_of_lt within short)
    constructor
    · intro index within
      rw [units, utf16ColToByteOffset_eq, byteStart, translate_startOf Char.utf8Size_pos within, translate_startOf utf16Units_pos within]
    · intro index within
      rw [units, utf16ColToByteOffset_eq, unitStart, translate_startOf utf16Units_pos within, translate_startOf Char.utf8Size_pos within]
    · intro column column' le
      rw [utf16ColToByteOffset_eq, utf16ColToByteOffset_eq]
      exact translate_mono line le
    · intro column column' le
      rw [UInt32.le_iff_toNat_le, units, units]
      exact translate_mono line le
    · intro column past
      rw [utf16ColToByteOffset_eq, translate_past utf16Units_pos past]
      rfl
    · intro column past
      rw [units, translate_past Char.utf8Size_pos past]
      rfl
    · intro column
      exact ⟨_, indexFrom_le_length line column, utf16ColToByteOffset_eq line column⟩

theorem lineContent_outside {rope : Rope} {line : Nat} (outside : rope.lenLines ≤ line) : lineContent rope line = [] := by
  rw [lineContent, Rope.line, List.getElem?_eq_none outside]
  rfl

theorem samePosition_iff (rope : Rope) (line character : UInt32) :
    SamePosition rope line character ↔ ¬InsidePair (lineContent rope line.toNat) character.toNat := by
  have place : Rope.byteToChar (lineContent rope line.toNat) (utf16ColToByteOffset (lineContent rope line.toNat) character.toNat) =
      indexFrom utf16Units (lineContent rope line.toNat) character.toNat := by
    rw [utf16ColToByteOffset_eq]
    exact byteToChar_byteStart (indexFrom_le_length _ _)
  rw [SamePosition, positionToOffset_indexAt, place]
  by_cases outside : rope.lenLines ≤ line.toNat
  · rw [if_pos outside, lineContent_outside outside]
    simp [InsidePair]
  · rw [if_neg outside]
    simp only [Option.some.injEq, forall_eq', Nat.add_left_cancel_iff]
    exact indexAt_eq_indexFrom_iff _ _ utf16Units_pos

/-- The converters keep their promises on every line with fewer than `2 ^ 32` units, and they agree with the document store on every
column that is not inside a surrogate pair. -/
theorem converters_iff (text : List Char) (rope : Rope) (line character : UInt32) :
    (Converts text ↔ utf16Length text < 2 ^ 32) ∧
      (SamePosition rope line character ↔ ¬InsidePair (lineContent rope line.toNat) character.toNat) :=
  ⟨converts_iff text, samePosition_iff rope line character⟩

/-- Column 1 of `😀x` is behind the first character for the converter and before it for the document store. -/
theorem pair_differs :
    positionToOffset ['😀', 'x'] 0 1 = some 0 ∧ utf16ColToByteOffset ['😀', 'x'] 1 = 4 ∧
      lineContent ['😀', 'x'] 0 = ['😀', 'x'] ∧ ¬SamePosition ['😀', 'x'] 0 1 := by
  refine ⟨by decide, by decide, by decide, ?_⟩
  rw [samePosition_iff]
  intro outside
  exact outside ⟨0, by decide, by decide, by decide⟩

end AlLanguage.Syntax
