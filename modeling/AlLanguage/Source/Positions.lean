import AlLanguage.Library.TextLines

/-!
# Positions in a document

The rope of a document is the list of its characters. It breaks lines at `\n`, `\r\n` and a lone `\r`.
-/

namespace AlLanguage.Source

open Library

abbrev Rope := List Char

namespace Rope

def lenLines (rope : Rope) : Nat := (lines rope).length

/-- One line with its break. -/
def line (rope : Rope) (index : Nat) : Rope := ((lines rope)[index]?).getD []

def lenBytes (rope : Rope) : Nat := (rope.map Char.utf8Size).sum

def lineToByte (rope : Rope) (index : Nat) : Nat := (((lines rope).take index).map lenBytes).sum

/-- The character that a byte belongs to. -/
def byteToChar : Rope → (byte : Nat) → Nat
  | [], _ => 0
  | c :: rest, byte => if byte < c.utf8Size then 0 else byteToChar rest (byte - c.utf8Size) + 1

/-- The character that a UTF-16 unit belongs to. -/
def utf16CuToChar : Rope → (unit : Nat) → Nat
  | [], _ => 0
  | c :: rest, unit => if unit < utf16Units c then 0 else utf16CuToChar rest (unit - utf16Units c) + 1

def slice (rope : Rope) (start stop : Nat) : Rope := (rope.take stop).drop start

def remove (rope : Rope) (start stop : Nat) : Rope := rope.take start ++ rope.drop stop

def insert (rope : Rope) (start : Nat) (text : String) : Rope := rope.take start ++ text.toList ++ rope.drop start

end Rope

/-- The width of the break at the end of a line. -/
def lineBreakUtf16Width (lineSlice : Rope) : Nat :=
  let n := lineSlice.length
  if n = 0 then 0
  else if lineSlice[n - 1]? = some '\n' then
    if 2 ≤ n ∧ lineSlice[n - 2]? = some '\r' then 2 else 1
  else if lineSlice[n - 1]? = some '\r' then 1
  else 0

def positionToOffset (rope : Rope) (line character : UInt32) : Option Nat :=
  let line := line.toNat
  if rope.lenLines ≤ line then none
  else
    let lineSlice := rope.line line
    let lineByteStart := rope.lineToByte line
    let maxChar := utf16Length lineSlice - lineBreakUtf16Width lineSlice
    let utf16Idx := min character.toNat maxChar
    let charInLine := lineSlice.utf16CuToChar utf16Idx
    some (rope.byteToChar lineByteStart + charInLine)

/-! ## The first line -/

namespace Rope

variable {content lineBreak rest : Rope}

@[simp] theorem lenBytes_append (first second : Rope) : lenBytes (first ++ second) = lenBytes first + lenBytes second := by
  simp [lenBytes]

theorem byteToChar_append (first second : Rope) (byte : Nat) :
    byteToChar (first ++ second) (lenBytes first + byte) = first.length + byteToChar second byte := by
  induction first with
  | nil => simp [lenBytes]
  | cons c first ih =>
      have size : lenBytes (c :: first) + byte = c.utf8Size + (lenBytes first + byte) := by
        simp only [lenBytes, List.map_cons, List.sum_cons]
        omega
      rw [List.cons_append, byteToChar, size, if_neg (by omega), Nat.add_sub_cancel_left, ih, List.length_cons]
      omega

theorem byteToChar_zero (rope : Rope) : byteToChar rope 0 = 0 := by
  cases rope with
  | nil => rfl
  | cons c rest => rw [byteToChar, if_pos c.utf8Size_pos]

/-- A unit within the content belongs to the character that `column` counts up to. -/
theorem utf16CuToChar_column (unbroken : Unbroken content) (lineBreak : Rope) (units : Nat) :
    utf16CuToChar (content ++ lineBreak) (min units (utf16Length content)) = column content units := by
  induction content generalizing units with
  | nil =>
      rw [utf16Length_nil, Nat.min_zero, column, List.nil_append]
      cases lineBreak with
      | nil => rfl
      | cons c rest => rw [utf16CuToChar, if_pos (utf16Units_pos c)]
  | cons c content ih =>
      obtain ⟨feed, return_⟩ := unbroken c (List.mem_cons_self ..)
      rw [List.cons_append, utf16CuToChar, column, utf16Length_cons]
      simp only [feed, return_, false_or]
      by_cases inside : units < utf16Units c
      · rw [if_pos inside, if_pos (by omega)]
      · have past : min units (utf16Units c + utf16Length content) - utf16Units c =
            min (units - utf16Units c) (utf16Length content) := by omega
        rw [if_neg inside, if_neg (by omega), past, ih fun d member => unbroken d (.tail _ member)]

theorem lineBreakUtf16Width_unbroken (unbroken : Unbroken content) : lineBreakUtf16Width content = 0 := by
  have other (index : Nat) {c : Char} (found : content[index]? = some c) : c ≠ '\n' ∧ c ≠ '\r' :=
    unbroken c (List.mem_of_getElem? found)
  unfold lineBreakUtf16Width
  dsimp only
  split
  · rfl
  · rw [if_neg fun found => (other _ found).1 rfl, if_neg fun found => (other _ found).2 rfl]

theorem lineBreakUtf16Width_append (unbroken : Unbroken content) (isBreak : IsBreak lineBreak rest) :
    lineBreakUtf16Width (content ++ lineBreak) = utf16Length lineBreak := by
  rcases isBreak with rfl | rfl | ⟨rfl, _⟩
  · have before : ¬(2 ≤ content.length + 1 ∧ (content ++ ['\n'])[content.length + 1 - 2]? = some '\r') := by
      rintro ⟨enough, found⟩
      rw [List.getElem?_append_left (by omega)] at found
      exact (unbroken _ (List.mem_of_getElem? found)).2 rfl
    simp only [lineBreakUtf16Width, List.length_append, List.length_singleton, Nat.add_sub_cancel, before, if_false]
    simp [utf16Length, utf16Units]
  · simp [lineBreakUtf16Width, utf16Length, utf16Units]
  · simp [lineBreakUtf16Width, utf16Length, utf16Units]

end Rope

/-! ## The reference model -/

variable {content lineBreak rest : Rope}

/-- What `positionToOffset` computes, the line and the units as numbers. -/
def offsetOf (rope : Rope) (line units : Nat) : Option Nat :=
  if rope.lenLines ≤ line then none
  else
    let lineSlice := rope.line line
    some (rope.byteToChar (rope.lineToByte line) +
      lineSlice.utf16CuToChar (min units (utf16Length lineSlice - lineBreakUtf16Width lineSlice)))

theorem offsetOf_unbroken (unbroken : Unbroken content) (line units : Nat) :
    offsetOf content line units = offsetAt content line units := by
  have column := Rope.utf16CuToChar_column unbroken [] units
  rw [List.append_nil] at column
  cases line with
  | zero =>
      simp [offsetOf, offsetAt, Rope.lenLines, Rope.line, Rope.lineToByte, lines_unbroken unbroken,
        Rope.lineBreakUtf16Width_unbroken unbroken, column, Rope.byteToChar_zero]
  | succ line => simp [offsetOf, offsetAt, Rope.lenLines, lines_unbroken unbroken, afterBreak_unbroken unbroken]

theorem offsetOf_firstLine (unbroken : Unbroken content) (isBreak : IsBreak lineBreak rest) (units : Nat) :
    offsetOf (content ++ lineBreak ++ rest) 0 units = some (column content units) := by
  have width := Rope.lineBreakUtf16Width_append unbroken isBreak
  simp only [offsetOf, Rope.lenLines, Rope.line, Rope.lineToByte, lines_append unbroken isBreak, List.length_cons,
    List.getElem?_cons_zero, Option.getD_some, width, utf16Length_append, Nat.add_sub_cancel,
    Rope.utf16CuToChar_column unbroken]
  rw [if_neg (by omega), List.take_zero, List.map_nil, List.sum_nil, Rope.byteToChar_zero, Nat.zero_add]

theorem offsetOf_laterLine (unbroken : Unbroken content) (isBreak : IsBreak lineBreak rest) (line units : Nat) :
    offsetOf (content ++ lineBreak ++ rest) (line + 1) units =
      (offsetOf rest line units).map (content.length + lineBreak.length + ·) := by
  have start : Rope.byteToChar (content ++ lineBreak ++ rest) (Rope.lineToByte (content ++ lineBreak ++ rest) (line + 1)) =
      content.length + lineBreak.length + Rope.byteToChar rest (Rope.lineToByte rest line) := by
    rw [Rope.lineToByte, lines_append unbroken isBreak, List.take_succ_cons, List.map_cons, List.sum_cons,
      Rope.byteToChar_append, List.length_append]
    rfl
  have slice : Rope.line (content ++ lineBreak ++ rest) (line + 1) = Rope.line rest line := by
    rw [Rope.line, lines_append unbroken isBreak, List.getElem?_cons_succ]
    rfl
  have count : Rope.lenLines (content ++ lineBreak ++ rest) = Rope.lenLines rest + 1 := by
    rw [Rope.lenLines, lines_append unbroken isBreak]
    rfl
  rw [offsetOf, offsetOf, start, slice, count]
  by_cases outside : Rope.lenLines rest ≤ line
  · rw [if_pos outside, if_pos (by omega)]
    rfl
  · rw [if_neg outside, if_neg (by omega)]
    simp [Nat.add_assoc]

theorem offsetOf_eq (rope : Rope) (line units : Nat) : offsetOf rope line units = offsetAt rope line units := by
  induction line generalizing rope with
  | zero =>
      rcases exists_firstLine rope with unbroken | ⟨content, lineBreak, rest, unbroken, isBreak, rfl⟩
      · exact offsetOf_unbroken unbroken 0 units
      · rw [offsetOf_firstLine unbroken isBreak, offsetAt, List.append_assoc, column_append unbroken]
        rcases isBreak with rfl | rfl | ⟨rfl, _⟩ <;> simp
  | succ line ih =>
      rcases exists_firstLine rope with unbroken | ⟨content, lineBreak, rest, unbroken, isBreak, rfl⟩
      · exact offsetOf_unbroken unbroken (line + 1) units
      · rw [offsetOf_laterLine unbroken isBreak, ih, offsetAt, afterBreak_append unbroken isBreak]

/-- Positions are resolved as the protocol says. -/
theorem positionToOffset_eq (rope : Rope) (line character : UInt32) :
    positionToOffset rope line character = offsetAt rope line.toNat character.toNat := offsetOf_eq ..

end AlLanguage.Source
