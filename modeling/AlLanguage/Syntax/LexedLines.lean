import AlLanguage.Syntax.Lexical
import AlLanguage.Syntax.Columns

/-!
# The scanner lexes

- A reference lexer of AL's quotes and comments, byte by byte over a whole text.
- The spans of a line cut it into pieces of one kind each, and the kinds are those of the reference lexer.
-/

namespace AlLanguage.Syntax

open Library Source

/-! ## The reference lexer -/

abbrev Quote := { b : UInt8 // b = singleQuote ∨ b = doubleQuote }

inductive LexMode where
  | code
  | string (quote : Quote)
  /-- On the second of two quotes. -/
  | doubled (quote : Quote)
  | lineComment
  /-- On the star of the opening delimiter. -/
  | blockOpening
  | blockComment
  /-- On the slash of the closing delimiter. -/
  | blockClosing
  deriving DecidableEq

namespace LexMode

def step (mode : LexMode) (b : UInt8) (ahead : Option UInt8) : SpanKind × LexMode :=
  match mode with
  | code =>
      if b = slash ∧ ahead = some slash then (.lineComment, lineComment)
      else if b = slash ∧ ahead = some star then (.blockComment, blockOpening)
      else if quote : b = singleQuote ∨ b = doubleQuote then (.string, string ⟨b, quote⟩)
      else (.code, code)
  | string quote =>
      if b = newline then (.code, code)
      else if b = quote.val then if ahead = some quote.val then (.string, doubled quote) else (.string, code)
      else (.string, string quote)
  | doubled quote => (.string, string quote)
  | lineComment => if b = newline then (.code, code) else (.lineComment, lineComment)
  | blockOpening => (.blockComment, blockComment)
  | blockComment => if b = star ∧ ahead = some slash then (.blockComment, blockClosing) else (.blockComment, blockComment)
  | blockClosing => (.blockComment, code)

/-- Not in the middle of two bytes that belong together. -/
def Settled : LexMode → Prop
  | doubled _ | blockOpening | blockClosing => False
  | _ => True

/-- The mode at the start of a line. -/
def carried (inBlockComment : Bool) : LexMode := if inBlockComment then blockComment else code

def inBlock (mode : LexMode) : Bool := mode = blockComment

end LexMode

/-- The kinds of all bytes, and the mode at the end. -/
def lex (mode : LexMode) (bytes : List UInt8) : List SpanKind × LexMode := labels LexMode.step mode bytes

theorem lex_cons (mode : LexMode) (b : UInt8) (rest : List UInt8) : lex mode (b :: rest) =
    ((mode.step b rest.head?).1 :: (lex (mode.step b rest.head?).2 rest).1, (lex (mode.step b rest.head?).2 rest).2) := rfl

/-! ## One span -/

/-- The first bytes have one kind, and the lexer goes on behind them at the start of a line or a span. -/
structure Cut (mode : LexMode) (bytes : List UInt8) (length : Nat) (kind : SpanKind) (inBlockComment : Bool) : Prop where
  within : length ≤ bytes.length
  kinds : (lex mode bytes).1 = List.replicate length kind ++ (lex (.carried inBlockComment) (bytes.drop length)).1
  flag : (lex mode bytes).2.inBlock = (lex (.carried inBlockComment) (bytes.drop length)).2.inBlock

namespace Cut

theorem whole {mode : LexMode} {bytes : List UInt8} {kind : SpanKind} {inBlockComment : Bool}
    (kinds : (lex mode bytes).1 = List.replicate bytes.length kind) (flag : (lex mode bytes).2.inBlock = inBlockComment) :
    Cut mode bytes bytes.length kind inBlockComment where
  within := Nat.le_refl _
  kinds := by rw [kinds, List.drop_length]; exact (List.append_nil _).symm
  flag := by
    rw [flag, List.drop_length]
    cases inBlockComment <;> rfl

theorem cons {mode next : LexMode} {b : UInt8} {bytes : List UInt8} {length : Nat} {kind : SpanKind} {inBlockComment : Bool}
    (first : mode.step b bytes.head? = (kind, next)) (rest : Cut next bytes length kind inBlockComment) :
    Cut mode (b :: bytes) (length + 1) kind inBlockComment where
  within := Nat.succ_le_succ rest.within
  kinds := by rw [lex_cons, first, rest.kinds, List.replicate_succ, List.drop_succ_cons, List.cons_append]
  flag := by rw [lex_cons, first, rest.flag, List.drop_succ_cons]

/-- A span of one byte. -/
theorem single {mode : LexMode} {b : UInt8} {bytes : List UInt8} {kind : SpanKind} {inBlockComment : Bool}
    (first : mode.step b bytes.head? = (kind, .carried inBlockComment)) : Cut mode (b :: bytes) 1 kind inBlockComment where
  within := by simp
  kinds := by rw [lex_cons, first]; rfl
  flag := by rw [lex_cons, first]; rfl

end Cut

variable {bytes : List UInt8}

theorem cut_lineComment (unbroken : newline ∉ bytes) : Cut .lineComment bytes bytes.length .lineComment false := by
  have all : lex .lineComment bytes = (List.replicate bytes.length .lineComment, .lineComment) := by
    induction bytes with
    | nil => rfl
    | cons b rest ih =>
        obtain ⟨here, later⟩ := not_or.mp (mt List.mem_cons.mpr unbroken)
        have first : LexMode.step .lineComment b rest.head? = (.lineComment, .lineComment) := if_neg (Ne.symm here)
        rw [lex_cons, first, ih later, List.length_cons, List.replicate_succ]
  exact Cut.whole (by rw [all]) (by rw [all]; rfl)

theorem Quote.unbroken (quote : Quote) : quote.val ≠ newline := by
  obtain ⟨b, rfl | rfl⟩ := quote <;> decide

theorem step_content {quote : Quote} {b : UInt8} (unbroken : b ≠ newline) (content : b ≠ quote.val) (ahead : Option UInt8) :
    LexMode.step (.string quote) b ahead = (.string, .string quote) := by
  rw [LexMode.step, if_neg unbroken, if_neg content]

theorem step_quote {quote : Quote} {ahead : Option UInt8} (alone : ahead ≠ some quote.val) :
    LexMode.step (.string quote) quote.val ahead = (.string, .carried false) := by
  rw [LexMode.step, if_neg quote.unbroken, if_pos rfl, if_neg alone]
  rfl

theorem step_doubled (quote : Quote) : LexMode.step (.string quote) quote.val (some quote.val) = (.string, .doubled quote) := by
  rw [LexMode.step, if_neg quote.unbroken, if_pos rfl, if_pos rfl]

theorem cut_string (quote : Quote) (unbroken : newline ∉ bytes) :
    Cut (.string quote) bytes (quotedLength quote.val bytes) .string false := by
  fun_induction quotedLength quote.val bytes with
  | case1 => exact ⟨Nat.le_refl 0, rfl, rfl⟩
  | case2 b =>
      have here : b ≠ newline := fun same => unbroken (same ▸ List.mem_cons_self)
      by_cases closes : b = quote.val
      · exact Cut.single (closes ▸ step_quote (by simp))
      · exact Cut.cons (step_content here closes _) ⟨Nat.le_refl 0, rfl, rfl⟩
  | case3 rest ih =>
      have later : newline ∉ rest := fun member => unbroken (List.mem_cons_of_mem _ (List.mem_cons_of_mem _ member))
      exact Cut.cons (step_doubled quote) (Cut.cons rfl (ih later))
  | case4 c rest alone => exact Cut.single (step_quote (by simpa using alone))
  | case5 b c rest content ih =>
      have here : b ≠ newline := fun same => unbroken (same ▸ List.mem_cons_self)
      exact Cut.cons (step_content here content _) (ih fun member => unbroken (List.mem_cons_of_mem _ member))

/-- A block comment up to its end. -/
theorem cut_closed {length : Nat} (closes : closing bytes = some length) : Cut .blockComment bytes length .blockComment false := by
  induction bytes generalizing length with
  | nil => cases closes
  | cons b rest ih =>
      rw [closing] at closes
      split at closes
      next here =>
        cases closes
        cases rest with
        | nil => cases here.2
        | cons c rest =>
            have first : LexMode.step .blockComment b (some c) = (.blockComment, .blockClosing) := if_pos here
            exact Cut.cons first (Cut.single rfl)
      next elsewhere =>
        obtain ⟨length, later, rfl⟩ := Option.map_eq_some_iff.mp closes
        have first : LexMode.step .blockComment b rest.head? = (.blockComment, .blockComment) := if_neg elsewhere
        exact Cut.cons first (ih later)

theorem cut_open (never : closing bytes = none) : Cut .blockComment bytes bytes.length .blockComment true := by
  have all : lex .blockComment bytes = (List.replicate bytes.length .blockComment, .blockComment) := by
    induction bytes with
    | nil => rfl
    | cons b rest ih =>
        rw [closing] at never
        split at never
        next => cases never
        next elsewhere =>
          have first : LexMode.step .blockComment b rest.head? = (.blockComment, .blockComment) := if_neg elsewhere
          rw [lex_cons, first, ih (Option.map_eq_none_iff.mp never), List.length_cons, List.replicate_succ]
  exact Cut.whole (by rw [all]) (by rw [all]; rfl)

theorem step_code {b : UInt8} {ahead : Option UInt8} (plain : breaksCode b ahead = false) :
    LexMode.step .code b ahead = (.code, .code) := by
  simp only [breaksCode, Bool.or_eq_false_iff, decide_eq_false_iff_not, Bool.and_eq_false_iff] at plain
  obtain ⟨⟨single, double⟩, comment⟩ := plain
  rw [LexMode.step, if_neg, if_neg, dif_neg]
  · exact not_or.mpr ⟨single, double⟩
  · rintro ⟨is, ahead⟩
    rcases comment with other | none
    · exact other is
    · exact none.2 ahead
  · rintro ⟨is, ahead⟩
    rcases comment with other | none
    · exact other is
    · exact none.1 ahead

theorem cut_code (bytes : List UInt8) : Cut .code bytes (codeLength bytes) .code false := by
  induction bytes with
  | nil => exact ⟨Nat.le_refl 0, rfl, rfl⟩
  | cons b rest ih =>
      rw [codeLength]
      split
      next => exact ⟨Nat.zero_le _, rfl, rfl⟩
      next plain => exact Cut.cons (step_code (by simpa using plain)) ih

/-! ## Characters -/

/-- Where a character of the line starts, or the end. -/
def Boundary (line : List Char) (offset : Nat) : Prop := ∃ index ≤ line.length, offset = byteStart line index

theorem length_asBytes (line : List Char) : (asBytes line).length = Rope.lenBytes line := by
  induction line with
  | nil => rfl
  | cons c rest ih =>
      have size : (asBytes (c :: rest)).length = c.utf8Size + (asBytes rest).length := by
        rw [asBytes, List.flatMap_cons, List.length_append, String.length_utf8EncodeChar]
        rfl
      rw [size, ih]
      rfl

theorem utf8EncodeChar_ascii {c : Char} {b : UInt8} (member : b ∈ String.utf8EncodeChar c) (ascii : b < 128) :
    String.utf8EncodeChar c = [b] := by
  unfold String.utf8EncodeChar at member ⊢
  have value (n : Nat) : (UInt8.ofNat n).toNat = n % 256 := UInt8.toNat_ofNat'
  rw [UInt8.lt_iff_toNat_lt] at ascii
  dsimp only at member ⊢
  split at member
  next small =>
    rw [if_pos small, List.mem_singleton.mp member]
  next =>
    exfalso
    split at member
    · simp only [List.mem_cons, List.not_mem_nil, or_false] at member
      rcases member with rfl | rfl
      all_goals
        rw [value] at ascii
        have bound : (128 : UInt8).toNat = 128 := rfl
        omega
    split at member
    · simp only [List.mem_cons, List.not_mem_nil, or_false] at member
      rcases member with rfl | rfl | rfl
      all_goals
        rw [value] at ascii
        have bound : (128 : UInt8).toNat = 128 := rfl
        omega
    · simp only [List.mem_cons, List.not_mem_nil, or_false] at member
      rcases member with rfl | rfl | rfl | rfl
      all_goals
        rw [value] at ascii
        have bound : (128 : UInt8).toNat = 128 := rfl
        omega

theorem Boundary.cons {line : List Char} {offset : Nat} (boundary : Boundary line offset) (c : Char) :
    Boundary (c :: line) (c.utf8Size + offset) := by
  obtain ⟨index, within, rfl⟩ := boundary
  exact ⟨index + 1, Nat.succ_le_succ within, (startOf_cons ..).symm⟩

theorem Boundary.length (line : List Char) : Boundary line (asBytes line).length :=
  ⟨line.length, Nat.le_refl _, by rw [length_asBytes, byteStart, startOf_length]; rfl⟩

/-- A byte of the basic range is a character. -/
theorem boundary_ascii {line : List Char} {front rest : List UInt8} {b : UInt8} (is : asBytes line = front ++ b :: rest)
    (ascii : b < 128) : Boundary line front.length ∧ Boundary line (front.length + 1) := by
  induction line generalizing front with
  | nil => simp [asBytes] at is
  | cons c cs ih =>
      have shifted {later : List UInt8} (inside : asBytes cs = later ++ b :: rest) :
          Boundary (c :: cs) ((String.utf8EncodeChar c ++ later).length) ∧
            Boundary (c :: cs) ((String.utf8EncodeChar c ++ later).length + 1) := by
        obtain ⟨start, stop⟩ := ih inside
        rw [List.length_append, String.length_utf8EncodeChar, Nat.add_assoc]
        exact ⟨start.cons c, stop.cons c⟩
      have parts : String.utf8EncodeChar c ++ asBytes cs = front ++ b :: rest := is
      rcases List.append_eq_append_iff.mp parts with ⟨later, rfl, inside⟩ | ⟨later, encoded, inside⟩
      · exact shifted inside
      · cases later with
        | nil =>
            rw [List.append_nil] at encoded
            have moved := @shifted [] inside.symm
            rwa [List.append_nil, encoded] at moved
        | cons d later =>
            obtain ⟨rfl, -⟩ := List.cons.inj inside
            have alone := utf8EncodeChar_ascii (encoded ▸ List.mem_append_right _ List.mem_cons_self) ascii
            have size : c.utf8Size = 1 := by rw [← String.length_utf8EncodeChar, alone]; rfl
            have none : front = [] := by
              rw [alone] at encoded
              cases front with
              | nil => rfl
              | cons e front => simp at encoded
            rw [none]
            exact ⟨⟨0, Nat.zero_le _, by simp [byteStart]⟩, ⟨1, by simp, by simp [byteStart, size]⟩⟩

/-- The length leads to the end, or before or behind a byte of the basic range. -/
def EndsAt (bytes : List UInt8) (length : Nat) : Prop :=
  length = bytes.length ∨ (∃ b < 128, bytes[length]? = some b) ∨ ∃ before b, length = before + 1 ∧ b < 128 ∧ bytes[before]? = some b

theorem EndsAt.cons {length : Nat} (ends : EndsAt bytes length) (b : UInt8) : EndsAt (b :: bytes) (length + 1) := by
  rcases ends with rfl | ⟨c, ascii, there⟩ | ⟨before, c, rfl, ascii, there⟩
  · exact .inl rfl
  · exact .inr (.inl ⟨c, ascii, there⟩)
  · exact .inr (.inr ⟨before + 1, c, rfl, ascii, there⟩)

theorem EndsAt.le {length : Nat} (ends : EndsAt bytes length) : length ≤ bytes.length := by
  rcases ends with rfl | ⟨b, _, there⟩ | ⟨before, b, rfl, _, there⟩
  · exact Nat.le_refl _
  · exact Nat.le_of_lt (List.getElem?_eq_some_iff.mp there).1
  · exact (List.getElem?_eq_some_iff.mp there).1

theorem ends_quoted {quote : UInt8} (ascii : quote < 128) (bytes : List UInt8) : EndsAt bytes (quotedLength quote bytes) := by
  fun_induction quotedLength quote bytes with
  | case1 => exact .inl rfl
  | case2 b => exact .inl rfl
  | case3 rest ih => exact (ih.cons _).cons _
  | case4 c rest alone => exact .inr (.inr ⟨0, quote, rfl, ascii, rfl⟩)
  | case5 b c rest content ih => exact ih.cons b

theorem ends_closing {length : Nat} (closes : closing bytes = some length) : EndsAt bytes length := by
  induction bytes generalizing length with
  | nil => cases closes
  | cons b rest ih =>
      rw [closing] at closes
      split at closes
      next here =>
        cases closes
        cases rest with
        | nil => cases here.2
        | cons c rest => exact .inr (.inr ⟨1, c, rfl, by rw [Option.some.inj here.2]; decide, rfl⟩)
      next =>
        obtain ⟨length, later, rfl⟩ := Option.map_eq_some_iff.mp closes
        exact (ih later).cons b

theorem breaksCode_ascii {b : UInt8} {ahead : Option UInt8} (breaks : breaksCode b ahead = true) : b < 128 := by
  simp only [breaksCode, Bool.or_eq_true, decide_eq_true_eq, Bool.and_eq_true] at breaks
  rcases breaks with (rfl | rfl) | ⟨rfl, -⟩ <;> decide

theorem ends_code (bytes : List UInt8) : EndsAt bytes (codeLength bytes) := by
  induction bytes with
  | nil => exact .inl rfl
  | cons b rest ih =>
      rw [codeLength]
      split
      next breaks => exact .inr (.inl ⟨b, breaksCode_ascii breaks, rfl⟩)
      next => exact ih.cons b

theorem Boundary.ends {line : List Char} {offset length : Nat} (within : offset + length ≤ (asBytes line).length)
    (ends : EndsAt ((asBytes line).drop offset) length) : Boundary line (offset + length) := by
  rcases ends with all | ⟨b, ascii, there⟩ | ⟨before, b, rfl, ascii, there⟩
  · rw [List.length_drop] at all
    have stop : offset + length = (asBytes line).length := by omega
    rw [stop]
    exact Boundary.length line
  · rw [List.getElem?_drop] at there
    obtain ⟨inside, is⟩ := List.getElem?_eq_some_iff.mp there
    have split : asBytes line = (asBytes line).take (offset + length) ++ b :: (asBytes line).drop (offset + length + 1) := by
      rw [← is, List.getElem_cons_drop, List.take_append_drop]
    have start := (boundary_ascii split ascii).1
    rwa [List.length_take, Nat.min_eq_left within] at start
  · rw [List.getElem?_drop] at there
    obtain ⟨inside, is⟩ := List.getElem?_eq_some_iff.mp there
    have split : asBytes line = (asBytes line).take (offset + before) ++ b :: (asBytes line).drop (offset + before + 1) := by
      rw [← is, List.getElem_cons_drop, List.take_append_drop]
    have stop := (boundary_ascii split ascii).2
    rwa [List.length_take, Nat.min_eq_left (by omega)] at stop

/-! ## One step of the scanner -/

theorem closing_pos {length : Nat} (closes : closing bytes = some length) : 0 < length := by
  cases bytes with
  | nil => cases closes
  | cons b rest =>
      rw [closing] at closes
      split at closes
      · cases closes
        decide
      · obtain ⟨length, -, rfl⟩ := Option.map_eq_some_iff.mp closes
        exact Nat.succ_pos length

/-- What one step gives: the next bytes as a span, cut as the lexer cuts them. -/
structure Piece (s : LineScanner) (span : Span) (s' : LineScanner) (length : Nat) : Prop where
  positive : 0 < length
  line : s'.line = s.line
  offset : s'.offset = s.offset + length
  start : span.start = s.offset
  text : span.text = (s.line.drop s.offset).take length
  ends : EndsAt (s.line.drop s.offset) length
  cut : newline ∉ s.line.drop s.offset →
    Cut (.carried s.inBlockComment) (s.line.drop s.offset) length span.kind s'.inBlockComment

theorem slice_eq (s : LineScanner) (start length : Nat) : s.slice start (start + length) = (s.line.drop start).take length := by
  rw [LineScanner.slice, List.drop_take, Nat.add_sub_cancel_left]

/-- A block comment whose first bytes are known. -/
theorem piece_block {s opened : LineScanner} {front : List UInt8} (line : opened.line = s.line)
    (opening : ∃ rest, s.line.drop s.offset = front ++ rest) (nonempty : s.line.drop s.offset ≠ [])
    (cut : ∀ {rest length inBlockComment}, Cut .blockComment rest length .blockComment inBlockComment →
      Cut (.carried s.inBlockComment) (front ++ rest) (front.length + length) .blockComment inBlockComment)
    (ends : ∀ {rest length}, EndsAt rest length → EndsAt (front ++ rest) (front.length + length)) :
    ∃ length, Piece s (opened.blockComment s.offset (s.offset + front.length)).1
      (opened.blockComment s.offset (s.offset + front.length)).2 length := by
  obtain ⟨rest, split⟩ := opening
  have behind : s.line.drop (s.offset + front.length) = rest := by
    rw [← List.drop_drop, split, List.drop_left]
  unfold LineScanner.blockComment
  rw [line, behind]
  cases closes : closing rest with
  | some length =>
      have positive := closing_pos closes
      refine ⟨front.length + length, by omega, rfl, Nat.add_assoc .., rfl, ?_, ?_, fun _ => ?_⟩
      · dsimp only
        rw [Nat.add_assoc, slice_eq, line]
      · rw [split]
        exact ends (ends_closing closes)
      · rw [split]
        exact cut (cut_closed closes)
  | none =>
      have count := congrArg List.length split
      have some_ := List.length_pos_iff.mpr nonempty
      rw [List.length_append, List.length_drop] at count
      rw [List.length_drop] at some_
      refine ⟨front.length + rest.length, by omega, rfl, ?_, rfl, ?_, ?_, fun _ => ?_⟩
      · dsimp only
        omega
      · dsimp only
        rw [split, ← List.length_append, List.take_length]
      · rw [split]
        exact ends (.inl rfl)
      · rw [split]
        exact cut (cut_open closes)

theorem next_none {s : LineScanner} (past : s.line.length ≤ s.offset) : s.next = none := by
  rw [LineScanner.next, List.drop_eq_nil_of_le past]

theorem next_some {s : LineScanner} (more : s.offset < s.line.length) : ∃ found, s.next = some found := by
  obtain ⟨b, rest, is⟩ := List.exists_cons_of_length_pos (by rw [List.length_drop]; omega : 0 < (s.line.drop s.offset).length)
  rw [LineScanner.next, is]
  dsimp only
  split
  · exact ⟨_, rfl⟩
  split
  · exact ⟨_, rfl⟩
  split
  · exact ⟨_, rfl⟩
  split
  · exact ⟨_, rfl⟩
  · exact ⟨_, rfl⟩

theorem next_piece {s s' : LineScanner} {span : Span} (found : s.next = some (span, s')) : ∃ length, Piece s span s' length := by
  unfold LineScanner.next at found
  dsimp only at found
  split at found
  next => cases found
  next b rest is =>
    have nonempty : s.line.drop s.offset ≠ [] := by rw [is]; exact List.cons_ne_nil b rest
    have whole : (s.line.drop s.offset).length = rest.length + 1 := by rw [is, List.length_cons]
    rw [List.length_drop] at whole
    split at found
    next inBlock =>
      have mode : LexMode.carried s.inBlockComment = .blockComment := by rw [inBlock]; rfl
      have piece := @piece_block s s [] rfl ⟨_, rfl⟩ nonempty
        (fun cut => by rw [mode, List.nil_append, List.length_nil, Nat.zero_add]; exact cut)
        (fun ends => by rw [List.nil_append, List.length_nil, Nat.zero_add]; exact ends)
      rw [List.length_nil, Nat.add_zero, Option.some.inj found] at piece
      exact piece
    next outside =>
    have mode : LexMode.carried s.inBlockComment = .code := by
      rw [Bool.eq_false_iff.mpr outside]
      rfl
    split at found
    next quote =>
      cases found
      have ascii : b < 128 := by rcases quote with rfl | rfl <;> decide
      have noSlash : b ≠ slash := by rcases quote with rfl | rfl <;> decide
      refine ⟨quotedLength b rest + 1, Nat.succ_pos _, rfl, by dsimp only; omega, rfl, ?_, ?_, fun unbroken => ?_⟩
      · dsimp only
        rw [Nat.add_assoc, slice_eq, Nat.add_comm 1]
      · rw [is]
        exact (ends_quoted ascii rest).cons b
      · have first : LexMode.step .code b rest.head? = (.string, .string ⟨b, quote⟩) := by
          rw [LexMode.step, if_neg (fun both => noSlash both.1), if_neg (fun both => noSlash both.1), dif_pos quote]
        rw [is] at unbroken ⊢
        rw [mode, Bool.eq_false_iff.mpr outside]
        exact Cut.cons first (cut_string ⟨b, quote⟩ fun member => unbroken (List.mem_cons_of_mem _ member))
    next noQuote =>
    split at found
    next comment =>
      cases found
      refine ⟨rest.length + 1, Nat.succ_pos _, rfl, by dsimp only; omega, rfl, ?_, ?_, fun unbroken => ?_⟩
      · dsimp only
        rw [is, ← List.length_cons, List.take_length]
      · rw [is]
        exact .inl rfl
      · have first : LexMode.step .code b rest.head? = (.lineComment, .lineComment) := if_pos comment
        rw [is] at unbroken ⊢
        rw [mode, Bool.eq_false_iff.mpr outside]
        exact Cut.cons first (cut_lineComment fun member => unbroken (List.mem_cons_of_mem _ member))
    next noLineComment =>
    split at found
    next comment =>
      obtain ⟨rfl, ahead⟩ := comment
      obtain ⟨later, rfl⟩ : ∃ later, rest = star :: later := by
        cases rest with
        | nil => cases ahead
        | cons c later => exact ⟨later, by rw [Option.some.inj ahead]⟩
      have first : LexMode.step .code slash (some star) = (.blockComment, .blockOpening) := by decide
      have piece := @piece_block s { s with inBlockComment := true } [slash, star] rfl ⟨later, is⟩ nonempty
        (fun cut => by rw [mode, Nat.add_comm]; exact Cut.cons first (Cut.cons rfl cut))
        (fun ends => by rw [Nat.add_comm]; exact (ends.cons star).cons slash)
      have opened : ({ s with inBlockComment := true } : LineScanner).blockComment s.offset (s.offset + [slash, star].length) =
          (span, s') := Option.some.inj found
      rw [opened] at piece
      exact piece
    next noBlockComment =>
      cases found
      have plain : breaksCode b rest.head? = false := by
        obtain ⟨single, double⟩ := not_or.mp noQuote
        simp only [breaksCode, single, double, Bool.or_eq_false_iff, decide_eq_false_iff_not, not_false_eq_true, true_and,
          Bool.and_eq_false_iff]
        by_cases slashed : b = slash
        · exact .inr ⟨fun ahead => noLineComment ⟨slashed, ahead⟩, fun ahead => noBlockComment ⟨slashed, ahead⟩⟩
        · exact .inl slashed
      refine ⟨codeLength rest + 1, Nat.succ_pos _, rfl, by dsimp only; omega, rfl, ?_, ?_, fun _ => ?_⟩
      · dsimp only
        rw [Nat.add_assoc, slice_eq, Nat.add_comm 1]
      · rw [is]
        exact (ends_code rest).cons b
      · rw [is, mode, Bool.eq_false_iff.mpr outside]
        exact Cut.cons (step_code plain) (cut_code rest)

/-! ## All spans -/

/-- Each span starts where the one before it ends. -/
def Contiguous : (start : Nat) → List Span → (stop : Nat) → Prop
  | start, [], stop => start = stop
  | start, span :: later, stop => span.start = start ∧ Contiguous (start + span.text.length) later stop

/-- The kind of every byte that the spans cover. -/
def spanKinds (spans : List Span) : List SpanKind := spans.flatMap fun span => List.replicate span.text.length span.kind

/-- The spans are all that the scanner gives, and they cut the rest of the line from the offset on into the kinds of the lexer. -/
structure Cuts (line : List Char) (s : LineScanner) (spans : List Span) (last : LineScanner) : Prop where
  finished : last.next = none
  nonempty : ∀ span ∈ spans, span.text ≠ []
  contiguous : Contiguous s.offset spans (asBytes line).length
  text : spans.flatMap Span.text = (asBytes line).drop s.offset
  boundaries : ∀ span ∈ spans, Boundary line span.start ∧ Boundary line (span.start + span.text.length)
  kinds : newline ∉ (asBytes line).drop s.offset →
    spanKinds spans = (lex (.carried s.inBlockComment) ((asBytes line).drop s.offset)).1
  flag : newline ∉ (asBytes line).drop s.offset →
    last.inBlockComment = (lex (.carried s.inBlockComment) ((asBytes line).drop s.offset)).2.inBlock

theorem cuts_nil {line : List Char} {s : LineScanner} (bytes : s.line = asBytes line) (within : s.offset ≤ s.line.length)
    (past : s.line.length ≤ s.offset) : Cuts line s [] s := by
  have nothing : (asBytes line).drop s.offset = [] := List.drop_eq_nil_of_le (bytes ▸ past)
  refine ⟨next_none past, by simp, ?_, ?_, by simp, fun _ => ?_, fun _ => ?_⟩
  · rw [← bytes]
    exact Nat.le_antisymm within past
  · rw [nothing]
    rfl
  · rw [nothing]
    rfl
  · rw [nothing]
    cases s.inBlockComment <;> rfl

theorem cuts_spans {line : List Char} {fuel : Nat} {s : LineScanner} (bytes : s.line = asBytes line) (start : Boundary line s.offset)
    (within : s.offset ≤ s.line.length) (enough : s.line.length ≤ s.offset + fuel) :
    Cuts line s (s.spansWithin fuel).1 (s.spansWithin fuel).2 := by
  induction fuel generalizing s with
  | zero => exact cuts_nil bytes within (by omega)
  | succ fuel ih =>
      rw [LineScanner.spansWithin]
      cases found : s.next with
      | none =>
          apply cuts_nil bytes within
          by_contra more
          obtain ⟨result, is⟩ := next_some (Nat.not_le.mp more)
          rw [found] at is
          cases is
      | some result =>
          obtain ⟨span, s'⟩ := result
          obtain ⟨length, piece⟩ := next_piece found
          have split : (asBytes line).drop s.offset = span.text ++ (asBytes line).drop s'.offset := by
            rw [piece.text, piece.offset, bytes, ← List.drop_drop, List.take_append_drop]
          have size : span.text.length = length := by
            rw [piece.text, List.length_take, Nat.min_eq_left piece.ends.le]
          have positive := piece.positive
          have offset := piece.offset
          have fits := piece.ends.le
          have length_eq := piece.line
          rw [List.length_drop] at fits
          have stop : Boundary line (s.offset + length) := Boundary.ends (by rw [← bytes]; omega) (bytes ▸ piece.ends)
          have later := ih (by rw [length_eq, bytes]) (by rw [offset]; exact stop) (by rw [length_eq]; omega) (by rw [length_eq]; omega)
          have unbroken (none : newline ∉ (asBytes line).drop s.offset) : newline ∉ (asBytes line).drop s'.offset := by
            intro member
            rw [split] at none
            exact none (List.mem_append_right _ member)
          have behind : ((asBytes line).drop s.offset).drop length = (asBytes line).drop s'.offset := by
            rw [List.drop_drop, ← offset]
          have cut := piece.cut
          rw [bytes] at cut
          constructor
          · exact later.finished
          · intro other member
            rcases List.mem_cons.mp member with rfl | inside
            · exact List.ne_nil_of_length_pos (size ▸ positive)
            · exact later.nonempty other inside
          · refine ⟨piece.start, ?_⟩
            rw [size, ← offset]
            exact later.contiguous
          · rw [List.flatMap_cons, later.text, split]
          · intro other member
            rcases List.mem_cons.mp member with rfl | inside
            · rw [piece.start, size]
              exact ⟨start, stop⟩
            · exact later.boundaries other inside
          · intro none
            rw [(cut none).kinds, behind, ← later.kinds (unbroken none), ← size]
            rfl
          · intro none
            rw [(cut none).flag, behind, ← later.flag (unbroken none)]

/-! ## Lines and files -/

theorem newline_notMem {line : List Char} (unbroken : '\n' ∉ line) : newline ∉ asBytes line := by
  intro member
  obtain ⟨c, inside, encoded⟩ := List.mem_flatMap.mp member
  have single := utf8EncodeChar_ascii encoded (by decide)
  unfold String.utf8EncodeChar at single
  dsimp only at single
  split at single
  next small =>
    have value := congrArg UInt8.toNat (List.cons.inj single).1
    rw [UInt8.toNat_ofNat'] at value
    have ten : newline.toNat = 10 := rfl
    have is : c = '\n' := Char.ext (UInt32.toNat_inj.mp (by
      change c.val.toNat = 10
      omega))
    exact unbroken (is ▸ inside)
  next =>
    split at single
    · cases (List.cons.inj single).2
    split at single
    · cases (List.cons.inj single).2
    · cases (List.cons.inj single).2

/-- A terminator is nothing that a byte before it looks for. -/
theorem blind {border : UInt8} (terminator : border = newline ∨ border = carriageReturn) (mode : LexMode) (b : UInt8) :
    mode.step b (some border) = mode.step b none := by
  have other {c : UInt8} (printed : c ≠ newline ∧ c ≠ carriageReturn) : some border ≠ some c := by
    intro same
    rcases terminator with rfl | rfl
    · exact printed.1 (Option.some.inj same).symm
    · exact printed.2 (Option.some.inj same).symm
  have noSlash : some border ≠ some slash := other (by decide)
  have noStar : some border ≠ some star := other (by decide)
  cases mode with
  | code => simp [LexMode.step, noSlash, noStar]
  | string quote =>
      have noQuote : some border ≠ some quote.val := other (by obtain ⟨c, rfl | rfl⟩ := quote <;> decide)
      simp [LexMode.step, noQuote]
  | doubled quote => rfl
  | lineComment => rfl
  | blockOpening => rfl
  | blockComment => simp [LexMode.step, noSlash]
  | blockClosing => rfl

theorem settles (mode : LexMode) (b : UInt8) (ahead : Option UInt8) : (mode.step b ahead).2.Settled ∨ ahead.isSome := by
  cases ahead with
  | some next => exact .inr rfl
  | none =>
      left
      cases mode <;> simp only [LexMode.step] <;> repeat' split
      all_goals first | trivial | simp_all

theorem step_newline {mode : LexMode} (settled : mode.Settled) (ahead : Option UInt8) :
    (mode.step newline ahead).2 = .carried mode.inBlock := by
  cases mode with
  | code => rfl
  | string quote => rfl
  | lineComment => rfl
  | blockComment => rfl
  | doubled quote => exact settled.elim
  | blockOpening => exact settled.elim
  | blockClosing => exact settled.elim

theorem step_carriageReturn {mode : LexMode} (settled : mode.Settled) (ahead : Option UInt8) :
    (mode.step carriageReturn ahead).2 = mode := by
  cases mode with
  | code => rfl
  | string quote =>
      obtain ⟨c, rfl | rfl⟩ := quote
      · rfl
      · rfl
  | lineComment => rfl
  | blockComment => rfl
  | doubled quote => exact settled.elim
  | blockOpening => exact settled.elim
  | blockClosing => exact settled.elim

/-- Behind a terminator the lexer starts a line. -/
theorem lex_terminator {mode : LexMode} (settled : mode.Settled) (line rest : List UInt8) {terminator : List UInt8}
    (ends : terminator = [newline] ∨ terminator = [carriageReturn, newline]) :
    ∃ between : List SpanKind, between.length = terminator.length ∧ lex mode (line ++ (terminator ++ rest)) =
      ((lex mode line).1 ++ (between ++ (lex (.carried (lex mode line).2.inBlock) rest).1),
        (lex (.carried (lex mode line).2.inBlock) rest).2) := by
  have last : (lex mode line).2.Settled := labels_settled settles (.inl settled)
  rcases ends with rfl | rfl
  · refine ⟨[((lex mode line).2.step newline rest.head?).1], rfl, ?_⟩
    rw [List.singleton_append, ← step_newline last rest.head?]
    exact labels_append (blind (.inl rfl)) mode line rest
  · refine ⟨[((lex mode line).2.step carriageReturn (some newline)).1, ((lex mode line).2.step newline rest.head?).1], rfl, ?_⟩
    have ahead := labels_append (blind (.inr rfl)) mode line (newline :: rest)
    rw [labels_cons, labels_cons] at ahead
    dsimp only [List.head?_cons] at ahead
    rw [show labels LexMode.step mode line = lex mode line from rfl, step_carriageReturn last, step_newline last] at ahead
    exact ahead

/-! ## Whole files -/

/-- Lines with their terminators. Only the last one may have none. -/
def AreLines : List (List Char × List Char) → Prop
  | [] => True
  | (line, terminator) :: later =>
      '\n' ∉ line ∧ (terminator = ['\n'] ∨ terminator = ['\r', '\n'] ∨ terminator = [] ∧ later = []) ∧ AreLines later

def joined (lines : List (List Char × List Char)) : List Char := lines.flatMap fun (line, terminator) => line ++ terminator

theorem fileLines_spec (text : List Char) : AreLines (fileLines text) ∧ joined (fileLines text) = text := by
  fun_induction fileLines text with
  | case1 => exact ⟨trivial, rfl⟩
  | case2 rest ih => exact ⟨⟨by simp, .inl rfl, ih.1⟩, congrArg ('\n' :: ·) ih.2⟩
  | case3 rest ih => exact ⟨⟨by simp, .inr (.inl rfl), ih.1⟩, congrArg ('\r' :: '\n' :: ·) ih.2⟩
  | case4 c rest feed both none ih =>
      have empty : rest = [] := by
        rw [← ih.2, none]
        rfl
      rw [empty]
      exact ⟨⟨by simpa using fun same => feed same.symm, .inr (.inr ⟨rfl, rfl⟩), trivial⟩, rfl⟩
  | case5 c rest feed both line terminator later is ih =>
      rw [is] at ih
      obtain ⟨⟨unbroken, ends, areLines⟩, whole⟩ := ih
      refine ⟨⟨?_, ends, areLines⟩, congrArg (c :: ·) whole⟩
      rw [List.mem_cons, not_or]
      exact ⟨fun same => feed same.symm, unbroken⟩

/-- The kinds of a whole text that belong to its lines. -/
def cutKinds : List (List Char × List Char) → List SpanKind → List (List SpanKind)
  | [], _ => []
  | (line, terminator) :: later, kinds =>
      kinds.take (asBytes line).length :: cutKinds later (kinds.drop (asBytes (line ++ terminator)).length)

theorem asBytes_append (first second : List Char) : asBytes (first ++ second) = asBytes first ++ asBytes second := List.flatMap_append

theorem scanLine_cuts (line : List Char) (inBlockComment : Bool) :
    Cuts line (.new line inBlockComment) (scanLine line inBlockComment).1 (scanLine line inBlockComment).2 :=
  cuts_spans rfl ⟨0, Nat.zero_le _, by simp [byteStart, LineScanner.new]⟩ (Nat.zero_le _) (Nat.le_add_left ..)

theorem scanLines_lex (lines : List (List Char × List Char)) (areLines : AreLines lines) (inBlockComment : Bool) :
    scanLines inBlockComment (lines.map Prod.fst) =
      (cutKinds lines (lex (.carried inBlockComment) (asBytes (joined lines))).1,
        (lex (.carried inBlockComment) (asBytes (joined lines))).2.inBlock) := by
  induction lines generalizing inBlockComment with
  | nil =>
      cases inBlockComment <;> rfl
  | cons entry later ih =>
      obtain ⟨line, terminator⟩ := entry
      obtain ⟨unbroken, ends, laterLines⟩ := areLines
      have cuts := scanLine_cuts line inBlockComment
      have kinds : spanKinds (scanLine line inBlockComment).1 = (lex (.carried inBlockComment) (asBytes line)).1 :=
        cuts.kinds (newline_notMem unbroken)
      have flag : (scanLine line inBlockComment).2.endsInBlockComment = (lex (.carried inBlockComment) (asBytes line)).2.inBlock :=
        cuts.flag (newline_notMem unbroken)
      have size : (lex (.carried inBlockComment) (asBytes line)).1.length = (asBytes line).length := length_labels _ _
      have settled : (LexMode.carried inBlockComment).Settled := by cases inBlockComment <;> trivial
      have bytes : asBytes (joined ((line, terminator) :: later)) = asBytes line ++ (asBytes terminator ++ asBytes (joined later)) := by
        rw [← asBytes_append, ← asBytes_append, ← List.append_assoc]
        rfl
      rw [List.map_cons, scanLines, bytes, cutKinds, asBytes_append]
      dsimp only
      rw [ih laterLines, flag, List.length_append]
      change (spanKinds _ :: _, _) = _
      rw [kinds]
      have terminated (terminates : asBytes terminator = [newline] ∨ asBytes terminator = [carriageReturn, newline]) :
          ((lex (.carried inBlockComment) (asBytes line)).1 ::
              cutKinds later (lex (.carried (lex (.carried inBlockComment) (asBytes line)).2.inBlock) (asBytes (joined later))).1,
            (lex (.carried (lex (.carried inBlockComment) (asBytes line)).2.inBlock) (asBytes (joined later))).2.inBlock) =
          ((lex (.carried inBlockComment) (asBytes line ++ (asBytes terminator ++ asBytes (joined later)))).1.take (asBytes line).length ::
              cutKinds later ((lex (.carried inBlockComment) (asBytes line ++ (asBytes terminator ++ asBytes (joined later)))).1.drop
                ((asBytes line).length + (asBytes terminator).length)),
            (lex (.carried inBlockComment) (asBytes line ++ (asBytes terminator ++ asBytes (joined later)))).2.inBlock) := by
        obtain ⟨between, count, whole⟩ := lex_terminator settled (asBytes line) (asBytes (joined later)) terminates
        rw [whole, ← size, List.take_left, ← count, ← List.append_assoc, ← List.length_append, List.drop_left]
      rcases ends with rfl | rfl | ⟨rfl, rfl⟩
      · exact terminated (.inl (by decide))
      · exact terminated (.inr (by decide))
      · have none : asBytes (joined []) = [] := rfl
        have empty : asBytes [] = [] := rfl
        rw [none, empty, List.nil_append, List.append_nil, ← size, List.take_length]
        generalize (lex (.carried inBlockComment) (asBytes line)).2.inBlock = carried
        cases carried <;> rfl

/-- The spans cover the line, and their kinds and the flag behind them are those of the lexer. -/
structure Lossless (line : List Char) (inBlockComment : Bool) : Prop where
  cuts : Cuts line (.new line inBlockComment) (scanLine line inBlockComment).1 (scanLine line inBlockComment).2
  covers : (scanLine line inBlockComment).1.flatMap Span.text = asBytes line
  kinds : spanKinds (scanLine line inBlockComment).1 = (lex (.carried inBlockComment) (asBytes line)).1
  flag : (scanLine line inBlockComment).2.endsInBlockComment = (lex (.carried inBlockComment) (asBytes line)).2.inBlock

/-- The scanner cuts each line without loss into the kinds of the reference lexer, and line by line it gives every byte of a file
the kind that the lexer gives it in the whole text. -/
theorem scanner_lossless :
    (∀ line inBlockComment, '\n' ∉ line → Lossless line inBlockComment) ∧
      ∀ text inBlockComment, joined (fileLines text) = text ∧
        scanLines inBlockComment ((fileLines text).map Prod.fst) =
          (cutKinds (fileLines text) (lex (.carried inBlockComment) (asBytes text)).1,
            (lex (.carried inBlockComment) (asBytes text)).2.inBlock) := by
  constructor
  · intro line inBlockComment unbroken
    have cuts := scanLine_cuts line inBlockComment
    exact ⟨cuts, cuts.text, cuts.kinds (newline_notMem unbroken), cuts.flag (newline_notMem unbroken)⟩
  · intro text inBlockComment
    obtain ⟨areLines, whole⟩ := fileLines_spec text
    have scanned := scanLines_lex (fileLines text) areLines inBlockComment
    rw [whole] at scanned
    exact ⟨whole, scanned⟩

end AlLanguage.Syntax
