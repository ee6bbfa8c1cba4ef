import AlLanguage.Xliff.Escapes

/-!
# Reading a translation file back

The reader goes over a written file line by line. What it makes of each unit is a function of the unit alone.
-/

namespace AlLanguage.Xliff

open Library.Substrings

/-! ## Lines -/

def readText (st : ParseState) (content : Text) : ParseState := (textLines content).foldl ParseState.parseLine st

theorem parseXliff_eq (content : Text) : parseXliff content = (readText {} content).units := rfl

theorem textLines_cons {line : Text} (unbroken : '\n' ∉ line) (rest : Text) :
    textLines (line ++ '\n' :: rest) = stripReturn line :: textLines rest := by
  unfold textLines
  rw [List.splitOn_append_cons_self_of_not_mem unbroken]
  obtain ⟨part, more, split⟩ := List.exists_cons_of_ne_nil (List.splitOn_ne_nil '\n' rest)
  rw [split]
  rfl

theorem readText_cons {line : Text} (unbroken : '\n' ∉ line) (st : ParseState) (rest : Text) :
    readText st (line ++ '\n' :: rest) = readText (st.parseLine (stripReturn line)) rest := by
  rw [readText, textLines_cons unbroken, List.foldl_cons, readText]

theorem stripReturn_of_not_mem {line : Text} (missing : '\r' ∉ line) : stripReturn line = line := by
  rw [stripReturn, if_neg]
  intro last
  exact missing (List.mem_of_getLast? last)

/-- A text is one line, or its first line and the rest. -/
theorem exists_line (s : Text) : '\n' ∉ s ∨ ∃ line rest, '\n' ∉ line ∧ s = line ++ '\n' :: rest := by
  by_cases broken : '\n' ∈ s
  · obtain ⟨line, rest, same, unbroken⟩ := List.eq_append_cons_of_mem broken
    exact .inr ⟨line, rest, unbroken, same⟩
  · exact .inl broken

/-! ## Elements -/

/-- The body collected from the lines of a text, the first of which is trimmed at its end. -/
def collected (s : Text) : Text :=
  match s.splitOn '\n' with
  | [] => []
  | [line] => line
  | line :: rest => rest.foldl appendToAccumulator (trimEnd line)

variable {st : ParseState} {tag : Tag} {acc s : Text}

theorem collected_line (unbroken : '\n' ∉ s) : collected s = s := by
  rw [collected, List.splitOn_eq_singleton unbroken]

theorem collected_lines {line rest : Text} (unbroken : '\n' ∉ line) :
    collected (line ++ '\n' :: rest) = (rest.splitOn '\n').foldl appendToAccumulator (trimEnd line) := by
  rw [collected, List.splitOn_append_cons_self_of_not_mem unbroken]
  obtain ⟨part, more, split⟩ := List.exists_cons_of_ne_nil (List.splitOn_ne_nil '\n' rest)
  rw [split]

theorem closeMarker_eq (tag : Tag) :
    ∃ name : Text, tag.closeMarker = '<' :: name ∧ '\n' ∉ tag.closeMarker ∧ '\r' ∉ tag.closeMarker := by
  cases tag <;> exact ⟨_, rfl, by decide, by decide⟩

theorem closeMarker_last (tag : Tag) : ∃ name : Text, tag.closeMarker = name ++ ['>'] ∧ '"' ∉ tag.closeMarker :=
  ⟨"</".toList ++ tag.element.toList, by cases tag <;> rfl, by cases tag <;> decide⟩

theorem find_closeMarker (tag : Tag) (s : Text) : find tag.closeMarker (xmlEscape s ++ tag.closeMarker) = some (xmlEscape s).length := by
  obtain ⟨name, same, _⟩ := closeMarker_eq tag
  have found := find_headed name (open_not_mem_xmlEscape s) []
  rw [List.append_nil, ← same] at found
  exact found

theorem find_closeMarker_none (tag : Tag) (s : Text) : find tag.closeMarker (xmlEscape s) = none := by
  obtain ⟨name, same, _⟩ := closeMarker_eq tag
  exact find_eq_none (same ▸ List.mem_cons_self) (open_not_mem_xmlEscape s)

theorem continueElement_line (st : ParseState) (tag : Tag) (s : Text) :
    st.continueElement tag (xmlEscape s) = { st with multi := ⟨some tag, appendToAccumulator st.multi.accumulator s⟩ } := by
  rw [ParseState.continueElement, find_closeMarker_none]
  dsimp only
  rw [xmlUnescape_escape]

theorem continueElement_last (st : ParseState) (tag : Tag) (s : Text) :
    st.continueElement tag (xmlEscape s ++ tag.closeMarker) =
      { st.store tag (appendToAccumulator st.multi.accumulator s) with multi := {} } := by
  rw [ParseState.continueElement, find_closeMarker]
  dsimp only
  rw [List.take_left', xmlUnescape_escape]
  rfl

theorem parseLine_open (opened : st.multi.targetTag = some tag) (line : Text) : st.parseLine line = st.continueElement tag line := by
  rw [ParseState.parseLine, opened]

/-- The lines of a body behind its first one. -/
theorem readText_body (opened : st.multi = ⟨some tag, acc⟩) (noReturn : '\r' ∉ s) (rest : Text) :
    readText st (xmlEscape s ++ tag.closeMarker ++ '\n' :: rest) =
      readText { st.store tag ((s.splitOn '\n').foldl appendToAccumulator acc) with multi := {} } rest := by
  obtain ⟨_, _, closeFeed, closeReturn⟩ := closeMarker_eq tag
  induction length : s.length using Nat.strong_induction_on generalizing s acc st with
  | _ n shorter =>
      subst length
      rcases exists_line s with unbroken | ⟨line, more, unbroken, rfl⟩
      · have feed : '\n' ∉ xmlEscape s ++ tag.closeMarker := by
          simp [feed_not_mem_xmlEscape unbroken, closeFeed]
        have return_ : '\r' ∉ xmlEscape s ++ tag.closeMarker := by
          simp [return_not_mem_xmlEscape noReturn, closeReturn]
        rw [readText_cons feed, stripReturn_of_not_mem return_, parseLine_open (by rw [opened]), continueElement_last, opened,
          List.splitOn_eq_singleton unbroken]
        rfl
      · obtain ⟨lineReturn, moreReturn⟩ : '\r' ∉ line ∧ '\r' ∉ more := by
          simpa using noReturn
        have split : xmlEscape (line ++ '\n' :: more) ++ tag.closeMarker ++ '\n' :: rest =
            xmlEscape line ++ '\n' :: (xmlEscape more ++ tag.closeMarker ++ '\n' :: rest) := by
          rw [← List.singleton_append, xmlEscape_append, xmlEscape_append, xmlEscape_singleton, encode_plain (by decide)]
          simp
        rw [split, readText_cons (feed_not_mem_xmlEscape unbroken), stripReturn_of_not_mem (return_not_mem_xmlEscape lineReturn),
          parseLine_open (by rw [opened]), continueElement_line, opened,
          shorter more.length (by simp; omega) rfl moreReturn rfl, List.splitOn_append_cons_self_of_not_mem unbroken, List.foldl_cons]
        cases tag <;> rfl

theorem trim_indented {indent : Text} {c : Char} (blank : indent.all Runtime.isWhitespace = true)
    (solid : Runtime.isWhitespace c = false) (rest : Text) : trim (indent ++ c :: rest) = trimEnd (c :: rest) := by
  rw [trim, List.dropWhile_append_of_pos (List.all_eq_true.mp blank), List.dropWhile_cons_of_neg (by simp [solid])]
  rfl

theorem trimEnd_concat {c : Char} (solid : Runtime.isWhitespace c = false) (s : Text) : trimEnd (s ++ [c]) = s ++ [c] :=
  List.rdropWhile_concat_neg _ _ _ (by simp [solid])

/-- A line that opens an element: how it is laid out, and which branch of the reader takes it. -/
structure Opens (indent name : Text) (tag : Tag) (enter : ParseState → ParseState) : Prop where
  blank : indent.all Runtime.isWhitespace = true
  unclosed : '>' ∉ name
  long : trimEnd ('<' :: name) = '<' :: name ∧ name.getLast? ≠ some '/' ∧ name ≠ []
  feed : '\n' ∉ indent ++ name
  return_ : '\r' ∉ indent ++ name
  keeps : ∀ st, (enter st).multi = st.multi
  dispatch : ∀ (st : ParseState) (line body : Text), st.multi = {} → '"' ∉ body → trim line = '<' :: name ++ '>' :: body →
    st.parseLine line = (enter st).openElement (trim line) tag

variable {indent name : Text} {enter : ParseState → ParseState}

theorem find_close (unclosed : '>' ∉ name) (rest : Text) :
    find ['>'] ('<' :: name ++ '>' :: rest) = some ('<' :: name).length := by
  have apart : '>' ∉ '<' :: name := by simp [unclosed]
  exact find_mark apart rest

theorem drop_behind (front rest : Text) (c : Char) : (front ++ c :: rest).drop (front.length + 1) = rest := by simp

theorem openElement_line (unclosed : '>' ∉ name) (st : ParseState) (tag : Tag) (s : Text) :
    st.openElement ('<' :: name ++ '>' :: (xmlEscape s ++ tag.closeMarker)) tag = st.store tag s := by
  rw [ParseState.openElement, extractSingleLine, find_close unclosed]
  dsimp only
  rw [drop_behind, find_closeMarker]
  dsimp only
  rw [List.take_left, xmlUnescape_escape]

theorem openElement_first (unclosed : '>' ∉ name) (long : trimEnd ('<' :: name) = '<' :: name ∧ name.getLast? ≠ some '/' ∧ name ≠ [])
    (st : ParseState) (tag : Tag) (s : Text) :
    st.openElement ('<' :: name ++ '>' :: xmlEscape s) tag = { st with multi := ⟨some tag, s⟩ } := by
  have last : ('<' :: name).getLast? = name.getLast? := by
    obtain ⟨c, rest, same⟩ := List.exists_cons_of_ne_nil long.2.2
    rw [same, List.getLast?_cons_cons]
  rw [ParseState.openElement, extractSingleLine, extractOpenOnly, find_close unclosed]
  dsimp only
  rw [drop_behind, find_closeMarker_none, List.take_left, long.1, last, if_neg long.2.1]
  dsimp only
  rw [xmlUnescape_escape]

theorem store_multi (st : ParseState) (tag : Tag) (body : Text) : (st.store tag body).multi = st.multi := by
  cases tag <;> rfl

theorem readText_element (opens : Opens indent name tag enter) (idle : st.multi = {}) (noReturn : '\r' ∉ s) (rest : Text) :
    readText st (indent ++ '<' :: name ++ '>' :: (xmlEscape s ++ tag.closeMarker ++ '\n' :: rest)) =
      readText ((enter st).store tag (collected s)) rest := by
  obtain ⟨_, _, closeFeed, closeReturn⟩ := closeMarker_eq tag
  obtain ⟨close, closes, closeQuote⟩ := closeMarker_last tag
  have feed : '\n' ∉ indent ∧ '\n' ∉ name := by simpa using opens.feed
  have return_ : '\r' ∉ indent ∧ '\r' ∉ name := by simpa using opens.return_
  have solid : Runtime.isWhitespace '<' = false := by decide
  rcases exists_line s with unbroken | ⟨line, more, unbroken, rfl⟩
  · have whole : indent ++ '<' :: name ++ '>' :: (xmlEscape s ++ tag.closeMarker ++ '\n' :: rest) =
        indent ++ '<' :: (name ++ '>' :: (xmlEscape s ++ tag.closeMarker)) ++ '\n' :: rest := by simp
    have trimmed : trim (indent ++ '<' :: (name ++ '>' :: (xmlEscape s ++ tag.closeMarker))) =
        '<' :: name ++ '>' :: (xmlEscape s ++ tag.closeMarker) := by
      rw [trim_indented opens.blank solid]
      have last := trimEnd_concat (c := '>') (by decide) ('<' :: (name ++ '>' :: (xmlEscape s ++ close)))
      simpa [closes] using last
    have quote : '"' ∉ xmlEscape s ++ tag.closeMarker := by simp [quote_not_mem_xmlEscape, closeQuote]
    rw [whole, readText_cons (by simp [feed, closeFeed, feed_not_mem_xmlEscape unbroken]),
      stripReturn_of_not_mem (by simp [return_, closeReturn, return_not_mem_xmlEscape noReturn]),
      opens.dispatch st _ _ idle quote trimmed, trimmed, openElement_line opens.unclosed, collected_line unbroken]
  · obtain ⟨lineReturn, moreReturn⟩ : '\r' ∉ line ∧ '\r' ∉ more := by simpa using noReturn
    have whole : indent ++ '<' :: name ++ '>' :: (xmlEscape (line ++ '\n' :: more) ++ tag.closeMarker ++ '\n' :: rest) =
        indent ++ '<' :: (name ++ '>' :: xmlEscape line) ++ '\n' :: (xmlEscape more ++ tag.closeMarker ++ '\n' :: rest) := by
      rw [← List.singleton_append (l := more), xmlEscape_append, xmlEscape_append, xmlEscape_singleton, encode_plain (by decide)]
      simp
    have trimmed : trim (indent ++ '<' :: (name ++ '>' :: xmlEscape line)) = '<' :: name ++ '>' :: xmlEscape (trimEnd line) := by
      rw [trim_indented opens.blank solid]
      have last := trimEnd_xmlEscape ('<' :: name ++ ['>']) line (by
        intro c last
        rw [List.getLast?_concat] at last
        obtain rfl := Option.some.inj last
        decide)
      simpa using last
    rw [whole, readText_cons (by simp [feed, feed_not_mem_xmlEscape unbroken]),
      stripReturn_of_not_mem (by simp [return_, return_not_mem_xmlEscape lineReturn]),
      opens.dispatch st _ _ idle (quote_not_mem_xmlEscape _) trimmed, trimmed, openElement_first opens.unclosed opens.long,
      readText_body rfl moreReturn, collected_lines unbroken]
    have kept : (enter st).multi = {} := (opens.keeps st).trans idle
    generalize enter st = entered at kept ⊢
    cases tag <;> simp only [ParseState.store, ← kept]

/-! ## Attributes -/

section Attributes

variable {attr : String} {front value : Text} (attrQuote : '"' ∉ attr.toList) (frontQuote : '"' ∉ front)
include attrQuote frontQuote

theorem find_attr (rest : Text) :
    find (attr.toList ++ "=\"".toList) (front ++ '"' :: rest) =
      if attr.toList ++ ['='] <:+ front then some (front.length - (attr.toList.length + 1))
      else (find (attr.toList ++ "=\"".toList) rest).map (· + (front.length + 1)) := by
  have apart : '"' ∉ attr.toList ++ ['='] := by simp [attrQuote]
  have found := find_terminated apart frontQuote rest
  simpa using found

/-- An attribute's value stands between the two quotes behind its name. -/
theorem extractXmlAttr_here (named : attr.toList ++ ['='] <:+ front) (valueQuote : '"' ∉ value) (rest : Text) :
    extractXmlAttr (front ++ '"' :: (value ++ '"' :: rest)) attr = some (String.ofList (xmlUnescape value)) := by
  have found := find_attr attrQuote frontQuote (value ++ '"' :: rest)
  rw [if_pos named] at found
  have start : front.length - (attr.toList.length + 1) + (attr.toList ++ "=\"".toList).length = front.length + 1 := by
    have short := named.length_le
    rw [List.length_append, List.length_singleton] at short
    rw [List.length_append, show "=\"".toList.length = 2 from rfl]
    omega
  rw [extractXmlAttr, found]
  dsimp only
  rw [start, drop_behind, find_mark valueQuote rest]
  dsimp only
  rw [List.take_left]

/-- A quote that does not follow the attribute's name is passed over. -/
theorem extractXmlAttr_later (other : ¬attr.toList ++ ['='] <:+ front) (rest : Text) :
    extractXmlAttr (front ++ '"' :: rest) attr = extractXmlAttr rest attr := by
  have found := find_attr attrQuote frontQuote rest
  rw [if_neg other] at found
  rw [extractXmlAttr, extractXmlAttr, found]
  cases find (attr.toList ++ "=\"".toList) rest with
  | none => rfl
  | some at_ =>
      have behind : (front ++ '"' :: rest).drop (at_ + (front.length + 1) + (attr.toList ++ "=\"".toList).length) =
          rest.drop (at_ + (attr.toList ++ "=\"".toList).length) := by
        rw [show at_ + (front.length + 1) + (attr.toList ++ "=\"".toList).length =
          front.length + 1 + (at_ + (attr.toList ++ "=\"".toList).length) by omega, ← List.drop_drop, drop_behind]
      dsimp only [Option.map_some]
      rw [behind]

end Attributes

theorem extractXmlAttr_none {attr : String} {tag : Text} (missing : '"' ∉ tag) : extractXmlAttr tag attr = none := by
  have quoted : '"' ∈ attr.toList ++ "=\"".toList := by simp
  rw [extractXmlAttr, find_eq_none quoted missing]

/-! ## The four elements -/

theorem opens_source : Opens "          ".toList "source xml:space=\"preserve\"".toList .source id where
  blank := by decide
  unclosed := by decide
  long := by decide
  feed := by decide
  return_ := by decide
  keeps _ := rfl
  dispatch st line body idle _ trimmed := by
    rw [ParseState.parseLine, idle, trimmed]
    rfl

theorem opens_target (state : TranslationState) :
    Opens "          ".toList ("target state=\"".toList ++ state.asXliffState.toList ++ "\" xml:space=\"preserve\"".toList) .target
      fun st => { st with currentState := state } where
  blank := by decide
  unclosed := by cases state <;> decide
  long := by cases state <;> decide
  feed := by cases state <;> decide
  return_ := by cases state <;> decide
  keeps _ := rfl
  dispatch st line body idle quote trimmed := by
    have value : extractXmlAttr (trim line) "state" = some state.asXliffState := by
      have front : '"' ∉ "<target state=".toList := by decide
      have apart : '"' ∉ state.asXliffState.toList := by cases state <;> decide
      have here := @extractXmlAttr_here "state" _ _ (by decide) front (by decide) apart
        (" xml:space=\"preserve\"".toList ++ '>' :: body)
      have plain : xmlUnescape state.asXliffState.toList = state.asXliffState.toList := by cases state <;> decide
      rw [plain, String.ofList_toList] at here
      have shape : '<' :: ("target state=\"".toList ++ state.asXliffState.toList ++ "\" xml:space=\"preserve\"".toList) ++
          '>' :: body = "<target state=".toList ++ '"' :: (state.asXliffState.toList ++ '"' ::
            (" xml:space=\"preserve\"".toList ++ '>' :: body)) := by
        simp
      rw [trimmed, shape]
      exact here
    rw [ParseState.parseLine, idle, value, trimmed]
    cases state <;> rfl

theorem opens_developerNote :
    Opens "          ".toList "note from=\"Developer\" annotates=\"general\" priority=\"2\"".toList .developerNote id where
  blank := by decide
  unclosed := by decide
  long := by decide
  feed := by decide
  return_ := by decide
  keeps _ := rfl
  dispatch st line body idle quote trimmed := by
    rw [ParseState.parseLine, idle, trimmed]
    rfl

theorem opens_note :
    Opens "          ".toList "note from=\"Xliff Generator\" annotates=\"general\" priority=\"3\"".toList .note id where
  blank := by decide
  unclosed := by decide
  long := by decide
  feed := by decide
  return_ := by decide
  keeps _ := rfl
  dispatch st line body idle quote trimmed := by
    have generator : contains (trim line) "from=\"Developer\"" = false := by
      have missing : find ("from=\"Developer".toList ++ ['"'])
          "<note from=\"Xliff Generator\" annotates=\"general\" priority=\"3\"".toList = none := by decide
      have apart : '"' ∉ '>' :: body := by simpa using quote
      have nowhere := find_append_eq_none missing apart
      rw [contains, trimmed]
      exact congrArg Option.isSome nowhere
    rw [ParseState.parseLine, idle, generator, trimmed]
    rfl

/-! ## Units -/

def readBack (s : String) : String := String.ofList (collected s.toList)

/-- The id ends like the attribute that the reader looks for. -/
def EndsLikeTarget (id : String) : Prop := "al-object-target=".toList <:+ id.toList

instance (id : String) : Decidable (EndsLikeTarget id) := inferInstanceAs (Decidable ("al-object-target=".toList <:+ id.toList))

/-- The unit that the reader makes of a written one. -/
def readUnit (generated : Bool) (unit : TranslationUnit) : TranslationUnit :=
  let developerNote := (writtenDeveloperNote generated unit).map readBack
  let note := ((writtenNote unit).map readBack).or developerNote
  { id := unit.id
    objectType := objectTypeFromId unit.id
    objectId := 0
    objectName := objectNameFromNote note
    source := readBack unit.source
    target := unit.target.map readBack
    state := if generated ∧ unit.target = none then .new else unit.state
    note := note
    developerNote := developerNote
    objectTarget := if EndsLikeTarget unit.id then some " size-unit=" else unit.objectTarget }

/-- Between two units. -/
def between (language : LanguageMap) (state : TranslationState) : ParseState := { units := language, currentState := state }

/-- A unit that can be written: its id and its object target are on one line, and it has no carriage return. -/
structure Writable (unit : TranslationUnit) : Prop where
  id : '\n' ∉ unit.id.toList
  objectTarget : ∀ text, unit.objectTarget = some text → '\n' ∉ text.toList
  source : '\r' ∉ unit.source.toList
  target : ∀ text, unit.target = some text → '\r' ∉ text.toList
  note : ∀ text, unit.note = some text → '\r' ∉ text.toList
  developerNote : ∀ text, unit.developerNote = some text → '\r' ∉ text.toList

variable {unit : TranslationUnit} {generated : Bool}

theorem extract_id (rest : Text) :
    extractXmlAttr ("<trans-unit id=\"".toList ++ (xmlEscape unit.id.toList ++ '"' :: rest)) "id" = some unit.id := by
  have front : '"' ∉ "<trans-unit id=".toList := by decide
  have here := @extractXmlAttr_here "id" _ _ (by decide) front (by decide) (quote_not_mem_xmlEscape unit.id.toList) rest
  rw [xmlUnescape_escape, String.ofList_toList] at here
  have shape : "<trans-unit id=\"".toList ++ (xmlEscape unit.id.toList ++ '"' :: rest) =
      "<trans-unit id=".toList ++ '"' :: (xmlEscape unit.id.toList ++ '"' :: rest) := by
    simp
  rw [shape]
  exact here

/-- The attributes that every unit has are passed over. -/
theorem extract_fixed (rest : Text) :
    extractXmlAttr (" size-unit=\"char\" translate=\"yes\" xml:space=\"preserve\"".toList ++ rest) "al-object-target" =
      extractXmlAttr rest "al-object-target" := by
  have shape : " size-unit=\"char\" translate=\"yes\" xml:space=\"preserve\"".toList ++ rest =
      " size-unit=".toList ++ '"' :: ("char".toList ++ '"' :: (" translate=".toList ++ '"' :: ("yes".toList ++ '"' ::
        (" xml:space=".toList ++ '"' :: ("preserve".toList ++ '"' :: rest))))) := by
    simp
  rw [shape]
  iterate 6 rw [extractXmlAttr_later (by decide) (by decide) (by decide)]

theorem extract_objectTarget (unit : TranslationUnit) :
    extractXmlAttr ("<trans-unit id=\"".toList ++ (xmlEscape unit.id.toList ++ '"' ::
        (" size-unit=\"char\" translate=\"yes\" xml:space=\"preserve\"".toList ++ (objectTargetAttr unit ++ ['>']))))
        "al-object-target" =
      if EndsLikeTarget unit.id then some " size-unit=" else unit.objectTarget := by
  have idQuote := quote_not_mem_xmlEscape unit.id.toList
  have ends : "al-object-target".toList ++ ['='] <:+ xmlEscape unit.id.toList ↔ EndsLikeTarget unit.id :=
    suffix_xmlEscape _ _ (by decide)
  have shape (rest : Text) : "<trans-unit id=\"".toList ++ rest = "<trans-unit id=".toList ++ '"' :: rest := by simp
  rw [shape, extractXmlAttr_later (by decide) (by decide) (by decide)]
  by_cases here : EndsLikeTarget unit.id
  · have shape (rest : Text) : " size-unit=\"char\" translate=\"yes\" xml:space=\"preserve\"".toList ++ rest =
        " size-unit=".toList ++ '"' :: ("char\" translate=\"yes\" xml:space=\"preserve\"".toList ++ rest) := by
      simp
    rw [if_pos here, shape, extractXmlAttr_here (by decide) idQuote (ends.mpr here) (by decide)]
    decide
  · rw [if_neg here, extractXmlAttr_later (by decide) idQuote (fun suffix => here (ends.mp suffix)), extract_fixed]
    cases target : unit.objectTarget with
    | none =>
        rw [objectTargetAttr, target]
        exact extractXmlAttr_none (by decide)
    | some text =>
        have shape : objectTargetAttr unit ++ ['>'] =
            " al-object-target=".toList ++ '"' :: (xmlEscape text.toList ++ '"' :: ['>']) := by
          rw [objectTargetAttr, target]
          simp [wrapped]
        rw [shape, extractXmlAttr_here (by decide) (by decide) (by decide) (quote_not_mem_xmlEscape _), xmlUnescape_escape,
          String.ofList_toList]

theorem stripReturn_concat {c : Char} (apart : c ≠ '\r') (s : Text) : stripReturn (s ++ [c]) = s ++ [c] := by
  rw [stripReturn, if_neg]
  rw [List.getLast?_concat]
  exact fun same => apart (Option.some.inj same)

theorem trim_tag (blank : indent.all Runtime.isWhitespace = true) (inner : Text) :
    trim (indent ++ '<' :: inner ++ ['>']) = '<' :: inner ++ ['>'] := by
  rw [List.append_assoc, List.cons_append, trim_indented blank (by decide)]
  exact trimEnd_concat (by decide) ('<' :: inner)

theorem parseLine_transUnit {line trimmed : Text} {objectTarget : Option String} (idle : st.multi = {}) (same : trim line = trimmed)
    (starts : startsWith trimmed "<trans-unit " = true) (id : extractXmlAttr trimmed "id" = some unit.id)
    (target : extractXmlAttr trimmed "al-object-target" = objectTarget) :
    st.parseLine line = { units := st.units, currentId := some unit.id, currentObjectTarget := objectTarget } := by
  rw [ParseState.parseLine, idle, same, starts, id, target]
  rfl

theorem readText_idLine (writable : Writable unit) (language : LanguageMap) (state : TranslationState) (rest : Text) :
    readText (between language state) (idLine unit ++ rest) = readText
      { units := language
        currentId := some unit.id
        currentObjectTarget := if EndsLikeTarget unit.id then some " size-unit=" else unit.objectTarget } rest := by
  have target : '\n' ∉ objectTargetAttr unit := by
    unfold objectTargetAttr
    cases held : unit.objectTarget with
    | none => simp
    | some text => simp [wrapped, feed_not_mem_xmlEscape (writable.objectTarget text held)]
  have inside : ∃ inner : Text, idLine unit = "        ".toList ++ '<' :: inner ++ ['>'] ++ ['\n'] ∧ '\n' ∉ inner ∧
      '<' :: inner ++ ['>'] = "<trans-unit id=\"".toList ++ (xmlEscape unit.id.toList ++ '"' ::
        (" size-unit=\"char\" translate=\"yes\" xml:space=\"preserve\"".toList ++ (objectTargetAttr unit ++ ['>']))) := by
    refine ⟨"trans-unit id=\"".toList ++ (xmlEscape unit.id.toList ++ '"' ::
      (" size-unit=\"char\" translate=\"yes\" xml:space=\"preserve\"".toList ++ objectTargetAttr unit)), ?_, ?_, ?_⟩
    · simp [idLine, wrapped]
    · simp [feed_not_mem_xmlEscape writable.id, target]
    · simp
  obtain ⟨inner, line, feed, shape⟩ := inside
  have starts : startsWith ('<' :: inner ++ ['>']) "<trans-unit " = true := by
    rw [shape]
    rfl
  have id : extractXmlAttr ('<' :: inner ++ ['>']) "id" = some unit.id := by
    rw [shape]
    exact extract_id _
  have objectTarget := extract_objectTarget unit
  rw [← shape] at objectTarget
  have unbroken : '\n' ∉ "        ".toList ++ '<' :: inner ++ ['>'] := by simp [feed]
  have indented : "        ".toList.all Runtime.isWhitespace = true := by decide
  have parsed : (between language state).parseLine _ = _ :=
    parseLine_transUnit rfl (trim_tag indented inner) starts id objectTarget
  rw [line, List.append_assoc, List.singleton_append, readText_cons unbroken, stripReturn_concat (by decide), parsed]
  rfl

theorem readText_wrapped (opens : Opens indent name tag enter) {front back text : String}
    (starts : front.toList = indent ++ '<' :: name ++ ['>']) (closes : back.toList = tag.closeMarker ++ ['\n'])
    (idle : st.multi = {}) (noReturn : '\r' ∉ text.toList) (rest : Text) :
    readText st (wrapped front text back ++ rest) = readText ((enter st).store tag (collected text.toList)) rest := by
  rw [← readText_element opens idle noReturn rest, wrapped, starts, closes]
  simp only [List.append_assoc, List.cons_append, List.nil_append]

theorem readText_source (writable : Writable unit) (idle : st.multi = {}) (rest : Text) :
    readText st (wrapped "          <source xml:space=\"preserve\">" unit.source "</source>\n" ++ rest) =
      readText { st with currentSource := some (readBack unit.source) } rest :=
  readText_wrapped opens_source (by decide) (by decide) idle writable.source rest

theorem readText_target (writable : Writable unit) (idle : st.multi = {}) (fresh : st.currentTarget = none)
    (new : st.currentState = .new) (rest : Text) :
    readText st (targetText generated unit ++ rest) = readText
      { st with
        currentTarget := unit.target.map readBack
        currentState := if generated ∧ unit.target = none then .new else unit.state } rest := by
  unfold targetText
  cases held : unit.target with
  | some text =>
      have state : (if generated ∧ some text = none then TranslationState.new else unit.state) = unit.state := if_neg (by simp)
      have starts : ("          <target state=\"" ++ unit.state.asXliffState ++ "\" xml:space=\"preserve\">").toList =
          "          ".toList ++ '<' :: ("target state=\"".toList ++ unit.state.asXliffState.toList ++
            "\" xml:space=\"preserve\"".toList) ++ ['>'] := by
        simp
      have closes : "</target>\n".toList = Tag.target.closeMarker ++ ['\n'] := by decide
      rw [state]
      exact readText_wrapped (opens_target unit.state) starts closes idle (writable.target text held) rest
  | none =>
      cases generated with
      | true =>
          cases st
          cases fresh
          cases new
          simp
      | false =>
          have line : ("          <target state=\"" ++ unit.state.asXliffState ++ "\" xml:space=\"preserve\"/>\n").toList =
              ("          <target state=\"" ++ unit.state.asXliffState ++ "\" xml:space=\"preserve\"/>").toList ++ ['\n'] := by
            simp
          have unbroken : '\n' ∉ ("          <target state=\"" ++ unit.state.asXliffState ++ "\" xml:space=\"preserve\"/>").toList ∧
              '\r' ∉ ("          <target state=\"" ++ unit.state.asXliffState ++ "\" xml:space=\"preserve\"/>").toList := by
            cases unit.state <;> decide
          have parsed : st.parseLine ("          <target state=\"" ++ unit.state.asXliffState ++ "\" xml:space=\"preserve\"/>").toList =
              { st with currentState := unit.state } := by
            rw [ParseState.parseLine, idle]
            cases unit.state <;> rfl
          dsimp only
          rw [if_neg Bool.false_ne_true, line, List.append_assoc, List.singleton_append, readText_cons unbroken.1,
            stripReturn_of_not_mem unbroken.2, parsed]
          cases st
          cases fresh
          simp

theorem readText_developerNote (writable : Writable unit) (idle : st.multi = {}) (fresh : st.currentDeveloperNote = none)
    (rest : Text) :
    readText st (noteText "          <note from=\"Developer\" annotates=\"general\" priority=\"2\">"
        (writtenDeveloperNote generated unit) ++ rest) =
      readText { st with currentDeveloperNote := (writtenDeveloperNote generated unit).map readBack } rest := by
  cases held : writtenDeveloperNote generated unit with
  | none =>
      cases st
      cases fresh
      rfl
  | some text =>
      have noReturn : '\r' ∉ text.toList := by
        unfold writtenDeveloperNote at held
        cases own : unit.developerNote with
        | none =>
            rw [own] at held
            cases generated with
            | true =>
                cases held
                decide
            | false => cases held
        | some developer =>
            rw [own] at held
            cases held
            exact writable.developerNote text own
      have closes : "</note>\n".toList = Tag.developerNote.closeMarker ++ ['\n'] := by decide
      exact readText_wrapped opens_developerNote (by decide) closes idle noReturn rest

theorem readText_note (writable : Writable unit) (idle : st.multi = {}) (fresh : st.currentNote = none) (rest : Text) :
    readText st (noteText "          <note from=\"Xliff Generator\" annotates=\"general\" priority=\"3\">" (writtenNote unit) ++ rest) =
      readText { st with currentNote := (writtenNote unit).map readBack } rest := by
  cases held : writtenNote unit with
  | none =>
      cases st
      cases fresh
      rfl
  | some text =>
      have noReturn := writable.note text (Option.filter_eq_some_iff.mp held).1
      have closes : "</note>\n".toList = Tag.note.closeMarker ++ ['\n'] := by decide
      exact readText_wrapped opens_note (by decide) closes idle noReturn rest

theorem readText_close (idle : st.multi = {}) (rest : Text) :
    readText st ("        </trans-unit>\n".toList ++ rest) = readText st.closeUnit rest := by
  have line : "        </trans-unit>\n".toList ++ rest = "        </trans-unit>".toList ++ '\n' :: rest := by simp
  have parsed : st.parseLine "        </trans-unit>".toList = st.closeUnit := by
    rw [ParseState.parseLine, idle]
    rfl
  rw [line, readText_cons (by decide), stripReturn_of_not_mem (by decide), parsed]

theorem readText_unit (writable : Writable unit) (language : LanguageMap) (state : TranslationState) (rest : Text) :
    ∃ after, readText (between language state) (transUnit generated unit ++ rest) =
      readText (between (language.add (readUnit generated unit)) after) rest := by
  refine ⟨(readUnit generated unit).state, ?_⟩
  simp only [transUnit, List.append_assoc]
  rw [readText_idLine writable, readText_source writable rfl, readText_target writable rfl rfl rfl,
    readText_developerNote writable rfl rfl, readText_note writable rfl rfl, readText_close rfl]
  rfl

theorem readText_units {units : List TranslationUnit} (writable : ∀ unit ∈ units, Writable unit) (language : LanguageMap)
    (state : TranslationState) (rest : Text) :
    ∃ after, readText (between language state) (units.flatMap (transUnit generated) ++ rest) =
      readText (between ((units.map (readUnit generated)).foldl LanguageMap.add language) after) rest := by
  induction units generalizing language state with
  | nil => exact ⟨state, rfl⟩
  | cons unit units ih =>
      obtain ⟨next, first⟩ := @readText_unit unit generated (writable unit List.mem_cons_self) language state
        (units.flatMap (transUnit generated) ++ rest)
      obtain ⟨after, later⟩ := ih (fun other member => writable other (.tail _ member)) (language.add (readUnit generated unit)) next
      refine ⟨after, ?_⟩
      rw [List.flatMap_cons, List.append_assoc, first, later]
      rfl

/-! ## The lines around the units -/

def unitTags : List String := ["<trans-unit ", "<source", "<target", "<note>", "<note ", "</trans-unit>"]

/-- A line that is no tag of a unit. -/
def Skipped (line : Text) : Prop := ∀ tag ∈ unitTags, startsWith (trim line) tag = false

instance (line : Text) : Decidable (Skipped line) :=
  inferInstanceAs (Decidable (∀ tag ∈ unitTags, startsWith (trim line) tag = false))

theorem parseLine_skipped (idle : st.multi = {}) {line : Text} (skipped : Skipped line) : st.parseLine line = st := by
  have apart := skipped
  simp only [Skipped, unitTags, List.forall_mem_cons] at apart
  obtain ⟨unit, source, target, note, attributed, close, _⟩ := apart
  rw [ParseState.parseLine, idle]
  simp [unit, source, target, note, attributed, close]

theorem skipped_iff {line : Text} :
    Skipped line ↔ ∀ tag ∈ unitTags, ¬tag.toList <+: trim line := by
  unfold Skipped startsWith
  simp only [Bool.eq_false_iff, ne_eq, List.isPrefixOf_iff_prefix]

theorem skipped_plain {line : Text} (missing : '<' ∉ line) : Skipped line := by
  refine skipped_iff.mpr fun tag listed here => ?_
  have starts : ∀ tag ∈ unitTags, '<' ∈ tag.toList := by decide
  have inside := here.subset (starts tag listed)
  exact missing ((List.dropWhile_sublist _).subset ((List.rdropWhile_prefix _ _).subset inside))

/-- A tag with another first letter. -/
theorem skipped_other {c : Char} (blank : indent.all Runtime.isWhitespace = true) (other : c ∉ ['t', 's', 'n', '/']) (rest : Text) :
    Skipped (indent ++ '<' :: c :: rest) := by
  refine skipped_iff.mpr fun tag listed here => ?_
  have letters : ∀ tag ∈ unitTags, ∃ d more, tag.toList = '<' :: d :: more ∧ d ∈ ['t', 's', 'n', '/'] := by
    simp [unitTags]
  obtain ⟨d, more, same, inside⟩ := letters tag listed
  rw [trim_indented blank (by decide), same] at here
  have starts : '<' :: d :: more <+: '<' :: c :: rest := here.trans (List.rdropWhile_prefix _ _)
  rw [List.cons_prefix_cons, List.cons_prefix_cons] at starts
  exact other (starts.2.1 ▸ inside)

theorem stripReturn_append (s : Text) {c : Char} (apart : c ≠ '\r') (t : Text) :
    stripReturn (s ++ c :: t) = s ++ c :: stripReturn t := by
  rcases List.eq_nil_or_concat t with rfl | ⟨t, d, rfl⟩
  · exact stripReturn_concat apart s
  · rw [List.concat_eq_append, ← List.cons_append, ← List.append_assoc]
    unfold stripReturn
    rw [List.getLast?_concat, List.getLast?_concat, List.dropLast_concat, List.dropLast_concat]
    split <;> simp

theorem readText_skipped (idle : st.multi = {}) {line : Text} (unbroken : '\n' ∉ line) (skipped : Skipped (stripReturn line))
    (rest : Text) : readText st (line ++ '\n' :: rest) = readText st rest := by
  rw [readText_cons unbroken, parseLine_skipped idle skipped]

/-- Lines without a tag change nothing. -/
theorem readText_plain (idle : st.multi = {}) {front : Text} (missing : '<' ∉ front) (rest : Text) :
    readText st (front ++ '\n' :: rest) = readText st rest := by
  have plain {line : Text} (missing : '<' ∉ line) : Skipped (stripReturn line) := by
    apply skipped_plain
    intro inside
    unfold stripReturn at inside
    split at inside
    · exact missing (List.dropLast_subset _ inside)
    · exact missing inside
  induction length : front.length using Nat.strong_induction_on generalizing front with
  | _ n shorter =>
      subst length
      rcases exists_line front with unbroken | ⟨line, more, unbroken, rfl⟩
      · exact readText_skipped idle unbroken (plain missing) rest
      · obtain ⟨first, later⟩ : '<' ∉ line ∧ '<' ∉ more := by simpa using missing
        rw [List.append_assoc, List.cons_append, readText_skipped idle unbroken (plain first)]
        exact shorter more.length (by simp; omega) later rfl

/-- A tag that is none of a unit's, whatever line breaks are in its attributes. -/
theorem readText_other (idle : st.multi = {}) {c : Char} {attributes : Text} (blank : indent.all Runtime.isWhitespace = true)
    (line : '\n' ∉ indent) (other : c ∉ ['t', 's', 'n', '/'] ∧ c ≠ '\n' ∧ c ≠ '\r') (missing : '<' ∉ attributes) (rest : Text) :
    readText st (indent ++ '<' :: c :: (attributes ++ '\n' :: rest)) = readText st rest := by
  obtain ⟨apart, feed, return_⟩ := other
  have stripped (text : Text) : stripReturn (indent ++ '<' :: c :: text) = indent ++ '<' :: c :: stripReturn text := by
    have behind := stripReturn_append (indent ++ ['<']) return_ text
    simpa using behind
  have skipped (text : Text) : Skipped (stripReturn (indent ++ '<' :: c :: text)) := by
    rw [stripped]
    exact skipped_other blank apart _
  rcases exists_line attributes with unbroken | ⟨first, more, unbroken, rfl⟩
  · have whole : indent ++ '<' :: c :: (attributes ++ '\n' :: rest) = indent ++ '<' :: c :: attributes ++ '\n' :: rest := by simp
    rw [whole]
    exact readText_skipped idle (by simp [unbroken, line, feed.symm]) (skipped attributes) rest
  · obtain ⟨_, later⟩ : '<' ∉ first ∧ '<' ∉ more := by simpa using missing
    have whole : indent ++ '<' :: c :: (first ++ '\n' :: more ++ '\n' :: rest) =
        indent ++ '<' :: c :: first ++ '\n' :: (more ++ '\n' :: rest) := by simp
    rw [whole, readText_skipped idle (by simp [unbroken, line, feed.symm]) (skipped first), readText_plain idle later]

theorem readText_xliff (idle : st.multi = {}) (rest : Text) :
    readText st (("<xliff version=\"1.2\" xmlns=\"urn:oasis:names:tc:xliff:document:1.2\" " ++
      "xmlns:xsi=\"http://www.w3.org/2001/XMLSchema-instance\" " ++
      "xsi:schemaLocation=\"urn:oasis:names:tc:xliff:document:1.2 xliff-core-1.2-transitional.xsd\">\n").toList ++ rest) =
      readText st rest := by
  have first : "<xliff version=\"1.2\" xmlns=\"urn:oasis:names:tc:xliff:document:1.2\" ".toList =
      "".toList ++ '<' :: 'x' :: "liff version=\"1.2\" xmlns=\"urn:oasis:names:tc:xliff:document:1.2\" ".toList := by
    decide
  have last : "xsi:schemaLocation=\"urn:oasis:names:tc:xliff:document:1.2 xliff-core-1.2-transitional.xsd\">\n".toList =
      "xsi:schemaLocation=\"urn:oasis:names:tc:xliff:document:1.2 xliff-core-1.2-transitional.xsd\">".toList ++ ['\n'] := by
    decide
  have missing : '<' ∉ "liff version=\"1.2\" xmlns=\"urn:oasis:names:tc:xliff:document:1.2\" ".toList ++
      ("xmlns:xsi=\"http://www.w3.org/2001/XMLSchema-instance\" ".toList ++
        "xsi:schemaLocation=\"urn:oasis:names:tc:xliff:document:1.2 xliff-core-1.2-transitional.xsd\">".toList) := by
    simp only [List.mem_append, not_or]
    decide
  have read := readText_other idle (by decide : "".toList.all Runtime.isWhitespace = true) (by decide)
    (by decide : 'x' ∉ ['t', 's', 'n', '/'] ∧ 'x' ≠ '\n' ∧ 'x' ≠ '\r') missing rest
  rw [String.toList_append, String.toList_append, first, last]
  simp only [List.append_assoc, List.cons_append, List.nil_append] at read ⊢
  exact read

theorem readText_file (idle : st.multi = {}) (appName sourceLanguage targetLanguage : String) (rest : Text) :
    readText st (wrapped "  <file datatype=\"xml\" source-language=\"" sourceLanguage "" ++
        (wrapped "\" target-language=\"" targetLanguage "\" " ++ (wrapped "original=\"" appName "\">\n" ++ rest))) =
      readText st rest := by
  let attributes : Text := "ile datatype=\"xml\" source-language=\"".toList ++ xmlEscape sourceLanguage.toList ++
    "\" target-language=\"".toList ++ xmlEscape targetLanguage.toList ++ "\" original=\"".toList ++
    xmlEscape appName.toList ++ "\">".toList
  have missing : '<' ∉ attributes := by simp [attributes, open_not_mem_xmlEscape]
  have shape : wrapped "  <file datatype=\"xml\" source-language=\"" sourceLanguage "" ++
      (wrapped "\" target-language=\"" targetLanguage "\" " ++ (wrapped "original=\"" appName "\">\n" ++ rest)) =
        "  ".toList ++ '<' :: 'f' :: (attributes ++ '\n' :: rest) := by
    simp [wrapped, attributes]
  rw [shape, readText_other idle (by decide) (by decide) (by decide) missing]

theorem readText_line (idle : st.multi = {}) {line : String} {text : Text} (ends : line.toList = text ++ ['\n'])
    (unbroken : '\n' ∉ text) (skipped : Skipped (stripReturn text)) (rest : Text) :
    readText st (line.toList ++ rest) = readText st rest := by
  rw [ends, List.append_assoc, List.singleton_append, readText_skipped idle unbroken skipped]

theorem readText_header (appName sourceLanguage targetLanguage : String) (rest : Text) :
    readText {} (header appName sourceLanguage targetLanguage ++ rest) = readText {} rest := by
  have xml : "<?xml version=\"1.0\" encoding=\"utf-8\"?>\n".toList = "<?xml version=\"1.0\" encoding=\"utf-8\"?>".toList ++ ['\n'] := by
    decide
  have body : "    <body>\n".toList = "    <body>".toList ++ ['\n'] := by decide
  have group : "      <group id=\"body\">\n".toList = "      <group id=\"body\">".toList ++ ['\n'] := by decide
  have idle : ({} : ParseState).multi = {} := rfl
  unfold header
  iterate 6 rw [List.append_assoc]
  refine (readText_line idle xml (by decide) (by decide) _).trans ?_
  refine (readText_xliff idle _).trans ?_
  refine (readText_file idle appName sourceLanguage targetLanguage _).trans ?_
  refine (readText_line idle body (by decide) (by decide) _).trans ?_
  exact readText_line idle group (by decide) (by decide) rest

theorem readText_footer (idle : st.multi = {}) : readText st footer = st := by
  have shape : footer = "      </group>".toList ++ '\n' :: ("    </body>".toList ++ '\n' ::
      ("  </file>".toList ++ '\n' :: ("</xliff>".toList ++ '\n' :: []))) := by
    decide
  rw [shape, readText_skipped idle (by decide) (by decide), readText_skipped idle (by decide) (by decide),
    readText_skipped idle (by decide) (by decide), readText_skipped idle (by decide) (by decide)]
  rfl

/-- The reader makes the units of a written file, one after the other. -/
theorem parse_generate (appName sourceLanguage targetLanguage : String) {units : List TranslationUnit}
    (writable : ∀ unit ∈ units, Writable unit) :
    parseXliff (generateXliff appName sourceLanguage targetLanguage units) =
      .ofUnits (units.map (readUnit (eqIgnoreAsciiCase sourceLanguage targetLanguage))) := by
  obtain ⟨after, read⟩ := @readText_units (eqIgnoreAsciiCase sourceLanguage targetLanguage) units writable .empty .new footer
  have start : ({} : ParseState) = between .empty .new := rfl
  have idle (language : LanguageMap) (state : TranslationState) : (between language state).multi = {} := rfl
  have held (language : LanguageMap) (state : TranslationState) : (between language state).units = language := rfl
  rw [parseXliff_eq, generateXliff, List.append_assoc, readText_header, start, read, readText_footer (idle _ _), held,
    LanguageMap.ofUnits]

end AlLanguage.Xliff
