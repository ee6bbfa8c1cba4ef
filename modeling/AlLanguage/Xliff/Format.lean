import AlLanguage.Library.Substrings
import AlLanguage.Xliff.Units

/-!
# Translation files as text

- `generateXliff` writes whole texts, escaped.
- `parseXliff` goes line by line. An element that does not close on its line is collected through the line that
  closes it.
-/

namespace AlLanguage.Xliff

open Library.Substrings

abbrev Text := List Char

/-! ## The standard library's text functions -/

/-- `str::replace` with a character. -/
def replaceChar (c : Char) (into : String) (s : Text) : Text := s.flatMap fun d => if d = c then into.toList else [d]

/-- `str::replace` with a text. -/
def replaceText (pattern into : String) (s : Text) : Text := replace pattern.toList into.toList s

def trim (s : Text) : Text := (s.dropWhile Runtime.isWhitespace).rdropWhile Runtime.isWhitespace

def trimEnd (s : Text) : Text := s.rdropWhile Runtime.isWhitespace

def startsWith (s : Text) (pattern : String) : Bool := pattern.toList.isPrefixOf s

def contains (s : Text) (pattern : String) : Bool := (find pattern.toList s).isSome

def stripReturn (line : Text) : Text := if line.getLast? = some '\r' then line.dropLast else line

/-- `str::lines`. Nothing is left of a last line that is empty. -/
def textLines (content : Text) : List Text :=
  let parts := content.splitOn '\n'
  parts.dropLast.map stripReturn ++ parts.getLast?.toList.filter (· ≠ [])

/-! ## Writing -/

/-- The first replacement is that of the ampersand. -/
def xmlEscape (s : Text) : Text :=
  replaceChar (Char.ofNat 39) "&apos;" (replaceChar '"' "&quot;" (replaceChar '>' "&gt;" (replaceChar '<' "&lt;"
    (replaceChar '&' "&amp;" s))))

/-- Escaped text between two fixed ones. -/
def wrapped (front : String) (s back : String) : Text := front.toList ++ xmlEscape s.toList ++ back.toList

/-- Developer notes are on every unit of a generated file. -/
def writtenDeveloperNote (generated : Bool) (unit : TranslationUnit) : Option String :=
  unit.developerNote.or (if generated then some "" else none)

def writtenNote (unit : TranslationUnit) : Option String := unit.note.filter fun note => unit.developerNote ≠ some note

def objectTargetAttr (unit : TranslationUnit) : Text :=
  (unit.objectTarget.map fun target => wrapped " al-object-target=\"" target "\"").getD []

def idLine (unit : TranslationUnit) : Text :=
  wrapped "        <trans-unit id=\"" unit.id "\" size-unit=\"char\" translate=\"yes\" xml:space=\"preserve\"" ++
    objectTargetAttr unit ++ ">\n".toList

def targetText (generated : Bool) (unit : TranslationUnit) : Text :=
  match unit.target with
  | some target =>
      wrapped ("          <target state=\"" ++ unit.state.asXliffState ++ "\" xml:space=\"preserve\">") target "</target>\n"
  | none =>
      if generated then []
      else ("          <target state=\"" ++ unit.state.asXliffState ++ "\" xml:space=\"preserve\"/>\n").toList

def noteText (front : String) (note : Option String) : Text := (note.map fun note => wrapped front note "</note>\n").getD []

def transUnit (generated : Bool) (unit : TranslationUnit) : Text :=
  idLine unit ++ wrapped "          <source xml:space=\"preserve\">" unit.source "</source>\n" ++ targetText generated unit ++
    noteText "          <note from=\"Developer\" annotates=\"general\" priority=\"2\">" (writtenDeveloperNote generated unit) ++
    noteText "          <note from=\"Xliff Generator\" annotates=\"general\" priority=\"3\">" (writtenNote unit) ++
    "        </trans-unit>\n".toList

def header (appName sourceLanguage targetLanguage : String) : Text :=
  "<?xml version=\"1.0\" encoding=\"utf-8\"?>\n".toList ++
    ("<xliff version=\"1.2\" xmlns=\"urn:oasis:names:tc:xliff:document:1.2\" " ++
      "xmlns:xsi=\"http://www.w3.org/2001/XMLSchema-instance\" " ++
      "xsi:schemaLocation=\"urn:oasis:names:tc:xliff:document:1.2 xliff-core-1.2-transitional.xsd\">\n").toList ++
    wrapped "  <file datatype=\"xml\" source-language=\"" sourceLanguage "" ++ wrapped "\" target-language=\"" targetLanguage "\" " ++
    wrapped "original=\"" appName "\">\n" ++ "    <body>\n".toList ++ "      <group id=\"body\">\n".toList

def footer : Text := "      </group>\n    </body>\n  </file>\n</xliff>\n".toList

/-- `eq_ignore_ascii_case`. -/
def eqIgnoreAsciiCase (a b : String) : Bool := a.toList.map Char.toLower = b.toList.map Char.toLower

def generateXliff (appName sourceLanguage targetLanguage : String) (units : List TranslationUnit) : Text :=
  header appName sourceLanguage targetLanguage ++
    units.flatMap (transUnit (eqIgnoreAsciiCase sourceLanguage targetLanguage)) ++ footer

/-! ## Reading -/

/-- The last replacement is that of the ampersand. -/
def xmlUnescape (s : Text) : Text :=
  replaceText "&amp;" "&" (replaceText "&apos;" (String.singleton (Char.ofNat 39)) (replaceText "&quot;" "\""
    (replaceText "&gt;" ">" (replaceText "&lt;" "<" s))))

def extractXmlAttr (tag : Text) (attr : String) : Option String :=
  let search := attr.toList ++ "=\"".toList
  match find search tag with
  | none => none
  | some at_ =>
      let start := at_ + search.length
      match find ['"'] (tag.drop start) with
      | none => none
      | some length => some (String.ofList (xmlUnescape ((tag.drop start).take length)))

def objectTypeFromId (id : String) : String :=
  String.ofList ((id.toList.dropWhile Runtime.isWhitespace).takeWhile fun c => !Runtime.isWhitespace c)

def objectNameFromNote (note : Option String) : String :=
  match note with
  | none => ""
  | some note =>
      let head := trim (match find " - ".toList note.toList with
        | some at_ => note.toList.take at_
        | none => note.toList)
      match head.dropWhile fun c => !Runtime.isWhitespace c with
      | [] => ""
      | _ :: name => String.ofList (trim name)

inductive Tag where
  | source
  | target
  | note
  | developerNote
  deriving DecidableEq

/-- A developer note closes like the other one. -/
def Tag.element : Tag → String
  | .source => "source"
  | .target => "target"
  | .note | .developerNote => "note"

def Tag.closeMarker (tag : Tag) : Text := "</".toList ++ tag.element.toList ++ ">".toList

structure MultiLine where
  targetTag : Option Tag := none
  accumulator : Text := []

structure ParseState where
  units : LanguageMap := .empty
  currentId : Option String := none
  currentSource : Option String := none
  currentTarget : Option String := none
  currentState : TranslationState := .new
  currentNote : Option String := none
  currentDeveloperNote : Option String := none
  currentObjectTarget : Option String := none
  multi : MultiLine := {}

def extractSingleLine (line : Text) (tag : Tag) : Option Text :=
  match find ['>'] line with
  | none => none
  | some openEnd =>
      match find tag.closeMarker (line.drop (openEnd + 1)) with
      | none => none
      | some closeStart => some (xmlUnescape ((line.drop (openEnd + 1)).take closeStart))

def extractOpenOnly (line : Text) : Option Text :=
  match find ['>'] line with
  | none => none
  | some openEnd =>
      if (trimEnd (line.take openEnd)).getLast? = some '/' then none
      else some (xmlUnescape (line.drop (openEnd + 1)))

def appendToAccumulator (acc text : Text) : Text := (if acc = [] then acc else acc ++ ['\n']) ++ text

namespace ParseState

/-- The body of an element. -/
def store (st : ParseState) (tag : Tag) (body : Text) : ParseState :=
  match tag with
  | .source => { st with currentSource := some (String.ofList body) }
  | .target => { st with currentTarget := some (String.ofList body) }
  | .note => { st with currentNote := some (String.ofList body) }
  | .developerNote => { st with currentDeveloperNote := some (String.ofList body) }

/-- An opening tag: the whole element, the first line of a longer one, or an element without a body. -/
def openElement (st : ParseState) (trimmed : Text) (tag : Tag) : ParseState :=
  match extractSingleLine trimmed tag with
  | some body => st.store tag body
  | none =>
      match extractOpenOnly trimmed with
      | some part => { st with multi := ⟨some tag, part⟩ }
      | none => st

/-- A line of an element that is still open. -/
def continueElement (st : ParseState) (tag : Tag) (line : Text) : ParseState :=
  match find tag.closeMarker line with
  | some closeIdx =>
      let body := appendToAccumulator st.multi.accumulator (xmlUnescape (line.take closeIdx))
      { st.store tag body with multi := {} }
  | none => { st with multi := ⟨some tag, appendToAccumulator st.multi.accumulator (xmlUnescape line)⟩ }

/-- The end of a unit. The first unit with an id stays. -/
def closeUnit (st : ParseState) : ParseState :=
  let taken := { st with currentId := none, currentSource := none }
  match st.currentId, st.currentSource with
  | some id, some source =>
      let note := st.currentNote.or st.currentDeveloperNote
      let unit : TranslationUnit := {
        id, source, note
        objectType := objectTypeFromId id
        objectId := 0
        objectName := objectNameFromNote note
        target := st.currentTarget
        state := st.currentState
        developerNote := st.currentDeveloperNote
        objectTarget := st.currentObjectTarget }
      { taken with
        units := st.units.add unit
        currentNote := none
        currentTarget := none
        currentDeveloperNote := none
        currentObjectTarget := none }
  | _, _ => taken

def parseLine (st : ParseState) (line : Text) : ParseState :=
  let trimmed := trim line
  match st.multi.targetTag with
  | some tag => st.continueElement tag line
  | none =>
      if startsWith trimmed "<trans-unit " then
        { st with
          currentId := extractXmlAttr trimmed "id"
          currentObjectTarget := extractXmlAttr trimmed "al-object-target"
          currentSource := none
          currentTarget := none
          currentState := .new
          currentNote := none
          currentDeveloperNote := none }
      else if startsWith trimmed "<source" then st.openElement trimmed .source
      else if startsWith trimmed "<target" then
        let stateStr := (extractXmlAttr trimmed "state").getD ""
        { st with currentState := .fromXliffState stateStr }.openElement trimmed .target
      else if startsWith trimmed "<note>" || startsWith trimmed "<note " then
        st.openElement trimmed (if contains trimmed "from=\"Developer\"" then .developerNote else .note)
      else if startsWith trimmed "</trans-unit>" then st.closeUnit
      else st

end ParseState

def parseXliff (content : Text) : LanguageMap := ((textLines content).foldl ParseState.parseLine {}).units

end AlLanguage.Xliff
