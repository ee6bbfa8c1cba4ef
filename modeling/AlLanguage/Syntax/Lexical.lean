import AlLanguage.Library.Lookahead
import AlLanguage.Library.Offsets

/-!
# Lexical spans of a line

Code, quoted text and comments of one physical line. An open block comment is carried from line to line.
-/

namespace AlLanguage.Syntax

open Library

/-- `str::as_bytes`. -/
def asBytes (text : List Char) : List UInt8 := text.flatMap String.utf8EncodeChar

def newline : UInt8 := 10

def carriageReturn : UInt8 := 13

def doubleQuote : UInt8 := 34

def singleQuote : UInt8 := 39

def star : UInt8 := 42

def slash : UInt8 := 47

inductive SpanKind where
  | code
  | string
  | lineComment
  | blockComment
  deriving DecidableEq

structure Span where
  kind : SpanKind
  start : Nat
  text : List UInt8
  deriving DecidableEq

/-! ## The ends of spans -/

/-- The bytes up to the end of a block comment. -/
def closing : List UInt8 → Option Nat
  | [] => none
  | b :: rest => if b = star ∧ rest.head? = some slash then some 2 else (closing rest).map (· + 1)

/-- The bytes behind the opening quote, up to the closing one or the end. A doubled quote is content. -/
def quotedLength (quote : UInt8) : List UInt8 → Nat
  | [] => 0
  | [_] => 1
  | b :: c :: rest =>
      if b = quote then if c = quote then quotedLength quote rest + 2 else 1
      else quotedLength quote (c :: rest) + 1

/-- A quote or the opening of a comment. -/
def breaksCode (b : UInt8) (ahead : Option UInt8) : Bool :=
  b = singleQuote || b = doubleQuote || (b = slash && (ahead = some slash || ahead = some star))

def codeLength : List UInt8 → Nat
  | [] => 0
  | b :: rest => if breaksCode b rest.head? then 0 else codeLength rest + 1

/-! ## The scanner -/

structure LineScanner where
  line : List UInt8
  offset : Nat
  inBlockComment : Bool

namespace LineScanner

def new (line : List Char) (inBlockComment : Bool) : LineScanner := ⟨asBytes line, 0, inBlockComment⟩

def endsInBlockComment (s : LineScanner) : Bool := s.inBlockComment

/-- The line from one byte to another. -/
def slice (s : LineScanner) (start stop : Nat) : List UInt8 := (s.line.take stop).drop start

def blockComment (s : LineScanner) (start contentStart : Nat) : Span × LineScanner :=
  match closing (s.line.drop contentStart) with
  | some length =>
      (⟨.blockComment, start, s.slice start (contentStart + length)⟩,
        { s with offset := contentStart + length, inBlockComment := false })
  | none => (⟨.blockComment, start, s.line.drop start⟩, { s with offset := s.line.length, inBlockComment := true })

def next (s : LineScanner) : Option (Span × LineScanner) :=
  let start := s.offset
  match s.line.drop start with
  | [] => none
  | b :: rest =>
      if s.inBlockComment then some (s.blockComment start start)
      else if b = singleQuote ∨ b = doubleQuote then
        let stop := start + 1 + quotedLength b rest
        some (⟨.string, start, s.slice start stop⟩, { s with offset := stop })
      else if b = slash ∧ rest.head? = some slash then
        some (⟨.lineComment, start, s.line.drop start⟩, { s with offset := s.line.length })
      else if b = slash ∧ rest.head? = some star then
        some ({ s with inBlockComment := true }.blockComment start (start + 2))
      else
        let stop := start + 1 + codeLength rest
        some (⟨.code, start, s.slice start stop⟩, { s with offset := stop })

/-- The spans up to the end, each of a byte at least, and the scanner behind them. -/
def spansWithin : Nat → LineScanner → List Span × LineScanner
  | 0, s => ([], s)
  | fuel + 1, s =>
      match s.next with
      | none => ([], s)
      | some (span, s') =>
          let (later, last) := spansWithin fuel s'
          (span :: later, last)

end LineScanner

def scanLine (line : List Char) (inBlockComment : Bool) : List Span × LineScanner :=
  (LineScanner.new line inBlockComment).spansWithin (asBytes line).length

/-! ## The lines of a file -/

/-- `str::lines`, each line with its terminator. A carriage return belongs to the line feed behind it, and there is no empty line at
the end. -/
def fileLines : List Char → List (List Char × List Char)
  | [] => []
  | '\n' :: rest => ([], ['\n']) :: fileLines rest
  | '\r' :: '\n' :: rest => ([], ['\r', '\n']) :: fileLines rest
  | c :: rest =>
      match fileLines rest with
      | [] => [([c], [])]
      | (line, terminator) :: later => (c :: line, terminator) :: later

/-- The kind of every byte of the lines, and the flag that is carried out. -/
def scanLines : (inBlockComment : Bool) → List (List Char) → List (List SpanKind) × Bool
  | inBlockComment, [] => ([], inBlockComment)
  | inBlockComment, line :: rest =>
      let (spans, last) := scanLine line inBlockComment
      let (later, carried) := scanLines last.endsInBlockComment rest
      (spans.flatMap (fun span => List.replicate span.text.length span.kind) :: later, carried)

end AlLanguage.Syntax
