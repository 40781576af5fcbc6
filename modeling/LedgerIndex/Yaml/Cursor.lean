/-! # A place in a text of lines

A cursor is what remains of a text, together with the line and the column where it begins.  Lines
end with a line feed, a carriage return or both, with U+0085, or with one of the separators U+2028
and U+2029; the first four of them read as a line feed. -/

namespace LedgerIndex.Yaml

def isBreak (c : Char) : Bool :=
  c == '\n' || c == '\r' || c == '\u0085' || c == '\u2028' || c == '\u2029'

def isBlank (c : Char) : Bool :=
  c == ' ' || c == '\t'

/-- A blank or the end of a line. -/
def isGap (c : Char) : Bool :=
  isBlank c || isBreak c

/-- The remaining characters begin with a gap, or there are none. -/
def atGap : List Char → Bool
  | [] => true
  | c :: _ => isGap c

/-- A character of names: a letter or digit of ASCII, a hyphen or an underscore. -/
def isWordChar (c : Char) : Bool :=
  ('0' ≤ c && c ≤ '9') || ('A' ≤ c && c ≤ 'Z') || ('a' ≤ c && c ≤ 'z') || c == '_' || c == '-'

/-- The characters that a text may hold: no controls besides tab and the ends of lines, and no
noncharacters of the first plane. -/
def isAllowed (c : Char) : Bool :=
  c == '\t' || c == '\n' || c == '\r' || (' ' ≤ c && c ≤ '~') || c == '\u0085'
    || ('\u00A0' ≤ c && c ≤ '\uFFFD') || 0x10000 ≤ c.toNat

/-- What remains of a text, where it begins, and how many characters come before it. -/
structure Cursor where
  chars : List Char
  index : Nat := 0
  line : Nat := 0
  column : Nat := 0
deriving DecidableEq, Repr

namespace Cursor

/-- The cursor behind some characters of the same line, and what then remains. -/
def behind (cursor : Cursor) (count : Nat) (rest : List Char) : Cursor :=
  { cursor with
    chars := rest
    index := cursor.index + count
    column := cursor.column + count }

/-- The cursor behind a number of characters of the same line. -/
def skip (cursor : Cursor) (count : Nat) : Cursor :=
  cursor.behind count (cursor.chars.drop count)

/-- The characters from the cursor on that satisfy a test, which no end of a line does, and the
cursor behind them. -/
def span (cursor : Cursor) (test : Char → Bool) : List Char × Cursor :=
  let taken := cursor.chars.takeWhile test
  (taken, cursor.behind taken.length (cursor.chars.dropWhile test))

/-- The cursor behind the characters that satisfy a test. -/
def skipWhile (cursor : Cursor) (test : Char → Bool) : Cursor :=
  (cursor.span test).2

/-- The cursor at the beginning of the next line. -/
def newLine (cursor : Cursor) (count : Nat) (rest : List Char) : Cursor :=
  ⟨rest, cursor.index + count, cursor.line + 1, 0⟩

/-- The end of a line as it reads, and the cursor behind it. -/
def lineEnd? (cursor : Cursor) : Option (Char × Cursor) :=
  match cursor.chars with
  | '\r' :: '\n' :: rest => some ('\n', cursor.newLine 2 rest)
  | '\u2028' :: rest => some ('\u2028', cursor.newLine 1 rest)
  | '\u2029' :: rest => some ('\u2029', cursor.newLine 1 rest)
  | c :: rest => if isBreak c then some ('\n', cursor.newLine 1 rest) else none
  | [] => none

/-- The cursor behind the rest of a line that holds nothing but blanks and a comment. -/
def skipIdle? (cursor : Cursor) : Option Cursor :=
  let cursor := cursor.skipWhile isBlank
  let cursor := match cursor.chars with
    | '#' :: _ => cursor.skipWhile fun c => !isBreak c
    | _ => cursor
  match cursor.lineEnd?, cursor.chars with
  | some (_, cursor), _ => some cursor
  | none, [] => some cursor
  | none, _ => none

/-- A line that marks the beginning or the end of a document. -/
def atDocumentMark (cursor : Cursor) : Bool :=
  cursor.column = 0 &&
    match cursor.chars with
    | '-' :: '-' :: '-' :: rest => atGap rest
    | '.' :: '.' :: '.' :: rest => atGap rest
    | _ => false

end Cursor

end LedgerIndex.Yaml
