import LedgerIndex.Decimal.Basic
import LedgerIndex.Yaml.Cursor

/-! # Block scalars

A block scalar is made of the lines below its header that are indented alike.  A literal one keeps
its line ends; in a folded one a line end between two lines that begin with no blank becomes a
space, or goes when empty lines follow.  The header tells how deep the lines are indented, or
leaves it to the first line, and what becomes of the line ends behind the last line. -/

namespace LedgerIndex.Yaml.Block

/-- What becomes of the line ends behind the last line: all go, one stays, or all stay. -/
inductive Chomping where
  | strip
  | clip
  | keep
deriving DecidableEq, Repr

/-- The indicators of a header: what becomes of the last line ends, and the depth of indentation
against the surrounding block. -/
structure Header where
  chomping : Chomping := .clip
  depth : Option Nat := none
deriving DecidableEq, Repr

/-- The chomping that a character indicates. -/
def chomping? : Char → Option Chomping
  | '+' => some .keep
  | '-' => some .strip
  | _ => none

/-- The header that remaining characters begin with, and its length; no depth is zero. -/
def header? (cs : List Char) : Option (Header × Nat) :=
  let depth? (c : Char) : Option (Option Nat) :=
    if '1' ≤ c ∧ c ≤ '9' then some (some (Decimal.digitValue c))
    else if c = '0' then some none else none
  match cs with
  | [] => some ({}, 0)
  | c :: rest =>
    match chomping? c, depth? c with
    | some chomping, _ =>
      match rest.head?.bind depth? with
      | some (some depth) => some (⟨chomping, some depth⟩, 2)
      | some none => none
      | none => some (⟨chomping, none⟩, 1)
    | none, some (some depth) =>
      match rest.head?.bind chomping? with
      | some chomping => some (⟨chomping, some depth⟩, 2)
      | none => some (⟨.clip, some depth⟩, 1)
    | none, some none => none
    | none, none => some ({}, 0)

/-- Empty lines: their line ends, the greatest column that was reached, and the cursor at the first
line that is not empty. -/
structure EmptyLines where
  ends : List Char
  column : Nat
  cursor : Cursor
deriving DecidableEq, Repr

/-- Skips spaces, up to a column if one is given. -/
def skipSpaces (limit : Option Nat) (cursor : Cursor) : Cursor :=
  let spaces := (cursor.chars.takeWhile (· == ' ')).length
  cursor.skip (match limit with
    | some limit => min spaces (limit - cursor.column)
    | none => spaces)

/-- Reads at most `fuel` empty lines; no tab stands within the indentation. -/
def readEmpty (limit : Option Nat) : Nat → List Char → Nat → Cursor → Option EmptyLines
  | 0, _, _, _ => none
  | fuel + 1, ends, column, cursor =>
    let cursor := skipSpaces limit cursor
    let column := max column cursor.column
    if limit.all (cursor.column < ·) && cursor.chars.head? == some '\t' then none
    else
      match cursor.lineEnd? with
      | some (c, next) => readEmpty limit fuel (ends ++ [c]) column next
      | none => some ⟨ends, column, cursor⟩

def empty? (limit : Option Nat) (cursor : Cursor) : Option EmptyLines :=
  readEmpty limit (cursor.chars.length + 1) [] 0 cursor

/-- A scalar so far: its text, the line end behind its last line, the line ends of the empty lines
that follow, and whether its last line begins with a blank. -/
structure State where
  text : List Char := []
  lineEnd : Option Char := none
  emptyEnds : List Char
  startsBlank : Bool := false
deriving DecidableEq, Repr

/-- The text with the line ends before one more line, which may begin with a blank. -/
def State.joined (state : State) (folded blank : Bool) : List Char :=
  if folded && state.lineEnd == some '\n' && !state.startsBlank && !blank then
    state.text ++ (if state.emptyEnds = [] then [' '] else state.emptyEnds)
  else state.text ++ state.lineEnd.toList ++ state.emptyEnds

/-- Reads at most `fuel` lines that are indented to a column. -/
def readLines (folded : Bool) (indent : Nat) : Nat → State → Cursor → Option (State × Cursor)
  | 0, state, cursor => some (state, cursor)
  | fuel + 1, state, cursor =>
    if cursor.column = indent ∧ cursor.chars ≠ [] then
      let blank := (cursor.chars.head?.map isBlank).getD false
      let (line, behind) := cursor.span fun c => !isBreak c
      let (lineEnd, next) := match behind.lineEnd? with
        | some (c, next) => (some c, next)
        | none => (none, behind)
      match empty? (some indent) next with
      | none => none
      | some empty =>
        readLines folded indent fuel
          ⟨state.joined folded blank ++ line, lineEnd, empty.ends, blank⟩ empty.cursor
    else some (state, cursor)

/-- The text of a scalar whose last line has been read. -/
def State.finish (state : State) : Chomping → List Char
  | .strip => state.text
  | .clip => state.text ++ state.lineEnd.toList
  | .keep => state.text ++ state.lineEnd.toList ++ state.emptyEnds

/-- Reads a block scalar from behind its indicator; `least` is the first column of a line within
the surrounding block, and `base` the column that a depth in the header counts from. -/
def read (folded : Bool) (least base : Nat) (cursor : Cursor) : Option (List Char × Cursor) := do
  let (header, length) ← header? cursor.chars
  let cursor ← (cursor.skip length).skipIdle?
  let limit := header.depth.map (base + ·)
  let empty ← empty? limit cursor
  let indent := limit.getD (max empty.column (max least 1))
  let (state, cursor) ← readLines folded indent (cursor.chars.length + 1)
    { emptyEnds := empty.ends } empty.cursor
  return (state.finish header.chomping, cursor)

end LedgerIndex.Yaml.Block
