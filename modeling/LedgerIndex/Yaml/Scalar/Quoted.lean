import LedgerIndex.Bytes
import LedgerIndex.Yaml.Scalar.Gap

/-! # Quoted scalars

Between single quotation marks a doubled mark stands for one; between double ones a backslash begins
an escape, and at the end of a line it joins the next line without a space.  Gaps are folded. -/

namespace LedgerIndex.Yaml.Quoted

/-- The number of hexadecimal digits behind the letter of an escape. -/
def digitCount? : Char → Option Nat
  | 'x' => some 2
  | 'u' => some 4
  | 'U' => some 8
  | _ => none

/-- The character of an escape of one letter. -/
def shortEscape? : Char → Option Char
  | '0' => some '\x00'
  | 'a' => some '\x07'
  | 'b' => some '\x08'
  | 't' | '\t' => some '\t'
  | 'n' => some '\n'
  | 'v' => some '\x0b'
  | 'f' => some '\x0c'
  | 'r' => some '\r'
  | 'e' => some '\x1b'
  | ' ' => some ' '
  | '"' => some '"'
  | '/' => some '/'
  | '\\' => some '\\'
  | 'N' => some '\u0085'
  | '_' => some '\u00a0'
  | 'L' => some '\u2028'
  | 'P' => some '\u2029'
  | _ => none

/-- The number that hexadecimal digits write. -/
def hexNumber? (digits : List Char) : Option Nat :=
  digits.foldlM (fun n c => (Bytes.digitValue? c).map fun digit => n * 16 + digit.toNat) 0

/-- The character with a number that is one of a character. -/
def char? (n : Nat) : Option Char :=
  if h : n.isValidChar then some (Char.ofNatAux n h) else none

/-- The character of an escape, from behind its backslash, and the number of characters read. -/
def escape? : List Char → Option (Char × Nat)
  | [] => none
  | c :: rest =>
    match digitCount? c with
    | none => (shortEscape? c).map (·, 1)
    | some count =>
      if rest.length < count then none
      else (hexNumber? (rest.take count)).bind char? |>.map (·, 1 + count)

/-- How a run without gaps ends: before a gap or the end of the text, behind the closing mark, or
behind an escaped line end. -/
inductive Ending where
  | gap
  | closed
  | joined
deriving DecidableEq, Repr

/-- Reads at most `fuel` characters of a run. -/
def readRun (mark : Char) : Nat → List Char → Cursor → Option (List Char × Ending × Cursor)
  | 0, done, cursor => some (done, .gap, cursor)
  | fuel + 1, done, cursor =>
    match cursor.chars with
    | [] => some (done, .gap, cursor)
    | c :: rest =>
      if isGap c then some (done, .gap, cursor)
      else if c = mark then
        if mark = '\'' ∧ rest.head? = some mark then
          readRun mark fuel (done ++ [mark]) (cursor.skip 2)
        else some (done, .closed, cursor.skip 1)
      else if c = '\\' ∧ mark = '"' then
        match (cursor.skip 1).lineEnd?, escape? rest with
        | some (_, next), _ => some (done, .joined, next)
        | none, some (e, count) => readRun mark fuel (done ++ [e]) (cursor.skip (1 + count))
        | none, none => none
      else readRun mark fuel (done ++ [c]) (cursor.skip 1)

/-- Reads at most `fuel` runs up to the closing mark. -/
def readRuns (mark : Char) : Nat → List Char → Cursor → Option (List Char × Cursor)
  | 0, _, _ => none
  | fuel + 1, done, cursor =>
    if cursor.atDocumentMark || cursor.chars.isEmpty then none
    else
      match readRun mark cursor.chars.length done cursor with
      | none => none
      | some (done, .closed, cursor) => some (done, cursor)
      | some (done, ending, cursor) =>
        if ending = .joined ∧ cursor.chars.head? = some mark then some (done, cursor.skip 1)
        else
          match Gap.read 0 { broken := ending == .joined } cursor with
          | none => none
          | some (gap, cursor) => readRuns mark fuel (done ++ gap.folded) cursor

/-- Reads a quoted scalar from behind its opening mark. -/
def read (mark : Char) (cursor : Cursor) : Option (List Char × Cursor) :=
  readRuns mark (cursor.chars.length + 1) [] cursor

end LedgerIndex.Yaml.Quoted
