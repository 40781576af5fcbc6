import LedgerIndex.Yaml.Scalar.Gap

/-! # Plain scalars

A plain scalar is a run of words without quotation marks.  It ends before a colon that a gap
follows, before a comment, before a mark of a document, and on a line that is not indented enough;
in a flow collection it also ends before the characters of these collections. -/

namespace LedgerIndex.Yaml.Plain

/-- The characters that divide flow collections. -/
def isFlowMark (c : Char) : Bool :=
  c == ',' || c == '[' || c == ']' || c == '{' || c == '}'

/-- The remaining characters begin with one that must not follow a colon in a flow collection. -/
def atForbidden : List Char → Bool
  | c :: _ => isFlowMark c || c == '?'
  | [] => false

/-- The word that remaining characters begin with, and what follows it. -/
def word? (inFlow : Bool) : List Char → Option (List Char × List Char)
  | [] => some ([], [])
  | c :: rest =>
    if isGap c then some ([], c :: rest)
    else if inFlow ∧ c = ':' ∧ atForbidden rest then none
    else if (c = ':' ∧ atGap rest) ∨ (inFlow ∧ isFlowMark c) then some ([], c :: rest)
    else (word? inFlow rest).map fun (word, rest) => (c :: word, rest)

/-- A plain scalar, and whether its reading went on to a line of which nothing belongs to it. -/
structure Result where
  text : List Char
  onNewLine : Bool
  cursor : Cursor
deriving DecidableEq, Repr

def atComment (cursor : Cursor) : Bool :=
  cursor.chars.head? == some '#'

/-- Reads at most `fuel` words behind a gap. -/
def readWords (inFlow : Bool) (indent : Nat) : Nat → List Char → Gap → Cursor → Option Result
  | 0, _, _, _ => none
  | fuel + 1, done, gap, cursor =>
    if cursor.atDocumentMark || atComment cursor then some ⟨done, gap.broken, cursor⟩
    else
      match word? inFlow cursor.chars with
      | none => none
      | some (word, rest) =>
        let behind := cursor.behind word.length rest
        if word = [] then some ⟨done, gap.broken, cursor⟩
        else if rest = [] ∨ !atGap rest then some ⟨done ++ gap.folded ++ word, false, behind⟩
        else
          match Gap.read indent {} behind with
          | none => none
          | some (next, cursor) =>
            let done := done ++ gap.folded ++ word
            if !inFlow && cursor.column < indent then some ⟨done, next.broken, cursor⟩
            else readWords inFlow indent fuel done next cursor

/-- Reads a plain scalar whose further lines are indented to a column at least. -/
def read (inFlow : Bool) (indent : Nat) (cursor : Cursor) : Option Result :=
  readWords inFlow indent (cursor.chars.length + 1) [] {} cursor

end LedgerIndex.Yaml.Plain
