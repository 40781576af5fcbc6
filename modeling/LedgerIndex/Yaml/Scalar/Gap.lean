import LedgerIndex.Yaml.Cursor

/-! # Gaps within a scalar

Between the words of a plain or quoted scalar stand gaps: blanks, or line ends with the blanks
around them.  `Gap.folded` is what a gap becomes: blanks stay, a single line end becomes a space,
and of several line ends the first one goes. -/

namespace LedgerIndex.Yaml

/-- A gap: the blanks of a gap without line end, or the line ends of one with.  An escaped line end
makes a gap broken without being its first line end. -/
structure Gap where
  blanks : List Char := []
  broken : Bool := false
  first : Option Char := none
  others : List Char := []
deriving DecidableEq, Repr

namespace Gap

def folded (gap : Gap) : List Char :=
  if gap.broken then
    match gap.first with
    | some '\n' => if gap.others = [] then [' '] else gap.others
    | first => first.toList ++ gap.others
  else gap.blanks

/-- A gap with one more blank, which counts only before the first line end. -/
def addBlank (gap : Gap) (c : Char) : Gap :=
  if gap.broken then gap else { gap with blanks := gap.blanks ++ [c] }

/-- A gap with one more line end. -/
def addLineEnd (gap : Gap) (c : Char) : Gap :=
  if gap.broken then { gap with others := gap.others ++ [c] }
  else { blanks := [], broken := true, first := some c, others := [] }

/-- Extends a gap over at most `fuel` blanks and line ends.  On a line of its own a tab must not
stand left of a given column. -/
def extend (leastTab : Nat) : Nat → Gap → Cursor → Option (Gap × Cursor)
  | 0, gap, cursor => some (gap, cursor)
  | fuel + 1, gap, cursor =>
    match cursor.lineEnd?, cursor.chars with
    | some (c, next), _ => extend leastTab fuel (gap.addLineEnd c) next
    | none, c :: _ =>
      if isBlank c then
        if gap.broken ∧ c = '\t' ∧ cursor.column < leastTab then none
        else extend leastTab fuel (gap.addBlank c) (cursor.skip 1)
      else some (gap, cursor)
    | none, [] => some (gap, cursor)

/-- Extends a gap as far as it goes. -/
def read (leastTab : Nat) (gap : Gap) (cursor : Cursor) : Option (Gap × Cursor) :=
  extend leastTab cursor.chars.length gap cursor

end Gap

end LedgerIndex.Yaml
