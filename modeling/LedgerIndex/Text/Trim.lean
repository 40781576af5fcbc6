/-! # White space around a text

The white space of Unicode, and texts without it at their ends. -/

namespace LedgerIndex.Text

/-- The numbers of the white-space characters that do not lie in a range. -/
def singleSpaces : List Nat :=
  [0x20, 0x85, 0xA0, 0x1680, 0x2028, 0x2029, 0x202F, 0x205F, 0x3000]

/-- White space. -/
def isSpace (c : Char) : Bool :=
  (0x09 ≤ c.toNat && c.toNat ≤ 0x0D) || (0x2000 ≤ c.toNat && c.toNat ≤ 0x200A)
    || singleSpaces.contains c.toNat

/-- A text without white space at its end. -/
def trimEnd (cs : List Char) : List Char :=
  (cs.reverse.dropWhile isSpace).reverse

/-- A text without white space at its ends. -/
def trim (cs : List Char) : List Char :=
  trimEnd (cs.dropWhile isSpace)

/-- What stands before a given ending. -/
def before? (ending cs : List Char) : Option (List Char) :=
  if ending <:+ cs then some (cs.take (cs.length - ending.length)) else none

end LedgerIndex.Text
