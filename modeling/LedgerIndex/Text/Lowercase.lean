import LedgerIndex.Text.CaseTable

/-! # Lowercase text

The lowercase of a text, character by character, with two exceptions: a capital I with a dot above
keeps its dot as a combining mark, and a capital sigma at the end of a word becomes a final sigma.
A sigma ends a word when a cased character comes before it and none after it, ignorable characters
passed over. -/

namespace LedgerIndex.Lowercase

open CaseTable

/-- The first character that is not ignorable is cased. -/
def reachesCased (cs : List Char) : Bool :=
  match cs.dropWhile isIgnorable with
  | c :: _ => isCased c
  | [] => false

/-- The lowercase of a character between the characters before it, last first, and after it. -/
def lowerBetween (before : List Char) (c : Char) (after : List Char) : List Char :=
  if c = 'Σ' then
    if reachesCased before && !reachesCased after then ['ς'] else ['σ']
  else if c = 'İ' then ['i', '\u0307']
  else [lower c]

/-- The lowercase of the characters behind `before`, last first. -/
def chars (before : List Char) : List Char → List Char
  | [] => []
  | c :: after => lowerBetween before c after ++ chars (c :: before) after

end LedgerIndex.Lowercase

namespace LedgerIndex

def lowercase (text : String) : String :=
  String.ofList (Lowercase.chars [] text.toList)

end LedgerIndex
