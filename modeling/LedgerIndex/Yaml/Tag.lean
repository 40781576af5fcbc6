import LedgerIndex.Bytes
import LedgerIndex.Decimal.Basic
import LedgerIndex.Text.Utf8
import LedgerIndex.Yaml.Cursor
import LedgerIndex.Yaml.Token

/-! # Tags, anchors and directives

The tokens that say something about a node or a document.  A tag is written in full between angle
brackets, or as a handle, which a directive may declare, and a name. -/

namespace LedgerIndex.Yaml.Tag

/-- The name of an anchor or alias, from behind its indicator. -/
def anchorName? (cursor : Cursor) : Option (String × Cursor) :=
  let (name, cursor) := cursor.span isWordChar
  let ends : Bool := match cursor.chars with
    | [] => true
    | c :: _ => isGap c || ['?', ':', ',', ']', '}', '%', '@', '\x60'].contains c
  if name ≠ [] ∧ ends then some (String.ofList name, cursor) else none

/-- A character of a tag name; between angle brackets there are three more. -/
def isNameChar (inBrackets : Bool) (c : Char) : Bool :=
  isWordChar c || [';', '/', '?', ':', '@', '&', '=', '+', '$', '.', '!', '~', '*', '\'', '(', ')',
    '%'].contains c || (inBrackets && [',', '[', ']'].contains c)

/-- The bytes of a tag name, in which a percent sign stands before two hexadecimal digits. -/
def nameBytes? : List Char → Option Bytes
  | [] => some []
  | '%' :: high :: low :: rest =>
    match Bytes.digitValue? high, Bytes.digitValue? low with
    | some h, some l => (nameBytes? rest).map ((h * 16 + l) :: ·)
    | _, _ => none
  | '%' :: _ => none
  | c :: rest => (nameBytes? rest).map (String.utf8EncodeChar c ++ ·)

/-- A tag name, which may be empty. -/
def name? (inBrackets : Bool) (cursor : Cursor) : Option (String × Cursor) :=
  let (chars, cursor) := cursor.span (isNameChar inBrackets)
  ((nameBytes? chars).bind Utf8.decode?).map (·, cursor)

/-- A handle: an exclamation mark, and maybe a word and another one.  The last part of the answer
tells whether the handle is closed by a second mark. -/
def handle? (cursor : Cursor) : Option (String × Bool × Cursor) :=
  match cursor.chars with
  | '!' :: _ =>
    let (word, cursor) := (cursor.skip 1).span isWordChar
    match cursor.chars with
    | '!' :: _ => some ("!" ++ String.ofList word ++ "!", true, cursor.skip 1)
    | _ => some ("!" ++ String.ofList word, false, cursor)
  | _ => none

/-- A tag in full, from behind its opening bracket. -/
def readFull (cursor : Cursor) : Option (Token × Cursor) := do
  let (name, cursor) ← name? true cursor
  match cursor.chars with
  | '>' :: _ => if name = "" then none else return (.tag "" name, cursor.skip 1)
  | _ => none

def readShort (cursor : Cursor) : Option (Token × Cursor) := do
  let (handle, closed, cursor) ← handle? cursor
  let (name, cursor) ← name? false cursor
  if closed then
    if name = "" then none else return (.tag handle name, cursor)
  else
    let name := String.ofList (handle.toList.drop 1) ++ name
    return (if name = "" then .tag "" "!" else .tag "!" name, cursor)

/-- A tag, which a gap has to follow, or a comma in a flow collection. -/
def read (inFlow : Bool) (cursor : Cursor) : Option (Token × Cursor) := do
  let (token, cursor) ← match cursor.chars with
    | '!' :: '<' :: _ => readFull (cursor.skip 2)
    | _ => readShort cursor
  if atGap cursor.chars || (inFlow && cursor.chars.head? == some ',') then return (token, cursor)
  else none

/-- A number of a version, of at most nine digits. -/
def versionNumber? (cursor : Cursor) : Option (Nat × Cursor) :=
  let (digits, cursor) := cursor.span Char.isDigit
  if 9 < digits.length then none else (Decimal.ofDigits? digits).map (·, cursor)

/-- The directive that tells the version. -/
def readVersion (cursor : Cursor) : Option (Token × Cursor) := do
  let (major, cursor) ← versionNumber? (cursor.skipWhile isBlank)
  match cursor.chars with
  | '.' :: _ =>
    let (minor, cursor) ← versionNumber? (cursor.skip 1)
    return (.version major minor, cursor)
  | _ => none

/-- The directive that declares a handle. -/
def readHandle (cursor : Cursor) : Option (Token × Cursor) := do
  let (handle, closed, cursor) ← handle? (cursor.skipWhile isBlank)
  let separated := (cursor.chars.head?.map isBlank).getD false
  if (!closed && handle != "!") || !separated then none
  else
    let (expansion, cursor) ← name? true (cursor.skipWhile isBlank)
    if expansion = "" ∨ !atGap cursor.chars then none
    else return (.tagHandle handle expansion, cursor)

/-- A directive with the rest of its line, from behind its indicator. -/
def readDirective (cursor : Cursor) : Option (Token × Cursor) := do
  let (name, cursor) := cursor.span isWordChar
  let (token, cursor) ←
    if !atGap cursor.chars then none
    else if name = "YAML".toList then readVersion cursor
    else if name = "TAG".toList then readHandle cursor
    else none
  return (token, ← cursor.skipIdle?)

end LedgerIndex.Yaml.Tag
