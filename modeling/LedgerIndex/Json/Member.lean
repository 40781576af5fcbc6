import LedgerIndex.Json.Reader

/-! # Reading records of one declared field

A record with one declared field is read from an object in which the field occurs once, or from an
array that holds its value alone.  Other fields of the object are passed over: they hold any JSON
text, of any depth, with numbers of any magnitude and with surrogates on their own. -/

namespace LedgerIndex.Json

/-! ### Passing over a value -/

/-- Passes over an escape, from behind its backslash. -/
def skipEscape : Read Char
  | [] => none
  | c :: rest =>
    if c = 'u' then (readUnit rest).map fun (_, rest) => ('\uFFFD', rest)
    else (shortEscape? c).map (·, rest)

def skipNumber : Read Number := fun cs =>
  (readNumeral cs).map fun (_, rest) => (.integer 0, rest)

/-- Strings with any escapes, and numbers of any magnitude. -/
def loose : Scanner :=
  ⟨readQuoted skipEscape, skipNumber⟩

/-- Passes over a value of any depth. -/
def skipValue : Read Unit := fun cs =>
  (readTree loose cs.length cs).map fun (_, rest) => ((), rest)

/-! ### Reading a field -/

def readText : Read String
  | '"' :: rest => readString rest
  | _ => none

/-- Reads a number of sixty-four bits. -/
def readUInt64 : Read Nat := fun cs =>
  match readNumber cs with
  | some (n, rest) => (Json.number n).uint64?.map (·, rest)
  | none => none

/-- Reads an array whose items are all read alike. -/
def readArrayOf {α : Type} (read : Read α) : Read (List α)
  | '[' :: rest => readSequence ']' read rest
  | _ => none

/-- Reads the value of the declared field, and passes over the value of any other. -/
def readDeclared {α : Type} (name : String) (read : Read α) : Read (Option α) :=
  readMember readString fun key cs =>
    if key = name then (read cs).map fun (a, rest) => (some a, rest)
    else (skipValue cs).map fun (_, rest) => (none, rest)

/-- Reads a record with one declared field. -/
def readRecord {α : Type} (name : String) (read : Read α) : Read α
  | '\x7b' :: rest =>
    match readSequence '\x7d' (readDeclared name read) rest with
    | some (members, rest) =>
      match members.filterMap id with
      | [a] => some (a, rest)
      | _ => none
    | none => none
  | '[' :: rest =>
    match readSequence ']' read rest with
    | some ([a], rest) => some (a, rest)
    | _ => none
  | _ => none

end LedgerIndex.Json
