/-! # JSON values

A value of the JSON data model.  An object is a list of fields in which every key occurs once;
`Json.ofFields` builds it in the order of the keys, the last of two equal keys winning.  A number
is an integer or a double-precision number, kept as its bits so that equality is decidable. -/

namespace LedgerIndex

inductive Json.Number where
  | integer (value : Int)
  | double (bits : UInt64)
deriving DecidableEq, Repr

inductive Json where
  | null
  | bool (value : Bool)
  | number (value : Json.Number)
  | string (value : String)
  | array (items : List Json)
  | object (fields : List (String × Json))
deriving Repr, Inhabited

namespace Json

/-- Puts a field at its place in the order of the keys, over a field of the same key. -/
def insertField (key : String) (value : Json) : List (String × Json) → List (String × Json)
  | [] => [(key, value)]
  | (k, v) :: rest =>
    if key < k then (key, value) :: (k, v) :: rest
    else if key = k then (key, value) :: rest
    else (k, v) :: insertField key value rest

/-- The object with these fields, the last of equal keys winning. -/
def ofFields (fields : List (String × Json)) : Json :=
  .object (fields.foldl (fun sorted field => insertField field.1 field.2 sorted) [])

/-- The number with this natural value. -/
def nat (n : Nat) : Json :=
  .number (.integer n)

/-- The number with this integer value. -/
def int (n : Int) : Json :=
  .number (.integer n)

def ofString? : Option String → Json
  | some s => .string s
  | none => .null

def ofStrings (texts : List String) : Json :=
  .array (texts.map .string)

/-- The field of an object with this key. -/
def get? (json : Json) (key : String) : Option Json :=
  match json with
  | .object fields => fields.lookup key
  | _ => none

/-- The natural number that a value is, when it is at most `bound`. -/
def natural? (bound : Nat) : Json → Option Nat
  | .number (.integer (.ofNat n)) => if n ≤ bound then some n else none
  | _ => none

/-- The number of sixty-four bits that a value is. -/
def uint64? (json : Json) : Option Nat :=
  json.natural? (UInt64.size - 1)

def string? : Json → Option String
  | .string s => some s
  | _ => none

end Json

end LedgerIndex
