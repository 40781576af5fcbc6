import LedgerIndex.Json.Basic
import LedgerIndex.Json.Double

/-! # Compact JSON text

`Json.write v rest` is the compact text of `v` followed by `rest`: no blanks, fields in the order
of the object, and in strings an escape only for the quotation mark, the backslash and the
controls below U+0020. -/

namespace LedgerIndex.Json

/-- The lowercase hexadecimal digit of a number below sixteen. -/
def hexDigit (n : Nat) : Char :=
  if n < 10 then Char.ofNat (48 + n) else Char.ofNat (87 + n)

/-- A character as it stands inside a string. -/
def escape (c : Char) : List Char :=
  match c with
  | '"' => ['\\', '"']
  | '\\' => ['\\', '\\']
  | '\x08' => ['\\', 'b']
  | '\x0c' => ['\\', 'f']
  | '\n' => ['\\', 'n']
  | '\r' => ['\\', 'r']
  | '\t' => ['\\', 't']
  | _ =>
    if c.toNat < 0x20 then ['\\', 'u', '0', '0', hexDigit (c.toNat / 16), hexDigit (c.toNat % 16)]
    else [c]

/-- A quoted string, followed by `rest`. -/
def writeString (s : String) (rest : List Char) : List Char :=
  '"' :: s.toList.foldr (fun c tail => escape c ++ tail) ('"' :: rest)

def Number.chars : Number → List Char
  | .integer (.ofNat n) => Decimal.digits n
  | .integer (.negSucc n) => '-' :: Decimal.digits (n + 1)
  | .double bits => Double.chars bits

mutual

/-- The compact text of a value, followed by `rest`. -/
def write : Json → List Char → List Char
  | .null, rest => 'n' :: 'u' :: 'l' :: 'l' :: rest
  | .bool true, rest => 't' :: 'r' :: 'u' :: 'e' :: rest
  | .bool false, rest => 'f' :: 'a' :: 'l' :: 's' :: 'e' :: rest
  | .number n, rest => n.chars ++ rest
  | .string s, rest => writeString s rest
  | .array [], rest => '[' :: ']' :: rest
  | .array (item :: items), rest => '[' :: write item (writeItems items rest)
  | .object [], rest => '\x7b' :: '\x7d' :: rest
  | .object ((key, value) :: fields), rest =>
    '\x7b' :: writeString key (':' :: write value (writeFields fields rest))

/-- The further items of an array, each after a comma, the closing bracket, and `rest`. -/
def writeItems : List Json → List Char → List Char
  | [], rest => ']' :: rest
  | item :: items, rest => ',' :: write item (writeItems items rest)

/-- The further fields of an object, each after a comma, the closing brace, and `rest`. -/
def writeFields : List (String × Json) → List Char → List Char
  | [], rest => '\x7d' :: rest
  | (key, value) :: fields, rest =>
    ',' :: writeString key (':' :: write value (writeFields fields rest))

end

def text (json : Json) : String :=
  String.ofList (json.write [])

end LedgerIndex.Json
