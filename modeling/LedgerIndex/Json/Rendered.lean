import LedgerIndex.Json.Reader

/-! # Bytes shown as JSON

A byte string that is a JSON text is shown as the value it writes, any other as a string. -/

namespace LedgerIndex.Json

/-- The value of a JSON text, or the lossy text of any other byte string. -/
def rendered (bytes : Bytes) : Json :=
  match ofBytes? bytes with
  | some json => json.canonical
  | none => .string (Utf8.lossy bytes)

/-- The name of the type of a value. -/
def typeName : Json → String
  | .null => "null"
  | .bool _ => "boolean"
  | .number _ => "number"
  | .string _ => "string"
  | .array _ => "array"
  | .object _ => "object"

end LedgerIndex.Json
