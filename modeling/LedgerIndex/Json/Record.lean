import LedgerIndex.Json.Basic

/-! # Records in JSON

A record with declared fields is read from an object, where each declared field occurs at most once
and other fields are passed over, or from an array that lists the declared fields in order.  A field
may be declared under several names. -/

namespace LedgerIndex.Json

/-- The only value of a field in an object; the field is absent, or it occurs once. -/
def onlyField? (fields : List (String × Json)) (names : List String) : Option (Option Json) :=
  match fields.filter (fun field => field.1 ∈ names) with
  | [] => some none
  | [(_, value)] => some (some value)
  | _ => none

/-- The declared fields of a record, absent ones as `none`. -/
def record? (declared : List (List String)) : Json → Option (List (Option Json))
  | .object fields => declared.mapM (onlyField? fields)
  | .array items =>
    if items.length ≤ declared.length then
      some ((items.map some) ++ List.replicate (declared.length - items.length) none)
    else none
  | _ => none

def items? : Json → Option (List Json)
  | .array items => some items
  | _ => none

/-- The texts of an array of texts. -/
def strings? (json : Json) : Option (List String) :=
  json.items?.bind fun items => items.mapM string?

end LedgerIndex.Json
