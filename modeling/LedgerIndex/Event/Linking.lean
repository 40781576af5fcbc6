import LedgerIndex.Json.Record
import LedgerIndex.Json.Rendered

/-! # Links between writes

A chaincode may declare one field of its JSON values as the linking key of its writes, and further
fields that are copied beside it. -/

namespace LedgerIndex

/-- The linking declaration of a chaincode. -/
structure ChaincodeLink where
  name : String
  linkingKey : String
  values : List String
deriving DecidableEq, Repr

/-- A linking key that is neither absent nor null nor a text. -/
structure LinkingError where
  chaincode : String
  key : String
  found : String
deriving DecidableEq, Repr

def LinkingError.message (e : LinkingError) : String :=
  "linking key `" ++ e.key ++ "` of chaincode `" ++ e.chaincode ++ "` holds a " ++ e.found
    ++ " value, expected a string"

namespace ChaincodeLink

/-- The declaration that a JSON record holds; the further fields may be left out. -/
def ofJson? (json : Json) : Option ChaincodeLink := do
  match ← json.record? [["name"], ["linkingKey", "linking_key"], ["values"]] with
  | [some name, some key, values] =>
    let values ← match values with
      | some values => values.strings?
      | none => some []
    return ⟨← name.string?, ← key.string?, values⟩
  | _ => none

/-- The declarations of a JSON array. -/
def listOfJson? (json : Json) : Option (List ChaincodeLink) :=
  json.items?.bind fun items => items.mapM ofJson?

/-- The first declaration of a chaincode. -/
def find? (links : List ChaincodeLink) (chaincode : String) : Option ChaincodeLink :=
  links.find? (·.name == chaincode)

/-- The linking key of a value written by a chaincode: empty without a declaration, without the
field, and where the field is null. -/
def resolve (links : List ChaincodeLink) (chaincode : String) (value : Json) :
    Except LinkingError String :=
  match find? links chaincode with
  | none => .ok ""
  | some link =>
    match value.get? link.linkingKey with
    | none | some .null => .ok ""
    | some (.string key) => .ok key
    | some other => .error ⟨chaincode, link.linkingKey, other.typeName⟩

/-- The linking key that is stored: empty also where the field holds another type. -/
def storedKey (links : List ChaincodeLink) (chaincode : String) (value : Json) : String :=
  match resolve links chaincode value with
  | .ok key => key
  | .error _ => ""

/-- The declared fields that a value has, as an object. -/
def linkedValues (links : List ChaincodeLink) (chaincode : String) (value : Json) : Json :=
  let names := ((find? links chaincode).map (·.values)).getD []
  Json.ofFields (names.filterMap fun name => (value.get? name).map fun v => (name, v))

end ChaincodeLink

end LedgerIndex
