import LedgerIndex.Yaml.Resolved

/-! # Records in a document

Reading the nodes of a document as texts, lists, maps and records.  A scalar of any form is a text;
an empty plain scalar is also an empty list and an empty map.  In a record each declared field
occurs at most once, and other fields are passed over. -/

namespace LedgerIndex.Yaml.Document

def text? (document : Document) (node : Node) : Option String :=
  match document.follow node with
  | .scalar scalar => some scalar.text
  | _ => none

/-- An empty scalar without quotation marks. -/
def isBare (scalar : Scalar) : Bool :=
  scalar.plain && scalar.text == ""

def items? (document : Document) (node : Node) : Option (List Node) :=
  match document.follow node with
  | .sequence items => some items
  | .scalar scalar => if isBare scalar then some [] else none
  | _ => none

/-- The texts of a sequence of texts. -/
def texts? (document : Document) (node : Node) : Option (List String) :=
  (document.items? node).bind fun items => items.mapM document.text?

/-- The entries of a mapping whose keys are texts. -/
def entries? (document : Document) (node : Node) : Option (List (String × Node)) :=
  match document.follow node with
  | .mapping entries => entries.mapM fun (key, value) => (document.text? key).map (·, value)
  | .scalar scalar => if isBare scalar then some [] else none
  | _ => none

/-- The only value of a field; the field is absent, or it occurs once. -/
def onlyField? (entries : List (String × Node)) (names : List String) : Option (Option Node) :=
  match entries.filter (fun entry => entry.1 ∈ names) with
  | [] => some none
  | [(_, value)] => some (some value)
  | _ => none

/-- The declared fields of a record, absent ones as `none`; a field may have several names. -/
def record? (document : Document) (declared : List (List String)) (node : Node) :
    Option (List (Option Node)) :=
  (document.entries? node).bind fun entries => declared.mapM (onlyField? entries)

/-- A value that may be null; a node is null if it is a plain scalar that is empty or reads as null.
A scalar tagged as null has to read so. -/
def optional? {α : Type} (document : Document) (read : Node → Option α) (node : Node) :
    Option (Option α) :=
  match document.follow node with
  | .scalar scalar =>
    let isNull := Resolved.nullTexts.contains scalar.text
    if !scalar.plain then (read node).map some
    else if scalar.tag = some "tag:yaml.org,2002:null" then
      if isNull then some none else none
    else if scalar.tag.isNone && (isNull || scalar.text == "") then some none
    else (read node).map some
  | _ => (read node).map some

/-- The value of a field that may be absent, in which case it has a default. -/
def fieldOr {α : Type} (default : α) (read : Node → Option α) : Option Node → Option α
  | some node => read node
  | none => some default

end LedgerIndex.Yaml.Document
