import LedgerIndex.CommandLine.Value
import LedgerIndex.Entries
import LedgerIndex.Url.Host

/-! # Reading options

A command line is a list of options, each with two hyphens in front and a value behind it, in the
same word after an equals sign or as the next word.  A value in a word of its own is checked when
the next option comes, or at the end.  Options that are not given take their values from variables
of the environment. -/

namespace LedgerIndex.CommandLine

/-- An option: its name, the form of its values, the variable that stands in for it, whether it may
be given several times and with several values divided by commas, and whether it must be given. -/
structure OptionSpec where
  name : String
  form : ValueForm
  environmentName : Option String := none
  repeated : Bool := false
  required : Bool := false
deriving DecidableEq, Repr

/-- The values of the options that are given. -/
abbrev Values := List (String × List Value)

namespace Values

def last? (values : Values) (name : String) : Option Value :=
  (Entries.get? name values).bind (·.getLast?)

def text? (values : Values) (name : String) : Option String :=
  match values.last? name with
  | some (.text text) => some text
  | _ => none

def url? (values : Values) (name : String) : Option Url :=
  match values.last? name with
  | some (.url url) => some url
  | _ => none

def natural? (values : Values) (name : String) : Option Nat :=
  match values.last? name with
  | some (.natural number) => some number
  | _ => none

def bytes? (values : Values) (name : String) : Option Bytes :=
  match values.last? name with
  | some (.bytes bytes) => some bytes
  | _ => none

def texts (values : Values) (name : String) : List String :=
  ((Entries.get? name values).getD []).filterMap fun value =>
    match value with
    | .text text => some text
    | _ => none

end Values

namespace OptionSpec

/-- The words of a value: several where the option may be repeated. -/
def words (spec : OptionSpec) (text : String) : List String :=
  if spec.repeated then (Host.splitAt ',' text.toList).map String.ofList else [text]

def give (spec : OptionSpec) (values : Values) (text : String) : Except UsageError Values := do
  let before := Entries.get? spec.name values
  if before.isSome ∧ !spec.repeated then throw .argumentConflict
  let read ← (spec.words text).mapM spec.form.read
  return Entries.put spec.name (before.getD [] ++ read) values

end OptionSpec

/-- The values so far, and the option whose value is the next word, or has been and is still to be
checked. -/
structure Reading where
  values : Values := []
  pending : Option (OptionSpec × Option String) := none
deriving DecidableEq, Repr

namespace Reading

/-- Checks the value of the option that is pending. -/
def settle (reading : Reading) : Except UsageError Reading :=
  match reading.pending with
  | none => .ok reading
  | some (_, none) => .error .invalidValue
  | some (spec, some text) => (spec.give reading.values text).map fun values => ⟨values, none⟩

/-- A name and the value in the same word, divided by the first equals sign. -/
def splitWord (cs : List Char) : String × Option String :=
  let name := String.ofList (cs.takeWhile (· ≠ '='))
  match cs.dropWhile (· ≠ '=') with
  | [] => (name, none)
  | _ :: value => (name, some (String.ofList value))

/-- An option, from behind its hyphens. -/
def readOption (specs : List OptionSpec) (reading : Reading) (cs : List Char) :
    Except UsageError Reading := do
  let (name, value) := splitWord cs
  if name = "help" then
    if value.isSome then throw .tooManyValues
    let _ ← reading.settle
    throw .displayHelp
  match specs.find? (·.name == name), value with
  | none, _ => throw .unknownArgument
  | some spec, some value =>
    let reading ← reading.settle
    return { reading with values := ← spec.give reading.values value }
  | some spec, none =>
    let reading ← reading.settle
    return { reading with pending := some (spec, none) }

def readWord (specs : List OptionSpec) (reading : Reading) (word : String) :
    Except UsageError Reading :=
  match word.toList, reading.pending with
  | '-' :: '-' :: rest, _ => reading.readOption specs rest
  | '-' :: 'h' :: _, _ => do
    let _ ← reading.settle
    throw .displayHelp
  | '-' :: _ :: _, _ => .error .unknownArgument
  | _, some (spec, none) => .ok { reading with pending := some (spec, some word) }
  | _, _ => .error .unknownArgument

/-- The words of the command line up to a bare pair of hyphens, behind which no word may follow. -/
def readWords (specs : List OptionSpec) : List String → Reading → Except UsageError Reading
  | [], reading => reading.settle
  | word :: rest, reading =>
    if word = "--" then if rest = [] then reading.settle else .error .unknownArgument
    else do readWords specs rest (← reading.readWord specs word)

/-- The values of the options that only the environment gives. -/
def readVariables (environment : List (String × String)) :
    List OptionSpec → Values → Except UsageError Values
  | [], values => .ok values
  | spec :: rest, values => do
    let text := spec.environmentName.bind fun name => environment.lookup name
    match Entries.get? spec.name values, text with
    | none, some text => readVariables environment rest (← spec.give values text)
    | _, _ => readVariables environment rest values

end Reading

/-- The values of the options on a command line and in an environment. -/
def readOptions (specs : List OptionSpec) (environment : List (String × String))
    (words : List String) : Except UsageError Values := do
  let reading ← Reading.readWords specs words {}
  let values ← Reading.readVariables environment specs reading.values
  if specs.any fun spec => spec.required && (Entries.get? spec.name values).isNone then
    throw .missingRequiredArgument
  return values

end LedgerIndex.CommandLine
