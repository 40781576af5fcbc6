import LedgerIndex.Bytes
import LedgerIndex.Decimal.Basic
import LedgerIndex.Yaml.Node

/-! # What a scalar stands for

A plain scalar without tag stands for null, a truth value, an integer or a float where its text has
that form, and for a text otherwise.  A scalar with quotation marks is a text.  A tag of the core
schema asks for one of these forms. -/

namespace LedgerIndex.Yaml

/-- What a scalar stands for; the value of a float does not matter here. -/
inductive Resolved where
  | null
  | bool (value : Bool)
  | integer (value : Int)
  | float
  | text (text : String)
deriving DecidableEq, Repr

namespace Resolved

/-- The texts of null besides the empty one. -/
def nullTexts : List String := ["null", "Null", "NULL", "~"]

/-- The truth value that a text names. -/
def bool? (text : String) : Option Bool :=
  if ["true", "True", "TRUE"].contains text then some true
  else if ["false", "False", "FALSE"].contains text then some false
  else none

/-- The number that a non-empty run of digits writes in a base. -/
def digits? (base : Nat) (cs : List Char) : Option Nat :=
  if cs = [] then none
  else cs.foldlM (fun n c => (Bytes.digitValue? c).bind fun d =>
    if d.toNat < base then some (n * base + d.toNat) else none) 0

/-- Digits behind a zero write no decimal number. -/
def hasIdleZero (digits : List Char) : Bool :=
  match digits with
  | '0' :: c :: rest => (c :: rest).all Char.isDigit
  | _ => false

/-- A number without sign: hexadecimal, octal, binary or decimal. -/
def magnitude? (cs : List Char) : Option Nat :=
  match cs with
  | '0' :: 'x' :: rest => digits? 16 rest
  | '0' :: 'o' :: rest => digits? 8 rest
  | '0' :: 'b' :: rest => digits? 2 rest
  | _ => if hasIdleZero cs then none else digits? 10 cs

/-- An integer of a hundred and twenty-eight bits, with or without sign. -/
def integer? (cs : List Char) : Option Int :=
  let bounded (bound : Nat) (n : Nat) : Option Nat := if n ≤ bound then some n else none
  match cs with
  | '-' :: rest => ((magnitude? rest).bind (bounded (1 <<< 127))).map fun n => -(n : Int)
  | '+' :: rest => ((magnitude? rest).bind (bounded ((1 <<< 128) - 1))).map fun n => (n : Int)
  | _ => ((magnitude? cs).bind (bounded ((1 <<< 128) - 1))).map fun n => (n : Int)

/-- The parts of a decimal number: its significant digits and its exponent. -/
def decimalParts? (cs : List Char) : Option (List Char × Int) :=
  let whole := cs.takeWhile Char.isDigit
  let rest := cs.dropWhile Char.isDigit
  let (fraction, rest) := match rest with
    | '.' :: rest => (rest.takeWhile Char.isDigit, rest.dropWhile Char.isDigit)
    | _ => ([], rest)
  let exponent? : Option Int := match rest with
    | [] => some 0
    | 'e' :: rest | 'E' :: rest =>
      match rest with
      | '-' :: ds => (Decimal.ofDigits? ds).map fun n => -(n : Int)
      | '+' :: ds => (Decimal.ofDigits? ds).map fun n => (n : Int)
      | _ => (Decimal.ofDigits? rest).map fun n => (n : Int)
    | _ => none
  if whole = [] ∧ fraction = [] then none
  else exponent?.map fun e => ((whole ++ fraction).dropWhile (· == '0'), e - fraction.length)

/-- A decimal number rounds to a finite double: it is below the midpoint between the greatest one
and the power of two above it. -/
def isFinite (digits : List Char) (exponent : Int) : Bool :=
  let top : Int := digits.length + exponent
  if digits = [] ∨ top ≤ 308 then true
  else if 310 < top then false
  else Decimal.value digits * Nat.pow 10 exponent.toNat
    < ((1 <<< 1024) - (1 <<< 970)) * Nat.pow 10 (-exponent).toNat

/-- The texts of the floats that are no numbers on the line. -/
def specialFloats : List String :=
  [".inf", ".Inf", ".INF", "+.inf", "+.Inf", "+.INF", "-.inf", "-.Inf", "-.INF", ".nan", ".NaN",
    ".NAN"]

def isFloat (text : String) : Bool :=
  let cs := text.toList
  let unsigned := match cs with
    | '-' :: rest | '+' :: rest => rest
    | _ => cs
  specialFloats.contains text ||
    match decimalParts? unsigned with
    | some (digits, exponent) => isFinite digits exponent
    | none => false

/-- What a text without tag and quotation marks stands for. -/
def ofPlain (text : String) : Resolved :=
  let unsigned := match text.toList with
    | '-' :: rest | '+' :: rest => rest
    | cs => cs
  if text = "" ∨ nullTexts.contains text then .null
  else match bool? text, integer? text.toList with
    | some value, _ => .bool value
    | none, some value => .integer value
    | none, none => if !hasIdleZero unsigned && isFloat text then .float else .text text

/-- What a scalar stands for; a scalar that lacks the form its tag asks for, and one with a tag of
its own kind, stand for nothing. -/
def ofScalar? (scalar : Scalar) : Option Resolved :=
  match scalar.tag with
  | none => some (if scalar.plain then ofPlain scalar.text else .text scalar.text)
  | some tag =>
    let core (name : String) : Bool := tag == "tag:yaml.org,2002:" ++ name
    if core "bool" then (bool? scalar.text).map .bool
    else if core "int" then (integer? scalar.text.toList).map .integer
    else if core "float" then if isFloat scalar.text then some .float else none
    else if core "null" then if nullTexts.contains scalar.text then some .null else none
    else if tag.toList.head? = some '!' then none
    else some (.text scalar.text)

end Resolved

end LedgerIndex.Yaml
