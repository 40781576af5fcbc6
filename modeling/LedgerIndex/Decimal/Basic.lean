/-! # Decimal numerals

`Decimal.digits` writes a natural number with its fewest decimal digits.  `Decimal.ofDigits?`
reads a non-empty run of decimal digits, leading zeros allowed, and `Decimal.natural?` also takes
one plus sign in front. -/

namespace LedgerIndex.Decimal

/-- The character of a digit below ten. -/
def digit (n : Nat) : Char :=
  Char.ofNat (48 + n)

/-- The fewest decimal digits of a number. -/
def digits (n : Nat) : List Char :=
  if n < 10 then [digit n] else digits (n / 10) ++ [digit (n % 10)]
  termination_by n
  decreasing_by omega

def text (n : Nat) : String :=
  String.ofList (digits n)

/-- The decimal text of an integer. -/
def intText : Int → String
  | .ofNat n => text n
  | .negSucc n => "-" ++ text (n + 1)

def digitValue (c : Char) : Nat :=
  c.toNat - 48

/-- The number that a run of digits writes. -/
def value (cs : List Char) : Nat :=
  cs.foldl (fun n c => n * 10 + digitValue c) 0

/-- The number written by a non-empty run of digits. -/
def ofDigits? (cs : List Char) : Option Nat :=
  if cs ≠ [] ∧ cs.all Char.isDigit then some (value cs) else none

/-- The number written by a run of digits, with at most one plus sign in front, when it is at most
`bound`. -/
def natural? (bound : Nat) (cs : List Char) : Option Nat :=
  let unsigned := match cs with
    | '+' :: rest => rest
    | _ => cs
  match ofDigits? unsigned with
  | some n => if n ≤ bound then some n else none
  | none => none

/-- The digits of a number, with zeros in front up to a width. -/
def padded (width n : Nat) : List Char :=
  let ds := digits n
  List.replicate (width - ds.length) '0' ++ ds

end LedgerIndex.Decimal
