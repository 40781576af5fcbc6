import LedgerIndex.Decimal.Basic
import LedgerIndex.Text.Trim
import LedgerIndex.Time.Span

/-! # Polling periods

A period is configured as a number of seconds or as a text: a count of at most thirty-two bits,
followed by a unit, `ms` or `s`, or by none, which is seconds.  White space may stand around the
text and before the unit. -/

namespace LedgerIndex

/-- A polling period as it is configured. -/
inductive Period where
  | seconds (count : Nat)
  | text (text : String)
deriving DecidableEq, Repr

structure InvalidPeriod where
  text : String
deriving DecidableEq, Repr

def InvalidPeriod.message (e : InvalidPeriod) : String :=
  "invalid polling period `" ++ e.text ++ "`"

namespace Period

def greatestCount : Nat := UInt32.size - 1

/-- The count and the unit of a text: the characters before the unit, and the span of a count. -/
def splitUnit (cs : List Char) : List Char × (Nat → Span) :=
  match Text.before? ['m', 's'] cs with
  | some count => (count, Span.ofMillis)
  | none =>
    match Text.before? ['s'] cs with
    | some count => (count, Span.ofSeconds)
    | none => (cs, Span.ofSeconds)

/-- The span that a text without white space around it describes. -/
def read? (cs : List Char) : Option Span :=
  let (count, unit) := splitUnit cs
  (Decimal.natural? greatestCount (Text.trim count)).map unit

def span : Period → Except InvalidPeriod Span
  | seconds count => .ok (Span.ofSeconds count)
  | text t =>
    let cs := Text.trim t.toList
    match read? cs with
    | some span => .ok span
    | none => .error ⟨String.ofList cs⟩

end Period

end LedgerIndex
