import LedgerIndex.Decimal.Basic

/-! # Spans of time

A span is a whole number of nanoseconds.  `Span.text` writes it in the largest of the units s, ms,
µs and ns that it reaches, with a decimal fraction and no trailing zeros. -/

namespace LedgerIndex

/-- A length of time in nanoseconds. -/
structure Span where
  nanos : Nat
deriving DecidableEq, Repr

namespace Span

/-- The span of a number of seconds. -/
def ofSeconds (n : Nat) : Span := ⟨n * 1000000000⟩

/-- The span of a number of milliseconds. -/
def ofMillis (n : Nat) : Span := ⟨n * 1000000⟩

def millis (s : Span) : Nat := s.nanos / 1000000

/-- Drops the zeros at the end of a run of digits. -/
def dropTrailingZeros (ds : List Char) : List Char :=
  (ds.reverse.dropWhile (· == '0')).reverse

/-- A count of units with `places` decimal places, the fraction without trailing zeros. -/
def unitChars (nanos places : Nat) : List Char :=
  let fraction := dropTrailingZeros (Decimal.padded places (nanos % Nat.pow 10 places))
  Decimal.digits (nanos / Nat.pow 10 places) ++ (if fraction = [] then [] else '.' :: fraction)

/-- The text of a span in its largest unit. -/
def text (s : Span) : String :=
  if 1000000000 ≤ s.nanos then String.ofList (unitChars s.nanos 9) ++ "s"
  else if 1000000 ≤ s.nanos then String.ofList (unitChars s.nanos 6) ++ "ms"
  else if 1000 ≤ s.nanos then String.ofList (unitChars s.nanos 3) ++ "µs"
  else Decimal.text s.nanos ++ "ns"

end Span

end LedgerIndex
