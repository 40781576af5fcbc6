import LedgerIndex.Decimal.Basic

/-! # Instants

An instant counts seconds from the beginning of 1970 and nanoseconds within the second.  A leap
second is the second before it with a thousand million nanoseconds more.  `Instant.text` is the
calendar date and time of day in UTC, with 0, 3, 6 or 9 fraction digits, the fewest that lose
nothing. -/

namespace LedgerIndex

/-- A moment in UTC. -/
structure Instant where
  seconds : Int
  nanos : Nat
deriving DecidableEq, Repr

namespace Instant

/-- The beginning of the year -262143. -/
def firstSecond : Int := -8334601228800

/-- The last second of the year 262142. -/
def lastSecond : Int := 8210266876799

/-- The instant of a count of seconds and nanoseconds; a leap second ends a minute. -/
def ofUnix? (seconds : Int) (nanos : Int) : Option Instant :=
  if firstSecond ≤ seconds ∧ seconds ≤ lastSecond ∧ 0 ≤ nanos ∧ nanos < 2000000000 ∧
      (nanos < 1000000000 ∨ seconds % 60 = 59) then
    some ⟨seconds, nanos.toNat⟩
  else none

structure Date where
  year : Int
  month : Nat
  day : Nat
deriving DecidableEq, Repr

/-- The date of a day counted from the beginning of 1970.  Years are counted from March, so that
the leap day ends them, and in eras of 400 years. -/
def dateOf (days : Int) : Date :=
  let shifted := days + 719468
  let era := shifted / 146097
  let dayOfEra := (shifted % 146097).toNat
  let yearOfEra := (dayOfEra - dayOfEra / 1460 + dayOfEra / 36524 - dayOfEra / 146096) / 365
  let dayOfYear := dayOfEra - (365 * yearOfEra + yearOfEra / 4 - yearOfEra / 100)
  let shiftedMonth := (5 * dayOfYear + 2) / 153
  let day := dayOfYear - (153 * shiftedMonth + 2) / 5 + 1
  let month := if shiftedMonth < 10 then shiftedMonth + 3 else shiftedMonth - 9
  let year := era * 400 + yearOfEra + (if month ≤ 2 then 1 else 0)
  ⟨year, month, day⟩

/-- Four digits; a sign in front of a year outside 0..9999. -/
def yearChars (year : Int) : List Char :=
  let ds := Decimal.padded 4 year.natAbs
  if year < 0 then '-' :: ds else if 9999 < year then '+' :: ds else ds

/-- The point and the fewest of 3, 6 or 9 digits; nothing for a whole second. -/
def fractionChars (nanos : Nat) : List Char :=
  if nanos = 0 then []
  else if nanos % 1000000 = 0 then '.' :: Decimal.padded 3 (nanos / 1000000)
  else if nanos % 1000 = 0 then '.' :: Decimal.padded 6 (nanos / 1000)
  else '.' :: Decimal.padded 9 nanos

/-- The date and time of day, in UTC. -/
def text (instant : Instant) : String :=
  let date := dateOf (instant.seconds / 86400)
  let ofDay := (instant.seconds % 86400).toNat
  let leap := if 1000000000 ≤ instant.nanos then 1 else 0
  let two := Decimal.padded 2
  String.ofList
    (yearChars date.year ++ '-' :: two date.month ++ '-' :: two date.day
      ++ 'T' :: two (ofDay / 3600) ++ ':' :: two (ofDay / 60 % 60)
      ++ ':' :: two (ofDay % 60 + leap)
      ++ fractionChars (instant.nanos % 1000000000) ++ ['Z'])

end Instant

end LedgerIndex
