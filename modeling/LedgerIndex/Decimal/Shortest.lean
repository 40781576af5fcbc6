import LedgerIndex.Decimal.Basic

/-! # The fewest digits that read back

A finite binary number is `m · 2 ^ q`.  The reals that round to it form an interval, whose ends
belong to it exactly when `m` is even.  `Shortest.ofBinary` returns the decimal `d · 10 ^ e` in
that interval with the fewest digits, and of two such decimals the one nearer to the number; a tie
goes to the even digit. -/

namespace LedgerIndex.Shortest

/-- A quotient of natural numbers with a positive denominator. -/
structure Ratio where
  num : Nat
  den : Nat

/-- The comparison `r ≤ s` of two quotients. -/
def Ratio.le (r s : Ratio) : Bool :=
  r.num * s.den ≤ s.num * r.den

/-- The comparison `r < s` of two quotients. -/
def Ratio.lt (r s : Ratio) : Bool :=
  r.num * s.den < s.num * r.den

/-- The quotient `n · 2 ^ q`. -/
def scaleTwo (n : Nat) (q : Int) : Ratio :=
  if q < 0 then ⟨n, 1 <<< q.natAbs⟩ else ⟨n <<< q.natAbs, 1⟩

/-- The quotient `n · 10 ^ e`. -/
def scaleTen (n : Nat) (e : Int) : Ratio :=
  if e < 0 then ⟨n, Nat.pow 10 e.natAbs⟩ else ⟨n * Nat.pow 10 e.natAbs, 1⟩

/-- The greatest `d` with `d · 10 ^ e ≤ r`. -/
def floorAt (r : Ratio) (e : Int) : Nat :=
  if e < 0 then r.num * Nat.pow 10 e.natAbs / r.den
  else r.num / (r.den * Nat.pow 10 e.natAbs)

/-- The reals that round to one binary number. -/
structure Interval where
  low : Ratio
  high : Ratio
  closed : Bool

/-- Membership of a quotient in an interval. -/
def Interval.contains (i : Interval) (r : Ratio) : Bool :=
  if i.closed then i.low.le r && r.le i.high else i.low.lt r && r.lt i.high

/-- The reals that round to `m · 2 ^ q`; `boundary` says that the next number below is only half as
far away as the next one above. -/
def roundingInterval (m : Nat) (q : Int) (boundary : Bool) : Interval :=
  { low := if boundary then scaleTwo (4 * m - 1) (q - 2) else scaleTwo (2 * m - 1) (q - 1)
    high := scaleTwo (2 * m + 1) (q - 1)
    closed := m % 2 == 0 }

/-- The exponent `e` with `10 ^ e ≤ r < 10 ^ (e + 1)`, searched downward from `start`. -/
def leadingExponent (r : Ratio) : Nat → Int → Int
  | 0, e => e
  | fuel + 1, e => if (scaleTen 1 e).le r then e else leadingExponent r fuel (e - 1)

/-- Of the two neighbours of `r` on the grid `10 ^ e`, the one in the interval that is nearest. -/
def onGrid? (i : Interval) (r : Ratio) (e : Int) : Option Nat :=
  let below := floorAt r e
  let above := below + 1
  let belowIn := 0 < below && i.contains (scaleTen below e)
  let aboveIn := i.contains (scaleTen above e)
  let middle := scaleTwo 1 (-1)
  let half := scaleTen (2 * below + 1) e
  let centre : Ratio := ⟨half.num * middle.num, half.den * middle.den⟩
  match belowIn, aboveIn with
  | true, true =>
    if r.lt centre then some below
    else if centre.lt r then some above
    else some (if below % 2 == 0 then below else above)
  | true, false => some below
  | false, true => some above
  | false, false => none

/-- The coarsest grid with a point in the interval, from `e` downward. -/
def search (i : Interval) (r : Ratio) : Nat → Int → Nat × Int
  | 0, e => (floorAt r e, e)
  | fuel + 1, e =>
    match onGrid? i r e with
    | some d => (d, e)
    | none => search i r fuel (e - 1)

/-- Moves trailing zeros of `d` into the exponent. -/
def stripZeros : Nat → Nat × Int → Nat × Int
  | 0, de => de
  | fuel + 1, (d, e) => if d % 10 == 0 && 0 < d then stripZeros fuel (d / 10, e + 1) else (d, e)

/-- The shortest decimal `d · 10 ^ e` for the positive number `m · 2 ^ q`. -/
def ofBinary (m : Nat) (q : Int) (boundary : Bool) : Nat × Int :=
  let r := scaleTwo m q
  let e := leadingExponent r 700 310
  stripZeros 20 (search (roundingInterval m q boundary) r 17 e)

/-- Sign, significand and binary exponent of a finite double, and whether it is a power of two with
a closer neighbour below. -/
def decompose (bits : UInt64) : Bool × Nat × Int × Bool :=
  let negative := bits >>> 63 == 1
  let exponent := ((bits >>> 52) &&& 0x7FF).toNat
  let fraction := (bits &&& 0xFFFFFFFFFFFFF).toNat
  if exponent == 0 then (negative, fraction, -1074, false)
  else (negative, fraction + (1 <<< 52), (exponent : Int) - 1075, fraction == 0 && 1 < exponent)

end LedgerIndex.Shortest
