import LedgerIndex.Decimal.Shortest

/-! # Doubles in JSON text

`Double.text` writes a finite double with the fewest digits that read back: positional, always
with a fraction, from `1e-5` up to below `1e16`, and with an exponent outside that range.
`Double.ofParts?` is the double that a reader assigns to a significand and a decimal exponent: the
significand is rounded once, and then multiplied or divided by a power of ten. -/

namespace LedgerIndex.Double

/-- Where positional notation ends: from `10 ^ leastExponent` to below `10 ^ digitsBeforePoint`. -/
structure Layout where
  leastExponent : Int
  digitsBeforePoint : Int

/-- Numbers are positional from `1e-5` to below `1e16`. -/
def layout : Layout := ⟨-5, 16⟩

/-- Lays out the decimal `0.d₁d₂… · 10 ^ point`. -/
def place (l : Layout) (ds : List Char) (point : Int) : List Char :=
  let count : Int := ds.length
  if l.digitsBeforePoint < point ∨ point ≤ l.leastExponent then
    let exponent := point - 1
    let mark := if exponent < 0 then ['e', '-'] else ['e', '+']
    let tail := mark ++ Decimal.digits exponent.natAbs
    match ds with
    | [] => tail
    | [d] => d :: tail
    | d :: rest => d :: '.' :: rest ++ tail
  else if count ≤ point then
    ds ++ List.replicate (point - count).toNat '0' ++ ['.', '0']
  else if 0 < point then
    ds.take point.toNat ++ '.' :: ds.drop point.toNat
  else
    '0' :: '.' :: List.replicate (-point).toNat '0' ++ ds

/-- The characters of a finite double. -/
def chars (bits : UInt64) : List Char :=
  let (negative, m, q, boundary) := Shortest.decompose bits
  let sign := if negative then ['-'] else []
  if m == 0 then sign ++ ['0', '.', '0']
  else
    let (d, e) := Shortest.ofBinary m q boundary
    let ds := Decimal.digits d
    sign ++ place layout ds (ds.length + e)

/-- Divides by `10 ^ 308` while the exponent is below what one power of ten reaches. -/
def lower : Nat → Float → Int → Float × Int
  | 0, f, e => (f, e)
  | fuel + 1, f, e =>
    if f == 0.0 ∨ -308 ≤ e then (f, e) else lower fuel (f / 1e308) (e + 308)

/-- The double for `significand · 10 ^ exponent`, or `none` where it is infinite. -/
def ofParts? (negative : Bool) (significand : UInt64) (exponent : Int) : Option UInt64 :=
  let signed (f : Float) : UInt64 := (if negative then -f else f).toBits
  let f := significand.toFloat
  if exponent < 0 then
    let (f, e) := lower 8 f exponent
    if f == 0.0 then some (signed 0.0)
    else some (signed (f / Float.ofScientific 1 false e.natAbs))
  else if f == 0.0 then some (signed 0.0)
  else if 308 < exponent then none
  else
    let g := f * Float.ofScientific 1 false exponent.natAbs
    if g.isInf then none else some (signed g)

end LedgerIndex.Double
