import LedgerIndex.Bytes

/-! # Base-128 numbers

A number is written in groups of seven bits, the lowest first; the high bit of a byte says that
another follows.  The writer uses the fewest bytes.  The reader takes every spelling of at most ten
bytes whose value fits sixty-four bits. -/

namespace LedgerIndex.Varint

/-- The fewest groups of seven bits. -/
def writeNat (n : Nat) : Bytes :=
  if n < 128 then [n.toUInt8] else (n % 128 + 128).toUInt8 :: writeNat (n / 128)
  termination_by n
  decreasing_by omega

def write (n : UInt64) : Bytes :=
  writeNat n.toNat

/-- Reads at most `k` groups. -/
def readNat? : Nat → Bytes → Option (Nat × Bytes)
  | 0, _ => none
  | _ + 1, [] => none
  | k + 1, byte :: rest =>
    if byte < 128 then some (byte.toNat, rest)
    else
      match readNat? k rest with
      | some (n, rest) => some (byte.toNat - 128 + 128 * n, rest)
      | none => none

/-- Reads a number of sixty-four bits. -/
def read? (bytes : Bytes) : Option (UInt64 × Bytes) :=
  match readNat? 10 bytes with
  | some (n, rest) => if n < UInt64.size then some (n.toUInt64, rest) else none
  | none => none

end LedgerIndex.Varint
