import LedgerIndex.Bytes

/-! # Distinguished encoding

The three kinds of element that a header encoding is made of: integers, octet strings and
sequences, each written as a tag, the length of its content and the content (`Der.element`).
Lengths and integers have one spelling each, the shortest.  `Der.read?` is the strict reader of
the same elements: it refuses every other spelling. -/

namespace LedgerIndex.Der

/-- The bytes of a number, the highest first; none for zero. -/
def bigEndian (n : Nat) : Bytes :=
  if n = 0 then [] else bigEndian (n / 256) ++ [n.toUInt8]
  termination_by n
  decreasing_by omega

/-- A length below 128 is one byte; any other is a count of bytes, marked by the high bit, and the
bytes of the length. -/
def lengthOctets (length : Nat) : Bytes :=
  if length < 128 then [length.toUInt8]
  else (128 + (bigEndian length).length).toUInt8 :: bigEndian length

/-- The two's-complement content of a natural number, with a zero byte in front where the highest
bit would read as a sign. -/
def integerContent (n : Nat) : Bytes :=
  match bigEndian n with
  | [] => [0]
  | high :: rest => if high < 128 then high :: rest else 0 :: high :: rest

inductive Tag where
  | integer
  | octetString
  | sequence
deriving DecidableEq, Repr

/-- The byte that announces a kind of element. -/
def Tag.octet : Tag → UInt8
  | .integer => 0x02
  | .octetString => 0x04
  | .sequence => 0x30

/-- Tag, length and content. -/
def element (tag : Tag) (content : Bytes) : Bytes :=
  tag.octet :: lengthOctets content.length ++ content

/-- The number that bytes write, the highest first. -/
def ofBigEndian (bytes : Bytes) : Nat :=
  bytes.foldl (fun n byte => n * 256 + byte.toNat) 0

/-- Reads a length in its shortest definite form. -/
def readLength? : Bytes → Option (Nat × Bytes)
  | [] => none
  | first :: rest =>
    if first < 128 then some (first.toNat, rest)
    else
      let count := first.toNat - 128
      let octets := rest.take count
      let length := ofBigEndian octets
      if octets.length = count ∧ octets.head? ≠ some 0 ∧ 128 ≤ length then
        some (length, rest.drop count)
      else none

/-- Reads one element of any kind: its first byte, its content and what follows it. -/
def readAny? : Bytes → Option (UInt8 × Bytes × Bytes)
  | [] => none
  | first :: rest =>
    match readLength? rest with
    | some (length, rest) =>
      if length ≤ rest.length then some (first, rest.take length, rest.drop length) else none
    | none => none

/-- Reads one element of the given kind: its content and what follows it. -/
def read? (tag : Tag) (bytes : Bytes) : Option (Bytes × Bytes) :=
  match readAny? bytes with
  | some (first, content, rest) => if first = tag.octet then some (content, rest) else none
  | none => none

/-- The elements of the content of a sequence, at most `fuel` of them. -/
def elementsUpTo? : Nat → Bytes → Option (List (UInt8 × Bytes))
  | _, [] => some []
  | 0, _ => none
  | fuel + 1, bytes =>
    match readAny? bytes with
    | some (first, content, rest) => (elementsUpTo? fuel rest).map ((first, content) :: ·)
    | none => none

/-- The elements of the content of a sequence. -/
def elements? (content : Bytes) : Option (List (UInt8 × Bytes)) :=
  elementsUpTo? content.length content

/-- Reads the content of a non-negative integer in its shortest form. -/
def readNatural? : Bytes → Option Nat
  | [] => none
  | [byte] => if byte < 128 then some byte.toNat else none
  | high :: next :: rest =>
    if 128 ≤ high ∨ (high = 0 ∧ next < 128) then none
    else some (ofBigEndian (high :: next :: rest))

end LedgerIndex.Der
