/-! # Byte strings

A byte string is a list of bytes.  `Bytes.toHex` writes it with two lowercase digits a byte, and
`Bytes.ofHex?` reads such a text back, in either case. -/

namespace LedgerIndex

abbrev Bytes := List UInt8

namespace Bytes

def digit (value : UInt8) : Char :=
  if value < 10 then Char.ofNat (48 + value.toNat) else Char.ofNat (87 + value.toNat)

/-- The two digits of a byte, high half first. -/
def digits (byte : UInt8) : List Char :=
  [digit (byte / 16), digit (byte % 16)]

/-- The lowercase hexadecimal text of a byte string. -/
def toHex (bytes : Bytes) : String :=
  String.ofList (bytes.flatMap digits)

/-- The value of a hexadecimal digit. -/
def digitValue? (c : Char) : Option UInt8 :=
  if '0' ≤ c ∧ c ≤ '9' then some (c.toNat - 48).toUInt8
  else if 'a' ≤ c ∧ c ≤ 'f' then some (c.toNat - 87).toUInt8
  else if 'A' ≤ c ∧ c ≤ 'F' then some (c.toNat - 55).toUInt8
  else none

/-- Reads digits in pairs, the bytes found so far last first. -/
def ofDigits? (done : Bytes) : List Char → Option Bytes
  | [] => some done.reverse
  | [_] => none
  | high :: low :: rest =>
    match digitValue? high, digitValue? low with
    | some h, some l => ofDigits? ((h * 16 + l) :: done) rest
    | _, _ => none

/-- The byte string that a hexadecimal text writes. -/
def ofHex? (text : String) : Option Bytes :=
  ofDigits? [] text.toList

def ofText (text : String) : Bytes :=
  text.toUTF8.toList

end Bytes

end LedgerIndex
