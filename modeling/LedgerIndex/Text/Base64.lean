import LedgerIndex.Bytes

/-! # Base 64

Three bytes are written as four characters; padding fills the last four. -/

namespace LedgerIndex.Base64

def value? (c : Char) : Option Nat :=
  if 'A' ≤ c ∧ c ≤ 'Z' then some (c.toNat - 65)
  else if 'a' ≤ c ∧ c ≤ 'z' then some (c.toNat - 71)
  else if '0' ≤ c ∧ c ≤ '9' then some (c.toNat + 4)
  else if c = '+' then some 62
  else if c = '/' then some 63
  else none

/-- Reads four characters at a time; bits that padding leaves over have to be zero. -/
def decode? : List Char → Option Bytes
  | [] => some []
  | [a, b, '=', '='] =>
    match value? a, value? b with
    | some a, some b => if b % 16 = 0 then some [(a * 4 + b / 16).toUInt8] else none
    | _, _ => none
  | [a, b, c, '='] =>
    match value? a, value? b, value? c with
    | some a, some b, some c =>
      if c % 4 = 0 then some [(a * 4 + b / 16).toUInt8, (b % 16 * 16 + c / 4).toUInt8] else none
    | _, _, _ => none
  | a :: b :: c :: d :: rest =>
    match value? a, value? b, value? c, value? d with
    | some a, some b, some c, some d =>
      (decode? rest).map fun tail =>
        (a * 4 + b / 16).toUInt8 :: (b % 16 * 16 + c / 4).toUInt8 :: (c % 4 * 64 + d).toUInt8
          :: tail
    | _, _, _, _ => none
  | _ => none

end LedgerIndex.Base64
