import LedgerIndex.Sections
import LedgerIndex.Wire.Varint

/-! # Fields of an encoded message

An encoded message is a sequence of fields, each a key (a number and a wire type) and a payload of
that wire type.  `Wire.fields?` reads such a sequence.  A group, which no message of this library
declares, is read over its matching end; groups nest to a given budget of levels. -/

namespace LedgerIndex.Wire

/-- What follows the key of a field. -/
inductive Payload where
  | varint (value : UInt64)
  | fixed64 (bytes : Bytes)
  | block (bytes : Bytes)
  | group
  | fixed32 (bytes : Bytes)
deriving DecidableEq, Repr

/-- A field of an encoded message. -/
structure Field where
  number : Nat
  payload : Payload
deriving DecidableEq, Repr

/-- A key: the number of a field and its wire type. -/
structure Key where
  number : Nat
  wireType : Nat

/-- Reads a key, of thirty-two bits and with a positive field number. -/
def readKey? (bytes : Bytes) : Option (Key × Bytes) :=
  match Varint.read? bytes with
  | some (key, rest) =>
    let key := key.toNat
    if key < UInt32.size ∧ 8 ≤ key then some (⟨key / 8, key % 8⟩, rest) else none
  | none => none

/-- Cuts off the first `length` bytes. -/
def cut? (length : Nat) (bytes : Bytes) : Option (Bytes × Bytes) :=
  if length ≤ bytes.length then some (bytes.take length, bytes.drop length) else none

/-- Reads a length and as many bytes. -/
def readBlock? (bytes : Bytes) : Option (Bytes × Bytes) :=
  match Varint.read? bytes with
  | some (length, rest) => cut? length.toNat rest
  | none => none

/-- Passes over the fields of a group up to the end with the group's number, `skip` passing over
one payload. -/
def skipGroup? (skip : Key → Bytes → Option (Payload × Bytes)) (number : Nat) :
    Nat → Bytes → Option Bytes
  | 0, _ => none
  | fuel + 1, bytes =>
    match readKey? bytes with
    | none => none
    | some (key, rest) =>
      if key.wireType = 4 then (if key.number = number then some rest else none)
      else
        match skip key rest with
        | some (_, rest) => skipGroup? skip number fuel rest
        | none => none

/-- Reads the payload behind a key; the levels of groups below it are at most `budget`. -/
def readPayload? : Nat → Key → Bytes → Option (Payload × Bytes)
  | 0, _, _ => none
  | budget + 1, key, bytes =>
    match key.wireType with
    | 0 => (Varint.read? bytes).map fun (value, rest) => (.varint value, rest)
    | 1 => (cut? 8 bytes).map fun (value, rest) => (.fixed64 value, rest)
    | 2 => (readBlock? bytes).map fun (value, rest) => (.block value, rest)
    | 3 =>
      (skipGroup? (readPayload? budget) key.number bytes.length bytes).map fun rest =>
        (.group, rest)
    | 5 => (cut? 4 bytes).map fun (value, rest) => (.fixed32 value, rest)
    | _ => none

def readField? (budget : Nat) (bytes : Bytes) : Option (Field × Bytes) :=
  match readKey? bytes with
  | some (key, rest) =>
    (readPayload? budget key rest).map fun (payload, rest) => (⟨key.number, payload⟩, rest)
  | none => none

/-- Cuts the first field off; nothing is left after what is no field. -/
def cutField (budget : Nat) (byte : UInt8) (rest : Bytes) : Option Field × Bytes :=
  match readField? budget (byte :: rest) with
  | some (field, rest) => (some field, rest)
  | none => (none, [])

/-- The fields of an encoded message. -/
def fields? (budget : Nat) (bytes : Bytes) : Option (List Field) :=
  (sections (cutField budget) bytes).mapM id

def Payload.wireType : Payload → Nat
  | .varint _ => 0
  | .fixed64 _ => 1
  | .block _ => 2
  | .group => 3
  | .fixed32 _ => 5

/-- The bytes of a payload; a group is written empty, as its end alone. -/
def Payload.encode (number : Nat) : Payload → Bytes
  | .varint value => Varint.write value
  | .fixed64 bytes => bytes
  | .block bytes => Varint.writeNat bytes.length ++ bytes
  | .group => Varint.writeNat (number * 8 + 4)
  | .fixed32 bytes => bytes

def Field.encode (field : Field) : Bytes :=
  Varint.writeNat (field.number * 8 + field.payload.wireType) ++ field.payload.encode field.number

/-- The bytes of a sequence of fields. -/
def encodeFields (fields : List Field) : Bytes :=
  fields.flatMap Field.encode

end LedgerIndex.Wire
