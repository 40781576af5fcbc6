import LedgerIndex.Text.Utf8
import LedgerIndex.Wire.Field

/-! # Messages

A message type says which of its fields a wire field sets (`Message.merge`) and which wire fields
write it (`Message.fields`).  Decoding folds the wire fields of a byte string into the empty
message: the last occurrence of a scalar wins, occurrences of a nested message are merged, list
elements are collected, and an undeclared field changes nothing.  A declared field of the wrong
wire type, and a declared text that is not UTF-8, make the whole message undecodable. -/

namespace LedgerIndex.Wire

/-- A message type of the wire format. -/
class Message (M : Type) where
  /-- The message without fields. -/
  empty : M
  /-- Takes in one field, with the budget of levels of this message. -/
  merge : Nat → M → Field → Option M
  /-- The fields that write a message, defaults left out. -/
  fields : M → List Field

/-- The levels of messages and groups that may nest. -/
def levels : Nat := 100

/-- Takes the fields of a byte string into a message. -/
def mergeBytes? {M : Type} [Message M] (budget : Nat) (message : M) (bytes : Bytes) : Option M :=
  match fields? budget bytes with
  | some fields => fields.foldlM (Message.merge budget) message
  | none => none

/-- The message that a byte string encodes. -/
def decode? {M : Type} [Message M] (bytes : Bytes) : Option M :=
  mergeBytes? levels Message.empty bytes

def encode {M : Type} [Message M] (message : M) : Bytes :=
  encodeFields (Message.fields message)

namespace Field

/-! ### Reading a declared field -/

/-- An unsigned number of sixty-four bits. -/
def uint64? (field : Field) : Option UInt64 :=
  match field.payload with
  | .varint value => some value
  | _ => none

/-- A signed number of sixty-four bits. -/
def int64? (field : Field) : Option Int64 :=
  field.uint64?.map UInt64.toInt64

/-- A signed number of thirty-two bits; the higher bits of the written number are dropped. -/
def int32? (field : Field) : Option Int32 :=
  field.uint64?.map fun value => value.toUInt32.toInt32

/-- A flag: any number but zero is set. -/
def bool? (field : Field) : Option Bool :=
  field.uint64?.map (· != 0)

def bytes? (field : Field) : Option Bytes :=
  match field.payload with
  | .block bytes => some bytes
  | _ => none

def text? (field : Field) : Option String :=
  match field.payload with
  | .block bytes => Utf8.decode? bytes
  | _ => none

/-- A nested message, merged into the one read before. -/
def message? {M : Type} [Message M] (budget : Nat) (old : Option M) (field : Field) : Option M :=
  match field.payload with
  | .block bytes => mergeBytes? (budget - 1) (old.getD Message.empty) bytes
  | _ => none

/-! ### Writing a declared field -/

/-- No field for the default value, one for any other. -/
def unlessDefault {α : Type} [DecidableEq α] (default : α) (number : Nat) (payload : α → Payload)
    (value : α) : List Field :=
  if value = default then [] else [⟨number, payload value⟩]

/-- The field of an unsigned number. -/
def ofUInt64 (number : Nat) (value : UInt64) : List Field :=
  unlessDefault 0 number .varint value

/-- The field of a signed number of sixty-four bits. -/
def ofInt64 (number : Nat) (value : Int64) : List Field :=
  unlessDefault 0 number (fun v => .varint v.toUInt64) value

/-- The field of a signed number of thirty-two bits, written on sixty-four. -/
def ofInt32 (number : Nat) (value : Int32) : List Field :=
  unlessDefault 0 number (fun v => .varint v.toInt64.toUInt64) value

def ofBool (number : Nat) (value : Bool) : List Field :=
  unlessDefault false number (fun v => .varint (if v then 1 else 0)) value

def ofBytes (number : Nat) (value : Bytes) : List Field :=
  unlessDefault [] number .block value

def ofText (number : Nat) (value : String) : List Field :=
  unlessDefault "" number (fun v => .block (Utf8.encode v)) value

/-- The field of a nested message that is set. -/
def ofMessage? {M : Type} [Message M] (number : Nat) (value : Option M) : List Field :=
  value.toList.map fun message => ⟨number, .block (Wire.encode message)⟩

/-- The fields of a list of nested messages. -/
def ofMessages {M : Type} [Message M] (number : Nat) (values : List M) : List Field :=
  values.map fun message => ⟨number, .block (Wire.encode message)⟩

/-- The fields of a list of byte strings. -/
def ofBytesList (number : Nat) (values : List Bytes) : List Field :=
  values.map fun bytes => ⟨number, .block bytes⟩

end Field

end LedgerIndex.Wire
