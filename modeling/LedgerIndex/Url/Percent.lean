import LedgerIndex.Text.Utf8

/-! # Percent encoding

A character of a URL component that is a control, lies outside ASCII, or belongs to the component's
own set of special characters is written as the bytes of its UTF-8 form, each as a percent sign and
two uppercase hexadecimal digits. -/

namespace LedgerIndex.Percent

/-- The special characters of a fragment. -/
def inFragment (c : Char) : Bool :=
  c ∈ [' ', '"', '<', '>', '\x60']

/-- The special characters of a query. -/
def inQuery (c : Char) : Bool :=
  c ∈ [' ', '"', '#', '<', '>']

/-- The special characters of the query of a URL with a special scheme. -/
def inSpecialQuery (c : Char) : Bool :=
  c == '\'' || inQuery c

/-- The special characters of a path. -/
def inPath (c : Char) : Bool :=
  inFragment c || c ∈ ['#', '?', '\x7b', '\x7d']

/-- The special characters of one segment of a path. -/
def inSegment (c : Char) : Bool :=
  inPath c || c ∈ ['/', '%']

/-- The special characters of one segment of the path of a URL with a special scheme. -/
def inSpecialSegment (c : Char) : Bool :=
  inSegment c || c == '\\'

/-- The special characters of a user name or password. -/
def inUserinfo (c : Char) : Bool :=
  inPath c || c ∈ ['/', ':', ';', '=', '@', '[', '\\', ']', '^', '|']

/-- The uppercase hexadecimal digit of a half byte. -/
def digit (value : UInt8) : Char :=
  if value < 10 then Char.ofNat (48 + value.toNat) else Char.ofNat (55 + value.toNat)

/-- A byte as a percent sign and two digits. -/
def encodeByte (byte : UInt8) : List Char :=
  ['%', digit (byte / 16), digit (byte % 16)]

/-- Controls and characters outside ASCII, which are encoded everywhere. -/
def isForeign (c : Char) : Bool :=
  c.toNat < 0x20 || 0x7E < c.toNat

/-- One character as it is written in a component. -/
def encodeChar (special : Char → Bool) (c : Char) : List Char :=
  if isForeign c || special c then (String.utf8EncodeChar c).flatMap encodeByte else [c]

/-- The characters of a component as they are written. -/
def encode (special : Char → Bool) (cs : List Char) : List Char :=
  cs.flatMap (encodeChar special)

/-- The value of a hexadecimal digit. -/
def digitValue? (c : Char) : Option UInt8 :=
  Bytes.digitValue? c

/-- The bytes of a text with its percent signs resolved; a percent sign without two digits stands
for itself. -/
def decode : List Char → Bytes
  | '%' :: high :: low :: rest =>
    match digitValue? high, digitValue? low with
    | some h, some l => (h * 16 + l) :: decode rest
    | _, _ => 0x25 :: decode (high :: low :: rest)
  | c :: rest => String.utf8EncodeChar c ++ decode rest
  | [] => []

end LedgerIndex.Percent
