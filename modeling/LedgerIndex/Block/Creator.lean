import LedgerIndex.Block.Encoded
import LedgerIndex.Text.Search

/-! # Creators of transactions

The creator of a transaction is shown by its certificate and its organization.  A creator that is
not a serialized identity around a certificate is shown as text, line feeds written as points, in
both places. -/

namespace LedgerIndex

/-- The creator of a transaction as it is shown. -/
structure Creator where
  identity : String
  organization : String
deriving DecidableEq, Repr

namespace Creator

/-- The mark at which a certificate begins. -/
def beginMark : List Char := "-----BEGIN ".toList

/-- The mark at which a certificate ends. -/
def endMark : List Char := "-----END ".toList

/-- A beginning mark stands in a text, and an ending mark somewhere behind it. -/
def isCertificate (text : List Char) : Bool :=
  match Search.from? beginMark text with
  | some rest => Search.occursIn endMark rest
  | none => false

/-- The creator of a serialized identity around a certificate. -/
def ofIdentity? (bytes : Bytes) : Option Creator :=
  match Wire.decode? (M := Encoded.SerializedIdentity) bytes with
  | some identity =>
    let text := Utf8.lossyChars identity.idBytes
    if isCertificate text then some ⟨String.ofList text, identity.mspId⟩ else none
  | none => none

/-- The creator that is shown as text. -/
def ofText (bytes : Bytes) : Creator :=
  let text := String.ofList ((Utf8.lossyChars bytes).map fun c => if c = '\n' then '.' else c)
  ⟨text, text⟩

def ofBytes (bytes : Bytes) : Creator :=
  (ofIdentity? bytes).getD (ofText bytes)

end Creator

end LedgerIndex
