import LedgerIndex.Decimal.Basic
import LedgerIndex.Der
import LedgerIndex.Digest.Sha256

/-! # Header hashes

The hash of a block is the SHA-256 digest of its header: the block number, the hash of the previous
block and the hash of the block's data, in distinguished encoding.  The number is a signed
sixty-four-bit integer there, so a greater number has no header encoding. -/

namespace LedgerIndex

structure BlockHeader where
  number : Nat
  previousHash : Bytes
  dataHash : Bytes
deriving DecidableEq, Repr

/-- A block number above the greatest signed sixty-four-bit integer. -/
structure BlockNumberOverflow where
  number : Nat
deriving DecidableEq, Repr

namespace BlockNumberOverflow

def message (e : BlockNumberOverflow) : String :=
  "block number " ++ Decimal.text e.number ++ " exceeds the signed 64-bit range"

end BlockNumberOverflow

namespace BlockHeader

/-- The greatest block number that a header encoding holds. -/
def greatestNumber : Nat := UInt64.size / 2 - 1

/-- The distinguished encoding of the three fields, whatever the number. -/
def element (header : BlockHeader) : Bytes :=
  Der.element .sequence
    (Der.element .integer (Der.integerContent header.number)
      ++ Der.element .octetString header.previousHash
      ++ Der.element .octetString header.dataHash)

def encode (header : BlockHeader) : Except BlockNumberOverflow Bytes :=
  if header.number ≤ greatestNumber then .ok header.element else .error ⟨header.number⟩

/-- The header hash, which the next block carries as its previous hash. -/
def hash (header : BlockHeader) : Except BlockNumberOverflow Bytes :=
  header.encode.map Sha256.digest

/-- The header hash as text, as block documents hold it. -/
def hashText (header : BlockHeader) : Except BlockNumberOverflow String :=
  header.hash.map Bytes.toHex

/-- Reads a header encoding back, and nothing but a header encoding. -/
def decode? (bytes : Bytes) : Option BlockHeader := do
  let (body, rest) ← Der.read? .sequence bytes
  let (number, body) ← Der.read? .integer body
  let (previousHash, body) ← Der.read? .octetString body
  let (dataHash, body) ← Der.read? .octetString body
  let number ← Der.readNatural? number
  if rest = [] ∧ body = [] then some ⟨number, previousHash, dataHash⟩ else none

end BlockHeader

end LedgerIndex
