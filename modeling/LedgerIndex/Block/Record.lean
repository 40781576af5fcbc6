import LedgerIndex.Block.Creator
import LedgerIndex.Block.Header
import LedgerIndex.Block.Kind
import LedgerIndex.Time.Instant

/-! # Decoded blocks and transactions

`Block.decode` reads the header of a serialized block and leaves its envelopes as they are;
`Transaction.decode` reads one envelope.  An endorser transaction also carries an endorsement: the
chaincode and the reads and writes of its first action, the namespaces one after the other. -/

namespace LedgerIndex

/-- Why serialized bytes are no block or no transaction. -/
inductive DecodeError where
  | malformed
  | missingField (name : String)
  | emptyBlock
  | noActions
  | unexpectedBlockNumber (expected actual : Nat)
deriving DecidableEq, Repr

namespace DecodeError

/-- The text of an error; malformed bytes have none of their own. -/
def message? : DecodeError → Option String
  | malformed => none
  | missingField name => some ("missing `" ++ name ++ "`")
  | emptyBlock => some "block contains no envelopes"
  | noActions => some "endorser transaction carries no actions"
  | unexpectedBlockNumber expected actual =>
    some ("requested block #" ++ Decimal.text expected ++ ", ledger returned block #"
      ++ Decimal.text actual)

end DecodeError

/-- A key that a transaction read. -/
structure KeyRead where
  namespaceName : String
  key : String
deriving DecidableEq, Repr

/-- A key that a transaction wrote or deleted. -/
structure KeyWrite where
  namespaceName : String
  key : String
  value : Bytes
  isDelete : Bool
deriving DecidableEq, Repr

/-- What an endorser transaction did. -/
structure Endorsement where
  chaincodeName : String
  chaincodeVersion : String
  reads : List KeyRead
  writes : List KeyWrite
deriving DecidableEq, Repr

structure Transaction where
  txId : String
  channelId : String
  creator : Creator
  kind : TxKind
  timestamp : Option Instant
  endorsement : Option Endorsement
deriving DecidableEq, Repr

/-- A decoded block, with the time and the kind of its first transaction. -/
structure Block where
  header : BlockHeader
  timestamp : Option Instant
  kind : TxKind
  entries : List Bytes
  validationCodes : Bytes
deriving DecidableEq, Repr

/-- The message of some bytes, or the error that they are malformed. -/
def decodeMessage (M : Type) [Wire.Message M] (bytes : Bytes) : Except DecodeError M :=
  match Wire.decode? bytes with
  | some message => .ok message
  | none => .error .malformed

def required {α : Type} (name : String) : Option α → Except DecodeError α
  | some a => .ok a
  | none => .error (.missingField name)

/-- The headers and the content of an envelope. -/
structure OpenedEnvelope where
  channelHeader : Encoded.ChannelHeader
  signatureHeader : Encoded.SignatureHeader
  data : Bytes

/-- Reads an envelope down to its headers. -/
def OpenedEnvelope.decode (bytes : Bytes) : Except DecodeError OpenedEnvelope := do
  let envelope ← decodeMessage Encoded.Envelope bytes
  let payload ← decodeMessage Encoded.Payload envelope.payload
  let header ← required "payload.header" payload.header
  let channelHeader ← decodeMessage Encoded.ChannelHeader header.channelHeader
  let signatureHeader ← decodeMessage Encoded.SignatureHeader header.signatureHeader
  return ⟨channelHeader, signatureHeader, payload.data⟩

/-- The instant of a timestamp, where there is one and it is in range. -/
def OpenedEnvelope.instant? (envelope : OpenedEnvelope) : Option Instant :=
  match envelope.channelHeader.timestamp with
  | some timestamp => Instant.ofUnix? timestamp.seconds.toInt timestamp.nanos.toInt
  | none => none

namespace Endorsement

/-- The reads and writes of one namespace. -/
def decodeNamespace (ns : Encoded.NamespaceSet) :
    Except DecodeError (List KeyRead × List KeyWrite) := do
  let keys ← decodeMessage Encoded.KeyReadWriteSet ns.keys
  return (keys.reads.map fun r => ⟨ns.namespaceName, r.key⟩,
    keys.writes.map fun w => ⟨ns.namespaceName, w.key, w.value, w.isDelete⟩)

/-- Reads the payload of an action. -/
def decodeAction (bytes : Bytes) : Except DecodeError Endorsement := do
  let payload ← decodeMessage Encoded.ChaincodeActionPayload bytes
  let endorsed ← required "chaincode_action_payload.action" payload.action
  let response ← decodeMessage Encoded.ProposalResponsePayload endorsed.proposalResponsePayload
  let action ← decodeMessage Encoded.ChaincodeAction response.extension
  let id := action.chaincodeId.getD Wire.Message.empty
  let set ← decodeMessage Encoded.TxReadWriteSet action.results
  let sets ← set.namespaces.mapM decodeNamespace
  return ⟨id.name, id.version, sets.flatMap Prod.fst, sets.flatMap Prod.snd⟩

/-- Reads the content of an endorser transaction; only its first action counts. -/
def decode (bytes : Bytes) : Except DecodeError Endorsement := do
  let transaction ← decodeMessage Encoded.Transaction bytes
  match transaction.actions with
  | [] => .error .noActions
  | action :: _ => decodeAction action.payload

end Endorsement

def Transaction.decode (bytes : Bytes) : Except DecodeError Transaction := do
  let envelope ← OpenedEnvelope.decode bytes
  let kind := TxKind.ofCode envelope.channelHeader.kind
  let endorsement ←
    if kind.isEndorser then (Endorsement.decode envelope.data).map some else pure none
  return {
    txId := envelope.channelHeader.txId
    channelId := envelope.channelHeader.channelId
    creator := Creator.ofBytes envelope.signatureHeader.creator
    kind := kind
    timestamp := envelope.instant?
    endorsement := endorsement }

namespace Block

/-- The entry of the metadata that holds the validation codes. -/
def codesIndex : Nat := 2

def decode (bytes : Bytes) : Except DecodeError Block := do
  let block ← decodeMessage Encoded.Block bytes
  let header ← required "block.header" block.header
  let entries := (block.data.map (·.entries)).getD []
  match entries with
  | [] => .error .emptyBlock
  | first :: _ =>
    let first ← OpenedEnvelope.decode first
    return {
      header := ⟨header.number.toNat, header.previousHash, header.dataHash⟩
      timestamp := first.instant?
      kind := TxKind.ofCode first.channelHeader.kind
      entries := entries
      validationCodes := (block.metadata.bind (·.entries[codesIndex]?)).getD [] }

/-- The validation code of a transaction, where the block has one. -/
def validationCode? (block : Block) (index : Nat) : Option UInt8 :=
  block.validationCodes[index]?

end Block

end LedgerIndex
