import LedgerIndex.Event.Basic

/-! # Documents

The JSON document of an event, as the index store receives it.  Absent values are written as null;
a transaction without endorsement has no fields of one. -/

namespace LedgerIndex

namespace Event

def instantJson (instant : Option Instant) : Json :=
  Json.ofString? (instant.map Instant.text)

end Event

/-- The fields that every document has. -/
def Origin.fields (origin : Origin) (blockNumber : Nat) : List (String × Json) :=
  [("block_number", .nat blockNumber), ("channel_id", .string origin.channel),
    ("peer", .string origin.peer), ("organization", .string origin.organization)]

def BlockEvent.document (e : BlockEvent) : Json :=
  .ofFields (e.origin.fields e.blockNumber ++
    [("block_hash", .string e.blockHash), ("previous_hash", .string e.previousHash),
      ("data_hash", .string e.dataHash), ("created_at", Event.instantJson e.createdAt),
      ("block_type", .string e.kind.name), ("transactions", .ofStrings e.transactions)])

def WriteEntry.fields (w : WriteEntry) : List (String × Json) :=
  [("namespace", .string w.namespaceName), ("key", .string w.key), ("value", w.value),
    ("isDelete", .bool w.isDelete)]

def EndorsementEntry.fields (e : EndorsementEntry) : List (String × Json) :=
  [("chaincode_name", .string e.chaincodeName), ("chaincode_version", .string e.chaincodeVersion),
    ("readset", .array (e.reads.map fun r =>
      .ofFields [("namespace", .string r.namespaceName), ("key", .string r.key)])),
    ("writeset", .array (e.writes.map fun w => .ofFields w.fields))]

/-- The document of a transaction. -/
def TransactionEvent.document (e : TransactionEvent) : Json :=
  .ofFields (e.origin.fields e.blockNumber ++
    [("tx_index", .nat e.txIndex), ("tx_id", .string e.txId),
      ("created_at", Event.instantJson e.createdAt), ("creator", .string e.creator.identity),
      ("creator_org", .string e.creator.organization), ("transaction_type", .string e.kind.name),
      ("validation_code",
        match e.validationCode with
        | some code => .nat code.toNat
        | none => .null)]
    ++ ((e.endorsement.map (·.fields)).getD []))

def WriteEvent.document (e : WriteEvent) : Json :=
  .ofFields (e.origin.fields e.blockNumber ++
    [("tx_index", .nat e.txIndex), ("write_index", .nat e.writeIndex), ("tx_id", .string e.txId),
      ("chaincode_name", .string e.chaincodeName),
      ("chaincode_version", .string e.chaincodeVersion)]
    ++ e.entry.fields ++
    [("linking_key", .string e.linkingKey), ("linked_values", e.linkedValues),
      ("created_at", Event.instantJson e.createdAt), ("creator", .string e.creator.identity),
      ("creator_org", .string e.creator.organization)])

def Event.document : Event → Json
  | block e => e.document
  | transaction e => e.document
  | write e => e.document

end LedgerIndex
