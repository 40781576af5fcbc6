import LedgerIndex.Block.Record
import LedgerIndex.Json.Basic
import LedgerIndex.Text.Lowercase

/-! # Events

An event is what the index store receives: one for every write of a transaction, one for every
transaction, one for every block.  Its document id depends on its place in the ledger only, so that
publishing a block again overwrites its documents. -/

namespace LedgerIndex

/-- The kinds of event, each stored in an index of its own. -/
inductive EventKind where
  | block
  | transaction
  | write
deriving DecidableEq, Repr

def EventKind.name : EventKind → String
  | block => "block"
  | transaction => "transaction"
  | write => "key"

structure IndexNames where
  block : String := "block"
  transaction : String := "transaction"
  key : String := "key"
deriving DecidableEq, Repr, Inhabited

/-- The index of a kind of event, in lowercase as the index store requires. -/
def IndexNames.indexFor (names : IndexNames) : EventKind → String
  | .block => lowercase names.block
  | .transaction => lowercase names.transaction
  | .write => lowercase names.key

/-- Where an event comes from: a channel, the peer it is read from, and the organization of the
agent that reads it. -/
structure Origin where
  channel : String
  peer : String
  organization : String
deriving DecidableEq, Repr

structure BlockEvent where
  origin : Origin
  blockNumber : Nat
  blockHash : String
  previousHash : String
  dataHash : String
  createdAt : Option Instant
  kind : TxKind
  transactions : List String
deriving DecidableEq, Repr

/-- A write as the event of its transaction shows it. -/
structure WriteEntry where
  namespaceName : String
  key : String
  value : Json
  isDelete : Bool
deriving Repr

/-- The endorsement as the event of its transaction shows it. -/
structure EndorsementEntry where
  chaincodeName : String
  chaincodeVersion : String
  reads : List KeyRead
  writes : List WriteEntry
deriving Repr

structure TransactionEvent where
  origin : Origin
  blockNumber : Nat
  txIndex : Nat
  txId : String
  createdAt : Option Instant
  creator : Creator
  kind : TxKind
  validationCode : Option UInt8
  endorsement : Option EndorsementEntry
deriving Repr

structure WriteEvent where
  origin : Origin
  blockNumber : Nat
  txIndex : Nat
  writeIndex : Nat
  txId : String
  chaincodeName : String
  chaincodeVersion : String
  entry : WriteEntry
  linkingKey : String
  linkedValues : Json
  createdAt : Option Instant
  creator : Creator
deriving Repr

inductive Event where
  | block (event : BlockEvent)
  | transaction (event : TransactionEvent)
  | write (event : WriteEvent)
deriving Repr

namespace Event

def kind : Event → EventKind
  | block _ => .block
  | transaction _ => .transaction
  | write _ => .write

def origin : Event → Origin
  | block e => e.origin
  | transaction e => e.origin
  | write e => e.origin

def channel (event : Event) : String :=
  event.origin.channel

/-- The number of the block an event belongs to. -/
def blockNumber : Event → Nat
  | block e => e.blockNumber
  | transaction e => e.blockNumber
  | write e => e.blockNumber

/-- The numbers that place an event within its channel: block, transaction and write. -/
def place : Event → List Nat
  | block e => [e.blockNumber]
  | transaction e => [e.blockNumber, e.txIndex]
  | write e => [e.blockNumber, e.txIndex, e.writeIndex]

/-- The id of the document of an event: peer, channel and place, joined by underscores. -/
def documentId (event : Event) : String :=
  "_".intercalate (event.origin.peer :: event.channel :: event.place.map Decimal.text)

end Event

end LedgerIndex
