import LedgerIndex.Event.Basic
import LedgerIndex.Event.Linking

/-! # The events of a block

`Agent.eventsOf` lists the events of a decoded block in the order in which they are published: for
every transaction its writes and then the transaction itself, and the block last. -/

namespace LedgerIndex

/-- What an agent adds to the events it publishes: the peer it reads from, its organization, and the
linking declarations it follows. -/
structure Agent where
  peer : String
  organization : String
  links : List ChaincodeLink
deriving DecidableEq, Repr

namespace Agent

/-- Where the agent's events on a channel come from. -/
def origin (agent : Agent) (channel : String) : Origin :=
  ⟨channel, agent.peer, agent.organization⟩

/-- A write with its value rendered. -/
def writeEntry (write : KeyWrite) : WriteEntry :=
  ⟨write.namespaceName, write.key, Json.rendered write.value, write.isDelete⟩

/-- An endorsement with its values rendered. -/
def endorsementEntry (e : Endorsement) : EndorsementEntry :=
  ⟨e.chaincodeName, e.chaincodeVersion, e.reads, e.writes.map writeEntry⟩

def writeEvent (agent : Agent) (channel : String) (blockNumber txIndex : Nat) (tx : Transaction)
    (e : EndorsementEntry) (entry : WriteEntry) (writeIndex : Nat) : WriteEvent :=
  { origin := agent.origin channel
    blockNumber := blockNumber
    txIndex := txIndex
    writeIndex := writeIndex
    txId := tx.txId
    chaincodeName := e.chaincodeName
    chaincodeVersion := e.chaincodeVersion
    entry := entry
    linkingKey := ChaincodeLink.storedKey agent.links e.chaincodeName entry.value
    linkedValues := ChaincodeLink.linkedValues agent.links e.chaincodeName entry.value
    createdAt := tx.timestamp
    creator := tx.creator }

def transactionEvent (agent : Agent) (channel : String) (block : Block) (tx : Transaction)
    (txIndex : Nat) : TransactionEvent :=
  { origin := agent.origin channel
    blockNumber := block.header.number
    txIndex := txIndex
    txId := tx.txId
    createdAt := tx.timestamp
    creator := tx.creator
    kind := tx.kind
    validationCode := block.validationCode? txIndex
    endorsement := tx.endorsement.map endorsementEntry }

/-- The events of the writes of one transaction. -/
def writeEventsOf (agent : Agent) (channel : String) (block : Block) (tx : Transaction)
    (txIndex : Nat) : List Event :=
  match tx.endorsement.map endorsementEntry with
  | some e => e.writes.zipIdx.map fun (entry, writeIndex) =>
      .write (agent.writeEvent channel block.header.number txIndex tx e entry writeIndex)
  | none => []

/-- The events of one transaction: its writes, then itself. -/
def eventsOfTransaction (agent : Agent) (channel : String) (block : Block) (tx : Transaction)
    (txIndex : Nat) : List Event :=
  agent.writeEventsOf channel block tx txIndex
    ++ [.transaction (agent.transactionEvent channel block tx txIndex)]

def blockEvent (agent : Agent) (channel : String) (block : Block) (blockHash : String)
    (txs : List Transaction) : BlockEvent :=
  { origin := agent.origin channel
    blockNumber := block.header.number
    blockHash := blockHash
    previousHash := block.header.previousHash.toHex
    dataHash := block.header.dataHash.toHex
    createdAt := block.timestamp
    kind := block.kind
    transactions := txs.map (·.txId) }

/-- The events of a block and its transactions, in the order in which they are published. -/
def eventsOf (agent : Agent) (channel : String) (block : Block) (blockHash : String)
    (txs : List Transaction) : List Event :=
  (txs.zipIdx.flatMap fun (tx, txIndex) => agent.eventsOfTransaction channel block tx txIndex)
    ++ [.block (agent.blockEvent channel block blockHash txs)]

end Agent

end LedgerIndex
