import LedgerIndex.Event.OfBlock
import LedgerIndex.Ingest.Program

/-! # Ingesting a channel

An `Ingestor` follows the blocks of one channel.  `Ingestor.reconcile` compares the stored
checkpoint with the ledger and places the cursor behind it.  `Ingestor.poll` publishes the blocks
from the cursor up to the height of the ledger: of each block all events, the event of the block
last, and then the checkpoint.  A block is published only if it carries the hash of the block before
it, and only after all its transactions were decoded. -/

namespace LedgerIndex

open Ingest

/-- A place in a channel: the next block, and the header hash of the block before it. -/
structure Cursor where
  next : Nat
  lastHash : Option Bytes
deriving DecidableEq, Repr

/-- The place before the first block. -/
def Cursor.genesis : Cursor := ⟨0, none⟩

abbrev Attempt (α : Type) : Type :=
  ExceptT IngestError Program α

namespace Attempt

/-- Goes on with a value, or fails with the error given in its place. -/
def ofExcept {ε α : Type} (error : ε → IngestError) : Except ε α → Attempt α
  | .ok a => pure a
  | .error e => throw (error e)

/-- Asks the ledger on behalf of a channel. -/
def ledger (channel : String) (q : Ledger.Query) : Attempt q.Value := do
  let answer ← ExceptT.lift (Program.query (.ledger q))
  ofExcept (IngestError.ofLedger channel) answer

/-- Asks the store on behalf of a channel. -/
def store (channel : String) (q : Store.Query) : Attempt q.Value := do
  let answer ← ExceptT.lift (Program.query (.store q))
  ofExcept (IngestError.store channel) answer

end Attempt

namespace Ingestor

/-- The block of serialized bytes that a channel was asked for under a number. -/
def decodeNumbered (number : Nat) (bytes : Bytes) : Except DecodeError Block := do
  let block ← Block.decode bytes
  if block.header.number = number then return block
  else throw (.unexpectedBlockNumber number block.header.number)

/-- The header hash of a block under the number it was asked for. -/
def headerHash (block : Block) : Attempt Bytes :=
  .ofExcept (fun e => .blockNumberOverflow e.number) block.header.hash

/-- Fetches a block and decodes it. -/
def fetch (channel : String) (number : Nat) : Attempt Block := do
  let bytes ← Attempt.ledger channel (.block channel number)
  .ofExcept (.decode channel number) (decodeNumbered number bytes)

/-- Fetches the block of a checkpoint, which the ledger has to have. -/
def fetchCheckpoint (channel : String) (number : Nat) : Attempt Block :=
  tryCatch (fetch channel number) fun
    | .ledger _ (.blockNotFound ..) => throw (.checkpointNotOnLedger channel number)
    | e => throw e

/-- Equality of texts up to the case of the letters a to z. -/
def sameIgnoringCase (a b : String) : Bool :=
  a.toList.map Char.toLower == b.toList.map Char.toLower

/-- The cursor behind a checkpoint that agrees with the ledger. -/
def cursorAfter (channel : String) (number : Nat) : Attempt Cursor := do
  let some storedHash ← Attempt.store channel (.blockHash channel number)
    | throw (.missingBlockDocument channel number)
  let block ← fetchCheckpoint channel number
  let hash ← headerHash block
  if sameIgnoringCase storedHash hash.toHex then return ⟨number + 1, some hash⟩
  else throw (.chainDivergence channel number storedHash hash.toHex)

/-- The cursor behind the stored checkpoint, or before the first block where there is none. -/
def startCursor (channel : String) : Attempt Cursor := do
  match ← Attempt.store channel (.checkpoint channel) with
  | none => return Cursor.genesis
  | some number => cursorAfter channel number

/-- A block follows on the one before it. -/
def linked (cursor : Cursor) (block : Block) : Bool :=
  match cursor.lastHash with
  | some hash => block.header.previousHash == hash
  | none => true

/-- The error of a block that does not follow on the one before it. -/
def brokenChain (channel : String) (cursor : Cursor) (block : Block) : IngestError :=
  .brokenHashChain channel cursor.next ((cursor.lastHash.map Bytes.toHex).getD "")
    block.header.previousHash.toHex

def publish (channel : String) : List Event → Attempt Unit
  | [] => pure ()
  | event :: events => do
    Attempt.store channel (.putEvent event)
    publish channel events

/-- What is published for a block, all of it decoded. -/
structure Prepared where
  headerHash : Bytes
  transactions : List Transaction
  events : List Event

/-- Fetches the block at the cursor and decodes all of it. -/
def prepare (agent : Agent) (channel : String) (cursor : Cursor) : Attempt Prepared := do
  let block ← fetch channel cursor.next
  if !linked cursor block then throw (brokenChain channel cursor block)
  let hash ← headerHash block
  let txs ← .ofExcept (.decode channel cursor.next) (block.entries.mapM Transaction.decode)
  return ⟨hash, txs, agent.eventsOf channel block hash.toHex txs⟩

/-- Ingests the block at the cursor. -/
def ingestNext (agent : Agent) (channel : String) (cursor : Cursor) : Attempt IngestedBlock := do
  let prepared ← prepare agent channel cursor
  publish channel prepared.events
  Attempt.store channel (.putCheckpoint channel cursor.next)
  return { number := cursor.next
           blockHash := prepared.headerHash.toHex
           headerHash := prepared.headerHash
           transactions := prepared.transactions.length
           events := prepared.events.length }

/-- Ingests at most `remaining` blocks from the cursor, after `count` others. -/
def ingestUpTo (agent : Agent) (channel : String) :
    Nat → Cursor → Nat → Program (Except IngestError Nat × Cursor)
  | 0, cursor, count => pure (.ok count, cursor)
  | remaining + 1, cursor, count => do
    if ← Program.query .cancelled then return (.ok count, cursor)
    match ← (ingestNext agent channel cursor).run with
    | .error e => return (.error e, cursor)
    | .ok block =>
      Program.query (.report (.ingested block))
      ingestUpTo agent channel remaining ⟨cursor.next + 1, some block.headerHash⟩ (count + 1)

end Ingestor

/-- The work on one channel; without a cursor it has not been reconciled. -/
structure Ingestor where
  agent : Agent
  channel : String
  cursor : Option Cursor
deriving DecidableEq, Repr

namespace Ingestor

/-- The work on a channel before its first step. -/
def start (agent : Agent) (channel : String) : Ingestor :=
  ⟨agent, channel, none⟩

/-- Compares the checkpoint with the ledger; the answer is the first block to ingest. -/
def reconcile (ingestor : Ingestor) : Program (Except IngestError Nat × Ingestor) := do
  match ← (startCursor ingestor.channel).run with
  | .error e => return (.error e, ingestor)
  | .ok cursor =>
    Program.query (.report (.reconciled cursor.next))
    return (.ok cursor.next, { ingestor with cursor := some cursor })

/-- Ingests the blocks between the cursor and the height of the ledger; the answer is how many.
After an error the cursor stands at the block that failed. -/
def poll (ingestor : Ingestor) : Program (Except IngestError Nat × Ingestor) := do
  match ingestor.cursor with
  | none => return (.error (.notReconciled ingestor.channel), ingestor)
  | some cursor =>
    match ← (Attempt.ledger ingestor.channel (.tipHeight ingestor.channel)).run with
    | .error e => return (.error e, ingestor)
    | .ok height =>
      let (result, cursor) ←
        ingestUpTo ingestor.agent ingestor.channel (height - cursor.next) cursor 0
      return (result, { ingestor with cursor := some cursor })

end Ingestor

end LedgerIndex
