import LedgerIndex.Event.Document
import LedgerIndex.Json.Printer
import LedgerIndex.Store.Basic

/-! # An index store in database tables

Two tables, shared by the agents of several peers: the checkpoints, one row for each peer and
channel, and the events, one row for each index and document id.  Writing a row with the key of
another one removes that one and adds the new row at the end.  Block numbers are kept in signed
sixty-four-bit columns. -/

namespace LedgerIndex

/-- A row of the checkpoint table. -/
structure CheckpointRow where
  peer : String
  channel : String
  number : Int
deriving DecidableEq, Repr

structure EventRow where
  index : String
  id : String
  peer : String
  channel : String
  blockNumber : Int
  blockHash : Option String
  document : String
deriving DecidableEq, Repr

/-- The two tables, rows in the order of their insertion. -/
structure Tables where
  checkpoints : List CheckpointRow := []
  events : List EventRow := []
deriving DecidableEq, Repr, Inhabited

/-- The tables as one agent sees them. -/
structure TableStore where
  peer : String
  indexNames : IndexNames
deriving DecidableEq, Repr

namespace Tables

def putCheckpoint (tables : Tables) (row : CheckpointRow) : Tables :=
  let others := tables.checkpoints.filter fun r => !(r.peer == row.peer && r.channel == row.channel)
  { tables with checkpoints := others ++ [row] }

def putEvent (tables : Tables) (row : EventRow) : Tables :=
  let others := tables.events.filter fun r => !(r.index == row.index && r.id == row.id)
  { tables with events := others ++ [row] }

/-- The checkpoint row of a peer and channel. -/
def checkpoint? (tables : Tables) (peer channel : String) : Option CheckpointRow :=
  tables.checkpoints.find? fun r => r.peer == peer && r.channel == channel

/-- The first event row of an index with a peer, a channel and a block number. -/
def firstOfBlock? (tables : Tables) (index peer channel : String) (number : Int) :
    Option EventRow :=
  tables.events.find? fun r =>
    r.index == index && r.peer == peer && r.channel == channel && r.blockNumber == number

/-- The tables with their rows in order: checkpoints by peer and channel, events by index and id. -/
def sorted (tables : Tables) : Tables :=
  { checkpoints := tables.checkpoints.mergeSort fun a b =>
      decide (a.peer < b.peer) || (a.peer == b.peer && decide (a.channel ≤ b.channel))
    events := tables.events.mergeSort fun a b =>
      decide (a.index < b.index) || (a.index == b.index && decide (a.id ≤ b.id)) }

end Tables

namespace TableStore

/-- A block number as a column holds it. -/
def toColumn (number : Nat) : Except StoreError Int :=
  if number < UInt64.size / 2 then .ok number else .error (.blockNumberOutOfRange number)

/-- The block number of a column; a negative one is reported as its sixty-four bits. -/
def ofColumn (number : Int) : Except StoreError Nat :=
  match number with
  | .ofNat n => .ok n
  | .negSucc n => .error (.blockNumberOutOfRange (UInt64.size - (n + 1)))

/-- The hash of a block that its event carries. -/
def hashOf? : Event → Option String
  | .block e => some e.blockHash
  | _ => none

def rowOf (store : TableStore) (event : Event) (number : Int) : EventRow :=
  { index := store.indexNames.indexFor event.kind
    id := event.documentId
    peer := store.peer
    channel := event.channel
    blockNumber := number
    blockHash := hashOf? event
    document := event.document.text }

/-- The answer to a question and the tables after it. -/
def answer (store : TableStore) (tables : Tables) : (q : Store.Query) → q.Answer × Tables
  | .checkpoint channel =>
    match tables.checkpoint? store.peer channel with
    | some row => ((ofColumn row.number).map some, tables)
    | none => (.ok none, tables)
  | .putCheckpoint channel number =>
    match toColumn number with
    | .ok column => (.ok (), tables.putCheckpoint ⟨store.peer, channel, column⟩)
    | .error e => (.error e, tables)
  | .blockHash channel number =>
    match toColumn number with
    | .ok column =>
      let index := store.indexNames.indexFor .block
      (.ok ((tables.firstOfBlock? index store.peer channel column).bind (·.blockHash)), tables)
    | .error e => (.error e, tables)
  | .putEvent event =>
    match toColumn event.blockNumber with
    | .ok column => (.ok (), tables.putEvent (store.rowOf event column))
    | .error e => (.error e, tables)

end TableStore

end LedgerIndex
