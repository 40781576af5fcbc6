import LedgerIndex.Entries
import LedgerIndex.Store.Basic

/-! # An index store in memory

The events in the order of their first publication, a later event of the same kind and document id
in the place of the earlier one; the checkpoints and the history of their writing; and the hashes of
the published blocks.  Publication can be made to fail after a number of events. -/

namespace LedgerIndex

structure MemoryStore where
  checkpoints : List (String × Nat) := []
  history : List (String × Nat) := []
  events : List Event := []
  blockHashes : List ((String × Nat) × String) := []
  failingPuts : Option Nat := none
deriving Repr, Inhabited

namespace MemoryStore

/-- Records a checkpoint and the hash of its block as if the block had been published before. -/
def seed (store : MemoryStore) (channel : String) (number : Nat) (hash : String) : MemoryStore :=
  { store with
    checkpoints := Entries.put channel number store.checkpoints
    blockHashes := Entries.put (channel, number) hash store.blockHashes }

def eventsOf (store : MemoryStore) (kind : EventKind) : List Event :=
  store.events.filter (·.kind == kind)

/-- Puts an event in the place of the event with its kind and document id, or at the end. -/
def upsert (event : Event) : List Event → List Event
  | [] => [event]
  | e :: rest =>
    if e.kind = event.kind ∧ e.documentId = event.documentId then event :: rest
    else e :: upsert event rest

/-- The error of a store that refuses events. -/
def refusal : StoreError :=
  .status 503 "store unavailable"

/-- The block hashes with the hash of a published block. -/
def recordHash (hashes : List ((String × Nat) × String)) : Event → List ((String × Nat) × String)
  | .block e => Entries.put (e.origin.channel, e.blockNumber) e.blockHash hashes
  | _ => hashes

def accept (store : MemoryStore) (event : Event) : MemoryStore :=
  { store with
    events := upsert event store.events
    blockHashes := recordHash store.blockHashes event
    failingPuts := store.failingPuts.map (· - 1) }

/-- Publishes an event, unless publication fails. -/
def putEvent (store : MemoryStore) (event : Event) : Except StoreError Unit × MemoryStore :=
  if store.failingPuts = some 0 then (.error refusal, store) else (.ok (), store.accept event)

def putCheckpoint (store : MemoryStore) (channel : String) (number : Nat) : MemoryStore :=
  { store with
    checkpoints := Entries.put channel number store.checkpoints
    history := store.history ++ [(channel, number)] }

/-- The last checkpoint that was written for each channel. -/
def lastWritten (store : MemoryStore) : List (String × Nat) :=
  store.history.foldl (fun entries (channel, number) => Entries.put channel number entries) []

/-- The answer to a question and the store after it. -/
def answer (store : MemoryStore) : (q : Store.Query) → q.Answer × MemoryStore
  | .checkpoint channel => (.ok (Entries.get? channel store.checkpoints), store)
  | .putCheckpoint channel number => (.ok (), store.putCheckpoint channel number)
  | .blockHash channel number => (.ok (Entries.get? (channel, number) store.blockHashes), store)
  | .putEvent event => store.putEvent event

end MemoryStore

end LedgerIndex
