import LedgerIndex.Ingest.Engine

/-! # Followers

What follows channels step by step: an engine for many of them, or the ingestor of one alone, which
takes its steps whatever channel is named. -/

namespace LedgerIndex

open Ingest

/-- An engine, or a single ingestor. -/
inductive Follower where
  | engine (engine : Engine)
  | single (ingestor : Ingestor)
deriving DecidableEq, Repr

namespace Follower

/-- The channels that are followed, in order. -/
def channels : Follower → List String
  | engine e => e.channels
  | single ingestor => [ingestor.channel]

def cursor? (follower : Follower) (channel : String) : Option Cursor :=
  match follower with
  | engine e => e.cursor? channel
  | single ingestor => ingestor.cursor

/-- Compares the checkpoint of a channel with the ledger. -/
def reconcile (follower : Follower) (channel : String) :
    Program (Except IngestError Nat × Follower) := do
  match follower with
  | engine e =>
    let (result, e) ← e.reconcile channel
    return (result, .engine e)
  | single ingestor =>
    let (result, ingestor) ← ingestor.reconcile
    return (result, .single ingestor)

/-- Ingests the new blocks of a channel. -/
def poll (follower : Follower) (channel : String) :
    Program (Except IngestError Nat × Follower) := do
  match follower with
  | engine e =>
    let (result, e) ← e.poll channel
    return (result, .engine e)
  | single ingestor =>
    let (result, ingestor) ← ingestor.poll
    return (result, .single ingestor)

end Follower

end LedgerIndex
