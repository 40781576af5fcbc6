import LedgerIndex.Entries
import LedgerIndex.Ingest.Ingestor

/-! # Ingesting several channels

An engine holds an ingestor for each channel it monitors, and passes every step on to the ingestor
of its channel. -/

namespace LedgerIndex

open Ingest

/-- The ingestors of the monitored channels. -/
structure Engine where
  ingestors : List (String × Ingestor)
deriving DecidableEq, Repr

namespace Engine

/-- The engine of some channels before their first steps; a channel named twice is one channel. -/
def start (agent : Agent) (channels : List String) : Engine :=
  ⟨channels.foldl (fun ingestors channel =>
    Entries.put channel (Ingestor.start agent channel) ingestors) []⟩

def ingestor? (engine : Engine) (channel : String) : Option Ingestor :=
  Entries.get? channel engine.ingestors

/-- The monitored channels, in order. -/
def channels (engine : Engine) : List String :=
  (engine.ingestors.map Prod.fst).mergeSort (fun a b => decide (a ≤ b))

def cursor? (engine : Engine) (channel : String) : Option Cursor :=
  (engine.ingestor? channel).bind (·.cursor)

/-- Takes a step with the ingestor of a channel. -/
def onChannel (engine : Engine) (channel : String)
    (step : Ingestor → Program (Except IngestError Nat × Ingestor)) :
    Program (Except IngestError Nat × Engine) := do
  match engine.ingestor? channel with
  | none => return (.error (.unknownChannel channel), engine)
  | some ingestor =>
    let (result, ingestor) ← step ingestor
    return (result, ⟨Entries.put channel ingestor engine.ingestors⟩)

/-- Compares the checkpoint of a channel with the ledger. -/
def reconcile (engine : Engine) (channel : String) : Program (Except IngestError Nat × Engine) :=
  engine.onChannel channel Ingestor.reconcile

/-- Ingests the new blocks of a channel. -/
def poll (engine : Engine) (channel : String) : Program (Except IngestError Nat × Engine) :=
  engine.onChannel channel Ingestor.poll

end Engine

end LedgerIndex
