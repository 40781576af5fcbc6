import LedgerIndex.Ingest.Site
import LedgerIndex.Proofs.Ingest.Questions
import LedgerIndex.Proofs.Ingest.Reachable

/-! # An engine on a bench

A `Bench` is an engine beside a ledger in memory and a store of any kind.  A `ChannelStep` is a call
to the engine on one channel, or a change of the ledger there; its `Outcome` is all that can be seen
of it: the result of a call with every question that the call asked and the answer it got.  Calls
are carried out in sessions, so a request to stop may be there from the beginning or come with the
fetching of any block. -/

namespace LedgerIndex

open Ingest

/-- What is done on one channel.  A poll may find a request to stop, and fetching the block `stopAt`
sets it. -/
inductive ChannelStep where
  | reconcile
  | poll (stopped : Bool) (stopAt : Option Nat)
  | push (block : Bytes)
  | replace (number : Nat) (block : Bytes)

inductive Outcome where
  | called (result : Except IngestError Nat) (asked : List Asked)
  | pushed
  | replaced (found : Bool)

/-- An engine beside a ledger in memory and a store. -/
structure Bench where
  engine : Engine
  ledger : MemoryLedger
  store : StoreBackend

namespace Bench

def session (bench : Bench) (channel : String) (stopped : Bool) (stopAt : Option Nat) : Session :=
  { site := ⟨.memory bench.ledger, bench.store, .unreachable⟩
    channel := channel
    stopped := stopped
    stopAt := stopAt }

/-- A call to the engine in a session. -/
def call (bench : Bench) (session : Session) (program : Program (Except IngestError Nat × Engine)) :
    Outcome × Bench :=
  let ran := session.run program
  (.called ran.1.1 (program.trace Session.world session),
    ⟨ran.1.2, bench.ledger, ran.2.site.store⟩)

/-- The outcome of a step and the bench after it. -/
def step (bench : Bench) (channel : String) : ChannelStep → Outcome × Bench
  | .reconcile => bench.call (bench.session channel false none) (bench.engine.reconcile channel)
  | .poll stopped stopAt =>
    bench.call (bench.session channel stopped stopAt) (bench.engine.poll channel)
  | .push block => (.pushed, { bench with ledger := bench.ledger.push channel block })
  | .replace number block =>
    let (found, ledger) := bench.ledger.replace channel number block
    (.replaced found, { bench with ledger := ledger })

/-- The outcomes of some steps, each with its channel, and the bench after them. -/
def run (bench : Bench) : List (String × ChannelStep) → List (String × Outcome) × Bench
  | [] => ([], bench)
  | (channel, s) :: steps =>
    let (outcome, bench) := bench.step channel s
    let (outcomes, bench) := bench.run steps
    ((channel, outcome) :: outcomes, bench)

theorem run_cons (bench : Bench) (channel : String) (s : ChannelStep)
    (steps : List (String × ChannelStep)) :
    bench.run ((channel, s) :: steps)
      = ((channel, (bench.step channel s).1) :: ((bench.step channel s).2.run steps).1,
        ((bench.step channel s).2.run steps).2) := rfl

variable {bench : Bench} {channel : String} {session : Session}
  {step : Ingestor → Program (Except IngestError Nat × Ingestor)}

theorem call_onChannel_none (h : bench.engine.ingestor? channel = none) :
    bench.call session (bench.engine.onChannel channel step)
      = (.called (.error (.unknownChannel channel)) [],
        ⟨bench.engine, bench.ledger, session.site.store⟩) := by
  have hprogram : bench.engine.onChannel channel step
      = pure (.error (.unknownChannel channel), bench.engine) := by
    rw [Engine.onChannel, h]
  rw [call, hprogram]
  rfl

theorem call_onChannel_some {ingestor : Ingestor}
    (h : bench.engine.ingestor? channel = some ingestor) :
    bench.call session (bench.engine.onChannel channel step)
      = (.called (session.run (step ingestor)).1.1 ((step ingestor).trace Session.world session),
        ⟨⟨Entries.put channel (session.run (step ingestor)).1.2 bench.engine.ingestors⟩,
          bench.ledger, (session.run (step ingestor)).2.site.store⟩) := by
  have hprogram : bench.engine.onChannel channel step = step ingestor >>= fun r =>
      pure (r.1, ⟨Entries.put channel r.2 bench.engine.ingestors⟩) := by
    rw [Engine.onChannel, h]
  rw [call, hprogram, Session.run, Program.run_bind, Program.trace_bind, Program.trace_pure,
    List.append_nil]
  rfl

end Bench

/-! ### Sessions -/

namespace Ingest.Session

variable {session : Session} {ledger : MemoryLedger}

/-- What a session over a ledger in memory answers to a question to the ledger. -/
theorem world_ledger (h : session.site.ledger = .memory ledger) (q : Ledger.Query) :
    world (.ledger q) session = (ledger.answer q, { session with
      stopped := session.stopped || session.setsStop q
      calls := session.calls ++ [q] }) := by
  simp [world, Site.askLedger, h]

theorem world_store_memory {store : MemoryStore} (h : session.site.store = .memory store)
    (q : Store.Query) : world (.store q) session = ((store.answer q).1, { session with
      site := { session.site with store := .memory (store.answer q).2 } }) := by
  simp [world, Site.askStore, h]

theorem world_store_tables {view : TableStore} {tables : Tables}
    (h : session.site.store = .tables view tables) (q : Store.Query) :
    world (.store q) session = ((view.answer tables q).1, { session with
      site := { session.site with store := .tables view (view.answer tables q).2 } }) := by
  simp [world, Site.askStore, h]

end Ingest.Session

end LedgerIndex
