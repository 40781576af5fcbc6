import LedgerIndex.Ingest.Engine
import LedgerIndex.Ingest.Site

/-! # Deployments

A `Deployment` is a ledger and a store in memory with at most one engine at work on them.  An
`Action` is one thing that happens to it: an engine starts, in the place of the one before, or is
killed; a call to the engine begins; the call in progress gets the answer to its next question, and
with it what it sees when it looks for a request to stop; the ledger grows, changes or fails; the
store begins or ceases to refuse events.  Questions of a call and all other actions mix freely, so
that a ledger may change between any two questions, and a kill may come between any two writes.

A call that is carried out in a `Session` over memory is one such sequence of answers
(`run_ofCall`). -/

namespace LedgerIndex

open Ingest

/-- A call to an engine: its result and the engine after it. -/
abbrev EngineCall : Type :=
  Program (Except IngestError Nat × Engine)

/-- What is going on: no engine, an engine between its calls, or a call at its next question. -/
inductive Activity where
  | stopped
  | idle (engine : Engine)
  | busy (query : Query) (next : query.Answer → EngineCall)

namespace Activity

/-- The activity of a call that goes on. -/
def ofCall : EngineCall → Activity
  | .done (_, engine) => .idle engine
  | .ask query next => .busy query next

/-- A call is in progress. -/
def isBusy : Activity → Bool
  | .busy .. => true
  | _ => false

end Activity

/-- One thing that happens to a deployment. -/
inductive Action where
  | start (agent : Agent) (channels : List String)
  | kill
  | reconcile (channel : String)
  | poll (channel : String)
  | answer (cancelled : Bool)
  | push (channel : String) (block : Bytes)
  | replace (channel : String) (number : Nat) (block : Bytes)
  | setUnavailable (unavailable : Bool)
  | limitPuts (successful : Option Nat)
deriving DecidableEq, Repr

/-- The engine at work is dropped, and with it a call in progress. -/
def Action.drops : Action → Bool
  | start .. | kill => true
  | _ => false

/-- A block that counts as published before. -/
structure Seed where
  channel : String
  number : Nat
  hash : String
deriving DecidableEq, Repr

/-- A store that is empty but for a seed. -/
def MemoryStore.ofSeed : Option Seed → MemoryStore
  | none => {}
  | some seed => ({} : MemoryStore).seed seed.channel seed.number seed.hash

/-- A ledger and a store in memory, and what is going on. -/
structure Deployment where
  ledger : MemoryLedger := {}
  store : MemoryStore := {}
  activity : Activity := .stopped

namespace MemoryStore

@[simp] theorem events_ofSeed (seed : Option Seed) : (ofSeed seed).events = [] := by
  cases seed <;> rfl

@[simp] theorem history_ofSeed (seed : Option Seed) : (ofSeed seed).history = [] := by
  cases seed <;> rfl

@[simp] theorem failingPuts_ofSeed (seed : Option Seed) : (ofSeed seed).failingPuts = none := by
  cases seed <;> rfl

end MemoryStore

namespace Deployment

/-- A deployment before its first engine. -/
def initial (ledger : MemoryLedger) (seed : Option Seed) : Deployment :=
  { ledger := ledger, store := .ofSeed seed }

/-- The cursor of a channel that the engine holds between two calls. -/
def cursor? (d : Deployment) (channel : String) : Option Cursor :=
  match d.activity with
  | .idle engine => engine.cursor? channel
  | _ => none

/-- The answer to a question and the store after it. -/
def reply (d : Deployment) (cancelled : Bool) : (q : Query) → q.Answer × MemoryStore
  | .ledger q => (d.ledger.answer q, d.store)
  | .store q => d.store.answer q
  | .cancelled => (cancelled, d.store)
  | .report _ => ((), d.store)

/-- Begins a call, if an engine is there and has none in progress. -/
def begin (d : Deployment) (call : Engine → EngineCall) : Deployment :=
  match d.activity with
  | .idle engine => { d with activity := .ofCall (call engine) }
  | _ => d

/-- Answers the question of the call in progress. -/
def proceed (d : Deployment) (cancelled : Bool) : Deployment :=
  match d.activity with
  | .busy query next =>
    { d with
      store := (d.reply cancelled query).2
      activity := .ofCall (next (d.reply cancelled query).1) }
  | _ => d

/-- The deployment after an action. -/
def step (d : Deployment) : Action → Deployment
  | .start agent channels => { d with activity := .idle (Engine.start agent channels) }
  | .kill => { d with activity := .stopped }
  | .reconcile channel => d.begin fun engine => engine.reconcile channel
  | .poll channel => d.begin fun engine => engine.poll channel
  | .answer cancelled => d.proceed cancelled
  | .push channel block => { d with ledger := d.ledger.push channel block }
  | .replace channel number block => { d with ledger := (d.ledger.replace channel number block).2 }
  | .setUnavailable unavailable => { d with ledger := { d.ledger with unavailable := unavailable } }
  | .limitPuts successful => { d with store := { d.store with failingPuts := successful } }

/-- The deployment after some actions. -/
def run (d : Deployment) (actions : List Action) : Deployment :=
  actions.foldl step d

@[simp] theorem run_cons (d : Deployment) (action : Action) (actions : List Action) :
    d.run (action :: actions) = (d.step action).run actions := rfl

/-- No engine is dropped while a call is in progress. -/
def Uninterrupted : Deployment → List Action → Prop
  | _, [] => True
  | d, action :: actions =>
    (action.drops = true → d.activity.isBusy = false) ∧ Uninterrupted (d.step action) actions

/-- A session over memory answers as a deployment does, given what it shows of the request to
stop. -/
theorem world_eq_reply {ledger : MemoryLedger} {store : MemoryStore} {network : Http.Network}
    {session : Session} (hsite : session.site = ⟨.memory ledger, .memory store, network⟩)
    (activity : Activity) (query : Query) :
    ∃ store', (⟨ledger, store, activity⟩ : Deployment).reply session.stopped query
        = ((Session.world query session).1, store') ∧
      (Session.world query session).2.site = ⟨.memory ledger, .memory store', network⟩ := by
  cases query <;> simp [Session.world, Site.askLedger, Site.askStore, reply, hsite]

/-- **A call in a session.**  A call that is carried out over a ledger and a store in memory is the
same as the answers to its questions one after the other, with no other action between them. -/
theorem run_ofCall (call : EngineCall) (ledger : MemoryLedger) (store : MemoryStore)
    (network : Http.Network) (session : Session)
    (hsite : session.site = ⟨.memory ledger, .memory store, network⟩) :
    ∃ (looks : List Bool) (store' : MemoryStore),
      (session.run call).2.site = ⟨.memory ledger, .memory store', network⟩ ∧
      run ⟨ledger, store, .ofCall call⟩ (looks.map .answer)
        = ⟨ledger, store', .idle (session.run call).1.2⟩ := by
  induction call generalizing session store with
  | done result => exact ⟨[], store, hsite, rfl⟩
  | ask query next ih =>
      let d : Deployment := ⟨ledger, store, .ofCall (.ask query next)⟩
      obtain ⟨store₁, hreply, hsite₁⟩ := world_eq_reply hsite d.activity query
      have hstep : d.step (.answer session.stopped)
          = ⟨ledger, store₁, .ofCall (next (Session.world query session).1)⟩ := by
        show Deployment.mk ledger (d.reply session.stopped query).2
          (.ofCall (next (d.reply session.stopped query).1)) = _
        rw [hreply]
      obtain ⟨looks, store', hafter, hrun⟩ :=
        ih (Session.world query session).1 store₁ (Session.world query session).2 hsite₁
      refine ⟨session.stopped :: looks, store', hafter, ?_⟩
      rw [List.map_cons, run_cons, hstep]
      exact hrun

/-! ### A sample -/

namespace Sample

/-- Block 0 of a channel, with one empty transaction. -/
def first : Bytes :=
  [0x0a, 0, 0x12, 6, 0x0a, 4, 0x0a, 2, 0x0a, 0]

/-- The hash of the header of block 0. -/
def firstHash : Bytes :=
  [0x1d, 0x1c, 0x28, 0x8c, 0x68, 0x51, 0x50, 0x5b, 0xe0, 0xb4, 0x7a, 0x0f, 0x8e, 0x7d, 0xfb, 0x91,
   0xab, 0x2a, 0xbe, 0x6a, 0xd7, 0x1c, 0xef, 0x63, 0xa3, 0x79, 0x1d, 0x14, 0x58, 0x8d, 0x1d, 0x0e]

/-- Block 1, which follows on block 0. -/
def second : Bytes :=
  [0x0a, 36, 8, 1, 0x12, 32] ++ firstHash ++ [0x12, 6, 0x0a, 4, 0x0a, 2, 0x0a, 0]

def agent : Agent := ⟨"peer0", "org1", []⟩

/-- An engine for a channel of two blocks reconciles and polls it, each call as far as a number of
questions. -/
def actions (reconciling polling : Nat) : List Action :=
  [.push "c" first, .push "c" second, .start agent ["c"]]
    ++ .reconcile "c" :: List.replicate reconciling (.answer false)
    ++ .poll "c" :: List.replicate polling (.answer false)

theorem eq_agent_of_start_mem {reconciling polling : Nat} {a : Agent} {channels : List String}
    (h : .start a channels ∈ actions reconciling polling) : a = agent := by
  simp [actions] at h
  exact h.1

end Sample

end Deployment

end LedgerIndex
