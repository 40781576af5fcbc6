import Mathlib.Data.List.Infix
import LedgerIndex.Proofs.Ingest.Recovery
import LedgerIndex.Proofs.Ingest.TableDeployment

/-! # Resuming from a database

Engines of a peer are started, killed and cut short at any moment, over database tables that are
empty in the beginning, while the ledger holds first parts of an unbroken chain.  Where they leave a
checkpoint, an agent `Resumes` if it finds the hash of the checkpoint's block as the block's event
has it, and a new engine goes on behind this block.

Whether agents always can is a matter of the names of the indices and of nothing else: the index
of blocks has to be that of no other kind of event (`resumable_iff`).  Otherwise the lookup of the
hash may find the row of a write or of a transaction of the block, which has no hash. -/

namespace LedgerIndex

open Ingest

namespace TableDeployment

variable (view : TableStore)

/-- A new engine can resume at a checkpoint: the store has the hash of the checkpoint's block, as
the row of the block's event has it, and a reconciliation goes on behind this block. -/
structure Resumes (d : TableDeployment) (channel : String) (chain : List Bytes) (number : Nat) :
    Prop where
  blockHash : ∃ b hash, view.row (.block b) ∈ d.tables.events ∧ b.origin.peer = view.peer ∧
    b.origin.channel = channel ∧ b.blockNumber = number ∧ HashAt chain number hash ∧
    b.blockHash = hash.toHex ∧
    (view.answer d.tables (.blockHash channel number)).1 = .ok (some b.blockHash)
  reconcile : ∀ (agent : Agent) (channels : List String) (session : Session),
    agent.peer = view.peer → channel ∈ channels → session.site.ledger = .memory d.ledger →
    session.site.store = .tables view d.tables →
    (session.run ((Engine.start agent channels).reconcile channel)).1.1 = .ok (number + 1)

end TableDeployment

/-- At every moment the ledger holds a first part of a chain. -/
def Action.OnPrefixes (channel : String) (chain : List Bytes) (ledger : MemoryLedger)
    (actions : List Action) : Prop :=
  ∀ before, before <+: actions →
    ((before.foldl Action.serve ledger).blocks? channel).getD [] <+: chain

/-- An agent can resume wherever it has left a checkpoint: whatever its engines did, beginning with
empty tables, while the ledger held first parts of an unbroken chain. -/
def Resumable (names : IndexNames) : Prop :=
  ∀ (peer channel : String) (chain : List Bytes) (actions : List Action) (number : Nat),
    Unbroken chain → (∀ agent channels, .start agent channels ∈ actions → agent.peer = peer) →
    Action.OnPrefixes channel chain {} actions →
    (actions.foldl Action.serve {}).Serves channel chain →
    let d := TableDeployment.run ⟨peer, names⟩ {} actions
    (TableStore.answer ⟨peer, names⟩ d.tables (.checkpoint channel)).1 = .ok (some number) →
    d.Resumes ⟨peer, names⟩ channel chain number

/-! ### A reconciliation over tables -/

namespace Ingest.Session

variable {view : TableStore} {ledger : MemoryLedger}

/-- A session over a ledger in memory and tables that recall the store of a watched state. -/
structure Sees (view : TableStore) (ledger : MemoryLedger) (session : Session) (w : Watched) :
    Prop where
  ledger : session.site.ledger = .memory ledger
  store : ∃ t, session.site.store = .tables view t ∧ Tables.Recalls view w.store t

/-- Such a session answers what an ingestor may ask as the watched state lets it. -/
theorem Sees.answer (hown : view.indexNames.OwnBlocks) {ingestor : Ingestor}
    (hpeer : ingestor.agent.peer = view.peer) (q : Query) {session : Session} {w : Watched}
    (hq : (columns ingestor).May q) (h : Sees view ledger session w) :
    (columns ingestor).possible q (world q session).1 ∧
      ∃ w', Watched.environment ledger q w (world q session).1 w' ∧
        Sees view ledger (world q session).2 w' := by
  obtain ⟨hledger, t, hstore, hrecalls⟩ := h
  cases q with
  | ledger q =>
      rw [world_ledger hledger]
      exact ⟨trivial, w, ⟨rfl, rfl⟩, hledger, t, hstore, hrecalls⟩
  | store q =>
      obtain ⟨hanswer, hafter⟩ := hrecalls.answer hown (fits_of_may hpeer hq)
      rw [world_store_tables hstore, hanswer]
      exact ⟨possible_of_recorded hrecalls.recorded q, _, ⟨rfl, rfl⟩, hledger, _, rfl, hafter⟩
  | cancelled => exact ⟨trivial, _, rfl, hledger, t, hstore, hrecalls⟩
  | report progress => exact ⟨trivial, w, rfl, hledger, t, hstore, hrecalls⟩

/-- What a call yields beside memory holds of it in a session over tables. -/
theorem Sees.run (hown : view.indexNames.OwnBlocks) {α : Type} {p : Program α}
    {post : α → Watched → Prop} {w : Watched} (hp : Watched.Yields ledger post p w)
    (hfits : p.Fits view.peer) {session : Session} (h : Sees view ledger session w) :
    ∃ w', Sees view ledger (session.run p).2 w' ∧ post (session.run p).1 w' := by
  obtain ⟨ingestor, asked, hpeer, hasks⟩ := hfits
  exact Program.Safe.run_asking (fun q _ _ hq hsees => hsees.answer hown hpeer q hq)
    (Scope.exists_possible _) (fun _ _ hfine => hfine.may_last) hp hasks h

end Ingest.Session

namespace TableDeployment

variable {view : TableStore} {channel : String} {d : TableDeployment} {s : MemoryStore}
  {chain : List Bytes} {number : Nat}

/-- Where everything that is recalled comes from the chain, agents can resume. -/
theorem resumes_of_recalls (hown : view.indexNames.OwnBlocks)
    (hrecalls : Tables.Recalls view s d.tables) (hrecorded : s.Recorded chain channel)
    (hledger : d.ledger.Serves channel chain) (hcheckpoint : s.checkpoint? channel = some number) :
    d.Resumes view channel chain number where
  blockHash := by
    have hnext := MemoryStore.nextBlock_of_checkpoint? hcheckpoint
    obtain ⟨hash, hhash, hstored⟩ :=
      hrecorded.hash (Nat.lt_of_lt_of_eq (Nat.lt_succ_self number) hnext.symm)
    have hfound : Tables.hashAt? view d.tables channel number = some hash.toHex :=
      (hrecalls.hashes channel number).trans hstored
    obtain ⟨b, hrow, hpeer, hchannel, hnumber, hb⟩ := hrecalls.exists_row hown hfound
    refine ⟨b, hash, hrow, hpeer, hchannel, hnumber, hhash, hb, ?_⟩
    rw [Tables.answer_blockHash _ _ (hrecalls.recorded channel number hcheckpoint), hfound, hb]
  reconcile agent channels session hpeer hchannel hsession hstore := by
    obtain ⟨cursor, hverdict, hnext, -⟩ := hrecorded.verdict hledger
    have hfits : ((Engine.start agent channels).reconcile channel).Fits view.peer :=
      Engine.fits_onChannel (Engine.proper_start hpeer channels) (Ingestor.asking_reconcile _)
    have hsees : Session.Sees view d.ledger session ⟨s, []⟩ :=
      ⟨hsession, d.tables, hstore, hrecalls⟩
    obtain ⟨_, -, -, hresult, -⟩ :=
      hsees.run hown (Engine.yields_reconcile_start agent hchannel hverdict) hfits
    rw [hresult, hnext, MemoryStore.nextBlock_of_checkpoint? hcheckpoint]

/-- What a run leaves in the tables is recalled from a store in which everything comes from the
chain. -/
theorem exists_recorded (hown : view.indexNames.OwnBlocks) {actions : List Action}
    (hpeer : ∀ agent channels, .start agent channels ∈ actions → agent.peer = view.peer)
    (hledger : Action.OnPrefixes channel chain {} actions) :
    ∃ s, Tables.Recalls view s (run view {} actions).tables ∧ s.Recorded chain channel := by
  let D : Discipline channel (·.peer = view.peer) (Ledger.servingChain channel chain) :=
    Discipline.recording _ channel chain
  have hempty : MemoryStore.Recorded chain channel {} :=
    ⟨fun hlt => absurd hlt (Nat.not_lt_zero _), fun hb => absurd hb.1 List.not_mem_nil⟩
  have hbegin : Holds D {} :=
    ⟨{}, Tables.recalls_empty view, ⟨hempty, MemoryStore.behind_none⟩, trivial⟩
  obtain ⟨s, hrecalls, hholds, -⟩ := hbegin.run hown (Discipline.isolated_recording ..)
    (fun _ hsound => ⟨hsound, MemoryStore.behind_none⟩)
    (fun before hbefore => serving_of_isPrefix (hledger before hbefore)) hpeer
  have hsound : MemoryStore.Recorded chain channel s.unlimited := hholds.sound
  rw [MemoryStore.unlimited_of_failingPuts hrecalls.unlimited] at hsound
  exact ⟨s, hrecalls, hsound⟩

end TableDeployment

theorem IndexNames.OwnBlocks.resumable {names : IndexNames} (hown : names.OwnBlocks) :
    Resumable names := by
  intro peer channel chain actions number _ hpeer hledger hserves d hcheckpoint
  have hindices : (TableStore.mk peer names).indexNames.OwnBlocks := hown
  obtain ⟨s, hrecalls, hrecorded⟩ := TableDeployment.exists_recorded hindices hpeer hledger
  rw [hrecalls.answer_checkpoint] at hcheckpoint
  have hfinal : d.ledger.Serves channel chain := by
    rw [TableDeployment.ledger_run]
    exact hserves
  exact TableDeployment.resumes_of_recalls hindices hrecalls hrecorded hfinal
    (Except.ok.inj hcheckpoint)

/-! ### An index that is shared -/

namespace Resumable.Sample

open Deployment.Sample (agent)

/-- One block, whose transaction writes a key. -/
def transactions : List (List TxFixture) :=
  [[⟨"t", "c", [], 0, .endorser "cc" "1" [.write "n" "k" [1]]⟩]]

def chain : List Bytes :=
  (ChainFixture.blocks "c" transactions).map BlockFixture.encode

def actions : List Action :=
  chain.map (.push "c") ++ .start agent ["c"] :: .reconcile "c" :: List.replicate 2 (.answer false)
    ++ .poll "c" :: List.replicate 8 (.answer false)

/-- What the engine leaves in a store in memory. -/
def store : MemoryStore :=
  (({} : Deployment).run actions).store

theorem unbroken_chain : Unbroken chain := by
  have hservable : ChainFixture.Servable "c" transactions :=
    ⟨by decide, by decide, by decide, by decide +kernel⟩
  exact hservable.unbroken

theorem onPrefixes_actions : Action.OnPrefixes "c" chain {} actions := by
  have hinits : ∀ before ∈ actions.inits,
      ((before.foldl Action.serve {}).blocks? "c").getD [] <+: chain := by decide +kernel
  exact fun before hbefore => hinits before ((List.mem_inits ..).mpr hbefore)

theorem serves_chain : (actions.foldl Action.serve {}).Serves "c" chain where
  available := by decide +kernel
  blocks := by decide +kernel

theorem isPlain_actions : ({} : Deployment).IsPlain actions := by decide +kernel

theorem checkpoint?_store : store.checkpoint? "c" = some 0 := by decide +kernel

theorem events_store : store.events.map (fun e => (e.kind, e.origin, e.blockNumber))
    = [(.write, agent.origin "c", 0), (.transaction, agent.origin "c", 0),
      (.block, agent.origin "c", 0)] := by decide +kernel

end Resumable.Sample

open Resumable.Sample in
open Deployment.Sample (agent) in
/-- **With an index that blocks share with another kind, an agent may not be able to resume.** -/
theorem not_resumable {names : IndexNames} {kind : EventKind} (hkind : kind ≠ .block)
    (hshared : names.indexFor kind = names.indexFor .block) : ¬ Resumable names := by
  intro h
  let view : TableStore := ⟨agent.peer, names⟩
  have hputs : ∀ n, .limitPuts n ∉ actions := by simp [actions, chain]
  have hpeer : ∀ a channels, .start a channels ∈ actions → a.peer = agent.peer := by
    intro a channels hstart
    simp [actions, chain] at hstart
    rw [hstart.1]
  have hbegin : TableDeployment.Alike view {} {} :=
    ⟨rfl, rfl, ⟨rfl, fun _ _ => nofun, fun _ => rfl⟩, rfl⟩
  have hlists : Tables.Lists view store (TableDeployment.run view {} actions).tables :=
    (hbegin.run isPlain_actions hputs).lists
  have hcheckpoint : (view.answer (TableDeployment.run view {} actions).tables
      (.checkpoint "c")).1 = .ok (some 0) := by
    rw [hlists.answer_checkpoint, checkpoint?_store]
  have hresumes := h agent.peer "c" chain actions 0 unbroken_chain hpeer onPrefixes_actions
    serves_chain hcheckpoint
  obtain ⟨b, _, -, -, -, -, -, -, hanswer⟩ := hresumes.blockHash
  have hnone : Tables.hashAt? view (TableDeployment.run view {} actions).tables "c" 0 = none := by
    obtain ⟨w, _, hstore, hw, hrest⟩ := List.map_eq_cons_iff.mp events_store
    obtain ⟨x, rest, rfl, hx, -⟩ := List.map_eq_cons_iff.mp hrest
    have hevents := hlists.events
    rw [hstore] at hevents
    simp only [Prod.mk.injEq] at hw hx
    obtain ⟨hwkind, hworigin, hwnumber⟩ := hw
    obtain ⟨hxkind, hxorigin, hxnumber⟩ := hx
    cases kind with
    | block => exact absurd rfl hkind
    | write =>
        refine Tables.hashAt?_eq_none [] hevents ?_ (hwkind ▸ hshared)
          (congrArg Origin.channel hworigin) hwnumber
        simp [hwkind]
    | transaction =>
        refine Tables.hashAt?_eq_none [w] hevents ?_ (hxkind ▸ hshared)
          (congrArg Origin.channel hxorigin) hxnumber
        simp [hwkind, hxkind]
  rw [Tables.answer_blockHash _ _ (Nat.zero_le _), hnone] at hanswer
  cases hanswer

/-- **Agents can resume exactly if blocks have an index of their own.** -/
theorem resumable_iff (names : IndexNames) :
    Resumable names ↔ ∀ kind, names.indexFor kind = names.indexFor .block → kind = .block := by
  constructor
  · intro h kind hshared
    by_contra hkind
    exact not_resumable hkind hshared h
  · exact IndexNames.OwnBlocks.resumable

/-- Not every choice of names is one: that of one name for all indices is not. -/
theorem not_forall_resumable : ¬ ∀ names : IndexNames, Resumable names := by
  intro h
  have hkind : EventKind.write ≠ .block := by decide
  have hshared : (IndexNames.mk "all" "all" "all").indexFor .write
      = (IndexNames.mk "all" "all" "all").indexFor .block := by
    rw [IndexNames.indexFor, IndexNames.indexFor]
  exact not_resumable hkind hshared (h _)

end LedgerIndex
