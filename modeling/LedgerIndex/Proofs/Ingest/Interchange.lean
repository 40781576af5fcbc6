import LedgerIndex.Ingest.Launch
import LedgerIndex.Proofs.Ingest.Bench
import LedgerIndex.Proofs.Store.Mirror

/-! # Stores are interchangeable

An engine over a store in memory and an engine over database tables do the same.  Two benches begin
with empty stores and make the same moves: engines start in the place of one another, each over the
store as the one before has left it (a database that is closed and opened again has its tables, by
`Launch.openDatabase_after`), ledgers come and go, channels are reconciled and polled.  Then all
outcomes are equal, question by question, and so are the cursors; the tables mirror the store in
memory (`Bench.mirrored`).

Only a question that no engine asks tells the stores apart: a column has no place for a number above
`BlockHeader.greatestNumber`, and a store in memory has (`not_forall_blockHash_eq`). -/

namespace LedgerIndex

open Ingest

/-! ### Sessions -/

namespace Ingest.Session

variable {view : TableStore} {ledger : MemoryLedger}

/-- Two sessions over one ledger in memory, one with a store in memory and one with tables. -/
structure Mirrored (view : TableStore) (ledger : MemoryLedger) (x y : Session) : Prop where
  stopped : x.stopped = y.stopped
  stopAt : x.stopAt = y.stopAt
  ledger : x.site.ledger = .memory ledger ∧ y.site.ledger = .memory ledger
  stores : ∃ s t, x.site.store = .memory s ∧ y.site.store = .tables view t ∧
    Tables.Mirrors view s t

/-- The scope of an ingestor over a store whose checkpoints fit a column. -/
abbrev columns (ingestor : Ingestor) : Scope :=
  ingestor.scope (· ≤ BlockHeader.greatestNumber)

theorem fits_of_may {ingestor : Ingestor} (hpeer : ingestor.agent.peer = view.peer)
    {q : Store.Query} (hq : (columns ingestor).May (.store q)) : q.Fits view.peer := by
  cases q with
  | checkpoint channel => trivial
  | putCheckpoint channel number => exact hq.2
  | blockHash channel number => exact hq.2
  | putEvent e =>
      refine ⟨?_, hq.2⟩
      rw [hq.1]
      exact hpeer

theorem possible_of_recorded {ingestor : Ingestor} {s : MemoryStore}
    (h : ∀ channel number, s.checkpoint? channel = some number →
      number ≤ BlockHeader.greatestNumber) (q : Store.Query) :
    (columns ingestor).possible (.store q) (s.answer q).1 := by
  cases q with
  | checkpoint channel =>
      exact fun number hnumber => h channel number (Except.ok.inj hnumber)
  | putCheckpoint channel number => trivial
  | blockHash channel number => trivial
  | putEvent e => trivial

/-- **What an ingestor asks does not tell such sessions apart.** -/
theorem simulates_mirrored (hnames : Function.Injective view.indexNames.indexFor)
    {ingestor : Ingestor} (hpeer : ingestor.agent.peer = view.peer) :
    Program.World.Simulates world world (columns ingestor).May (columns ingestor).possible
      (Mirrored view ledger) := by
  rintro q x y hq ⟨hstopped, hstopAt, ⟨hxledger, hyledger⟩, s, t, hs, ht, hmirrors⟩
  cases q with
  | ledger q =>
      have hsets : x.setsStop q = y.setsStop q := by
        unfold setsStop
        rw [hstopAt]
      rw [world_ledger hxledger, world_ledger hyledger]
      exact ⟨rfl, trivial, by rw [hstopped, hsets], hstopAt, ⟨hxledger, hyledger⟩, s, t, hs, ht,
        hmirrors⟩
  | store q =>
      obtain ⟨hanswer, hafter⟩ := hmirrors.answer hnames (fits_of_may hpeer hq)
      rw [world_store_memory hs, world_store_tables ht]
      exact ⟨hanswer.symm, possible_of_recorded hmirrors.recorded q, hstopped, hstopAt,
        ⟨hxledger, hyledger⟩, _, _, rfl, rfl, hafter⟩
  | cancelled =>
      exact ⟨hstopped, trivial, hstopped, hstopAt, ⟨hxledger, hyledger⟩, s, t, hs, ht, hmirrors⟩
  | report progress =>
      exact ⟨rfl, trivial, hstopped, hstopAt, ⟨hxledger, hyledger⟩, s, t, hs, ht, hmirrors⟩

/-- The store did not answer with an error. -/
def Stored : Asked → Prop
  | ⟨.store _, answer⟩ => ∃ value, answer = .ok value
  | _ => True

/-- A session over a store in memory that refuses nothing. -/
def Unrefused (session : Session) : Prop :=
  ∃ ledger store, session.site.ledger = .memory ledger ∧ session.site.store = .memory store ∧
    store.failingPuts = none

theorem unrefused_world (q : Query) (session : Session) (h : session.Unrefused) :
    Stored ⟨q, (world q session).1⟩ ∧ (world q session).2.Unrefused := by
  obtain ⟨ledger, s, hledger, hs, hputs⟩ := h
  cases q with
  | ledger q =>
      rw [world_ledger hledger]
      exact ⟨trivial, ledger, s, hledger, hs, hputs⟩
  | store q =>
      rw [world_store_memory hs]
      refine ⟨?_, ledger, _, hledger, rfl, ?_⟩
      · show ∃ value, (s.answer q).1 = .ok value
        cases q <;> simp [MemoryStore.answer, MemoryStore.putEvent, hputs]
      · cases q <;> simp [MemoryStore.answer, MemoryStore.putEvent, MemoryStore.accept,
          MemoryStore.putCheckpoint, hputs]
  | cancelled => exact ⟨trivial, ledger, s, hledger, hs, hputs⟩
  | report progress => exact ⟨trivial, ledger, s, hledger, hs, hputs⟩

end Ingest.Session

/-! ### Benches -/

/-- A database that is opened again has the tables that were left in it. -/
theorem Launch.openDatabase_after {launch : Launch} {daemon : Daemon} {path : String}
    {place : List String} {view : TableStore} {tables : Tables}
    (hplace : launch.workspace.files.place path = .ok place)
    (hdatabase : launch.database = some place)
    (hstore : daemon.session.site.store = .tables view tables) :
    (launch.after daemon).openDatabase path = .ok (place, tables, launch.after daemon) := by
  unfold Launch.after Workspace.openDatabase
  simp only [hdatabase, hstore, hplace, Entries.get?_put_self]

/-- The store answered no question with an error. -/
def Outcome.Stored : Outcome → Prop
  | .called _ asked => ∀ a ∈ asked, Session.Stored a
  | .pushed => True
  | .replaced _ => True

namespace Bench

/-- What happens to a bench: a new engine takes the place of the one before, another ledger is
served, or a step is taken on a channel. -/
inductive Move where
  | start (agent : Agent) (channels : List String)
  | serve (ledger : MemoryLedger)
  | take (channel : String) (step : ChannelStep)

/-- The outcome of a move, where it is a step, and the bench after it. -/
def move (bench : Bench) : Move → Option Outcome × Bench
  | .start agent channels => (none, { bench with engine := Engine.start agent channels })
  | .serve ledger => (none, { bench with ledger := ledger })
  | .take channel s =>
    let (outcome, bench) := bench.step channel s
    (some outcome, bench)

/-- The outcomes of some moves and the bench after them. -/
def play (bench : Bench) : List Move → List (Option Outcome) × Bench
  | [] => ([], bench)
  | m :: moves =>
    let (outcome, bench) := bench.move m
    let (outcomes, bench) := bench.play moves
    (outcome :: outcomes, bench)

theorem play_cons (bench : Bench) (m : Move) (moves : List Move) :
    bench.play (m :: moves) = ((bench.move m).1 :: ((bench.move m).2.play moves).1,
      ((bench.move m).2.play moves).2) := rfl

/-- A bench before its first engine, over an empty store. -/
def empty (store : StoreBackend) : Bench :=
  ⟨⟨[]⟩, {}, store⟩

theorem proper_empty {allowed : Agent → Prop} (store : StoreBackend) :
    (empty store).engine.Proper allowed := by
  intro channel ingestor h
  have hnone : (empty store).engine.ingestor? channel = none := rfl
  rw [hnone] at h
  cases h

/-- Two benches with one engine and one ledger, one with a store in memory and one with tables. -/
structure Mirrored (view : TableStore) (x y : Bench) : Prop where
  engine : x.engine = y.engine
  proper : x.engine.Proper (·.peer = view.peer)
  ledger : x.ledger = y.ledger
  stores : ∃ s t, x.store = .memory s ∧ y.store = .tables view t ∧ Tables.Mirrors view s t

variable {view : TableStore} {x y : Bench} {channel : String}

theorem Mirrored.call {work : Ingestor → Program (Except IngestError Nat × Ingestor)}
    (hnames : Function.Injective view.indexNames.indexFor)
    (h : Mirrored view x y) (hwork : Ingestor.Asking (· ≤ BlockHeader.greatestNumber) work)
    (stopped : Bool) (stopAt : Option Nat) :
    (x.call (x.session channel stopped stopAt) (x.engine.onChannel channel work)).1
        = (y.call (y.session channel stopped stopAt) (y.engine.onChannel channel work)).1 ∧
      (x.call (x.session channel stopped stopAt) (x.engine.onChannel channel work)).1.Stored ∧
      Mirrored view
        (x.call (x.session channel stopped stopAt) (x.engine.onChannel channel work)).2
        (y.call (y.session channel stopped stopAt) (y.engine.onChannel channel work)).2 := by
  obtain ⟨hengine, hproper, hledger, s, t, hs, ht, hmirrors⟩ := h
  cases hingestor : x.engine.ingestor? channel with
  | none =>
      rw [call_onChannel_none hingestor, call_onChannel_none (hengine ▸ hingestor)]
      exact ⟨rfl, fun _ hmem => absurd hmem List.not_mem_nil, hengine, hproper, hledger,
        s, t, hs, ht, hmirrors⟩
  | some ingestor =>
      obtain ⟨hchannel, hpeer⟩ := hproper channel ingestor hingestor
      have hsessions : Session.Mirrored view x.ledger (x.session channel stopped stopAt)
          (y.session channel stopped stopAt) :=
        ⟨rfl, rfl, ⟨rfl, congrArg LedgerBackend.memory hledger.symm⟩, s, t, hs, ht, hmirrors⟩
      obtain ⟨hmatched, -, cursor, hcursor⟩ := (hwork ingestor).simulates
        (Session.simulates_mirrored hnames hpeer) (Scope.exists_possible _)
        (fun _ _ h => h.may_last) hsessions
      have hresult := hmatched.result
      have hunrefused : (x.session channel stopped stopAt).Unrefused :=
        ⟨x.ledger, s, rfl, hs, hmirrors.tidy.unlimited⟩
      rw [call_onChannel_some hingestor, call_onChannel_some (hengine ▸ hingestor)]
      refine ⟨?_, ?_, ?_, ?_, hledger, hmatched.states.stores⟩
      · rw [Session.run, Session.run, hmatched.result, hmatched.trace]
      · exact Program.forall_mem_trace Session.unrefused_world (work ingestor) hunrefused
      · rw [Session.run, Session.run, hmatched.result, hengine]
      · exact hproper.put (by rw [Session.run, hcursor]; exact hchannel)
          (by rw [Session.run, hcursor]; exact hpeer)

theorem Mirrored.step (hnames : Function.Injective view.indexNames.indexFor)
    (h : Mirrored view x y) (channel : String) (s : ChannelStep) :
    (x.step channel s).1 = (y.step channel s).1 ∧ (x.step channel s).1.Stored ∧
      Mirrored view (x.step channel s).2 (y.step channel s).2 := by
  cases s with
  | reconcile => exact h.call hnames (Ingestor.asking_reconcile _) false none
  | poll stopped stopAt => exact h.call hnames (Ingestor.asking_poll _) stopped stopAt
  | push block =>
      refine ⟨rfl, trivial, h.engine, h.proper, ?_, h.stores⟩
      exact congrArg (·.push channel block) h.ledger
  | replace number block =>
      refine ⟨?_, trivial, h.engine, h.proper, ?_, h.stores⟩
      · exact congrArg (fun ledger => Outcome.replaced (ledger.replace channel number block).1)
          h.ledger
      · exact congrArg (fun ledger => (ledger.replace channel number block).2) h.ledger

/-- **A move does the same on both benches.** -/
theorem Mirrored.move (hnames : Function.Injective view.indexNames.indexFor)
    (h : Mirrored view x y) {m : Move}
    (hpeer : ∀ agent channels, m = .start agent channels → agent.peer = view.peer) :
    (x.move m).1 = (y.move m).1 ∧ (∀ outcome, (x.move m).1 = some outcome → outcome.Stored) ∧
      Mirrored view (x.move m).2 (y.move m).2 := by
  cases m with
  | start agent channels =>
      exact ⟨rfl, nofun, rfl, Engine.proper_start (hpeer agent channels rfl) channels, h.ledger,
        h.stores⟩
  | serve ledger => exact ⟨rfl, nofun, h.engine, h.proper, rfl, h.stores⟩
  | take channel s =>
      obtain ⟨houtcome, hstored, hafter⟩ := h.step hnames channel s
      refine ⟨congrArg some houtcome, ?_, hafter⟩
      rintro _ ⟨⟩
      exact hstored

theorem Mirrored.play (hnames : Function.Injective view.indexNames.indexFor)
    (h : Mirrored view x y) {moves : List Move}
    (hpeer : ∀ agent channels, .start agent channels ∈ moves → agent.peer = view.peer) :
    (x.play moves).1 = (y.play moves).1 ∧
      (∀ outcome, some outcome ∈ (x.play moves).1 → outcome.Stored) ∧
      Mirrored view (x.play moves).2 (y.play moves).2 := by
  induction moves generalizing x y with
  | nil => exact ⟨rfl, fun _ hmem => absurd hmem List.not_mem_nil, h⟩
  | cons m moves ih =>
      obtain ⟨houtcome, hstored, hafter⟩ := h.move hnames (m := m) (by
        rintro agent channels rfl
        exact hpeer agent channels List.mem_cons_self)
      obtain ⟨houtcomes, hall, hlast⟩ :=
        ih hafter fun agent channels hmem => hpeer agent channels (List.mem_cons_of_mem _ hmem)
      rw [play_cons, play_cons, houtcome, houtcomes]
      refine ⟨rfl, fun outcome hmem => ?_, hlast⟩
      rcases List.mem_cons.mp hmem with heq | hmem
      · exact hstored outcome (houtcome.trans heq.symm)
      · exact hall outcome (houtcomes ▸ hmem)

/-- **Stores are interchangeable.**  On tables whose three indices have different names, engines of
the peer do what they do on a store in memory, move by move, with every answer of the store a
success.  The engines and their cursors are the same in the end, the stores answer alike whatever
fits a column, and the event table has one row for each event in memory. -/
theorem mirrored {peer : String} {names : IndexNames}
    (hnames : Function.Injective names.indexFor) {moves : List Move}
    (hpeer : ∀ agent channels, .start agent channels ∈ moves → agent.peer = peer) :
    ((empty (.memory {})).play moves).1 = ((empty (.tables ⟨peer, names⟩ {})).play moves).1 ∧
      (∀ outcome, some outcome ∈ ((empty (.tables ⟨peer, names⟩ {})).play moves).1 →
        outcome.Stored) ∧
      ((empty (.memory {})).play moves).2.engine
        = ((empty (.tables ⟨peer, names⟩ {})).play moves).2.engine ∧
      ∃ s t, ((empty (.memory {})).play moves).2.store = .memory s ∧
        ((empty (.tables ⟨peer, names⟩ {})).play moves).2.store = .tables ⟨peer, names⟩ t ∧
        (∀ channel, (TableStore.answer ⟨peer, names⟩ t (.checkpoint channel)).1
          = (s.answer (.checkpoint channel)).1) ∧
        (∀ channel number, number ≤ BlockHeader.greatestNumber →
          (TableStore.answer ⟨peer, names⟩ t (.blockHash channel number)).1
            = (s.answer (.blockHash channel number)).1) ∧
        (∀ channel number, BlockHeader.greatestNumber < number →
          (s.answer (.blockHash channel number)).1 = .ok none ∧
          (TableStore.answer ⟨peer, names⟩ t (.blockHash channel number)).1
            = .error (.blockNumberOutOfRange number)) ∧
        t.events.Perm (s.events.map fun e =>
          TableStore.rowOf ⟨peer, names⟩ e e.blockNumber) ∧
        (t.events.map fun row => (row.index, row.id)).Nodup := by
  have hbegin : Mirrored ⟨peer, names⟩ (empty (.memory {})) (empty (.tables ⟨peer, names⟩ {})) :=
    ⟨rfl, proper_empty _, rfl, {}, {}, rfl, rfl, Tables.mirrors_empty _⟩
  have hindices : Function.Injective (TableStore.mk peer names).indexNames.indexFor := hnames
  obtain ⟨houtcomes, hstored, hengine, -, -, s, t, hs, ht, hmirrors⟩ :=
    hbegin.play hindices hpeer
  refine ⟨houtcomes, houtcomes ▸ hstored, hengine, s, t, hs, ht, ?_, ?_, ?_, hmirrors.events, ?_⟩
  · exact fun channel => congrArg Prod.fst (hmirrors.answer_checkpoint channel)
  · exact fun channel number hnumber =>
      congrArg Prod.fst (hmirrors.answer_blockHash hindices channel hnumber)
  · intro channel number hnumber
    obtain ⟨hnone, herror⟩ := hmirrors.blockHash_of_lt channel hnumber
    exact ⟨congrArg Except.ok hnone, congrArg Prod.fst herror⟩
  · exact ((hmirrors.events.map _).nodup_iff).mpr (TableStore.nodup_keys hindices hmirrors.separate)

end Bench

namespace Bench.Sample

open Deployment.Sample (agent first second)

/-- An engine ingests a block, and a second one takes over when there are two. -/
def moves : List Move :=
  [.serve ⟨[("c", [first])], false⟩, .start agent ["c"], .take "c" .reconcile,
    .take "c" (.poll false none), .serve ⟨[("c", [first, second])], false⟩, .start agent ["c"],
    .take "c" .reconcile, .take "c" (.poll false none)]

end Bench.Sample

open Deployment.Sample (agent) in
open Bench.Sample (moves) in
/-- The second engine goes on where the first one stopped, over either store. -/
theorem Bench.mirrored_two_engines :
    Function.Injective ({} : IndexNames).indexFor ∧
    (∀ a channels, .start a channels ∈ moves → a.peer = agent.peer) ∧
    ((empty (.memory {})).play moves).1
      = ((empty (.tables ⟨agent.peer, {}⟩ {})).play moves).1 ∧
    (((empty (.tables ⟨agent.peer, {}⟩ {})).play moves).2.engine.cursor? "c").map (·.next)
      = some 2 ∧
    ∃ t, ((empty (.tables ⟨agent.peer, {}⟩ {})).play moves).2.store
        = .tables ⟨agent.peer, {}⟩ t ∧ (t.events.map fun row => (row.index, row.id)).Nodup := by
  have hpeer : ∀ a channels, .start a channels ∈ moves → a.peer = agent.peer := by
    intro a channels h
    simp only [moves, List.mem_cons, Move.start.injEq, List.not_mem_nil, reduceCtorEq, false_or,
      or_false] at h
    rcases h with ⟨rfl, -⟩ | ⟨rfl, -⟩ <;> rfl
  obtain ⟨houtcomes, -, -, s, t, -, ht, -, -, -, -, hkeys⟩ :=
    mirrored IndexNames.injective_indexFor_default hpeer
  exact ⟨IndexNames.injective_indexFor_default, hpeer, houtcomes, by decide +kernel, t, ht, hkeys⟩

/-- A number without a column is answered with an error by tables, and by memory without one. -/
theorem not_forall_blockHash_eq :
    ¬ ∀ (view : TableStore) (channel : String) (number : Nat), number < UInt64.size →
      (view.answer {} (.blockHash channel number)).1
        = (({} : MemoryStore).answer (.blockHash channel number)).1 := by
  intro h
  have heq := h ⟨"peer0", {}⟩ "c" 9223372036854775808 (by decide)
  have hcolumn : (TableStore.answer ⟨"peer0", {}⟩ {} (.blockHash "c" 9223372036854775808)).1
      = .error (.blockNumberOutOfRange 9223372036854775808) := rfl
  rw [hcolumn] at heq
  cases heq

end LedgerIndex
