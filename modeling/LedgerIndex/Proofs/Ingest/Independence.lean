import LedgerIndex.Proofs.Ingest.Bench
import LedgerIndex.Proofs.Ledger.Growing
import LedgerIndex.Proofs.Store.View

/-! # Channels do not interfere

All channels of an engine share one ledger and one store, and all events of a store stand in one
list under ids made of names and numbers.  Still a channel does not notice the others: what is seen
of its steps, and all that engine and store hold of it afterwards, is the same as if the steps on
the other channels had not been taken (`Bench.independent`).

A bench `Has` a part for each channel.  A step on the channel depends on the part only and leaves
the same part wherever it is taken (`Bench.Has.step_self`); a step on another channel leaves the
part as it is (`Bench.Has.step_other`). -/

namespace LedgerIndex

open Ingest

/-! ### What a session shows of a channel -/

theorem Scope.concerns {scope : Scope} {q : Store.Query} (h : scope.May (.store q)) :
    q.Concerns scope.agent.peer scope.channel := by
  cases q with
  | checkpoint c => exact h
  | putCheckpoint c number => exact h.1
  | blockHash c number => exact h.1
  | putEvent e =>
      have horigin : e.origin = scope.agent.origin scope.channel := h.1
      exact ⟨by rw [horigin]; rfl, by rw [Event.channel, horigin]; rfl⟩

namespace MemoryLedger

variable {ledger ledger' : MemoryLedger}

/-- Ledgers with the same blocks on a channel answer what is asked about it alike. -/
theorem answer_congr (scope : Scope)
    (hblocks : ledger.blocks? scope.channel = ledger'.blocks? scope.channel)
    (havailable : ledger.unavailable = ledger'.unavailable) {q : Ledger.Query}
    (h : scope.May (.ledger q)) : ledger.answer q = ledger'.answer q := by
  cases q with
  | channels => exact h.elim
  | tipHeight c =>
      obtain rfl : c = scope.channel := h
      rw [answer, answer, lookUp, lookUp, hblocks, havailable]
  | block c number =>
      obtain rfl : c = scope.channel := h
      rw [answer, answer, lookUp, lookUp, hblocks, havailable]

/-- Replacing a block does the same to a channel with the same blocks. -/
theorem replace_congr {channel : String}
    (h : ledger.blocks? channel = ledger'.blocks? channel) (number : Nat) (block : Bytes) :
    (ledger.replace channel number block).1 = (ledger'.replace channel number block).1 ∧
      (ledger.replace channel number block).2.blocks? channel
        = (ledger'.replace channel number block).2.blocks? channel := by
  unfold replace
  rw [h]
  split
  · split
    · exact ⟨rfl, (Entries.get?_put_self ..).trans (Entries.get?_put_self ..).symm⟩
    · exact ⟨rfl, h⟩
  · exact ⟨rfl, h⟩

theorem unavailable_replace (ledger : MemoryLedger) (channel : String) (number : Nat)
    (block : Bytes) :
    (ledger.replace channel number block).2.unavailable = ledger.unavailable := by
  unfold replace
  split
  · split <;> rfl
  · rfl

end MemoryLedger

namespace Ingest.Session

/-- A session over a ledger and a store in memory, with what the store holds of one channel. -/
structure Shows (ledger : MemoryLedger) (peer channel : String) (view : MemoryStore.View)
    (session : Session) : Prop where
  ledger : session.site.ledger = .memory ledger
  store : ∃ store, session.site.store = .memory store ∧ store.Tidy peer ∧
    store.view channel = view

/-- Two sessions that cannot be told apart on a channel. -/
structure Alike (ledger ledger' : MemoryLedger) (peer channel : String)
    (session session' : Session) : Prop where
  stopped : session.stopped = session'.stopped
  stopAt : session.stopAt = session'.stopAt
  shows : ∃ view, session.Shows ledger peer channel view ∧ session'.Shows ledger' peer channel view

variable {ledger ledger' : MemoryLedger} {agent : Agent} {channel other : String}

/-- **Questions about the channel do not tell such sessions apart.** -/
theorem simulates_alike (hblocks : ledger.blocks? channel = ledger'.blocks? channel)
    (havailable : ledger.unavailable = ledger'.unavailable) :
    Program.World.Simulates world world (Scope.anywhere agent channel).May
      (Scope.anywhere agent channel).possible (Alike ledger ledger' agent.peer channel) := by
  rintro q x y hq ⟨hstopped, hstopAt, view, hx, hy⟩
  refine ⟨?_, Scope.possible_anywhere .., ?_⟩
  all_goals obtain ⟨hxledger, s, hs, hstidy, hsview⟩ := hx
  all_goals obtain ⟨hyledger, t, ht, httidy, htview⟩ := hy
  · cases q with
    | ledger q =>
        rw [world_ledger hxledger, world_ledger hyledger]
        exact MemoryLedger.answer_congr (Scope.anywhere agent channel) hblocks havailable hq
    | store q =>
        have hconcerns := Scope.concerns hq
        rw [world_store_memory hs, world_store_memory ht]
        show (s.answer q).1 = (t.answer q).1
        rw [(MemoryStore.view_answer_self hstidy hconcerns).1,
          (MemoryStore.view_answer_self httidy hconcerns).1]
        exact congrArg (fun v => (MemoryStore.View.answer v q).1) (hsview.trans htview.symm)
    | cancelled => exact hstopped
    | report progress => rfl
  · cases q with
    | ledger q =>
        have hsets : x.setsStop q = y.setsStop q := by
          unfold setsStop
          rw [hstopAt]
        rw [world_ledger hxledger, world_ledger hyledger]
        exact ⟨by rw [hstopped, hsets], hstopAt, view, ⟨hxledger, s, hs, hstidy, hsview⟩,
          ⟨hyledger, t, ht, httidy, htview⟩⟩
    | store q =>
        have hconcerns := Scope.concerns hq
        rw [world_store_memory hs, world_store_memory ht]
        refine ⟨hstopped, hstopAt, (view.answer q).2,
          ⟨hxledger, _, rfl, hstidy.answer hconcerns, ?_⟩,
          ⟨hyledger, _, rfl, httidy.answer hconcerns, ?_⟩⟩
        · rw [← hsview]
          exact (MemoryStore.view_answer_self hstidy hconcerns).2
        · rw [← htview]
          exact (MemoryStore.view_answer_self httidy hconcerns).2
    | cancelled => exact ⟨hstopped, hstopAt, view, ⟨hxledger, s, hs, hstidy, hsview⟩,
        ⟨hyledger, t, ht, httidy, htview⟩⟩
    | report progress => exact ⟨hstopped, hstopAt, view, ⟨hxledger, s, hs, hstidy, hsview⟩,
        ⟨hyledger, t, ht, httidy, htview⟩⟩

/-- **Questions about another channel do not change what a session shows of this one.** -/
theorem shows_world {view : MemoryStore.View} (hother : channel ≠ other) (q : Query)
    (session : Session) (hq : (Scope.anywhere agent other).May q)
    (h : session.Shows ledger agent.peer channel view) :
    (Scope.anywhere agent other).possible q (world q session).1 ∧
      (world q session).2.Shows ledger agent.peer channel view := by
  refine ⟨Scope.possible_anywhere .., ?_⟩
  obtain ⟨hledger, s, hs, htidy, hview⟩ := h
  cases q with
  | ledger q =>
      rw [world_ledger hledger]
      exact ⟨hledger, s, hs, htidy, hview⟩
  | store q =>
      have hconcerns := Scope.concerns hq
      rw [world_store_memory hs]
      refine ⟨hledger, _, rfl, htidy.answer hconcerns, ?_⟩
      rw [← hview]
      exact MemoryStore.view_answer_of_ne htidy hconcerns hother
  | cancelled => exact ⟨hledger, s, hs, htidy, hview⟩
  | report progress => exact ⟨hledger, s, hs, htidy, hview⟩

end Ingest.Session

/-! ### What a bench has of a channel -/

namespace Bench

/-- What engine, ledger and store hold of one channel. -/
structure Part where
  ingestor : Option Ingestor
  blocks : Option (List Bytes)
  unavailable : Bool
  stored : MemoryStore.View

/-- A bench of one agent, with what it holds of a channel. -/
structure Has (agent : Agent) (channel : String) (part : Part) (bench : Bench) : Prop where
  proper : bench.engine.Proper (· = agent)
  ingestor : bench.engine.ingestor? channel = part.ingestor
  blocks : bench.ledger.blocks? channel = part.blocks
  unavailable : bench.ledger.unavailable = part.unavailable
  store : ∃ store, bench.store = .memory store ∧ store.Tidy agent.peer ∧
    store.view channel = part.stored

variable {agent : Agent} {channel other : String} {part : Part} {x y : Bench}
  {step : Ingestor → Program (Except IngestError Nat × Ingestor)}

theorem Has.shows (h : x.Has agent channel part) (named : String) (stopped : Bool)
    (stopAt : Option Nat) :
    (x.session named stopped stopAt).Shows x.ledger agent.peer channel part.stored :=
  ⟨rfl, h.store⟩

/-- A call on the channel is the same on all benches that have its part. -/
theorem Has.call_self (hx : x.Has agent channel part) (hy : y.Has agent channel part)
    (hstep : Ingestor.Asking (fun _ => True) step) (stopped : Bool) (stopAt : Option Nat) :
    (x.call (x.session channel stopped stopAt) (x.engine.onChannel channel step)).1
        = (y.call (y.session channel stopped stopAt) (y.engine.onChannel channel step)).1 ∧
      ∃ part',
        Has agent channel part'
          (x.call (x.session channel stopped stopAt) (x.engine.onChannel channel step)).2 ∧
        Has agent channel part'
          (y.call (y.session channel stopped stopAt) (y.engine.onChannel channel step)).2 := by
  cases hpart : part.ingestor with
  | none =>
      rw [call_onChannel_none (hx.ingestor.trans hpart),
        call_onChannel_none (hy.ingestor.trans hpart)]
      exact ⟨rfl, part, ⟨hx.proper, hx.ingestor, hx.blocks, hx.unavailable, hx.store⟩,
        ⟨hy.proper, hy.ingestor, hy.blocks, hy.unavailable, hy.store⟩⟩
  | some ingestor =>
      have hxingestor := hx.ingestor.trans hpart
      have hyingestor := hy.ingestor.trans hpart
      obtain ⟨rfl, rfl⟩ := hx.proper channel ingestor hxingestor
      have halike : Session.Alike x.ledger y.ledger ingestor.agent.peer ingestor.channel
          (x.session ingestor.channel stopped stopAt)
          (y.session ingestor.channel stopped stopAt) :=
        ⟨rfl, rfl, part.stored, hx.shows .., hy.shows ..⟩
      obtain ⟨hmatched, -, cursor, hcursor⟩ := (hstep ingestor).simulates
        (Session.simulates_alike (hx.blocks.trans hy.blocks.symm)
          (hx.unavailable.trans hy.unavailable.symm))
        (Scope.exists_possible _) (fun _ _ h => h.may_last) halike
      obtain ⟨-, -, view, ⟨-, hxstore⟩, -, hystore⟩ := hmatched.states
      rw [call_onChannel_some hxingestor, call_onChannel_some hyingestor]
      have hresult := hmatched.result
      refine ⟨?_, ⟨some { ingestor with cursor := cursor }, part.blocks, part.unavailable, view⟩,
        ⟨?_, ?_, hx.blocks, hx.unavailable, hxstore⟩,
        ⟨?_, ?_, hy.blocks, hy.unavailable, hystore⟩⟩
      · rw [Session.run, Session.run, hmatched.result, hmatched.trace]
      · exact hx.proper.put (by rw [Session.run, hcursor]) (by rw [Session.run, hcursor])
      · rw [Engine.ingestor?_put_self, Session.run, hcursor]
      · rw [Session.run, ← hresult]
        exact hy.proper.put (by rw [hcursor]) (by rw [hcursor])
      · rw [Engine.ingestor?_put_self, Session.run, ← hresult, hcursor]

theorem Has.call_other (h : x.Has agent channel part) (hother : channel ≠ other)
    (hstep : Ingestor.Asking (fun _ => True) step) (stopped : Bool) (stopAt : Option Nat) :
    Has agent channel part
      (x.call (x.session other stopped stopAt) (x.engine.onChannel other step)).2 := by
  cases hingestor : x.engine.ingestor? other with
  | none =>
      rw [call_onChannel_none hingestor]
      exact ⟨h.proper, h.ingestor, h.blocks, h.unavailable, h.store⟩
  | some ingestor =>
      obtain ⟨rfl, rfl⟩ := h.proper other ingestor hingestor
      obtain ⟨⟨-, hstore⟩, -, cursor, hcursor⟩ := (hstep ingestor).keeps
        (Session.shows_world hother) (Scope.exists_possible _) (fun _ _ h => h.may_last)
        (h.shows ingestor.channel stopped stopAt)
      rw [call_onChannel_some hingestor]
      refine ⟨?_, ?_, h.blocks, h.unavailable, hstore⟩
      · exact h.proper.put (by rw [Session.run, hcursor]) (by rw [Session.run, hcursor])
      · rw [Engine.ingestor?_put_of_ne x.engine hother, h.ingestor]

/-- **A step on the channel is the same on all benches that have its part.** -/
theorem Has.step_self (hx : x.Has agent channel part) (hy : y.Has agent channel part)
    (s : ChannelStep) :
    (x.step channel s).1 = (y.step channel s).1 ∧
      ∃ part', Has agent channel part' (x.step channel s).2 ∧
        Has agent channel part' (y.step channel s).2 := by
  have hblocks := hx.blocks.trans hy.blocks.symm
  cases s with
  | reconcile => exact hx.call_self hy (Ingestor.asking_reconcile _) false none
  | poll stopped stopAt => exact hx.call_self hy (Ingestor.asking_poll _) stopped stopAt
  | push block =>
      refine ⟨rfl, { part with blocks := some (part.blocks.getD [] ++ [block]) },
        ⟨hx.proper, hx.ingestor, ?_, hx.unavailable, hx.store⟩,
        ⟨hy.proper, hy.ingestor, ?_, hy.unavailable, hy.store⟩⟩
      · rw [← hx.blocks]
        exact x.ledger.blocks?_push_self channel block
      · rw [← hy.blocks]
        exact y.ledger.blocks?_push_self channel block
  | replace number block =>
      obtain ⟨hfound, hafter⟩ := MemoryLedger.replace_congr hblocks number block
      refine ⟨congrArg Outcome.replaced hfound,
        { part with blocks := (x.ledger.replace channel number block).2.blocks? channel },
        ⟨hx.proper, hx.ingestor, rfl, ?_, hx.store⟩,
        ⟨hy.proper, hy.ingestor, hafter.symm, ?_, hy.store⟩⟩
      · exact (MemoryLedger.unavailable_replace ..).trans hx.unavailable
      · exact (MemoryLedger.unavailable_replace ..).trans hy.unavailable

/-- **A step on another channel leaves the part of this one as it is.** -/
theorem Has.step_other (h : x.Has agent channel part) (hother : channel ≠ other)
    (s : ChannelStep) : Has agent channel part (x.step other s).2 := by
  cases s with
  | reconcile => exact h.call_other hother (Ingestor.asking_reconcile _) false none
  | poll stopped stopAt => exact h.call_other hother (Ingestor.asking_poll _) stopped stopAt
  | push block =>
      refine ⟨h.proper, h.ingestor, ?_, h.unavailable, h.store⟩
      exact (x.ledger.blocks?_push_of_ne hother block).trans h.blocks
  | replace number block =>
      refine ⟨h.proper, h.ingestor, ?_, ?_, h.store⟩
      · exact (x.ledger.blocks?_replace_of_ne hother number block).trans h.blocks
      · exact (MemoryLedger.unavailable_replace ..).trans h.unavailable

theorem Has.run (hx : x.Has agent channel part) (hy : y.Has agent channel part)
    (steps : List (String × ChannelStep)) :
    (x.run steps).1.filter (·.1 = channel) = (y.run (steps.filter (·.1 = channel))).1 ∧
      ∃ part', Has agent channel part' (x.run steps).2 ∧
        Has agent channel part' (y.run (steps.filter (·.1 = channel))).2 := by
  induction steps generalizing x y part with
  | nil => exact ⟨rfl, part, hx, hy⟩
  | cons step steps ih =>
      obtain ⟨other, s⟩ := step
      by_cases hother : other = channel
      · subst hother
        obtain ⟨houtcome, part', hx', hy'⟩ := hx.step_self hy s
        obtain ⟨houtcomes, hlast⟩ := ih hx' hy'
        rw [List.filter_cons_of_pos (by simp), run_cons, run_cons,
          List.filter_cons_of_pos (by simp), houtcome, houtcomes]
        exact ⟨rfl, hlast⟩
      · rw [List.filter_cons_of_neg (by simpa using hother), run_cons,
          List.filter_cons_of_neg (by simpa using hother)]
        exact ih (hx.step_other (Ne.symm hother) s) hy

/-- **Channels do not interfere.**  However the steps on a channel are mixed with steps on others,
the outcomes of the steps on it, the cursor of the engine, and the checkpoint, the checkpoints
written, the block hashes and the events of the store are what they are without the others. -/
theorem independent {agent : Agent} {bench : Bench} {store : MemoryStore}
    (hengine : bench.engine.Proper (· = agent)) (hstore : bench.store = .memory store)
    (hpeer : ∀ e ∈ store.events, e.origin.peer = agent.peer) (hputs : store.failingPuts = none)
    (channel : String) (steps : List (String × ChannelStep)) :
    (bench.run steps).1.filter (·.1 = channel)
        = (bench.run (steps.filter (·.1 = channel))).1 ∧
      (bench.run steps).2.engine.cursor? channel
        = (bench.run (steps.filter (·.1 = channel))).2.engine.cursor? channel ∧
      ∃ s t, (bench.run steps).2.store = .memory s ∧
        (bench.run (steps.filter (·.1 = channel))).2.store = .memory t ∧
        s.checkpoint? channel = t.checkpoint? channel ∧
        s.written channel = t.written channel ∧
        (∀ number, s.blockHash? channel number = t.blockHash? channel number) ∧
        s.eventsOn channel = t.eventsOn channel := by
  have hhas : bench.Has agent channel ⟨bench.engine.ingestor? channel,
      bench.ledger.blocks? channel, bench.ledger.unavailable, store.view channel⟩ :=
    ⟨hengine, rfl, rfl, rfl, store, hstore, ⟨hpeer, hputs⟩, rfl⟩
  obtain ⟨houtcomes, part, hall, hown⟩ := hhas.run hhas steps
  refine ⟨houtcomes, ?_, ?_⟩
  · rw [Engine.cursor?, Engine.cursor?, hall.ingestor, hown.ingestor]
  · obtain ⟨s, hs, -, hsview⟩ := hall.store
    obtain ⟨t, ht, -, htview⟩ := hown.store
    have hview : s.view channel = t.view channel := hsview.trans htview.symm
    exact ⟨s, t, hs, ht, congrArg (·.checkpoint) hview, congrArg (·.written) hview,
      fun number => congrArg (·.blockHash number) hview, congrArg (·.events) hview⟩

end Bench

namespace Bench.Sample

open Deployment.Sample (agent first second)

/-- A block 1 that does not follow on any block. -/
def stray : Bytes :=
  [0x0a, 2, 8, 1, 0x12, 6, 0x0a, 4, 0x0a, 2, 0x0a, 0]

/-- An engine for two channels, the name of one a beginning of the other's. -/
def bench : Bench :=
  ⟨Engine.start agent ["a", "a_1"], {}, .memory {}⟩

/-- Both channels are polled in turn, and a block without its predecessor ends one of them. -/
def steps : List (String × ChannelStep) :=
  [("a", .push first), ("a_1", .push first), ("a", .reconcile), ("a_1", .reconcile),
    ("a", .poll false none), ("a_1", .poll false none), ("a", .push stray), ("a_1", .push second),
    ("a", .poll false none), ("a_1", .poll false none)]

end Bench.Sample

open Deployment.Sample (agent) in
open Bench.Sample in
/-- One channel goes on while the other one cannot. -/
theorem Bench.independent_a_1 :
    bench.engine.Proper (· = agent) ∧
    (bench.run steps).1.filter (·.1 = "a_1") = (bench.run (steps.filter (·.1 = "a_1"))).1 ∧
    ((bench.run steps).2.engine.cursor? "a").map (·.next) = some 1 ∧
    ((bench.run (steps.filter (·.1 = "a_1"))).2.engine.cursor? "a_1").map (·.next) = some 2 ∧
    (bench.run steps).2.engine.cursor? "a_1"
      = (bench.run (steps.filter (·.1 = "a_1"))).2.engine.cursor? "a_1" := by
  have hproper : bench.engine.Proper (· = agent) :=
    @Engine.proper_start (· = agent) agent rfl ["a", "a_1"]
  obtain ⟨houtcomes, hcursor, -⟩ :=
    independent hproper rfl (fun e he => absurd he List.not_mem_nil) rfl "a_1" steps
  exact ⟨hproper, houtcomes, by decide +kernel, by decide +kernel, hcursor⟩

end LedgerIndex
