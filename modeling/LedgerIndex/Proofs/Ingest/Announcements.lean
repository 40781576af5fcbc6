import LedgerIndex.Ingest.Daemon
import LedgerIndex.Proofs.Ingest.Publications

/-! # What a worker reports

Tick after tick the worker of a channel reports where it begins, then every block that it ingests,
in order and without a gap, and at last why it ends, if it does (`Told`).  It reports a block when
the block's events and its checkpoint have been stored, with the number of these events and of the
transactions among them (`Announced`).  Both hold whatever a ledger and a store answer, however
often the work on a block is begun again (`Worker.safe_follow`). -/

namespace LedgerIndex

open Ingest

namespace Announcements

/-- The progress that is reported. -/
def report? : Asked → Option Progress
  | ⟨.report progress, _⟩ => some progress
  | _ => none

/-- All progress that is reported, in order. -/
def reports (asked : List Asked) : List Progress :=
  asked.filterMap report?

def published (e : Event) : Asked := ⟨.store (.putEvent e), .ok ()⟩

/-- All events of a block were stored and then its checkpoint, the last thing that was done, and the
block says how many events there are, and how many transactions. -/
def Announced (agent : Agent) (channel : String) (before : List Asked) (block : IngestedBlock) :
    Prop :=
  ∃ earlier bytes events,
    before = earlier ++ ⟨.ledger (.block channel block.number), .ok bytes⟩ ::
      (events.map published ++ [⟨.store (.putCheckpoint channel block.number), .ok ()⟩]) ∧
    agent.eventsOfBytes? channel block.number bytes = some events ∧
    block.events = events.length ∧ block.transactions = events.countP (·.kind = .transaction)

/-- The start was reported and then all blocks from there up to the cursor. -/
def Follows (cursor : Cursor) (told : List Progress) : Prop :=
  ∃ (start : Nat) (blocks : List IngestedBlock),
    told = .reconciled start :: blocks.map .ingested ∧
      blocks.map (·.number) = List.range' start blocks.length ∧
      cursor.next = start + blocks.length

/-- What was reported by a worker that has reconciled or not, with its cursor. -/
inductive Spoken : Bool → Option Cursor → List Progress → Prop
  | waiting {cursor : Option Cursor} : Spoken false cursor []
  | following {cursor : Cursor} {told : List Progress} (h : Follows cursor told) :
      Spoken true (some cursor) told

/-- What was reported by the worker of a channel, or by one that has ended. -/
inductive Told (agent : Agent) (channel : String) : Option Worker → List Progress → Prop
  | working {cursor : Option Cursor} {reconciled : Bool} {due : Nat} {told : List Progress}
      (h : Spoken reconciled cursor told) :
      Told agent channel (some ⟨⟨agent, channel, cursor⟩, reconciled, due⟩) told
  | halted {cursor : Option Cursor} {reconciled : Bool} {told : List Progress} {reason : String}
      (h : Spoken reconciled cursor told) : Told agent channel none (told ++ [.halted reason])

/-- This is what was reported, and every block that was reported had been stored. -/
structure Heard (agent : Agent) (channel : String) (told : List Progress) (t : List Asked) :
    Prop where
  reports : reports t = told
  announced : ∀ before block rest, t = before ++ ⟨.report (.ingested block), ()⟩ :: rest →
    Announced agent channel before block

variable {agent : Agent} {channel : String} {told : List Progress} {t : List Asked}
  {cursor : Cursor}

/-! ### One question -/

theorem reports_concat (t : List Asked) (a : Asked) :
    reports (t ++ [a]) = reports t ++ (report? a).toList := by
  rw [reports, List.filterMap_append, List.filterMap_cons]
  cases report? a <;> rfl

theorem heard_nil : Heard agent channel [] [] :=
  ⟨rfl, fun _ _ _ h => absurd h.symm (by simp)⟩

theorem Heard.concat (h : Heard agent channel told t) {a : Asked} (ha : report? a = none) :
    Heard agent channel told (t ++ [a]) := by
  refine ⟨?_, fun before block rest hsplit => ?_⟩
  · rw [reports_concat, ha, h.reports]
    exact List.append_nil told
  · obtain ⟨-, -, rfl⟩ | ⟨front, -, hfront⟩ := split_concat hsplit
    · exact nomatch ha
    · exact h.announced before block front hfront

theorem Heard.report (h : Heard agent channel told t) {progress : Progress} {answer : Unit}
    (hstored : ∀ block, progress = .ingested block → Announced agent channel t block) :
    Heard agent channel (told ++ [progress]) (t ++ [⟨.report progress, answer⟩]) := by
  refine ⟨?_, fun before block rest hsplit => ?_⟩
  · rw [reports_concat, h.reports]
    rfl
  · obtain ⟨-, rfl, heq⟩ | ⟨front, -, hfront⟩ := split_concat hsplit
    · cases heq
      exact hstored block rfl
    · exact h.announced before block front hfront

theorem Heard.publish (h : Heard agent channel told t) (events : List Event) :
    Heard agent channel told (t ++ events.map published) := by
  induction events generalizing t with
  | nil => rwa [List.map_nil, List.append_nil]
  | cons e events ih =>
      have hnext : Heard agent channel told (t ++ [published e]) := h.concat rfl
      rw [List.map_cons, List.append_cons]
      exact ih hnext

/-! ### Attempts -/

/-- An attempt that reports nothing. -/
abbrev Keeps {α : Type} (agent : Agent) (channel : String) (told : List Progress)
    (good : α → List Asked → Prop) (p : Attempt α) (t : List Asked) : Prop :=
  Attempt.Safe anyAnswer (fun _ => True) good (fun _ u => Heard agent channel told u) p t

theorem keeps_ledger {q : Ledger.Query} {good : q.Value → List Asked → Prop}
    (h : Heard agent channel told t)
    (hgood : ∀ value, Heard agent channel told (t ++ [⟨.ledger q, .ok value⟩]) →
      good value (t ++ [⟨.ledger q, .ok value⟩])) :
    Keeps agent channel told good (Attempt.ledger channel q) t := by
  refine Attempt.Safe.askLedger trivial ?_
  rintro answer _ ⟨-, rfl⟩
  refine ⟨trivial, ?_, fun _ _ => h.concat rfl⟩
  rintro value rfl
  exact hgood value (h.concat rfl)

theorem keeps_store {q : Store.Query} {good : q.Value → List Asked → Prop}
    (h : Heard agent channel told t)
    (hgood : ∀ value, Heard agent channel told (t ++ [⟨.store q, .ok value⟩]) →
      good value (t ++ [⟨.store q, .ok value⟩])) :
    Keeps agent channel told good (Attempt.store channel q) t := by
  refine Attempt.Safe.askStore trivial ?_
  rintro answer _ ⟨-, rfl⟩
  refine ⟨trivial, ?_, fun _ _ => h.concat rfl⟩
  rintro value rfl
  exact hgood value (h.concat rfl)

theorem keeps_fetch {number : Nat} (h : Heard agent channel told t) :
    Keeps agent channel told (fun block u => Heard agent channel told u ∧ ∃ bytes,
        Ingestor.decodeNumbered number bytes = .ok block ∧
        u = t ++ [⟨.ledger (.block channel number), .ok bytes⟩])
      (Ingestor.fetch channel number) t :=
  Attempt.Safe.bind (keeps_ledger h fun bytes hnext => Attempt.Safe.ofExcept trivial
    (fun _ hblock => ⟨hnext, bytes, hblock, rfl⟩) fun _ _ => hnext)

theorem keptByReading_heard (agent : Agent) (channel : String) (told : List Progress) :
    Ingestor.KeptByReading anyAnswer (fun _ => True) (Heard agent channel told) where
  inv _ := trivial
  ledger := by
    rintro q t answer _ ht ⟨-, rfl⟩
    exact ht.concat rfl
  checkpoint := by
    rintro channel t answer _ ht ⟨-, rfl⟩
    exact ht.concat rfl
  blockHash := by
    rintro channel number t answer _ ht ⟨-, rfl⟩
    exact ht.concat rfl

theorem keeps_publish (events : List Event) :
    ∀ t : List Asked, Heard agent channel told t →
      Keeps agent channel told (fun _ u => u = t ++ events.map published)
        (Ingestor.publish channel events) t := by
  induction events with
  | nil => exact fun t _ => Attempt.Safe.pure trivial (List.append_nil t).symm
  | cons e events ih =>
      intro t ht
      refine Attempt.Safe.bind (keeps_store ht fun _ hnext => ?_)
      rw [List.map_cons, List.append_cons]
      exact ih _ hnext

theorem keeps_ingestNext (h : Heard agent channel told t) :
    Keeps agent channel told (fun block u => Heard agent channel told u ∧
        Announced agent channel u block ∧ block.number = cursor.next)
      (Ingestor.ingestNext agent channel cursor) t := by
  refine Attempt.Safe.bind (Ingestor.safe_prepare_of_fetch (Attempt.Safe.mono (keeps_fetch h)
    ?_ fun _ _ _ h => h))
  rintro block u - ⟨hu, bytes, hblock, rfl⟩
  refine ⟨fun prepared hready => ?_, fun _ _ => hu⟩
  refine Attempt.Safe.bind (Attempt.Safe.mono (keeps_publish prepared.events _ hu) ?_
    fun _ _ _ h => h)
  rintro _ _ - rfl
  refine Attempt.Safe.bind (keeps_store (hu.publish prepared.events) fun _ hnext => ?_)
  refine Attempt.Safe.pure trivial ⟨hnext, ⟨t, bytes, prepared.events, ?_, ?_, rfl, ?_⟩, rfl⟩
  · rw [List.append_assoc _ (prepared.events.map published)]
    exact List.append_assoc t _ _
  · exact Agent.eventsOfBytes?_of_ready hblock hready
  · rw [hready.events, Agent.count_transaction_eventsOf]

/-! ### Calls -/

theorem follows_start (cursor : Cursor) : Follows cursor [.reconciled cursor.next] :=
  ⟨cursor.next, [], rfl, rfl, rfl⟩

theorem Follows.ingested (h : Follows cursor told) {block : IngestedBlock}
    (hnumber : block.number = cursor.next) :
    Follows ⟨cursor.next + 1, some block.headerHash⟩ (told ++ [.ingested block]) := by
  obtain ⟨start, blocks, rfl, hnumbers, hnext⟩ := h
  refine ⟨start, blocks ++ [block], ?_, ?_, ?_⟩
  · rw [List.map_append, List.cons_append]
    rfl
  · rw [List.map_append, hnumbers, List.length_append, List.length_singleton, List.range'_concat,
      List.map_singleton, hnumber, hnext, Nat.one_mul]
  · rw [List.length_append, List.length_singleton, hnext, Nat.add_assoc]

/-- What a call leaves of a worker that has reconciled or not before. -/
def Leaves (agent : Agent) (channel : String) (reconciled : Bool)
    (r : Except IngestError Nat × Ingestor) (t : List Asked) : Prop :=
  ∃ cursor told, r.2 = ⟨agent, channel, cursor⟩ ∧ Heard agent channel told t ∧
    Spoken (reconciled || r.1.isOk) cursor told

theorem safe_reconcile {cursor : Option Cursor} (h : Heard agent channel [] t) :
    Program.Safe anyAnswer (fun _ => True) (Leaves agent channel false)
      (Ingestor.reconcile ⟨agent, channel, cursor⟩) t := by
  refine Ingestor.safe_reconcile_of_start (Attempt.Safe.mono
    ((keptByReading_heard agent channel []).safe_startCursor h) ?_
    fun e u _ hu => ⟨cursor, [], rfl, hu, .waiting⟩)
  rintro start u - hu answer _ ⟨-, rfl⟩
  exact ⟨trivial, some start, [.reconciled start.next], rfl, hu.report nofun,
    .following (follows_start start)⟩

theorem safe_poll (h : Heard agent channel told t) (hfollows : Follows cursor told) :
    Program.Safe anyAnswer (fun _ => True) (Leaves agent channel true)
      (Ingestor.poll ⟨agent, channel, some cursor⟩) t := by
  refine Ingestor.safe_poll_of_height trivial nofun ?_
  rintro _ ⟨⟩
  refine Attempt.Safe.mono (keeps_ledger h fun height hheight => ?_) (fun _ _ _ h => h)
    fun e u _ hu => ⟨some cursor, told, rfl, hu, .following hfollows⟩
  refine Ingestor.safe_ingestUpTo (fun _ cursor _ t => ∃ told, Heard agent channel told t ∧
    Follows cursor told) ?_ ?_ ?_ trivial ⟨told, hheight, hfollows⟩
  · rintro cursor count t - ⟨told, ht, hfollows⟩
    exact ⟨some cursor, told, rfl, ht, .following hfollows⟩
  · rintro _ cursor count t _ - ⟨told, ht, hfollows⟩ ⟨-, rfl⟩
    exact ⟨trivial, some cursor, told, rfl, ht.concat rfl, .following hfollows⟩
  · rintro _ cursor count t _ - ⟨told, ht, hfollows⟩ ⟨-, rfl⟩
    refine ⟨trivial, Attempt.Safe.mono (keeps_ingestNext (ht.concat rfl)) ?_
      fun e u _ hu => ⟨some cursor, told, rfl, hu, .following hfollows⟩⟩
    rintro block u - ⟨hu, hstored, hnumber⟩ answer _ ⟨-, rfl⟩
    refine ⟨trivial, told ++ [.ingested block], hu.report ?_, hfollows.ingested hnumber⟩
    rintro _ ⟨⟩
    exact hstored

end Announcements

open Announcements

namespace Worker

variable {agent : Agent} {channel : String} {t : List Asked} {told : List Progress} {period : Nat}
  {worker : Worker}

/-- The ticks of a worker at some moments, up to its end. -/
def follow (period : Nat) : List Nat → Worker → Program (Option Worker)
  | [], worker => pure (some worker)
  | now :: moments, worker => do
    match ← worker.tick now period with
    | some worker => follow period moments worker
    | none => return none

theorem safe_attempt {cursor : Option Cursor} {reconciled : Bool} {due : Nat}
    (h : Heard agent channel told t) (hspoken : Spoken reconciled cursor told) :
    Program.Safe anyAnswer (fun _ => True) (Leaves agent channel reconciled)
      (attempt ⟨⟨agent, channel, cursor⟩, reconciled, due⟩) t := by
  cases hspoken with
  | waiting => exact safe_reconcile h
  | following hfollows => exact safe_poll h hfollows

/-- **One tick.** -/
theorem safe_tick (now : Nat) (h : Heard agent channel told t)
    (htold : Told agent channel (some worker) told) :
    Program.Safe anyAnswer (fun _ => True) (fun left u => ∃ told, Heard agent channel told u ∧
      Told agent channel left told) (worker.tick now period) t := by
  cases htold with
  | working hspoken =>
      refine Program.Safe.bind (Program.Safe.mono (safe_attempt h hspoken) ?_)
      rintro ⟨result, _⟩ u - ⟨cursor, told, rfl, hu, hspoken⟩
      cases result with
      | ok n =>
          rw [show Except.isOk (.ok n : Except IngestError Nat) = true from rfl,
            Bool.or_true] at hspoken
          exact Program.Safe.pure trivial ⟨told, hu, .working hspoken⟩
      | error e =>
          rw [show Except.isOk (.error e : Except IngestError Nat) = false from rfl,
            Bool.or_false] at hspoken
          dsimp only
          split
          · refine Program.Safe.bind ⟨trivial, ?_⟩
            rintro answer _ ⟨-, rfl⟩
            exact ⟨trivial, Program.Safe.pure trivial ⟨_, hu.report nofun, .halted hspoken⟩⟩
          · exact Program.Safe.pure trivial ⟨told, hu, .working hspoken⟩

/-- **All ticks.** -/
theorem safe_follow (moments : List Nat) (h : Heard agent channel told t)
    (htold : Told agent channel (some worker) told) :
    Program.Safe anyAnswer (fun _ => True) (fun left u => ∃ told, Heard agent channel told u ∧
      Told agent channel left told) (follow period moments worker) t := by
  induction moments generalizing worker told t with
  | nil => exact Program.Safe.pure trivial ⟨told, h, htold⟩
  | cons now moments ih =>
      refine Program.Safe.bind (Program.Safe.mono (safe_tick now h htold) ?_)
      rintro left u - ⟨told, hu, htold⟩
      cases left with
      | none => exact Program.Safe.pure trivial ⟨told, hu, htold⟩
      | some worker => exact ih hu htold

/-- **A new worker**, in any world. -/
theorem heard_follow {σ : Type} (world : Program.World σ) (s : σ) (agent : Agent)
    (channel : String) (due period : Nat) (moments : List Nat) :
    let program := follow period moments (start agent due channel)
    ∃ told, Heard agent channel told (program.trace world s) ∧
      Told agent channel (program.run world s).1 told := by
  intro program
  have hsafe : Program.Safe anyAnswer (fun _ => True) (fun left u => ∃ told,
      Heard agent channel told u ∧ Told agent channel left told) program [] :=
    safe_follow moments heard_nil (.working .waiting)
  exact (hsafe.traced (fun _ _ => trivial) s).2

end Worker

end LedgerIndex
