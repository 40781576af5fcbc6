import LedgerIndex.Proofs.Event.Place
import LedgerIndex.Proofs.Ingest.Reachable
import LedgerIndex.Proofs.Ingest.Trace

/-! # Which documents are written

The log of a deployment is the list of all questions that its engines asked and the answers they
got (`Deployment.log`).  Every event that is put follows on the fetching of a block, and the events
that were put since then and it are the first documents of that block, in order; a checkpoint is
written when they are all of them (`Due`).  So a block that is published again targets the same
documents as the first time, and of all the events that a store took in it holds the last one of
each place (`Deployment.documents_apart`). -/

namespace LedgerIndex

open Ingest MemoryStore

/-! ### Logs -/

namespace Deployment

/-- The question that an action answers. -/
def answered? (d : Deployment) : Action → Option Asked
  | .answer cancelled =>
    match d.activity with
    | .busy query _ => some ⟨query, (d.reply cancelled query).1⟩
    | _ => none
  | _ => none

/-- The questions that some actions answer. -/
def log (d : Deployment) : List Action → List Asked
  | [] => []
  | action :: actions => (d.answered? action).toList ++ (d.step action).log actions

end Deployment

/-- The event that a store took in. -/
def accepted? : Asked → Option Event
  | ⟨.store (.putEvent e), .ok _⟩ => some e
  | _ => none

/-- The document that an event was put to, whether the store took it in or not. -/
def target? : Asked → Option (EventKind × String)
  | ⟨.store (.putEvent e), _⟩ => some e.target
  | _ => none

/-- The last question to the ledger was for a block, which it had, and since then events were put to
these documents and nothing else was done. -/
def PutSince (log : List Asked) (channel : String) (number : Nat) (bytes : Bytes)
    (targets : List (EventKind × String)) : Prop :=
  ∃ earlier puts, log = earlier ++ ⟨.ledger (.block channel number), .ok bytes⟩ :: puts ∧
    puts.map target? = targets.map some

/-- What a peer's agent may write after what is in a log: the next document of the block that was
fetched last, or the checkpoint when all its documents have been put. -/
def Due (peer : String) (log : List Asked) : Query → Prop
  | .store (.putEvent e) =>
    e.origin.peer = peer ∧ ∃ bytes targets rest,
      PutSince log e.channel e.blockNumber bytes targets ∧
        targetsOfBytes? peer e.channel e.blockNumber bytes = some (targets ++ e.target :: rest)
  | .store (.putCheckpoint channel number) =>
    ∃ bytes targets, PutSince log channel number bytes targets ∧
      targetsOfBytes? peer channel number bytes = some targets
  | _ => True

def InOrder (peer : String) (log : List Asked) : Prop :=
  ∀ before a after, log = before ++ a :: after → Due peer before a.1

variable {peer channel : String} {number : Nat} {bytes : Bytes} {log : List Asked}
  {targets : List (EventKind × String)}

theorem inOrder_nil : InOrder peer [] := by
  intro before a after h
  simp at h

theorem InOrder.concat (h : InOrder peer log) {a : Asked} (ha : Due peer log a.1) :
    InOrder peer (log ++ [a]) := by
  intro before b after hlog
  obtain ⟨-, rfl, rfl⟩ | ⟨front, -, hfront⟩ := split_concat hlog
  · exact ha
  · exact h before b front hfront

theorem PutSince.concat (h : PutSince log channel number bytes targets) {a : Asked}
    {document : EventKind × String} (ha : target? a = some document) :
    PutSince (log ++ [a]) channel number bytes (targets ++ [document]) := by
  obtain ⟨earlier, puts, rfl, hputs⟩ := h
  refine ⟨earlier, puts ++ [a], by simp, ?_⟩
  rw [List.map_append, hputs, List.map_append]
  simp [ha]

/-! ### One call -/

/-- The environment in which any answer is possible. -/
abbrev anyAnswer : Environment (List Asked) :=
  recording fun _ _ => True

/-- An attempt of a peer's agent that keeps the log in order. -/
abbrev Keeps {α : Type} (peer : String) (good : α → List Asked → Prop) (p : Attempt α)
    (log : List Asked) : Prop :=
  Attempt.Safe anyAnswer (InOrder peer) good (fun _ _ => True) p log

theorem keeps_ledger {q : Ledger.Query} {good : q.Value → List Asked → Prop}
    (hlog : InOrder peer log)
    (hgood : ∀ value, InOrder peer (log ++ [⟨.ledger q, .ok value⟩]) →
      good value (log ++ [⟨.ledger q, .ok value⟩])) :
    Keeps peer good (Attempt.ledger channel q) log := by
  refine Attempt.Safe.askLedger hlog ?_
  rintro answer _ ⟨-, rfl⟩
  have hnext : InOrder peer (log ++ [⟨.ledger q, answer⟩]) := hlog.concat trivial
  refine ⟨hnext, ?_, fun _ _ => trivial⟩
  rintro value rfl
  exact hgood value hnext

theorem keeps_store {q : Store.Query} {good : q.Value → List Asked → Prop}
    (hlog : InOrder peer log) (hdue : Due peer log (.store q))
    (hgood : ∀ value, InOrder peer (log ++ [⟨.store q, .ok value⟩]) →
      good value (log ++ [⟨.store q, .ok value⟩])) :
    Keeps peer good (Attempt.store channel q) log := by
  refine Attempt.Safe.askStore hlog ?_
  rintro answer _ ⟨-, rfl⟩
  have hnext : InOrder peer (log ++ [⟨.store q, answer⟩]) := hlog.concat hdue
  refine ⟨hnext, ?_, fun _ _ => trivial⟩
  rintro value rfl
  exact hgood value hnext

theorem keeps_fetch (hlog : InOrder peer log) :
    Keeps peer (fun block after => InOrder peer after ∧
        ∃ bytes, Ingestor.decodeNumbered number bytes = .ok block ∧
          PutSince after channel number bytes []) (Ingestor.fetch channel number) log := by
  refine Attempt.Safe.bind (keeps_ledger hlog fun bytes hnext => ?_)
  exact Attempt.Safe.ofExcept hnext
    (fun block hblock => ⟨hnext, bytes, hblock, log, [], rfl, rfl⟩) fun _ _ => trivial

theorem keeps_publish (events : List Event) (hevents : ∀ e ∈ events, e.origin.peer = peer ∧
      e.channel = channel ∧ e.blockNumber = number) :
    ∀ (targets : List (EventKind × String)) (log : List Asked), InOrder peer log →
      PutSince log channel number bytes targets →
      targetsOfBytes? peer channel number bytes = some (targets ++ events.map Event.target) →
      Keeps peer (fun _ after => InOrder peer after ∧
          PutSince after channel number bytes (targets ++ events.map Event.target))
        (Ingestor.publish channel events) log := by
  induction events with
  | nil =>
      intro targets log hlog hput _
      rw [List.map_nil, List.append_nil]
      exact Attempt.Safe.pure hlog ⟨hlog, hput⟩
  | cons e events ih =>
      intro targets log hlog hput htargets
      obtain ⟨hpeer, hchannel, hnumber⟩ := hevents e List.mem_cons_self
      have hdue : Due peer log (.store (.putEvent e)) := by
        refine ⟨hpeer, bytes, targets, events.map Event.target, ?_, ?_⟩
        · rw [hchannel, hnumber]
          exact hput
        · rw [hchannel, hnumber]
          exact htargets
      refine Attempt.Safe.bind (keeps_store hlog hdue fun _ hnext => ?_)
      have hput : PutSince (log ++ [⟨.store (.putEvent e), .ok ()⟩]) channel number bytes
          (targets ++ [e.target]) := hput.concat rfl
      have hshift : targets ++ (e :: events).map Event.target
          = (targets ++ [e.target]) ++ events.map Event.target := by simp
      rw [hshift] at htargets ⊢
      exact ih (fun x hx => hevents x (List.mem_cons_of_mem _ hx)) _ _ hnext hput htargets

theorem keeps_ingestNext {agent : Agent} (hpeer : agent.peer = peer) {cursor : Cursor}
    (hlog : InOrder peer log) :
    Keeps peer (fun _ after => InOrder peer after) (Ingestor.ingestNext agent channel cursor)
      log := by
  refine Attempt.Safe.bind (Ingestor.safe_prepare_of_fetch (Attempt.Safe.mono (keeps_fetch hlog)
    ?_ fun _ _ _ h => h))
  rintro block after - ⟨hafter, bytes, hblock, hput⟩
  refine ⟨fun prepared hready => ?_, fun _ _ => trivial⟩
  have hevents : ∀ e ∈ prepared.events,
      e.origin.peer = peer ∧ e.channel = channel ∧ e.blockNumber = cursor.next := by
    intro e he
    rw [hready.events] at he
    have horigin : e.origin = agent.origin channel := Agent.origin_of_mem_eventsOf he
    refine ⟨by rw [horigin]; exact hpeer, by rw [Event.channel, horigin]; rfl, ?_⟩
    rw [Agent.blockNumber_of_mem_eventsOf he, (Ingestor.decodeNumbered_eq_ok hblock).2]
  have htargets : targetsOfBytes? peer channel cursor.next bytes
      = some ([] ++ prepared.events.map Event.target) := by
    rw [targetsOfBytes?_eq hpeer, Agent.eventsOfBytes?_of_ready hblock hready]
    rfl
  refine Attempt.Safe.bind (Attempt.Safe.mono (keeps_publish prepared.events hevents [] after hafter
    hput htargets) ?_ fun _ _ _ h => h)
  rintro _ log - ⟨hlog, hput⟩
  refine Attempt.Safe.bind (keeps_store hlog ⟨bytes, _, hput, htargets⟩ fun _ hnext => ?_)
  exact Attempt.Safe.pure hnext hnext

theorem keptByReading_inOrder (peer : String) :
    Ingestor.KeptByReading anyAnswer (InOrder peer) (InOrder peer) where
  inv h := h
  ledger := by
    rintro q log answer _ hlog ⟨-, rfl⟩
    exact hlog.concat trivial
  checkpoint := by
    rintro channel log answer _ hlog ⟨-, rfl⟩
    exact hlog.concat trivial
  blockHash := by
    rintro channel number log answer _ hlog ⟨-, rfl⟩
    exact hlog.concat trivial

/-- A step of an ingestor that keeps the log in order and changes nothing of the ingestor but its
cursor. -/
def KeepsOrder (peer : String)
    (step : Ingestor → Program (Except IngestError Nat × Ingestor)) : Prop :=
  ∀ {ingestor : Ingestor} {log : List Asked}, ingestor.agent.peer = peer → InOrder peer log →
    Program.Safe anyAnswer (InOrder peer)
      (fun r _ => ∃ cursor, r.2 = { ingestor with cursor := cursor }) (step ingestor) log

theorem keepsOrder_reconcile : KeepsOrder peer Ingestor.reconcile := by
  intro ingestor log _ hlog
  refine Ingestor.safe_reconcile_of_start (Attempt.Safe.mono
    ((keptByReading_inOrder peer).safe_startCursor hlog) ?_ ?_)
  · rintro cursor after - hafter answer _ ⟨-, rfl⟩
    exact ⟨hafter.concat trivial, some cursor, rfl⟩
  · exact fun _ _ _ _ => ⟨ingestor.cursor, rfl⟩

theorem keepsOrder_poll : KeepsOrder peer Ingestor.poll := by
  intro ingestor log hpeer hlog
  refine Ingestor.safe_poll_of_height hlog (fun _ => ⟨ingestor.cursor, rfl⟩) fun cursor _ => ?_
  have hheight : Keeps peer (fun _ after => InOrder peer after)
      (Attempt.ledger ingestor.channel (.tipHeight ingestor.channel)) log :=
    keeps_ledger hlog fun _ hnext => hnext
  refine Attempt.Safe.mono hheight (fun height after hafter _ => ?_)
    fun _ _ _ _ => ⟨ingestor.cursor, rfl⟩
  refine Ingestor.safe_ingestUpTo (fun _ _ _ _ => True) (fun _ _ => ⟨_, rfl⟩) ?_ ?_ hafter trivial
  · rintro _ _ _ s _ hs - ⟨-, rfl⟩
    exact ⟨hs.concat trivial, _, rfl⟩
  · rintro _ _ _ s _ hs - ⟨-, rfl⟩
    have hlook : InOrder peer (s ++ [⟨.cancelled, false⟩]) := hs.concat trivial
    refine ⟨hlook, Attempt.Safe.mono (keeps_ingestNext hpeer hlook) ?_ fun _ _ _ _ => ⟨_, rfl⟩⟩
    rintro block u hu - answer _ ⟨-, rfl⟩
    exact ⟨hu.concat trivial, trivial⟩

/-- A call to an engine keeps the log in order, on whichever channel it is. -/
theorem KeepsOrder.safe_onChannel
    {step : Ingestor → Program (Except IngestError Nat × Ingestor)} (hstep : KeepsOrder peer step)
    {engine : Engine} (hengine : engine.Proper fun agent => agent.peer = peer)
    (hlog : InOrder peer log) :
    Program.Safe anyAnswer (InOrder peer)
      (fun r _ => r.2.Proper fun agent => agent.peer = peer) (engine.onChannel channel step)
      log := by
  cases hingestor : engine.ingestor? channel with
  | none =>
      unfold Engine.onChannel
      rw [hingestor]
      exact Program.Safe.pure hlog hengine
  | some ingestor =>
      obtain ⟨hchannel, hpeer⟩ := hengine channel ingestor hingestor
      refine Engine.safe_onChannel hingestor (Program.Safe.mono (hstep hpeer hlog) ?_)
      rintro ⟨result, _⟩ _ - ⟨cursor, rfl⟩
      exact hengine.put hchannel hpeer

/-! ### Deployments -/

namespace Deployment

/-- The log up to now is in order, and a call in progress keeps it so. -/
structure Tracked (peer : String) (d : Deployment) (log : List Asked) : Prop where
  inOrder : InOrder peer log
  idle : ∀ engine, d.activity = .idle engine → engine.Proper fun agent => agent.peer = peer
  busy : ∀ query next, d.activity = .busy query next →
    Program.Safe anyAnswer (InOrder peer) (fun r _ => r.2.Proper fun agent => agent.peer = peer)
      (.ask query next) log

variable {d : Deployment}

theorem tracked_stopped {ledger : MemoryLedger} {store : MemoryStore} (h : InOrder peer log) :
    Tracked peer ⟨ledger, store, .stopped⟩ log := by
  refine ⟨h, ?_, ?_⟩
  · rintro engine ⟨⟩
  · rintro query next ⟨⟩

theorem tracked_ofCall {ledger : MemoryLedger} {store : MemoryStore} {call : EngineCall}
    (h : Program.Safe anyAnswer (InOrder peer)
      (fun r _ => r.2.Proper fun agent => agent.peer = peer) call log) :
    Tracked peer ⟨ledger, store, .ofCall call⟩ log := by
  refine ⟨h.start, ?_, ?_⟩
  · intro engine hactivity
    cases call with
    | done result =>
        cases hactivity
        exact h.2
    | ask query next => cases hactivity
  · intro query next hactivity
    cases call with
    | done result => cases hactivity
    | ask query next =>
        cases hactivity
        exact h

theorem answer_cases (d : Deployment) (cancelled : Bool) :
    (∃ query next, d.activity = .busy query next ∧
      d.step (.answer cancelled) = ⟨d.ledger, (d.reply cancelled query).2,
        .ofCall (next (d.reply cancelled query).1)⟩ ∧
      d.answered? (.answer cancelled) = some ⟨query, (d.reply cancelled query).1⟩) ∨
    (d.step (.answer cancelled) = d ∧ d.answered? (.answer cancelled) = none) := by
  show (∃ query next, _ ∧ d.proceed cancelled = _ ∧ _) ∨ (d.proceed cancelled = d ∧ _)
  unfold proceed answered?
  cases hactivity : d.activity with
  | stopped => exact .inr ⟨rfl, rfl⟩
  | idle engine => exact .inr ⟨rfl, rfl⟩
  | busy query next => exact .inl ⟨query, next, rfl, rfl, rfl⟩

theorem Tracked.of_activity_eq (h : Tracked peer d log) {d' : Deployment}
    (hactivity : d'.activity = d.activity) : Tracked peer d' log := by
  refine ⟨h.inOrder, ?_, ?_⟩
  · rw [hactivity]
    exact h.idle
  · rw [hactivity]
    exact h.busy

theorem Tracked.begin (h : Tracked peer d log)
    {step : Ingestor → Program (Except IngestError Nat × Ingestor)}
    (hstep : KeepsOrder peer step) :
    Tracked peer (d.begin fun engine => engine.onChannel channel step) log := by
  unfold Deployment.begin
  split
  · rename_i engine hactivity
    exact tracked_ofCall (hstep.safe_onChannel (h.idle engine hactivity) h.inOrder)
  · exact h

/-- **An action keeps the log in order.** -/
theorem Tracked.step (h : Tracked peer d log) {action : Action}
    (hagent : ∀ agent channels, action = .start agent channels → agent.peer = peer) :
    Tracked peer (d.step action) (log ++ (d.answered? action).toList) := by
  cases action with
  | answer cancelled =>
      obtain ⟨query, next, hactivity, hstep, hanswered⟩ | ⟨hstep, hanswered⟩ :=
        answer_cases d cancelled
      · have hnext := h.busy query next hactivity
        have hanswer := hnext.2 (d.reply cancelled query).1 _ ⟨trivial, rfl⟩
        rw [hstep, hanswered]
        exact tracked_ofCall hanswer
      · rw [hstep, hanswered, Option.toList_none, List.append_nil]
        exact h
  | start agent channels =>
      simp only [answered?, Option.toList_none, List.append_nil]
      refine ⟨h.inOrder, ?_, ?_⟩
      · rintro engine ⟨⟩
        exact Engine.proper_start (hagent agent channels rfl) channels
      · rintro query next ⟨⟩
  | kill =>
      simp only [answered?, Option.toList_none, List.append_nil]
      exact tracked_stopped h.inOrder
  | reconcile channel =>
      simp only [answered?, Option.toList_none, List.append_nil]
      exact h.begin keepsOrder_reconcile
  | poll channel =>
      simp only [answered?, Option.toList_none, List.append_nil]
      exact h.begin keepsOrder_poll
  | push channel block =>
      simp only [answered?, Option.toList_none, List.append_nil]
      exact h.of_activity_eq rfl
  | replace channel number block =>
      simp only [answered?, Option.toList_none, List.append_nil]
      exact h.of_activity_eq rfl
  | setUnavailable unavailable =>
      simp only [answered?, Option.toList_none, List.append_nil]
      exact h.of_activity_eq rfl
  | limitPuts successful =>
      simp only [answered?, Option.toList_none, List.append_nil]
      exact h.of_activity_eq rfl

/-- **So does a sequence of actions.** -/
theorem Tracked.run (h : Tracked peer d log) {actions : List Action}
    (hagent : ∀ agent channels, .start agent channels ∈ actions → agent.peer = peer) :
    Tracked peer (d.run actions) (log ++ d.log actions) := by
  induction actions generalizing d log with
  | nil => simpa [Deployment.log, Deployment.run] using h
  | cons action actions ih =>
      have hstep : Tracked peer (d.step action) (log ++ (d.answered? action).toList) := by
        apply h.step
        rintro agent channels rfl
        exact hagent agent channels List.mem_cons_self
      have hrest := ih hstep fun agent channels hmem =>
        hagent agent channels (List.mem_cons_of_mem _ hmem)
      rw [List.append_assoc] at hrest
      exact hrest

/-! ### What the store took in -/

theorem events_step (d : Deployment) (action : Action) :
    (d.step action).store.events
      = upsertAll d.store.events ((d.answered? action).toList.filterMap accepted?) := by
  cases action with
  | answer cancelled =>
      obtain ⟨query, next, -, hstep, hanswered⟩ | ⟨hstep, hanswered⟩ := answer_cases d cancelled
      · rw [hstep, hanswered]
        cases query with
        | ledger q => rfl
        | cancelled => rfl
        | report progress => rfl
        | store q =>
            cases q with
            | checkpoint channel => rfl
            | putCheckpoint channel number => rfl
            | blockHash channel number => rfl
            | putEvent e =>
                by_cases hlimit : d.store.failingPuts = some 0
                · have hrefused : d.reply cancelled (.store (.putEvent e))
                      = (.error refusal, d.store) := by
                    simp [reply, MemoryStore.answer, putEvent, hlimit]
                  rw [hrefused]
                  rfl
                · have htaken : d.reply cancelled (.store (.putEvent e))
                      = (.ok (), d.store.accept e) := by
                    simp [reply, MemoryStore.answer, putEvent, hlimit]
                  rw [htaken]
                  rfl
      · rw [hstep, hanswered]
        rfl
  | reconcile channel =>
      simp only [Deployment.step, Deployment.begin]
      split <;> rfl
  | poll channel =>
      simp only [Deployment.step, Deployment.begin]
      split <;> rfl
  | _ => rfl

/-- The events of a store are those that it took in, each put in its place. -/
theorem events_run (d : Deployment) (actions : List Action) :
    (d.run actions).store.events
      = upsertAll d.store.events ((d.log actions).filterMap accepted?) := by
  induction actions generalizing d with
  | nil => rfl
  | cons action actions ih =>
      rw [run_cons, ih, events_step, Deployment.log, List.filterMap_append, upsertAll_append]

theorem peer_of_accepted {e : Event} (h : InOrder peer log) (he : e ∈ log.filterMap accepted?) :
    e.origin.peer = peer := by
  obtain ⟨a, ha, haccepted⟩ := List.mem_filterMap.mp he
  obtain ⟨before, after, hlog⟩ := List.append_of_mem ha
  have hdue : Due peer before a.1 := h before a after hlog
  unfold accepted? at haccepted
  split at haccepted
  · cases haccepted
    exact hdue.1
  · cases haccepted

end Deployment

/-- A store holds the last event of each place that it took in, and every event was put to the
document that was next in the list of its block's. -/
structure KeptApart (peer : String) (store : MemoryStore) (log : List Asked) : Prop where
  stored : ∀ e, e ∈ store.events ↔ LastOfPlace (log.filterMap accepted?) e
  inOrder : InOrder peer log

/-- **The documents of one peer never collide.** -/
theorem Deployment.documents_apart (peer : String) :
    (∀ e f : Event, e.kind = f.kind → e.origin.peer = peer → f.origin.peer = peer →
      (e.documentId = f.documentId ↔ e.SamePlace f)) ∧
    (∀ channel number bytes targets, targetsOfBytes? peer channel number bytes = some targets →
      targets.Nodup) ∧
    ∀ (ledger : MemoryLedger) (seed : Option Seed) (actions : List Action),
      (∀ agent channels, .start agent channels ∈ actions → agent.peer = peer) →
      KeptApart peer ((initial ledger seed).run actions).store
        ((initial ledger seed).log actions) := by
  refine ⟨fun e f hkind he hf => Event.documentId_eq_iff hkind (he.trans hf.symm),
    fun _ _ _ _ => nodup_targetsOfBytes?, ?_⟩
  intro ledger seed actions hagent
  have hbegin : Tracked peer (initial ledger seed) [] := tracked_stopped inOrder_nil
  have horder : InOrder peer ((initial ledger seed).log actions) := (hbegin.run hagent).inOrder
  refine ⟨fun e => ?_, horder⟩
  have hevents : ((initial ledger seed).run actions).store.events
      = upsertAll [] (((initial ledger seed).log actions).filterMap accepted?) := by
    rw [events_run]
    simp [initial]
  rw [hevents]
  exact mem_upsertAll_iff fun e he => peer_of_accepted horder he

namespace Deployment.Sample

/-- The store takes in one event of a block and refuses the next, and the block is published
again. -/
def republishing : List Action :=
  [.push "c_1" first, .start agent ["c_1"], .reconcile "c_1", .answer false, .answer false,
    .limitPuts (some 1), .poll "c_1"] ++ List.replicate 5 (.answer false)
    ++ [.limitPuts none, .poll "c_1"] ++ List.replicate 7 (.answer false)

/-- The event of block 2 of a channel. -/
def blockEvent (channel : String) (number : Nat) : Event :=
  .block ⟨⟨channel, "peer0", "org1"⟩, number, "", "", "", none, .endorser, []⟩

end Deployment.Sample

open Deployment in
/-- Of three events that are taken in two are the same document, and two are left. -/
theorem Deployment.documents_apart_republished :
    ((Sample.blockEvent "c_1" 2).documentId = (Sample.blockEvent "c" 12).documentId
        ↔ (Sample.blockEvent "c_1" 2).SamePlace (Sample.blockEvent "c" 12)) ∧
      (((initial {} none).log Sample.republishing).filterMap accepted?).map Event.documentId
        = ["peer0_c_1_0_0", "peer0_c_1_0_0", "peer0_c_1_0"] ∧
      KeptApart "peer0" ((initial {} none).run Sample.republishing).store
        ((initial {} none).log Sample.republishing) := by
  obtain ⟨hids, -, hrun⟩ := documents_apart "peer0"
  refine ⟨hids _ _ rfl rfl rfl, by decide +kernel, hrun {} none Sample.republishing ?_⟩
  intro a channels hmem
  simp [Sample.republishing] at hmem
  rw [hmem.1]
  rfl

end LedgerIndex
