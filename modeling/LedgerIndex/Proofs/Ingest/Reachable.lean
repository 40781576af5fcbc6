import LedgerIndex.Proofs.Event.OfBlock
import LedgerIndex.Proofs.Ingest.Discipline

/-! # What every deployment keeps

A discipline of a channel passes from single calls to whole deployments.  `Discipline.Governs` is
what it says of an engine between two calls, `Discipline.Holds` what it says of a deployment at any
moment, with a call in progress or without.  No action breaks it (`Discipline.Holds.step`), hence no
sequence of actions (`Discipline.Holds.run`), provided that the work on other channels leaves the
discipline alone (`Discipline.Isolated`) and that a dropped call leaves the store as a new engine
expects it, unless no call is ever dropped. -/

namespace LedgerIndex

open Ingest MemoryStore

/-! ### Engines -/

namespace Engine

/-- Every ingestor is filed under its channel and works for an agent that is `allowed`. -/
def Proper (allowed : Agent → Prop) (engine : Engine) : Prop :=
  ∀ channel ingestor, engine.ingestor? channel = some ingestor →
    ingestor.channel = channel ∧ allowed ingestor.agent

theorem ingestor?_start (agent : Agent) (channels : List String) (channel : String) :
    (Engine.start agent channels).ingestor? channel =
      if channel ∈ channels then some (Ingestor.start agent channel) else none := by
  have hfold : ∀ (names : List String) (filed : List (String × Ingestor)),
      Entries.get? channel (names.foldl (fun ingestors name =>
        Entries.put name (Ingestor.start agent name) ingestors) filed) =
      if channel ∈ names then some (Ingestor.start agent channel)
      else Entries.get? channel filed := by
    intro names
    induction names with
    | nil => exact fun _ => rfl
    | cons name names ih =>
        intro filed
        rw [List.foldl_cons, ih]
        by_cases hname : channel = name
        · subst hname
          simp
        · simp [hname, Entries.get?_put_of_ne hname]
  exact hfold channels []

theorem eq_start_of_ingestor?_start {agent : Agent} {channels : List String} {channel : String}
    {ingestor : Ingestor} (h : (Engine.start agent channels).ingestor? channel = some ingestor) :
    ingestor = Ingestor.start agent channel := by
  rw [ingestor?_start] at h
  split at h
  · exact (Option.some.inj h).symm
  · cases h

theorem proper_start {allowed : Agent → Prop} {agent : Agent} (h : allowed agent)
    (channels : List String) : Proper allowed (Engine.start agent channels) := by
  intro channel ingestor hingestor
  rw [eq_start_of_ingestor?_start hingestor]
  exact ⟨rfl, h⟩

theorem cursor?_start (agent : Agent) (channels : List String) (channel : String) :
    (Engine.start agent channels).cursor? channel = none := by
  unfold cursor?
  cases hingestor : (Engine.start agent channels).ingestor? channel with
  | none => rfl
  | some ingestor =>
      rw [eq_start_of_ingestor?_start hingestor]
      rfl

theorem ingestor?_put_self (engine : Engine) (channel : String) (ingestor : Ingestor) :
    (Engine.mk (Entries.put channel ingestor engine.ingestors)).ingestor? channel
      = some ingestor := Entries.get?_put_self ..

theorem ingestor?_put_of_ne (engine : Engine) {channel other : String} (h : channel ≠ other)
    (ingestor : Ingestor) :
    (Engine.mk (Entries.put other ingestor engine.ingestors)).ingestor? channel
      = engine.ingestor? channel := Entries.get?_put_of_ne h ..

theorem Proper.put {allowed : Agent → Prop} {engine : Engine} (h : engine.Proper allowed)
    {channel : String} {ingestor : Ingestor} (hchannel : ingestor.channel = channel)
    (hallowed : allowed ingestor.agent) :
    Proper allowed ⟨Entries.put channel ingestor engine.ingestors⟩ := by
  intro other found hfound
  by_cases hother : other = channel
  · subst hother
    rw [ingestor?_put_self] at hfound
    rw [← Option.some.inj hfound]
    exact ⟨hchannel, hallowed⟩
  · rw [ingestor?_put_of_ne engine hother] at hfound
    exact h other found hfound

end Engine

namespace Discipline

variable {channel other : String} {allowed : Agent → Prop} {served : Ledger.Serving}
  {D : Discipline channel allowed served} {s : MemoryStore} {engine : Engine}

/-! ### Work on other channels -/

/-- The work on other channels leaves the discipline alone. -/
structure Isolated (D : Discipline channel allowed served) : Prop where
  accept : ∀ {agent other cursor e s}, allowed agent → channel ≠ other →
    e.origin = agent.origin other → D.placed cursor s → D.placed cursor (s.accept e)
  putCheckpoint : ∀ {other number cursor s}, channel ≠ other → D.placed cursor s →
    D.placed cursor (s.putCheckpoint other number)

/-- The discipline that the work on another channel has to keep for the sake of this one. -/
def onOther (D : Discipline channel allowed served) (hD : D.Isolated) (hother : channel ≠ other)
    (cursor : Option Cursor) : Discipline other allowed served where
  sound := D.sound
  placed _ s := D.placed cursor s
  publishing _ _ rest s :=
    D.placed cursor s ∧ ∀ e ∈ rest, ∃ agent, allowed agent ∧ e.origin = agent.origin other
  sound_of_placed := D.sound_of_placed
  sound_of_published h := D.sound_of_placed h.1
  forget h := h
  genesis h _ := h
  resume h _ _ _ _ _ := h
  begin := by
    intro agent _ block prepared s hallowed hs _ hready
    refine ⟨hs, fun e he => ⟨agent, hallowed, ?_⟩⟩
    rw [hready.events] at he
    exact Agent.origin_of_mem_eventsOf he
  accept := by
    rintro _ prepared e rest s ⟨hs, horigin⟩
    obtain ⟨agent, hallowed, he⟩ := horigin e List.mem_cons_self
    exact ⟨hD.accept hallowed hother he hs, fun x hx => horigin x (List.mem_cons_of_mem _ hx)⟩
  abandon h := h.1
  advance h := hD.putCheckpoint hother h.1

/-! ### Calls to an engine -/

/-- What the discipline says of an engine between two calls. -/
structure Governs (D : Discipline channel allowed served) (engine : Engine) (s : MemoryStore) :
    Prop where
  placed : D.placed (engine.cursor? channel) s
  proper : engine.Proper allowed

/-- A step of an ingestor that keeps every discipline of its channel. -/
def Kept (allowed : Agent → Prop) (served : Ledger.Serving)
    (step : Ingestor → Program (Except IngestError Nat × Ingestor)) : Prop :=
  ∀ {channel : String} (D : Discipline channel allowed served) {ingestor : Ingestor}
    {s : MemoryStore}, ingestor.channel = channel → allowed ingestor.agent →
    D.placed ingestor.cursor s →
    Program.Safe (environment served) D.sound
      (fun r t => (∃ cursor, r.2 = { ingestor with cursor := cursor }) ∧ D.placed r.2.cursor t)
      (step ingestor) s

theorem kept_poll : Kept allowed served Ingestor.poll :=
  fun D _ _ hchannel hallowed hs => D.safe_poll hchannel hallowed hs

theorem kept_reconcile : Kept allowed served Ingestor.reconcile :=
  fun D _ _ hchannel _ hs => D.safe_reconcile hchannel hs

/-- A call to an engine keeps the discipline, on whichever channel it is. -/
theorem Governs.safe_onChannel (hD : D.Isolated) (h : D.Governs engine s)
    {step : Ingestor → Program (Except IngestError Nat × Ingestor)}
    (hstep : Kept allowed served step) :
    Program.Safe (environment served) D.sound (fun r t => D.Governs r.2 t)
      (engine.onChannel other step) s := by
  cases hingestor : engine.ingestor? other with
  | none =>
      unfold Engine.onChannel
      rw [hingestor]
      exact Program.Safe.pure (D.sound_of_placed h.placed) h
  | some ingestor =>
      refine Engine.safe_onChannel hingestor ?_
      obtain ⟨hchannel, hallowed⟩ := h.proper other ingestor hingestor
      by_cases hother : channel = other
      · subst hother
        have hcursor : engine.cursor? channel = ingestor.cursor := by
          rw [Engine.cursor?, hingestor, Option.bind_some]
        refine Program.Safe.mono (hstep D hchannel hallowed (hcursor ▸ h.placed)) ?_
        rintro ⟨result, _⟩ t ht ⟨⟨cursor, rfl⟩, hplaced⟩
        refine ⟨?_, h.proper.put hchannel hallowed⟩
        rwa [Engine.cursor?, Engine.ingestor?_put_self]
      · refine Program.Safe.mono
          (hstep (D.onOther hD hother (engine.cursor? channel)) hchannel hallowed h.placed) ?_
        rintro ⟨result, _⟩ t ht ⟨⟨cursor, rfl⟩, hplaced⟩
        refine ⟨?_, h.proper.put hchannel hallowed⟩
        rwa [Engine.cursor?, Engine.ingestor?_put_of_ne engine hother]

/-! ### Deployments -/

/-- What the discipline says of a deployment. -/
def Holds (D : Discipline channel allowed served) (d : Deployment) : Prop :=
  match d.activity with
  | .stopped => D.placed none d.store.unlimited
  | .idle engine => D.Governs engine d.store.unlimited
  | .busy query next =>
    Program.Safe (environment served) D.sound (fun r t => D.Governs r.2 t) (.ask query next)
      d.store.unlimited

variable {d : Deployment}

theorem Holds.sound (h : D.Holds d) : D.sound d.store.unlimited := by
  unfold Holds at h
  split at h
  · exact D.sound_of_placed h
  · exact D.sound_of_placed h.placed
  · exact h.start

/-- A deployment without a call in progress is as a new engine expects it. -/
theorem Holds.placed_none (h : D.Holds d) (hbusy : d.activity.isBusy = false) :
    D.placed none d.store.unlimited := by
  unfold Holds at h
  cases hactivity : d.activity with
  | stopped =>
      rw [hactivity] at h
      exact h
  | idle engine =>
      rw [hactivity] at h
      exact D.forget h.placed
  | busy query next =>
      rw [hactivity] at hbusy
      cases hbusy

theorem Holds.placed_cursor (h : D.Holds d) {cursor : Cursor}
    (hcursor : d.cursor? channel = some cursor) : D.placed (some cursor) d.store.unlimited := by
  unfold Deployment.cursor? at hcursor
  unfold Holds at h
  cases hactivity : d.activity with
  | idle engine =>
      rw [hactivity] at h hcursor
      exact hcursor ▸ h.placed
  | stopped =>
      rw [hactivity] at hcursor
      cases hcursor
  | busy query next =>
      rw [hactivity] at hcursor
      cases hcursor

theorem holds_initial (D : Discipline channel allowed served) {seed : Option Seed}
    (h : D.placed none (.ofSeed seed)) (ledger : MemoryLedger) :
    D.Holds (.initial ledger seed) := by
  show D.placed none (ofSeed seed).unlimited
  rwa [unlimited_of_failingPuts (failingPuts_ofSeed seed)]

theorem holds_ofCall {ledger : MemoryLedger} {store : MemoryStore} {call : EngineCall}
    (h : Program.Safe (environment served) D.sound (fun r t => D.Governs r.2 t) call
      store.unlimited) : D.Holds ⟨ledger, store, .ofCall call⟩ := by
  cases call with
  | done result => exact h.2
  | ask query next => exact h

theorem Holds.begin (hD : D.Isolated) (h : D.Holds d)
    {step : Ingestor → Program (Except IngestError Nat × Ingestor)}
    (hstep : Kept allowed served step) :
    D.Holds (d.begin fun engine => engine.onChannel other step) := by
  unfold Deployment.begin
  split
  · rename_i engine hactivity
    unfold Holds at h
    rw [hactivity] at h
    exact holds_ofCall (h.safe_onChannel hD hstep)
  · exact h

theorem Holds.proceed (hserved : ∀ q, served q (d.ledger.answer q)) (h : D.Holds d)
    (cancelled : Bool) : D.Holds (d.proceed cancelled) := by
  unfold Deployment.proceed
  split
  · rename_i query next hactivity
    unfold Holds at h
    rw [hactivity] at h
    exact holds_ofCall (h.2 _ _ (environment_reply hserved cancelled query))
  · exact h

/-- **No action breaks a discipline.** -/
theorem Holds.step (hD : D.Isolated) (h : D.Holds d) {action : Action}
    (hserved : ∀ q, served q (d.ledger.answer q))
    (hallowed : ∀ agent channels, action = .start agent channels → allowed agent)
    (hdrop : action.drops = true → D.placed none d.store.unlimited) :
    D.Holds (d.step action) := by
  cases action with
  | start agent channels =>
      refine ⟨?_, Engine.proper_start (hallowed agent channels rfl) channels⟩
      rw [Engine.cursor?_start]
      exact hdrop rfl
  | kill => exact hdrop rfl
  | reconcile other => exact h.begin hD kept_reconcile
  | poll other => exact h.begin hD kept_poll
  | answer cancelled => exact h.proceed hserved cancelled
  | push other block => exact h
  | replace other number block => exact h
  | setUnavailable unavailable => exact h
  | limitPuts successful => exact h

/-- **No sequence of actions breaks a discipline**, if a dropped call leaves the store as a new
engine expects it or no call is dropped. -/
theorem Holds.run (hD : D.Isolated) {actions : List Action} (h : D.Holds d)
    (hserved : d.LedgerWithin served actions)
    (hallowed : ∀ agent channels, .start agent channels ∈ actions → allowed agent)
    (hdrop : (∀ s, D.sound s → D.placed none s) ∨ d.Uninterrupted actions) :
    D.Holds (d.run actions) := by
  induction actions generalizing d with
  | nil => exact h
  | cons action actions ih =>
      refine ih (h.step hD hserved.1 ?_ fun hdrops => ?_) hserved.2 ?_
        (hdrop.imp_right And.right)
      · rintro agent channels rfl
        exact hallowed agent channels List.mem_cons_self
      · rcases hdrop with hrecover | huninterrupted
        · exact hrecover _ h.sound
        · exact h.placed_none (huninterrupted.1 hdrops)
      · exact fun agent channels hmem => hallowed agent channels (List.mem_cons_of_mem _ hmem)

end Discipline

end LedgerIndex
