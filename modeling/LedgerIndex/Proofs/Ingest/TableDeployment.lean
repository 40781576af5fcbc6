import LedgerIndex.Proofs.Ingest.Interchange
import LedgerIndex.Proofs.Store.Recall

/-! # Deployments over tables

A `TableDeployment` is a deployment whose store is the database tables of a peer.  The same actions
happen to it as to a `Deployment`, and beside a store in memory that its tables recall it keeps the
disciplines of a channel (`TableDeployment.Holds`): no action breaks them
(`TableDeployment.Holds.step`), hence no sequence of actions (`TableDeployment.Holds.run`), as long
as blocks have an index of their own.

Whatever the names of the indices, it does what a deployment over memory does until it asks for a
block hash (`TableDeployment.Alike.run`). -/

namespace LedgerIndex

open Ingest

/-- What an action does to the ledger. -/
def Action.serve (ledger : MemoryLedger) : Action → MemoryLedger
  | .push channel block => ledger.push channel block
  | .replace channel number block => (ledger.replace channel number block).2
  | .setUnavailable unavailable => { ledger with unavailable := unavailable }
  | _ => ledger

/-- A ledger in memory and database tables, and what is going on. -/
structure TableDeployment where
  ledger : MemoryLedger := {}
  tables : Tables := {}
  activity : Activity := .stopped

namespace TableDeployment

variable (view : TableStore)

/-- The answer to a question and the tables after it. -/
def reply (d : TableDeployment) (cancelled : Bool) : (q : Query) → q.Answer × Tables
  | .ledger q => (d.ledger.answer q, d.tables)
  | .store q => view.answer d.tables q
  | .cancelled => (cancelled, d.tables)
  | .report _ => ((), d.tables)

/-- Begins a call, if an engine is there and has none in progress. -/
def begin (d : TableDeployment) (call : Engine → EngineCall) : TableDeployment :=
  match d.activity with
  | .idle engine => { d with activity := .ofCall (call engine) }
  | _ => d

/-- Answers the question of the call in progress. -/
def proceed (d : TableDeployment) (cancelled : Bool) : TableDeployment :=
  match d.activity with
  | .busy query next =>
    { d with
      tables := (d.reply view cancelled query).2
      activity := .ofCall (next (d.reply view cancelled query).1) }
  | _ => d

/-- The deployment after an action; tables refuse no event. -/
def step (d : TableDeployment) : Action → TableDeployment
  | .start agent channels => { d with activity := .idle (Engine.start agent channels) }
  | .kill => { d with activity := .stopped }
  | .reconcile channel => d.begin fun engine => engine.reconcile channel
  | .poll channel => d.begin fun engine => engine.poll channel
  | .answer cancelled => d.proceed view cancelled
  | action => { d with ledger := action.serve d.ledger }

/-- The deployment after some actions. -/
def run (d : TableDeployment) (actions : List Action) : TableDeployment :=
  actions.foldl (step view) d

end TableDeployment

/-! ### Questions that fit -/

/-- All questions of a program are those of an ingestor of the peer, with numbers that fit. -/
def Ingest.Program.Fits {α : Type} (peer : String) (p : Program α) : Prop :=
  ∃ (ingestor : Ingestor) (asked : List Asked), ingestor.agent.peer = peer ∧
    Program.Safe (recording (Session.columns ingestor).possible) (Session.columns ingestor).Fine
      (fun _ _ => True) p asked

theorem Engine.fits_onChannel {engine : Engine} {peer channel : String}
    {step : Ingestor → Program (Except IngestError Nat × Ingestor)}
    (hengine : engine.Proper (·.peer = peer))
    (hstep : Ingestor.Asking (· ≤ BlockHeader.greatestNumber) step) :
    (engine.onChannel channel step).Fits peer := by
  cases hingestor : engine.ingestor? channel with
  | none =>
      refine ⟨Ingestor.start ⟨peer, "", []⟩ channel, [], rfl, ?_⟩
      unfold onChannel
      rw [hingestor]
      exact Program.Safe.pure (.inl Scope.quiet_nil) trivial
  | some ingestor =>
      refine ⟨ingestor, [], (hengine channel ingestor hingestor).2, ?_⟩
      exact safe_onChannel hingestor (Program.Safe.mono (hstep ingestor) fun _ _ _ _ => trivial)

/-- The questions of a call in progress fit. -/
def Activity.Fits (peer : String) : Activity → Prop
  | .busy query next => (Program.ask query next).Fits peer
  | _ => True

theorem Activity.fits_ofCall {peer : String} {call : EngineCall} (h : call.Fits peer) :
    (Activity.ofCall call).Fits peer := by
  cases call with
  | done result => trivial
  | ask query next => exact h

/-! ### What a deployment keeps -/

namespace TableDeployment

variable {view : TableStore} {channel : String} {served : Ledger.Serving}
  {D : Discipline channel (·.peer = view.peer) served} {d : TableDeployment} {s : MemoryStore}

/-- A discipline holds of a deployment with a store in memory that the tables recall. -/
def Holds (D : Discipline channel (·.peer = view.peer) served) (d : TableDeployment) : Prop :=
  ∃ s, Tables.Recalls view s d.tables ∧ D.Holds ⟨d.ledger, s, d.activity⟩ ∧
    d.activity.Fits view.peer

theorem reply_eq (hown : view.indexNames.OwnBlocks) (h : Tables.Recalls view s d.tables)
    {ingestor : Ingestor} (hpeer : ingestor.agent.peer = view.peer) {q : Query}
    (hq : (Session.columns ingestor).May q) (cancelled : Bool) :
    let d' : Deployment := ⟨d.ledger, s, d.activity⟩
    (d.reply view cancelled q).1 = (d'.reply cancelled q).1 ∧
      (Session.columns ingestor).possible q (d'.reply cancelled q).1 ∧
      Tables.Recalls view (d'.reply cancelled q).2 (d.reply view cancelled q).2 := by
  cases q with
  | ledger q => exact ⟨rfl, trivial, h⟩
  | store q =>
      obtain ⟨hanswer, hafter⟩ := h.answer hown (Session.fits_of_may hpeer hq)
      exact ⟨hanswer, Session.possible_of_recorded h.recorded q, hafter⟩
  | cancelled => exact ⟨rfl, trivial, h⟩
  | report progress => exact ⟨rfl, trivial, h⟩

theorem Holds.begin (hD : D.Isolated) (h : Holds D d)
    {step : Ingestor → Program (Except IngestError Nat × Ingestor)} {other : String}
    (hkept : Discipline.Kept (·.peer = view.peer) served step)
    (hasking : Ingestor.Asking (· ≤ BlockHeader.greatestNumber) step) :
    Holds D (d.begin fun engine => engine.onChannel other step) := by
  obtain ⟨s, hrecalls, hholds, hfits⟩ := h
  unfold TableDeployment.begin
  split
  · rename_i engine hactivity
    rw [hactivity] at hholds
    have hproper : engine.Proper (·.peer = view.peer) := hholds.proper
    exact ⟨s, hrecalls, hholds.begin hD hkept,
      Activity.fits_ofCall (Engine.fits_onChannel hproper hasking)⟩
  · exact ⟨s, hrecalls, hholds, hfits⟩

theorem Holds.proceed (hown : view.indexNames.OwnBlocks)
    (hserved : ∀ q, served q (d.ledger.answer q)) (h : Holds D d) (cancelled : Bool) :
    Holds D (d.proceed view cancelled) := by
  obtain ⟨s, hrecalls, hholds, hfits⟩ := h
  unfold TableDeployment.proceed
  split
  · rename_i query next hactivity
    have hproceed := hholds.proceed hserved cancelled
    rw [hactivity] at hfits
    obtain ⟨ingestor, asked, hpeer, hsafe⟩ := hfits
    obtain ⟨answer, hanswer⟩ := Scope.exists_possible (Session.columns ingestor) query
    have hmay := (hsafe.2 answer _ ⟨hanswer, rfl⟩).start.may_last
    obtain ⟨heq, hpossible, hafter⟩ := reply_eq hown hrecalls hpeer hmay cancelled
    refine ⟨_, hafter, ?_, ?_⟩
    · rw [heq]
      simpa only [Deployment.proceed, hactivity] using hproceed
    · rw [heq]
      exact Activity.fits_ofCall ⟨ingestor, _, hpeer, hsafe.2 _ _ ⟨hpossible, rfl⟩⟩
  · exact ⟨s, hrecalls, hholds, hfits⟩

/-- **No action breaks a discipline over tables.** -/
theorem Holds.step (hown : view.indexNames.OwnBlocks) (hD : D.Isolated)
    (hrecovers : ∀ s, D.sound s → D.placed none s) (h : Holds D d) {action : Action}
    (hserved : ∀ q, served q (d.ledger.answer q))
    (hpeer : ∀ agent channels, action = .start agent channels → agent.peer = view.peer) :
    Holds D (d.step view action) := by
  cases action with
  | reconcile other => exact h.begin hD Discipline.kept_reconcile (Ingestor.asking_reconcile _)
  | poll other => exact h.begin hD Discipline.kept_poll (Ingestor.asking_poll _)
  | answer cancelled => exact h.proceed hown hserved cancelled
  | start agent channels =>
      obtain ⟨s, hrecalls, hholds, -⟩ := h
      refine ⟨s, hrecalls, ⟨?_, Engine.proper_start (hpeer agent channels rfl) channels⟩, trivial⟩
      rw [Engine.cursor?_start]
      exact hrecovers _ hholds.sound
  | kill =>
      obtain ⟨s, hrecalls, hholds, -⟩ := h
      exact ⟨s, hrecalls, hrecovers _ hholds.sound, trivial⟩
  | push other block => exact h
  | replace other number block => exact h
  | setUnavailable unavailable => exact h
  | limitPuts successful => exact h

theorem ledger_step (view : TableStore) (d : TableDeployment) (action : Action) :
    (d.step view action).ledger = action.serve d.ledger := by
  cases action with
  | reconcile other =>
      show (d.begin _).ledger = d.ledger
      unfold TableDeployment.begin
      split <;> rfl
  | poll other =>
      show (d.begin _).ledger = d.ledger
      unfold TableDeployment.begin
      split <;> rfl
  | answer cancelled =>
      show (d.proceed view cancelled).ledger = d.ledger
      unfold TableDeployment.proceed
      split <;> rfl
  | start agent channels => rfl
  | kill => rfl
  | push other block => rfl
  | replace other number block => rfl
  | setUnavailable unavailable => rfl
  | limitPuts successful => rfl

theorem ledger_run (view : TableStore) (d : TableDeployment) (actions : List Action) :
    (d.run view actions).ledger = actions.foldl Action.serve d.ledger := by
  induction actions generalizing d with
  | nil => rfl
  | cons action actions ih =>
      rw [run, List.foldl_cons, List.foldl_cons, ← ledger_step view]
      exact ih (d.step view action)

/-- **No sequence of actions does**, as long as the ledger answers within `served`. -/
theorem Holds.run (hown : view.indexNames.OwnBlocks) (hD : D.Isolated)
    (hrecovers : ∀ s, D.sound s → D.placed none s) {actions : List Action} (h : Holds D d)
    (hserved : ∀ before, before <+: actions →
      ∀ q, served q ((before.foldl Action.serve d.ledger).answer q))
    (hpeer : ∀ agent channels, .start agent channels ∈ actions → agent.peer = view.peer) :
    Holds D (d.run view actions) := by
  induction actions generalizing d with
  | nil => exact h
  | cons action actions ih =>
      have hstep : Holds D (d.step view action) := by
        refine h.step hown hD hrecovers (hserved [] (List.nil_prefix ..)) ?_
        rintro agent channels rfl
        exact hpeer agent channels List.mem_cons_self
      refine ih hstep (fun before hbefore => ?_) fun agent channels hmem =>
        hpeer agent channels (List.mem_cons_of_mem _ hmem)
      rw [ledger_step]
      exact hserved (action :: before) (List.cons_prefix_cons.mpr ⟨rfl, hbefore⟩)

end TableDeployment

/-! ### Beside a deployment over memory -/

/-- The question of a call in progress is plain. -/
def Activity.IsPlain (s : MemoryStore) : Activity → Prop
  | .busy (.store q) _ => q.IsPlain s
  | _ => True

instance (s : MemoryStore) : ∀ activity : Activity, Decidable (activity.IsPlain s)
  | .busy (.store q) _ => inferInstanceAs (Decidable (q.IsPlain s))
  | .stopped | .idle _ | .busy (.ledger _) _ | .busy .cancelled _ | .busy (.report _) _ =>
    .isTrue trivial

/-- All questions of a run are plain. -/
def Deployment.IsPlain : Deployment → List Action → Prop
  | _, [] => True
  | d, action :: actions => d.activity.IsPlain d.store ∧ IsPlain (d.step action) actions

instance Deployment.decidableIsPlain :
    ∀ (actions : List Action) (d : Deployment), Decidable (d.IsPlain actions)
  | [], _ => .isTrue trivial
  | action :: actions, d =>
    have := decidableIsPlain actions (d.step action)
    instDecidableAnd

namespace TableDeployment

/-- A deployment over tables that list what the store of one over memory holds. -/
structure Alike (view : TableStore) (d : Deployment) (d' : TableDeployment) : Prop where
  ledger : d'.ledger = d.ledger
  activity : d'.activity = d.activity
  lists : Tables.Lists view d.store d'.tables

variable {view : TableStore} {d : Deployment} {d' : TableDeployment}

theorem Alike.begin (h : Alike view d d') (call : Engine → EngineCall) :
    Alike view (d.begin call) (d'.begin call) := by
  unfold TableDeployment.begin Deployment.begin
  rw [h.activity]
  cases d.activity with
  | stopped => exact h
  | idle engine => exact ⟨h.ledger, rfl, h.lists⟩
  | busy query next => exact h

theorem Alike.proceed (h : Alike view d d') (hplain : d.activity.IsPlain d.store)
    (cancelled : Bool) : Alike view (d.proceed cancelled) (d'.proceed view cancelled) := by
  unfold TableDeployment.proceed Deployment.proceed
  rw [h.activity]
  cases hactivity : d.activity with
  | stopped => exact h
  | idle engine => exact h
  | busy query next =>
      rw [hactivity] at hplain
      have hreply : (d'.reply view cancelled query).1 = (d.reply cancelled query).1 ∧
          Tables.Lists view (d.reply cancelled query).2 (d'.reply view cancelled query).2 := by
        cases query with
        | ledger q => exact ⟨congrArg (MemoryLedger.answer · q) h.ledger, h.lists⟩
        | store q => exact h.lists.answer hplain
        | cancelled => exact ⟨rfl, h.lists⟩
        | report progress => exact ⟨rfl, h.lists⟩
      exact ⟨h.ledger, congrArg (fun answer => Activity.ofCall (next answer)) hreply.1, hreply.2⟩

theorem Alike.step (h : Alike view d d') (hplain : d.activity.IsPlain d.store) {action : Action}
    (hputs : ∀ n, action ≠ .limitPuts n) : Alike view (d.step action) (d'.step view action) := by
  cases action with
  | reconcile channel => exact h.begin _
  | poll channel => exact h.begin _
  | answer cancelled => exact h.proceed hplain cancelled
  | start agent channels => exact ⟨h.ledger, rfl, h.lists⟩
  | kill => exact ⟨h.ledger, rfl, h.lists⟩
  | push channel block => exact ⟨congrArg (·.push channel block) h.ledger, h.activity, h.lists⟩
  | replace channel number block =>
      exact ⟨congrArg (fun ledger => (ledger.replace channel number block).2) h.ledger, h.activity,
        h.lists⟩
  | setUnavailable unavailable =>
      exact ⟨congrArg (fun ledger => { ledger with unavailable := unavailable }) h.ledger,
        h.activity, h.lists⟩
  | limitPuts successful => exact absurd rfl (hputs successful)

theorem Alike.run {actions : List Action} (h : Alike view d d') (hplain : d.IsPlain actions)
    (hputs : ∀ n, .limitPuts n ∉ actions) : Alike view (d.run actions) (d'.run view actions) := by
  induction actions generalizing d d' with
  | nil => exact h
  | cons action actions ih =>
      refine ih (h.step hplain.1 ?_) hplain.2 fun n hn => hputs n (List.mem_cons_of_mem _ hn)
      rintro n rfl
      exact hputs n List.mem_cons_self

end TableDeployment

end LedgerIndex
