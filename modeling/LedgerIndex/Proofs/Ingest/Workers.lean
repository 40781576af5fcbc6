import LedgerIndex.Ingest.Daemon
import LedgerIndex.Proofs.Ingest.Questions

/-! # The deeds of a worker

On a tick a worker makes one call to its ingestor.  A `WorkerCall` is what can be seen of it: its
moment, the worker before it, every question with its answer, the result, and the ingestor that is
left.  A `Deed` of a worker is a call, or the end on a request to stop.  A list of deeds is a
`History` when each was done by the worker that the one before it left; its worker reconciles until
that succeeds and polls from then on, it makes every call from the cursor that the one before it
left, and it does nothing after a fatal error or after it took a request to stop
(`History.orderly`). -/

namespace LedgerIndex

open Ingest

namespace Ingest

/-- The question to the ledger, where it is one. -/
def ledgerQuestion? : Asked → Option Ledger.Query
  | ⟨.ledger q, _⟩ => some q
  | _ => none

namespace Session

variable {α : Type} (p : Program α) {session : Session}

theorem calls_run (session : Session) : (session.run p).2.calls
    = session.calls ++ (p.trace world session).filterMap ledgerQuestion? := by
  show (p.run world session).2.calls = _
  induction p generalizing session with
  | done a => exact (List.append_nil _).symm
  | ask q next ih =>
      rw [Program.run_ask next rfl, Program.trace_ask next rfl, ih]
      cases q with
      | ledger q => exact List.append_assoc ..
      | store q => rfl
      | cancelled => rfl
      | report progress => rfl

theorem stopped_world (q : Query) (h : session.stopped = true) :
    (world q session).2.stopped = true := by
  cases q with
  | ledger q =>
      show (session.stopped || session.setsStop q) = true
      rw [h, Bool.true_or]
  | store q => exact h
  | cancelled => exact h
  | report progress => exact h

theorem stopped_run (h : session.stopped = true) : (session.run p).2.stopped = true := by
  show (p.run world session).2.stopped = true
  induction p generalizing session with
  | done a => exact h
  | ask q next ih =>
      rw [Program.run_ask next rfl]
      exact ih _ (stopped_world q h)

theorem stopped_of_seen (h : ⟨.cancelled, true⟩ ∈ p.trace world session) :
    (session.run p).2.stopped = true := by
  show (p.run world session).2.stopped = true
  induction p generalizing session with
  | done a => exact absurd h List.not_mem_nil
  | ask q next ih =>
      rw [Program.trace_ask next rfl] at h
      rw [Program.run_ask next rfl]
      rcases List.mem_cons.mp h with hseen | hlater
      · cases q with
        | cancelled => exact stopped_run _ (eq_of_heq (Sigma.mk.inj hseen).2).symm
        | ledger q => cases hseen
        | store q => cases hseen
        | report progress => cases hseen
      · exact ih _ hlater

end Session

end Ingest

structure WorkerCall where
  moment : Nat
  before : Worker
  asked : List Asked
  result : Except IngestError Nat
  after : Ingestor

namespace WorkerCall

variable (call : WorkerCall)

def channel : String := call.before.ingestor.channel

def succeeded : Bool :=
  match call.result with
  | .ok _ => true
  | .error _ => false

/-- The call fails with an error that ends the worker. -/
def fatal : Bool :=
  match call.result with
  | .ok _ => false
  | .error e => e.isFatal

/-- The call is a step of the ingestor, in some session. -/
def IsOf (step : Ingestor → Program (Except IngestError Nat × Ingestor)) : Prop :=
  ∃ session : Session, call.asked = (step call.before.ingestor).trace Session.world session ∧
    (call.result, call.after) = (session.run (step call.before.ingestor)).1

/-- The worker that the call leaves. -/
def next (period : Nat) : Option Worker :=
  if call.fatal then none
  else some
    { ingestor := call.after
      reconciled := call.before.reconciled || call.succeeded
      due := call.before.dueAfter call.moment period }

variable {call} {period : Nat}

theorem next_eq_none : call.next period = none ↔ call.fatal = true := by
  unfold next
  split <;> simp_all

theorem next_eq_some {worker : Worker} (h : call.next period = some worker) :
    call.fatal = false ∧ worker.ingestor = call.after ∧
      worker.reconciled = (call.before.reconciled || call.succeeded) ∧
      worker.due = call.before.dueAfter call.moment period := by
  unfold next at h
  split at h
  · cases h
  · obtain rfl := Option.some.inj h
    exact ⟨by simpa using ‹¬call.fatal = true›, rfl, rfl, rfl⟩

end WorkerCall

namespace Worker

/-- The call of a worker at a moment, in a session. -/
def callIn (worker : Worker) (now : Nat) (session : Session) : WorkerCall :=
  let session := session.on worker.ingestor.channel
  { moment := now
    before := worker
    asked := worker.attempt.trace Session.world session
    result := (session.run worker.attempt).1.1
    after := (session.run worker.attempt).1.2 }

/-- A worker that polls has a cursor. -/
def Sound (worker : Worker) : Prop :=
  worker.reconciled = true → worker.ingestor.cursor ≠ none

variable (worker : Worker) (now period : Nat) (session : Session)

theorem run_tick : ((session.on worker.ingestor.channel).run (worker.tick now period)).1
    = (worker.callIn now session).next period := by
  rcases hran : worker.attempt.run Session.world (session.on worker.ingestor.channel) with
    ⟨⟨result, ingestor⟩, after⟩
  simp only [tick, callIn, Session.run, WorkerCall.next, WorkerCall.fatal, WorkerCall.succeeded,
    Program.run_bind, hran]
  cases result with
  | ok n => simp
  | error e =>
      by_cases hfatal : e.isFatal = true
      · simp [hfatal, Program.run_bind]
      · simp [hfatal]

theorem trace_tick (session : Session) : ∃ reports,
    (worker.tick now period).trace Session.world session
        = worker.attempt.trace Session.world session ++ reports ∧
      ∀ a ∈ reports, ledgerQuestion? a = none := by
  unfold tick
  rw [Program.trace_bind]
  refine ⟨_, rfl, ?_⟩
  generalize (worker.attempt.run Session.world session) = ran
  obtain ⟨⟨result, ingestor⟩, after⟩ := ran
  cases result with
  | ok n => exact fun a ha => absurd ha List.not_mem_nil
  | error e =>
      by_cases hfatal : e.isFatal = true
      · simp only [hfatal, if_true]
        intro a ha
        obtain rfl := List.mem_singleton.mp ha
        rfl
      · simp only [hfatal]
        exact fun a ha => absurd ha List.not_mem_nil

theorem calls_tick :
    ((session.on worker.ingestor.channel).run (worker.tick now period)).2.calls
      = session.calls ++ (worker.callIn now session).asked.filterMap ledgerQuestion? := by
  obtain ⟨reports, htrace, hreports⟩ :=
    trace_tick worker now period (session.on worker.ingestor.channel)
  rw [Session.calls_run, htrace, List.filterMap_append, List.filterMap_eq_nil_iff.mpr hreports,
    List.append_nil]
  rfl

theorem isOf_callIn : (worker.callIn now session).IsOf
    (if worker.reconciled then Ingestor.poll else Ingestor.reconcile) := by
  refine ⟨session.on worker.ingestor.channel, ?_, ?_⟩
  all_goals
    unfold callIn attempt
    split <;> rfl

end Worker

namespace WorkerCall

/-- What holds of every call of a worker that is sound. -/
structure Proper (call : WorkerCall) : Prop where
  fine : (Scope.anywhere call.before.ingestor.agent call.channel).Fine call.asked
  explained : Ingestor.Explained call.result
  after : ∃ cursor, call.after = { call.before.ingestor with cursor := cursor }
  cursor : (call.before.reconciled || call.succeeded) = true → call.after.cursor ≠ none

end WorkerCall

/-- **One call of a worker.** -/
theorem Worker.Sound.proper_callIn {worker : Worker} (h : worker.Sound) (now : Nat)
    (session : Session) :
    (worker.callIn now session).Proper := by
  have hkeeps : ∀ {step : Program (Except IngestError Nat × Ingestor)}
      {post : Except IngestError Nat × Ingestor → List Asked → Prop}, worker.attempt = step →
      Program.Safe (recording (worker.ingestor.scope fun _ => True).possible)
        (worker.ingestor.scope fun _ => True).Fine post step [] →
      (worker.ingestor.scope fun _ => True).Fine (worker.callIn now session).asked ∧
        post ((worker.callIn now session).result, (worker.callIn now session).after)
          (worker.callIn now session).asked := by
    rintro _ post rfl hsafe
    have hworld : ∀ q s, (worker.ingestor.scope fun _ => True).May q → True →
        (worker.ingestor.scope fun _ => True).possible q (Session.world q s).1 ∧ True :=
      fun q s _ _ => ⟨Scope.possible_anywhere .., trivial⟩
    exact (Program.Safe.keeps hworld (Scope.exists_possible _)
      (fun asked a hfine => hfine.may_last) hsafe (s := session.on worker.ingestor.channel)
      trivial).2
  cases hreconciled : worker.reconciled with
  | false =>
      have hattempt : worker.attempt = worker.ingestor.reconcile := by
        rw [attempt, hreconciled]
        rfl
      obtain ⟨hfine, hexplained, hafter, hok, -⟩ :=
        hkeeps hattempt (worker.ingestor.safe_reconcile_asks fun _ => True)
      refine ⟨hfine, hexplained, hafter, fun hflag => ?_⟩
      have hsucceeded : (worker.callIn now session).succeeded = true := by
        have hbefore : (worker.callIn now session).before.reconciled = false := hreconciled
        rwa [hbefore, Bool.false_or] at hflag
      unfold WorkerCall.succeeded at hsucceeded
      split at hsucceeded
      · exact hok _ ‹_›
      · cases hsucceeded
  | true =>
      have hattempt : worker.attempt = worker.ingestor.poll := by
        rw [attempt, hreconciled]
        rfl
      obtain ⟨hfine, hafter, hrest⟩ :=
        hkeeps hattempt (worker.ingestor.safe_poll_asks fun _ => True)
      exact ⟨hfine, (hrest (h hreconciled)).1, hafter, fun _ => (hrest (h hreconciled)).2⟩

def Ingest.Query.writes : Query → Bool
  | store (.putEvent _) => true
  | store (.putCheckpoint ..) => true
  | _ => false

def WorkerCall.Reads (asked : List Asked) : Prop :=
  ∀ a ∈ asked, a.1.writes = false

/-- Every answer is possible, but for a look that finds no request to stop. -/
def WorkerCall.stopping : Answering
  | .cancelled, seen => seen = true
  | _, _ => True

section

open WorkerCall

variable {asked : List Asked}

theorem WorkerCall.Reads.concat (h : Reads asked) {a : Asked} (ha : a.1.writes = false) :
    Reads (asked ++ [a]) := by
  intro b hb
  rcases List.mem_append.mp hb with hb | hb
  · exact h b hb
  · rwa [List.mem_singleton.mp hb]

theorem WorkerCall.keptByReading_reads :
    Ingestor.KeptByReading (recording stopping) Reads Reads where
  inv h := h
  ledger := by
    rintro q asked answer _ h ⟨-, rfl⟩
    exact h.concat rfl
  checkpoint := by
    rintro channel asked answer _ h ⟨-, rfl⟩
    exact h.concat rfl
  blockHash := by
    rintro channel number asked answer _ h ⟨-, rfl⟩
    exact h.concat rfl

/-- A reconciliation never writes, and a poll does not get to a block after a request to stop. -/
theorem Worker.safe_attempt_reads (worker : Worker) (h : Reads asked) :
    Program.Safe (recording stopping) Reads (fun _ _ => True) worker.attempt asked := by
  unfold attempt
  split
  · refine Ingestor.safe_poll_of_height h (fun _ => trivial) fun cursor _ => ?_
    refine Attempt.Safe.askLedger h ?_
    rintro answer _ ⟨-, rfl⟩
    have hnext := h.concat (a := ⟨.ledger (.tipHeight worker.ingestor.channel), answer⟩) rfl
    refine ⟨hnext, fun height _ => ?_, fun _ _ => trivial⟩
    refine Ingestor.safe_ingestUpTo (fun _ _ _ _ => True) (fun _ _ => trivial) ?_ ?_ hnext trivial
    · rintro _ _ _ asked _ h - ⟨-, rfl⟩
      exact ⟨h.concat rfl, trivial⟩
    · rintro _ _ _ asked _ _ - ⟨hseen, -⟩
      cases hseen
  · refine Ingestor.safe_reconcile_of_start (Attempt.Safe.mono
      (keptByReading_reads.safe_startCursor h) ?_ fun _ _ _ _ => trivial)
    rintro cursor asked h - answer _ ⟨-, rfl⟩
    exact ⟨h.concat rfl, trivial⟩

/-- **A call after a request to stop writes nothing.** -/
theorem Worker.reads_callIn (worker : Worker) (now : Nat) {session : Session}
    (h : session.stopped = true) : Reads (worker.callIn now session).asked := by
  have hnone : Reads [] := fun _ ha => absurd ha List.not_mem_nil
  have hworld : ∀ (q : Query) (session : Session), True → session.stopped = true →
      stopping q (Session.world q session).1 ∧ (Session.world q session).2.stopped = true := by
    intro q session _ hstopped
    refine ⟨?_, Session.stopped_world q hstopped⟩
    cases q with
    | cancelled => exact hstopped
    | ledger q => trivial
    | store q => trivial
    | report progress => trivial
  have hpossible : ∀ q, ∃ answer, stopping q answer := by
    intro q
    obtain ⟨hanswer, -⟩ := hworld q session trivial h
    exact ⟨_, hanswer⟩
  have hon : (session.on worker.ingestor.channel).stopped = true := h
  exact (Program.Safe.keeps hworld hpossible (fun _ _ _ => trivial)
    (worker.safe_attempt_reads hnone) hon).2.1

end

theorem Worker.callIn_diverges (worker : Worker) (now : Nat) (session session' : Session) :
    worker.callIn now session = worker.callIn now session' ∨
      Diverge (worker.callIn now session).asked (worker.callIn now session').asked := by
  rcases Program.trace_diverges Session.world Session.world worker.attempt
    (session.on worker.ingestor.channel) (session'.on worker.ingestor.channel) with
    ⟨hresult, htrace⟩ | hdiverge
  · left
    unfold callIn Session.run
    dsimp only
    rw [hresult, htrace]
  · exact .inr hdiverge

/-! ### Deeds -/

/-- What a worker does on a turn: it makes a call, or it takes the request to stop. -/
inductive Deed where
  | call (call : WorkerCall)
  | stop (worker : Worker)

namespace Deed

def worker : Deed → Worker
  | call made => made.before
  | stop worker => worker

def channel (deed : Deed) : String := deed.worker.ingestor.channel

def asked : Deed → List Asked
  | call made => made.asked
  | stop _ => []

/-- The deed is a call that succeeds. -/
def succeeded : Deed → Bool
  | call made => made.succeeded
  | stop _ => false

def ends : Deed → Bool
  | call made => made.fatal
  | stop _ => true

/-- The worker takes a request to stop, or a call of it sees one. -/
def SeesStop : Deed → Prop
  | call made => ⟨.cancelled, true⟩ ∈ made.asked
  | stop _ => True

/-- The worker that the deed leaves. -/
def next (period : Nat) : Deed → Option Worker
  | call made => made.next period
  | stop _ => none

variable {deed : Deed} {period : Nat}

theorem next_eq_none : deed.next period = none ↔ deed.ends = true := by
  cases deed with
  | call made => exact WorkerCall.next_eq_none
  | stop worker => exact ⟨fun _ => rfl, fun _ => rfl⟩

theorem next_eq_some {worker : Worker} (h : deed.next period = some worker) :
    ∃ made, deed = call made ∧ made.next period = some worker := by
  cases deed with
  | call made => exact ⟨made, rfl, h⟩
  | stop worker => cases h

end Deed

namespace Worker

/-- What a worker does at a moment, unless it is busy.  It makes a call if its tick has come, and
takes a request to stop if there is one; where both are there its stance decides. -/
def deed? (worker : Worker) (now : Nat) (stance : Stance) (session : Session) : Option Deed :=
  match stance with
  | .busy => none
  | .works =>
    if worker.due ≤ now then some (.call (worker.callIn now session))
    else if session.stopped then some (.stop worker) else none
  | .heeds =>
    if session.stopped then some (.stop worker)
    else if worker.due ≤ now then some (.call (worker.callIn now session)) else none

variable {worker : Worker} {now : Nat} {stance : Stance} {session : Session} {deed : Deed}

/-- **What a worker does is its turn.** -/
theorem deed?_eq (worker : Worker) (now : Nat) (stance : Stance) (session : Session) :
    worker.deed? now stance session = match stance.turn session.stopped worker.due now with
      | .work => some (.call (worker.callIn now session))
      | .stop => some (.stop worker)
      | .wait => none := by
  unfold deed? Stance.turn
  cases stance with
  | busy => rfl
  | works => by_cases hdue : worker.due ≤ now <;> cases session.stopped <;> simp [hdue]
  | heeds => by_cases hdue : worker.due ≤ now <;> cases session.stopped <;> simp [hdue]

/-- **One deed.**  A call is made on a tick that has come, and after a request to stop only by a
worker that lets the request wait. -/
theorem deed?_eq_some (h : worker.deed? now stance session = some deed) :
    (deed = .call (worker.callIn now session) ∧ worker.due ≤ now ∧
      (session.stopped = true → stance = .works)) ∨
    (deed = .stop worker ∧ session.stopped = true) := by
  unfold deed? at h
  cases stance with
  | busy => cases h
  | works =>
      dsimp only at h
      split at h
      · exact .inl ⟨(Option.some.inj h).symm, ‹_›, fun _ => rfl⟩
      · split at h
        · exact .inr ⟨(Option.some.inj h).symm, ‹_›⟩
        · cases h
  | heeds =>
      dsimp only at h
      split at h
      · exact .inr ⟨(Option.some.inj h).symm, ‹_›⟩
      · rename_i hrunning
        split at h
        · exact .inl ⟨(Option.some.inj h).symm, ‹_›, fun hstopped => absurd hstopped hrunning⟩
        · cases h

theorem worker_of_deed? (h : worker.deed? now stance session = some deed) :
    deed.worker = worker := by
  rcases deed?_eq_some h with ⟨rfl, -⟩ | ⟨rfl, -⟩ <;> rfl

theorem eq_callIn_of_deed? {call : WorkerCall}
    (h : worker.deed? now stance session = some (.call call)) :
    call = worker.callIn now session ∧ worker.due ≤ now ∧
      (session.stopped = true → stance = .works) := by
  rcases deed?_eq_some h with ⟨hcall, hturn⟩ | ⟨hcall, -⟩
  · exact ⟨Deed.call.inj hcall, hturn⟩
  · cases hcall

end Worker

/-! ### Histories -/

namespace Worker

/-- The worker that some deeds leave. -/
def resume (period : Nat) (worker? : Option Worker) (deeds : List Deed) : Option Worker :=
  deeds.foldl (fun _ deed => deed.next period) worker?

/-- Every deed is done by the worker that the one before it left. -/
def History (period : Nat) : Option Worker → List Deed → Prop
  | _, [] => True
  | worker?, deed :: deeds =>
    (∃ worker now stance session,
      worker? = some worker ∧ worker.deed? now stance session = some deed) ∧
      History period (deed.next period) deeds

variable {period : Nat} {worker? : Option Worker} {worker : Worker}
  {deeds earlier later : List Deed} {deed : Deed}

theorem resume_append : resume period worker? (earlier ++ later)
    = resume period (resume period worker? earlier) later := List.foldl_append

theorem History.eq_nil (h : History period none deeds) : deeds = [] := by
  cases deeds with
  | nil => rfl
  | cons deed deeds =>
      obtain ⟨⟨_, _, _, _, hnone, -⟩, -⟩ := h
      cases hnone

theorem History.append (h : History period worker? (earlier ++ later)) :
    History period (resume period worker? earlier) later := by
  induction earlier generalizing worker? with
  | nil => exact h
  | cons deed earlier ih => exact ih h.2

theorem History.of_append (h : History period worker? (earlier ++ later)) :
    History period worker? earlier := by
  induction earlier generalizing worker? with
  | nil => trivial
  | cons deed earlier ih => exact ⟨h.1, ih h.2⟩

theorem History.concat (h : History period worker? deeds)
    (hresume : resume period worker? deeds = some worker) (now : Nat) (stance : Stance)
    (session : Session) :
    History period worker? (deeds ++ (worker.deed? now stance session).toList) := by
  induction deeds generalizing worker? with
  | nil =>
      cases hdeed : worker.deed? now stance session with
      | none => trivial
      | some deed => exact ⟨⟨worker, now, stance, session, hresume, hdeed⟩, trivial⟩
  | cons deed deeds ih => exact ⟨h.1, ih h.2 hresume⟩

theorem History.eq_worker (h : History period worker? (deed :: later)) :
    worker? = some deed.worker := by
  obtain ⟨⟨worker, _, _, _, hworker, hdeed⟩, -⟩ := h
  rw [hworker, worker_of_deed? hdeed]

theorem History.worker_eq (h : History period worker? (earlier ++ deed :: later)) :
    resume period worker? earlier = some deed.worker :=
  h.append.eq_worker

theorem History.proper (h : History period worker? deeds)
    (hsound : ∀ worker, worker? = some worker → worker.Sound) :
    ∀ call, .call call ∈ deeds → call.Proper := by
  induction deeds generalizing worker? with
  | nil => exact fun _ hcall => absurd hcall List.not_mem_nil
  | cons deed deeds ih =>
      obtain ⟨⟨worker, now, stance, session, hworker, hdeed⟩, hrest⟩ := h
      have hhead : ∀ call, deed = .call call → call.Proper := by
        rintro call rfl
        rw [(eq_callIn_of_deed? hdeed).1]
        exact (hsound worker hworker).proper_callIn now session
      intro call hcall
      rcases List.mem_cons.mp hcall with hcall | hcall
      · exact hhead call hcall.symm
      · refine ih hrest (fun left hleft hreconciled => ?_) call hcall
        obtain ⟨made, hmade, hnext⟩ := Deed.next_eq_some hleft
        obtain ⟨-, hingestor, hflag, -⟩ := WorkerCall.next_eq_some hnext
        rw [hingestor]
        exact (hhead made hmade).cursor (hflag ▸ hreconciled)

/-- **The worker that a history leaves.**  It has reconciled when a call has succeeded. -/
theorem History.resume_eq_some (h : History period (some worker) deeds) (hsound : worker.Sound)
    {left : Worker} (hresume : resume period (some worker) deeds = some left) :
    (∃ cursor, left.ingestor = { worker.ingestor with cursor := cursor }) ∧
      left.reconciled = (worker.reconciled || deeds.any (·.succeeded)) := by
  induction deeds generalizing worker with
  | nil =>
      obtain rfl := Option.some.inj hresume
      exact ⟨⟨_, rfl⟩, (Bool.or_false _).symm⟩
  | cons deed deeds ih =>
      have hproper := h.proper (by rintro _ ⟨⟩; exact hsound)
      have hbefore := h.eq_worker
      obtain ⟨-, hrest⟩ := h
      have hgoes : resume period (deed.next period) deeds = some left := hresume
      cases hnext : deed.next period with
      | none =>
          rw [hnext] at hrest hgoes
          rw [hrest.eq_nil] at hgoes
          cases hgoes
      | some middle =>
          rw [hnext] at hrest hgoes
          obtain ⟨call, rfl, hnext⟩ := Deed.next_eq_some hnext
          obtain ⟨-, hingestor, hflag, -⟩ := WorkerCall.next_eq_some hnext
          have hproper := hproper call List.mem_cons_self
          obtain ⟨cursor, hafter⟩ := hproper.after
          obtain rfl : worker = call.before := Option.some.inj hbefore
          obtain ⟨⟨cursor', hleft⟩, hleftflag⟩ := ih hrest
            (fun hreconciled => hingestor ▸ hproper.cursor (hflag ▸ hreconciled)) hgoes
          refine ⟨⟨cursor', ?_⟩, ?_⟩
          · rw [hleft, hingestor, hafter]
          · rw [hleftflag, hflag, List.any_cons, Bool.or_assoc]
            rfl

theorem History.resume_eq_none (h : History period (some worker) deeds) :
    resume period (some worker) deeds = none ↔ ∃ deed ∈ deeds, deed.ends = true := by
  induction deeds generalizing worker with
  | nil => simp [resume]
  | cons deed deeds ih =>
      obtain ⟨-, hrest⟩ := h
      show resume period (deed.next period) deeds = none ↔ _
      rw [List.exists_mem_cons_iff, ← (Deed.next_eq_none : deed.next period = none ↔ _)]
      cases hnext : deed.next period with
      | none =>
          rw [hnext] at hrest
          simp [hrest.eq_nil, resume]
      | some middle =>
          rw [hnext] at hrest
          simp [ih hrest]

/-! ### The protocol of a worker -/

/-- What the deeds of the worker of a channel keep to, where its first tick is due at `began`. -/
structure Orderly (agent : Agent) (channel : String) (period began : Nat)
    (deeds : List Deed) : Prop where
  /-- The first deed is that of a new worker. -/
  first : ∀ deed later, deeds = deed :: later → deed.worker = start agent began channel
  /-- The calls are reconciliations until one succeeds, and polls from then on. -/
  kind : ∀ earlier call later, deeds = earlier ++ .call call :: later →
    call.IsOf (if earlier.any (·.succeeded) then Ingestor.poll else Ingestor.reconcile)
  /-- No call is made before its tick is due. -/
  due : ∀ call, .call call ∈ deeds → call.before.due ≤ call.moment
  /-- What follows on a call goes on from the cursor that the call left; its tick is due a period
  after that of the call, or after the call itself where that came late. -/
  next : ∀ earlier call deed later, deeds = earlier ++ .call call :: deed :: later →
    deed.worker.ingestor = call.after ∧
      (call.moment ≤ call.before.due + tolerance →
        deed.worker.due = call.before.due + period) ∧
      (call.before.due + tolerance < call.moment → deed.worker.due = call.moment + period)
  /-- Nothing follows on a fatal error, or on a request to stop that the worker took. -/
  last : ∀ earlier deed later, deeds = earlier ++ deed :: later → deed.ends = true → later = []
  /-- No call misses a reconciliation. -/
  reconciled : ∀ call, .call call ∈ deeds → ∀ channel,
    call.result ≠ .error (.notReconciled channel)
  /-- The calls ask about their channel only. -/
  own : ∀ deed ∈ deeds, ∀ a ∈ deed.asked, (Scope.anywhere agent channel).May a.1
  /-- A call asks nothing after it saw a request to stop. -/
  stop : ∀ deed ∈ deeds, ∀ before after,
    deed.asked = before ++ ⟨.cancelled, true⟩ :: after → after = []

theorem sound_start (agent : Agent) (began : Nat) (channel : String) :
    (start agent began channel).Sound := fun h => Bool.noConfusion h

/-- **The history of a new worker keeps to the protocol.** -/
theorem History.orderly {agent : Agent} {channel : String} {began : Nat}
    (h : History period (some (start agent began channel)) deeds) :
    Orderly agent channel period began deeds := by
  have hsound := sound_start agent began channel
  have hproper := h.proper (by rintro _ ⟨⟩; exact hsound)
  have hbefore : ∀ {earlier deed later}, deeds = earlier ++ deed :: later →
      (∃ cursor, deed.worker.ingestor = ⟨agent, channel, cursor⟩) ∧
        deed.worker.reconciled = earlier.any (·.succeeded) := by
    rintro earlier deed later rfl
    exact h.of_append.resume_eq_some hsound h.worker_eq
  have hturn : ∀ {earlier call later}, deeds = earlier ++ .call call :: later →
      ∃ now session, call = call.before.callIn now session ∧ call.before.due ≤ now := by
    rintro earlier call later rfl
    obtain ⟨⟨worker, now, stance, session, -, hdeed⟩, -⟩ := h.append
    have hworker : call.before = worker := worker_of_deed? hdeed
    obtain ⟨hcall, hdue, -⟩ := eq_callIn_of_deed? hdeed
    rw [hworker]
    exact ⟨now, session, hcall, hdue⟩
  refine ⟨?_, ?_, ?_, ?_, ?_, ?_, ?_, ?_⟩
  · rintro deed later rfl
    exact (Option.some.inj h.eq_worker).symm
  · intro earlier call later hsplit
    obtain ⟨now, session, hcall, -⟩ := hturn hsplit
    have hflag : call.before.reconciled = _ := (hbefore hsplit).2
    rw [← hflag, hcall]
    exact isOf_callIn _ now session
  · intro call hcall
    obtain ⟨earlier, later, hsplit⟩ := List.append_of_mem hcall
    obtain ⟨now, session, hcall, hdue⟩ := hturn hsplit
    rw [hcall]
    exact hdue
  · rintro earlier call deed later rfl
    obtain ⟨-, hrest⟩ := h.append
    obtain ⟨⟨worker, _, _, _, hnext, hdeed⟩, -⟩ := hrest
    obtain ⟨-, hingestor, -, hdue⟩ := WorkerCall.next_eq_some hnext
    rw [worker_of_deed? hdeed, hdue, dueAfter]
    refine ⟨hingestor, fun hintime => by rw [if_pos hintime], fun hlate => ?_⟩
    rw [if_neg (Nat.not_le.mpr hlate)]
  · rintro earlier deed later rfl hends
    obtain ⟨-, hrest⟩ := h.append
    rw [Deed.next_eq_none.mpr hends] at hrest
    exact hrest.eq_nil
  · intro call hcall c hresult
    exact (hproper call hcall).explained _ hresult c rfl
  · intro deed hdeed a ha
    obtain ⟨earlier, later, hsplit⟩ := List.append_of_mem hdeed
    obtain ⟨cursor, hingestor⟩ := (hbefore hsplit).1
    cases deed with
    | stop worker => exact absurd ha List.not_mem_nil
    | call call =>
        have hmay := (hproper call hdeed).fine.may a ha
        unfold WorkerCall.channel at hmay
        rw [show call.before.ingestor = _ from hingestor] at hmay
        exact hmay
  · intro deed hdeed before after hasked
    cases deed with
    | stop worker => exact absurd hasked.symm (List.append_ne_nil_of_right_ne_nil _ (by simp))
    | call call => exact (hproper call hdeed).fine.eq_nil_of_stop hasked

end Worker

end LedgerIndex
