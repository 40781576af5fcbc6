import LedgerIndex.Proofs.Ingest.Announcements
import LedgerIndex.Proofs.Ingest.Delivery
import LedgerIndex.Proofs.Ingest.Deployment
import LedgerIndex.Proofs.Ingest.Watched
import LedgerIndex.Proofs.Ingest.Workers

/-! # Progress does not matter

A ledger and a store know nothing of the notifications about them.  `World.silent` answers for them
where there is nobody to report to, and `World.narrated` where there is a sender, while a receiver
and the workers of other channels do what they like with its buffer.  A program cannot tell the two
apart (`Program.matched_narrated`), and a session is such a world, with a buffer or without
(`Session.run_with_notices`).  So a worker does the same in both, and what arrives of its
notifications are those that tell of its work in order, some of them lost perhaps
(`Worker.progress_narrated`). -/

namespace LedgerIndex

open Ingest Announcements
open Notices (Move onChannel handed)

namespace Notices

/-- Nothing is handed in about this channel. -/
def Silent (channel : String) (moves : List Move) : Prop :=
  ∀ progress, .sent channel progress ∉ moves

variable {channel : String}

theorem onChannel_handed_append (channel : String) (moves moves' : List Move) :
    onChannel channel (handed (moves ++ moves'))
      = onChannel channel (handed moves) ++ onChannel channel (handed moves') := by
  rw [handed, List.filterMap_append, onChannel, List.filterMap_append]
  rfl

theorem Silent.onChannel_eq_nil {moves : List Move} (h : Silent channel moves) :
    onChannel channel (handed moves) = [] := by
  refine List.filterMap_eq_nil_iff.mpr fun notice hnotice => if_neg ?_
  obtain ⟨move, hmove, heq⟩ := List.mem_filterMap.mp hnotice
  rintro rfl
  cases move with
  | sent channel progress =>
      obtain rfl := Option.some.inj heq
      exact h progress hmove
  | received count => cases heq
  | shut => cases heq
  | dropped => cases heq

end Notices

namespace Ingest

/-- A state, how many questions were asked, and what happened to the buffer of notifications. -/
structure Narrated (σ : Type) where
  inner : σ
  asked : Nat := 0
  moves : List Move := []

/-- What a question about a channel hands to the sender. -/
def Query.moves (channel : String) : Query → List Move
  | report progress => [.sent channel progress]
  | _ => []

namespace Program

variable {α σ : Type}

/-- A ledger and a store, and nobody to report to. -/
def World.silent (world : World σ) : World σ
  | .ledger q, s => world (.ledger q) s
  | .store q, s => world (.store q) s
  | .cancelled, s => world .cancelled s
  | .report _, s => ((), s)

/-- The same ledger and store, and a sender.  What the receiver and the workers of other channels do
before the question with number `k` is `others k`. -/
def World.narrated (world : World σ) (channel : String) (others : Nat → List Move) :
    World (Narrated σ) := fun q r =>
  ((world.silent q r.inner).1,
    { inner := (world.silent q r.inner).2
      asked := r.asked + 1
      moves := r.moves ++ others r.asked ++ q.moves channel })

variable {channel : String} {others : Nat → List Move}

/-- **A program does not notice that its progress is reported.** -/
theorem matched_narrated (world : World σ) (p : Program α) {r : Narrated σ} {s : σ}
    (h : r.inner = s) :
    Matched (fun r s => r.inner = s) p (world.narrated channel others) r world.silent s := by
  subst h
  induction p generalizing r with
  | done a => exact ⟨rfl, rfl, rfl⟩
  | ask q next ih =>
      obtain ⟨hresult, htrace, hstates⟩ :=
        @ih (world.silent q r.inner).1 (world.narrated channel others q r).2
      exact ⟨hresult, congrArg _ htrace, hstates⟩

theorem onChannel_moves (channel : String) (q : Query) (answer : q.Answer) :
    onChannel channel (handed (q.moves channel)) = (report? ⟨q, answer⟩).toList := by
  cases q with
  | report progress => simp [Query.moves, handed, onChannel, Move.handed?, report?]
  | ledger q => rfl
  | store q => rfl
  | cancelled => rfl

/-- What is handed to the sender about a channel is what its program reports. -/
theorem handed_narrated (world : World σ) (hothers : ∀ k, Notices.Silent channel (others k))
    (p : Program α) (r : Narrated σ) :
    onChannel channel (handed (p.run (world.narrated channel others) r).2.moves)
      = onChannel channel (handed r.moves)
        ++ reports (p.trace (world.narrated channel others) r) := by
  induction p generalizing r with
  | done a => exact (List.append_nil _).symm
  | ask q next ih =>
      rw [run_ask next rfl, trace_ask next rfl, ih]
      show onChannel channel (handed (r.moves ++ others r.asked ++ q.moves channel)) ++ _ = _
      rw [Notices.onChannel_handed_append, Notices.onChannel_handed_append,
        (hothers r.asked).onChannel_eq_nil, List.append_nil,
        onChannel_moves channel q (world.narrated channel others q r).1, List.append_assoc,
        reports, reports, List.filterMap_cons]
      cases report? ⟨q, (world.narrated channel others q r).1⟩ <;> rfl

end Program

namespace Session

variable {α : Type}

/-- Two sessions that differ in their notices at most. -/
def UpToNotices (session quiet : Session) : Prop :=
  { session with notices := quiet.notices } = quiet

/-- **A program does not notice whether its session has notices.** -/
theorem matched_silent (p : Program α) {session quiet : Session} (h : UpToNotices session quiet) :
    Program.Matched UpToNotices p world session world.silent quiet := by
  rw [← h]
  generalize quiet.notices = notices
  clear h
  induction p generalizing session with
  | done a => exact ⟨rfl, rfl, rfl⟩
  | ask q next ih =>
      have hnext : Program.Matched UpToNotices (next (world q session).1) world (world q session).2
          world.silent { (world q session).2 with notices := notices } := ih _
      obtain ⟨hresult, htrace, hstates⟩ := hnext
      cases q with
      | ledger q => exact ⟨hresult, congrArg _ htrace, hstates⟩
      | store q => exact ⟨hresult, congrArg _ htrace, hstates⟩
      | cancelled => exact ⟨hresult, congrArg _ htrace, hstates⟩
      | report progress => exact ⟨hresult, congrArg _ htrace, hstates⟩

/-- A session without notices is a world without anyone to report to. -/
theorem run_without_notices (p : Program α) {session : Session} (h : session.notices = none) :
    session.run p = p.run world.silent session := by
  show p.run world session = _
  induction p generalizing session with
  | done a => rfl
  | ask q next ih =>
      cases q with
      | ledger q => exact ih _ h
      | store q => exact ih _ h
      | cancelled => exact ih _ h
      | report progress =>
          have hsame : (world (.report progress) session).2 = session := by
            show { session with notices := session.notices.map _ } = session
            rw [h, Option.map_none, ← h]
          rw [Program.run_ask next rfl, hsame]
          exact ih () h

/-- **Notices do not matter to a session**, and in the end they are what was reported. -/
theorem run_with_notices (p : Program α) (session : Session) (notices : Notices) :
    { session with notices := some notices }.run p =
      ((p.run world.silent session).1,
        { (p.run world.silent session).2 with
          notices := some ((reports (p.trace world.silent session)).foldl
            (fun notices progress => notices.send session.channel progress) notices) }) := by
  show p.run world { session with notices := some notices } = _
  induction p generalizing session notices with
  | done a => rfl
  | ask q next ih =>
      cases q with
      | ledger q => exact ih _ (world (.ledger q) session).2 notices
      | store q => exact ih _ (world (.store q) session).2 notices
      | cancelled => exact ih _ _ notices
      | report progress => exact ih _ session (notices.send session.channel progress)

end Session

end Ingest

namespace Worker

variable {σ τ : Type}

/-- The call of a worker at a moment, in a world. -/
def callWith (world : Program.World σ) (worker : Worker) (now : Nat) (s : σ) : WorkerCall :=
  { moment := now
    before := worker
    asked := worker.attempt.trace world s
    result := (worker.attempt.run world s).1.1
    after := (worker.attempt.run world s).1.2 }

theorem callIn_eq_callWith (worker : Worker) (now : Nat) (session : Session) :
    worker.callIn now session
      = worker.callWith Session.world now (session.on worker.ingestor.channel) :=
  rfl

/-- The calls of a worker at some moments, up to its end. -/
def calls (world : Program.World σ) (period : Nat) : List Nat → Worker → σ → List WorkerCall
  | [], _, _ => []
  | now :: moments, worker, s =>
    worker.callWith world now s ::
      match (worker.tick now period).run world s with
      | (some worker, s) => calls world period moments worker s
      | (none, _) => []

section

variable {world : Program.World σ} {world' : Program.World τ} {rel : σ → τ → Prop}
  (hmatched : ∀ {α : Type} (p : Program α) {s t}, rel s t → Program.Matched rel p world s world' t)

include hmatched

/-- In two worlds that a program cannot tell apart a worker makes the same call. -/
theorem callWith_matched (worker : Worker) (now : Nat) {s : σ} {t : τ} (h : rel s t) :
    worker.callWith world now s = worker.callWith world' now t := by
  have hattempt := hmatched worker.attempt h
  rw [callWith, callWith, hattempt.result, hattempt.trace]

theorem calls_matched (period : Nat) (moments : List Nat) {worker : Worker} {s : σ} {t : τ}
    (h : rel s t) :
    worker.calls world period moments s = worker.calls world' period moments t := by
  induction moments generalizing worker s t with
  | nil => rfl
  | cons now moments ih =>
      obtain ⟨hleft, -, hstates⟩ := hmatched (worker.tick now period) h
      rw [calls, calls, callWith_matched hmatched worker now h]
      generalize (worker.tick now period).run world s = ran at hleft hstates
      generalize (worker.tick now period).run world' t = ran' at hleft hstates
      obtain ⟨left, s'⟩ := ran
      obtain ⟨_, t'⟩ := ran'
      obtain rfl : left = _ := hleft
      cases left with
      | none => rfl
      | some next => exact congrArg _ (ih hstates)

end

/-- The call of a worker does not depend on the notices of the session. -/
theorem callIn_with_notices (worker : Worker) (now : Nat) (session : Session)
    (notices : Option Notices) :
    worker.callIn now { session with notices := notices } = worker.callIn now session := by
  rw [callIn_eq_callWith, callIn_eq_callWith]
  have hsilent : ∀ heard : Session, Session.UpToNotices heard session →
      worker.callWith Session.world now (heard.on worker.ingestor.channel)
        = worker.callWith Session.world.silent now (session.on worker.ingestor.channel) :=
    fun heard hsame => callWith_matched Session.matched_silent worker now
      (congrArg (Session.on · worker.ingestor.channel) hsame)
  exact (hsilent { session with notices := notices } rfl).trans (hsilent session rfl).symm

/-- **A worker in a session.**  With a buffer for its notifications a worker makes the same calls
and leaves the same as without one, in the same ledger and store.  What the buffer is sent is what
the worker reports, and this is `Told`. -/
theorem follow_with_notices (agent : Agent) (channel : String) (due period : Nat)
    (moments : List Nat) {session : Session} (h : session.notices = none) (notices : Notices) :
    let worker := start agent due channel
    let program := worker.follow period moments
    let heard := { session with notices := some notices }
    let said := reports (program.trace Session.world session)
    worker.calls Session.world period moments heard
        = worker.calls Session.world period moments session ∧
      heard.run program = ((session.run program).1,
        { (session.run program).2 with
          notices := some (said.foldl
            (fun notices progress => notices.send session.channel progress) notices) }) ∧
      Told agent channel (session.run program).1 said := by
  intro worker program heard said
  have hcalls : ∀ heard : Session, Session.UpToNotices heard session →
      worker.calls Session.world period moments heard
        = worker.calls Session.world.silent period moments session :=
    fun heard hsame => calls_matched Session.matched_silent period moments hsame
  have htrace : program.trace Session.world session = program.trace Session.world.silent session :=
    (Session.matched_silent program (rfl : Session.UpToNotices session session)).trace
  obtain ⟨said', ⟨hsaid, -⟩, htold⟩ :=
    heard_follow Session.world session agent channel due period moments
  refine ⟨(hcalls heard rfl).trans (hcalls session rfl).symm, ?_, ?_⟩
  · rw [Session.run_with_notices, ← htrace, ← Session.run_without_notices program h]
  · rw [show said = said' from hsaid]
    exact htold

open Notices.Delivery in
/-- **Progress reporting is ordered and does not matter.**  Whatever a ledger and a store answer,
and whatever the receiver and the workers of other channels do with the buffer of notifications,
meanwhile and `later`: the calls of a worker, what it leaves, what it asks and writes, and what
becomes of ledger and store are as if there were no sender.  What is handed to the sender about its
channel is `Told`, and every block is `Announced`.  What arrives are these notifications in order,
all of them if the receiver stays and the buffer is never full. -/
theorem progress_narrated (world : Program.World σ) (s : σ) (agent : Agent) (channel : String)
    (due period : Nat) (moments : List Nat) (others : Nat → List Move)
    (hothers : ∀ k, Notices.Silent channel (others k)) :
    let worker := start agent due channel
    let program := worker.follow period moments
    let told := world.narrated channel others
    let left := program.run told { inner := s }
    let trace := program.trace told { inner := s }
    let notices := onChannel channel (handed left.2.moves)
    (worker.calls told period moments { inner := s } = worker.calls world.silent period moments s ∧
      left.1 = (program.run world.silent s).1 ∧ trace = program.trace world.silent s ∧
      left.2.inner = (program.run world.silent s).2) ∧
    (notices = reports trace ∧ Told agent channel left.1 notices ∧
      ∀ before block rest, trace = before ++ ⟨.report (.ingested block), ()⟩ :: rest →
        Announced agent channel before block) ∧
    ∀ capacity later, Notices.Silent channel later →
      let arrived := onChannel channel (after capacity (left.2.moves ++ later)).through
      arrived.Sublist notices ∧ (Open (left.2.moves ++ later) →
        Roomy capacity (left.2.moves ++ later) → arrived = notices) := by
  intro worker program told left trace notices
  obtain ⟨hleft, htrace, hinner⟩ :=
    @Program.matched_narrated _ _ channel others world program { inner := s } s rfl
  have hnotices : notices = reports trace :=
    Program.handed_narrated world hothers program { inner := s }
  obtain ⟨said, ⟨hsaid, hannounced⟩, htold⟩ :=
    heard_follow told { inner := s } agent channel due period moments
  have hcalls : worker.calls told period moments { inner := s }
      = worker.calls world.silent period moments s :=
    calls_matched (Program.matched_narrated world) period moments rfl
  refine ⟨⟨hcalls, hleft, htrace, hinner⟩, ⟨hnotices, ?_, hannounced⟩,
    fun capacity later hlater => ?_⟩
  · rw [hnotices, hsaid]
    exact htold
  · have hsame : notices = onChannel channel (handed (left.2.moves ++ later)) := by
      rw [Notices.onChannel_handed_append, hlater.onChannel_eq_nil, List.append_nil]
    rw [hsame]
    refine ⟨(through_sublist capacity _).filterMap _, fun hopen hroomy => ?_⟩
    rw [through_eq hopen hroomy]

namespace Sample

/-- A channel with two blocks, and an empty store. -/
def world : Program.World Watched :=
  Watched.world { channels := [("c", [Deployment.Sample.first, Deployment.Sample.second])] }
    fun _ => false

/-- The worker of another channel takes the place of the first block in a buffer with one place. -/
def crowd : Nat → List Move
  | 2 => [.received 1, .sent "d" (.reconciled 7)]
  | 9 => [.received 1]
  | _ => []

end Sample

open Sample Notices.Delivery in
/-- Both blocks are ingested and announced.  With one place in the buffer the notification of the
first one is lost, and with a place for each of them all arrive. -/
theorem progress_narrated_crowd :
    let program := (start Deployment.Sample.agent 0 "c").follow 1000 [0, 1000]
    let left := program.run (world.narrated "c" crowd) { inner := { store := {} } }
    let notices := onChannel "c" (handed left.2.moves)
    let arrived := onChannel "c" (after 1 (left.2.moves ++ [.shut])).through
    (∀ k, Notices.Silent "c" (crowd k)) ∧
    left.1 = (program.run world.silent { store := {} }).1 ∧
    Told Deployment.Sample.agent "c" left.1 notices ∧ notices.length = 3 ∧
    arrived.Sublist notices ∧ arrived.length = 2 ∧
    onChannel "c" (after 4 (left.2.moves ++ [])).through = notices := by
  intro program left notices arrived
  have hcrowd : ∀ k, Notices.Silent "c" (crowd k) := by
    intro k progress
    unfold crowd
    split <;> simp
  obtain ⟨⟨-, hleft, -, -⟩, ⟨-, htold, -⟩, harrive⟩ := progress_narrated world { store := {} }
    Deployment.Sample.agent "c" 0 1000 [0, 1000] crowd hcrowd
  have hshut : Notices.Silent "c" [.shut] := fun progress => by simp
  have hall : arrived.length = 2 ∧ notices.length = 3 ∧ Open (left.2.moves ++ []) ∧
      (handed (left.2.moves ++ [])).length ≤ 4 := by decide +kernel
  obtain ⟨harrived, hnotices, hopen, hlength⟩ := hall
  exact ⟨hcrowd, hleft, htold, hnotices, (harrive 1 [.shut] hshut).1, harrived,
    (harrive 4 [] nofun).2 hopen (roomy_of_length_le hlength)⟩

end Worker

end LedgerIndex
