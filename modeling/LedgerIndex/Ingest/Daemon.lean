import LedgerIndex.Ingest.Engine
import LedgerIndex.Ingest.Site
import LedgerIndex.Retry
import LedgerIndex.Service

/-! # Following channels on a timer

A daemon follows every monitored channel with a worker of its own.  On each tick of its timer a
worker reconciles its channel, until that has succeeded once, and from then on polls it; a fatal
error ends the worker, any other is retried on the next tick.  The daemon asks the ledger for the
channels when none are configured, and finishes when all its workers have ended or when it is asked
to stop before it has any.

Whoever waits for work waits for a request to stop as well, and where both are there nothing in the
program decides which of them is taken: that is left to a `Stance`.  Time is a virtual clock in
milliseconds. -/

namespace LedgerIndex

open Ingest

/-- How someone who waits for work and for a request to stop comes to a moment: still busy with the
work before, or free, and then with the work or the request first where both are there. -/
inductive Stance where
  | busy
  | works
  | heeds
deriving DecidableEq, Repr

/-- What someone does at a moment. -/
inductive Turn where
  | wait
  | work
  | stop
deriving DecidableEq, Repr

/-- What is done at a moment by someone whose work is due. -/
def Stance.turn (stance : Stance) (stopped : Bool) (due now : Nat) : Turn :=
  match stance with
  | .busy => .wait
  | .works => if due ≤ now then .work else if stopped then .stop else .wait
  | .heeds => if stopped then .stop else if due ≤ now then .work else .wait

/-- The worker of a channel, and the moment of its next tick. -/
structure Worker where
  ingestor : Ingestor
  reconciled : Bool
  due : Nat
deriving DecidableEq, Repr

namespace Worker

/-- The worker of a channel before its first tick. -/
def start (agent : Agent) (now : Nat) (channel : String) : Worker :=
  ⟨Ingestor.start agent channel, false, now⟩

/-- The step that a worker takes on a tick. -/
def attempt (worker : Worker) : Program (Except IngestError Nat × Ingestor) :=
  if worker.reconciled then worker.ingestor.poll else worker.ingestor.reconcile

/-- How late a tick comes that still counts as one in time. -/
def tolerance : Nat := 5

/-- The moment of the tick that follows on one: a period after that one was due, or after the moment
at which it came where it came late. -/
def dueAfter (worker : Worker) (now period : Nat) : Nat :=
  (if now ≤ worker.due + tolerance then worker.due else now) + period

/-- One tick; a worker that ends leaves none. -/
def tick (worker : Worker) (now period : Nat) : Program (Option Worker) := do
  let (result, ingestor) ← worker.attempt
  let next : Worker :=
    { worker with ingestor := ingestor, due := worker.dueAfter now period }
  match result with
  | .ok _ => return some { next with reconciled := true }
  | .error e =>
    if e.isFatal then
      Program.query (.report (.halted (e.message?.getD "")))
      return none
    else return some next

/-- The turn of a worker: a tick in the session of its channel, the end, or nothing. -/
def turnIn (worker : Worker) (now period : Nat) (stance : Stance) (session : Session) :
    Option Worker × Session :=
  match stance.turn session.stopped worker.due now with
  | .work => (session.on worker.ingestor.channel).run (worker.tick now period)
  | .stop => (none, session)
  | .wait => (some worker, session)

end Worker

inductive Daemon.Phase where
  | starting
  | listing (attempt : Nat) (due : Nat)
  | working (workers : List Worker)
  | finished
deriving DecidableEq, Repr

/-- A daemon under a virtual clock. -/
structure Daemon where
  agent : Agent
  configured : List String
  period : Nat
  phase : Daemon.Phase
  now : Nat
  session : Session

namespace Daemon

/-- How a daemon and the workers of its channels come to a moment. -/
structure Stances where
  daemon : Stance
  worker : String → Stance

/-- Everyone is free, and a request to stop goes first. -/
def Stances.heeding : Stances :=
  ⟨.heeds, fun _ => .heeds⟩

/-- The period of a daemon that is given none. -/
def defaultPeriod : Span := Span.ofSeconds 1

/-- How often the channels are asked for. -/
def listingPolicy : RetryPolicy := ⟨5, Span.ofSeconds 2⟩

/-- The text of the error of a daemon without a positive period. -/
def zeroPeriodMessage : String := "`period` must be positive"

/-- A daemon at the beginning of its clock. -/
def start? (agent : Agent) (configured : List String) (period : Span) (site : Site)
    (notices : Option Notices) : Option Daemon :=
  if period.nanos = 0 then none
  else some
    { agent := agent
      configured := configured
      period := period.millis
      phase := .starting
      now := 0
      session := { site := site, channel := "", notices := notices } }

def isFinished (daemon : Daemon) : Bool :=
  match daemon.phase with
  | .finished => true
  | _ => false

def shutdownRequested (daemon : Daemon) : Bool := daemon.session.stopped

/-- Begins to follow channels; a channel named twice has one worker. -/
def follow (daemon : Daemon) (channels : List String) : Daemon :=
  { daemon with
    phase := .working ((Engine.start daemon.agent channels).channels.map
      (Worker.start daemon.agent daemon.now)) }

/-- Asks the ledger for the channels; `attempt` counts from one. -/
def list (daemon : Daemon) (attempt : Nat) : Daemon :=
  let (answer, session) := daemon.session.run (Program.query (.ledger .channels))
  let daemon := { daemon with session := session }
  match listingPolicy.after attempt answer with
  | .finish (.ok channels) => daemon.follow channels
  | .finish (.error _) => { daemon with phase := .finished }
  | .retryAfter delay => { daemon with phase := .listing (attempt + 1) (daemon.now + delay.millis) }

def runWorkers (now period : Nat) (stances : String → Stance) :
    List Worker → Session → List Worker × Session
  | [], session => ([], session)
  | worker :: rest, session =>
    let (next, session) := worker.turnIn now period (stances worker.ingestor.channel) session
    let (others, session) := runWorkers now period stances rest session
    (next.toList ++ others, session)

def beginWork (daemon : Daemon) : Daemon :=
  match daemon.phase with
  | .starting =>
    if daemon.configured = [] then { daemon with phase := .listing 1 daemon.now }
    else daemon.follow daemon.configured
  | _ => daemon

/-- Asks for the channels if that is due. -/
def listIfDue (daemon : Daemon) : Daemon :=
  match daemon.phase with
  | .listing attempt due => if due ≤ daemon.now then daemon.list attempt else daemon
  | _ => daemon

/-- What the daemon does itself, as long as it has no workers. -/
def turn (stance : Stance) (daemon : Daemon) : Turn :=
  match daemon.phase with
  | .starting => stance.turn daemon.shutdownRequested daemon.now daemon.now
  | .listing _ due => stance.turn daemon.shutdownRequested due daemon.now
  | _ => .work

/-- The turn of the daemon itself. -/
def ready (stance : Stance) (daemon : Daemon) : Daemon :=
  match daemon.turn stance with
  | .work => daemon.beginWork.listIfDue
  | .stop => { daemon with phase := .finished }
  | .wait => daemon

/-- Gives the workers their turns; without workers the daemon has finished. -/
def work (stances : String → Stance) (daemon : Daemon) : Daemon :=
  match daemon.phase with
  | .working workers =>
    let (workers, session) :=
      runWorkers daemon.now daemon.period stances workers daemon.session
    { daemon with
      phase := if workers = [] then .finished else .working workers
      session := session }
  | _ => daemon

def settleBy (stances : Stances) (daemon : Daemon) : Daemon :=
  (daemon.ready stances.daemon).work stances.worker

/-- Runs all work that is ready at this moment. -/
def settle (daemon : Daemon) : Daemon :=
  daemon.settleBy .heeding

def nextDue? (daemon : Daemon) : Option Nat :=
  match daemon.phase with
  | .starting => some daemon.now
  | .listing _ due => some due
  | .working workers => (workers.map (·.due)).min?
  | .finished => none

/-- Moves the clock to a moment, running the work on the way, in at most `fuel` steps. -/
def advanceTo (target : Nat) : Nat → Daemon → Daemon
  | 0, daemon => { daemon with now := target }
  | fuel + 1, daemon =>
    match daemon.nextDue? with
    | some due =>
      if due ≤ target then
        advanceTo target fuel ({ daemon with now := max daemon.now due }).settle
      else { daemon with now := target }
    | none => { daemon with now := target }

/-- Moves the clock by a number of milliseconds, running the work on the way. -/
def advance (daemon : Daemon) (millis : Nat) : Daemon :=
  advanceTo (daemon.now + millis) (millis + 2) daemon

def shutdown (daemon : Daemon) : Daemon :=
  { daemon with session := { daemon.session with stopped := true } }

/-- Asks the daemon to stop and waits for its end, at most a number of milliseconds. -/
def shutdownAndWait (daemon : Daemon) (limit : Nat) : Except ShutdownTimeout Unit × Daemon :=
  let daemon := daemon.shutdown
  if daemon.isFinished then (.ok (), daemon)
  else if limit = 0 then (.error ⟨Span.ofMillis 0⟩, daemon)
  else (.ok (), daemon.settle)

end Daemon

end LedgerIndex
