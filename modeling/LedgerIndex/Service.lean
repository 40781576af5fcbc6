import LedgerIndex.Time.Span

/-! # Services that are asked to finish

A service runs until it is asked to stop or has nothing left to do.  Its owner asks, and waits for a
limited time.  The clock is virtual: it moves only while somebody waits.  A task of the service that
waits for the request finishes the service some time after it was made. -/

namespace LedgerIndex

/-- The service did not finish in time. -/
structure ShutdownTimeout where
  limit : Span
deriving DecidableEq, Repr

def ShutdownTimeout.message (e : ShutdownTimeout) : String :=
  "service did not finish within " ++ e.limit.text ++ " of the shutdown request"

/-- A service under a clock in milliseconds.  A task that has not begun yet is a delay; one that has
begun is the moment at which it finishes the service. -/
structure Service where
  now : Nat := 0
  shutdownRequested : Bool := false
  finished : Bool := false
  waiting : List Nat := []
  deadlines : List Nat := []
deriving DecidableEq, Repr

namespace Service

def shutdown (s : Service) : Service :=
  { s with shutdownRequested := true }

/-- Reports that the service has ended. -/
def finish (s : Service) : Service :=
  { s with finished := true }

/-- Adds a task that finishes the service a number of milliseconds after the request. -/
def finishAfter (s : Service) (delay : Nat) : Service :=
  { s with waiting := s.waiting ++ [delay] }

/-- Begins the tasks, which all see the request. -/
def beginTasks (s : Service) : Service :=
  { s with waiting := [], deadlines := s.deadlines ++ s.waiting.map (s.now + ·) }

/-- Asks the service to stop and waits for its end, at most a number of milliseconds. -/
def shutdownAndWait (s : Service) (limit : Nat) : Except ShutdownTimeout Unit × Service :=
  let s := s.shutdown
  if s.finished then (.ok (), s)
  else if limit = 0 then (.error ⟨Span.ofMillis 0⟩, s)
  else
    let s := s.beginTasks
    match s.deadlines.min? with
    | some deadline =>
      if deadline < s.now + limit then
        (.ok (), { s with now := max s.now deadline, finished := true })
      else (.error ⟨Span.ofMillis limit⟩, { s with now := s.now + limit })
    | none => (.error ⟨Span.ofMillis limit⟩, { s with now := s.now + limit })

end Service

end LedgerIndex
