import LedgerIndex.Time.Span

/-! # Retrying

An operation that fails is tried again after a delay that grows with the number of attempts, until
it succeeds or the attempts are used up.  `RetryPolicy.after` says what follows on one attempt;
`RetryPolicy.run` is the whole course against an operation whose outcomes are given. -/

namespace LedgerIndex

/-- How often an operation is tried, and the delay after its first failure. -/
structure RetryPolicy where
  maxAttempts : Nat
  baseDelay : Span
deriving DecidableEq, Repr

inductive RetryStep (ε α : Type) where
  | finish (result : Except ε α)
  | retryAfter (delay : Span)

/-- What can be seen of a course of attempts. -/
inductive RetryEvent where
  | attempt
  | sleep (delay : Span)
deriving DecidableEq, Repr

namespace RetryPolicy

variable {ε α : Type}

/-- The delay after an attempt that failed. -/
def delay (policy : RetryPolicy) (attempt : Nat) : Span :=
  ⟨policy.baseDelay.nanos * attempt⟩

/-- What follows on the attempt with the given number, counted from one. -/
def after (policy : RetryPolicy) (attempt : Nat) : Except ε α → RetryStep ε α
  | .ok value => .finish (.ok value)
  | .error e =>
    if policy.maxAttempts ≤ attempt then .finish (.error e) else .retryAfter (policy.delay attempt)

/-- The course from an attempt on, with at most `fuel` further ones. -/
def runFrom (policy : RetryPolicy) (outcome : Nat → Except ε α) :
    Nat → Nat → Except ε α × List RetryEvent
  | 0, attempt => (outcome attempt, [.attempt])
  | fuel + 1, attempt =>
    match policy.after attempt (outcome attempt) with
    | .finish result => (result, [.attempt])
    | .retryAfter delay =>
      let (result, events) := runFrom policy outcome fuel (attempt + 1)
      (result, .attempt :: .sleep delay :: events)

/-- The result and the course of an operation whose outcome at every attempt is given. -/
def run (policy : RetryPolicy) (outcome : Nat → Except ε α) : Except ε α × List RetryEvent :=
  policy.runFrom outcome policy.maxAttempts 1

end RetryPolicy

end LedgerIndex
