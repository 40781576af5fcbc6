import LedgerIndex.Ingest.Program

/-! # Notifications on their way

Notifications wait in a buffer until they are received.  One that finds the buffer full, or the
receiver gone, is lost; the sender never waits. -/

namespace LedgerIndex

/-- The notifications that wait to be received, oldest first, each with its channel. -/
structure Notices where
  capacity : Nat
  receiving : Bool
  waiting : List (String × Progress)
deriving DecidableEq, Repr

namespace Notices

/-- An empty buffer. -/
def ofCapacity (capacity : Nat) : Notices := ⟨capacity, true, []⟩

def send (notices : Notices) (channel : String) (progress : Progress) : Notices :=
  if notices.receiving ∧ notices.waiting.length < notices.capacity then
    { notices with waiting := notices.waiting ++ [(channel, progress)] }
  else notices

/-- Receives all notifications that wait. -/
def drain (notices : Notices) : List (String × Progress) × Notices :=
  (notices.waiting, { notices with waiting := [] })

def close (notices : Notices) : Notices :=
  { notices with receiving := false, waiting := [] }

end Notices

end LedgerIndex
