import LedgerIndex.Ingest.Error

/-! # Programs over a ledger and a store

What an agent does on a channel is a `Program`: it asks the ledger and the store one question after
the other, looks whether it has been told to stop, and reports its progress, each step depending on
the answers so far.  `Program.run` carries a program out against a world that answers; the same
program runs against memory, tables or services elsewhere, and its questions can be recorded. -/

namespace LedgerIndex

/-- A block that was ingested, with the counts of what was published for it. -/
structure IngestedBlock where
  number : Nat
  blockHash : String
  headerHash : Bytes
  transactions : Nat
  events : Nat
deriving DecidableEq, Repr

/-- A notification about a channel. -/
inductive Progress where
  | reconciled (start : Nat)
  | ingested (block : IngestedBlock)
  | halted (reason : String)
deriving DecidableEq, Repr

namespace Ingest

/-- A step that a program can take. -/
inductive Query where
  | ledger (q : Ledger.Query)
  | store (q : Store.Query)
  | cancelled
  | report (progress : Progress)
deriving Repr

abbrev Query.Answer : Query → Type
  | ledger q => q.Answer
  | store q => q.Answer
  | cancelled => Bool
  | report _ => Unit

/-- A computation that asks questions. -/
inductive Program (α : Type) : Type where
  | done (result : α)
  | ask (query : Query) (next : query.Answer → Program α)

namespace Program

variable {α β σ : Type}

/-- Goes on with the result of a program. -/
def andThen : Program α → (α → Program β) → Program β
  | done a, f => f a
  | ask q next, f => ask q fun answer => (next answer).andThen f

instance : Monad Program where
  pure := done
  bind := andThen

def query (q : Query) : Program q.Answer :=
  ask q done

/-- A world that answers questions. -/
abbrev World (σ : Type) : Type :=
  (q : Query) → σ → q.Answer × σ

def run (world : World σ) : Program α → σ → α × σ
  | done a, s => (a, s)
  | ask q next, s =>
    let (answer, s) := world q s
    (next answer).run world s

end Program

end Ingest

end LedgerIndex
