import LedgerIndex.Block.Record
import LedgerIndex.Ledger.Basic
import LedgerIndex.Store.Basic

/-! # What can go wrong on a channel

An error is fatal when no later attempt can succeed without an operator: the stored history and the
ledger do not belong together, or the ledger serves what cannot be recorded. -/

namespace LedgerIndex

/-- Why a step on a channel fails. -/
inductive IngestError where
  | ledger (channel : String) (source : LedgerError)
  | decode (channel : String) (number : Nat) (source : DecodeError)
  | store (channel : String) (source : StoreError)
  | chainDivergence (channel : String) (number : Nat) (storedHash ledgerHash : String)
  | brokenHashChain (channel : String) (number : Nat) (expected actual : String)
  | missingBlockDocument (channel : String) (number : Nat)
  | checkpointNotOnLedger (channel : String) (number : Nat)
  | blockNumberOverflow (number : Nat)
  | notReconciled (channel : String)
  | unknownChannel (channel : String)
deriving DecidableEq, Repr

namespace IngestError

/-- The errors that end the work on a channel. -/
def isFatal : IngestError → Bool
  | chainDivergence .. | brokenHashChain .. | missingBlockDocument .. | checkpointNotOnLedger ..
  | blockNumberOverflow _ | unknownChannel _ => true
  | ledger .. | decode .. | store .. | notReconciled _ => false

/-- The error of a ledger question that a channel asked. -/
def ofLedger (channel : String) : LedgerError → IngestError
  | .unknownChannel c => .unknownChannel c
  | source => .ledger channel source

/-- The number of a block as texts show it. -/
def blockText (number : Nat) : String :=
  "#" ++ Decimal.text number

/-- The text of an error, where its source has one. -/
def message? : IngestError → Option String
  | ledger channel source => source.message?.map fun text =>
    "ledger request failed on channel `" ++ channel ++ "`: " ++ text
  | decode channel number source => source.message?.map fun text =>
    "failed to decode block " ++ blockText number ++ " on channel `" ++ channel ++ "`: " ++ text
  | store channel source => source.message?.map fun text =>
    "index store request failed on channel `" ++ channel ++ "`: " ++ text
  | chainDivergence channel number storedHash ledgerHash =>
    some ("chain divergence on channel `" ++ channel ++ "` at block " ++ blockText number
      ++ ": stored hash " ++ storedHash ++ ", ledger hash " ++ ledgerHash)
  | brokenHashChain channel number expected actual =>
    some ("broken hash chain on channel `" ++ channel ++ "` at block " ++ blockText number
      ++ ": expected previous hash " ++ expected ++ ", ledger reports " ++ actual)
  | missingBlockDocument channel number =>
    some ("checkpoint of channel `" ++ channel ++ "` is block " ++ blockText number
      ++ " but no block document was found")
  | checkpointNotOnLedger channel number =>
    some ("checkpoint of channel `" ++ channel ++ "` is block " ++ blockText number
      ++ " but the ledger has no such block")
  | blockNumberOverflow number => some (BlockNumberOverflow.message ⟨number⟩)
  | notReconciled channel => some ("channel `" ++ channel ++ "` must be reconciled before polling")
  | unknownChannel channel => some ("channel `" ++ channel ++ "` is not managed by this engine")

end IngestError

end LedgerIndex
