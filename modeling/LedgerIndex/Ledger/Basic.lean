import LedgerIndex.Bytes
import LedgerIndex.Decimal.Basic

/-! # Questions to a ledger

A ledger answers three questions: which channels it has, how many blocks a channel has, and what
the bytes of a block are.  `Ledger.Query` lists them with the type of their answers. -/

namespace LedgerIndex

inductive LedgerError where
  | unknownChannel (channel : String)
  | blockNotFound (channel : String) (number : Nat)
  | status (code : Nat) (body : String)
  | invalidBaseUrl (url : String)
  | request
deriving DecidableEq, Repr

namespace LedgerError

/-- The text of an error; a request that did not come through has none of its own. -/
def message? : LedgerError → Option String
  | unknownChannel channel => some ("channel `" ++ channel ++ "` is not known to the ledger")
  | blockNotFound channel number =>
    some ("block #" ++ Decimal.text number ++ " not found on channel `" ++ channel ++ "`")
  | status code body => some ("unsuccessful status code " ++ Decimal.text code ++ ": " ++ body)
  | invalidBaseUrl url => some ("URL `" ++ url ++ "` cannot be used as a base")
  | request => none

end LedgerError

namespace Ledger

inductive Query where
  | channels
  | tipHeight (channel : String)
  | block (channel : String) (number : Nat)
deriving DecidableEq, Repr

abbrev Query.Value : Query → Type
  | channels => List String
  | tipHeight _ => Nat
  | block _ _ => Bytes

abbrev Query.Answer (q : Query) : Type :=
  Except LedgerError q.Value

end Ledger

end LedgerIndex
