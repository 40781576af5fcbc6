import LedgerIndex.Event.Basic

/-! # Questions to an index store

An index store keeps, for one peer, the number of the last block that was published in full on each
channel (the checkpoint), and the documents of the published events.  `Store.Query` lists what an
agent asks of it, with the type of the answers. -/

namespace LedgerIndex

/-- Why an index store does not answer. -/
inductive StoreError where
  | status (code : Nat) (body : String)
  | invalidBaseUrl (url : String)
  | blockNumberOutOfRange (number : Nat)
  | request
  | database
deriving DecidableEq, Repr

namespace StoreError

/-- The text of an error; a request that did not come through and a failure of the database have
none of their own. -/
def message? : StoreError → Option String
  | status code body => some ("unsuccessful status code " ++ Decimal.text code ++ ": " ++ body)
  | invalidBaseUrl url => some ("URL `" ++ url ++ "` cannot be used as a base")
  | blockNumberOutOfRange number =>
    some ("block number " ++ Decimal.text number ++ " does not fit the storage column type")
  | request => none
  | database => none

end StoreError

namespace Store

inductive Query where
  | checkpoint (channel : String)
  | putCheckpoint (channel : String) (number : Nat)
  | blockHash (channel : String) (number : Nat)
  | putEvent (event : Event)
deriving Repr

abbrev Query.Value : Query → Type
  | checkpoint _ => Option Nat
  | putCheckpoint _ _ => Unit
  | blockHash _ _ => Option String
  | putEvent _ => Unit

abbrev Query.Answer (q : Query) : Type :=
  Except StoreError q.Value

/-- The name of the index that holds a checkpoint. -/
def checkpointIndex (peer channel : String) : String :=
  lowercase ("last_block_" ++ peer ++ "_" ++ channel)

end Store

end LedgerIndex
