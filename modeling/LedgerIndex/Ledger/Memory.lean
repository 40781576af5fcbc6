import LedgerIndex.Entries
import LedgerIndex.Ledger.Basic

/-! # A ledger in memory

The channels of a ledger with their serialized blocks, for trying things out.  Blocks are appended
and replaced at will, and the ledger can be made to refuse every question. -/

namespace LedgerIndex

structure MemoryLedger where
  channels : List (String × List Bytes) := []
  unavailable : Bool := false
deriving DecidableEq, Repr, Inhabited

namespace MemoryLedger

def blocks? (ledger : MemoryLedger) (channel : String) : Option (List Bytes) :=
  Entries.get? channel ledger.channels

/-- Appends a block to a channel, which may be new. -/
def push (ledger : MemoryLedger) (channel : String) (block : Bytes) : MemoryLedger :=
  let blocks := (ledger.blocks? channel).getD []
  { ledger with channels := Entries.put channel (blocks ++ [block]) ledger.channels }

/-- Puts a block in the place of another one, if that one exists. -/
def replace (ledger : MemoryLedger) (channel : String) (number : Nat) (block : Bytes) :
    Bool × MemoryLedger :=
  match ledger.blocks? channel with
  | some blocks =>
    if number < blocks.length then
      (true, { ledger with
        channels := Entries.put channel (blocks.set number block) ledger.channels })
    else (false, ledger)
  | none => (false, ledger)

/-- The error of a ledger that refuses to answer. -/
def outage : LedgerError :=
  .status 503 "peer unavailable"

/-- The names of the channels in order. -/
def channelNames (ledger : MemoryLedger) : List String :=
  (ledger.channels.map Prod.fst).mergeSort (fun a b => decide (a ≤ b))

/-- The answers of a ledger that is available. -/
def lookUp (ledger : MemoryLedger) : (q : Ledger.Query) → q.Answer
  | .channels => .ok ledger.channelNames
  | .tipHeight channel =>
    match ledger.blocks? channel with
    | some blocks => .ok blocks.length
    | none => .error (.unknownChannel channel)
  | .block channel number =>
    match ledger.blocks? channel with
    | some blocks =>
      match blocks[number]? with
      | some block => .ok block
      | none => .error (.blockNotFound channel number)
    | none => .error (.unknownChannel channel)

def answer (ledger : MemoryLedger) (q : Ledger.Query) : q.Answer :=
  if ledger.unavailable then .error outage else ledger.lookUp q

end MemoryLedger

end LedgerIndex
