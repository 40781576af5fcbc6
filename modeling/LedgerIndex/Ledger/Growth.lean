import LedgerIndex.Block.Fixture
import LedgerIndex.Ledger.Memory

/-! # Ledgers under construction

A ledger in memory grows by chains of blocks under construction, one chain a channel, each going on
where it was left.  The hash texts of the blocks are kept beside it. -/

namespace LedgerIndex

/-- The chains of the channels as they were left, and the hash texts of their blocks. -/
structure Growth where
  chains : List (String × ChainFixture) := []
  hashes : List ((String × Nat) × String) := []
deriving DecidableEq, Repr, Inhabited

namespace Growth

/-- The hash text of a block that was constructed. -/
def hash? (growth : Growth) (channel : String) (number : Nat) : Option String :=
  Entries.get? (channel, number) growth.hashes

/-- The numbered hash text of a block. -/
def entryOf (channel : String) (block : BlockFixture) : Option ((String × Nat) × String) :=
  match block.header.hashText with
  | .ok text => some ((channel, block.number.toNat), text)
  | .error _ => none

/-- Constructs blocks and appends them to a channel of a ledger. -/
def extend (growth : Growth) (ledger : MemoryLedger) (channel : String)
    (steps : List ChainFixture.Step) : MemoryLedger × Growth :=
  let chain := (Entries.get? channel growth.chains).getD (ChainFixture.start channel)
  let (blocks, chain) := chain.steps steps
  (blocks.foldl (fun ledger block => ledger.push channel block.encode) ledger,
    { chains := Entries.put channel chain growth.chains
      hashes := growth.hashes ++ blocks.filterMap (entryOf channel) })

end Growth

end LedgerIndex
