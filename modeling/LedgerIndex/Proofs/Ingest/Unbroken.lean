import LedgerIndex.Proofs.Block.Fixture
import LedgerIndex.Proofs.Ingest.Outcome
import LedgerIndex.Proofs.Ingest.Recording

/-! # Unbroken chains

A chain of serialized blocks is `Unbroken` if every block can be read and carries the header hash of
the block before it.  Sample blocks that a peer can serve make up such a chain
(`ChainFixture.Servable.unbroken`), and on a ledger that has it nothing keeps an ingestor from its
next block (`Unbroken.not_stalled`). -/

namespace LedgerIndex

open Ingest

variable {agent : Agent} {channel : String} {chain : List Bytes} {ledger : MemoryLedger}

/-- Every block of a chain can be read under its place as its number, and carries the header hash of
the block before it. -/
structure Unbroken (chain : List Bytes) : Prop where
  readable : ∀ {number bytes}, chain[number]? = some bytes → ∃ block hash txs,
    Ingestor.decodeNumbered number bytes = .ok block ∧ block.header.hash = .ok hash ∧
    block.entries.mapM Transaction.decode = .ok txs
  linked : ∀ {number bytes block}, chain[number + 1]? = some bytes →
    Ingestor.decodeNumbered (number + 1) bytes = .ok block →
    HashAt chain number block.header.previousHash

/-- Transactions of sample blocks that a peer can serve: every block has some, and an endorser
transaction among them has its actions.  The blocks have numbers that can be hashed, and their bytes
are counted in sixty-four bits, as those of every byte string in memory are. -/
structure ChainFixture.Servable (channel : String) (transactions : List (List TxFixture)) : Prop
    where
  count : transactions.length < 2 ^ 63
  nonempty : ∀ txs ∈ transactions, txs ≠ []
  proper : ∀ txs ∈ transactions, ∀ tx ∈ txs, tx.content.Proper
  size : ∀ block ∈ ChainFixture.blocks channel transactions, block.encode.length < UInt64.size

namespace ChainFixture.Servable

variable {transactions : List (List TxFixture)} {number : Nat} {block : BlockFixture}
  (h : Servable channel transactions)

include h

theorem hash_eq (hblock : (blocks channel transactions)[number]? = some block) :
    block.header.hash = .ok (Sha256.digest block.header.element) := by
  obtain ⟨hlt, _⟩ := List.getElem?_eq_some_iff.mp hblock
  rw [length_blocks] at hlt
  have hcount := h.count
  have hlimit : 2 ^ 63 ≤ UInt64.size ∧ 2 ^ 63 - 1 ≤ BlockHeader.greatestNumber := by decide
  refine BlockHeader.hash_of_number_le ?_
  rw [number_blocks hblock (by omega)]
  omega

theorem decodeNumbered_encode (hblock : (blocks channel transactions)[number]? = some block) :
    ∃ first, Ingestor.decodeNumbered number block.encode = .ok (block.record first) := by
  have hsize := h.size block (List.mem_of_getElem? hblock)
  have hlimit : 2 ^ 63 < UInt64.size := by decide
  have hnumber := number_blocks hblock (Nat.lt_trans h.count hlimit)
  obtain ⟨first, rest, htxs⟩ :=
    List.ne_nil_iff_exists_cons.mp (h.nonempty _ (transactions_mem hblock))
  refine ⟨first, ?_⟩
  rw [Ingestor.decodeNumbered, BlockFixture.decode_encode hsize htxs]
  exact if_pos hnumber

theorem hashAt (hblock : (blocks channel transactions)[number]? = some block) :
    HashAt ((blocks channel transactions).map BlockFixture.encode) number
      (Sha256.digest block.header.element) := by
  obtain ⟨first, hdecoded⟩ := h.decodeNumbered_encode hblock
  refine ⟨block.encode, block.record first, ?_, hdecoded, h.hash_eq hblock⟩
  rw [List.getElem?_map, hblock, Option.map_some]

/-- **Sample blocks are in order.** -/
theorem unbroken : Unbroken ((blocks channel transactions).map BlockFixture.encode) where
  readable := by
    intro number bytes hbytes
    rw [List.getElem?_map] at hbytes
    obtain ⟨block, hblock, rfl⟩ := Option.map_eq_some_iff.mp hbytes
    obtain ⟨first, hdecoded⟩ := h.decodeNumbered_encode hblock
    have hproper := h.proper _ (transactions_mem hblock)
    have htxs := BlockFixture.mapM_decode (h.size block (List.mem_of_getElem? hblock)) hproper
    exact ⟨_, _, _, hdecoded, h.hash_eq hblock, htxs⟩
  linked := by
    intro number bytes block hbytes hdecoded
    rw [List.getElem?_map] at hbytes
    obtain ⟨next, hnext, rfl⟩ := Option.map_eq_some_iff.mp hbytes
    obtain ⟨first, hrecord⟩ := h.decodeNumbered_encode hnext
    obtain rfl := Except.ok.inj (hrecord.symm.trans hdecoded)
    have hlt := (List.getElem?_eq_some_iff.mp hnext).1
    have hblock := List.getElem?_eq_getElem (Nat.lt_of_succ_lt hlt)
    rw [show (next.record first).header.previousHash = next.header.previousHash from rfl,
      previousHash_blocks hblock hnext]
    exact h.hashAt hblock

end ChainFixture.Servable

/-- A ledger that is available and has a chain of blocks. -/
structure MemoryLedger.Serves (ledger : MemoryLedger) (channel : String) (chain : List Bytes) :
    Prop where
  available : ledger.unavailable = false
  blocks : ledger.blocks? channel = some chain

namespace MemoryLedger.Serves

variable (h : ledger.Serves channel chain)

include h

theorem tipHeight : ledger.answer (.tipHeight channel) = .ok chain.length := by
  simp [answer, lookUp, h.available, h.blocks]

theorem block {number : Nat} {bytes : Bytes} (hbytes : chain[number]? = some bytes) :
    ledger.answer (.block channel number) = .ok bytes := by
  simp [answer, lookUp, h.available, h.blocks, hbytes]

theorem hashAt_iff {number : Nat} {hash : Bytes} :
    ledger.HasHash channel number hash ↔ HashAt chain number hash := by
  rw [MemoryLedger.hasHash_iff]
  constructor
  · rintro ⟨bytes, block, hbytes, hblock, hhash⟩
    have hserved := MemoryLedger.block?_of_answer hbytes
    rw [MemoryLedger.block?, h.blocks, Option.bind_some] at hserved
    exact ⟨bytes, block, hserved, hblock, hhash⟩
  · rintro ⟨bytes, block, hbytes, hblock, hhash⟩
    exact ⟨bytes, block, h.block hbytes, hblock, hhash⟩

end MemoryLedger.Serves

/-- A hash that a cursor holds is that of the block before it. -/
def Abreast (chain : List Bytes) (cursor : Cursor) : Prop :=
  ∀ hash, cursor.lastHash = some hash → ∃ number, cursor.next = number + 1 ∧
    HashAt chain number hash

/-- **No false alarms.**  Before the end of an unbroken chain nothing keeps an ingestor from its
next block. -/
theorem Unbroken.not_stalled (h : Unbroken chain) (hledger : ledger.Serves channel chain)
    {cursor : Cursor} (hcursor : Abreast chain cursor) (hlt : cursor.next < chain.length)
    {e : IngestError} : ¬ Ingestor.Stalled ledger channel cursor e := by
  obtain ⟨bytes, hbytes⟩ : ∃ bytes, chain[cursor.next]? = some bytes :=
    ⟨_, List.getElem?_eq_getElem hlt⟩
  have hanswer := hledger.block hbytes
  obtain ⟨block, hash, txs, hdecoded, hhash, htxs⟩ := h.readable hbytes
  intro hstalled
  cases hstalled with
  | unfetched hunfetched =>
      cases hunfetched with
      | refused herror => cases hanswer.symm.trans herror
      | unreadable hserved herror =>
          obtain rfl := Except.ok.inj (hanswer.symm.trans hserved)
          cases hdecoded.symm.trans herror
  | unready hfetched hunready =>
      obtain ⟨served, hserved, hfetched⟩ := hfetched
      obtain rfl := Except.ok.inj (hserved.trans hanswer)
      obtain rfl := Except.ok.inj (hdecoded.symm.trans hfetched)
      cases hunready with
      | overflow herror => cases hhash.symm.trans herror
      | transactions herror => cases htxs.symm.trans herror
      | broken hbroken =>
          unfold Ingestor.linked at hbroken
          split at hbroken
          · rename_i last hlast
            obtain ⟨number, hnext, hlast⟩ := hcursor last hlast
            rw [hnext] at hbytes hdecoded
            rw [(h.linked hbytes hdecoded).unique hlast] at hbroken
            simp at hbroken
          · cases hbroken

end LedgerIndex
