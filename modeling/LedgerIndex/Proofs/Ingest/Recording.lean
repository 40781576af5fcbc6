import LedgerIndex.Proofs.Ingest.BlockDocuments
import LedgerIndex.Proofs.Ledger.Growing

/-! # What is recorded comes from the ledger

As long as a ledger serves, for one channel, no block but those of a chain, every block document of
the channel holds the header hash of the block of the chain with its number, and this hash is
recorded for every block up to the checkpoint (`MemoryStore.Recorded`).  The agents, the failures
and the moments at which engines are killed do not matter. -/

namespace LedgerIndex

open Ingest MemoryStore

/-- The block of a chain under a number can be read, and this is the hash of its header. -/
def HashAt (chain : List Bytes) (number : Nat) (hash : Bytes) : Prop :=
  ∃ bytes block, chain[number]? = some bytes ∧ Ingestor.decodeNumbered number bytes = .ok block ∧
    block.header.hash = .ok hash

/-- A ledger that serves no block of a channel but those of a chain. -/
abbrev Ledger.servingChain (channel : String) (chain : List Bytes) : Ledger.Serving :=
  Ledger.serving channel (chain[·]?)

variable {allowed : Agent → Prop} {channel other : String} {chain : List Bytes} {number : Nat}
  {hash hash' : Bytes}

theorem HashAt.unique (h : HashAt chain number hash) (h' : HashAt chain number hash') :
    hash = hash' := by
  obtain ⟨bytes, block, hbytes, hblock, hhash⟩ := h
  obtain ⟨bytes', block', hbytes', hblock', hhash'⟩ := h'
  obtain rfl : bytes = bytes' := Option.some.inj (hbytes.symm.trans hbytes')
  obtain rfl : block = block' := Except.ok.inj (hblock.symm.trans hblock')
  exact Except.ok.inj (hhash.symm.trans hhash')

theorem HashAt.lt_length (h : HashAt chain number hash) : number < chain.length := by
  obtain ⟨bytes, _, hbytes, _⟩ := h
  exact (List.getElem?_eq_some_iff.mp hbytes).1

theorem Ingestor.Ready.hashAt {agent : Agent} {cursor : Cursor} {block : Block}
    {prepared : Prepared} (h : Ready agent channel cursor block prepared)
    (hblock : Fetched (Ledger.servingChain channel chain) channel cursor.next block) :
    HashAt chain cursor.next prepared.headerHash := by
  obtain ⟨bytes, hbytes, hdecoded⟩ := hblock
  exact ⟨bytes, block, hbytes rfl, hdecoded, h.hash⟩

namespace MemoryStore

/-- The hashes of a chain are recorded up to the checkpoint, and every block document of the channel
holds one of them. -/
structure Recorded (chain : List Bytes) (channel : String) (s : MemoryStore) : Prop where
  hash : ∀ {number}, number < s.nextBlock channel → ∃ hash, HashAt chain number hash ∧
    Entries.get? (channel, number) s.blockHashes = some hash.toHex
  document : ∀ {b}, s.HasBlock channel b →
    ∃ hash, HashAt chain b.blockNumber hash ∧ b.blockHash = hash.toHex

variable {s t : MemoryStore} {b : BlockEvent}

theorem Recorded.nextBlock_le (h : Recorded chain channel s) :
    s.nextBlock channel ≤ chain.length := by
  by_contra hlt
  obtain ⟨hash, hhash, _⟩ := h.hash (Nat.lt_of_not_le hlt)
  exact absurd hhash.lt_length (Nat.lt_irrefl _)

theorem Undisturbed.recorded (h : Undisturbed channel s t) (hs : Recorded chain channel s) :
    Recorded chain channel t where
  hash hlt := by
    rw [h.blockHash]
    exact hs.hash (h.nextBlock ▸ hlt)
  document hb := hs.document (h.hasBlock hb)

theorem Recorded.accept_block (h : Recorded chain channel s)
    (hnumber : b.blockNumber = s.nextBlock channel)
    (hhash : ∃ hash, HashAt chain b.blockNumber hash ∧ b.blockHash = hash.toHex) :
    Recorded chain channel (s.accept (.block b)) where
  hash hlt := by
    rw [nextBlock_accept] at hlt
    rw [blockHash_accept_of_ne (by omega)]
    exact h.hash hlt
  document := by
    rintro f ⟨hmem, hchannel⟩
    rcases mem_of_mem_upsert hmem with heq | hmem
    · rw [Event.block.inj heq]
      exact hhash
    · exact h.document ⟨hmem, hchannel⟩

theorem Recorded.putCheckpoint (h : Recorded chain channel s)
    (hnext : number = s.nextBlock channel) (hhash : HashAt chain number hash)
    (hrecorded : Entries.get? (channel, number) s.blockHashes = some hash.toHex) :
    Recorded chain channel (s.putCheckpoint channel number) where
  hash := by
    intro n hlt
    rw [nextBlock_putCheckpoint_self] at hlt
    rcases Nat.lt_or_eq_of_le (Nat.le_of_lt_succ hlt) with hlt | rfl
    · exact h.hash (hnext ▸ hlt)
    · exact ⟨hash, hhash, hrecorded⟩
  document hb := h.document hb

end MemoryStore

namespace Discipline

/-- Whatever is recorded comes from the chain that the ledger serves. -/
def recording (allowed : Agent → Prop) (channel : String) (chain : List Bytes) :
    Discipline channel allowed (Ledger.servingChain channel chain) where
  sound := Recorded chain channel
  placed cursor s := Recorded chain channel s ∧ s.Behind channel cursor
  publishing cursor prepared rest s :=
    Recorded chain channel s ∧ s.Behind channel (some cursor) ∧
    HashAt chain cursor.next prepared.headerHash ∧
    (∃ agent block, Ingestor.Sending agent channel cursor block prepared rest) ∧
    (rest = [] → Entries.get? (channel, cursor.next) s.blockHashes
      = some prepared.headerHash.toHex)
  sound_of_placed h := h.1
  sound_of_published h := h.1
  forget h := ⟨h.1, behind_none⟩
  genesis h hnone := ⟨h.1, behind_genesis hnone⟩
  resume h hsome _ _ _ _ := ⟨h.1, behind_resume hsome _⟩
  begin := by
    rintro agent cursor block prepared s _ ⟨hs, hbehind⟩ hblock hready
    exact ⟨hs, hbehind, hready.hashAt hblock, ⟨agent, block, hready.sending hblock⟩,
      fun hnil => absurd hnil hready.events_ne_nil⟩
  accept := by
    rintro cursor prepared e rest s ⟨hs, hbehind, hhash, ⟨agent, block, hsending⟩, _⟩
    rcases hsending.head with ⟨rfl, rfl⟩ | ⟨hrest, hkind⟩
    · have hnumber : (prepared.document agent channel block).blockNumber = cursor.next :=
        hsending.number
      have hnext := hnumber.trans (behind_some.mp hbehind)
      refine ⟨hs.accept_block hnext ⟨_, hnumber ▸ hhash, rfl⟩, hbehind, hhash,
        ⟨agent, block, hsending.tail⟩, fun _ => ?_⟩
      rw [← hnumber]
      exact blockHash_accept_self s (prepared.document agent channel block)
    · exact ⟨(undisturbed_accept (.inl hkind)).recorded hs, hbehind, hhash,
        ⟨agent, block, hsending.tail⟩, fun hnil => absurd hnil hrest⟩
  abandon h := ⟨h.1, h.2.1⟩
  advance := by
    rintro cursor prepared s ⟨hs, hbehind, hhash, _, hrecorded⟩
    exact ⟨hs.putCheckpoint (behind_some.mp hbehind) hhash (hrecorded rfl),
      behind_putCheckpoint _ _ _ _⟩

theorem isolated_recording (allowed : Agent → Prop) (channel : String) (chain : List Bytes) :
    (recording allowed channel chain).Isolated where
  accept := by
    rintro agent other cursor e s _ hother horigin ⟨hs, hbehind⟩
    have hchannel : e.channel ≠ channel := by
      rw [Event.channel, horigin]
      exact hother.symm
    exact ⟨(undisturbed_accept (.inr hchannel)).recorded hs, hbehind⟩
  putCheckpoint := by
    rintro other number cursor s hother ⟨hs, hbehind⟩
    exact ⟨(undisturbed_putCheckpoint hother number).recorded hs,
      hbehind.putCheckpoint_of_ne hother number⟩

end Discipline

end LedgerIndex
