import LedgerIndex.Proofs.Der
import LedgerIndex.Proofs.Ingest.Checkpoints
import LedgerIndex.Proofs.Store.Upsert
import LedgerIndex.Proofs.Wire.Bounds

/-! # The block documents of a channel

`MemoryStore.HasBlock` says that a block document of a channel is stored, `BlockEvent.Shows` that it
holds a header and the hash of it.  While a block is sent only its last event is a block document
(`Ingestor.Sending.head`); all other events, and the work on other channels, leave the block
documents of the channel and their hashes where they are (`MemoryStore.Undisturbed`).  With one peer
no block document gets lost: there is one for every block up to the checkpoint
(`Deployment.documented`). -/

namespace LedgerIndex

open Ingest MemoryStore

/-- A block document that holds a header and the hash of it. -/
structure BlockEvent.Shows (e : BlockEvent) (header : BlockHeader) : Prop where
  number : e.blockNumber = header.number
  previousHash : e.previousHash = header.previousHash.toHex
  dataHash : e.dataHash = header.dataHash.toHex
  blockHash : header.hashText = .ok e.blockHash

/-! ### Sending the events of a block -/

namespace Ingestor

variable {agent : Agent} {channel : String} {cursor : Cursor} {block : Block} {prepared : Prepared}
  {e : Event} {rest : List Event} {served : Ledger.Serving}

/-- The header of a block that is fetched and hashed has a readable encoding. -/
theorem readable_of_hash {number : Nat} {bytes hash : Bytes}
    (hblock : decodeNumbered number bytes = .ok block) (hhash : block.header.hash = .ok hash) :
    block.header.Readable := by
  obtain ⟨hprevious, hdata⟩ := Block.length_hash_lt (decodeNumbered_eq_ok hblock).1
  exact BlockHeader.readable_of_length_lt (BlockHeader.hash_eq_ok hhash).1 hprevious hdata

/-- The document of a block that is ready. -/
def Prepared.document (prepared : Prepared) (agent : Agent) (channel : String) (block : Block) :
    BlockEvent :=
  agent.blockEvent channel block prepared.headerHash.toHex prepared.transactions

/-- The block at the cursor is ready, and the last of its events are still to be sent. -/
structure Sending (agent : Agent) (channel : String) (cursor : Cursor) (block : Block)
    (prepared : Prepared) (rest : List Event) : Prop where
  ready : Ready agent channel cursor block prepared
  number : block.header.number = cursor.next
  readable : block.header.Readable
  sent : ∃ sent, prepared.events = sent ++ rest

theorem Ready.sending (h : Ready agent channel cursor block prepared)
    (hblock : Fetched served channel cursor.next block) :
    Sending agent channel cursor block prepared prepared.events := by
  obtain ⟨bytes, _, hdecoded⟩ := hblock
  exact ⟨h, (decodeNumbered_eq_ok hdecoded).2, readable_of_hash hdecoded h.hash, [], rfl⟩

theorem Ready.events_ne_nil (h : Ready agent channel cursor block prepared) :
    prepared.events ≠ [] := by
  rw [h.events, Agent.eventsOf_eq_append]
  simp

theorem Sending.tail (h : Sending agent channel cursor block prepared (e :: rest)) :
    Sending agent channel cursor block prepared rest := by
  obtain ⟨hready, hnumber, hreadable, sent, hsent⟩ := h
  refine ⟨hready, hnumber, hreadable, sent ++ [e], ?_⟩
  rw [hsent, List.append_assoc, List.singleton_append]

theorem Sending.head (h : Sending agent channel cursor block prepared (e :: rest)) :
    (rest = [] ∧ e = .block (prepared.document agent channel block)) ∨
      (rest ≠ [] ∧ e.kind ≠ .block) := by
  obtain ⟨hready, _, _, sent, hsent⟩ := h
  rw [hready.events] at hsent
  exact Agent.eventsOf_split hsent

theorem Sending.origin (h : Sending agent channel cursor block prepared (e :: rest)) :
    e.origin = agent.origin channel := by
  obtain ⟨hready, _, _, sent, hsent⟩ := h
  have he : e ∈ prepared.events := hsent ▸ List.mem_append_right _ List.mem_cons_self
  rw [hready.events] at he
  exact Agent.origin_of_mem_eventsOf he

theorem Sending.shows (h : Sending agent channel cursor block prepared rest) :
    (prepared.document agent channel block).Shows block.header := by
  refine ⟨rfl, rfl, rfl, ?_⟩
  rw [BlockHeader.hashText, h.ready.hash]
  rfl

end Ingestor

/-! ### Stored block documents -/

namespace MemoryStore

variable {channel other : String} {s t : MemoryStore} {e : Event} {b f : BlockEvent}

/-- A block document of the channel is stored. -/
def HasBlock (store : MemoryStore) (channel : String) (e : BlockEvent) : Prop :=
  .block e ∈ store.events ∧ e.origin.channel = channel

theorem not_hasBlock_ofSeed (seed : Option Seed) : ¬ (ofSeed seed).HasBlock channel b := by
  rintro ⟨hmem, _⟩
  rw [events_ofSeed] at hmem
  cases hmem

/-- What was done in between shows neither in the block documents of a channel nor in its block
hashes and its checkpoint; documents may be missing. -/
structure Undisturbed (channel : String) (s t : MemoryStore) : Prop where
  hasBlock : ∀ {e}, t.HasBlock channel e → s.HasBlock channel e
  blockHash : ∀ number, Entries.get? (channel, number) t.blockHashes
    = Entries.get? (channel, number) s.blockHashes
  checkpoint : t.checkpoint? channel = s.checkpoint? channel

theorem Undisturbed.nextBlock (h : Undisturbed channel s t) :
    t.nextBlock channel = s.nextBlock channel := by
  have hcheckpoint := h.checkpoint
  unfold checkpoint? at hcheckpoint
  unfold MemoryStore.nextBlock
  rw [hcheckpoint]

theorem undisturbed_accept (h : e.kind ≠ .block ∨ e.channel ≠ channel) :
    Undisturbed channel s (s.accept e) where
  hasBlock := by
    rintro f ⟨hmem, hchannel⟩
    rcases mem_of_mem_upsert hmem with rfl | hmem
    · rcases h with h | h
      · exact absurd rfl h
      · exact absurd hchannel h
    · exact ⟨hmem, hchannel⟩
  blockHash number := by
    cases e with
    | block b =>
        have hne : (channel, number) ≠ (b.origin.channel, b.blockNumber) := by
          rintro heq
          rcases h with h | h
          · exact h rfl
          · exact h (Prod.mk.inj heq).1.symm
        exact Entries.get?_put_of_ne hne ..
    | transaction _ => rfl
    | write _ => rfl
  checkpoint := rfl

theorem undisturbed_putCheckpoint (h : channel ≠ other) (number : Nat) :
    Undisturbed channel s (s.putCheckpoint other number) where
  hasBlock hmem := hmem
  blockHash _ := rfl
  checkpoint := Entries.get?_put_of_ne h ..

theorem blockHash_accept_self (s : MemoryStore) (b : BlockEvent) :
    Entries.get? (b.origin.channel, b.blockNumber) (s.accept (.block b)).blockHashes
      = some b.blockHash := Entries.get?_put_self ..

theorem blockHash_accept_of_ne {number : Nat} (h : number ≠ b.blockNumber) :
    Entries.get? (channel, number) (s.accept (.block b)).blockHashes
      = Entries.get? (channel, number) s.blockHashes :=
  Entries.get?_put_of_ne (fun heq => h (Prod.mk.inj heq).2) ..

theorem hasBlock_accept_self (s : MemoryStore) (b : BlockEvent) :
    (s.accept (.block b)).HasBlock b.origin.channel b := ⟨mem_upsert_self .., rfl⟩

/-- A block document that was stored before stays, unless its place is taken. -/
theorem HasBlock.accept (h : s.HasBlock channel b) (hpeer : b.origin.peer = e.origin.peer)
    (hplace : e.kind = .block → channel = e.channel → b.blockNumber ≠ e.blockNumber) :
    (s.accept e).HasBlock channel b := by
  refine ⟨mem_upsert_of_not_same h.1 fun hsame => ?_, h.2⟩
  obtain ⟨hchannel, hplaces⟩ := Event.documentId_inj hsame.1 hpeer hsame.2
  have hnumber : b.blockNumber = e.blockNumber := Event.blockNumber_eq_of_place_eq hplaces
  exact hplace hsame.1.symm (h.2.symm.trans hchannel) hnumber

/-! ### None is missing -/

/-- All stored events come from one peer, and every block of the channel from `first` up to the
checkpoint has its document. -/
structure Documented (peer : String) (first : Nat) (channel : String) (s : MemoryStore) : Prop where
  peer : ∀ e ∈ s.events, e.origin.peer = peer
  document : ∀ number, first ≤ number → number < s.nextBlock channel →
    ∃ b, s.HasBlock channel b ∧ b.blockNumber = number

variable {peer : String} {first : Nat}

theorem Documented.accept (h : Documented peer first channel s) (hpeer : e.origin.peer = peer)
    (hplace : e.kind = .block → channel = e.channel → e.blockNumber = s.nextBlock channel) :
    Documented peer first channel (s.accept e) where
  peer := forall_mem_upsert h.peer hpeer
  document := by
    intro number hfirst hlt
    rw [nextBlock_accept] at hlt
    obtain ⟨b, hb, rfl⟩ := h.document number hfirst hlt
    refine ⟨b, hb.accept ((h.peer _ hb.1).trans hpeer.symm) fun hkind hchannel => ?_, rfl⟩
    rw [hplace hkind hchannel]
    exact Nat.ne_of_lt hlt

theorem Documented.putCheckpoint (h : Documented peer first channel s) {number : Nat}
    (hnumber : number = s.nextBlock channel)
    (hlast : ∃ b, s.HasBlock channel b ∧ b.blockNumber = number) :
    Documented peer first channel (s.putCheckpoint channel number) where
  peer := h.peer
  document := by
    intro n hfirst hlt
    rw [nextBlock_putCheckpoint_self] at hlt
    rcases Nat.lt_or_eq_of_le (Nat.le_of_lt_succ hlt) with hlt | rfl
    · exact h.document n hfirst (hnumber ▸ hlt)
    · exact hlast

theorem Documented.putCheckpoint_of_ne (h : Documented peer first channel s)
    (hother : channel ≠ other) (number : Nat) :
    Documented peer first channel (s.putCheckpoint other number) where
  peer := h.peer
  document n hfirst hlt := by
    rw [nextBlock_putCheckpoint_of_ne s hother] at hlt
    exact h.document n hfirst hlt

end MemoryStore

namespace Discipline

/-- The agents of one peer leave a document for every block. -/
def documenting (peer : String) (first : Nat) (channel : String) :
    Discipline channel (fun agent => agent.peer = peer) (fun _ _ => True) where
  sound := Documented peer first channel
  placed cursor s := Documented peer first channel s ∧ s.Behind channel cursor
  publishing cursor prepared rest s :=
    Documented peer first channel s ∧ s.Behind channel (some cursor) ∧
    (∃ agent block, agent.peer = peer ∧
      Ingestor.Sending agent channel cursor block prepared rest) ∧
    (rest = [] → ∃ b, s.HasBlock channel b ∧ b.blockNumber = cursor.next)
  sound_of_placed h := h.1
  sound_of_published h := h.1
  forget h := ⟨h.1, behind_none⟩
  genesis h hnone := ⟨h.1, behind_genesis hnone⟩
  resume h hsome _ _ _ _ := ⟨h.1, behind_resume hsome _⟩
  begin := by
    rintro agent cursor block prepared s hpeer ⟨hs, hbehind⟩ hblock hready
    exact ⟨hs, hbehind, ⟨agent, block, hpeer, hready.sending hblock⟩,
      fun hnil => absurd hnil hready.events_ne_nil⟩
  accept := by
    rintro cursor prepared e rest s ⟨hs, hbehind, ⟨agent, block, hpeer, hsending⟩, _⟩
    have hnext : block.header.number = s.nextBlock channel :=
      hsending.number.trans (behind_some.mp hbehind)
    have horigin := hsending.origin
    have hfrom : e.origin.peer = peer := by rw [horigin]; exact hpeer
    rcases hsending.head with ⟨rfl, rfl⟩ | ⟨hrest, hkind⟩
    · refine ⟨hs.accept hfrom fun _ _ => hnext, hbehind, ⟨agent, block, hpeer, hsending.tail⟩,
        fun _ => ⟨_, hasBlock_accept_self .., hsending.number⟩⟩
    · exact ⟨hs.accept hfrom fun h => absurd h hkind, hbehind,
        ⟨agent, block, hpeer, hsending.tail⟩, fun hnil => absurd hnil hrest⟩
  abandon h := ⟨h.1, h.2.1⟩
  advance := by
    rintro cursor prepared s ⟨hs, hbehind, _, hlast⟩
    exact ⟨hs.putCheckpoint (behind_some.mp hbehind) (hlast rfl), behind_putCheckpoint _ _ _ _⟩

theorem isolated_documenting (peer : String) (first : Nat) (channel : String) :
    (documenting peer first channel).Isolated where
  accept := by
    rintro agent other cursor e s hpeer hother horigin ⟨hs, hbehind⟩
    refine ⟨hs.accept (by rw [horigin]; exact hpeer) fun _ hchannel => absurd ?_ hother, hbehind⟩
    rw [hchannel, Event.channel, horigin]
    rfl
  putCheckpoint := by
    rintro other number cursor s hother ⟨hs, hbehind⟩
    exact ⟨hs.putCheckpoint_of_ne hother number, hbehind.putCheckpoint_of_ne hother number⟩

end Discipline

/-- **With one peer every block up to the checkpoint has its document.** -/
theorem Deployment.documented {peer : String} (ledger : MemoryLedger) (seed : Option Seed)
    {actions : List Action}
    (hpeer : ∀ agent channels, .start agent channels ∈ actions → agent.peer = peer)
    (channel : String) :
    Documented peer ((ofSeed seed).nextBlock channel) channel
      ((Deployment.initial ledger seed).run actions).store := by
  let D := Discipline.documenting peer ((ofSeed seed).nextBlock channel) channel
  have hfirst : Documented peer ((ofSeed seed).nextBlock channel) channel (.ofSeed seed) :=
    ⟨by simp, fun _ hfirst hlt => absurd hlt (Nat.not_lt.mpr hfirst)⟩
  have hbegin : D.Holds (.initial ledger seed) :=
    D.holds_initial ⟨hfirst, behind_none⟩ ledger
  have hend : D.Holds ((Deployment.initial ledger seed).run actions) :=
    hbegin.run (Discipline.isolated_documenting ..) (ledgerWithin_any ..) hpeer
      (.inl fun _ h => ⟨h, behind_none⟩)
  obtain ⟨hevents, hdocuments⟩ := hend.sound
  exact ⟨hevents, hdocuments⟩

end LedgerIndex
