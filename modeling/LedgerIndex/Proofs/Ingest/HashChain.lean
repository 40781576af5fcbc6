import LedgerIndex.Proofs.Ingest.BlockDocuments
import LedgerIndex.Proofs.Text.Hex

/-! # Stored block documents form a hash chain

Whatever the ledger does, the stored block documents of a channel are one hash chain
(`MemoryStore.Chained`): every document holds a header and the hash of it, and the previous hash of
a document is the hash of the document before it.  What carries this through restarts and changes of
the ledger is the agreement between the cursor and the store (`MemoryStore.Agrees`): the hash that a
cursor holds is the one recorded for the block of the checkpoint.  The headers that were published
are one chain as well, whether or not their documents are still there (`MemoryStore.Lineage`).

A call that is dropped may leave a document for the block behind the checkpoint.  The next
publication takes its place if it comes from the same peer.  So either all agents read from one
peer, or no call is dropped (`Deployment.hash_chain`). -/

namespace LedgerIndex

open Ingest MemoryStore

/-! ### Texts of hashes -/

namespace Ingestor

theorem sameIgnoringCase_refl (text : String) : sameIgnoringCase text text = true := by
  simp [sameIgnoringCase]

theorem eq_of_sameIgnoringCase_toHex {a b : Bytes} (h : sameIgnoringCase a.toHex b.toHex = true) :
    a = b := Bytes.eq_of_toHex_eq_lower (by simpa [sameIgnoringCase] using h)

theorem previousHash_eq_of_linked {cursor : Cursor} {block : Block} {hash : Bytes}
    (h : linked cursor block = true) (hlast : cursor.lastHash = some hash) :
    block.header.previousHash = hash := by
  unfold linked at h
  rw [hlast] at h
  exact eq_of_beq h

end Ingestor

theorem BlockHeader.eq_toHex_of_hashText {header : BlockHeader} {text : String}
    (h : header.hashText = .ok text) : ∃ hash, header.hash = .ok hash ∧ text = hash.toHex := by
  unfold hashText at h
  cases hhash : header.hash with
  | error e =>
      rw [hhash] at h
      cases h
  | ok hash =>
      rw [hhash] at h
      cases h
      exact ⟨hash, rfl, rfl⟩

namespace MemoryStore

variable {allowed : Agent → Prop} {channel other : String} {s₀ s t : MemoryStore}
  {cursor : Cursor} {agent : Agent} {block : Block} {prepared : Ingestor.Prepared}
  {b f : BlockEvent} {number : Nat} {text : String}

/-! ### The invariant -/

/-- The checkpoint of a channel and the hash recorded for it. -/
def Tip (store : MemoryStore) (channel : String) (number : Nat) (text : String) : Prop :=
  store.checkpoint? channel = some number ∧
    Entries.get? (channel, number) store.blockHashes = some text

/-- A hash is the one recorded for the checkpoint; without a hash there is no checkpoint. -/
def Recalls (store : MemoryStore) (channel : String) : Option Bytes → Prop
  | none => store.checkpoint? channel = none
  | some hash => ∃ number text, store.Tip channel number text ∧
      Ingestor.sameIgnoringCase text hash.toHex = true

/-- A cursor, where there is one, holds the hash recorded for the checkpoint. -/
def Agrees (store : MemoryStore) (channel : String) (cursor : Option Cursor) : Prop :=
  ∀ c, cursor = some c → store.Recalls channel c.lastHash

/-- The headers that were published for the blocks of a channel since the store was `s₀`.  Their
hashes are recorded, each carries the hash of the one before it, and the documents that are there
show them. -/
structure Lineage (s₀ : MemoryStore) (channel : String) (s : MemoryStore)
    (header : Nat → BlockHeader) : Prop where
  readable : ∀ {number}, s₀.nextBlock channel ≤ number → number < s.nextBlock channel →
    (header number).Readable
  recorded : ∀ {number}, s₀.nextBlock channel ≤ number → number < s.nextBlock channel →
    ∃ hash, (header number).hash = .ok hash ∧
      Entries.get? (channel, number) s.blockHashes = some hash.toHex
  linked : ∀ {number}, s₀.nextBlock channel ≤ number → number + 1 < s.nextBlock channel →
    (header number).hash = .ok (header (number + 1)).previousHash
  shown : ∀ {b}, s.HasBlock channel b → b.blockNumber < s.nextBlock channel →
    b.Shows (header b.blockNumber)

/-- The documents of a channel since the store was `s₀` form a hash chain. -/
structure Chained (allowed : Agent → Prop) (s₀ : MemoryStore) (channel : String)
    (s : MemoryStore) : Prop where
  peer : ∀ e ∈ s.events, ∃ agent, allowed agent ∧ e.origin.peer = agent.peer
  separate : Event.Separate s.events
  grown : s₀.nextBlock channel ≤ s.nextBlock channel
  bounds : ∀ {b}, s.HasBlock channel b →
    s₀.nextBlock channel ≤ b.blockNumber ∧ b.blockNumber ≤ s.nextBlock channel
  shown : ∀ {b}, s.HasBlock channel b → ∃ header, b.Shows header ∧ header.Readable
  linked : ∀ {b f}, s.HasBlock channel b → s.HasBlock channel f →
    f.blockNumber = b.blockNumber + 1 → f.previousHash = b.blockHash
  recorded : ∀ {b}, s.HasBlock channel b → b.blockNumber < s.nextBlock channel →
    Entries.get? (channel, b.blockNumber) s.blockHashes = some b.blockHash
  seed : ∀ {number text}, s₀.Tip channel number text →
    Entries.get? (channel, number) s.blockHashes = some text
  first : ∀ {number text b}, s₀.Tip channel number text → s.HasBlock channel b →
    b.blockNumber = number + 1 → Ingestor.sameIgnoringCase text b.previousHash = true
  lineage : ∃ header, Lineage s₀ channel s header

/-- The document of the next block, where there is one already, comes from the peer of every agent
that may publish it, and so gives way to it. -/
def Clear (allowed : Agent → Prop) (store : MemoryStore) (channel : String) : Prop :=
  ∀ b, store.HasBlock channel b → b.blockNumber = store.nextBlock channel →
    ∀ agent, allowed agent → b.origin.peer = agent.peer

/-- A block is published but for its checkpoint: its hash is recorded, the documents of its number
show its header, and this carries the hash that is recorded for the block before it. -/
structure Announced (s₀ : MemoryStore) (channel : String) (s : MemoryStore) (number : Nat)
    (header : BlockHeader) : Prop where
  readable : header.Readable
  recorded : ∃ hash, header.hash = .ok hash ∧
    Entries.get? (channel, number) s.blockHashes = some hash.toHex
  shown : ∀ {b}, s.HasBlock channel b → b.blockNumber = number → b.Shows header
  linked : ∀ {before hash}, s₀.nextBlock channel ≤ before → before + 1 = number →
    Entries.get? (channel, before) s.blockHashes = some (Bytes.toHex hash) →
    header.previousHash = hash

theorem Tip.nextBlock (h : s.Tip channel number text) : s.nextBlock channel = number + 1 :=
  nextBlock_of_checkpoint? h.1

theorem agrees_none : s.Agrees channel none := nofun

theorem agrees_some : s.Agrees channel (some cursor) ↔ s.Recalls channel cursor.lastHash := by
  simp [Agrees]

theorem Tip.ext {number' : Nat} {text' : String} (h : s.Tip channel number text)
    (h' : s.Tip channel number' text') : number = number' ∧ text = text' := by
  obtain rfl : number = number' := Option.some.inj (h.1.symm.trans h'.1)
  exact ⟨rfl, Option.some.inj (h.2.symm.trans h'.2)⟩

/-! ### What does not disturb it -/

theorem Undisturbed.tip (h : Undisturbed channel s t) (htip : s.Tip channel number text) :
    t.Tip channel number text :=
  ⟨h.checkpoint.trans htip.1, (h.blockHash number).trans htip.2⟩

theorem Undisturbed.recalls (h : Undisturbed channel s t) {lastHash : Option Bytes}
    (hs : s.Recalls channel lastHash) : t.Recalls channel lastHash := by
  cases lastHash with
  | none => exact h.checkpoint.trans hs
  | some hash =>
      obtain ⟨number, text, htip, hsame⟩ := hs
      exact ⟨number, text, h.tip htip, hsame⟩

theorem Undisturbed.agrees (h : Undisturbed channel s t) {cursor : Option Cursor}
    (hs : s.Agrees channel cursor) : t.Agrees channel cursor :=
  fun c hc => h.recalls (hs c hc)

theorem Undisturbed.lineage (h : Undisturbed channel s t) {header : Nat → BlockHeader}
    (hs : Lineage s₀ channel s header) : Lineage s₀ channel t header where
  readable hfirst hlt := hs.readable hfirst (h.nextBlock ▸ hlt)
  recorded hfirst hlt := by
    rw [h.blockHash]
    exact hs.recorded hfirst (h.nextBlock ▸ hlt)
  linked hfirst hlt := hs.linked hfirst (h.nextBlock ▸ hlt)
  shown hb hlt := hs.shown (h.hasBlock hb) (h.nextBlock ▸ hlt)

theorem Undisturbed.clear (h : Undisturbed channel s t) (hs : Clear allowed s channel) :
    Clear allowed t channel := by
  intro b hb hnumber
  exact hs b (h.hasBlock hb) (hnumber.trans h.nextBlock)

theorem Undisturbed.chained (h : Undisturbed channel s t) (hs : Chained allowed s₀ channel s)
    (hpeer : ∀ e ∈ t.events, ∃ agent, allowed agent ∧ e.origin.peer = agent.peer)
    (hseparate : Event.Separate t.events) : Chained allowed s₀ channel t where
  peer := hpeer
  separate := hseparate
  grown := h.nextBlock ▸ hs.grown
  bounds hb := h.nextBlock ▸ hs.bounds (h.hasBlock hb)
  shown hb := hs.shown (h.hasBlock hb)
  linked hb hf := hs.linked (h.hasBlock hb) (h.hasBlock hf)
  recorded hb hlt := by
    rw [h.blockHash]
    exact hs.recorded (h.hasBlock hb) (h.nextBlock ▸ hlt)
  seed htip := by
    rw [h.blockHash]
    exact hs.seed htip
  first htip hb := hs.first htip (h.hasBlock hb)
  lineage := hs.lineage.imp fun _ hlineage => h.lineage hlineage

theorem Chained.peer_accept (hs : Chained allowed s₀ channel s) (hallowed : allowed agent)
    {e : Event} (he : e.origin.peer = agent.peer) :
    ∀ x ∈ (s.accept e).events, ∃ agent, allowed agent ∧ x.origin.peer = agent.peer :=
  forall_mem_upsert hs.peer ⟨agent, hallowed, he⟩

/-! ### What the document of the next block refers to -/

/-- A block that follows on the cursor carries the hash recorded for the checkpoint. -/
theorem Agrees.same_previousHash (hagrees : s.Agrees channel (some cursor))
    (hlinked : Ingestor.linked cursor block = true) (htip : s.Tip channel number text) :
    Ingestor.sameIgnoringCase text block.header.previousHash.toHex = true := by
  have hrecalls := agrees_some.mp hagrees
  cases hlast : cursor.lastHash with
  | none =>
      rw [hlast] at hrecalls
      exact absurd (htip.1.symm.trans hrecalls) (by simp)
  | some hash =>
      rw [hlast] at hrecalls
      obtain ⟨number', text', htip', hsame⟩ := hrecalls
      obtain ⟨_, rfl⟩ := htip'.ext htip
      rwa [Ingestor.previousHash_eq_of_linked hlinked hlast]

theorem tip_of_recorded (hnumber : number + 1 = s.nextBlock channel)
    (hrecorded : Entries.get? (channel, number) s.blockHashes = some text) :
    s.Tip channel number text := by
  refine ⟨?_, hrecorded⟩
  rw [checkpoint?_eq_of_nextBlock_pos (by omega), ← hnumber, Nat.add_sub_cancel]

/-- The block that follows on the cursor carries the hash of the document before it. -/
theorem Chained.blockHash_eq_previousHash (hs : Chained allowed s₀ channel s)
    (hagrees : s.Agrees channel (some cursor)) (hlinked : Ingestor.linked cursor block = true)
    (hb : s.HasBlock channel b) (hnumber : b.blockNumber + 1 = s.nextBlock channel) :
    b.blockHash = block.header.previousHash.toHex := by
  have htip := tip_of_recorded hnumber (hs.recorded hb (by omega))
  obtain ⟨header, hshows, _⟩ := hs.shown hb
  obtain ⟨shown, _, htext⟩ := BlockHeader.eq_toHex_of_hashText hshows.blockHash
  have hsame := hagrees.same_previousHash hlinked htip
  rw [htext] at hsame ⊢
  rw [Ingestor.eq_of_sameIgnoringCase_toHex hsame]

/-- A document that continues the chain. -/
structure Successor (s₀ : MemoryStore) (channel : String) (s : MemoryStore) (b : BlockEvent) :
    Prop where
  number : b.blockNumber = s.nextBlock channel
  shown : ∃ header, b.Shows header ∧ header.Readable
  linked : ∀ {f}, s.HasBlock channel f → f.blockNumber + 1 = s.nextBlock channel →
    b.previousHash = f.blockHash
  first : ∀ {number text}, s₀.Tip channel number text → s.nextBlock channel = number + 1 →
    Ingestor.sameIgnoringCase text b.previousHash = true

theorem Chained.successor (hs : Chained allowed s₀ channel s)
    (hbehind : s.Behind channel (some cursor)) (hagrees : s.Agrees channel (some cursor))
    {rest : List Event} (hsending : Ingestor.Sending agent channel cursor block prepared rest) :
    Successor s₀ channel s (prepared.document agent channel block) where
  number := hsending.number.trans (behind_some.mp hbehind)
  shown := ⟨block.header, hsending.shows, hsending.readable⟩
  linked hf hnumber :=
    (hs.blockHash_eq_previousHash hagrees hsending.ready.linked hf hnumber).symm
  first htip hnumber := hagrees.same_previousHash hsending.ready.linked
    (tip_of_recorded hnumber.symm (hs.seed htip))

/-! ### Publishing the document of the next block -/

/-- The new document takes the place of what an earlier call has left; all others are of earlier
blocks. -/
theorem Chained.eq_or_lt_of_hasBlock (hs : Chained allowed s₀ channel s)
    (hclear : Clear allowed s channel) (hallowed : allowed agent)
    (horigin : b.origin = agent.origin channel) (hnumber : b.blockNumber = s.nextBlock channel)
    (hf : (s.accept (.block b)).HasBlock channel f) :
    f = b ∨ (s.HasBlock channel f ∧ f.blockNumber < s.nextBlock channel) := by
  obtain ⟨hmem, hchannel⟩ := hf
  by_cases hsame : (Event.block f).SameDocument (.block b)
  · exact .inl (Event.block.inj (eq_of_mem_upsert_of_same hs.separate hmem hsame))
  · refine .inr ?_
    rcases mem_of_mem_upsert hmem with heq | hmem
    · exact absurd (by rw [heq]; exact ⟨rfl, rfl⟩) hsame
    · have hold : s.HasBlock channel f := ⟨hmem, hchannel⟩
      refine ⟨hold, Nat.lt_of_le_of_ne (hs.bounds hold).2 fun hnext => hsame ⟨rfl, ?_⟩⟩
      apply Event.documentId_congr
      · have hpeer := hclear f hold hnext agent hallowed
        simpa only [Event.origin, horigin, Agent.origin] using hpeer
      · simp only [Event.channel, Event.origin, hchannel, horigin, Agent.origin]
      · simp only [Event.place, hnext, hnumber]

theorem Lineage.accept_block {header : Nat → BlockHeader} (h : Lineage s₀ channel s header)
    (hnumber : b.blockNumber = s.nextBlock channel)
    (hbefore : ∀ {f}, (s.accept (.block b)).HasBlock channel f →
      f = b ∨ (s.HasBlock channel f ∧ f.blockNumber < s.nextBlock channel)) :
    Lineage s₀ channel (s.accept (.block b)) header where
  readable hfirst hlt := h.readable hfirst hlt
  recorded hfirst hlt := by
    rw [nextBlock_accept] at hlt
    rw [blockHash_accept_of_ne (by omega)]
    exact h.recorded hfirst hlt
  linked hfirst hlt := h.linked hfirst hlt
  shown := by
    intro f hf hlt
    rw [nextBlock_accept] at hlt
    rcases hbefore hf with rfl | ⟨hf, _⟩
    · omega
    · exact h.shown hf hlt

theorem Chained.accept_successor (hs : Chained allowed s₀ channel s)
    (hb : Successor s₀ channel s b) (hclear : Clear allowed s channel) (hallowed : allowed agent)
    (horigin : b.origin = agent.origin channel) :
    Chained allowed s₀ channel (s.accept (.block b)) := by
  have hnext := hb.number
  have hpeer : (Event.block b).origin.peer = agent.peer := congrArg Origin.peer horigin
  have hcases : ∀ {f}, (s.accept (.block b)).HasBlock channel f →
      f = b ∨ (s.HasBlock channel f ∧ f.blockNumber < s.nextBlock channel) :=
    hs.eq_or_lt_of_hasBlock hclear hallowed horigin hnext
  refine ⟨hs.peer_accept hallowed hpeer, separate_upsert hs.separate, hs.grown, ?_, ?_, ?_, ?_, ?_,
    ?_, hs.lineage.imp fun _ hlineage => hlineage.accept_block hnext hcases⟩
  · intro f hf
    rcases hcases hf with rfl | ⟨hf, _⟩
    · exact ⟨hnext ▸ hs.grown, Nat.le_of_eq hnext⟩
    · exact hs.bounds hf
  · intro f hf
    rcases hcases hf with rfl | ⟨hf, _⟩
    · exact hb.shown
    · exact hs.shown hf
  · intro f g hf hg hnumber
    rcases hcases hf with rfl | ⟨hfold, hflt⟩ <;> rcases hcases hg with rfl | ⟨hgold, hglt⟩
    · omega
    · omega
    · exact hb.linked hfold (by omega)
    · exact hs.linked hfold hgold hnumber
  · intro f hf hlt
    rw [nextBlock_accept] at hlt
    rcases hcases hf with rfl | ⟨hf, _⟩
    · omega
    · rw [blockHash_accept_of_ne (by omega)]
      exact hs.recorded hf hlt
  · intro number text htip
    have htipNext := htip.nextBlock
    have hgrown := hs.grown
    rw [blockHash_accept_of_ne (by omega)]
    exact hs.seed htip
  · intro number text f htip hf hnumber
    rcases hcases hf with rfl | ⟨hf, _⟩
    · exact hb.first htip (hnext ▸ hnumber)
    · exact hs.first htip hf hnumber

theorem Chained.announced (hs : Chained allowed s₀ channel s)
    (hbehind : s.Behind channel (some cursor)) (hagrees : s.Agrees channel (some cursor))
    (hclear : Clear allowed s channel) (hallowed : allowed agent) {rest : List Event}
    (hsending : Ingestor.Sending agent channel cursor block prepared rest) :
    Announced s₀ channel (s.accept (.block (prepared.document agent channel block))) cursor.next
      block.header where
  readable := hsending.readable
  recorded := by
    have hrecorded := blockHash_accept_self s (prepared.document agent channel block)
    refine ⟨prepared.headerHash, hsending.ready.hash, ?_⟩
    rw [← hsending.number]
    exact hrecorded
  shown := by
    intro f hf hnumber
    have hnext := behind_some.mp hbehind
    rcases hs.eq_or_lt_of_hasBlock hclear hallowed rfl (hsending.number.trans hnext) hf with
      rfl | ⟨_, hlt⟩
    · exact hsending.shows
    · omega
  linked := by
    intro before hash _ hbefore hrecorded
    have hne : before ≠ (prepared.document agent channel block).blockNumber := by
      have hnumber : (prepared.document agent channel block).blockNumber = cursor.next :=
        hsending.number
      omega
    rw [blockHash_accept_of_ne hne] at hrecorded
    have htip := tip_of_recorded (hbefore.trans (behind_some.mp hbehind)) hrecorded
    exact (Ingestor.eq_of_sameIgnoringCase_toHex
      (hagrees.same_previousHash hsending.ready.linked htip)).symm

theorem Lineage.putCheckpoint {before : Nat → BlockHeader} {header : BlockHeader}
    (h : Lineage s₀ channel s before) (hannounced : Announced s₀ channel s number header)
    (hnext : number = s.nextBlock channel) :
    Lineage s₀ channel (s.putCheckpoint channel number) (Function.update before number header) := by
  have hcases : ∀ {n}, n < (s.putCheckpoint channel number).nextBlock channel →
      (n < s.nextBlock channel ∧ Function.update before number header n = before n) ∨
        (n = number ∧ Function.update before number header n = header) := by
    intro n hlt
    rw [nextBlock_putCheckpoint_self] at hlt
    rcases Nat.lt_or_eq_of_le (Nat.le_of_lt_succ hlt) with hlt | rfl
    · exact .inl ⟨hnext ▸ hlt, Function.update_of_ne (Nat.ne_of_lt hlt) ..⟩
    · exact .inr ⟨rfl, Function.update_self ..⟩
  constructor
  · intro n hfirst hlt
    rcases hcases hlt with ⟨hlt, heq⟩ | ⟨rfl, heq⟩
    · exact heq ▸ h.readable hfirst hlt
    · rw [heq]
      exact hannounced.readable
  · intro n hfirst hlt
    rcases hcases hlt with ⟨hlt, heq⟩ | ⟨rfl, heq⟩
    · exact heq ▸ h.recorded hfirst hlt
    · rw [heq]
      exact hannounced.recorded
  · intro n hfirst hlt
    have hbefore : Function.update before number header n = before n := by
      rw [nextBlock_putCheckpoint_self] at hlt
      exact Function.update_of_ne (Nat.ne_of_lt (Nat.lt_of_succ_lt_succ hlt)) ..
    rcases hcases hlt with ⟨hlt, heq⟩ | ⟨hnumber, heq⟩
    · rw [heq, hbefore]
      exact h.linked hfirst hlt
    · obtain ⟨hash, hhash, hrecorded⟩ := h.recorded hfirst (by omega)
      rw [heq, hbefore, hannounced.linked hfirst hnumber hrecorded]
      exact hhash
  · intro b hb hlt
    rcases hcases hlt with ⟨hlt, heq⟩ | ⟨hnumber, heq⟩
    · exact heq ▸ h.shown hb hlt
    · rw [heq]
      exact hannounced.shown hb hnumber

theorem Chained.putCheckpoint (hs : Chained allowed s₀ channel s)
    (hnext : number = s.nextBlock channel) {header : BlockHeader} {hash : Bytes}
    (hannounced : Announced s₀ channel s number header) (hhash : header.hash = .ok hash) :
    Chained allowed s₀ channel (s.putCheckpoint channel number) ∧
      (s.putCheckpoint channel number).Tip channel number hash.toHex ∧
      Clear allowed (s.putCheckpoint channel number) channel := by
  obtain ⟨before, hlineage⟩ := hs.lineage
  have hlineage := hlineage.putCheckpoint hannounced hnext
  have hrecorded : Entries.get? (channel, number) s.blockHashes = some hash.toHex := by
    obtain ⟨hash', hhash', hrecorded⟩ := hannounced.recorded
    obtain rfl := Except.ok.inj (hhash.symm.trans hhash')
    exact hrecorded
  subst hnext
  refine ⟨⟨hs.peer, hs.separate, ?_, ?_, hs.shown, hs.linked, ?_, hs.seed, hs.first,
    ⟨_, hlineage⟩⟩, ?_, ?_⟩
  · rw [nextBlock_putCheckpoint_self]
    exact Nat.le_succ_of_le hs.grown
  · intro b hb
    rw [nextBlock_putCheckpoint_self]
    exact ⟨(hs.bounds hb).1, Nat.le_succ_of_le (hs.bounds hb).2⟩
  · intro b hb hlt
    rw [nextBlock_putCheckpoint_self] at hlt
    rcases Nat.lt_or_eq_of_le (Nat.le_of_lt_succ hlt) with hlt | heq
    · exact hs.recorded hb hlt
    · have hshows := hannounced.shown hb heq
      obtain ⟨hash', hhash', htext⟩ := BlockHeader.eq_toHex_of_hashText hshows.blockHash
      obtain rfl := Except.ok.inj (hhash.symm.trans hhash')
      rw [heq, htext]
      exact hrecorded
  · exact ⟨Entries.get?_put_self .., hrecorded⟩
  · intro b hb hnumber
    rw [nextBlock_putCheckpoint_self] at hnumber
    have hle := (hs.bounds (b := b) hb).2
    omega

end MemoryStore

/-! ### Deployments -/

namespace Discipline

/-- Block documents form a hash chain, whatever the ledger answers. -/
def chaining (allowed : Agent → Prop) (s₀ : MemoryStore) (channel : String) :
    Discipline channel allowed (fun _ _ => True) where
  sound := Chained allowed s₀ channel
  placed cursor s := Chained allowed s₀ channel s ∧ s.Behind channel cursor ∧
    Clear allowed s channel ∧ s.Agrees channel cursor
  publishing cursor prepared rest s :=
    Chained allowed s₀ channel s ∧ s.Behind channel (some cursor) ∧
    (∃ agent block, allowed agent ∧
      Ingestor.Sending agent channel cursor block prepared rest) ∧
    (rest ≠ [] → Clear allowed s channel ∧ s.Agrees channel (some cursor)) ∧
    (rest = [] → ∃ header, header.hash = .ok prepared.headerHash ∧
      Announced s₀ channel s cursor.next header)
  sound_of_placed h := h.1
  sound_of_published h := h.1
  forget h := ⟨h.1, behind_none, h.2.2.1, agrees_none⟩
  genesis := by
    rintro s ⟨hs, _, hclear, _⟩ hnone
    exact ⟨hs, behind_genesis hnone, hclear, agrees_some.mpr hnone⟩
  resume := by
    rintro s number block storedHash hash ⟨hs, _, hclear, _⟩ hsome hstored _ _ hsame
    have hrecalls : s.Recalls channel (some hash) := ⟨number, storedHash, ⟨hsome, hstored⟩, hsame⟩
    exact ⟨hs, behind_resume hsome _, hclear, agrees_some.mpr hrecalls⟩
  begin := by
    rintro agent cursor block prepared s hallowed ⟨hs, hbehind, hclear, hagrees⟩ hblock hready
    exact ⟨hs, hbehind, ⟨agent, block, hallowed, hready.sending hblock⟩,
      fun _ => ⟨hclear, hagrees⟩, fun hnil => absurd hnil hready.events_ne_nil⟩
  accept := by
    rintro cursor prepared e rest s ⟨hs, hbehind, ⟨agent, block, hallowed, hsending⟩, hrest, _⟩
    obtain ⟨hclear, hagrees⟩ := hrest (by simp)
    have hsent : ∃ agent block, allowed agent ∧
        Ingestor.Sending agent channel cursor block prepared rest :=
      ⟨agent, block, hallowed, hsending.tail⟩
    rcases hsending.head with ⟨rfl, rfl⟩ | ⟨hmore, hkind⟩
    · have hsuccessor := hs.successor hbehind hagrees hsending
      have hannounced := hs.announced hbehind hagrees hclear hallowed hsending
      exact ⟨hs.accept_successor hsuccessor hclear hallowed rfl, hbehind, hsent,
        fun h => absurd rfl h, fun _ => ⟨block.header, hsending.ready.hash, hannounced⟩⟩
    · have hframe : Undisturbed channel s (s.accept e) := undisturbed_accept (.inl hkind)
      have hpeer : e.origin.peer = agent.peer := by rw [hsending.origin]; rfl
      exact ⟨hframe.chained hs (hs.peer_accept hallowed hpeer) (separate_upsert hs.separate),
        hbehind, hsent, fun _ => ⟨hframe.clear hclear, hframe.agrees hagrees⟩,
        fun hnil => absurd hnil hmore⟩
  abandon := by
    rintro cursor prepared e rest s ⟨hs, hbehind, _, hrest, _⟩
    obtain ⟨hclear, hagrees⟩ := hrest (by simp)
    exact ⟨hs, hbehind, hclear, hagrees⟩
  advance := by
    rintro cursor prepared s ⟨hs, hbehind, _, _, hannounced⟩
    obtain ⟨header, hhash, hannounced⟩ := hannounced rfl
    obtain ⟨hchained, htip, hclear⟩ :=
      hs.putCheckpoint (behind_some.mp hbehind) hannounced hhash
    have hrecalls : (s.putCheckpoint channel cursor.next).Recalls channel
        (some prepared.headerHash) := ⟨cursor.next, _, htip, Ingestor.sameIgnoringCase_refl _⟩
    exact ⟨hchained, behind_putCheckpoint _ _ _ _, hclear, agrees_some.mpr hrecalls⟩

theorem isolated_chaining (allowed : Agent → Prop) (s₀ : MemoryStore) (channel : String) :
    (chaining allowed s₀ channel).Isolated where
  accept := by
    rintro agent other cursor e s hallowed hother horigin ⟨hs, hbehind, hclear, hagrees⟩
    have hchannel : e.channel ≠ channel := by
      rw [Event.channel, horigin]
      exact hother.symm
    have hframe : Undisturbed channel s (s.accept e) := undisturbed_accept (.inr hchannel)
    have hpeer : e.origin.peer = agent.peer := by rw [horigin]; rfl
    exact ⟨hframe.chained hs (hs.peer_accept hallowed hpeer) (separate_upsert hs.separate), hbehind,
      hframe.clear hclear, hframe.agrees hagrees⟩
  putCheckpoint := by
    rintro other number cursor s hother ⟨hs, hbehind, hclear, hagrees⟩
    have hframe : Undisturbed channel s (s.putCheckpoint other number) :=
      undisturbed_putCheckpoint hother number
    exact ⟨hframe.chained hs hs.peer hs.separate, hbehind.putCheckpoint_of_ne hother number,
      hframe.clear hclear, hframe.agrees hagrees⟩

end Discipline

namespace MemoryStore

theorem chained_ofSeed (allowed : Agent → Prop) (seed : Option Seed) (channel : String) :
    Chained allowed (ofSeed seed) channel (ofSeed seed) := by
  have hnone : ∀ {b}, ¬ (ofSeed seed).HasBlock channel b := not_hasBlock_ofSeed seed
  refine ⟨by simp, ?_, Nat.le_refl _, fun hb => absurd hb hnone, fun hb => absurd hb hnone,
    fun hb => absurd hb hnone, fun hb => absurd hb hnone, And.right, fun _ hb => absurd hb hnone,
    fun _ => ⟨0, [], []⟩, ?_⟩
  · rw [events_ofSeed]
    exact List.Pairwise.nil
  · refine ⟨fun hfirst hlt => ?_, fun hfirst hlt => ?_, fun hfirst hlt => ?_,
      fun hb => absurd hb hnone⟩
    all_goals omega

theorem tip_ofSeed (seed : Seed) : (ofSeed (some seed)).Tip seed.channel seed.number seed.hash := by
  simp [ofSeed, MemoryStore.seed, Tip, checkpoint?]

theorem Chained.clear {allowed : Agent → Prop} {s₀ s : MemoryStore} {channel : String}
    (hs : Chained allowed s₀ channel s)
    (hpeer : ∀ a b, allowed a → allowed b → a.peer = b.peer) : Clear allowed s channel := by
  intro b hb _ agent hallowed
  obtain ⟨publisher, hpublisher, heq⟩ := hs.peer _ hb.1
  exact heq.trans (hpeer publisher agent hpublisher hallowed)

end MemoryStore

namespace Deployment

/-- The agents of some actions read from one peer. -/
def OnePeer (actions : List Action) : Prop :=
  ∀ a channels b channels', .start a channels ∈ actions → .start b channels' ∈ actions →
    a.peer = b.peer

theorem Sample.onePeer_actions {reconciling polling : Nat} :
    OnePeer (Sample.actions reconciling polling) := by
  intro a channels b channels' ha hb
  rw [Sample.eq_agent_of_start_mem ha, Sample.eq_agent_of_start_mem hb]

theorem chained_run (ledger : MemoryLedger) (seed : Option Seed) {actions : List Action}
    (h : OnePeer actions ∨ (Deployment.initial ledger seed).Uninterrupted actions)
    (channel : String) :
    ∃ allowed, Chained allowed (.ofSeed seed) channel
      ((Deployment.initial ledger seed).run actions).store.unlimited := by
  let allowed : Agent → Prop := fun agent => ∃ channels, .start agent channels ∈ actions
  let D := Discipline.chaining allowed (.ofSeed seed) channel
  have hclear : Clear allowed (.ofSeed seed) channel :=
    fun b hb => absurd hb (not_hasBlock_ofSeed seed)
  have hbegin : D.Holds (.initial ledger seed) :=
    D.holds_initial ⟨chained_ofSeed .., behind_none, hclear, agrees_none⟩ ledger
  have hdrop : (∀ s, D.sound s → D.placed none s) ∨
      (Deployment.initial ledger seed).Uninterrupted actions := by
    refine h.imp_left fun hpeer s hs => ⟨hs, behind_none, hs.clear ?_, agrees_none⟩
    rintro a b ⟨channels, ha⟩ ⟨channels', hb⟩
    exact hpeer a channels b channels' ha hb
  have hend : D.Holds ((Deployment.initial ledger seed).run actions) :=
    hbegin.run (Discipline.isolated_chaining ..) (ledgerWithin_any ..)
      (fun _ channels hmem => ⟨channels, hmem⟩) hdrop
  exact ⟨allowed, hend.sound⟩

/-- **Stored block documents form one hash chain, whatever the ledger does.**  Every document holds
a header and the hash of it, the previous hash of a document is the hash of the document before it,
and the first document behind a seed holds the hash of the seed.  This document is that of the next
number: as long as the checkpoint has not moved on from the seed there is no other. -/
theorem hash_chain (ledger : MemoryLedger) (seed : Option Seed) (actions : List Action)
    (channel : String)
    (h : OnePeer actions ∨ (Deployment.initial ledger seed).Uninterrupted actions) :
    let d := (Deployment.initial ledger seed).run actions
    (∀ b, d.store.HasBlock channel b → ∃ header, b.Shows header) ∧
    (∀ b f, d.store.HasBlock channel b → d.store.HasBlock channel f →
      f.blockNumber = b.blockNumber + 1 → f.previousHash = b.blockHash) ∧
    (∀ s, seed = some s → s.channel = channel → ∀ b, d.store.HasBlock channel b →
      s.number < b.blockNumber ∧
        (d.store.checkpoint? channel = some s.number → b.blockNumber = s.number + 1) ∧
        (b.blockNumber = s.number + 1 →
          Ingestor.sameIgnoringCase s.hash b.previousHash = true)) := by
  intro d
  obtain ⟨allowed, hs⟩ := chained_run ledger seed h channel
  refine ⟨fun b hb => ?_, fun b f hb hf => hs.linked hb hf, ?_⟩
  · obtain ⟨header, hshows, _⟩ := hs.shown hb
    exact ⟨header, hshows⟩
  rintro s rfl rfl b hb
  have htip := tip_ofSeed s
  obtain ⟨hfirst, hlast⟩ := hs.bounds hb
  rw [htip.nextBlock] at hfirst
  refine ⟨hfirst, fun hcheckpoint => Nat.le_antisymm ?_ hfirst, hs.first htip hb⟩
  exact Nat.le_trans hlast (Nat.le_of_eq (nextBlock_of_checkpoint? hcheckpoint))

/-- Block 1 behind a seed that holds the hash of block 0 in capitals. -/
theorem hash_chain_seeded :
    let seed : Seed :=
      ⟨"c", 0, "1D1C288C6851505BE0B47A0F8E7DFB91AB2ABE6AD71CEF63A3791D14588D1D0E"⟩
    let d := (Deployment.initial {} (some seed)).run (Sample.actions 4 7)
    (OnePeer (Sample.actions 4 7) ∧ d.store.checkpoint? "c" = some 1) ∧
    (∀ b, d.store.HasBlock "c" b → ∃ header, b.Shows header) ∧
    (∀ b f, d.store.HasBlock "c" b → d.store.HasBlock "c" f →
      f.blockNumber = b.blockNumber + 1 → f.previousHash = b.blockHash) ∧
    (∀ s, some seed = some s → s.channel = "c" → ∀ b, d.store.HasBlock "c" b →
      s.number < b.blockNumber ∧
        (d.store.checkpoint? "c" = some s.number → b.blockNumber = s.number + 1) ∧
        (b.blockNumber = s.number + 1 →
          Ingestor.sameIgnoringCase s.hash b.previousHash = true)) := by
  intro seed d
  have hpeer : OnePeer (Sample.actions 4 7) := Sample.onePeer_actions
  exact ⟨⟨hpeer, by decide +kernel⟩,
    hash_chain {} (some seed) (Sample.actions 4 7) "c" (.inl hpeer)⟩

end Deployment

end LedgerIndex
