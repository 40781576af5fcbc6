import LedgerIndex.Proofs.Ingest.HashChain
import LedgerIndex.Proofs.Ingest.Watched
import LedgerIndex.Proofs.Ledger.Growing

/-! # A successful resume means agreement on the whole history

A reconciliation compares one hash, that of the block of the checkpoint.  The headers that were
published form a hash chain, and so do the blocks of a ledger that is worth the name; header
encodings determine their headers.  Hence, from the checkpoint down to the first block, the
published headers and those of the ledger are the same, or else two headers on the way have
different encodings with one digest (`Deployment.resume_agrees`). -/

namespace LedgerIndex

open Ingest MemoryStore

/-- Different header encodings with the same digest. -/
def BlockHeader.Collides (header header' : BlockHeader) : Prop :=
  header.element ≠ header'.element ∧
    Sha256.digest header.element = Sha256.digest header'.element

theorem BlockHeader.eq_or_collides {header header' : BlockHeader} {hash : Bytes}
    (h : header.hash = .ok hash) (h' : header'.hash = .ok hash) (hreadable : header.Readable)
    (hreadable' : header'.Readable) : header = header' ∨ header.Collides header' := by
  by_cases helement : header.element = header'.element
  · exact .inl (element_injective hreadable hreadable' helement)
  · exact .inr ⟨helement, (hash_eq_ok h).2.symm.trans (hash_eq_ok h').2⟩

/-- **Descent.**  Two hash chains that end with the same hash are the same all the way down, or two
headers on the way collide. -/
theorem BlockHeader.eq_or_collides_below {header header' : Nat → BlockHeader} {last : Nat}
    {hash : Bytes} (hlast : (header last).hash = .ok hash) (hlast' : (header' last).hash = .ok hash)
    (hlinked : ∀ number < last, (header number).hash = .ok (header (number + 1)).previousHash)
    (hlinked' : ∀ number < last, (header' number).hash = .ok (header' (number + 1)).previousHash)
    (hreadable : ∀ number ≤ last, (header number).Readable)
    (hreadable' : ∀ number ≤ last, (header' number).Readable) :
    (∀ number ≤ last, header number = header' number) ∨
      ∃ number ≤ last, (header number).Collides (header' number) := by
  have htop := eq_or_collides hlast hlast' (hreadable last (Nat.le_refl _))
    (hreadable' last (Nat.le_refl _))
  induction last generalizing hash with
  | zero =>
      refine htop.imp (fun heq number hle => ?_) fun hcollides => ⟨0, Nat.le_refl _, hcollides⟩
      rwa [Nat.le_zero.mp hle]
  | succ last ih =>
      rcases htop with heq | hcollides
      · have hbelow := hlinked last (Nat.lt_succ_self _)
        have hbelow' := hlinked' last (Nat.lt_succ_self _)
        rw [← heq] at hbelow'
        have hnext := eq_or_collides hbelow hbelow' (hreadable last (Nat.le_succ _))
          (hreadable' last (Nat.le_succ _))
        refine (ih hbelow hbelow' (fun n hlt => hlinked n (Nat.lt_succ_of_lt hlt))
          (fun n hlt => hlinked' n (Nat.lt_succ_of_lt hlt))
          (fun n hle => hreadable n (Nat.le_succ_of_le hle))
          (fun n hle => hreadable' n (Nat.le_succ_of_le hle)) hnext).imp (fun hsame n hle => ?_) ?_
        · rcases Nat.lt_or_eq_of_le hle with hlt | rfl
          · exact hsame n (Nat.le_of_lt_succ hlt)
          · exact heq
        · rintro ⟨n, hle, hcollides⟩
          exact ⟨n, Nat.le_succ_of_le hle, hcollides⟩
      · exact .inr ⟨last + 1, Nat.le_refl _, hcollides⟩

namespace MemoryLedger

/-- The header of the block that a ledger has under a number. -/
def header? (ledger : MemoryLedger) (channel : String) (number : Nat) : Option BlockHeader :=
  (ledger.block? channel number).bind fun bytes =>
    (Ingestor.decodeNumbered number bytes).toOption.map (·.header)

theorem block_of_header? {ledger : MemoryLedger} {channel : String} {number : Nat}
    {header : BlockHeader} (h : ledger.header? channel number = some header) :
    ∃ bytes block, ledger.block? channel number = some bytes ∧
      Ingestor.decodeNumbered number bytes = .ok block ∧ block.header = header := by
  obtain ⟨bytes, hbytes, h⟩ := Option.bind_eq_some_iff.mp h
  obtain ⟨block, hblock, hheader⟩ := Option.map_eq_some_iff.mp h
  cases hdecoded : Ingestor.decodeNumbered number bytes with
  | error e =>
      rw [hdecoded] at hblock
      cases hblock
  | ok decoded =>
      rw [hdecoded] at hblock
      cases hblock
      exact ⟨bytes, block, hbytes, hdecoded, hheader⟩

/-- The blocks of a channel up to `last` can be read, and each carries the hash of the one before
it. -/
structure Linked (ledger : MemoryLedger) (channel : String) (last : Nat)
    (header : Nat → BlockHeader) : Prop where
  served : ∀ number ≤ last, ledger.header? channel number = some (header number)
  linked : ∀ number < last, (header number).hash = .ok (header (number + 1)).previousHash

theorem Linked.readable {ledger : MemoryLedger} {channel : String} {last number : Nat}
    {header : Nat → BlockHeader} {hash : Bytes} (h : ledger.Linked channel last header)
    (hnumber : number ≤ last) (hhash : (header number).hash = .ok hash) :
    (header number).Readable := by
  obtain ⟨bytes, block, _, hblock, hheader⟩ := block_of_header? (h.served number hnumber)
  rw [← hheader] at hhash ⊢
  exact Ingestor.readable_of_hash hblock hhash

end MemoryLedger

namespace MemoryStore

/-- A document agrees with a header: it holds the same previous hash and the same data hash. -/
def Agreement (s : MemoryStore) (channel : String) (header : Nat → BlockHeader) (number : Nat) :
    Prop :=
  ∀ b, s.HasBlock channel b → b.blockNumber = number →
    b.previousHash = (header number).previousHash.toHex ∧
      b.dataHash = (header number).dataHash.toHex

/-- A header was published for a block: its hash is the one that is recorded, and the document of
the block shows it. -/
structure Published (s : MemoryStore) (channel : String) (number : Nat) (shown : BlockHeader) :
    Prop where
  recorded : ∃ hash, shown.hash = .ok hash ∧
    Entries.get? (channel, number) s.blockHashes = some hash.toHex
  shown : ∀ b, s.HasBlock channel b → b.blockNumber = number → b.Shows shown

/-- The header that was published for a block collides with that of the ledger. -/
def Collision (s : MemoryStore) (channel : String) (header : Nat → BlockHeader) (number : Nat) :
    Prop :=
  ∃ shown, s.Published channel number shown ∧ shown.Collides (header number)

end MemoryStore

/-! ### Reconciliation -/

theorem Ingestor.found_of_reconcile {ingestor : Ingestor} {ledger : MemoryLedger}
    {store : MemoryStore} {network : Http.Network} {session : Session} {next : Nat}
    (hsite : session.site = ⟨.memory ledger, .memory store, network⟩)
    (h : (session.run ingestor.reconcile).1.1 = .ok next) :
    ∃ cursor, cursor.next = next ∧ Found ledger.served ingestor.channel store.unlimited cursor := by
  have hserved : ∀ q, ledger.served q (ledger.answer q) := fun _ => rfl
  have hsafe : Program.Safe (environment ledger.served) (fun _ => True) _ ingestor.reconcile
      store.unlimited := safe_reconcile trivial
  obtain ⟨_, _, _, _, ⟨e, herror, _⟩ | ⟨cursor, hok, _, hfound⟩⟩ :=
    post_of_safe hserved hsite hsafe
  · rw [herror] at h
    cases h
  · rw [hok] at h
    exact ⟨cursor, Except.ok.inj h, hfound⟩

/-- The last header that was published has the hash of the block of the ledger. -/
theorem MemoryStore.Lineage.hash_of_found {channel : String} {s₀ s : MemoryStore} {last : Nat}
    {header before : Nat → BlockHeader} {ledger : MemoryLedger}
    (hs : Lineage s₀ channel s before) (hfirst : s₀.nextBlock channel ≤ last)
    (hledger : ledger.Linked channel last header)
    (hcheckpoint : s.checkpoint? channel = some last) {cursor : Cursor}
    (h : Ingestor.Found ledger.served channel s cursor) :
    ∃ hash, (before last).hash = .ok hash ∧ (header last).hash = .ok hash := by
  cases h with
  | genesis hnone => exact absurd (hnone.symm.trans hcheckpoint) (by simp)
  | @resume number storedHash block hash hsome hstored hfetched hhash hsame =>
      obtain rfl : number = last := Option.some.inj (hsome.symm.trans hcheckpoint)
      obtain ⟨bytes, hbytes, hblock⟩ := hfetched
      obtain ⟨bytes', block', hbytes', hblock', hheader⟩ :=
        MemoryLedger.block_of_header? (hledger.served number (Nat.le_refl _))
      have hserved := MemoryLedger.block?_of_answer hbytes.symm
      obtain rfl : bytes = bytes' := Option.some.inj (hserved.symm.trans hbytes')
      obtain rfl : block = block' := Except.ok.inj (hblock.symm.trans hblock')
      obtain ⟨shown, hshown, hrecorded⟩ := hs.recorded hfirst
        (Nat.lt_of_lt_of_eq (Nat.lt_succ_self _) (nextBlock_of_checkpoint? hcheckpoint).symm)
      rw [Option.some.inj (hstored.symm.trans hrecorded)] at hsame
      obtain rfl := Ingestor.eq_of_sameIgnoringCase_toHex hsame
      exact ⟨shown, hshown, hheader ▸ hhash⟩

namespace Deployment

theorem OnePeer.exists_peer {actions : List Action} (h : OnePeer actions) :
    ∃ peer, ∀ agent channels, .start agent channels ∈ actions → agent.peer = peer := by
  by_cases hstart : ∃ agent channels, .start agent channels ∈ actions
  · obtain ⟨agent, channels, hmem⟩ := hstart
    exact ⟨agent.peer, fun a channels' ha => h a channels' agent channels ha hmem⟩
  · exact ⟨"", fun agent channels hmem => absurd ⟨agent, channels, hmem⟩ hstart⟩

/-- **A successful resume means agreement on the whole history.**  A store that was filled from
nothing, whatever the ledger did, has checkpoint `last`; a ledger now has linked blocks up to there,
and a reconciliation succeeds.  Then the documents of all blocks up to the checkpoint hold the
previous hash and the data hash of the ledger, or else the header that was published for a block and
that of the ledger have different encodings with one digest.  With one peer no document is
missing. -/
theorem resume_agrees (before : MemoryLedger) {actions : List Action}
    (h : OnePeer actions ∨ (Deployment.initial before none).Uninterrupted actions)
    {ingestor : Ingestor} {last : Nat} {store : MemoryStore}
    (hstore : store = ((Deployment.initial before none).run actions).store)
    (hcheckpoint : store.checkpoint? ingestor.channel = some last) {ledger : MemoryLedger}
    {header : Nat → BlockHeader} (hledger : ledger.Linked ingestor.channel last header)
    {session : Session} {network : Http.Network}
    (hsite : session.site = ⟨.memory ledger, .memory store, network⟩)
    (hreconcile : (session.run ingestor.reconcile).1.1 = .ok (last + 1)) :
    (OnePeer actions → ∀ number ≤ last,
      ∃ b, store.HasBlock ingestor.channel b ∧ b.blockNumber = number) ∧
    ((∀ number ≤ last, store.Agreement ingestor.channel header number) ∨
      ∃ number ≤ last, store.Collision ingestor.channel header number) := by
  obtain ⟨allowed, hs⟩ := chained_run before none h ingestor.channel
  obtain ⟨shown, hlineage⟩ := hs.lineage
  obtain ⟨cursor, _, hfound⟩ := Ingestor.found_of_reconcile hsite hreconcile
  subst hstore
  have hlt : ∀ {number}, number ≤ last → number
      < ((Deployment.initial before none).run actions).store.unlimited.nextBlock
        ingestor.channel := fun hnumber =>
    Nat.lt_of_lt_of_eq (Nat.lt_succ_of_le hnumber) (nextBlock_of_checkpoint? hcheckpoint).symm
  refine ⟨fun hpeer number hnumber => ?_, ?_⟩
  · obtain ⟨peer, hagents⟩ := hpeer.exists_peer
    exact (documented before none hagents ingestor.channel).document number (Nat.zero_le _)
      (hlt hnumber)
  have hpublished : ∀ number ≤ last,
      ((Deployment.initial before none).run actions).store.Published ingestor.channel number
        (shown number) := by
    intro number hnumber
    refine ⟨hlineage.recorded (Nat.zero_le _) (hlt hnumber), ?_⟩
    rintro b hb rfl
    exact hlineage.shown hb (hlt hnumber)
  obtain ⟨hash, hhash, hhash'⟩ := hlineage.hash_of_found (Nat.zero_le _) hledger hcheckpoint hfound
  have hreadable : ∀ number ≤ last, (header number).Readable := by
    intro number hnumber
    rcases Nat.lt_or_eq_of_le hnumber with hbelow | rfl
    · exact hledger.readable hnumber (hledger.linked number hbelow)
    · exact hledger.readable hnumber hhash'
  refine (BlockHeader.eq_or_collides_below hhash hhash'
    (fun number hbelow => hlineage.linked (Nat.zero_le _) (hlt hbelow)) hledger.linked
    (fun number hnumber => hlineage.readable (Nat.zero_le _) (hlt hnumber)) hreadable).imp
    (fun hsame number hnumber b hb hbnumber => ?_) ?_
  · have hshows := (hpublished number hnumber).shown b hb hbnumber
    rw [← hsame number hnumber]
    exact ⟨hshows.previousHash, hshows.dataHash⟩
  · rintro ⟨number, hnumber, hcollides⟩
    exact ⟨number, hnumber, _, hpublished number hnumber, hcollides⟩

/-- A second engine resumes behind two blocks. -/
theorem resume_agrees_two_blocks :
    let d := (Deployment.initial {} none).run (Sample.actions 2 13)
    let ingestor := Ingestor.start Sample.agent "c"
    let header (number : Nat) : BlockHeader :=
      if number = 0 then ⟨0, [], []⟩ else ⟨1, Sample.firstHash, []⟩
    let session : Session :=
      { site := ⟨.memory d.ledger, .memory d.store, .unreachable⟩, channel := "c" }
    (OnePeer (Sample.actions 2 13) ∧ d.store.checkpoint? "c" = some 1 ∧
      d.ledger.Linked "c" 1 header ∧ (session.run ingestor.reconcile).1.1 = .ok 2) ∧
    (∀ number ≤ 1, ∃ b, d.store.HasBlock "c" b ∧ b.blockNumber = number) ∧
    ((∀ number ≤ 1, d.store.Agreement "c" header number) ∨
      ∃ number ≤ 1, d.store.Collision "c" header number) := by
  intro d ingestor header session
  have hpeer : OnePeer (Sample.actions 2 13) := Sample.onePeer_actions
  have hcheckpoint : d.store.checkpoint? "c" = some 1 := by decide +kernel
  have hledger : d.ledger.Linked "c" 1 header := ⟨by decide +kernel, by decide +kernel⟩
  have hreconcile : (session.run ingestor.reconcile).1.1 = .ok 2 := by decide +kernel
  obtain ⟨hdocument, hagrees⟩ :=
    resume_agrees {} (.inl hpeer) rfl hcheckpoint hledger rfl hreconcile
  exact ⟨⟨hpeer, hcheckpoint, hledger, hreconcile⟩, hdocument hpeer, hagrees⟩

end Deployment

end LedgerIndex
