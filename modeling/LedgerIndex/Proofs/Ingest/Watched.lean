import LedgerIndex.Proofs.Der
import LedgerIndex.Proofs.Ingest.Surroundings

/-! # Programs beside a ledger and a store in memory

Beside a ledger in memory that stays as it is, all answers that a program gets are those of the
ledger and of its store, except for what it sees when it looks for a request to stop.  A `Watched`
state keeps the store together with these looks, so that what a program did can be told from what it
saw.  A session over memory is such a run (`Watched.exists_of_session`), and so is a run in the
world in which the looks follow a given pattern (`Watched.world`). -/

namespace LedgerIndex

open Ingest

/-- A store in memory, and what a program saw whenever it looked for a request to stop. -/
structure Watched where
  store : MemoryStore
  looks : List Bool := []

/-! ### The ledger -/

namespace MemoryLedger

variable {ledger : MemoryLedger} {channel : String} {number : Nat} {hash : Bytes} {e : LedgerError}

/-- What a ledger answers, and nothing else. -/
def served (ledger : MemoryLedger) : Ledger.Serving :=
  fun q answer => answer = ledger.answer q

theorem error_of_tipHeight (h : ledger.answer (.tipHeight channel) = .error e) :
    e = outage ∨ e = .unknownChannel channel := by
  unfold answer at h
  split at h
  · exact .inl (Except.error.inj h).symm
  · simp only [lookUp] at h
    split at h
    · cases h
    · exact .inr (Except.error.inj h).symm

theorem error_of_block (h : ledger.answer (.block channel number) = .error e) :
    e = outage ∨ e = .unknownChannel channel ∨ e = .blockNotFound channel number := by
  unfold answer at h
  split at h
  · exact .inl (Except.error.inj h).symm
  · simp only [lookUp] at h
    split at h
    · split at h
      · cases h
      · exact .inr (.inr (Except.error.inj h).symm)
    · exact .inr (.inl (Except.error.inj h).symm)

/-- The ledger serves a block that can be read, under its own number, and this is the hash of its
header. -/
def HasHash (ledger : MemoryLedger) (channel : String) (number : Nat) (hash : Bytes) : Prop :=
  ∃ bytes block, ledger.answer (.block channel number) = .ok bytes ∧
    Block.decode bytes = .ok block ∧ block.header.number = number ∧
    number ≤ BlockHeader.greatestNumber ∧ block.header.hash = .ok hash

theorem hasHash_iff : ledger.HasHash channel number hash ↔
    ∃ bytes block, ledger.answer (.block channel number) = .ok bytes ∧
      Ingestor.decodeNumbered number bytes = .ok block ∧ block.header.hash = .ok hash := by
  constructor
  · rintro ⟨bytes, block, hbytes, hdecoded, hnumber, _, hhash⟩
    refine ⟨bytes, block, hbytes, ?_, hhash⟩
    rw [Ingestor.decodeNumbered, hdecoded]
    exact if_pos hnumber
  · rintro ⟨bytes, block, hbytes, hblock, hhash⟩
    obtain ⟨hdecoded, hnumber⟩ := Ingestor.decodeNumbered_eq_ok hblock
    have hle := (BlockHeader.hash_eq_ok hhash).1
    exact ⟨bytes, block, hbytes, hdecoded, hnumber, hnumber ▸ hle, hhash⟩

end MemoryLedger

/-! ### What a program sees -/

namespace Watched

/-- The ledger and the store answer; a look for a request to stop shows either, and is kept. -/
def environment (ledger : MemoryLedger) : Environment Watched
  | .ledger q, w, answer, w' => answer = ledger.answer q ∧ w' = w
  | .store q, w, answer, w' =>
      answer = (w.store.answer q).1 ∧ w' = { w with store := (w.store.answer q).2 }
  | .cancelled, w, seen, w' => w' = { w with looks := w.looks ++ [seen] }
  | .report _, w, _, w' => w' = w

/-- Safety beside a ledger in memory, of a program that is not dropped on the way. -/
abbrev Yields {α : Type} (ledger : MemoryLedger) (post : α → Watched → Prop) (p : Program α)
    (w : Watched) : Prop :=
  Program.Safe (environment ledger) (fun _ => True) post p w

/-- The same for a program that may fail. -/
abbrev Attempts {α : Type} (ledger : MemoryLedger) (good : α → Watched → Prop)
    (bad : IngestError → Watched → Prop) (p : Attempt α) (w : Watched) : Prop :=
  Attempt.Safe (environment ledger) (fun _ => True) good bad p w

/-! ### Worlds -/

/-- A world over memory in which the looks for a request to stop show what `stop` says, one after
the other. -/
def world (ledger : MemoryLedger) (stop : Nat → Bool) : Program.World Watched
  | .ledger q, w => (ledger.answer q, w)
  | .store q, w => ((w.store.answer q).1, { w with store := (w.store.answer q).2 })
  | .cancelled, w => (stop w.looks.length, { w with looks := w.looks ++ [stop w.looks.length] })
  | .report _, w => ((), w)

theorem within_world (ledger : MemoryLedger) (stop : Nat → Bool) :
    (world ledger stop).Within (environment ledger) Eq := by
  rintro q w _ rfl
  refine ⟨(world ledger stop q w).2, ?_, rfl⟩
  cases q with
  | ledger q => exact ⟨rfl, rfl⟩
  | store q => exact ⟨rfl, rfl⟩
  | cancelled => rfl
  | report progress => rfl

theorem Yields.run {α : Type} {ledger : MemoryLedger} {post : α → Watched → Prop} {p : Program α}
    {w : Watched} (h : Yields ledger post p w) (stop : Nat → Bool) :
    post (p.run (world ledger stop) w).1 (p.run (world ledger stop) w).2 := by
  obtain ⟨_, rfl, hpost⟩ := Program.Safe.run (within_world ledger stop) h rfl
  exact hpost

/-- A session that goes on from `start`, over memory: if no block sets the request to stop, all
looks show what `start` shows. -/
structure Follows (start : Session) (ledger : MemoryLedger) (network : Http.Network)
    (session : Session) (w : Watched) : Prop where
  site : session.site = ⟨.memory ledger, .memory w.store, network⟩
  quiet : start.stopAt = none →
    session.stopAt = none ∧ session.stopped = start.stopped ∧ ∀ seen ∈ w.looks, seen = start.stopped

theorem within_session (start : Session) (ledger : MemoryLedger) (network : Http.Network) :
    Program.World.Within Session.world (environment ledger) (Follows start ledger network) := by
  rintro q session w ⟨hsite, hquiet⟩
  cases q with
  | ledger q =>
      have hask : session.site.askLedger q = (ledger.answer q, session.site) := by
        rw [Site.askLedger, hsite]
      refine ⟨w, ⟨by rw [Session.world, hask], rfl⟩, by rw [Session.world, hask]; exact hsite,
        fun hnone => ?_⟩
      obtain ⟨hat, hstopped, hlooks⟩ := hquiet hnone
      refine ⟨hat, ?_, hlooks⟩
      have hsets : session.setsStop q = false := by
        unfold Session.setsStop
        split
        · simp [hat]
        · rfl
      show (session.stopped || session.setsStop q) = start.stopped
      rw [hsets, Bool.or_false, hstopped]
  | store q =>
      have hask : session.site.askStore q = ((w.store.answer q).1,
          ⟨.memory ledger, .memory (w.store.answer q).2, network⟩) := by
        rw [Site.askStore, hsite]
      refine ⟨_, ⟨by rw [Session.world, hask], rfl⟩, by rw [Session.world, hask], hquiet⟩
  | cancelled =>
      refine ⟨_, rfl, hsite, fun hnone => ?_⟩
      obtain ⟨hat, hstopped, hlooks⟩ := hquiet hnone
      refine ⟨hat, hstopped, fun seen hseen => ?_⟩
      rcases List.mem_append.mp hseen with hseen | hseen
      · exact hlooks seen hseen
      · rw [List.mem_singleton.mp hseen]
        exact hstopped
  | report progress => exact ⟨w, rfl, hsite, hquiet⟩

theorem exists_of_session {α : Type} {ledger : MemoryLedger} {post : α → Watched → Prop}
    {p : Program α} {store : MemoryStore} (h : Yields ledger post p ⟨store, []⟩)
    {session : Session} {network : Http.Network}
    (hsite : session.site = ⟨.memory ledger, .memory store, network⟩) :
    ∃ w, Follows session ledger network (session.run p).2 w ∧ post (session.run p).1 w :=
  Program.Safe.run (within_session session ledger network) h
    ⟨hsite, fun hnone => ⟨hnone, rfl, by simp⟩⟩

/-! ### Questions -/

variable {ledger : MemoryLedger} {w : Watched} {channel : String}

theorem attempts_ledger {q : Ledger.Query} {good : q.Value → Watched → Prop}
    {bad : IngestError → Watched → Prop}
    (hgood : ∀ value, ledger.answer q = .ok value → good value w)
    (hbad : ∀ e, ledger.answer q = .error e → bad (.ofLedger channel e) w) :
    Attempts ledger good bad (Attempt.ledger channel q) w := by
  refine Attempt.Safe.askLedger trivial ?_
  rintro answer _ ⟨rfl, rfl⟩
  exact ⟨trivial, hgood, hbad⟩

theorem attempts_store {q : Store.Query} {good : q.Value → Watched → Prop}
    {bad : IngestError → Watched → Prop}
    (hgood : ∀ value, (w.store.answer q).1 = .ok value →
      good value { w with store := (w.store.answer q).2 })
    (hbad : ∀ e, (w.store.answer q).1 = .error e →
      bad (.store channel e) { w with store := (w.store.answer q).2 }) :
    Attempts ledger good bad (Attempt.store channel q) w := by
  refine Attempt.Safe.askStore trivial ?_
  rintro answer _ ⟨rfl, rfl⟩
  exact ⟨trivial, hgood, hbad⟩

/-! ### Blocks -/

/-- Why a ledger gives no block under a number, with the error that says so. -/
inductive Unfetched (ledger : MemoryLedger) (channel : String) (number : Nat) : IngestError → Prop
  | refused {e : LedgerError} (h : ledger.answer (.block channel number) = .error e) :
      Unfetched ledger channel number (.ofLedger channel e)
  | unreadable {bytes : Bytes} {e : DecodeError}
      (hbytes : ledger.answer (.block channel number) = .ok bytes)
      (h : Ingestor.decodeNumbered number bytes = .error e) :
      Unfetched ledger channel number (.decode channel number e)

theorem attempts_fetch {number : Nat} {good : Block → Watched → Prop}
    {bad : IngestError → Watched → Prop}
    (hgood : ∀ block, Ingestor.Fetched ledger.served channel number block → good block w)
    (hbad : ∀ e, Unfetched ledger channel number e → bad e w) :
    Attempts ledger good bad (Ingestor.fetch channel number) w := by
  refine Attempt.Safe.bind (attempts_ledger (fun bytes hbytes => ?_)
    fun e he => hbad _ (.refused he))
  exact Attempt.Safe.ofExcept trivial (fun block hblock => hgood block ⟨bytes, hbytes.symm, hblock⟩)
    fun e he => hbad _ (.unreadable hbytes he)

end Watched

end LedgerIndex
