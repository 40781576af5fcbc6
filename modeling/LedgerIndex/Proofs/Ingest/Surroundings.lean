import LedgerIndex.Proofs.Ingest.Deployment
import LedgerIndex.Proofs.Ingest.Steps

/-! # What a program finds in a deployment

Seen by a program, the store of a deployment takes or refuses an event as it likes, and the ledger
gives whatever answers `served` lets pass: `MemoryStore.environment`.  A deployment whose ledger
answers within `served` is such an environment (`environment_reply`), once the count of events that
the store still takes is left out of its state.

Beside it stand the rules for the questions that an ingestor asks, and what is known of a block that
was fetched (`Ingestor.Fetched`). -/

namespace LedgerIndex

open Ingest

/-- Which answers a ledger may give. -/
abbrev Ledger.Serving : Type :=
  (q : Ledger.Query) → q.Answer → Prop

namespace MemoryStore

/-- The number of the block behind the checkpoint of a channel. -/
def nextBlock (store : MemoryStore) (channel : String) : Nat :=
  match Entries.get? channel store.checkpoints with
  | none => 0
  | some number => number + 1

/-- The store without its limit on events. -/
def unlimited (store : MemoryStore) : MemoryStore :=
  { store with failingPuts := none }

theorem unlimited_of_failingPuts {s : MemoryStore} (h : s.failingPuts = none) :
    s.unlimited = s := by
  rw [unlimited, ← h]

/-- A store that may refuse any event, beside a ledger that answers within `served`. -/
def environment (served : Ledger.Serving) : Environment MemoryStore
  | .ledger q, s, answer, t => served q answer ∧ t = s
  | .store (.putEvent e), s, answer, t =>
      (answer = .error refusal ∧ t = s) ∨ (answer = .ok () ∧ t = s.accept e)
  | .store q, s, answer, t => s.answer q = (answer, t)
  | .cancelled, s, _, t => t = s
  | .report _, s, _, t => t = s

@[simp] theorem nextBlock_accept (s : MemoryStore) (e : Event) (channel : String) :
    (s.accept e).nextBlock channel = s.nextBlock channel := rfl

@[simp] theorem nextBlock_putCheckpoint_self (s : MemoryStore) (channel : String) (number : Nat) :
    (s.putCheckpoint channel number).nextBlock channel = number + 1 := by
  simp [nextBlock, putCheckpoint]

theorem nextBlock_putCheckpoint_of_ne (s : MemoryStore) {channel other : String}
    (h : channel ≠ other) (number : Nat) :
    (s.putCheckpoint other number).nextBlock channel = s.nextBlock channel := by
  simp [nextBlock, putCheckpoint, Entries.get?_put_of_ne h]

/-- A cursor, where there is one, stands behind the checkpoint of the channel. -/
def Behind (store : MemoryStore) (channel : String) (cursor : Option Cursor) : Prop :=
  ∀ c, cursor = some c → c.next = store.nextBlock channel

theorem behind_none {s : MemoryStore} {channel : String} : s.Behind channel none := nofun

theorem behind_some {s : MemoryStore} {channel : String} {cursor : Cursor} :
    s.Behind channel (some cursor) ↔ cursor.next = s.nextBlock channel := by
  simp [Behind]

theorem behind_genesis {s : MemoryStore} {channel : String}
    (h : Entries.get? channel s.checkpoints = none) : s.Behind channel (some .genesis) := by
  rw [behind_some, nextBlock, h]
  rfl

theorem behind_resume {s : MemoryStore} {channel : String} {number : Nat}
    (h : Entries.get? channel s.checkpoints = some number) (hash : Option Bytes) :
    s.Behind channel (some ⟨number + 1, hash⟩) := by
  rw [behind_some, nextBlock, h]

theorem behind_putCheckpoint (s : MemoryStore) (channel : String) (number : Nat)
    (hash : Option Bytes) :
    (s.putCheckpoint channel number).Behind channel (some ⟨number + 1, hash⟩) := by
  rw [behind_some, nextBlock_putCheckpoint_self]

theorem Behind.accept {s : MemoryStore} {channel : String} {cursor : Option Cursor}
    (h : s.Behind channel cursor) (e : Event) : (s.accept e).Behind channel cursor := h

theorem Behind.putCheckpoint_of_ne {s : MemoryStore} {channel other : String}
    {cursor : Option Cursor} (h : s.Behind channel cursor) (hother : channel ≠ other)
    (number : Nat) : (s.putCheckpoint other number).Behind channel cursor := by
  intro c hc
  rw [nextBlock_putCheckpoint_of_ne s hother]
  exact h c hc

/-- **A deployment is an environment of this kind.** -/
theorem environment_reply {served : Ledger.Serving} {d : Deployment}
    (h : ∀ q, served q (d.ledger.answer q)) (cancelled : Bool) (q : Query) :
    environment served q d.store.unlimited (d.reply cancelled q).1
      (d.reply cancelled q).2.unlimited := by
  cases q with
  | ledger q => exact ⟨h q, rfl⟩
  | store q =>
      cases q with
      | putEvent e =>
          by_cases hlimit : d.store.failingPuts = some 0
          · exact .inl (by simp [Deployment.reply, answer, putEvent, hlimit])
          · exact .inr (by simp [Deployment.reply, answer, putEvent, hlimit, accept, unlimited])
      | checkpoint channel => rfl
      | putCheckpoint channel number => rfl
      | blockHash channel number => rfl
  | cancelled => rfl
  | report progress => rfl

/-- What is safe in such an environment holds at the end of a session over memory. -/
theorem post_of_safe {α : Type} {served : Ledger.Serving} {inv : MemoryStore → Prop}
    {post : α → MemoryStore → Prop} {ledger : MemoryLedger} {network : Http.Network}
    (hserved : ∀ q, served q (ledger.answer q)) {p : Program α} {store : MemoryStore}
    {session : Session} (hsite : session.site = ⟨.memory ledger, .memory store, network⟩)
    (h : Program.Safe (environment served) inv post p store.unlimited) :
    ∃ store', (session.run p).2.site = ⟨.memory ledger, .memory store', network⟩ ∧
      post (session.run p).1 store'.unlimited := by
  let sees (session : Session) (s : MemoryStore) : Prop :=
    ∃ store, session.site = ⟨.memory ledger, .memory store, network⟩ ∧ store.unlimited = s
  have hworld : Program.World.Within Session.world (environment served) sees := by
    rintro query session _ ⟨store, hsite, rfl⟩
    let d : Deployment := ⟨ledger, store, .stopped⟩
    obtain ⟨store₁, hreply, hsite₁⟩ := Deployment.world_eq_reply hsite d.activity query
    have hstep := environment_reply (d := d) hserved session.stopped query
    rw [hreply] at hstep
    exact ⟨store₁.unlimited, hstep, store₁, hsite₁, rfl⟩
  obtain ⟨_, ⟨store', hsite', rfl⟩, hpost⟩ := h.run hworld ⟨store, hsite, rfl⟩
  exact ⟨store', hsite', hpost⟩

end MemoryStore

/-- At every moment of a run the ledger answers within `served`. -/
def Deployment.LedgerWithin (served : Ledger.Serving) : Deployment → List Action → Prop
  | _, [] => True
  | d, action :: actions =>
    (∀ q, served q (d.ledger.answer q)) ∧ LedgerWithin served (d.step action) actions

theorem Deployment.ledgerWithin_any (d : Deployment) (actions : List Action) :
    d.LedgerWithin (fun _ _ => True) actions := by
  induction actions generalizing d with
  | nil => trivial
  | cons action actions ih => exact ⟨fun _ => trivial, ih _⟩

open MemoryStore (environment)

variable {served : Ledger.Serving} {inv : MemoryStore → Prop} {s : MemoryStore} {channel : String}
  {number : Nat}

/-! ### Questions -/

namespace Attempt

theorem Safe.ledger {q : Ledger.Query} {good : q.Value → MemoryStore → Prop}
    {bad : IngestError → MemoryStore → Prop} (hs : inv s)
    (hgood : ∀ value, served q (.ok value) → good value s)
    (hbad : ∀ e, served q (.error e) → bad (IngestError.ofLedger channel e) s) :
    Safe (environment served) inv good bad (Attempt.ledger channel q) s := by
  refine Safe.askLedger hs ?_
  rintro answer t ⟨hanswer, rfl⟩
  refine ⟨hs, ?_, ?_⟩
  · rintro value rfl
    exact hgood value hanswer
  · rintro e rfl
    exact hbad e hanswer

theorem Safe.store {q : Store.Query} (value : q.Value) {t : MemoryStore}
    {good : q.Value → MemoryStore → Prop} {bad : IngestError → MemoryStore → Prop}
    (hanswer : ∀ answer u, environment served (.store q) s answer u → answer = .ok value ∧ u = t)
    (hs : inv s) (ht : inv t) (hgood : good value t) :
    Safe (environment served) inv good bad (Attempt.store channel q) s := by
  refine Safe.askStore hs fun answer u hu => ?_
  obtain ⟨rfl, rfl⟩ := hanswer answer u hu
  refine ⟨ht, ?_, nofun⟩
  rintro _ ⟨⟩
  exact hgood

theorem Safe.checkpoint {other : String} {good : Option Nat → MemoryStore → Prop}
    {bad : IngestError → MemoryStore → Prop} (hs : inv s)
    (hgood : good (Entries.get? other s.checkpoints) s) :
    Safe (environment served) inv good bad (Attempt.store channel (.checkpoint other)) s := by
  refine Safe.store (Entries.get? other s.checkpoints) (fun answer u hu => ?_) hs hs hgood
  cases hu
  exact ⟨rfl, rfl⟩

theorem Safe.blockHash {other : String} {good : Option String → MemoryStore → Prop}
    {bad : IngestError → MemoryStore → Prop} (hs : inv s)
    (hgood : good (Entries.get? (other, number) s.blockHashes) s) :
    Safe (environment served) inv good bad (Attempt.store channel (.blockHash other number)) s := by
  refine Safe.store (Entries.get? (other, number) s.blockHashes) (fun answer u hu => ?_) hs hs hgood
  cases hu
  exact ⟨rfl, rfl⟩

theorem Safe.putCheckpoint {other : String} {good : Unit → MemoryStore → Prop}
    {bad : IngestError → MemoryStore → Prop} (hs : inv s) (ht : inv (s.putCheckpoint other number))
    (hgood : good () (s.putCheckpoint other number)) :
    Safe (environment served) inv good bad
      (Attempt.store channel (.putCheckpoint other number)) s := by
  refine Safe.store () (fun answer u hu => ?_) hs ht hgood
  cases hu
  exact ⟨rfl, rfl⟩

theorem Safe.putEvent {e : Event} {good : Unit → MemoryStore → Prop}
    {bad : IngestError → MemoryStore → Prop} (hs : inv s) (ht : inv (s.accept e))
    (hgood : good () (s.accept e)) (hbad : bad (.store channel MemoryStore.refusal) s) :
    Safe (environment served) inv good bad (Attempt.store channel (.putEvent e)) s := by
  refine Safe.askStore hs ?_
  rintro answer t (⟨rfl, rfl⟩ | ⟨rfl, rfl⟩)
  · refine ⟨hs, nofun, ?_⟩
    rintro _ ⟨⟩
    exact hbad
  · exact ⟨ht, fun _ _ => hgood, nofun⟩

end Attempt

/-! ### Blocks -/

namespace Ingestor

/-- A block that the ledger serves under a number. -/
def Fetched (served : Ledger.Serving) (channel : String) (number : Nat) (block : Block) : Prop :=
  ∃ bytes, served (.block channel number) (.ok bytes) ∧ decodeNumbered number bytes = .ok block

theorem safe_fetch {good : Block → MemoryStore → Prop} {bad : IngestError → MemoryStore → Prop}
    (hs : inv s) (hgood : ∀ block, Fetched served channel number block → good block s)
    (hbad : ∀ e, bad e s) :
    Attempt.Safe (environment served) inv good bad (fetch channel number) s := by
  refine Attempt.Safe.bind (Attempt.Safe.ledger hs ?_ fun e _ => hbad _)
  intro bytes hbytes
  exact Attempt.Safe.ofExcept hs (fun block hblock => hgood block ⟨bytes, hbytes, hblock⟩)
    fun e _ => hbad _

theorem safe_fetchCheckpoint {good : Block → MemoryStore → Prop}
    {bad : IngestError → MemoryStore → Prop} (hs : inv s)
    (hgood : ∀ block, Fetched served channel number block → good block s) (hbad : ∀ e, bad e s) :
    Attempt.Safe (environment served) inv good bad (fetchCheckpoint channel number) s := by
  refine Attempt.Safe.tryCatch (safe_fetch hs hgood fun e => ?_)
  split
  · exact Attempt.Safe.throw hs (hbad _)
  · exact Attempt.Safe.throw hs (hbad _)

theorem safe_headerHash {block : Block} {good : Bytes → MemoryStore → Prop}
    {bad : IngestError → MemoryStore → Prop} (hs : inv s)
    (hgood : ∀ hash, block.header.hash = .ok hash → good hash s) (hbad : ∀ e, bad e s) :
    Attempt.Safe (environment served) inv good bad (headerHash block) s :=
  Attempt.Safe.ofExcept hs hgood fun _ _ => hbad _

/-- Making a block ready asks the ledger only, and finds all of `Ready`. -/
theorem safe_prepare {agent : Agent} {cursor : Cursor} {good : Prepared → MemoryStore → Prop}
    {bad : IngestError → MemoryStore → Prop} (hs : inv s)
    (hgood : ∀ block prepared, Fetched served channel cursor.next block →
      Ready agent channel cursor block prepared → good prepared s)
    (hbad : ∀ e, bad e s) :
    Attempt.Safe (environment served) inv good bad (prepare agent channel cursor) s :=
  safe_prepare_of_fetch (safe_fetch hs (fun block hblock =>
    ⟨fun prepared hready => hgood block prepared hblock hready, fun e _ => hbad e⟩) hbad)

/-! ### The beginning -/

/-- Why a cursor is placed where it is: there is no checkpoint, or the ledger serves the block of
the checkpoint and its hash is the stored one. -/
inductive Found (served : Ledger.Serving) (channel : String) (s : MemoryStore) : Cursor → Prop
  | genesis (checkpoint : Entries.get? channel s.checkpoints = none) :
      Found served channel s .genesis
  | resume {number : Nat} {storedHash : String} {block : Block} {hash : Bytes}
      (checkpoint : Entries.get? channel s.checkpoints = some number)
      (stored : Entries.get? (channel, number) s.blockHashes = some storedHash)
      (fetched : Fetched served channel number block) (ledgerHash : block.header.hash = .ok hash)
      (same : sameIgnoringCase storedHash hash.toHex = true) :
      Found served channel s ⟨number + 1, some hash⟩

theorem safe_startCursor (hs : inv s) :
    Attempt.Safe (environment served) inv (fun cursor t => t = s ∧ Found served channel s cursor)
      (fun _ t => t = s) (startCursor channel) s := by
  refine Attempt.Safe.bind (Attempt.Safe.checkpoint hs ?_)
  cases hcheckpoint : Entries.get? channel s.checkpoints with
  | none => exact Attempt.Safe.pure hs ⟨rfl, .genesis hcheckpoint⟩
  | some number =>
      refine Attempt.Safe.bind (Attempt.Safe.blockHash hs ?_)
      cases hstored : Entries.get? (channel, number) s.blockHashes with
      | none => exact Attempt.Safe.throw hs rfl
      | some storedHash =>
          refine Attempt.Safe.bind (safe_fetchCheckpoint hs (fun block hblock => ?_) fun _ => rfl)
          refine Attempt.Safe.bind (safe_headerHash hs (fun hash hhash => ?_) fun _ => rfl)
          split
          · rename_i hsame
            exact Attempt.Safe.pure hs
              ⟨rfl, .resume hcheckpoint hstored hblock hhash hsame⟩
          · exact Attempt.Safe.throw hs rfl

/-- A reconciliation asks and does not write, and a number it answers is that of a cursor that was
found. -/
theorem safe_reconcile {ingestor : Ingestor} (hs : inv s) :
    Program.Safe (environment served) inv
      (fun r t => t = s ∧ (∃ cursor, r.2 = { ingestor with cursor := cursor }) ∧
        ((∃ e, r.1 = .error e ∧ r.2 = ingestor) ∨ ∃ cursor, r.1 = .ok cursor.next ∧
          r.2.cursor = some cursor ∧ Found served ingestor.channel s cursor))
      ingestor.reconcile s := by
  refine safe_reconcile_of_start (Attempt.Safe.mono (safe_startCursor hs) ?_ ?_)
  · rintro cursor _ _ ⟨rfl, hfound⟩ _ _ rfl
    exact ⟨hs, rfl, ⟨some cursor, rfl⟩, .inr ⟨cursor, rfl, rfl, hfound⟩⟩
  · rintro e _ _ rfl
    exact ⟨rfl, ⟨ingestor.cursor, rfl⟩, .inl ⟨e, rfl, rfl⟩⟩

end Ingestor

end LedgerIndex
