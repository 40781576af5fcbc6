import LedgerIndex.Proofs.Ingest.Surroundings

/-! # Disciplines

A `Discipline` of a channel is what the work on it keeps, in three parts: `sound` holds of the store
at every moment, `placed` between two calls, together with the cursor that an ingestor of the
channel then has, and `publishing` while the events of a block go out.  Its fields say that each
single step of an ingestor leads from one part to the next.  From the single steps follow the two
calls of an ingestor, whatever the ledger answers and whenever the store refuses
(`Discipline.safe_poll`, `Discipline.safe_reconcile`). -/

namespace LedgerIndex

open Ingest MemoryStore

/-- What the work on a channel keeps, for engines whose agents are `allowed` and a ledger that
answers within `served`. -/
structure Discipline (channel : String) (allowed : Agent → Prop) (served : Ledger.Serving) where
  /-- What the store satisfies at every moment. -/
  sound : MemoryStore → Prop
  /-- What it satisfies between two calls, beside a cursor of the channel. -/
  placed : Option Cursor → MemoryStore → Prop
  /-- What it satisfies before the last events of a block at the cursor are published. -/
  publishing : Cursor → Ingestor.Prepared → List Event → MemoryStore → Prop
  sound_of_placed : ∀ {cursor s}, placed cursor s → sound s
  sound_of_published : ∀ {cursor prepared s}, publishing cursor prepared [] s → sound s
  /-- A new ingestor has no cursor. -/
  forget : ∀ {cursor s}, placed cursor s → placed none s
  genesis : ∀ {s}, placed none s → Entries.get? channel s.checkpoints = none →
    placed (some .genesis) s
  resume : ∀ {s number block storedHash hash}, placed none s →
    Entries.get? channel s.checkpoints = some number →
    Entries.get? (channel, number) s.blockHashes = some storedHash →
    Ingestor.Fetched served channel number block → block.header.hash = .ok hash →
    Ingestor.sameIgnoringCase storedHash hash.toHex = true →
    placed (some ⟨number + 1, some hash⟩) s
  begin : ∀ {agent cursor block prepared s}, allowed agent → placed (some cursor) s →
    Ingestor.Fetched served channel cursor.next block →
    Ingestor.Ready agent channel cursor block prepared →
    publishing cursor prepared prepared.events s
  accept : ∀ {cursor prepared e rest s}, publishing cursor prepared (e :: rest) s →
    publishing cursor prepared rest (s.accept e)
  abandon : ∀ {cursor prepared e rest s}, publishing cursor prepared (e :: rest) s →
    placed (some cursor) s
  advance : ∀ {cursor prepared s}, publishing cursor prepared [] s →
    placed (some ⟨cursor.next + 1, some prepared.headerHash⟩) (s.putCheckpoint channel cursor.next)

namespace Discipline

variable {channel : String} {allowed : Agent → Prop} {served : Ledger.Serving}
  (D : Discipline channel allowed served) {agent : Agent} {s : MemoryStore}

theorem safe_publish (cursor : Cursor) (prepared : Ingestor.Prepared) :
    ∀ (events : List Event) (s : MemoryStore), D.publishing cursor prepared events s →
      Attempt.Safe (environment served) D.sound (fun _ t => D.publishing cursor prepared [] t)
        (fun _ t => D.placed (some cursor) t) (Ingestor.publish channel events) s
  | [], s, hs => Attempt.Safe.pure (D.sound_of_published hs) hs
  | e :: rest, s, hs => by
      have hplaced : D.placed (some cursor) s := D.abandon hs
      have hrest := safe_publish cursor prepared rest (s.accept e) (D.accept hs)
      exact Attempt.Safe.bind (Attempt.Safe.putEvent (D.sound_of_placed hplaced)
        (Program.Safe.start hrest) hrest hplaced)

/-- One block: it is published in full and the cursor moves on, or the cursor stays. -/
theorem safe_ingestNext (hallowed : allowed agent) {cursor : Cursor}
    (hs : D.placed (some cursor) s) :
    Attempt.Safe (environment served) D.sound
      (fun block t => D.placed (some ⟨cursor.next + 1, some block.headerHash⟩) t)
      (fun _ t => D.placed (some cursor) t) (Ingestor.ingestNext agent channel cursor) s := by
  refine Attempt.Safe.bind (Ingestor.safe_prepare (D.sound_of_placed hs)
    (fun block prepared hblock hready => ?_) fun _ => hs)
  have hbegin := D.begin hallowed hs hblock hready
  refine Attempt.Safe.bind (Attempt.Safe.mono (D.safe_publish cursor prepared _ s hbegin)
    (fun _ t ht hpub => ?_) fun _ _ _ h => h)
  have hadvance := D.advance hpub
  have hsound := D.sound_of_placed hadvance
  exact Attempt.Safe.bind
    (Attempt.Safe.putCheckpoint ht hsound (Attempt.Safe.pure hsound hadvance))

theorem safe_ingestUpTo (hallowed : allowed agent) {remaining count : Nat} {cursor : Cursor}
    (hs : D.placed (some cursor) s) :
    Program.Safe (environment served) D.sound (fun r t => D.placed (some r.2) t)
      (Ingestor.ingestUpTo agent channel remaining cursor count) s := by
  refine Ingestor.safe_ingestUpTo (fun _ cursor _ t => D.placed (some cursor) t)
    (fun _ hplaced => hplaced) ?_ ?_ (D.sound_of_placed hs) hs
  · rintro _ _ _ t _ _ hplaced rfl
    exact ⟨D.sound_of_placed hplaced, hplaced⟩
  · rintro _ cursor _ t _ _ hplaced rfl
    refine ⟨D.sound_of_placed hplaced,
      Attempt.Safe.mono (D.safe_ingestNext hallowed hplaced) ?_ fun _ _ _ h => h⟩
    rintro block u _ hplaced _ _ rfl
    exact ⟨D.sound_of_placed hplaced, hplaced⟩

/-- **A poll** keeps the discipline, however it ends. -/
theorem safe_poll {ingestor : Ingestor} (hchannel : ingestor.channel = channel)
    (hallowed : allowed ingestor.agent) (hs : D.placed ingestor.cursor s) :
    Program.Safe (environment served) D.sound
      (fun r t => (∃ cursor, r.2 = { ingestor with cursor := cursor }) ∧ D.placed r.2.cursor t)
      ingestor.poll s := by
  have hsound := D.sound_of_placed hs
  have hsame : ∃ cursor, ingestor = { ingestor with cursor := cursor } := ⟨_, rfl⟩
  subst hchannel
  refine Ingestor.safe_poll_of_height hsound (fun _ => ⟨hsame, hs⟩) fun cursor hcursor => ?_
  refine Attempt.Safe.ledger hsound (fun height _ => ?_) fun _ _ => ⟨hsame, hs⟩
  refine Program.Safe.mono (D.safe_ingestUpTo hallowed (hcursor ▸ hs)) ?_
  rintro r t _ hplaced
  exact ⟨⟨some r.2, rfl⟩, hplaced⟩

theorem placed_of_found {cursor : Cursor} (hs : D.placed none s)
    (h : Ingestor.Found served channel s cursor) : D.placed (some cursor) s := by
  cases h with
  | genesis hcheckpoint => exact D.genesis hs hcheckpoint
  | resume hcheckpoint hstored hfetched hhash hsame =>
      exact D.resume hs hcheckpoint hstored hfetched hhash hsame

/-- **A reconciliation** keeps the discipline, however it ends. -/
theorem safe_reconcile {ingestor : Ingestor} (hchannel : ingestor.channel = channel)
    (hs : D.placed ingestor.cursor s) :
    Program.Safe (environment served) D.sound
      (fun r t => (∃ cursor, r.2 = { ingestor with cursor := cursor }) ∧ D.placed r.2.cursor t)
      ingestor.reconcile s := by
  subst hchannel
  refine Program.Safe.mono (Ingestor.safe_reconcile (D.sound_of_placed hs)) ?_
  rintro ⟨result, after⟩ t _ ⟨rfl, hsame, ⟨e, _, hafter⟩ | ⟨cursor, _, hcursor, hfound⟩⟩
  · exact ⟨hsame, by rw [hafter]; exact hs⟩
  · refine ⟨hsame, ?_⟩
    rw [hcursor]
    exact D.placed_of_found (D.forget hs) hfound

end Discipline

end LedgerIndex
