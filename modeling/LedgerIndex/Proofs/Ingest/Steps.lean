import LedgerIndex.Ingest.Engine
import LedgerIndex.Proofs.Ingest.Safety

/-! # The steps of an ingestor

Rules for the programs of an ingestor that hold in every environment.  What an ingestor does with a
block that it has fetched does not depend on the environment: the block is `Ready`, or it is
`Unready` for a reason that makes an error.  The beginning of a reconciliation keeps whatever
reading keeps (`KeptByReading.safe_startCursor`).  The loop over the blocks is opened once, in
`safe_ingestUpTo`; what holds before each block and what follows from it is up to the
environment. -/

namespace LedgerIndex

open Ingest

namespace Ingestor

variable {σ : Type} {env : Environment σ} {inv : σ → Prop} {s : σ} {agent : Agent}
  {channel : String} {cursor : Cursor} {block : Block}

theorem decodeNumbered_eq_ok {number : Nat} {bytes : Bytes}
    (h : decodeNumbered number bytes = .ok block) :
    Block.decode bytes = .ok block ∧ block.header.number = number := by
  unfold decodeNumbered at h
  cases hblock : Block.decode bytes with
  | error e =>
      rw [hblock] at h
      cases h
  | ok b =>
      rw [hblock] at h
      simp only [bind, Except.bind, pure, Except.pure] at h
      split at h
      · rename_i hnumber
        cases h
        exact ⟨rfl, hnumber⟩
      · cases h

/-! ### A block that was fetched -/

/-- What is published for a block that was fetched at a cursor. -/
structure Ready (agent : Agent) (channel : String) (cursor : Cursor) (block : Block)
    (prepared : Prepared) : Prop where
  linked : linked cursor block = true
  hash : block.header.hash = .ok prepared.headerHash
  transactions : block.entries.mapM Transaction.decode = .ok prepared.transactions
  events : prepared.events =
    agent.eventsOf channel block prepared.headerHash.toHex prepared.transactions

/-- Why nothing is published for a block that was fetched at a cursor, with the error that says
so. -/
inductive Unready (channel : String) (cursor : Cursor) (block : Block) : IngestError → Prop
  | broken (h : linked cursor block = false) :
      Unready channel cursor block (brokenChain channel cursor block)
  | overflow {e : BlockNumberOverflow} (h : block.header.hash = .error e) :
      Unready channel cursor block (.blockNumberOverflow e.number)
  | transactions {e : DecodeError} (h : block.entries.mapM Transaction.decode = .error e) :
      Unready channel cursor block (.decode channel cursor.next e)

/-- A block that was fetched is ready, or it is not and the error says why. -/
theorem safe_prepare_of_fetch {good : Prepared → σ → Prop} {bad : IngestError → σ → Prop}
    (h : Attempt.Safe env inv
      (fun block t => (∀ prepared, Ready agent channel cursor block prepared → good prepared t) ∧
        ∀ e, Unready channel cursor block e → bad e t) bad (fetch channel cursor.next) s) :
    Attempt.Safe env inv good bad (prepare agent channel cursor) s := by
  refine Attempt.Safe.bind (Attempt.Safe.mono h ?_ fun _ _ _ hbad => hbad)
  rintro block t ht ⟨hgood, hbad⟩
  cases hlinked : linked cursor block with
  | false => exact Attempt.Safe.bind (Attempt.Safe.throw ht (hbad _ (.broken hlinked)))
  | true =>
      refine Attempt.Safe.bind (Attempt.Safe.ofExcept ht (fun hash hhash => ?_)
        fun e he => hbad _ (.overflow he))
      refine Attempt.Safe.bind (Attempt.Safe.ofExcept ht (fun txs htxs => ?_)
        fun e he => hbad _ (.transactions he))
      exact Attempt.Safe.pure ht (hgood _ ⟨hlinked, hhash, htxs, rfl⟩)

/-! ### What reading leaves -/

/-- A property of states that implies `inv` and that no question takes away which writes nothing. -/
structure KeptByReading (env : Environment σ) (inv keep : σ → Prop) : Prop where
  inv : ∀ {s}, keep s → inv s
  ledger : ∀ {q s answer t}, keep s → env (.ledger q) s answer t → keep t
  checkpoint : ∀ {channel s answer t}, keep s → env (.store (.checkpoint channel)) s answer t →
    keep t
  blockHash : ∀ {channel number s answer t}, keep s →
    env (.store (.blockHash channel number)) s answer t → keep t

variable {keep : σ → Prop} {number : Nat}

theorem KeptByReading.safe_fetch (hkept : KeptByReading env inv keep) (h : keep s) :
    Attempt.Safe env inv (fun _ => keep) (fun _ => keep) (fetch channel number) s := by
  refine Attempt.Safe.bind (Attempt.Safe.askLedger (hkept.inv h) fun answer t ht => ?_)
  have hnext : keep t := hkept.ledger h ht
  refine ⟨hkept.inv hnext, fun bytes _ => ?_, fun _ _ => hnext⟩
  exact Attempt.Safe.ofExcept (hkept.inv hnext) (fun _ _ => hnext) fun _ _ => hnext

theorem KeptByReading.safe_fetchCheckpoint (hkept : KeptByReading env inv keep) (h : keep s) :
    Attempt.Safe env inv (fun _ => keep) (fun _ => keep) (fetchCheckpoint channel number) s := by
  refine Attempt.Safe.tryCatch (Attempt.Safe.mono (hkept.safe_fetch h) (fun _ _ _ h => h)
    fun e t _ ht => ?_)
  split
  · exact Attempt.Safe.throw (hkept.inv ht) ht
  · exact Attempt.Safe.throw (hkept.inv ht) ht

theorem KeptByReading.safe_startCursor (hkept : KeptByReading env inv keep) (h : keep s) :
    Attempt.Safe env inv (fun _ => keep) (fun _ => keep) (startCursor channel) s := by
  refine Attempt.Safe.bind (Attempt.Safe.askStore (hkept.inv h) fun answer t ht => ?_)
  have ht : keep t := hkept.checkpoint h ht
  refine ⟨hkept.inv ht, fun checkpoint _ => ?_, fun _ _ => ht⟩
  cases checkpoint with
  | none => exact Attempt.Safe.pure (hkept.inv ht) ht
  | some number =>
      refine Attempt.Safe.bind (Attempt.Safe.askStore (hkept.inv ht) fun answer u hu => ?_)
      have hu : keep u := hkept.blockHash ht hu
      refine ⟨hkept.inv hu, fun stored _ => ?_, fun _ _ => hu⟩
      cases stored with
      | none => exact Attempt.Safe.throw (hkept.inv hu) hu
      | some storedHash =>
          refine Attempt.Safe.bind (Attempt.Safe.mono (hkept.safe_fetchCheckpoint hu) ?_
            fun _ _ _ h => h)
          intro block v _ hv
          refine Attempt.Safe.bind (Attempt.Safe.ofExcept (hkept.inv hv) (fun hash _ => ?_)
            fun _ _ => hv)
          split
          · exact Attempt.Safe.pure (hkept.inv hv) hv
          · exact Attempt.Safe.throw (hkept.inv hv) hv

/-! ### Block after block -/

/-- **The loop over the blocks.**  `before` holds before each block, with the number of blocks that
remain and of those that are done: then either there is a request to stop, or the next block is
ingested and reported and `before` holds again, or its error ends the loop. -/
theorem safe_ingestUpTo (before : Nat → Cursor → Nat → σ → Prop)
    {post : Except IngestError Nat × Cursor → σ → Prop}
    (hdone : ∀ {cursor count s}, inv s → before 0 cursor count s → post (.ok count, cursor) s)
    (hstop : ∀ {remaining cursor count s t}, inv s → before (remaining + 1) cursor count s →
      env .cancelled s true t → inv t ∧ post (.ok count, cursor) t)
    (hblock : ∀ {remaining cursor count s t}, inv s → before (remaining + 1) cursor count s →
      env .cancelled s false t → inv t ∧ Attempt.Safe env inv
        (fun block u => ∀ answer v, env (.report (.ingested block)) u answer v →
          inv v ∧ before remaining ⟨cursor.next + 1, some block.headerHash⟩ (count + 1) v)
        (fun e u => post (.error e, cursor) u) (ingestNext agent channel cursor) t) :
    ∀ {remaining : Nat} {cursor : Cursor} {count : Nat} {s : σ}, inv s →
      before remaining cursor count s →
      Program.Safe env inv post (ingestUpTo agent channel remaining cursor count) s
  | 0, cursor, count, s, hs, hbefore => Program.Safe.pure hs (hdone hs hbefore)
  | remaining + 1, cursor, count, s, hs, hbefore => by
      refine Program.Safe.bind (Program.Safe.query hs fun seen t ht => ?_)
      cases seen with
      | true =>
          obtain ⟨hinv, hpost⟩ := hstop hs hbefore ht
          exact ⟨hinv, Program.Safe.pure hinv hpost⟩
      | false =>
          obtain ⟨hinv, hnext⟩ := hblock hs hbefore ht
          refine ⟨hinv, Program.Safe.bind (Program.Safe.mono hnext fun r u hu hr => ?_)⟩
          cases r with
          | error e => exact Program.Safe.pure hu hr
          | ok block =>
              refine Program.Safe.bind (Program.Safe.query hu fun answer v hv => ?_)
              obtain ⟨hv, hbefore⟩ := hr answer v hv
              exact ⟨hv, safe_ingestUpTo before hdone hstop hblock hv hbefore⟩

/-- A poll asks for the height of the ledger and ingests the blocks up to there. -/
theorem safe_poll_of_height {ingestor : Ingestor}
    {post : Except IngestError Nat × Ingestor → σ → Prop} (hs : inv s)
    (hnone : ingestor.cursor = none →
      post (.error (.notReconciled ingestor.channel), ingestor) s)
    (hsome : ∀ cursor, ingestor.cursor = some cursor → Attempt.Safe env inv
      (fun height t => Program.Safe env inv
        (fun r u => post (r.1, { ingestor with cursor := some r.2 }) u)
        (ingestUpTo ingestor.agent ingestor.channel (height - cursor.next) cursor 0) t)
      (fun e t => post (.error e, ingestor) t)
      (Attempt.ledger ingestor.channel (.tipHeight ingestor.channel)) s) :
    Program.Safe env inv post ingestor.poll s := by
  unfold poll
  cases hcursor : ingestor.cursor with
  | none => exact Program.Safe.pure hs (hnone hcursor)
  | some cursor =>
      refine Program.Safe.bind (Program.Safe.mono (hsome cursor hcursor) fun r t ht hr => ?_)
      cases r with
      | error e => exact Program.Safe.pure ht hr
      | ok height =>
          exact Program.Safe.bind (Program.Safe.mono hr fun _ u hu hpost =>
            Program.Safe.pure hu hpost)

/-- A reconciliation places the cursor where `startCursor` finds its start. -/
theorem safe_reconcile_of_start {ingestor : Ingestor}
    {post : Except IngestError Nat × Ingestor → σ → Prop}
    (h : Attempt.Safe env inv
      (fun cursor t => ∀ answer u, env (.report (.reconciled cursor.next)) t answer u →
        inv u ∧ post (.ok cursor.next, { ingestor with cursor := some cursor }) u)
      (fun e t => post (.error e, ingestor) t) (startCursor ingestor.channel) s) :
    Program.Safe env inv post ingestor.reconcile s := by
  refine Program.Safe.bind (Program.Safe.mono h fun r t ht hr => ?_)
  cases r with
  | error e => exact Program.Safe.pure ht hr
  | ok cursor =>
      refine Program.Safe.bind (Program.Safe.query ht fun answer u hu => ?_)
      obtain ⟨hinv, hpost⟩ := hr answer u hu
      exact ⟨hinv, Program.Safe.pure hinv hpost⟩

end Ingestor

/-- An engine passes a step on to the ingestor of its channel, and files what becomes of it. -/
theorem Engine.safe_onChannel {σ : Type} {env : Environment σ} {inv : σ → Prop} {s : σ}
    {engine : Engine} {channel : String} {ingestor : Ingestor}
    {step : Ingestor → Program (Except IngestError Nat × Ingestor)}
    {post : Except IngestError Nat × Engine → σ → Prop}
    (hingestor : engine.ingestor? channel = some ingestor)
    (h : Program.Safe env inv
      (fun r t => post (r.1, ⟨Entries.put channel r.2 engine.ingestors⟩) t) (step ingestor) s) :
    Program.Safe env inv post (engine.onChannel channel step) s := by
  unfold onChannel
  rw [hingestor]
  exact Program.Safe.bind (Program.Safe.mono h fun _ t ht hpost => Program.Safe.pure ht hpost)

end LedgerIndex
