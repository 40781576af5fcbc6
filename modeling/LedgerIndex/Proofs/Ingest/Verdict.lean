import LedgerIndex.Proofs.Ingest.Checkpoints
import LedgerIndex.Proofs.Ingest.Watched

/-! # The verdict of a reconciliation

Beside a ledger and a store in memory a reconciliation comes to one of eight verdicts.  Which of
them is decided by the store alone where there is no checkpoint or no hash for it, and otherwise by
the `Comparison` of the stored hash with the ledger; exactly one applies (`Verdict.unique`).  A
reconciliation writes nothing, so that it comes to the same verdict however often it is repeated, by
whichever engine (`Ingestor.reconcile_verdict`). -/

namespace LedgerIndex

open Ingest Watched

/-- The hash that is recorded for a block. -/
def MemoryStore.blockHash? (store : MemoryStore) (channel : String) (number : Nat) :
    Option String :=
  Entries.get? (channel, number) store.blockHashes

open Ingestor

variable {ledger : MemoryLedger} {store : MemoryStore} {channel : String} {number : Nat}
  {stored : String} {block : Block} {hash : Bytes}

/-! ### Verdicts -/

/-- What comes of comparing a stored hash with the block that the ledger serves. -/
inductive Comparison (ledger : MemoryLedger) (channel : String) (number : Nat) (stored : String) :
    Except IngestError Cursor → Prop
  | unavailable (h : ledger.answer (.block channel number) = .error MemoryLedger.outage) :
      Comparison ledger channel number stored (.error (.ledger channel MemoryLedger.outage))
  | unknown (h : ledger.answer (.block channel number) = .error (.unknownChannel channel)) :
      Comparison ledger channel number stored (.error (.unknownChannel channel))
  | missing (h : ledger.answer (.block channel number) = .error (.blockNotFound channel number)) :
      Comparison ledger channel number stored (.error (.checkpointNotOnLedger channel number))
  | unreadable {bytes : Bytes} {e : DecodeError}
      (hbytes : ledger.answer (.block channel number) = .ok bytes)
      (h : decodeNumbered number bytes = .error e) :
      Comparison ledger channel number stored (.error (.decode channel number e))
  | overflow {bytes : Bytes} {block : Block}
      (hbytes : ledger.answer (.block channel number) = .ok bytes)
      (hblock : decodeNumbered number bytes = .ok block)
      (h : block.header.hash = .error ⟨number⟩) :
      Comparison ledger channel number stored (.error (.blockNumberOverflow number))
  | diverged {bytes : Bytes} {block : Block} {hash : Bytes}
      (hbytes : ledger.answer (.block channel number) = .ok bytes)
      (hblock : decodeNumbered number bytes = .ok block) (h : block.header.hash = .ok hash)
      (hsame : sameIgnoringCase stored hash.toHex = false) :
      Comparison ledger channel number stored
        (.error (.chainDivergence channel number stored hash.toHex))
  | agreed {bytes : Bytes} {block : Block} {hash : Bytes}
      (hbytes : ledger.answer (.block channel number) = .ok bytes)
      (hblock : decodeNumbered number bytes = .ok block) (h : block.header.hash = .ok hash)
      (hsame : sameIgnoringCase stored hash.toHex = true) :
      Comparison ledger channel number stored (.ok ⟨number + 1, some hash⟩)

/-- What a reconciliation comes to. -/
inductive Verdict (ledger : MemoryLedger) (store : MemoryStore) (channel : String) :
    Except IngestError Cursor → Prop
  | genesis (hcheckpoint : store.checkpoint? channel = none) :
      Verdict ledger store channel (.ok .genesis)
  | undocumented {number : Nat} (hcheckpoint : store.checkpoint? channel = some number)
      (hhash : store.blockHash? channel number = none) :
      Verdict ledger store channel (.error (.missingBlockDocument channel number))
  | compared {number : Nat} {stored : String} {r : Except IngestError Cursor}
      (hcheckpoint : store.checkpoint? channel = some number)
      (hhash : store.blockHash? channel number = some stored)
      (h : Comparison ledger channel number stored r) : Verdict ledger store channel r

theorem Comparison.unique {r r' : Except IngestError Cursor}
    (h : Comparison ledger channel number stored r)
    (h' : Comparison ledger channel number stored r') : r = r' := by
  cases h <;> cases h' <;> simp_all [MemoryLedger.outage]

theorem Verdict.unique {r r' : Except IngestError Cursor} (h : Verdict ledger store channel r)
    (h' : Verdict ledger store channel r') : r = r' := by
  cases h with
  | genesis hcheckpoint => cases h' <;> simp_all
  | undocumented hcheckpoint hhash => cases h' <;> simp_all
  | compared hcheckpoint hhash h =>
      cases h' with
      | genesis hnone => simp_all
      | undocumented hsome hnone => simp_all
      | compared hcheckpoint' hhash' h' =>
          obtain rfl := Option.some.inj (hcheckpoint.symm.trans hcheckpoint')
          obtain rfl := Option.some.inj (hhash.symm.trans hhash')
          exact h.unique h'

/-! ### Reconciliation -/

theorem attempts_fetchCheckpoint (stored : String) {w : Watched} {good : Block → Watched → Prop}
    {bad : IngestError → Watched → Prop}
    (hgood : ∀ block, Fetched ledger.served channel number block → good block w)
    (hbad : ∀ e, Comparison ledger channel number stored (.error e) → bad e w) :
    Attempts ledger good bad (fetchCheckpoint channel number) w := by
  refine Attempt.Safe.tryCatch (attempts_fetch hgood fun e he => ?_)
  cases he with
  | @refused source h =>
      rcases MemoryLedger.error_of_block h with rfl | rfl | rfl
      · exact Attempt.Safe.throw trivial (hbad _ (.unavailable h))
      · exact Attempt.Safe.throw trivial (hbad _ (.unknown h))
      · exact Attempt.Safe.throw trivial (hbad _ (.missing h))
  | unreadable hbytes h => exact Attempt.Safe.throw trivial (hbad _ (.unreadable hbytes h))

theorem attempts_cursorAfter {w : Watched}
    (hcheckpoint : w.store.checkpoint? channel = some number) :
    Attempts ledger (fun cursor t => t = w ∧ Verdict ledger w.store channel (.ok cursor))
      (fun e t => t = w ∧ Verdict ledger w.store channel (.error e))
      (cursorAfter channel number) w := by
  refine Attempt.Safe.bind (attempts_store (fun found hfound => ?_) nofun)
  cases found with
  | none =>
      exact Attempt.Safe.throw trivial ⟨rfl, .undocumented hcheckpoint (Except.ok.inj hfound)⟩
  | some stored =>
      have hstored : w.store.blockHash? channel number = some stored := Except.ok.inj hfound
      refine Attempt.Safe.bind (attempts_fetchCheckpoint stored ?_
        fun e he => ⟨rfl, .compared hcheckpoint hstored he⟩)
      rintro block ⟨bytes, hbytes, hblock⟩
      refine Attempt.Safe.bind (Attempt.Safe.ofExcept trivial (fun hash hhash => ?_)
        fun e he => ?_)
      · cases hsame : sameIgnoringCase stored hash.toHex with
        | true =>
            rw [if_pos rfl]
            exact Attempt.Safe.pure trivial
              ⟨rfl, .compared hcheckpoint hstored (.agreed hbytes.symm hblock hhash hsame)⟩
        | false =>
            rw [if_neg Bool.false_ne_true]
            exact Attempt.Safe.throw trivial
              ⟨rfl, .compared hcheckpoint hstored (.diverged hbytes.symm hblock hhash hsame)⟩
      · obtain rfl : e = ⟨number⟩ := by
          rw [← (decodeNumbered_eq_ok hblock).2]
          exact BlockHeader.hash_eq_error he
        exact ⟨rfl, .compared hcheckpoint hstored (.overflow hbytes.symm hblock he)⟩

theorem attempts_startCursor {w : Watched} :
    Attempts ledger (fun cursor t => t = w ∧ Verdict ledger w.store channel (.ok cursor))
      (fun e t => t = w ∧ Verdict ledger w.store channel (.error e)) (startCursor channel) w := by
  refine Attempt.Safe.bind (attempts_store (fun found hfound => ?_) nofun)
  cases found with
  | none => exact Attempt.Safe.pure trivial ⟨rfl, .genesis (Except.ok.inj hfound)⟩
  | some number => exact attempts_cursorAfter (Except.ok.inj hfound)

/-- **A reconciliation comes to its verdict** and changes nothing but the cursor. -/
theorem yields_reconcile {ingestor : Ingestor} {w : Watched} :
    Yields ledger (fun r t => t = w ∧ ∃ verdict,
      Verdict ledger w.store ingestor.channel verdict ∧ r.1 = verdict.map (·.next) ∧
        r.2 = match verdict with
          | .ok cursor => { ingestor with cursor := some cursor }
          | .error _ => ingestor) ingestor.reconcile w := by
  refine safe_reconcile_of_start (Attempt.Safe.mono attempts_startCursor ?_ ?_)
  · rintro cursor _ _ ⟨rfl, hverdict⟩ _ _ rfl
    exact ⟨trivial, rfl, .ok cursor, hverdict, rfl, rfl⟩
  · rintro e _ _ ⟨rfl, hverdict⟩
    exact ⟨rfl, .error e, hverdict, rfl, rfl⟩

/-- Which results of a reconciliation say what of the ledger and the store. -/
structure Decides (ledger : MemoryLedger) (store : MemoryStore) (channel : String)
    (result : Except IngestError Nat) : Prop where
  fresh : result = .ok 0 ↔ store.checkpoint? channel = none
  resumed : ∀ {number}, store.checkpoint? channel = some number →
    (result = .ok (number + 1) ↔ ∃ stored hash, store.blockHash? channel number = some stored ∧
      ledger.HasHash channel number hash ∧ sameIgnoringCase stored hash.toHex = true)
  diverged : ∀ {number stored ledgerHash}, store.checkpoint? channel = some number →
    (result = .error (.chainDivergence channel number stored ledgerHash) ↔
      ∃ hash, store.blockHash? channel number = some stored ∧
        ledger.HasHash channel number hash ∧ sameIgnoringCase stored hash.toHex = false ∧
        ledgerHash = hash.toHex)
  undocumented : ∀ {number}, store.checkpoint? channel = some number →
    (result = .error (.missingBlockDocument channel number) ↔
      store.blockHash? channel number = none)
  missing : ∀ {number}, store.checkpoint? channel = some number →
    (result = .error (.checkpointNotOnLedger channel number) ↔
      (∃ stored, store.blockHash? channel number = some stored) ∧
        ledger.answer (.block channel number) = .error (.blockNotFound channel number))
  failed : ∀ {e}, result = .error e → ∃ number, store.checkpoint? channel = some number ∧
    ((∃ stored ledgerHash, e = .chainDivergence channel number stored ledgerHash) ∨
      e = .missingBlockDocument channel number ∨ e = .checkpointNotOnLedger channel number ∨
      (∃ source, e = .ledger channel source) ∨ (∃ source, e = .decode channel number source) ∨
      e = .unknownChannel channel ∨ e = .blockNumberOverflow number)

variable {verdict : Except IngestError Cursor}

theorem Verdict.eq_iff (h : Verdict ledger store channel verdict)
    (r : Except IngestError Cursor) : verdict = r ↔ Verdict ledger store channel r :=
  ⟨fun heq => heq ▸ h, h.unique⟩

theorem Verdict.map_eq_error_iff (h : Verdict ledger store channel verdict) {e : IngestError} :
    verdict.map (·.next) = .error e ↔ Verdict ledger store channel (.error e) := by
  rw [← h.eq_iff]
  cases verdict <;> simp [Except.map]

theorem Verdict.decides (h : Verdict ledger store channel verdict) :
    Decides ledger store channel (verdict.map (·.next)) where
  fresh := by
    constructor
    · intro hresult
      cases h with
      | genesis hcheckpoint => exact hcheckpoint
      | undocumented => cases hresult
      | compared _ _ h => cases h <;> cases hresult
    · intro hcheckpoint
      rw [h.unique (.genesis hcheckpoint)]
      rfl
  resumed := by
    intro number hcheckpoint
    constructor
    · intro hresult
      cases h with
      | genesis hnone => cases hresult
      | undocumented => cases hresult
      | compared hsome hstored h =>
          cases h with
          | agreed hbytes hblock hhash hsame =>
              obtain rfl := Option.some.inj (hsome.symm.trans hcheckpoint)
              exact ⟨_, _, hstored, MemoryLedger.hasHash_iff.mpr ⟨_, _, hbytes, hblock, hhash⟩,
                hsame⟩
          | _ => cases hresult
    · rintro ⟨stored, hash, hstored, hhash, hsame⟩
      obtain ⟨bytes, block, hbytes, hblock, hhash⟩ := MemoryLedger.hasHash_iff.mp hhash
      rw [h.unique (.compared hcheckpoint hstored (.agreed hbytes hblock hhash hsame))]
      rfl
  diverged := by
    intro number stored ledgerHash hcheckpoint
    rw [h.map_eq_error_iff]
    constructor
    · intro h
      cases h with
      | compared hsome hstored h =>
          cases h with
          | diverged hbytes hblock hhash hsame =>
              exact ⟨_, hstored, MemoryLedger.hasHash_iff.mpr ⟨_, _, hbytes, hblock, hhash⟩,
                hsame, rfl⟩
    · rintro ⟨hash, hstored, hhash, hsame, rfl⟩
      obtain ⟨bytes, block, hbytes, hblock, hhash⟩ := MemoryLedger.hasHash_iff.mp hhash
      exact .compared hcheckpoint hstored (.diverged hbytes hblock hhash hsame)
  undocumented := by
    intro number hcheckpoint
    rw [h.map_eq_error_iff]
    constructor
    · intro h
      cases h with
      | undocumented _ hstored => exact hstored
      | compared _ _ h => cases h
    · exact fun hstored => .undocumented hcheckpoint hstored
  missing := by
    intro number hcheckpoint
    rw [h.map_eq_error_iff]
    constructor
    · intro h
      cases h with
      | compared _ hstored h =>
          cases h with
          | missing h => exact ⟨⟨_, hstored⟩, h⟩
    · rintro ⟨⟨stored, hstored⟩, h⟩
      exact .compared hcheckpoint hstored (.missing h)
  failed := by
    intro e he
    cases h.map_eq_error_iff.mp he with
    | undocumented hcheckpoint _ => exact ⟨_, hcheckpoint, by simp⟩
    | compared hcheckpoint _ h =>
        refine ⟨_, hcheckpoint, ?_⟩
        cases h <;> simp

theorem Verdict.placed {cursor : Cursor} (h : Verdict ledger store channel (.ok cursor)) :
    match store.checkpoint? channel with
    | none => cursor.next = 0 ∧ cursor.lastHash = none
    | some number => cursor.next = number + 1 ∧
        ∃ hash, cursor.lastHash = some hash ∧ ledger.HasHash channel number hash := by
  cases h with
  | genesis hcheckpoint =>
      rw [hcheckpoint]
      exact ⟨rfl, rfl⟩
  | compared hcheckpoint _ h =>
      rw [hcheckpoint]
      cases h with
      | agreed hbytes hblock hhash _ =>
          exact ⟨rfl, _, rfl, MemoryLedger.hasHash_iff.mpr ⟨_, _, hbytes, hblock, hhash⟩⟩

/-! ### Repetition -/

namespace Engine

/-- An engine has an ingestor for a channel. -/
def Manages (engine : Engine) (channel : String) : Prop :=
  ∃ ingestor, engine.ingestor? channel = some ingestor ∧ ingestor.channel = channel

theorem manages_start (agent : Agent) {channels : List String} (h : channel ∈ channels) :
    (Engine.start agent channels).Manages channel :=
  ⟨Ingestor.start agent channel, by rw [ingestor?_start, if_pos h], rfl⟩

/-- Reconciles a channel time and again, with the engine of the time before or with another one in
its place. -/
def reconcileAgain (channel : String) :
    Engine → List (Option Engine) → Program (List (Except IngestError Nat))
  | _, [] => return []
  | engine, other :: others => do
    let (result, engine) ← (other.getD engine).reconcile channel
    return result :: (← reconcileAgain channel engine others)

theorem Manages.yields_reconcile {engine : Engine} (h : engine.Manages channel) {w : Watched} :
    Yields ledger (fun r t => t = w ∧ r.2.Manages channel ∧
      ∃ verdict, Verdict ledger w.store channel verdict ∧ r.1 = verdict.map (·.next))
      (engine.reconcile channel) w := by
  obtain ⟨ingestor, hingestor, rfl⟩ := h
  refine safe_onChannel hingestor (Program.Safe.mono LedgerIndex.yields_reconcile ?_)
  rintro ⟨result, after⟩ t _ ⟨rfl, verdict, hverdict, hresult, hafter⟩
  refine ⟨rfl, ⟨after, ingestor?_put_self .., ?_⟩, verdict, hverdict, hresult⟩
  rw [show after = _ from hafter]
  cases verdict <;> rfl

theorem yields_reconcileAgain {w : Watched} {verdict : Except IngestError Cursor}
    (hverdict : Verdict ledger w.store channel verdict) :
    ∀ {others : List (Option Engine)} {engine : Engine}, engine.Manages channel →
      (∀ other, some other ∈ others → other.Manages channel) →
      Yields ledger
        (fun results t => t = w ∧ results = List.replicate others.length (verdict.map (·.next)))
        (reconcileAgain channel engine others) w
  | [], _, _, _ => Program.Safe.pure trivial ⟨rfl, rfl⟩
  | other :: others, engine, hengine, hothers => by
      have hmanages : (other.getD engine).Manages channel := by
        cases other with
        | none => exact hengine
        | some other => exact hothers other List.mem_cons_self
      refine Program.Safe.bind (Program.Safe.mono hmanages.yields_reconcile ?_)
      rintro ⟨result, after⟩ _ _ ⟨rfl, hafter, verdict', hverdict', hresult⟩
      have hrest := yields_reconcileAgain hverdict hafter fun other hother =>
        hothers other (List.mem_cons_of_mem _ hother)
      refine Program.Safe.bind (Program.Safe.mono hrest ?_)
      rintro results _ _ ⟨rfl, hresults⟩
      refine Program.Safe.pure trivial ⟨rfl, ?_⟩
      rw [hresults, show result = _ from hresult, hverdict'.unique hverdict]
      rfl

end Engine

/-- **The verdict of a reconciliation.**  Beside a ledger and a store in memory the result of a
reconciliation decides what they hold, and says so exactly.  Nothing is written; after an error the
cursor is what it was, and otherwise it stands at the number that was answered, with the header hash
of the block of the checkpoint where there is one.  However often it is repeated, by this engine or
by others, the result is the same. -/
theorem Ingestor.reconcile_verdict (ingestor : Ingestor) {ledger : MemoryLedger}
    {store : MemoryStore} {network : Http.Network} {session : Session}
    (hsite : session.site = ⟨.memory ledger, .memory store, network⟩) :
    let channel := ingestor.channel
    let after := session.run ingestor.reconcile
    let result := after.1.1
    Decides ledger store channel result ∧ after.2.site = session.site ∧
    (∀ e, result = .error e → after.1.2 = ingestor) ∧
    (∀ next, result = .ok next →
      ∃ lastHash, after.1.2 = { ingestor with cursor := some ⟨next, lastHash⟩ } ∧
        match store.checkpoint? channel with
        | none => next = 0 ∧ lastHash = none
        | some number => next = number + 1 ∧
            ∃ hash, lastHash = some hash ∧ ledger.HasHash channel number hash) ∧
    ∀ (engine : Engine) (others : List (Option Engine)), engine.Manages channel →
      (∀ other, some other ∈ others → other.Manages channel) →
      let again := session.run (engine.reconcileAgain channel others)
      again.1 = List.replicate others.length result ∧ again.2.site = session.site := by
  intro channel after result
  obtain ⟨_, hfollows, rfl, verdict, hverdict, hresult, hafter⟩ :=
    exists_of_session yields_reconcile hsite
  have hsame : result = verdict.map (·.next) := hresult
  refine ⟨hsame ▸ hverdict.decides, hfollows.site.trans hsite.symm, ?_, ?_, ?_⟩
  · intro e he
    cases verdict with
    | error _ => exact hafter
    | ok cursor => cases hsame.symm.trans he
  · intro next hnext
    cases verdict with
    | error _ => cases hsame.symm.trans hnext
    | ok cursor =>
        obtain rfl : cursor.next = next := Except.ok.inj (hsame.symm.trans hnext)
        exact ⟨cursor.lastHash, hafter, hverdict.placed⟩
  · intro engine others hengine hothers
    obtain ⟨_, hagain, rfl, hresults⟩ :=
      exists_of_session (Engine.yields_reconcileAgain hverdict hengine hothers) hsite
    exact ⟨hresults.trans (by rw [hsame]), hagain.site.trans hsite.symm⟩

/-- A new engine finds the two blocks that another one has published, twice. -/
theorem Ingestor.reconcile_verdict_two_blocks :
    let d := (Deployment.initial {} none).run (Deployment.Sample.actions 2 13)
    let engine := Engine.start Deployment.Sample.agent ["c"]
    let session : Session :=
      { site := ⟨.memory d.ledger, .memory d.store, .unreachable⟩, channel := "c" }
    let after := session.run (Ingestor.start Deployment.Sample.agent "c").reconcile
    after.1.1 = .ok 2 ∧
    (∃ hash, after.1.2.cursor = some ⟨2, some hash⟩ ∧ d.ledger.HasHash "c" 1 hash) ∧
    (session.run (engine.reconcileAgain "c" [none, some engine])).1 = [.ok 2, .ok 2] := by
  intro d engine session after
  have hsite : session.site = ⟨.memory d.ledger, .memory d.store, .unreachable⟩ := rfl
  obtain ⟨_, _, _, hok, hagain⟩ :=
    Ingestor.reconcile_verdict (Ingestor.start Deployment.Sample.agent "c") hsite
  have hresult : (session.run (Ingestor.start Deployment.Sample.agent "c").reconcile).1.1
      = .ok 2 := by decide +kernel
  have hcheckpoint : d.store.checkpoint? (Ingestor.start Deployment.Sample.agent "c").channel
      = some 1 := by decide +kernel
  have hmanages : engine.Manages "c" := Engine.manages_start _ List.mem_cons_self
  refine ⟨hresult, ?_, ?_⟩
  · obtain ⟨lastHash, hafter, hplaced⟩ := hok 2 hresult
    rw [hcheckpoint] at hplaced
    obtain ⟨_, hash, rfl, hhash⟩ := hplaced
    exact ⟨hash, congrArg Ingestor.cursor hafter, hhash⟩
  · have hothers : ∀ other, some other ∈ [none, some engine] → other.Manages "c" := by
      simpa using hmanages
    have hsame := (hagain engine [none, some engine] hmanages hothers).1
    rw [hresult] at hsame
    exact hsame

end LedgerIndex
