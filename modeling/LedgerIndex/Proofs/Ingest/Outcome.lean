import LedgerIndex.Proofs.Ingest.ExactlyOnce
import LedgerIndex.Proofs.Ingest.Watched

/-! # The outcome of a poll

Beside a ledger and a store in memory a poll finishes some blocks in full, one after the other, and
then it ends: because it has caught up with the ledger, because it saw a request to stop, because
the next block is not to be had or not in order, or because the store refuses an event of it
(`Polled`).  The store holds exactly what was finished, and in the last case also a proper part of
the events of the next block (`Ingestor.poll_outcome`). -/

namespace LedgerIndex

open Ingest Watched

/-! ### Blocks in the store -/

namespace MemoryStore

/-- Takes in events, one after the other. -/
def acceptAll (store : MemoryStore) (events : List Event) : MemoryStore :=
  events.foldl accept store

/-- Takes in the events of a block and its checkpoint. -/
def applyBlock (store : MemoryStore) (channel : String) (number : Nat) (events : List Event) :
    MemoryStore :=
  (store.acceptAll events).putCheckpoint channel number

/-- Takes in the blocks from a number on, each with its events. -/
def applyBlocks (channel : String) : MemoryStore → Nat → List (List Event) → MemoryStore
  | store, _, [] => store
  | store, number, events :: blocks =>
    applyBlocks channel (store.applyBlock channel number events) (number + 1) blocks

theorem applyBlocks_concat (channel : String) (blocks : List (List Event)) (events : List Event) :
    ∀ (store : MemoryStore) (number : Nat),
      applyBlocks channel store number (blocks ++ [events]) =
        (applyBlocks channel store number blocks).applyBlock channel (number + blocks.length)
          events := by
  induction blocks with
  | nil => exact fun _ _ => rfl
  | cons block blocks ih =>
      intro store number
      rw [List.cons_append, applyBlocks, ih, applyBlocks, List.length_cons,
        show number + 1 + blocks.length = number + (blocks.length + 1) by omega]

theorem failingPuts_acceptAll (events : List Event) {store : MemoryStore}
    (h : store.failingPuts = none) : (store.acceptAll events).failingPuts = none := by
  induction events generalizing store with
  | nil => exact h
  | cons event events ih => exact ih (by simp [accept, h])

theorem failingPuts_applyBlocks (channel : String) (blocks : List (List Event)) :
    ∀ {store : MemoryStore} (number : Nat), store.failingPuts = none →
      (applyBlocks channel store number blocks).failingPuts = none := by
  induction blocks with
  | nil => exact fun _ h => h
  | cons events blocks ih => exact fun number h => ih (number + 1) (failingPuts_acceptAll events h)

theorem nextBlock_applyBlocks (channel : String) (blocks : List (List Event)) :
    ∀ {store : MemoryStore} {number : Nat}, store.nextBlock channel = number →
      (applyBlocks channel store number blocks).nextBlock channel = number + blocks.length := by
  induction blocks with
  | nil => exact fun h => h
  | cons events blocks ih =>
      intro store number _
      rw [applyBlocks, applyBlock, ih (nextBlock_putCheckpoint_self _ channel number),
        List.length_cons]
      omega

end MemoryStore

variable {agent : Agent} {ledger : MemoryLedger} {channel : String} {start cursor : Cursor}
  {w : Watched} {e : IngestError}

/-! ### One block -/

namespace Ingestor

/-- Why nothing is published at a cursor: no block is to be had there, or it is not in order. -/
inductive Stalled (ledger : MemoryLedger) (channel : String) (cursor : Cursor) : IngestError → Prop
  | unfetched {e : IngestError} (h : Unfetched ledger channel cursor.next e) :
      Stalled ledger channel cursor e
  | unready {block : Block} {e : IngestError}
      (hblock : Fetched ledger.served channel cursor.next block)
      (h : Unready channel cursor block e) : Stalled ledger channel cursor e

theorem eventsAt?_of_ready {block : Block} {prepared : Prepared}
    (hblock : Fetched ledger.served channel cursor.next block)
    (hready : Ready agent channel cursor block prepared) :
    agent.eventsAt? ledger channel cursor.next = some prepared.events := by
  obtain ⟨bytes, hbytes, hdecoded⟩ := hblock
  rw [Agent.eventsAt?, MemoryLedger.block?_of_answer hbytes.symm, Option.bind_some]
  exact Agent.eventsOfBytes?_of_ready hdecoded hready

theorem attempts_prepare {good : Prepared → Watched → Prop} {bad : IngestError → Watched → Prop}
    (hgood : ∀ prepared, agent.eventsAt? ledger channel cursor.next = some prepared.events →
      ledger.HasHash channel cursor.next prepared.headerHash → good prepared w)
    (hbad : ∀ e, Stalled ledger channel cursor e → bad e w) :
    Attempts ledger good bad (prepare agent channel cursor) w := by
  refine safe_prepare_of_fetch (attempts_fetch (fun block hblock => ⟨?_, ?_⟩)
    fun e he => hbad e (.unfetched he))
  · intro prepared hready
    obtain ⟨bytes, hbytes, hdecoded⟩ := hblock
    exact hgood prepared (eventsAt?_of_ready ⟨bytes, hbytes, hdecoded⟩ hready)
      (MemoryLedger.hasHash_iff.mpr ⟨bytes, block, hbytes.symm, hdecoded, hready.hash⟩)
  · exact fun e he => hbad e (.unready hblock he)

theorem attempts_publish (events : List Event) : ∀ w : Watched,
    Attempts ledger (fun _ t => t = { w with store := w.store.acceptAll events })
      (fun e t => e = .store channel MemoryStore.refusal ∧ ∃ sent rest, events = sent ++ rest ∧
        rest ≠ [] ∧ (w.store.acceptAll sent).failingPuts = some 0 ∧
        t = { w with store := w.store.acceptAll sent })
      (publish channel events) w := by
  induction events with
  | nil => exact fun w => Attempt.Safe.pure trivial rfl
  | cons event events ih =>
      intro w
      by_cases hlimit : w.store.failingPuts = some 0
      · have hanswer : w.store.answer (.putEvent event) = (.error MemoryStore.refusal, w.store) :=
          if_pos hlimit
        refine Attempt.Safe.bind (attempts_store (fun value hvalue => ?_) fun e he => ?_)
        · rw [hanswer] at hvalue
          cases hvalue
        · rw [hanswer] at he ⊢
          cases he
          exact ⟨rfl, [], event :: events, rfl, by simp, hlimit, rfl⟩
      · have hanswer : w.store.answer (.putEvent event) = (.ok (), w.store.accept event) :=
          if_neg hlimit
        refine Attempt.Safe.bind (attempts_store (fun value hvalue => ?_) fun e he => ?_)
        · rw [hanswer]
          refine Attempt.Safe.mono (ih _) (fun _ _ _ h => h) ?_
          rintro e t _ ⟨he, sent, rest, rfl, hrest, hrefusal, ht⟩
          exact ⟨he, event :: sent, rest, rfl, hrest, hrefusal, ht⟩
        · rw [hanswer] at he
          cases he

/-- **One block** is published in full, or the store shows no more than a first part of it. -/
theorem attempts_ingestNext :
    Attempts ledger
      (fun block t => ∃ events, agent.eventsAt? ledger channel cursor.next = some events ∧
        ledger.HasHash channel cursor.next block.headerHash ∧
        t = { w with store := w.store.applyBlock channel cursor.next events })
      (fun e t => (Stalled ledger channel cursor e ∧ t = w) ∨
        e = .store channel MemoryStore.refusal ∧ ∃ sent rest,
          agent.eventsAt? ledger channel cursor.next = some (sent ++ rest) ∧ rest ≠ [] ∧
          (w.store.acceptAll sent).failingPuts = some 0 ∧
          t = { w with store := w.store.acceptAll sent })
      (ingestNext agent channel cursor) w := by
  refine Attempt.Safe.bind (attempts_prepare (fun prepared hevents hhash => ?_)
    fun e he => .inl ⟨he, rfl⟩)
  refine Attempt.Safe.bind (Attempt.Safe.mono (attempts_publish prepared.events w) ?_ ?_)
  · rintro _ _ _ rfl
    refine Attempt.Safe.bind (attempts_store (fun _ _ => ?_) nofun)
    exact Attempt.Safe.pure trivial ⟨prepared.events, hevents, hhash, rfl⟩
  · rintro e t _ ⟨he, sent, rest, hsplit, hrest, hrefusal, ht⟩
    exact .inr ⟨he, sent, rest, hsplit ▸ hevents, hrest, hrefusal, ht⟩

end Ingestor

/-! ### Block after block -/

/-- The blocks from `start` on have been finished, with these events, and the cursor is behind
them. -/
structure Finished (agent : Agent) (ledger : MemoryLedger) (channel : String) (start : Cursor)
    (blocks : List (List Event)) (cursor : Cursor) : Prop where
  events : blocks.map some =
    (List.range' start.next blocks.length).map (agent.eventsAt? ledger channel)
  next : cursor.next = start.next + blocks.length
  unmoved : blocks = [] → cursor.lastHash = start.lastHash
  lastHash : blocks ≠ [] → ∃ hash, cursor.lastHash = some hash ∧
    ledger.HasHash channel (start.next + blocks.length - 1) hash

theorem finished_nil : Finished agent ledger channel start [] start :=
  ⟨rfl, rfl, fun _ => rfl, fun h => absurd rfl h⟩

theorem Finished.concat {blocks : List (List Event)} {events : List Event} {hash : Bytes}
    (h : Finished agent ledger channel start blocks cursor)
    (hevents : agent.eventsAt? ledger channel cursor.next = some events)
    (hhash : ledger.HasHash channel cursor.next hash) :
    Finished agent ledger channel start (blocks ++ [events]) ⟨cursor.next + 1, some hash⟩ where
  events := by
    rw [List.map_append, h.events, List.length_append, List.length_singleton, List.range'_1_concat,
      List.map_append, List.map_singleton, List.map_singleton, ← h.next, hevents]
  next := by simp [h.next, Nat.add_assoc]
  unmoved hnil := by simp at hnil
  lastHash _ := ⟨hash, rfl, by simpa [h.next, ← Nat.add_assoc] using hhash⟩

/-- The state after some blocks, each of which was begun without a request to stop. -/
def afterBlocks (store : MemoryStore) (channel : String) (number : Nat)
    (blocks : List (List Event)) : Watched :=
  ⟨store.applyBlocks channel number blocks, List.replicate blocks.length false⟩

inductive Polled (agent : Agent) (ledger : MemoryLedger) (channel : String) (start : Cursor)
    (store : MemoryStore) : Except IngestError Nat × Cursor → Watched → Prop
  | unanswered {e : LedgerError} (h : ledger.answer (.tipHeight channel) = .error e) :
      Polled agent ledger channel start store (.error (.ofLedger channel e), start) ⟨store, []⟩
  | caughtUp {tip : Nat} {blocks : List (List Event)} {cursor : Cursor}
      (htip : ledger.answer (.tipHeight channel) = .ok tip)
      (h : Finished agent ledger channel start blocks cursor)
      (hcount : blocks.length = tip - start.next) :
      Polled agent ledger channel start store (.ok blocks.length, cursor)
        (afterBlocks store channel start.next blocks)
  | stopped {tip : Nat} {blocks : List (List Event)} {cursor : Cursor}
      (htip : ledger.answer (.tipHeight channel) = .ok tip)
      (h : Finished agent ledger channel start blocks cursor)
      (hcount : blocks.length < tip - start.next) :
      Polled agent ledger channel start store (.ok blocks.length, cursor)
        ⟨store.applyBlocks channel start.next blocks,
          List.replicate blocks.length false ++ [true]⟩
  | stalled {tip : Nat} {blocks : List (List Event)} {cursor : Cursor} {e : IngestError}
      (htip : ledger.answer (.tipHeight channel) = .ok tip)
      (h : Finished agent ledger channel start blocks cursor)
      (hcount : blocks.length < tip - start.next) (he : Ingestor.Stalled ledger channel cursor e) :
      Polled agent ledger channel start store (.error e, cursor)
        ⟨store.applyBlocks channel start.next blocks, List.replicate (blocks.length + 1) false⟩
  | refused {blocks : List (List Event)} {cursor : Cursor} {sent rest : List Event}
      (h : Finished agent ledger channel start blocks cursor)
      (hevents : agent.eventsAt? ledger channel cursor.next = some (sent ++ rest))
      (hrest : rest ≠ [])
      (hrefusal : ((store.applyBlocks channel start.next blocks).acceptAll sent).failingPuts
        = some 0) :
      Polled agent ledger channel start store
        (.error (.store channel MemoryStore.refusal), cursor)
        ⟨(store.applyBlocks channel start.next blocks).acceptAll sent,
          List.replicate (blocks.length + 1) false⟩

theorem yields_ingestUpTo {tip : Nat} {store : MemoryStore}
    (htip : ledger.answer (.tipHeight channel) = .ok tip) :
    Yields ledger (Polled agent ledger channel start store)
      (Ingestor.ingestUpTo agent channel (tip - start.next) start 0) ⟨store, []⟩ := by
  refine Ingestor.safe_ingestUpTo (fun remaining cursor count w =>
    ∃ blocks, Finished agent ledger channel start blocks cursor ∧ count = blocks.length ∧
      blocks.length + remaining = tip - start.next ∧
      w = afterBlocks store channel start.next blocks) ?_ ?_ ?_ trivial
    ⟨[], finished_nil, rfl, Nat.zero_add _, rfl⟩
  · rintro cursor _ _ _ ⟨blocks, hfinished, rfl, hcount, rfl⟩
    exact .caughtUp htip hfinished hcount
  · rintro remaining cursor _ _ _ _ ⟨blocks, hfinished, rfl, hcount, rfl⟩ rfl
    exact ⟨trivial, .stopped htip hfinished (by omega)⟩
  · rintro remaining cursor _ _ _ _ ⟨blocks, hfinished, rfl, hcount, rfl⟩ rfl
    have hlooks : List.replicate blocks.length false ++ [false]
        = List.replicate (blocks.length + 1) false := List.replicate_succ'.symm
    refine ⟨trivial, Attempt.Safe.mono Ingestor.attempts_ingestNext ?_ ?_⟩
    · rintro block _ _ ⟨events, hevents, hhash, rfl⟩ _ _ rfl
      refine ⟨trivial, blocks ++ [events], hfinished.concat hevents hhash, by simp, ?_, ?_⟩
      · simp only [List.length_append, List.length_singleton]
        omega
      · simp only [afterBlocks, hlooks, hfinished.next, MemoryStore.applyBlocks_concat,
          List.length_append, List.length_singleton]
    · rintro e _ _ (⟨he, rfl⟩ | ⟨rfl, sent, rest, hevents, hrest, hrefusal, rfl⟩)
      · simp only [afterBlocks, hlooks]
        exact .stalled htip hfinished (by omega) he
      · simp only [afterBlocks, hlooks]
        exact .refused hfinished hevents hrest hrefusal

/-- **A poll** ends in one of these ways. -/
theorem yields_poll (ingestor : Ingestor) (ledger : MemoryLedger) (store : MemoryStore) :
    Yields ledger (fun r t =>
      match ingestor.cursor with
      | none => r = (.error (.notReconciled ingestor.channel), ingestor) ∧ t = ⟨store, []⟩
      | some start => ∃ cursor, r.2 = { ingestor with cursor := some cursor } ∧
          Polled ingestor.agent ledger ingestor.channel start store (r.1, cursor) t)
      ingestor.poll ⟨store, []⟩ := by
  refine Ingestor.safe_poll_of_height trivial (fun hnone => ?_) fun start hstart => ?_
  · rw [hnone]
    exact ⟨rfl, rfl⟩
  · simp only [hstart]
    refine attempts_ledger (fun tip htip => ?_) fun e he => ?_
    · refine Program.Safe.mono (yields_ingestUpTo htip) ?_
      rintro ⟨result, cursor⟩ t _ hpolled
      exact ⟨cursor, rfl, hpolled⟩
    · exact ⟨start, by rw [← hstart], .unanswered he⟩

/-! ### What is left behind -/

/-- The errors that stop the work on a block before any of its events is published. -/
inductive IngestError.Early (channel : String) (number : Nat) : IngestError → Prop
  | ledger (source : LedgerError) : Early channel number (.ledger channel source)
  | decode (source : DecodeError) : Early channel number (.decode channel number source)
  | brokenHashChain (expected actual : String) :
      Early channel number (.brokenHashChain channel number expected actual)
  | blockNumberOverflow : Early channel number (.blockNumberOverflow number)
  | unknownChannel : Early channel number (.unknownChannel channel)

theorem early_of_unanswered {source : LedgerError} (number : Nat)
    (h : ledger.answer (.tipHeight channel) = .error source) :
    IngestError.Early channel number (.ofLedger channel source) := by
  rcases MemoryLedger.error_of_tipHeight h with rfl | rfl
  · exact .ledger _
  · exact .unknownChannel

theorem Ingestor.Stalled.early (h : Stalled ledger channel cursor e) :
    e.Early channel cursor.next := by
  cases h with
  | unfetched h =>
      cases h with
      | refused h =>
          rcases MemoryLedger.error_of_block h with rfl | rfl | rfl
          · exact .ledger _
          · exact .unknownChannel
          · exact .ledger _
      | unreadable _ _ => exact .decode _
  | unready hblock h =>
      cases h with
      | broken _ => exact .brokenHashChain _ _
      | @overflow overflow h =>
          obtain ⟨bytes, _, hdecoded⟩ := hblock
          rw [BlockHeader.hash_eq_error h, (decodeNumbered_eq_ok hdecoded).2]
          exact .blockNumberOverflow
      | transactions _ => exact .decode _

/-- Of the events of a block all but the last are no block documents. -/
theorem Agent.kind_ne_block_of_eventsAt? {number : Nat} {sent rest : List Event}
    (h : agent.eventsAt? ledger channel number = some (sent ++ rest)) (hrest : rest ≠ []) :
    ∀ e ∈ sent, e.kind ≠ .block := by
  obtain ⟨bytes, _, hevents⟩ := Option.bind_eq_some_iff.mp h
  obtain ⟨block, hash, txs, _, hsplit⟩ := eq_eventsOf_of_eventsOfBytes? hevents
  intro e he
  obtain ⟨before, behind, rfl⟩ := List.append_of_mem he
  rw [List.append_assoc, List.cons_append] at hsplit
  rcases eventsOf_split hsplit.symm with ⟨hnil, _⟩ | ⟨_, hkind⟩
  · exact absurd (List.append_eq_nil_iff.mp hnil).2 hrest
  · exact hkind

/-- **The outcome of a poll.**  Whenever a request to stop is seen, a poll finishes some blocks from
the cursor on, and the cursor is behind them with the hash of the last of them.  After success they
are all blocks up to the height of the ledger, or those before the request to stop was seen, and the
store is the old one with exactly their events and checkpoints.  So it is after an error of the
ledger, of reading the next block or of its place in the chain; after an error of the store some of
the events of the next block are there too, but neither its document nor its checkpoint.  Without a
cursor nothing happens. -/
theorem Ingestor.poll_outcome (ingestor : Ingestor) (ledger : MemoryLedger) (store : MemoryStore)
    (stop : Nat → Bool) :
    let channel := ingestor.channel
    let after := ingestor.poll.run (Watched.world ledger stop) ⟨store, []⟩
    match ingestor.cursor with
    | none => after = ((.error (.notReconciled channel), ingestor), ⟨store, []⟩)
    | some start => ∃ (blocks : List (List Event)) (cursor : Cursor),
      after.1.2 = { ingestor with cursor := some cursor } ∧
      Finished ingestor.agent ledger channel start blocks cursor ∧
      match after.1.1 with
      | .ok count =>
        count = blocks.length ∧
        after.2.store = store.applyBlocks channel start.next blocks ∧
        ∃ tip, ledger.answer (.tipHeight channel) = .ok tip ∧
          (true ∉ after.2.looks → count = tip - start.next) ∧
          (true ∈ after.2.looks → count < tip - start.next ∧
            after.2.looks = List.replicate count false ++ [true])
      | .error e =>
        (e.Early channel cursor.next ∧
          after.2.store = store.applyBlocks channel start.next blocks) ∨
        (e = .store channel MemoryStore.refusal ∧ ∃ sent rest,
          ingestor.agent.eventsAt? ledger channel cursor.next = some (sent ++ rest) ∧ rest ≠ [] ∧
          (∀ e ∈ sent, e.kind ≠ .block) ∧
          after.2.store = (store.applyBlocks channel start.next blocks).acceptAll sent) := by
  intro channel after
  have hafter := (yields_poll ingestor ledger store).run stop
  change match ingestor.cursor with
    | none => after.1 = _ ∧ after.2 = _
    | some start => ∃ cursor, after.1.2 = _ ∧
        Polled ingestor.agent ledger channel start store (after.1.1, cursor) after.2 at hafter
  generalize after = a at hafter ⊢
  obtain ⟨⟨result, ingestor'⟩, t⟩ := a
  cases hcursor : ingestor.cursor with
  | none =>
      rw [hcursor] at hafter
      obtain ⟨hresult, hstate⟩ := hafter
      exact Prod.ext hresult hstate
  | some start =>
      rw [hcursor] at hafter
      obtain ⟨cursor, hingestor, hpolled⟩ := hafter
      cases hpolled with
      | unanswered h =>
          exact ⟨[], start, hingestor, finished_nil, .inl ⟨early_of_unanswered _ h, rfl⟩⟩
      | @caughtUp tip blocks cursor htip h hcount =>
          exact ⟨blocks, cursor, hingestor, h, rfl, rfl, tip, htip, fun _ => hcount,
            fun hseen => by simp at hseen⟩
      | @stopped tip blocks cursor htip h hcount =>
          refine ⟨blocks, cursor, hingestor, h, rfl, rfl, tip, htip, fun hnone => ?_,
            fun _ => ⟨hcount, rfl⟩⟩
          simp at hnone
      | @stalled _ blocks cursor e _ h _ he =>
          exact ⟨blocks, cursor, hingestor, h, .inl ⟨he.early, rfl⟩⟩
      | @refused blocks cursor sent rest h hevents hrest hrefusal =>
          exact ⟨blocks, cursor, hingestor, h, .inr ⟨rfl, sent, rest, hevents, hrest,
            Agent.kind_ne_block_of_eventsAt? hevents hrest, rfl⟩⟩

/-- A store refuses the last event of block 1, which is its document. -/
theorem Ingestor.poll_outcome_refused :
    let ledger := (({} : MemoryLedger).push "c" Deployment.Sample.first).push "c"
      Deployment.Sample.second
    let store : MemoryStore := { failingPuts := some 3 }
    let ingestor : Ingestor := ⟨Deployment.Sample.agent, "c", some .genesis⟩
    let after := ingestor.poll.run (Watched.world ledger fun _ => false) ⟨store, []⟩
    after.1.1 = .error (.store "c" MemoryStore.refusal) ∧
    ∃ blocks sent rest, after.2.store.events.length = 3 ∧
      ingestor.agent.eventsAt? ledger "c" 1 = some (sent ++ rest) ∧ rest ≠ [] ∧
      after.2.store = (store.applyBlocks "c" 0 blocks).acceptAll sent := by
  intro ledger store ingestor after
  have hresult : after.1.1 = .error (.store "c" MemoryStore.refusal) := by decide +kernel
  have hcursor : after.1.2.cursor.map (·.next) = some 1 := by decide +kernel
  have hlength : after.2.store.events.length = 3 := by decide +kernel
  obtain ⟨blocks, cursor, hingestor, _, houtcome⟩ :=
    Ingestor.poll_outcome ingestor ledger store fun _ => false
  change match after.1.1 with
    | .ok _ => _
    | .error _ => _ at houtcome
  rw [show after.1.2 = _ from hingestor] at hcursor
  rw [hresult] at houtcome
  rcases houtcome with ⟨hearly, _⟩ | ⟨_, sent, rest, hevents, hrest, _, hstore⟩
  · cases hearly
  · rw [show cursor.next = 1 from Option.some.inj hcursor] at hevents
    exact ⟨hresult, blocks, sent, rest, hlength, hevents, hrest, hstore⟩

end LedgerIndex
