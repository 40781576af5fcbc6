import LedgerIndex.Proofs.Ingest.HashChain
import LedgerIndex.Proofs.Ingest.Unbroken
import LedgerIndex.Proofs.Ingest.Verdict

/-! # No false alarms, and recovery from every fault

While the ledger holds first parts of an unbroken chain, an agent's engines may be killed, cut off
and refused at any time: the stores that they leave behind are `Reached`.  From every such store a
new engine catches up when it is let alone (`Session.Calm`): it resumes at the checkpoint, ingests
the rest of the chain, and the store then holds all of the chain (`Reached.catchUp`), which is what
it would hold had nothing ever failed (`Session.catchUp_recovers`). -/

namespace LedgerIndex

open Ingest MemoryStore Watched

variable {agent : Agent} {channel : String} {chain : List Bytes} {ledger : MemoryLedger}
  {store : MemoryStore}

/-! ### A poll that is let alone -/

theorem Abreast.of_finished (hledger : ledger.Serves channel chain) {start cursor : Cursor}
    {blocks : List (List Event)} (h : Finished agent ledger channel start blocks cursor)
    (hstart : Abreast chain start) : Abreast chain cursor := by
  intro hash hhash
  cases blocks with
  | nil =>
      rw [h.unmoved rfl] at hhash
      rw [h.next]
      exact hstart hash hhash
  | cons events blocks =>
      obtain ⟨last, hlast, hserved⟩ := h.lastHash (List.cons_ne_nil _ _)
      obtain rfl : last = hash := Option.some.inj (hlast.symm.trans hhash)
      rw [List.length_cons, Nat.add_succ_sub_one] at hserved
      exact ⟨_, by rw [h.next, List.length_cons, Nat.add_assoc], hledger.hashAt_iff.mp hserved⟩

/-- **A poll that is let alone** ingests the rest of the chain. -/
theorem Polled.catches_up (hchain : Unbroken chain) (hledger : ledger.Serves channel chain)
    {start : Cursor} (hstart : Abreast chain start)
    (hbehind : start.next = store.nextBlock channel) (hle : start.next ≤ chain.length)
    (hputs : store.failingPuts = none) {r : Except IngestError Nat × Cursor} {w : Watched}
    (hquiet : ∀ seen ∈ w.looks, seen = false) (h : Polled agent ledger channel start store r w) :
    r.1 = .ok (chain.length - start.next) ∧ w.store.nextBlock channel = chain.length := by
  cases h with
  | unanswered herror => cases hledger.tipHeight.symm.trans herror
  | @caughtUp tip blocks cursor htip hfinished hcount =>
      obtain rfl : chain.length = tip := Except.ok.inj (hledger.tipHeight.symm.trans htip)
      refine ⟨congrArg Except.ok hcount, ?_⟩
      show (store.applyBlocks channel start.next blocks).nextBlock channel = _
      rw [nextBlock_applyBlocks channel blocks hbehind.symm]
      omega
  | stopped _ _ _ => exact absurd (hquiet true (by simp)) (by decide)
  | @stalled tip blocks cursor e htip hfinished hcount hstalled =>
      obtain rfl : chain.length = tip := Except.ok.inj (hledger.tipHeight.symm.trans htip)
      have hlt : cursor.next < chain.length := by
        rw [hfinished.next]
        omega
      exact absurd hstalled
        (hchain.not_stalled hledger (Abreast.of_finished hledger hfinished hstart) hlt)
  | @refused blocks cursor sent rest _ _ _ hrefusal =>
      have hblocks := failingPuts_applyBlocks channel blocks start.next hputs
      cases (failingPuts_acceptAll sent hblocks).symm.trans hrefusal

/-! ### Stores that are left behind -/

/-- At every moment of a run the ledger holds a first part of a chain. -/
def Deployment.OnPrefixes (channel : String) (chain : List Bytes) :
    Deployment → List Action → Prop
  | _, [] => True
  | d, action :: actions =>
    (d.ledger.blocks? channel).getD [] <+: chain ∧ OnPrefixes channel chain (d.step action) actions

instance Deployment.decidableOnPrefixes (channel : String) (chain : List Bytes) :
    ∀ (actions : List Action) (d : Deployment), Decidable (d.OnPrefixes channel chain actions)
  | [], _ => .isTrue trivial
  | action :: actions, d =>
    have := decidableOnPrefixes channel chain actions (d.step action)
    instDecidableAnd

/-- The stores that engines of an agent leave behind, starting from an empty store, in any number of
runs, each on a ledger of its own that holds first parts of a chain. -/
inductive Reached (agent : Agent) (channel : String) (chain : List Bytes) : MemoryStore → Prop
  | empty : Reached agent channel chain {}
  | run {ledger : MemoryLedger} {store : MemoryStore} {actions : List Action}
      (h : Reached agent channel chain store)
      (hagent : ∀ a channels, .start a channels ∈ actions → a = agent)
      (hledger : Deployment.OnPrefixes channel chain ⟨ledger, store, .stopped⟩ actions) :
      Reached agent channel chain ((Deployment.mk ledger store .stopped).run actions).store

namespace Discipline

variable {allowed : Agent → Prop} {served : Ledger.Serving}
  {D : Discipline channel allowed served}

/-- A discipline that engines of an agent keep from an empty store on, whenever they are killed, as
long as the ledger holds a first part of a chain. -/
structure Enduring (D : Discipline channel allowed served) (agent : Agent) (chain : List Bytes) :
    Prop where
  isolated : D.Isolated
  empty : D.placed none {}
  recovers : ∀ {s}, D.sound s → D.placed none s
  allowed : allowed agent
  served : ∀ {ledger : MemoryLedger}, (ledger.blocks? channel).getD [] <+: chain →
    ∀ q, served q (ledger.answer q)

theorem Enduring.ledgerWithin (hD : D.Enduring agent chain) {actions : List Action} :
    ∀ {d : Deployment}, d.OnPrefixes channel chain actions → d.LedgerWithin served actions := by
  induction actions with
  | nil => exact fun _ => trivial
  | cons action actions ih => exact fun h => ⟨hD.served h.1, ih h.2⟩

theorem Enduring.placed (hD : D.Enduring agent chain) (h : Reached agent channel chain store) :
    D.placed none store.unlimited := by
  induction h with
  | empty => exact hD.empty
  | @run ledger store actions _ hagent hledger ih =>
      have hbegin : D.Holds ⟨ledger, store, .stopped⟩ := ih
      have hend := hbegin.run hD.isolated (hD.ledgerWithin hledger)
        (fun a channels hmem => hagent a channels hmem ▸ hD.allowed) (.inl fun _ => hD.recovers)
      exact hD.recovers hend.sound

end Discipline

/-! ### Catching up -/

namespace Ingest.Session

/-- A session over memory in which no request to stop comes up. -/
structure Calm (session : Session) (ledger : MemoryLedger) (store : MemoryStore)
    (network : Http.Network) : Prop where
  site : session.site = ⟨.memory ledger, .memory store, network⟩
  stopped : session.stopped = false
  stopAt : session.stopAt = none

/-- Reconciles a channel and polls it once; the answer has both results. -/
def catchUp (session : Session) (engine : Engine) (channel : String) :
    (Except IngestError Nat × Except IngestError Nat) × Session :=
  let (reconciled, session) := session.run (engine.reconcile channel)
  let (polled, session) := session.run (reconciled.2.poll channel)
  ((reconciled.1, polled.1), session)

variable {session : Session} {network : Http.Network}

theorem Calm.run {α : Type} {post : α → Watched → Prop} {p : Program α}
    (h : session.Calm ledger store network) (hp : Yields ledger post p ⟨store, []⟩) :
    ∃ w, (session.run p).2.Calm ledger w.store network ∧ (∀ seen ∈ w.looks, seen = false) ∧
      post (session.run p).1 w := by
  obtain ⟨w, hfollows, hpost⟩ := exists_of_session hp h.site
  obtain ⟨hstopAt, hstopped, hlooks⟩ := hfollows.quiet h.stopAt
  rw [h.stopped] at hstopped hlooks
  exact ⟨w, ⟨hfollows.site, hstopped, hstopAt⟩, hlooks, hpost⟩

end Ingest.Session

/-- Where everything that is recorded comes from the chain, a reconciliation succeeds. -/
theorem MemoryStore.Recorded.verdict (h : Recorded chain channel store)
    (hledger : ledger.Serves channel chain) :
    ∃ cursor, Verdict ledger store channel (.ok cursor) ∧
      cursor.next = store.nextBlock channel ∧ Abreast chain cursor := by
  cases hcheckpoint : store.checkpoint? channel with
  | none =>
      refine ⟨.genesis, .genesis hcheckpoint, ?_, nofun⟩
      exact behind_some.mp (behind_genesis hcheckpoint)
  | some number =>
      have hnext := nextBlock_of_checkpoint? hcheckpoint
      obtain ⟨hash, hhash, hstored⟩ :=
        h.hash (Nat.lt_of_lt_of_eq (Nat.lt_succ_self number) hnext.symm)
      obtain ⟨bytes, block, hbytes, hblock, hheader⟩ :=
        MemoryLedger.hasHash_iff.mp (hledger.hashAt_iff.mpr hhash)
      refine ⟨⟨number + 1, some hash⟩, .compared hcheckpoint hstored
        (.agreed hbytes hblock hheader (Ingestor.sameIgnoringCase_refl _)), hnext.symm, ?_⟩
      rintro _ ⟨⟩
      exact ⟨number, rfl, hhash⟩

theorem Engine.yields_reconcile_start (agent : Agent) {channels : List String}
    (hchannel : channel ∈ channels) {cursor : Cursor}
    (h : Verdict ledger store channel (.ok cursor)) :
    Yields ledger (fun r t => t = ⟨store, []⟩ ∧ r.1 = .ok cursor.next ∧
      r.2.ingestor? channel = some ⟨agent, channel, some cursor⟩)
      ((Engine.start agent channels).reconcile channel) ⟨store, []⟩ := by
  have hingestor : (Engine.start agent channels).ingestor? channel
      = some (Ingestor.start agent channel) := by
    rw [ingestor?_start, if_pos hchannel]
  refine safe_onChannel hingestor (Program.Safe.mono yields_reconcile ?_)
  rintro ⟨result, after⟩ _ _ ⟨rfl, verdict, hverdict, hresult, hafter⟩
  obtain rfl := hverdict.unique h
  exact ⟨rfl, hresult, (ingestor?_put_self ..).trans (congrArg some hafter)⟩

theorem Engine.yields_poll {engine : Engine} {cursor : Cursor}
    (h : engine.ingestor? channel = some ⟨agent, channel, some cursor⟩) :
    Yields ledger (fun r t => ∃ cursor', Polled agent ledger channel cursor store (r.1, cursor') t)
      (engine.poll channel) ⟨store, []⟩ := by
  refine safe_onChannel h (Program.Safe.mono (LedgerIndex.yields_poll _ ledger store) ?_)
  rintro ⟨result, after⟩ t _ ⟨cursor', _, hpolled⟩
  exact ⟨cursor', hpolled⟩

/-- **The results of catching up.** -/
theorem Ingest.Session.catchUp_results (hchain : Unbroken chain)
    (hledger : ledger.Serves channel chain) (hstore : Recorded chain channel store)
    (hputs : store.failingPuts = none) {channels : List String} (hchannel : channel ∈ channels)
    {session : Session} {network : Http.Network} (hsession : session.Calm ledger store network) :
    let after := session.catchUp (Engine.start agent channels) channel
    after.1 = (.ok (store.nextBlock channel), .ok (chain.length - store.nextBlock channel)) ∧
    ∃ final, after.2.site = ⟨.memory ledger, .memory final, network⟩ ∧
      final.nextBlock channel = chain.length := by
  obtain ⟨cursor, hverdict, hnext, habreast⟩ := hstore.verdict hledger
  obtain ⟨_, hcalm, _, rfl, hreconciled, hingestor⟩ :=
    hsession.run (Engine.yields_reconcile_start agent hchannel hverdict)
  obtain ⟨w, hafter, hquiet, cursor', hpolled⟩ := hcalm.run (Engine.yields_poll hingestor)
  have hle : cursor.next ≤ chain.length := hnext ▸ hstore.nextBlock_le
  obtain ⟨hcount, hfinal⟩ :=
    hpolled.catches_up hchain hledger habreast hnext hle hputs hquiet
  rw [hnext] at hreconciled hcount
  exact ⟨Prod.ext hreconciled hcount, w.store, hafter.site, hfinal⟩

theorem Discipline.Enduring.sound_catchUp {allowed : Agent → Prop} {served : Ledger.Serving}
    {D : Discipline channel allowed served} (hD : D.Enduring agent chain)
    (h : Reached agent channel chain store) (hledger : ledger.Serves channel chain)
    (channels : List String) {session : Session} {network : Http.Network}
    (hsite : session.site = ⟨.memory ledger, .memory store.unlimited, network⟩) :
    ∃ final, (session.catchUp (Engine.start agent channels) channel).2.site
      = ⟨.memory ledger, .memory final, network⟩ ∧ D.sound final.unlimited := by
  have hprefix : (ledger.blocks? channel).getD [] <+: chain := by
    rw [hledger.blocks]
    exact List.prefix_refl _
  have hserved := hD.served hprefix
  have hstart : D.Governs (Engine.start agent channels) store.unlimited := by
    refine ⟨?_, Engine.proper_start hD.allowed channels⟩
    rw [Engine.cursor?_start]
    exact hD.placed h
  obtain ⟨store', hsite', hgoverns⟩ :=
    post_of_safe hserved hsite (hstart.safe_onChannel hD.isolated kept_reconcile)
  obtain ⟨final, hfinal, hgoverns⟩ :=
    post_of_safe hserved hsite' (hgoverns.safe_onChannel hD.isolated kept_poll)
  exact ⟨final, hfinal, D.sound_of_placed hgoverns.placed⟩

/-! ### What the store holds in the end -/

theorem serving_of_isPrefix (h : (ledger.blocks? channel).getD [] <+: chain) (q : Ledger.Query) :
    Ledger.servingChain channel chain q (ledger.answer q) := by
  refine ledger.serving_answer (fun number bytes hbytes => ?_) q
  obtain ⟨blocks, hblocks, hnumber⟩ := Option.bind_eq_some_iff.mp hbytes
  rw [hblocks, Option.getD_some] at h
  obtain ⟨rest, rfl⟩ := h
  rwa [List.getElem?_append_left (List.getElem?_eq_some_iff.mp hnumber).1]

namespace Discipline

theorem enduring_logging (agent : Agent) (channel : String) (chain : List Bytes) :
    (logging agent channel (chain[·]?)).Enduring agent chain where
  isolated := isolated_logging ..
  empty := ⟨⟨[], by simp, List.Pairwise.nil, ⟨[], rfl, rfl⟩, List.nil_prefix⟩, behind_none⟩
  recovers h := ⟨h, behind_none⟩
  allowed := rfl
  served := serving_of_isPrefix

theorem enduring_recording (agent : Agent) (channel : String) (chain : List Bytes) :
    (recording (fun _ => True) channel chain).Enduring agent chain where
  isolated := isolated_recording ..
  empty := ⟨⟨fun hlt => absurd hlt (Nat.not_lt_zero _), fun hb => absurd hb.1 List.not_mem_nil⟩,
    behind_none⟩
  recovers h := ⟨h, behind_none⟩
  allowed := trivial
  served := serving_of_isPrefix

theorem enduring_documenting (agent : Agent) (channel : String) (chain : List Bytes) :
    (documenting agent.peer 0 channel).Enduring agent chain where
  isolated := isolated_documenting ..
  empty := ⟨⟨fun _ he => absurd he List.not_mem_nil, fun _ _ hlt => absurd hlt (Nat.not_lt_zero _)⟩,
    behind_none⟩
  recovers h := ⟨h, behind_none⟩
  allowed := rfl
  served _ _ := trivial

end Discipline

/-- A store holds all of a chain, and nothing else of its channel. -/
structure MemoryStore.Complete (agent : Agent) (channel : String) (chain : List Bytes)
    (s : MemoryStore) : Prop where
  next : s.nextBlock channel = chain.length
  eventsOn : ∃ published : List (List Event), published.map some
      = (List.range chain.length).map (agent.source channel (chain[·]?)).events? ∧
    s.eventsOn channel = published.flatten
  recorded : Recorded chain channel s
  document : ∀ number < chain.length, ∃ b, s.HasBlock channel b ∧ b.blockNumber = number

theorem MemoryStore.Complete.eventsOn_eq {s t : MemoryStore} (hs : s.Complete agent channel chain)
    (ht : t.Complete agent channel chain) : s.eventsOn channel = t.eventsOn channel := by
  obtain ⟨published, hpublished, hon⟩ := hs.eventsOn
  obtain ⟨published', hpublished', hon'⟩ := ht.eventsOn
  obtain rfl : published = published' :=
    List.map_injective_iff.mpr (fun _ _ => Option.some.inj) (hpublished.trans hpublished'.symm)
  rw [hon, hon']

theorem Reached.recorded (h : Reached agent channel chain store) :
    Recorded chain channel store.unlimited :=
  ((Discipline.enduring_recording agent channel chain).placed h).1

/-- **From every store that is reached an engine catches up.** -/
theorem Reached.catchUp (h : Reached agent channel chain store) (hchain : Unbroken chain)
    (hledger : ledger.Serves channel chain) {channels : List String} (hchannel : channel ∈ channels)
    {session : Session} {network : Http.Network}
    (hsession : session.Calm ledger store.unlimited network) :
    let after := session.catchUp (Engine.start agent channels) channel
    after.1 = (.ok (store.nextBlock channel), .ok (chain.length - store.nextBlock channel)) ∧
    ∃ final, after.2.site = ⟨.memory ledger, .memory final, network⟩ ∧
      final.Complete agent channel chain := by
  intro after
  obtain ⟨hresults, final, hfinal, hnext⟩ :=
    Session.catchUp_results hchain hledger h.recorded rfl hchannel hsession
  refine ⟨hresults, final, hfinal, ?_⟩
  have hsame : ∀ {final'}, after.2.site = ⟨.memory ledger, .memory final', network⟩ →
      final = final' := by
    intro final' hfinal'
    have hsites := hfinal.symm.trans hfinal'
    injection hsites with _ hstores
    injection hstores
  obtain ⟨_, hsite, begun, hlog⟩ :=
    (Discipline.enduring_logging agent channel chain).sound_catchUp h hledger channels hsession.site
  obtain rfl := hsame hsite
  obtain ⟨_, hsite, hsound⟩ :=
    (Discipline.enduring_recording agent channel chain).sound_catchUp h hledger channels
      hsession.site
  obtain rfl := hsame hsite
  obtain ⟨_, hsite, hdocumented⟩ :=
    (Discipline.enduring_documenting agent channel chain).sound_catchUp h hledger channels
      hsession.site
  obtain rfl := hsame hsite
  refine ⟨hnext, ?_, ⟨hsound.hash, hsound.document⟩, fun number hlt =>
    hdocumented.document number (Nat.zero_le _) (hnext ▸ hlt)⟩
  obtain ⟨published, hpublished, hon⟩ := hlog.eventsOn
  have hnext' : final.unlimited.nextBlock channel = chain.length := hnext
  have hnone : (agent.source channel (chain[·]?)).events? chain.length = none := by
    simp [Agent.source]
  have hbegun : begun = [] := by
    have hprefix := hlog.begun
    rwa [hnext', hnone, Option.getD_none, List.prefix_nil] at hprefix
  rw [hnext'] at hpublished
  rw [hbegun, List.append_nil] at hon
  exact ⟨published, hpublished, hon⟩

/-- **No false alarms, and recovery from every fault.**  The sample blocks of any transactions that
a peer can serve make up a channel, and engines of an agent have worked on first parts of it,
killed, cut off and refused at any time.  Once the ledger has all blocks and is available and the
store refuses nothing, a new engine resumes behind the checkpoint and ingests all blocks that are
missing.  The last block then has the checkpoint, the events of the channel are those of an engine
that has done all this at one go, and every block has its document with the hash of the sample
block. -/
theorem Ingest.Session.catchUp_recovers {transactions : List (List TxFixture)}
    (hsome : transactions ≠ []) (hservable : ChainFixture.Servable channel transactions)
    (hstore : Reached agent channel
      ((ChainFixture.blocks channel transactions).map BlockFixture.encode) store)
    (hledger : ledger.Serves channel
      ((ChainFixture.blocks channel transactions).map BlockFixture.encode))
    {channels : List String} (hchannel : channel ∈ channels) {session fresh : Session}
    {network network' : Http.Network} (hsession : session.Calm ledger store.unlimited network)
    (hfresh : fresh.Calm ledger {} network') :
    let count := transactions.length
    let after := session.catchUp (Engine.start agent channels) channel
    let uninterrupted := fresh.catchUp (Engine.start agent channels) channel
    ∃ final whole : MemoryStore,
      after.2.site = ⟨.memory ledger, .memory final, network⟩ ∧
      uninterrupted.2.site = ⟨.memory ledger, .memory whole, network'⟩ ∧
      (match store.checkpoint? channel with
        | none => after.1 = (.ok 0, .ok count)
        | some number => number < count ∧ after.1 = (.ok (number + 1), .ok (count - number - 1))) ∧
      uninterrupted.1 = (.ok 0, .ok count) ∧
      final.checkpoint? channel = some (count - 1) ∧
      final.eventsOn channel = whole.eventsOn channel ∧
      ∀ number block, (ChainFixture.blocks channel transactions)[number]? = some block →
        ∃ text, block.header.hashText = .ok text ∧ final.blockHash? channel number = some text ∧
          (∃ b, final.HasBlock channel b ∧ b.blockNumber = number) ∧
          ∀ b, final.HasBlock channel b → b.blockNumber = number → b.blockHash = text := by
  intro count after uninterrupted
  have hchain := hservable.unbroken
  have hlength : ((ChainFixture.blocks channel transactions).map BlockFixture.encode).length
      = count := by rw [List.length_map, ChainFixture.length_blocks]
  obtain ⟨hresults, final, hfinal, hcomplete⟩ := hstore.catchUp hchain hledger hchannel hsession
  obtain ⟨hresults', whole, hwhole, hcomplete'⟩ :=
    Reached.empty.catchUp hchain hledger hchannel hfresh
  rw [hlength] at hresults hresults'
  have hpos : 0 < count := List.length_pos_of_ne_nil hsome
  have hnext : final.nextBlock channel = count := hcomplete.next.trans hlength
  refine ⟨final, whole, hfinal, hwhole, ?_, hresults', ?_, hcomplete.eventsOn_eq hcomplete', ?_⟩
  · cases hcheckpoint : store.checkpoint? channel with
    | none =>
        have hzero : store.nextBlock channel = 0 :=
          (behind_some.mp (behind_genesis hcheckpoint)).symm
        rw [hzero] at hresults
        exact hresults
    | some number =>
        have hnumber : store.nextBlock channel = number + 1 :=
          nextBlock_of_checkpoint? hcheckpoint
        have hle : store.nextBlock channel ≤ _ := hstore.recorded.nextBlock_le
        rw [hnumber, hlength] at hle
        rw [hnumber, ← Nat.sub_sub] at hresults
        exact ⟨hle, hresults⟩
  · rw [checkpoint?_eq_of_nextBlock_pos (by omega), hnext]
  · intro number block hblock
    have hhash := hservable.hashAt hblock
    obtain ⟨hash, hat, hrecorded⟩ := hcomplete.recorded.hash
      (Nat.lt_of_lt_of_eq hhash.lt_length hcomplete.next.symm)
    obtain rfl := hat.unique hhash
    refine ⟨_, ?_, hrecorded, hcomplete.document number hhash.lt_length, fun b hb hnumber => ?_⟩
    · rw [BlockHeader.hashText, hservable.hash_eq hblock]
      rfl
    · obtain ⟨hash, hat, hdocument⟩ := hcomplete.recorded.document hb
      rw [hnumber] at hat
      rw [hdocument, hat.unique hhash]

/-- An engine is killed behind the first write of block 1, while the ledger grows. -/
theorem Ingest.Session.catchUp_recovers_killed :
    let transactions : List (List TxFixture) :=
      [[⟨"", "c", [], 0, .config⟩],
        [⟨"t", "c", [], 0, .endorser "cc" "1" [.write "n" "k" [1], .delete "n" "k"]⟩]]
    let chain := (ChainFixture.blocks "c" transactions).map BlockFixture.encode
    let actions : List Action := chain.map (.push "c") ++ .start Deployment.Sample.agent ["c"]
      :: .reconcile "c" :: List.replicate 2 (.answer false)
      ++ .poll "c" :: List.replicate 10 (.answer false) ++ [.kill]
    let d := (Deployment.mk {} {} .stopped).run actions
    let engine := Engine.start Deployment.Sample.agent ["c"]
    let session : Session :=
      { site := ⟨.memory d.ledger, .memory d.store.unlimited, .unreachable⟩, channel := "c" }
    let fresh : Session :=
      { site := ⟨.memory d.ledger, .memory {}, .unreachable⟩, channel := "c" }
    d.store.events.length = 3 ∧ (session.catchUp engine "c").1 = (.ok 1, .ok 1) ∧
    ∃ final whole : MemoryStore,
      (session.catchUp engine "c").2.site = ⟨.memory d.ledger, .memory final, .unreachable⟩ ∧
      (fresh.catchUp engine "c").2.site = ⟨.memory d.ledger, .memory whole, .unreachable⟩ ∧
      final.checkpoint? "c" = some 1 ∧ final.eventsOn "c" = whole.eventsOn "c" := by
  intro transactions chain actions d engine session fresh
  have hservable : ChainFixture.Servable "c" transactions :=
    ⟨by decide, by decide, by decide, by decide +kernel⟩
  have hagent : ∀ a channels, .start a channels ∈ actions → a = Deployment.Sample.agent := by
    simp [actions, chain]
  have hrun : Deployment.OnPrefixes "c" chain (Deployment.mk {} {} .stopped) actions ∧
      d.ledger.unavailable = false ∧ d.ledger.blocks? "c" = some chain ∧
      d.store.checkpoint? "c" = some 0 ∧ d.store.events.length = 3 := by decide +kernel
  obtain ⟨hledger, havailable, hblocks, hcheckpoint, hlength⟩ := hrun
  have hstore : Reached Deployment.Sample.agent "c" chain d.store :=
    .run .empty hagent hledger
  have hsession : session.Calm d.ledger d.store.unlimited .unreachable := ⟨rfl, rfl, rfl⟩
  have hfresh : fresh.Calm d.ledger {} .unreachable := ⟨rfl, rfl, rfl⟩
  clear_value session fresh
  obtain ⟨final, whole, hfinal, hwhole, hresults, _, hlast, hevents, _⟩ :=
    catchUp_recovers (List.cons_ne_nil _ _) hservable hstore ⟨havailable, hblocks⟩
      List.mem_cons_self hsession hfresh
  rw [hcheckpoint] at hresults
  exact ⟨hlength, hresults.2, final, whole, hfinal, hwhole, hlast, hevents⟩

end LedgerIndex
