import LedgerIndex.Proofs.Ingest.Checkpoints
import LedgerIndex.Proofs.Ledger.Growing
import LedgerIndex.Proofs.Store.Upsert

/-! # Events are published exactly once

While a channel of the ledger only grows and one agent publishes it, the stored events of the
channel are a log: the events of the blocks up to the checkpoint, block after block, and behind them
a first part of the events of the next block (`MemoryStore.Log`).  A block that is published again
after a failure finds this first part in place and goes on from there.  So every event of the blocks
up to the checkpoint is stored exactly once, wherever the work was cut short
(`Deployment.exactly_once`). -/

namespace LedgerIndex

open Ingest MemoryStore

/-! ### The events of serialized blocks -/

namespace Agent

/-- The events of the block that some bytes are, if all of it can be read. -/
def eventsOfBytes? (agent : Agent) (channel : String) (number : Nat) (bytes : Bytes) :
    Option (List Event) :=
  match Ingestor.decodeNumbered number bytes with
  | .error _ => none
  | .ok block =>
    match block.header.hash, block.entries.mapM Transaction.decode with
    | .ok hash, .ok txs => some (agent.eventsOf channel block hash.toHex txs)
    | _, _ => none

/-- The events of the block that a ledger has under a number. -/
def eventsAt? (agent : Agent) (ledger : MemoryLedger) (channel : String) (number : Nat) :
    Option (List Event) :=
  (ledger.block? channel number).bind (agent.eventsOfBytes? channel number)

variable {agent : Agent} {channel : String} {number : Nat} {bytes : Bytes} {events : List Event}

theorem eq_eventsOf_of_eventsOfBytes?
    (h : agent.eventsOfBytes? channel number bytes = some events) :
    ∃ block hash txs, Ingestor.decodeNumbered number bytes = .ok block ∧
      events = agent.eventsOf channel block hash txs := by
  unfold eventsOfBytes? at h
  split at h
  · cases h
  · rename_i block hblock
    split at h
    · rename_i hash txs _ _
      exact ⟨block, hash.toHex, txs, hblock, (Option.some.inj h).symm⟩
    · cases h

theorem eventsOfBytes?_of_ready {cursor : Cursor} {block : Block} {prepared : Ingestor.Prepared}
    (hblock : Ingestor.decodeNumbered number bytes = .ok block)
    (hready : Ingestor.Ready agent channel cursor block prepared) :
    agent.eventsOfBytes? channel number bytes = some prepared.events := by
  simp only [eventsOfBytes?, hblock, hready.hash, hready.transactions, hready.events]

end Agent

/-! ### The log of a channel -/

/-- The agent's events of the block under each number, where that can be read. -/
structure Source (agent : Agent) (channel : String) where
  events? : Nat → Option (List Event)
  origin : ∀ {number events e}, events? number = some events → e ∈ events →
    e.origin = agent.origin channel ∧ e.blockNumber = number
  separate : ∀ {number events}, events? number = some events → Event.Separate events

/-- The blocks of a ledger as a source. -/
def Agent.source (agent : Agent) (channel : String) (block? : Nat → Option Bytes) :
    Source agent channel where
  events? number := (block? number).bind (agent.eventsOfBytes? channel number)
  origin h he := by
    obtain ⟨bytes, _, h⟩ := Option.bind_eq_some_iff.mp h
    obtain ⟨block, hash, txs, hblock, rfl⟩ := eq_eventsOf_of_eventsOfBytes? h
    exact ⟨origin_of_mem_eventsOf he,
      (blockNumber_of_mem_eventsOf he).trans (Ingestor.decodeNumbered_eq_ok hblock).2⟩
  separate h := by
    obtain ⟨bytes, _, h⟩ := Option.bind_eq_some_iff.mp h
    obtain ⟨block, hash, txs, _, rfl⟩ := eq_eventsOf_of_eventsOfBytes? h
    exact separate_eventsOf

namespace MemoryStore

variable {agent : Agent} {channel : String} {source : Source agent channel} {s : MemoryStore}
  {begun : List Event} {e : Event}

/-- The stored events of a channel. -/
def eventsOn (store : MemoryStore) (channel : String) : List Event :=
  store.events.filter fun e => e.channel = channel

/-- The events of a channel are those of all blocks up to the checkpoint and then some that have
been begun. -/
structure Log (source : Source agent channel) (s : MemoryStore) (begun : List Event) : Prop where
  peer : ∀ e ∈ s.events, e.origin.peer = agent.peer
  separate : Event.Separate s.events
  eventsOn : ∃ published : List (List Event),
    published.map some = (List.range (s.nextBlock channel)).map source.events? ∧
    s.eventsOn channel = published.flatten ++ begun
  begun : begun <+: (source.events? (s.nextBlock channel)).getD []

theorem mem_of_published {published : List (List Event)} {count : Nat}
    (h : published.map some = (List.range count).map source.events?) (he : e ∈ published.flatten) :
    ∃ number < count, ∃ events, source.events? number = some events ∧ e ∈ events := by
  obtain ⟨events, hevents, he⟩ := List.mem_flatten.mp he
  have hmem : some events ∈ (List.range count).map source.events? :=
    h ▸ List.mem_map_of_mem hevents
  obtain ⟨number, hnumber, hsource⟩ := List.mem_map.mp hmem
  exact ⟨number, List.mem_range.mp hnumber, events, hsource, he⟩

/-- Events of one document are on one channel, where all come from one peer. -/
theorem Log.channel_of_same (h : Log source s begun) {x : Event} (hx : x ∈ s.events)
    (he : e.origin.peer = agent.peer) (hsame : x.SameDocument e) :
    x.channel = e.channel ∧ x.blockNumber = e.blockNumber := by
  obtain ⟨hchannel, hplace⟩ := Event.documentId_inj hsame.1 ((h.peer x hx).trans he.symm) hsame.2
  exact ⟨hchannel, Event.blockNumber_eq_of_place_eq hplace⟩

theorem Log.accept_other (h : Log source s begun) (he : e.origin.peer = agent.peer)
    (hchannel : e.channel ≠ channel) : Log source (s.accept e) begun where
  peer := forall_mem_upsert h.peer he
  separate := separate_upsert h.separate
  eventsOn := by
    obtain ⟨published, hpublished, hon⟩ := h.eventsOn
    refine ⟨published, hpublished, ?_⟩
    rw [← hon]
    refine filter_upsert_of_not (by simpa using hchannel) fun x hx hsame => ?_
    rw [(h.channel_of_same hx he hsame).1]
    simpa using hchannel
  begun := h.begun

theorem Log.accept_begun (h : Log source s begun) (he : e ∈ begun) :
    Log source (s.accept e) begun := by
  obtain ⟨published, hpublished, hon⟩ := h.eventsOn
  have hmem : e ∈ s.events := by
    have hmem : e ∈ s.eventsOn channel := hon ▸ List.mem_append_right _ he
    exact (List.mem_filter.mp hmem).1
  have hevents : (s.accept e).events = s.events := upsert_of_mem h.separate hmem
  refine ⟨hevents ▸ h.peer, hevents ▸ h.separate, ⟨published, hpublished, ?_⟩, h.begun⟩
  rw [← hon, MemoryStore.eventsOn, hevents]
  rfl

theorem Log.accept_next (h : Log source s begun) {events rest : List Event}
    (hevents : source.events? (s.nextBlock channel) = some events)
    (hrest : events = begun ++ e :: rest) : Log source (s.accept e) (begun ++ [e]) := by
  have he : e ∈ events := hrest ▸ List.mem_append_right _ List.mem_cons_self
  obtain ⟨horigin, hnumber⟩ := source.origin hevents he
  have hpeer : e.origin.peer = agent.peer := by rw [horigin]; rfl
  have hchannel : e.channel = channel := by rw [Event.channel, horigin]; rfl
  obtain ⟨published, hpublished, hon⟩ := h.eventsOn
  have hnew : ∀ x ∈ s.eventsOn channel, ¬ x.SameDocument e := by
    intro x hx hsame
    obtain ⟨_, hxnumber⟩ := h.channel_of_same (List.mem_filter.mp hx).1 hpeer hsame
    rw [hon] at hx
    rcases List.mem_append.mp hx with hx | hx
    · obtain ⟨number, hlt, _, hsource, hx⟩ := mem_of_published hpublished hx
      have := (source.origin hsource hx).2
      omega
    · have hsep := source.separate hevents
      rw [hrest] at hsep
      exact (List.pairwise_append.mp hsep).2.2 x hx e List.mem_cons_self hsame
  refine ⟨forall_mem_upsert h.peer hpeer, separate_upsert h.separate,
    ⟨published, hpublished, ?_⟩, ?_⟩
  · have hfilter : (s.accept e).eventsOn channel = upsert e (s.eventsOn channel) := by
      refine filter_upsert (by simpa using hchannel) fun x hx hsame => ?_
      rw [(h.channel_of_same hx hpeer hsame).1]
      simpa using hchannel
    rw [hfilter, upsert_of_forall_not_same hnew, hon, List.append_assoc]
  · rw [nextBlock_accept, hevents, hrest]
    exact ⟨rest, by simp⟩

theorem Log.advance (h : Log source s begun)
    (hevents : source.events? (s.nextBlock channel) = some begun) :
    Log source (s.putCheckpoint channel (s.nextBlock channel)) [] where
  peer := h.peer
  separate := h.separate
  eventsOn := by
    obtain ⟨published, hpublished, hon⟩ := h.eventsOn
    refine ⟨published ++ [begun], ?_, ?_⟩
    · rw [nextBlock_putCheckpoint_self, List.range_succ, List.map_append, List.map_append,
        hpublished, List.map_singleton, List.map_singleton, hevents]
    · rw [List.flatten_concat, List.append_nil]
      exact hon
  begun := List.nil_prefix

theorem Log.putCheckpoint_other (h : Log source s begun) {other : String}
    (hother : channel ≠ other) (number : Nat) :
    Log source (s.putCheckpoint other number) begun := by
  obtain ⟨hpeer, hseparate, hon, hbegun⟩ := h
  have hnext := nextBlock_putCheckpoint_of_ne s hother number
  exact ⟨hpeer, hseparate, hnext ▸ hon, hnext ▸ hbegun⟩

theorem checkpoint?_eq_getLast? (s : MemoryStore) (channel : String) :
    s.checkpoint? channel = (List.range (s.nextBlock channel)).getLast? := by
  rw [List.getLast?_range]
  by_cases hzero : s.nextBlock channel = 0
  · rw [if_pos hzero]
    unfold nextBlock at hzero
    unfold checkpoint?
    split at hzero
    · assumption
    · simp at hzero
  · rw [if_neg hzero, checkpoint?_eq_of_nextBlock_pos (by omega)]

end MemoryStore

/-! ### Deployments -/

namespace Discipline

/-- One agent keeps the log of a channel whose blocks the ledger serves from `block?`. -/
def logging (agent : Agent) (channel : String) (block? : Nat → Option Bytes) :
    Discipline channel (· = agent) (Ledger.serving channel block?) where
  sound s := ∃ begun, Log (agent.source channel block?) s begun
  placed cursor s := (∃ begun, Log (agent.source channel block?) s begun) ∧ s.Behind channel cursor
  publishing cursor prepared rest s :=
    s.Behind channel (some cursor) ∧
    (agent.source channel block?).events? cursor.next = some prepared.events ∧
    ∃ sent begun, prepared.events = sent ++ rest ∧ sent <+: begun ∧
      Log (agent.source channel block?) s begun
  sound_of_placed h := h.1
  sound_of_published := by
    rintro _ _ s ⟨_, _, _, begun, _, _, hlog⟩
    exact ⟨begun, hlog⟩
  forget h := ⟨h.1, behind_none⟩
  genesis h hnone := ⟨h.1, behind_genesis hnone⟩
  resume h hsome _ _ _ _ := ⟨h.1, behind_resume hsome _⟩
  begin := by
    rintro _ cursor block prepared s rfl ⟨⟨begun, hlog⟩, hbehind⟩ ⟨bytes, hserved, hblock⟩ hready
    refine ⟨hbehind, ?_, [], begun, rfl, List.nil_prefix, hlog⟩
    have hbytes : block? cursor.next = some bytes := hserved rfl
    simp only [Agent.source, hbytes, Option.bind_some]
    exact Agent.eventsOfBytes?_of_ready hblock hready
  accept := by
    rintro cursor prepared e rest s ⟨hbehind, hsource, sent, begun, hsplit, ⟨tail, rfl⟩, hlog⟩
    refine ⟨hbehind, hsource, sent ++ [e], ?_⟩
    rw [behind_some.mp hbehind] at hsource
    cases tail with
    | nil =>
        rw [List.append_nil] at hlog
        exact ⟨sent ++ [e], by simp [hsplit], List.prefix_refl _, hlog.accept_next hsource hsplit⟩
    | cons x tail =>
        obtain ⟨further, hprefix⟩ := hlog.begun
        rw [hsource, Option.getD_some, hsplit, List.append_assoc] at hprefix
        obtain ⟨rfl, _⟩ := List.cons.inj (List.append_cancel_left hprefix)
        exact ⟨sent ++ x :: tail, by simp [hsplit], ⟨tail, by simp⟩,
          hlog.accept_begun (List.mem_append_right _ List.mem_cons_self)⟩
  abandon := by
    rintro cursor _ _ _ s ⟨hbehind, _, _, begun, _, _, hlog⟩
    exact ⟨⟨begun, hlog⟩, hbehind⟩
  advance := by
    rintro cursor prepared s ⟨hbehind, hsource, sent, begun, hsplit, hsent, hlog⟩
    rw [behind_some.mp hbehind] at hsource ⊢
    rw [List.append_nil] at hsplit
    have hbegun : begun <+: sent := by
      have h := hlog.begun
      rwa [hsource, Option.getD_some, hsplit] at h
    obtain rfl : sent = begun :=
      hsent.eq_of_length (Nat.le_antisymm hsent.length_le hbegun.length_le)
    exact ⟨⟨[], hlog.advance (hsplit ▸ hsource)⟩, behind_putCheckpoint _ _ _ _⟩

theorem isolated_logging (agent : Agent) (channel : String) (block? : Nat → Option Bytes) :
    (logging agent channel block?).Isolated where
  accept := by
    rintro _ other cursor e s rfl hother horigin ⟨⟨begun, hlog⟩, hbehind⟩
    refine ⟨⟨begun, hlog.accept_other (by rw [horigin]; rfl) ?_⟩, hbehind⟩
    rw [Event.channel, horigin]
    exact hother.symm
  putCheckpoint := by
    rintro other number cursor s hother ⟨⟨begun, hlog⟩, hbehind⟩
    exact ⟨⟨begun, hlog.putCheckpoint_other hother number⟩, hbehind.putCheckpoint_of_ne hother _⟩

end Discipline

namespace Deployment

/-- **Every event is published exactly once.**  One agent on a channel that only grows: whatever
fails and whenever an engine is killed, the stored events of the channel are all events of the
blocks up to the checkpoint, in order, then a first part of the events of the next block, and no two
of them are the same document. -/
theorem exactly_once (ledger : MemoryLedger) (agent : Agent) (channel : String)
    (actions : List Action) (hagent : ∀ a channels, .start a channels ∈ actions → a = agent)
    (hgrows : ∀ number block, .replace channel number block ∉ actions) :
    let d := (Deployment.initial ledger none).run actions
    ∃ (published : List (List Event)) (begun : List Event),
      published.map some
        = (List.range published.length).map (agent.eventsAt? d.ledger channel) ∧
      d.store.checkpoint? channel = (List.range published.length).getLast? ∧
      d.store.eventsOn channel = published.flatten ++ begun ∧
      begun <+: (agent.eventsAt? d.ledger channel published.length).getD [] ∧
      Event.Separate (d.store.eventsOn channel) := by
  intro d
  let D := Discipline.logging agent channel (d.ledger.block? channel)
  have hempty : Log (agent.source channel (d.ledger.block? channel)) (.ofSeed none) [] :=
    ⟨by simp, List.Pairwise.nil, ⟨[], rfl, rfl⟩, List.nil_prefix⟩
  have hbegin : D.Holds (.initial ledger none) :=
    D.holds_initial ⟨⟨[], hempty⟩, behind_none⟩ ledger
  have hend : D.Holds d := hbegin.run (Discipline.isolated_logging ..) (ledgerWithin_last hgrows)
    hagent (.inl fun _ h => ⟨h, behind_none⟩)
  obtain ⟨begun, hlog⟩ := hend.sound
  obtain ⟨published, hpublished, hon⟩ := hlog.eventsOn
  have hlength : published.length = d.store.unlimited.nextBlock channel := by
    simpa using congrArg List.length hpublished
  refine ⟨published, begun, ?_, ?_, hon, ?_, List.Pairwise.filter _ hlog.separate⟩
  · rw [hlength]
    exact hpublished
  · rw [hlength]
    exact checkpoint?_eq_getLast? d.store channel
  · rw [hlength]
    exact hlog.begun

/-- An engine is killed between the two events of block 1. -/
theorem exactly_once_killed :
    let actions := Sample.actions 2 10 ++ [.kill]
    let d := (Deployment.initial {} none).run actions
    ((∀ a channels, .start a channels ∈ actions → a = Sample.agent) ∧
      (∀ number block, .replace "c" number block ∉ actions) ∧
      d.store.checkpoint? "c" = some 0 ∧ (d.store.eventsOn "c").length = 3) ∧
    ∃ (published : List (List Event)) (begun : List Event),
      published.map some
        = (List.range published.length).map (Sample.agent.eventsAt? d.ledger "c") ∧
      d.store.checkpoint? "c" = (List.range published.length).getLast? ∧
      d.store.eventsOn "c" = published.flatten ++ begun ∧
      begun <+: (Sample.agent.eventsAt? d.ledger "c" published.length).getD [] ∧
      Event.Separate (d.store.eventsOn "c") := by
  intro actions d
  have hagent : ∀ a channels, .start a channels ∈ actions → a = Sample.agent := by
    intro a channels hmem
    exact Sample.eq_agent_of_start_mem (by simpa [actions] using hmem)
  have hgrows : ∀ number block, .replace "c" number block ∉ actions := by
    simp [actions, Sample.actions]
  exact ⟨⟨hagent, hgrows, by decide +kernel, by decide +kernel⟩,
    exactly_once {} Sample.agent "c" actions hagent hgrows⟩

end Deployment

end LedgerIndex
