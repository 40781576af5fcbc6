import Mathlib.Data.List.Induction
import LedgerIndex.Proofs.Ingest.ExactlyOnce

/-! # Documents and places

Two events have one place when they are of one kind and about the same block, transaction or write
of one channel (`Event.SamePlace`).  For the events of one peer that is the same as being the same
document (`Event.documentId_eq_iff`), so of a sequence of events that are put into a store in memory
the last one of each place is there in the end, and nothing else is
(`MemoryStore.mem_upsertAll_iff`).

Which documents a serialized block has depends on the peer, the channel and the bytes only
(`targetsOfBytes?`), whatever else the agent is set to. -/

namespace LedgerIndex

namespace Event

/-- Two events of one kind about the same block, transaction or write of one channel. -/
def SamePlace : Event → Event → Prop
  | .block e, .block f => e.origin.channel = f.origin.channel ∧ e.blockNumber = f.blockNumber
  | .transaction e, .transaction f =>
    e.origin.channel = f.origin.channel ∧ e.blockNumber = f.blockNumber ∧ e.txIndex = f.txIndex
  | .write e, .write f =>
    e.origin.channel = f.origin.channel ∧ e.blockNumber = f.blockNumber ∧ e.txIndex = f.txIndex ∧
      e.writeIndex = f.writeIndex
  | _, _ => False

variable {e f : Event}

theorem samePlace_iff :
    e.SamePlace f ↔ e.kind = f.kind ∧ e.channel = f.channel ∧ e.place = f.place := by
  cases e <;> cases f <;> simp [SamePlace, kind, channel, origin, place]

/-- **For events of one kind and peer, one document id means one place.** -/
theorem documentId_eq_iff (hkind : e.kind = f.kind) (hpeer : e.origin.peer = f.origin.peer) :
    e.documentId = f.documentId ↔ e.SamePlace f := by
  rw [samePlace_iff]
  constructor
  · intro h
    exact ⟨hkind, documentId_inj hkind hpeer h⟩
  · rintro ⟨-, hchannel, hplace⟩
    exact documentId_congr hpeer hchannel hplace

theorem sameDocument_iff (hpeer : e.origin.peer = f.origin.peer) :
    e.SameDocument f ↔ e.SamePlace f := by
  constructor
  · intro h
    exact (documentId_eq_iff h.1 hpeer).mp h.2
  · intro h
    have hkind : e.kind = f.kind := (samePlace_iff.mp h).1
    exact ⟨hkind, (documentId_eq_iff hkind hpeer).mpr h⟩

/-- The document of an event: its index and its id there. -/
def target (e : Event) : EventKind × String :=
  (e.kind, e.documentId)

theorem Separate.nodup_targets {l : List Event} (h : Separate l) : (l.map target).Nodup := by
  refine List.pairwise_map.mpr (h.imp ?_)
  intro e f hne heq
  exact hne (Prod.mk.inj heq)

end Event

/-! ### The events of a store -/

namespace MemoryStore

variable {e x : Event} {l : List Event}

theorem mem_upsert_iff (hl : Event.Separate l) :
    x ∈ upsert e l ↔ x = e ∨ (x ∈ l ∧ ¬ x.SameDocument e) := by
  constructor
  · intro h
    by_cases hsame : x.SameDocument e
    · exact .inl (eq_of_mem_upsert_of_same hl h hsame)
    · exact (mem_of_mem_upsert h).imp_right fun hx => ⟨hx, hsame⟩
  · rintro (rfl | ⟨hx, hsame⟩)
    · exact mem_upsert_self x l
    · exact mem_upsert_of_not_same hx hsame

/-- Puts events one after the other. -/
def upsertAll (l events : List Event) : List Event :=
  events.foldl (fun l e => upsert e l) l

theorem upsertAll_append (l events events' : List Event) :
    upsertAll l (events ++ events') = upsertAll (upsertAll l events) events' :=
  List.foldl_append ..

theorem separate_upsertAll (hl : Event.Separate l) (events : List Event) :
    Event.Separate (upsertAll l events) := by
  induction events generalizing l with
  | nil => exact hl
  | cons e events ih => exact ih (separate_upsert hl)

/-- The last event of each place among some events. -/
def LastOfPlace (events : List Event) (e : Event) : Prop :=
  ∃ before after, events = before ++ e :: after ∧ ∀ f ∈ after, ¬ f.SamePlace e

theorem lastOfPlace_concat {events : List Event} :
    LastOfPlace (events ++ [e]) x ↔ x = e ∨ (LastOfPlace events x ∧ ¬ e.SamePlace x) := by
  constructor
  · rintro ⟨before, after, hevents, hafter⟩
    obtain ⟨-, -, heq⟩ | ⟨front, rfl, hfront⟩ := Ingest.split_concat hevents
    · exact .inl heq
    · refine .inr ⟨⟨before, front, hfront, fun f hf => hafter f (List.mem_append_left _ hf)⟩, ?_⟩
      exact hafter e (List.mem_append_right _ List.mem_cons_self)
  · rintro (rfl | ⟨⟨before, after, rfl, hafter⟩, hx⟩)
    · exact ⟨events, [], rfl, nofun⟩
    · refine ⟨before, after ++ [e], by simp, ?_⟩
      intro f hf
      rcases List.mem_append.mp hf with hf | hf
      · exact hafter f hf
      · rw [List.mem_singleton.mp hf]
        exact hx

/-- **A store holds the last event of each place.** -/
theorem mem_upsertAll_iff {peer : String} {events : List Event}
    (hpeer : ∀ e ∈ events, e.origin.peer = peer) :
    x ∈ upsertAll [] events ↔ LastOfPlace events x := by
  induction events using List.reverseRecOn generalizing x with
  | nil => simp [upsertAll, LastOfPlace]
  | append_singleton events e ih =>
      have hevents : ∀ e ∈ events, e.origin.peer = peer := fun f hf =>
        hpeer f (List.mem_append_left _ hf)
      have he : e.origin.peer = peer := hpeer e (List.mem_append_right _ List.mem_cons_self)
      have hseparate : Event.Separate (upsertAll [] events) :=
        separate_upsertAll List.Pairwise.nil events
      have hput : upsertAll [] (events ++ [e]) = upsert e (upsertAll [] events) :=
        upsertAll_append ..
      rw [hput, mem_upsert_iff hseparate, lastOfPlace_concat, ih hevents]
      refine or_congr_right (and_congr_right ?_)
      rintro ⟨before, after, hsplit, -⟩
      have hx : x.origin.peer = peer := hevents x (hsplit ▸ by simp)
      rw [Event.sameDocument_iff (hx.trans he.symm), Event.samePlace_iff, Event.samePlace_iff]
      simp only [eq_comm]

end MemoryStore

/-! ### The documents of a block -/

namespace Agent

theorem targets_eventsOf {agent agent' : Agent} (h : agent.peer = agent'.peer) (channel : String)
    (block : Block) (blockHash blockHash' : String) (txs : List Transaction) :
    (agent.eventsOf channel block blockHash txs).map Event.target
      = (agent'.eventsOf channel block blockHash' txs).map Event.target := by
  obtain ⟨peer, organization, links⟩ := agent
  obtain ⟨peer', organization', links'⟩ := agent'
  obtain rfl : peer = peer' := h
  have hwrites : ∀ tx txIndex,
      ((Agent.mk peer organization links).writeEventsOf channel block tx txIndex).map Event.target
        = ((Agent.mk peer organization' links').writeEventsOf channel block tx txIndex).map
            Event.target := by
    intro tx txIndex
    unfold writeEventsOf
    split
    · rw [List.map_map, List.map_map]
      rfl
    · rfl
  simp only [eventsOf, List.map_append, List.map_flatMap, eventsOfTransaction, hwrites]
  rfl

end Agent

/-- The documents that a peer has for the block that some bytes are, if all of it can be read. -/
def targetsOfBytes? (peer channel : String) (number : Nat) (bytes : Bytes) :
    Option (List (EventKind × String)) :=
  (Agent.eventsOfBytes? ⟨peer, "", []⟩ channel number bytes).map (·.map Event.target)

variable {peer channel : String} {number : Nat} {bytes : Bytes}

/-- Which documents a block has does not depend on the settings of the agent. -/
theorem targetsOfBytes?_eq {agent : Agent} (hpeer : agent.peer = peer) :
    targetsOfBytes? peer channel number bytes
      = (agent.eventsOfBytes? channel number bytes).map (·.map Event.target) := by
  unfold targetsOfBytes? Agent.eventsOfBytes?
  cases Ingestor.decodeNumbered number bytes with
  | error e => rfl
  | ok block =>
      cases hhash : block.header.hash with
      | error e => simp [hhash]
      | ok hash =>
          cases htxs : block.entries.mapM Transaction.decode with
          | error e => simp [hhash, htxs]
          | ok txs =>
              simp only [hhash, htxs, Option.map_some]
              exact congrArg some (Agent.targets_eventsOf hpeer.symm channel block _ _ txs)

theorem nodup_targetsOfBytes? {targets : List (EventKind × String)}
    (h : targetsOfBytes? peer channel number bytes = some targets) : targets.Nodup := by
  obtain ⟨events, hevents, rfl⟩ := Option.map_eq_some_iff.mp h
  obtain ⟨block, hash, txs, -, rfl⟩ := Agent.eq_eventsOf_of_eventsOfBytes? hevents
  exact Agent.separate_eventsOf.nodup_targets

end LedgerIndex
