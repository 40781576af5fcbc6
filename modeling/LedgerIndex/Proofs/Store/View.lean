import LedgerIndex.Proofs.Ingest.BlockDocuments
import LedgerIndex.Proofs.Ingest.ExactlyOnce
import LedgerIndex.Proofs.Ingest.Verdict

/-! # One channel of a store

A store in memory keeps all channels together: one list of checkpoints, one of events, one of block
hashes.  `MemoryStore.View` is what it holds of a single channel, and a view answers the questions
about its channel by itself: as long as all events come from one peer, so that document ids tell
channels apart, the view of a store follows the questions about its channel (`view_answer_self`) and
no others (`view_answer_of_ne`). -/

namespace LedgerIndex

/-- A question about a channel; an event has to come from the given peer. -/
def Store.Query.Concerns (peer channel : String) : Store.Query → Prop
  | .checkpoint c => c = channel
  | .putCheckpoint c _ => c = channel
  | .blockHash c _ => c = channel
  | .putEvent e => e.origin.peer = peer ∧ e.channel = channel

namespace MemoryStore

/-- What a store holds of one channel. -/
structure View where
  checkpoint : Option Nat
  written : List Nat
  blockHash : Nat → Option String
  events : List Event

namespace View

/-- The block hashes with the hash of a published block. -/
def recordHash (hashes : Nat → Option String) : Event → Nat → Option String
  | .block e, number => if number = e.blockNumber then some e.blockHash else hashes number
  | _, number => hashes number

/-- The answer to a question about the channel and the view after it. -/
def answer (view : View) : (q : Store.Query) → q.Answer × View
  | .checkpoint _ => (.ok view.checkpoint, view)
  | .putCheckpoint _ number =>
    (.ok (), { view with checkpoint := some number, written := view.written ++ [number] })
  | .blockHash _ number => (.ok (view.blockHash number), view)
  | .putEvent e =>
    (.ok (), { view with
      blockHash := recordHash view.blockHash e
      events := upsert e view.events })

end View

def view (store : MemoryStore) (channel : String) : View :=
  ⟨store.checkpoint? channel, store.written channel, store.blockHash? channel,
    store.eventsOn channel⟩

/-- All events of a store come from one peer, and it refuses none. -/
structure Tidy (peer : String) (store : MemoryStore) : Prop where
  peer : ∀ e ∈ store.events, e.origin.peer = peer
  unlimited : store.failingPuts = none

variable {peer channel other : String} {s : MemoryStore}

theorem Tidy.accept (h : s.Tidy peer) {e : Event} (he : e.origin.peer = peer) :
    (s.accept e).Tidy peer where
  peer := forall_mem_upsert h.peer he
  unlimited := by simp [MemoryStore.accept, h.unlimited]

theorem answer_putEvent (h : s.failingPuts = none) (e : Event) :
    s.answer (.putEvent e) = (.ok (), s.accept e) := by
  simp [MemoryStore.answer, putEvent, h]

theorem Tidy.answer_putEvent (h : s.Tidy peer) (e : Event) :
    s.answer (.putEvent e) = (.ok (), s.accept e) :=
  MemoryStore.answer_putEvent h.unlimited e

theorem Tidy.channel_of_same (h : s.Tidy peer) {e x : Event} (he : e.origin.peer = peer)
    (hx : x ∈ s.events) (hsame : x.SameDocument e) : x.channel = e.channel :=
  (Event.documentId_inj hsame.1 ((h.peer x hx).trans he.symm) hsame.2).1

theorem Tidy.answer (h : s.Tidy peer) {q : Store.Query} (hq : q.Concerns peer channel) :
    (s.answer q).2.Tidy peer := by
  cases q with
  | checkpoint c => exact h
  | blockHash c number => exact h
  | putCheckpoint c number => exact ⟨h.peer, h.unlimited⟩
  | putEvent e =>
      rw [h.answer_putEvent]
      exact h.accept hq.1

/-! ### Questions about the channel -/

theorem blockHash?_accept_self {e : Event} (he : e.channel = channel) :
    (s.accept e).blockHash? channel = View.recordHash (s.blockHash? channel) e := by
  funext number
  cases e with
  | block b =>
      obtain rfl : b.origin.channel = channel := he
      by_cases hnumber : number = b.blockNumber
      · rw [View.recordHash, if_pos hnumber, hnumber]
        exact blockHash_accept_self s b
      · rw [View.recordHash, if_neg hnumber]
        exact blockHash_accept_of_ne hnumber
  | transaction _ => rfl
  | write _ => rfl

theorem view_accept_self (h : s.Tidy peer) {e : Event} (he : e.origin.peer = peer)
    (hchannel : e.channel = channel) :
    (s.accept e).view channel = ((s.view channel).answer (.putEvent e)).2 := by
  have hevents : (s.accept e).eventsOn channel = upsert e (s.eventsOn channel) := by
    refine filter_upsert (by simpa using hchannel) fun x hx hsame => ?_
    rw [h.channel_of_same he hx hsame]
    simpa using hchannel
  rw [view, hevents, blockHash?_accept_self hchannel]
  rfl

theorem view_putCheckpoint_self (s : MemoryStore) (channel : String) (number : Nat) :
    (s.putCheckpoint channel number).view channel
      = ((s.view channel).answer (.putCheckpoint channel number)).2 := by
  have hcheckpoint : (s.putCheckpoint channel number).checkpoint? channel = some number :=
    Entries.get?_put_self ..
  rw [view, written_putCheckpoint_self, hcheckpoint]
  rfl

/-- **The view of a channel answers the questions about it.** -/
theorem view_answer_self (h : s.Tidy peer) {q : Store.Query} (hq : q.Concerns peer channel) :
    (s.answer q).1 = ((s.view channel).answer q).1 ∧
      (s.answer q).2.view channel = ((s.view channel).answer q).2 := by
  cases q with
  | checkpoint c =>
      obtain rfl : c = channel := hq
      exact ⟨rfl, rfl⟩
  | blockHash c number =>
      obtain rfl : c = channel := hq
      exact ⟨rfl, rfl⟩
  | putCheckpoint c number =>
      obtain rfl : c = channel := hq
      exact ⟨rfl, view_putCheckpoint_self s c number⟩
  | putEvent e =>
      rw [h.answer_putEvent]
      exact ⟨rfl, view_accept_self h hq.1 hq.2⟩

/-! ### Questions about other channels -/

theorem view_accept_of_ne (h : s.Tidy peer) {e : Event} (he : e.origin.peer = peer)
    (hchannel : e.channel ≠ channel) : (s.accept e).view channel = s.view channel := by
  have hevents : (s.accept e).eventsOn channel = s.eventsOn channel := by
    refine filter_upsert_of_not (by simpa using hchannel) fun x hx hsame => ?_
    rw [h.channel_of_same he hx hsame]
    simpa using hchannel
  have hhashes : (s.accept e).blockHash? channel = s.blockHash? channel :=
    funext (undisturbed_accept (.inr hchannel)).blockHash
  rw [view, hevents, hhashes]
  rfl

/-- **The view of a channel does not change with questions about other channels.** -/
theorem view_answer_of_ne (h : s.Tidy peer) {q : Store.Query} (hq : q.Concerns peer other)
    (hother : channel ≠ other) : (s.answer q).2.view channel = s.view channel := by
  cases q with
  | checkpoint c => rfl
  | blockHash c number => rfl
  | putCheckpoint c number =>
      obtain rfl : c = other := hq
      rw [MemoryStore.answer, view, written_putCheckpoint_of_ne s hother,
        (undisturbed_putCheckpoint hother number).checkpoint]
      rfl
  | putEvent e =>
      rw [h.answer_putEvent]
      exact view_accept_of_ne h hq.1 fun heq => hother (heq.symm.trans hq.2)

end MemoryStore

end LedgerIndex
