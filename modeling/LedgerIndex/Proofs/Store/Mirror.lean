import LedgerIndex.Proofs.Store.View
import LedgerIndex.Store.Table

/-! # Tables that mirror a store in memory

The tables of a peer mirror a store in memory (`Tables.Mirrors`) if they have a checkpoint row for
each checkpoint and one event row for each event, under its document id in the index of its kind.
As long as the indices of the three kinds are different, both answer a question alike and go on
mirroring each other (`Mirrors.answer`), provided that the numbers in it fit a column. -/

namespace LedgerIndex

open MemoryStore

/-! ### Rows -/

namespace Tables

variable {t : Tables} {peer channel : String} {row : CheckpointRow}

theorem checkpoint?_put_self (t : Tables) (row : CheckpointRow) :
    (t.putCheckpoint row).checkpoint? row.peer row.channel = some row := by
  have hothers : ∀ l : List CheckpointRow, (l.filter fun r =>
      !(r.peer == row.peer && r.channel == row.channel)).find?
        (fun r => r.peer == row.peer && r.channel == row.channel) = none := by
    intro l
    refine List.find?_eq_none.mpr fun r hr => ?_
    have hkey := (List.mem_filter.mp hr).2
    rw [Bool.not_eq_true'] at hkey
    rw [hkey]
    exact Bool.false_ne_true
  rw [checkpoint?, putCheckpoint, List.find?_append, hothers]
  simp

theorem checkpoint?_put_of_ne (h : channel ≠ row.channel) :
    (t.putCheckpoint row).checkpoint? peer channel = t.checkpoint? peer channel := by
  have hlast : [row].find? (fun r => r.peer == peer && r.channel == channel) = none := by
    refine List.find?_eq_none.mpr fun r hr => ?_
    rw [List.mem_singleton.mp hr]
    simp [Ne.symm h]
  have hothers : (t.checkpoints.filter fun r =>
      !(r.peer == row.peer && r.channel == row.channel)).find?
        (fun r => r.peer == peer && r.channel == channel)
      = t.checkpoints.find? fun r => r.peer == peer && r.channel == channel := by
    rw [List.find?_filter]
    congr 1
    funext r
    by_cases hchannel : r.channel = channel <;> by_cases hpeer : r.peer = peer <;>
      simp [hchannel, hpeer, h]
  rw [checkpoint?, putCheckpoint, List.find?_append, hothers, hlast, Option.or_none]
  rfl

end Tables

namespace TableStore

theorem toColumn_of_le {number : Nat} (h : number ≤ BlockHeader.greatestNumber) :
    toColumn number = .ok number := by
  have hlt : number < UInt64.size / 2 := Nat.lt_of_le_of_lt h (by decide)
  rw [toColumn, if_pos hlt]

theorem toColumn_of_lt {number : Nat} (h : BlockHeader.greatestNumber < number) :
    toColumn number = .error (.blockNumberOutOfRange number) := by
  have hlt : ¬ number < UInt64.size / 2 := by
    have : BlockHeader.greatestNumber + 1 = UInt64.size / 2 := by decide
    omega
  rw [toColumn, if_neg hlt]

/-- The row of an event with its own number. -/
def row (view : TableStore) (e : Event) : EventRow :=
  view.rowOf e e.blockNumber

end TableStore

/-- The numbers of a question fit a column, and an event comes from the peer. -/
def Store.Query.Fits (peer : String) : Store.Query → Prop
  | .checkpoint _ => True
  | .putCheckpoint _ number => number ≤ BlockHeader.greatestNumber
  | .blockHash _ number => number ≤ BlockHeader.greatestNumber
  | .putEvent e => e.origin.peer = peer ∧ e.blockNumber ≤ BlockHeader.greatestNumber

/-! ### Events and rows -/

/-- Only the event of the document is taken out, and the new one comes in. -/
theorem MemoryStore.upsert_perm {e : Event} {l : List Event} (hl : Event.Separate l) :
    (upsert e l).Perm (l.filter (fun x => ¬ x.SameDocument e) ++ [e]) := by
  induction l with
  | nil => exact .refl _
  | cons x l ih =>
      obtain ⟨hx, hl⟩ := List.pairwise_cons.mp hl
      by_cases hsame : x.SameDocument e
      · have hrest : l.filter (fun y => ¬ y.SameDocument e) = l := by
          refine List.filter_eq_self.mpr fun y hy => ?_
          simpa using fun h => hx y hy (hsame.trans h.symm)
        rw [upsert_cons_of_same hsame, List.filter_cons_of_neg (by simpa using hsame), hrest]
        exact (List.perm_append_singleton e l).symm
      · rw [upsert_cons_of_not_same hsame, List.filter_cons_of_pos (by simpa using hsame)]
        exact (ih hl).cons x

/-- The stored block hashes are those of the stored block events. -/
def MemoryStore.Hashed (s : MemoryStore) : Prop :=
  ∀ channel number hash, s.blockHash? channel number = some hash ↔
    ∃ b, .block b ∈ s.events ∧ b.origin.channel = channel ∧ b.blockNumber = number ∧
      b.blockHash = hash

theorem MemoryStore.mem_upsert_iff_of_not_same {e x : Event} {l : List Event}
    (hx : ¬ x.SameDocument e) : x ∈ upsert e l ↔ x ∈ l := by
  refine ⟨fun hmem => ?_, fun hmem => mem_upsert_of_not_same hmem hx⟩
  rcases mem_of_mem_upsert hmem with rfl | hmem
  · exact absurd ⟨rfl, rfl⟩ hx
  · exact hmem

theorem MemoryStore.Hashed.accept {peer : String} {s : MemoryStore} (h : s.Hashed)
    (htidy : s.Tidy peer) (hseparate : Event.Separate s.events) {e : Event}
    (hpeer : e.origin.peer = peer) : (s.accept e).Hashed := by
  have htidy' := htidy.accept hpeer
  intro channel number hash
  by_cases hself : ∃ f, e = .block f ∧ f.origin.channel = channel ∧ f.blockNumber = number
  · obtain ⟨f, rfl, rfl, rfl⟩ := hself
    rw [show (s.accept (.block f)).blockHash? f.origin.channel f.blockNumber = some f.blockHash
      from blockHash_accept_self s f]
    constructor
    · intro hhash
      exact ⟨f, mem_upsert_self .., rfl, rfl, Option.some.inj hhash⟩
    · rintro ⟨b, hb, hchannel, hnumber, rfl⟩
      have hsame : (Event.block b).SameDocument (.block f) := by
        refine ⟨rfl, Event.documentId_congr ((htidy'.peer _ hb).trans hpeer.symm) hchannel ?_⟩
        rw [Event.place, Event.place, hnumber]
      cases eq_of_mem_upsert_of_same hseparate hb hsame
      rfl
  · have hhash : (s.accept e).blockHash? channel number = s.blockHash? channel number := by
      cases e with
      | block f =>
          refine Entries.get?_put_of_ne (fun heq => hself ⟨f, rfl, ?_⟩) ..
          exact ⟨(Prod.mk.inj heq).1.symm, (Prod.mk.inj heq).2.symm⟩
      | transaction _ => rfl
      | write _ => rfl
    rw [hhash, h channel number hash]
    refine exists_congr fun b => and_congr_left fun hb => ?_
    obtain ⟨hchannel, hnumber, -⟩ := hb
    have hnot : b.origin.peer = peer → ¬ (Event.block b).SameDocument e := by
      intro hb hsame
      cases e with
      | block f =>
          obtain ⟨hon, hplace⟩ := Event.documentId_inj hsame.1 (hb.trans hpeer.symm) hsame.2
          have hat : b.blockNumber = f.blockNumber := Event.blockNumber_eq_of_place_eq hplace
          exact hself ⟨f, rfl, hon.symm.trans hchannel, hat.symm.trans hnumber⟩
      | transaction _ => cases hsame.1
      | write _ => cases hsame.1
    constructor
    · intro hmem
      exact (mem_upsert_iff_of_not_same (hnot (htidy.peer (.block b) hmem))).mpr hmem
    · intro hmem
      exact (mem_upsert_iff_of_not_same (hnot (htidy'.peer (.block b) hmem))).mp hmem

namespace TableStore

variable {view : TableStore} (hnames : Function.Injective view.indexNames.indexFor)

include hnames

theorem row_key_iff (x e : Event) :
    ((view.row x).index = (view.row e).index ∧ (view.row x).id = (view.row e).id)
      ↔ x.SameDocument e :=
  and_congr_left' ⟨fun h => hnames h, fun h => congrArg view.indexNames.indexFor h⟩

theorem filter_map_row (e : Event) (l : List Event) :
    (l.map view.row).filter
        (fun r => !(r.index == (view.row e).index && r.id == (view.row e).id))
      = (l.filter fun x => ¬ x.SameDocument e).map view.row := by
  rw [List.filter_map]
  congr 1
  refine List.filter_congr fun x _ => ?_
  have hkey : ((view.row x).index == (view.row e).index && (view.row x).id == (view.row e).id)
      = decide (x.SameDocument e) := by
    rw [Bool.eq_iff_iff, Bool.and_eq_true, beq_iff_eq, beq_iff_eq, decide_eq_true_iff]
    exact row_key_iff hnames x e
  rw [Function.comp_apply, hkey, decide_not]

theorem nodup_keys {l : List Event} (hl : Event.Separate l) :
    ((l.map view.row).map fun r => (r.index, r.id)).Nodup := by
  rw [List.map_map]
  refine List.pairwise_map.mpr (hl.imp fun {x e} hne heq => hne ?_)
  exact (row_key_iff hnames x e).mp (Prod.mk.inj heq)

end TableStore

/-! ### Checkpoints -/

namespace Tables

/-- The tables hold the checkpoints of a store in memory that refuses nothing. -/
structure SameCheckpoints (view : TableStore) (s : MemoryStore) (t : Tables) : Prop where
  unlimited : s.failingPuts = none
  recorded : ∀ channel number, s.checkpoint? channel = some number →
    number ≤ BlockHeader.greatestNumber
  checkpoints : ∀ channel, t.checkpoint? view.peer channel
    = (s.checkpoint? channel).map fun number => ⟨view.peer, channel, number⟩

namespace SameCheckpoints

variable {view : TableStore} {s : MemoryStore} {t : Tables} {channel : String} {number : Nat}

theorem answer_checkpoint (h : SameCheckpoints view s t) (channel : String) :
    view.answer t (.checkpoint channel) = (.ok (s.checkpoint? channel), t) := by
  rw [TableStore.answer, h.checkpoints]
  cases s.checkpoint? channel <;> rfl

theorem putCheckpoint (h : SameCheckpoints view s t)
    (hnumber : number ≤ BlockHeader.greatestNumber) :
    SameCheckpoints view (s.putCheckpoint channel number)
      (t.putCheckpoint ⟨view.peer, channel, number⟩) where
  unlimited := h.unlimited
  recorded other n hn := by
    by_cases hother : other = channel
    · subst hother
      rw [MemoryStore.checkpoint?, MemoryStore.putCheckpoint, Entries.get?_put_self] at hn
      exact Option.some.inj hn ▸ hnumber
    · rw [MemoryStore.checkpoint?, MemoryStore.putCheckpoint,
        Entries.get?_put_of_ne hother] at hn
      exact h.recorded other n hn
  checkpoints other := by
    by_cases hother : other = channel
    · subst hother
      rw [MemoryStore.checkpoint?, MemoryStore.putCheckpoint, Entries.get?_put_self]
      exact checkpoint?_put_self t ⟨view.peer, other, number⟩
    · rw [checkpoint?_put_of_ne hother, h.checkpoints, MemoryStore.checkpoint?,
        MemoryStore.checkpoint?, MemoryStore.putCheckpoint, Entries.get?_put_of_ne hother]

theorem putEvent (h : SameCheckpoints view s t) (e : Event) (row : EventRow) :
    SameCheckpoints view (s.accept e) (t.putEvent row) where
  unlimited := by rw [MemoryStore.accept, h.unlimited, Option.map_none]
  recorded := h.recorded
  checkpoints := h.checkpoints

end SameCheckpoints

end Tables

/-! ### The mirror -/

namespace Tables

/-- The tables hold what a store in memory holds, for the peer of their view. -/
structure Mirrors (view : TableStore) (s : MemoryStore) (t : Tables) : Prop where
  tidy : s.Tidy view.peer
  separate : Event.Separate s.events
  hashed : s.Hashed
  numbers : ∀ e ∈ s.events, e.blockNumber ≤ BlockHeader.greatestNumber
  recorded : ∀ channel number, s.checkpoint? channel = some number →
    number ≤ BlockHeader.greatestNumber
  checkpoints : ∀ channel, t.checkpoint? view.peer channel
    = (s.checkpoint? channel).map fun number => ⟨view.peer, channel, number⟩
  events : t.events.Perm (s.events.map view.row)

variable {view : TableStore} {s : MemoryStore} {t : Tables} {channel : String} {number : Nat}

theorem mirrors_empty (view : TableStore) : Mirrors view {} {} where
  tidy := ⟨fun _ he => absurd he List.not_mem_nil, rfl⟩
  separate := List.Pairwise.nil
  hashed _ _ _ := ⟨nofun, fun ⟨_, hb, _⟩ => absurd hb List.not_mem_nil⟩
  numbers _ he := absurd he List.not_mem_nil
  recorded _ _ := nofun
  checkpoints _ := rfl
  events := .nil

theorem Mirrors.sameCheckpoints (h : Mirrors view s t) : SameCheckpoints view s t :=
  ⟨h.tidy.unlimited, h.recorded, h.checkpoints⟩

theorem Mirrors.answer_checkpoint (h : Mirrors view s t) (channel : String) :
    view.answer t (.checkpoint channel) = (.ok (s.checkpoint? channel), t) :=
  h.sameCheckpoints.answer_checkpoint channel

theorem Mirrors.firstOfBlock (hnames : Function.Injective view.indexNames.indexFor)
    (h : Mirrors view s t) (channel : String) (number : Nat) :
    (t.firstOfBlock? (view.indexNames.indexFor .block) view.peer channel number).bind (·.blockHash)
      = s.blockHash? channel number := by
  have hfound : ∀ {r}, t.firstOfBlock? (view.indexNames.indexFor .block) view.peer channel number
      = some r → ∃ b, .block b ∈ s.events ∧ b.origin.channel = channel ∧ b.blockNumber = number ∧
        r.blockHash = some b.blockHash := by
    intro r hr
    have hmem := List.mem_of_find?_eq_some hr
    have hmatch := List.find?_some hr
    obtain ⟨e, he, rfl⟩ := List.mem_map.mp (h.events.mem_iff.mp hmem)
    simp only [Bool.and_eq_true, beq_iff_eq] at hmatch
    obtain ⟨⟨⟨hindex, -⟩, hchannel⟩, hnumber⟩ := hmatch
    have hkind : e.kind = .block := hnames hindex
    cases e with
    | block b => exact ⟨b, he, hchannel, Int.ofNat.inj hnumber, rfl⟩
    | transaction _ => cases hkind
    | write _ => cases hkind
  cases hstored : s.blockHash? channel number with
  | none =>
      cases hr : t.firstOfBlock? (view.indexNames.indexFor .block) view.peer channel number with
      | none => rfl
      | some r =>
          obtain ⟨b, hb, hchannel, hnumber, -⟩ := hfound hr
          have hsome := (h.hashed channel number b.blockHash).mpr ⟨b, hb, hchannel, hnumber, rfl⟩
          rw [hstored] at hsome
          cases hsome
  | some hash =>
      obtain ⟨b, hb, hchannel, hnumber, hhash⟩ := (h.hashed channel number hash).mp hstored
      have hrow : view.row (.block b) ∈ t.events :=
        h.events.mem_iff.mpr (List.mem_map_of_mem hb)
      cases hr : t.firstOfBlock? (view.indexNames.indexFor .block) view.peer channel number with
      | none =>
          have hno := List.find?_eq_none.mp hr _ hrow
          simp only [Bool.and_eq_true, beq_iff_eq] at hno
          exact absurd ⟨⟨⟨rfl, rfl⟩, hchannel⟩, congrArg Int.ofNat hnumber⟩ hno
      | some r =>
          obtain ⟨b', hb', hchannel', hnumber', hr'⟩ := hfound hr
          have hsame : (Event.block b').SameDocument (.block b) := by
            refine ⟨rfl, Event.documentId_congr ?_ (hchannel'.trans hchannel.symm) ?_⟩
            · exact (h.tidy.peer _ hb').trans (h.tidy.peer _ hb).symm
            · rw [Event.place, Event.place, hnumber', hnumber]
          cases h.separate.eq_of_same hb' hb hsame
          rw [Option.bind_some, hr', hhash]

theorem Mirrors.answer_blockHash (hnames : Function.Injective view.indexNames.indexFor)
    (h : Mirrors view s t) (channel : String) (hnumber : number ≤ BlockHeader.greatestNumber) :
    view.answer t (.blockHash channel number) = (.ok (s.blockHash? channel number), t) := by
  rw [TableStore.answer, TableStore.toColumn_of_le hnumber]
  exact congrArg (fun hash => (Except.ok hash, t)) (h.firstOfBlock hnames channel number)

theorem Mirrors.blockHash_of_lt (h : Mirrors view s t) (channel : String)
    (hnumber : BlockHeader.greatestNumber < number) :
    s.blockHash? channel number = none ∧
      view.answer t (.blockHash channel number) = (.error (.blockNumberOutOfRange number), t) := by
  constructor
  · cases hhash : s.blockHash? channel number with
    | none => rfl
    | some hash =>
        obtain ⟨b, hb, -, rfl, -⟩ := (h.hashed channel number hash).mp hhash
        exact absurd (h.numbers _ hb) (Nat.not_le.mpr hnumber)
  · rw [TableStore.answer, TableStore.toColumn_of_lt hnumber]

theorem Mirrors.putCheckpoint (h : Mirrors view s t)
    (hnumber : number ≤ BlockHeader.greatestNumber) :
    Mirrors view (s.putCheckpoint channel number)
      (t.putCheckpoint ⟨view.peer, channel, number⟩) where
  tidy := ⟨h.tidy.peer, h.tidy.unlimited⟩
  separate := h.separate
  hashed := h.hashed
  numbers := h.numbers
  recorded := (h.sameCheckpoints.putCheckpoint hnumber).recorded
  checkpoints := (h.sameCheckpoints.putCheckpoint hnumber).checkpoints
  events := h.events

theorem Mirrors.putEvent (hnames : Function.Injective view.indexNames.indexFor)
    (h : Mirrors view s t) {e : Event} (hpeer : e.origin.peer = view.peer)
    (hnumber : e.blockNumber ≤ BlockHeader.greatestNumber) :
    Mirrors view (s.accept e) (t.putEvent (view.row e)) where
  tidy := h.tidy.accept hpeer
  separate := separate_upsert h.separate
  hashed := h.hashed.accept h.tidy h.separate hpeer
  numbers := forall_mem_upsert h.numbers hnumber
  recorded := h.recorded
  checkpoints := h.checkpoints
  events := by
    refine .trans (.append_right [view.row e] (h.events.filter _)) ?_
    rw [TableStore.filter_map_row hnames]
    refine .trans ?_ ((upsert_perm h.separate).symm.map view.row)
    rw [List.map_append, List.map_singleton]

/-- **Tables and memory answer alike and go on mirroring each other.** -/
theorem Mirrors.answer (hnames : Function.Injective view.indexNames.indexFor)
    (h : Mirrors view s t) {q : Store.Query} (hq : q.Fits view.peer) :
    (view.answer t q).1 = (s.answer q).1 ∧ Mirrors view (s.answer q).2 (view.answer t q).2 := by
  cases q with
  | checkpoint channel =>
      rw [h.answer_checkpoint]
      exact ⟨rfl, h⟩
  | blockHash channel number =>
      rw [h.answer_blockHash hnames channel hq]
      exact ⟨rfl, h⟩
  | putCheckpoint channel number =>
      rw [TableStore.answer, TableStore.toColumn_of_le hq]
      exact ⟨rfl, h.putCheckpoint hq⟩
  | putEvent e =>
      rw [TableStore.answer, TableStore.toColumn_of_le hq.2, h.tidy.answer_putEvent]
      exact ⟨rfl, h.putEvent hnames hq.1 hq.2⟩

end Tables

end LedgerIndex
