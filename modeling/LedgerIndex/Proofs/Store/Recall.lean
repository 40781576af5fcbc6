import LedgerIndex.Proofs.Store.Mirror

/-! # Tables that recall blocks

A lookup of a block hash takes the first row of the block index with the right peer, channel and
number.  As long as no other kind of event is put into this index (`IndexNames.OwnBlocks`), that is
the row of the block's event, and the tables of a peer go on recalling the hashes and checkpoints of
a store in memory that is asked the same questions (`Tables.Recalls.answer`), whether or not
transactions and writes share an index and take each other's place in it.

An event of another kind in this index has a row without a hash, and what counts is the order of
publication: where that row comes first no hash is found (`Tables.hashAt?_eq_none`). -/

namespace LedgerIndex

/-- No other kind of event is put into the index of blocks. -/
def IndexNames.OwnBlocks (names : IndexNames) : Prop :=
  ∀ kind, names.indexFor kind = names.indexFor .block → kind = .block

/-- The event of the block with a number on a channel. -/
def Event.Documents (e : Event) (channel : String) (number : Nat) : Prop :=
  e.kind = .block ∧ e.channel = channel ∧ e.blockNumber = number

instance (e : Event) (channel : String) (number : Nat) : Decidable (e.Documents channel number) :=
  inferInstanceAs (Decidable (_ ∧ _))

theorem Event.Documents.place_eq {e : Event} {channel : String} {number : Nat}
    (h : e.Documents channel number) : e.place = [number] := by
  obtain ⟨hkind, -, hnumber⟩ := h
  cases e with
  | block b => exact congrArg (fun n => [n]) hnumber
  | transaction _ => cases hkind
  | write _ => cases hkind

theorem Event.Documents.same {e x : Event} {channel : String} {number : Nat}
    (hx : x.Documents channel number) (he : e.Documents channel number)
    (hpeer : x.origin.peer = e.origin.peer) : x.SameDocument e :=
  ⟨hx.1.trans he.1.symm, Event.documentId_congr hpeer (hx.2.1.trans he.2.1.symm)
    (hx.place_eq.trans he.place_eq.symm)⟩

theorem Event.Documents.of_same {e x : Event} {channel : String} {number : Nat}
    (he : e.Documents channel number) (h : x.SameDocument e)
    (hpeer : x.origin.peer = e.origin.peer) : x.Documents channel number := by
  obtain ⟨hchannel, hplace⟩ := Event.documentId_inj h.1 hpeer h.2
  exact ⟨h.1.trans he.1, hchannel.trans he.2.1,
    (Event.blockNumber_eq_of_place_eq hplace).trans he.2.2⟩

theorem MemoryStore.blockHash?_accept (s : MemoryStore) (e : Event) (channel : String)
    (number : Nat) : (s.accept e).blockHash? channel number
      = if e.Documents channel number then TableStore.hashOf? e
        else s.blockHash? channel number := by
  cases e with
  | transaction _ => exact (if_neg fun h => nomatch h.1).symm
  | write _ => exact (if_neg fun h => nomatch h.1).symm
  | block b =>
      by_cases h : (Event.block b).Documents channel number
      · obtain ⟨-, rfl, rfl⟩ := h
        rw [if_pos ⟨rfl, rfl, rfl⟩]
        exact blockHash_accept_self s b
      · rw [if_neg h]
        refine Entries.get?_put_of_ne (fun heq => h ⟨rfl, ?_⟩) ..
        exact ⟨(Prod.mk.inj heq).1.symm, (Prod.mk.inj heq).2.symm⟩

namespace Tables

/-! ### Rows of a block -/

/-- What a lookup of a block hash looks for. -/
def atBlock (view : TableStore) (channel : String) (number : Nat) (r : EventRow) : Bool :=
  r.index == view.indexNames.indexFor .block && r.peer == view.peer && r.channel == channel &&
    r.blockNumber == number

/-- All event rows are those of events of the peer. -/
def OfEvents (view : TableStore) (t : Tables) : Prop :=
  ∀ r ∈ t.events, ∃ e : Event, e.origin.peer = view.peer ∧ r = view.row e

variable {view : TableStore} {s : MemoryStore} {t : Tables} {e : Event} {channel : String}
  {number : Nat}

def hashAt? (view : TableStore) (t : Tables) (channel : String) (number : Nat) : Option String :=
  (t.events.filter (atBlock view channel number)).head?.bind (·.blockHash)

theorem answer_blockHash (t : Tables) (channel : String)
    (hnumber : number ≤ BlockHeader.greatestNumber) :
    view.answer t (.blockHash channel number) = (.ok (hashAt? view t channel number), t) := by
  rw [TableStore.answer, TableStore.toColumn_of_le hnumber, hashAt?, List.head?_filter]
  rfl

theorem OfEvents.putEvent (h : t.OfEvents view) (he : e.origin.peer = view.peer) :
    (t.putEvent (view.row e)).OfEvents view := by
  intro r hr
  rcases List.mem_append.mp hr with hr | hr
  · exact h r (List.mem_filter.mp hr).1
  · exact ⟨e, he, List.mem_singleton.mp hr⟩

section

variable (hown : view.indexNames.OwnBlocks)

include hown

theorem atBlock_row (e : Event) (channel : String) (number : Nat) :
    atBlock view channel number (view.row e) = true ↔ e.Documents channel number := by
  simp only [atBlock, Bool.and_eq_true, beq_iff_eq]
  constructor
  · rintro ⟨⟨⟨hindex, -⟩, hchannel⟩, hnumber⟩
    exact ⟨hown e.kind hindex, hchannel, Int.ofNat.inj hnumber⟩
  · rintro ⟨hkind, rfl, rfl⟩
    exact ⟨⟨⟨congrArg view.indexNames.indexFor hkind, rfl⟩, rfl⟩, rfl⟩

/-- The row of a block's event takes the place of the rows of the block. -/
theorem filter_putEvent (hrows : t.OfEvents view) (he : e.origin.peer = view.peer)
    (channel : String) (number : Nat) :
    (t.putEvent (view.row e)).events.filter (atBlock view channel number)
      = if e.Documents channel number then [view.row e]
        else t.events.filter (atBlock view channel number) := by
  rw [putEvent, List.filter_append, List.filter_filter]
  by_cases hself : e.Documents channel number
  · have hnone : t.events.filter (fun r => atBlock view channel number r
        && !(r.index == (view.row e).index && r.id == (view.row e).id)) = [] := by
      refine List.filter_eq_nil_iff.mpr fun r hr => ?_
      obtain ⟨x, hx, rfl⟩ := hrows r hr
      rw [Bool.and_eq_true, atBlock_row hown]
      rintro ⟨hdocuments, hkey⟩
      obtain ⟨hkind, hid⟩ := hdocuments.same hself (hx.trans he.symm)
      simp [TableStore.row, TableStore.rowOf, hkind, hid] at hkey
    have hlast : [view.row e].filter (atBlock view channel number) = [view.row e] :=
      List.filter_cons_of_pos ((atBlock_row hown e channel number).mpr hself)
    rw [if_pos hself, hnone, hlast, List.nil_append]
  · have hlast : [view.row e].filter (atBlock view channel number) = [] :=
      List.filter_cons_of_neg (mt (atBlock_row hown e channel number).mp hself)
    rw [if_neg hself, hlast, List.append_nil]
    refine List.filter_congr fun r hr => ?_
    obtain ⟨x, hx, rfl⟩ := hrows r hr
    rw [Bool.and_eq_left_iff_imp, atBlock_row hown, Bool.not_eq_true']
    intro hdocuments
    by_contra hkey
    rw [Bool.not_eq_false, Bool.and_eq_true, beq_iff_eq, beq_iff_eq] at hkey
    obtain ⟨hindex, hid⟩ := hkey
    have hkind : e.kind = .block := by
      refine hown e.kind (hindex.symm.trans ?_)
      exact congrArg view.indexNames.indexFor hdocuments.1
    have hsame : e.SameDocument x := ⟨hkind.trans hdocuments.1.symm, hid.symm⟩
    exact hself (hdocuments.of_same hsame (he.trans hx.symm))

end

/-! ### What is recalled -/

/-- The tables hold the checkpoints and the block hashes of a store in memory. -/
structure Recalls (view : TableStore) (s : MemoryStore) (t : Tables) : Prop
    extends SameCheckpoints view s t where
  rows : t.OfEvents view
  hashes : ∀ channel number, hashAt? view t channel number = s.blockHash? channel number

theorem recalls_empty (view : TableStore) : Recalls view {} {} where
  unlimited := rfl
  recorded _ _ := nofun
  checkpoints _ := rfl
  rows _ hr := absurd hr List.not_mem_nil
  hashes _ _ := rfl

theorem Recalls.putEvent (hown : view.indexNames.OwnBlocks) (h : Recalls view s t)
    (he : e.origin.peer = view.peer) : Recalls view (s.accept e) (t.putEvent (view.row e)) where
  toSameCheckpoints := h.toSameCheckpoints.putEvent e (view.row e)
  rows := h.rows.putEvent he
  hashes channel number := by
    rw [hashAt?, filter_putEvent hown h.rows he, MemoryStore.blockHash?_accept]
    by_cases hself : e.Documents channel number
    · rw [if_pos hself, if_pos hself]
      rfl
    · rw [if_neg hself, if_neg hself]
      exact h.hashes channel number

/-- **Tables answer like the store in memory that they recall, and go on recalling it.** -/
theorem Recalls.answer (hown : view.indexNames.OwnBlocks) (h : Recalls view s t)
    {q : Store.Query} (hq : q.Fits view.peer) :
    (view.answer t q).1 = (s.answer q).1 ∧ Recalls view (s.answer q).2 (view.answer t q).2 := by
  cases q with
  | checkpoint channel =>
      rw [h.answer_checkpoint]
      exact ⟨rfl, h⟩
  | blockHash channel number =>
      rw [answer_blockHash t channel hq, h.hashes]
      exact ⟨rfl, h⟩
  | putCheckpoint channel number =>
      rw [TableStore.answer, TableStore.toColumn_of_le hq]
      exact ⟨rfl, h.toSameCheckpoints.putCheckpoint hq, h.rows, h.hashes⟩
  | putEvent e =>
      rw [TableStore.answer, TableStore.toColumn_of_le hq.2,
        MemoryStore.answer_putEvent h.unlimited]
      exact ⟨rfl, h.putEvent hown hq.1⟩

/-- A hash that is found is that of a block's event, and the event has its row. -/
theorem Recalls.exists_row (hown : view.indexNames.OwnBlocks) (h : Recalls view s t)
    {hash : String} (hhash : hashAt? view t channel number = some hash) :
    ∃ b, view.row (.block b) ∈ t.events ∧ b.origin.peer = view.peer ∧
      b.origin.channel = channel ∧ b.blockNumber = number ∧ b.blockHash = hash := by
  obtain ⟨r, hfirst, hr⟩ := Option.bind_eq_some_iff.mp hhash
  obtain ⟨hmem, hat⟩ := List.mem_filter.mp (List.mem_of_head? hfirst)
  obtain ⟨e, he, rfl⟩ := h.rows r hmem
  obtain ⟨hkind, hchannel, hnumber⟩ := (atBlock_row hown e channel number).mp hat
  cases e with
  | block b => exact ⟨b, hmem, he, hchannel, hnumber, Option.some.inj hr⟩
  | transaction _ => cases hkind
  | write _ => cases hkind

end Tables

/-! ### Event by event -/

/-- Tables take a question as a store in memory does, whatever the names of the indices: it is not
about a block hash, and an event is not stored yet. -/
def Store.Query.IsPlain (s : MemoryStore) : Store.Query → Prop
  | .checkpoint _ => True
  | .blockHash _ _ => False
  | .putCheckpoint _ number => number ≤ BlockHeader.greatestNumber
  | .putEvent e => e.blockNumber ≤ BlockHeader.greatestNumber ∧
    ∀ x ∈ s.events, x.documentId ≠ e.documentId

instance (s : MemoryStore) : ∀ q : Store.Query, Decidable (q.IsPlain s)
  | .checkpoint _ => .isTrue trivial
  | .blockHash _ _ => .isFalse id
  | .putCheckpoint _ number => inferInstanceAs (Decidable (number ≤ _))
  | .putEvent _ => inferInstanceAs (Decidable (_ ∧ _))

theorem TableStore.hashOf?_eq_none {e : Event} (h : e.kind ≠ .block) :
    TableStore.hashOf? e = none := by
  cases e with
  | block b => exact absurd rfl h
  | transaction _ => rfl
  | write _ => rfl

namespace Tables

/-- The tables hold the checkpoints of a store in memory, and its events row by row. -/
structure Lists (view : TableStore) (s : MemoryStore) (t : Tables) : Prop
    extends SameCheckpoints view s t where
  events : t.events = s.events.map view.row

variable {view : TableStore} {s : MemoryStore} {t : Tables}

theorem Lists.answer (h : Lists view s t) {q : Store.Query} (hq : q.IsPlain s) :
    (view.answer t q).1 = (s.answer q).1 ∧ Lists view (s.answer q).2 (view.answer t q).2 := by
  cases q with
  | checkpoint channel =>
      rw [h.answer_checkpoint]
      exact ⟨rfl, h⟩
  | blockHash channel number => exact absurd hq id
  | putCheckpoint channel number =>
      rw [TableStore.answer, TableStore.toColumn_of_le hq]
      exact ⟨rfl, h.toSameCheckpoints.putCheckpoint hq, h.events⟩
  | putEvent e =>
      obtain ⟨hnumber, hfresh⟩ := hq
      rw [TableStore.answer, TableStore.toColumn_of_le hnumber,
        MemoryStore.answer_putEvent h.unlimited]
      refine ⟨rfl, h.toSameCheckpoints.putEvent e (view.row e), ?_⟩
      have hkept : t.events.filter (fun r =>
          !(r.index == (view.row e).index && r.id == (view.row e).id)) = t.events := by
        refine List.filter_eq_self.mpr fun r hr => ?_
        rw [h.events] at hr
        obtain ⟨x, hx, rfl⟩ := List.mem_map.mp hr
        have hid : ((view.row x).id == (view.row e).id) = false :=
          beq_false_of_ne (hfresh x hx)
        rw [hid, Bool.and_false, Bool.not_false]
      have hlast : MemoryStore.upsert e s.events = s.events ++ [e] :=
        MemoryStore.upsert_of_forall_not_same fun x hx hsame => hfresh x hx hsame.2
      have hevents : (s.accept e).events = s.events ++ [e] := hlast
      rw [hevents, List.map_append, ← h.events]
      exact congrArg (· ++ [view.row e]) hkept

/-- Where an event of another kind that shares the index comes first, no hash is found. -/
theorem hashAt?_eq_none (before : List Event) {rest : List Event} {e : Event}
    {channel : String} {number : Nat} (hevents : t.events = (before ++ e :: rest).map view.row)
    (hbefore : ∀ x ∈ before ++ [e], x.kind ≠ .block)
    (hshared : view.indexNames.indexFor e.kind = view.indexNames.indexFor .block)
    (hchannel : e.channel = channel) (hnumber : e.blockNumber = number) :
    hashAt? view t channel number = none := by
  have he : atBlock view channel number (view.row e) = true := by
    simp [atBlock, TableStore.row, TableStore.rowOf, hshared, hchannel, hnumber]
  have hsplit : t.events.filter (atBlock view channel number)
      = ((before.filter (atBlock view channel number ∘ view.row)) ++ e ::
        rest.filter (atBlock view channel number ∘ view.row)).map view.row := by
    have hlast : (e :: rest).filter (atBlock view channel number ∘ view.row)
        = e :: rest.filter (atBlock view channel number ∘ view.row) := List.filter_cons_of_pos he
    rw [hevents, List.filter_map, List.filter_append, hlast]
  rw [hashAt?, hsplit]
  cases hfirst : before.filter (atBlock view channel number ∘ view.row) with
  | nil => exact TableStore.hashOf?_eq_none (hbefore e (by simp))
  | cons x xs =>
      have hx : x ∈ before := (List.mem_filter.mp (hfirst ▸ List.mem_cons_self)).1
      exact TableStore.hashOf?_eq_none (hbefore x (List.mem_append_left _ hx))

end Tables

end LedgerIndex
