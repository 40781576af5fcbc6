import LedgerIndex.Proofs.Event.DocumentId
import LedgerIndex.Store.Table

/-! # Peers that share tables

Several agents with different peers keep their rows in the same two tables.  Reading goes by the
peer of a row, but an event row is replaced by its index and document id alone.  So the answers to
one peer's questions are those of a database of its own (`Tables.serve_ofPeer`) as long as its
documents have other ids than the documents of the other peers (`Tables.Apart`).  A document id
joins the peer and the channel with an underscore: two peers are apart unless one of them is the
beginning of the other one, up to an underscore (`Tables.apart_iff`), and then they are not isolated
(`Tables.isolated_iff`). -/

namespace LedgerIndex

/-! ### Requests -/

namespace Store

/-- A question that an agent of a peer asks its store. -/
structure Request where
  peer : String
  query : Query

/-- The events of an agent come from its peer. -/
def Request.Proper (request : Request) : Prop :=
  ∀ e, request.query = .putEvent e → e.origin.peer = request.peer

structure Reply extends Request where
  answer : query.Answer

end Store

namespace Tables

open Store (Request Reply)

/-- The answers to some requests, by the stores of their peers on one database. -/
def serve (names : IndexNames) (tables : Tables) : List Request → List Reply
  | [] => []
  | request :: requests =>
    let (answer, tables) := TableStore.answer ⟨request.peer, names⟩ tables request.query
    ⟨request, answer⟩ :: serve names tables requests

/-- However the requests of the two peers are interleaved, the answers to the first one are those
that it gets when the second one asks nothing. -/
def Isolated (names : IndexNames) (p q : String) : Prop :=
  ∀ requests : List Request, (∀ r ∈ requests, (r.peer = p ∨ r.peer = q) ∧ r.Proper) →
    (serve names {} requests).filter (·.peer = p)
      = serve names {} (requests.filter (·.peer = p))

def ofPeer (tables : Tables) (peer : String) : Tables where
  checkpoints := tables.checkpoints.filter (·.peer == peer)
  events := tables.events.filter (·.peer == peer)

/-- Every event row has the key of an event of its peer. -/
def Authored (names : IndexNames) (tables : Tables) : Prop :=
  ∀ row ∈ tables.events, ∃ e : Event,
    e.origin.peer = row.peer ∧ row.index = names.indexFor e.kind ∧ row.id = e.documentId

/-- No event of the one peer has the document id of an event of the other one, within a kind. -/
def Apart (p q : String) : Prop :=
  ∀ e f : Event, e.origin.peer = p → f.origin.peer = q → e.kind = f.kind →
    e.documentId ≠ f.documentId

variable {names : IndexNames} {tables : Tables} {p q : String}

/-! ### Requests of the peer -/

theorem checkpoint?_ofPeer (tables : Tables) (p channel : String) :
    (tables.ofPeer p).checkpoint? p channel = tables.checkpoint? p channel := by
  unfold checkpoint? ofPeer
  rw [List.find?_filter]
  congr 1
  funext row
  rw [Bool.eq_iff_iff]
  simp +contextual

theorem firstOfBlock?_ofPeer (tables : Tables) (index p channel : String) (number : Int) :
    (tables.ofPeer p).firstOfBlock? index p channel number
      = tables.firstOfBlock? index p channel number := by
  unfold firstOfBlock? ofPeer
  rw [List.find?_filter]
  congr 1
  funext row
  rw [Bool.eq_iff_iff]
  simp +contextual [and_comm]

theorem putCheckpoint_ofPeer {row : CheckpointRow} (h : row.peer = p) :
    (tables.ofPeer p).putCheckpoint row = (tables.putCheckpoint row).ofPeer p := by
  unfold putCheckpoint ofPeer
  simp only [List.filter_append, List.filter_filter, h, beq_self_eq_true, List.filter_cons_of_pos,
    List.filter_nil, Bool.and_comm]

theorem putEvent_ofPeer {row : EventRow} (h : row.peer = p) :
    (tables.ofPeer p).putEvent row = (tables.putEvent row).ofPeer p := by
  unfold putEvent ofPeer
  simp only [List.filter_append, List.filter_filter, h, beq_self_eq_true, List.filter_cons_of_pos,
    List.filter_nil, Bool.and_comm]

/-- **A store needs only the rows of its peer.** -/
theorem answer_ofPeer (view : TableStore) (tables : Tables) (query : Store.Query) :
    view.answer (tables.ofPeer view.peer) query
      = ((view.answer tables query).1, (view.answer tables query).2.ofPeer view.peer) := by
  cases query with
  | checkpoint channel =>
      simp only [TableStore.answer, checkpoint?_ofPeer]
      split <;> rfl
  | putCheckpoint channel number =>
      simp only [TableStore.answer]
      split
      · exact congrArg (Prod.mk _) (putCheckpoint_ofPeer rfl)
      · rfl
  | blockHash channel number =>
      simp only [TableStore.answer, firstOfBlock?_ofPeer]
      split <;> rfl
  | putEvent e =>
      simp only [TableStore.answer]
      split
      · exact congrArg (Prod.mk _) (putEvent_ofPeer rfl)
      · rfl

/-! ### Requests of other peers -/

/-- Writing a row of another owner in the place of rows of other owners leaves an owner's rows. -/
theorem filter_replace {α : Type} {own key : α → Bool} {row : α} {rows : List α}
    (hrow : own row = false) (h : ∀ r ∈ rows, own r = true → key r = false) :
    ((rows.filter fun r => !key r) ++ [row]).filter own = rows.filter own := by
  rw [List.filter_append, List.filter_cons_of_neg (by simp [hrow]), List.filter_nil,
    List.append_nil, List.filter_filter]
  refine List.filter_congr fun r hr => ?_
  cases hown : own r with
  | false => rfl
  | true => rw [h r hr hown, Bool.not_false, Bool.and_true]

theorem ofPeer_putCheckpoint_of_ne {row : CheckpointRow} (h : row.peer ≠ p) :
    (tables.putCheckpoint row).ofPeer p = tables.ofPeer p := by
  refine congrArg (Tables.mk · _) (filter_replace (by simpa using h) fun r _ hr => ?_)
  have hpeer : ¬ r.peer = row.peer := fun heq => h (heq.symm.trans (eq_of_beq hr))
  simp [hpeer]

theorem ofPeer_putEvent_of_apart (hauthored : tables.Authored names) (hapart : Apart p q)
    (hne : p ≠ q) (hnames : Function.Injective names.indexFor) {e : Event} {number : Int}
    (he : e.origin.peer = q) :
    (tables.putEvent (TableStore.rowOf ⟨q, names⟩ e number)).ofPeer p = tables.ofPeer p := by
  refine congrArg (Tables.mk _ ·) (filter_replace (beq_false_of_ne (Ne.symm hne)) ?_)
  intro r hr hown
  obtain ⟨f, hf, hindex, hid⟩ := hauthored r hr
  rw [Bool.and_eq_false_imp]
  intro hindex'
  have hkind : f.kind = e.kind := hnames (hindex.symm.trans (eq_of_beq hindex'))
  have hne : f.documentId ≠ e.documentId := hapart f e (hf.trans (eq_of_beq hown)) he hkind
  rw [hid]
  exact beq_false_of_ne hne

/-- **The requests of a peer apart from it leave a peer's rows alone.** -/
theorem ofPeer_answer_of_apart (hauthored : tables.Authored names)
    (hnames : Function.Injective names.indexFor) {request : Request} (hproper : request.Proper)
    (hne : p ≠ request.peer) (hapart : Apart p request.peer) :
    (TableStore.answer ⟨request.peer, names⟩ tables request.query).2.ofPeer p
      = tables.ofPeer p := by
  obtain ⟨peer, query⟩ := request
  cases query with
  | checkpoint channel =>
      simp only [TableStore.answer]
      split <;> rfl
  | putCheckpoint channel number =>
      simp only [TableStore.answer]
      split
      · exact ofPeer_putCheckpoint_of_ne (Ne.symm hne)
      · rfl
  | blockHash channel number =>
      simp only [TableStore.answer]
      split <;> rfl
  | putEvent e =>
      simp only [TableStore.answer]
      split
      · exact ofPeer_putEvent_of_apart hauthored hapart hne hnames (hproper e rfl)
      · rfl

theorem Authored.answer (h : tables.Authored names) {request : Request}
    (hproper : request.Proper) :
    (TableStore.answer ⟨request.peer, names⟩ tables request.query).2.Authored names := by
  obtain ⟨peer, query⟩ := request
  cases query with
  | checkpoint channel =>
      simp only [TableStore.answer]
      split <;> exact h
  | putCheckpoint channel number =>
      simp only [TableStore.answer]
      split <;> exact h
  | blockHash channel number =>
      simp only [TableStore.answer]
      split <;> exact h
  | putEvent e =>
      simp only [TableStore.answer]
      split
      · intro row hrow
        rcases List.mem_append.mp hrow with hrow | hrow
        · exact h row (List.mem_filter.mp hrow).1
        · obtain rfl := List.mem_singleton.mp hrow
          exact ⟨e, hproper e rfl, rfl, rfl⟩
      · exact h

/-- **A peer is served as if the peers apart from it asked nothing.** -/
theorem serve_ofPeer (hnames : Function.Injective names.indexFor) {requests : List Request}
    (hauthored : tables.Authored names) (hproper : ∀ r ∈ requests, r.Proper)
    (hapart : ∀ r ∈ requests, r.peer ≠ p → Apart p r.peer) :
    (serve names tables requests).filter (·.peer = p)
      = serve names (tables.ofPeer p) (requests.filter (·.peer = p)) := by
  induction requests generalizing tables with
  | nil => rfl
  | cons request requests ih =>
      obtain ⟨hfirst, hproper⟩ := List.forall_mem_cons.mp hproper
      obtain ⟨hfirst', hapart⟩ := List.forall_mem_cons.mp hapart
      have hrest := ih (hauthored.answer hfirst) hproper hapart
      simp only [serve]
      by_cases hpeer : request.peer = p
      · subst hpeer
        rw [List.filter_cons_of_pos (by simp), List.filter_cons_of_pos (by simp), hrest, serve,
          answer_ofPeer ⟨request.peer, names⟩]
      · rw [List.filter_cons_of_neg (by simpa using hpeer),
          List.filter_cons_of_neg (by simpa using hpeer), hrest,
          ofPeer_answer_of_apart hauthored hnames hfirst (Ne.symm hpeer) (hfirst' hpeer)]

/-! ### Which peers are apart -/

def emptyBlock (peer channel : String) : Event :=
  .block {
    origin := ⟨channel, peer, ""⟩
    blockNumber := 0
    blockHash := "hash"
    previousHash := ""
    dataHash := ""
    createdAt := none
    kind := .config
    transactions := [] }

theorem documentId_emptyBlock_eq {channel channel' : String}
    (h : p ++ "_" ++ channel = q ++ "_" ++ channel') :
    (emptyBlock p channel).documentId = (emptyBlock q channel').documentId := by
  apply String.toList_injective
  rw [Event.toList_documentId, Event.toList_documentId]
  have hlist := congrArg (fun text => text.toList ++ Event.placeSuffix [0]) h
  simpa [emptyBlock, Event.origin, Event.channel, Event.place] using hlist

/-- Two peers are apart if their names do not run together with the names of channels. -/
theorem apart_iff_forall_ne :
    Apart p q ↔ ∀ channel channel' : String, p ++ "_" ++ channel ≠ q ++ "_" ++ channel' := by
  constructor
  · intro h channel channel' heq
    exact h (emptyBlock p channel) (emptyBlock q channel') rfl rfl rfl
      (documentId_emptyBlock_eq heq)
  · rintro h e f rfl rfl hkind hid
    have hlist := congrArg String.toList hid
    rw [Event.toList_documentId, Event.toList_documentId] at hlist
    obtain ⟨hhead, -⟩ := Event.placeSuffix_inj (Event.length_place_of_kind_eq hkind) hlist
    refine h e.channel f.channel (String.toList_injective ?_)
    simpa using hhead

/-- Of two texts that a separator ends at different places, the shorter one and the separator begin
the other one. -/
theorem eq_or_prefix_of_append_cons {α : Type} {a : α} {x y u v : List α}
    (h : x ++ a :: u = y ++ a :: v) :
    x = y ∨ (∃ rest, y = x ++ a :: rest) ∨ ∃ rest, x = y ++ a :: rest := by
  rcases List.append_eq_append_iff.mp h with ⟨w, rfl, hw⟩ | ⟨w, rfl, hw⟩
  · cases w with
    | nil => exact .inl (List.append_nil x).symm
    | cons b w =>
        obtain ⟨rfl, -⟩ := List.cons.inj hw
        exact .inr (.inl ⟨w, rfl⟩)
  · cases w with
    | nil => exact .inl (List.append_nil y)
    | cons b w =>
        obtain ⟨rfl, -⟩ := List.cons.inj hw
        exact .inr (.inr ⟨w, rfl⟩)

theorem exists_append_eq_iff :
    (∃ channel channel' : String, p ++ "_" ++ channel = q ++ "_" ++ channel') ↔
      p = q ∨ (∃ rest, q = p ++ "_" ++ rest) ∨ ∃ rest, p = q ++ "_" ++ rest := by
  constructor
  · rintro ⟨channel, channel', heq⟩
    have hlist : p.toList ++ '_' :: channel.toList = q.toList ++ '_' :: channel'.toList := by
      simpa using congrArg String.toList heq
    refine (eq_or_prefix_of_append_cons hlist).imp (fun h => String.toList_injective h) ?_
    refine Or.imp ?_ ?_
    · rintro ⟨rest, hrest⟩
      exact ⟨String.ofList rest, String.toList_injective (by simpa using hrest)⟩
    · rintro ⟨rest, hrest⟩
      exact ⟨String.ofList rest, String.toList_injective (by simpa using hrest)⟩
  · rintro (rfl | ⟨rest, rfl⟩ | ⟨rest, rfl⟩)
    · exact ⟨"", "", rfl⟩
    · exact ⟨rest ++ "_", "", by simp [String.append_assoc]⟩
    · exact ⟨"", rest ++ "_", by simp [String.append_assoc]⟩

theorem apart_iff :
    Apart p q ↔ p ≠ q ∧ (¬ ∃ rest, q = p ++ "_" ++ rest) ∧ ¬ ∃ rest, p = q ++ "_" ++ rest := by
  have hjoin := not_congr (exists_append_eq_iff (p := p) (q := q))
  rw [not_exists, not_or, not_or] at hjoin
  rw [apart_iff_forall_ne, ← hjoin]
  exact forall_congr' fun channel => not_exists.symm

/-! ### Which peers are isolated -/

theorem putEvent_singleton {row row' : EventRow} (hindex : row.index = row'.index)
    (hid : row.id = row'.id) :
    ({ events := [row] } : Tables).putEvent row' = { events := [row'] } := by
  simp [putEvent, hindex, hid]

theorem answer_blockHash_emptyBlock (names : IndexNames) (p q channel channel' : String) :
    (TableStore.answer ⟨p, names⟩
        { events := [TableStore.rowOf ⟨q, names⟩ (emptyBlock q channel') 0] }
        (.blockHash channel 0)).1
      = .ok (if q = p ∧ channel' = channel then some "hash" else none) := by
  have hfind : firstOfBlock?
      { events := [TableStore.rowOf ⟨q, names⟩ (emptyBlock q channel') 0] }
      (names.indexFor .block) p channel 0
      = if q = p ∧ channel' = channel
        then some (TableStore.rowOf ⟨q, names⟩ (emptyBlock q channel') 0) else none := by
    by_cases hsame : q = p ∧ channel' = channel
    · obtain ⟨rfl, rfl⟩ := hsame
      simp [firstOfBlock?, TableStore.rowOf, emptyBlock, Event.kind, Event.channel, Event.origin]
    · rw [if_neg hsame]
      refine List.find?_eq_none.mpr fun row hrow => ?_
      rw [List.mem_singleton.mp hrow]
      simp only [Bool.and_eq_true, beq_iff_eq]
      rintro ⟨⟨⟨-, hpeer⟩, hchannel⟩, -⟩
      exact hsame ⟨hpeer, hchannel⟩
  show Except.ok ((firstOfBlock? _ (names.indexFor .block) p channel 0).bind (·.blockHash)) = _
  rw [hfind]
  split <;> rfl

theorem not_isolated {channel channel' : String} (hne : p ≠ q)
    (h : p ++ "_" ++ channel = q ++ "_" ++ channel') : ¬ Isolated names p q := by
  intro hisolated
  have hid : (emptyBlock p channel).documentId = (emptyBlock q channel').documentId :=
    documentId_emptyBlock_eq h
  have hreplies := hisolated [⟨p, .putEvent (emptyBlock p channel)⟩,
    ⟨q, .putEvent (emptyBlock q channel')⟩, ⟨p, .blockHash channel 0⟩] (by
      simp [Store.Request.Proper, emptyBlock, Event.origin])
  have hown : serve names {} [⟨p, .putEvent (emptyBlock p channel)⟩, ⟨p, .blockHash channel 0⟩]
      = [⟨⟨p, .putEvent (emptyBlock p channel)⟩, .ok ()⟩,
        ⟨⟨p, .blockHash channel 0⟩, .ok (some "hash")⟩] := by
    have hanswer := answer_blockHash_emptyBlock names p p channel channel
    rw [if_pos ⟨rfl, rfl⟩] at hanswer
    rw [← hanswer]
    rfl
  have hshared : serve names {} [⟨p, .putEvent (emptyBlock p channel)⟩,
      ⟨q, .putEvent (emptyBlock q channel')⟩, ⟨p, .blockHash channel 0⟩]
      = [⟨⟨p, .putEvent (emptyBlock p channel)⟩, .ok ()⟩,
        ⟨⟨q, .putEvent (emptyBlock q channel')⟩, .ok ()⟩,
        ⟨⟨p, .blockHash channel 0⟩, .ok none⟩] := by
    have hanswer := answer_blockHash_emptyBlock names p q channel channel'
    have htables : (({} : Tables).putEvent (TableStore.rowOf ⟨p, names⟩ (emptyBlock p channel) 0)
        ).putEvent (TableStore.rowOf ⟨q, names⟩ (emptyBlock q channel') 0)
        = { events := [TableStore.rowOf ⟨q, names⟩ (emptyBlock q channel') 0] } :=
      putEvent_singleton rfl hid
    rw [if_neg (fun hsame => hne hsame.1.symm), ← htables] at hanswer
    rw [← hanswer]
    rfl
  rw [hshared] at hreplies
  simp [hown, Ne.symm hne] at hreplies

/-- **Peers that share tables are isolated unless one name and an underscore begin the other
one.** -/
theorem isolated_iff (p q : String) :
    Isolated {} p q ↔
      p = q ∨ (¬ ∃ rest, q = p ++ "_" ++ rest) ∧ ¬ ∃ rest, p = q ++ "_" ++ rest := by
  constructor
  · intro h
    by_cases hne : p = q
    · exact .inl hne
    · refine .inr (not_or.mp fun hprefix => ?_)
      obtain ⟨channel, channel', heq⟩ := exists_append_eq_iff.mpr (.inr hprefix)
      exact not_isolated hne heq h
  · intro h requests hrequests
    refine serve_ofPeer IndexNames.injective_indexFor_default nofun
      (fun r hr => (hrequests r hr).2) fun r hr hother => ?_
    rcases (hrequests r hr).1 with hpeer | hpeer
    · exact absurd hpeer hother
    · rw [hpeer] at hother ⊢
      have hne : p ≠ q := Ne.symm hother
      exact apart_iff.mpr ⟨hne, h.resolve_left hne⟩

/-- On the channel `c`, an agent of the peer `a_b` overwrites documents that an agent of the peer
`a` published on the channel `b_c`. -/
theorem not_forall_isolated : ¬ ∀ p q : String, p ≠ q → Isolated {} p q := by
  intro h
  have hjoined : "a" ++ "_" ++ "b_c" = "a_b" ++ "_" ++ "c" := by decide
  exact not_isolated (by decide) hjoined (h "a" "a_b" (by decide))

end Tables

end LedgerIndex
