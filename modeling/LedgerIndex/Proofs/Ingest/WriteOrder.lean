import Mathlib.Data.List.Forall2
import LedgerIndex.Proofs.Decimal.Digits
import LedgerIndex.Proofs.Event.OfBlock
import LedgerIndex.Proofs.Ingest.Deployment
import LedgerIndex.Proofs.Ingest.Exchanges
import LedgerIndex.Proofs.Ingest.Steps

/-! # The order of writes on the wire

Over a gateway and a search service, whatever replies come back, a reconciliation only reads, and a
poll writes a block as one piece: the block is fetched, its events are put in order, its document
last, and then its checkpoint.  What a question has to come after is said by `Allowed`, one
constructor for each kind of question; that every request of a call is allowed, and comes after
accepted replies only, is what the calls keep.  The statement for all calls of an ingestor is
`Ingestor.write_order`. -/

namespace LedgerIndex

open Ingest Exchange

variable {agent : Agent} {gateway : GatewayLedger} {store : SearchStore} {channel : String}
  {first number : Nat} {t : List Exchange} {x : Exchange}

namespace Exchange

/-! ### What comes before a question -/

/-- A block was fetched and then all its events were put. -/
inductive Published (agent : Agent) (channel : String) (number : Nat) : List Exchange → Prop
  | intro {fetch : Exchange} {puts : List Exchange} {status : Nat} {body : Bytes} {block : Block}
      {prepared : Ingestor.Prepared} {cursor : Cursor}
      (hquery : fetch.query = .ledger (.block channel number))
      (hreply : fetch.reply = .answered status body) (hsuccess : Http.isSuccess status = true)
      (hblock : Ingestor.decodeNumbered number body = .ok block)
      (hready : Ingestor.Ready agent channel cursor block prepared)
      (hputs : puts.map (·.query) = prepared.events.map fun e => .store (.putEvent e)) :
      Published agent channel number (fetch :: puts)

/-- What a poll that begins at block `first` may ask after the exchanges before. -/
inductive Allowed (agent : Agent) (channel : String) (first : Nat) (before : List Exchange) :
    Query → Prop
  | height : Allowed agent channel first before (.ledger (.tipHeight channel))
  | block {number : Nat} (h : first ≤ number) :
      Allowed agent channel first before (.ledger (.block channel number))
  | event {e : Event} (h : ∀ number, first ≤ number → e.blockNumber = number + 1 →
        ∃ x ∈ before, x.query = .store (.putCheckpoint channel number)) :
      Allowed agent channel first before (.store (.putEvent e))
  | checkpoint {number : Nat} {earlier published : List Exchange}
      (h : Published agent channel number published) (hbefore : before = earlier ++ published) :
      Allowed agent channel first before (.store (.putCheckpoint channel number))

/-- What a reconciliation may ask. -/
def Reads (_before : List Exchange) : Query → Prop
  | .ledger _ | .store (.checkpoint _) | .store (.blockHash ..) => True
  | _ => False

/-! ### Reconciliation -/

theorem asks_fetchCheckpoint {good : Block → List Exchange → Prop}
    (ht : Orderly gateway store Reads t) (hclean : Clean t)
    (hgood : ∀ block u, Clean u → Orderly gateway store Reads u → good block u) :
    Asks gateway store Reads good (Ingestor.fetchCheckpoint channel number) t := by
  have hfetch : Asks gateway store Reads good (Ingestor.fetch channel number) t :=
    asks_fetch ht hclean trivial fun _ _ _ block _ _ _ _ hclean hnext => hgood block _ hclean hnext
  refine Attempt.Safe.tryCatch (Attempt.Safe.mono hfetch (fun _ _ _ h => h) fun e u hu _ => ?_)
  split
  · exact Attempt.Safe.throw hu trivial
  · exact Attempt.Safe.throw hu trivial

theorem asks_startCursor :
    Asks gateway store Reads (fun _ _ => True) (Ingestor.startCursor channel) [] := by
  refine Attempt.Safe.bind (asks_store .nil clean_nil trivial fun x found hquery hread hnext => ?_)
  cases found with
  | none => exact Attempt.Safe.pure hnext trivial
  | some number =>
      have hclean := clean_nil.concat
        (accepted_of_read_store hquery hread (by simp [SearchStore.notFound?]))
      refine Attempt.Safe.bind (asks_store hnext hclean trivial
        fun y stored hquery hread hnext => ?_)
      cases stored with
      | none => exact Attempt.Safe.throw hnext trivial
      | some stored =>
          have hclean := hclean.concat
            (accepted_of_read_store hquery hread (by simp [SearchStore.notFound?]))
          refine Attempt.Safe.bind (asks_fetchCheckpoint hnext hclean fun block u _ hu => ?_)
          refine Attempt.Safe.bind (Attempt.Safe.ofExcept hu (fun hash _ => ?_) fun _ _ => trivial)
          split
          · exact Attempt.Safe.pure hu trivial
          · exact Attempt.Safe.throw hu trivial

theorem safe_reconcile {ingestor : Ingestor} :
    Program.Safe (environment gateway store) (Orderly gateway store Reads)
      (fun r _ => r.2.agent = ingestor.agent ∧ r.2.channel = ingestor.channel)
      ingestor.reconcile [] := by
  refine Ingestor.safe_reconcile_of_start (Attempt.Safe.mono asks_startCursor ?_ ?_)
  · rintro cursor t ht _ _ u rfl
    exact ⟨ht, rfl, rfl⟩
  · exact fun _ _ _ _ => ⟨rfl, rfl⟩

/-! ### Polling -/

theorem asks_publish (events : List Event) : ∀ t : List Exchange,
    Orderly gateway store (Allowed agent channel first) t → Clean t →
    (∀ e ∈ events, ∀ further, Allowed agent channel first (t ++ further) (.store (.putEvent e))) →
    Asks gateway store (Allowed agent channel first)
      (fun _ u => ∃ puts, u = t ++ puts ∧
        puts.map (·.query) = events.map (fun e => .store (.putEvent e)) ∧ Clean u)
      (Ingestor.publish channel events) t := by
  induction events with
  | nil => exact fun t ht hclean _ => Attempt.Safe.pure ht ⟨[], by simp, rfl, hclean⟩
  | cons event events ih =>
      intro t ht hclean hmay
      have hhead := hmay event List.mem_cons_self []
      rw [List.append_nil] at hhead
      refine Attempt.Safe.bind (asks_store ht hclean hhead fun x _ hquery hread hnext => ?_)
      have hclean := hclean.concat
        (accepted_of_read_store hquery hread (by simp [SearchStore.notFound?]))
      refine Attempt.Safe.mono (ih _ hnext hclean fun e he further => ?_) ?_ fun _ _ _ h => h
      · rw [List.append_assoc]
        exact hmay e (List.mem_cons_of_mem _ he) _
      · rintro _ _ _ ⟨puts, rfl, hputs, hclean⟩
        exact ⟨x :: puts, by simp, by simp [hquery, hputs], hclean⟩

/-- Before block `next` all checkpoints from `first` on have been written. -/
structure Reached (channel : String) (first next : Nat) (t : List Exchange) : Prop where
  clean : Clean t
  le : first ≤ next
  written : ∀ number, first ≤ number → number < next →
    ∃ x ∈ t, x.query = .store (.putCheckpoint channel number)

theorem asks_ingestNext {cursor : Cursor}
    (ht : Orderly gateway store (Allowed agent channel first) t)
    (hreached : Reached channel first cursor.next t) :
    Asks gateway store (Allowed agent channel first)
      (fun _ u => Reached channel first (cursor.next + 1) u)
      (Ingestor.ingestNext agent channel cursor) t := by
  refine Attempt.Safe.bind (Ingestor.safe_prepare_of_fetch
    (asks_fetch ht hreached.clean (.block hreached.le) ?_))
  intro fetch status body block hquery hreply hsuccess hblock hclean hnext
  refine ⟨fun prepared hready => ?_, fun _ _ => trivial⟩
  have hnumber : ∀ e ∈ prepared.events, e.blockNumber = cursor.next := by
    intro e he
    rw [hready.events] at he
    exact (Agent.blockNumber_of_mem_eventsOf he).trans (Ingestor.decodeNumbered_eq_ok hblock).2
  refine Attempt.Safe.bind (Attempt.Safe.mono (asks_publish prepared.events _ hnext hclean ?_) ?_
    fun _ _ _ h => h)
  · intro e he further
    refine .event fun number hfirst he' => ?_
    obtain ⟨x, hx, hwritten⟩ := hreached.written number hfirst (by have := hnumber e he; omega)
    exact ⟨x, by simp [hx], hwritten⟩
  · rintro _ _ hu ⟨puts, rfl, hputs, hclean⟩
    have hpublished : Published agent channel cursor.next (fetch :: puts) :=
      .intro hquery hreply hsuccess hblock hready hputs
    have hallowed : Allowed agent channel first (t ++ [fetch] ++ puts)
        (.store (.putCheckpoint channel cursor.next)) :=
      .checkpoint hpublished (List.append_assoc ..)
    refine Attempt.Safe.bind (asks_store hu hclean hallowed fun x _ hquery hread hnext => ?_)
    have hle := hreached.le
    refine Attempt.Safe.pure hnext ⟨hclean.concat (accepted_of_read_store hquery hread
      (by simp [SearchStore.notFound?])), by omega, fun number hfirst hlt => ?_⟩
    rcases Nat.lt_succ_iff_lt_or_eq.mp hlt with hlt | rfl
    · obtain ⟨y, hy, hwritten⟩ := hreached.written number hfirst hlt
      exact ⟨y, by simp [hy], hwritten⟩
    · exact ⟨x, by simp, hquery⟩

theorem safe_poll (gateway : GatewayLedger) (store : SearchStore) (ingestor : Ingestor) :
    ∃ first, Program.Safe (environment gateway store)
      (Orderly gateway store (Allowed ingestor.agent ingestor.channel first))
      (fun r _ => r.2.agent = ingestor.agent ∧ r.2.channel = ingestor.channel)
      ingestor.poll [] := by
  refine ⟨(ingestor.cursor.map (·.next)).getD 0,
    Ingestor.safe_poll_of_height .nil (fun _ => ⟨rfl, rfl⟩) fun cursor hcursor => ?_⟩
  rw [hcursor, Option.map_some, Option.getD_some]
  refine Attempt.Safe.mono (asks_ledger .nil clean_nil .height
    fun x height hquery hread hnext => ?_) (fun _ _ _ h => h) fun _ _ _ _ => ⟨rfl, rfl⟩
  have hclean := clean_nil.concat (accepted_of_read_ledger hquery hread).1
  refine Ingestor.safe_ingestUpTo (fun _ cursor' _ t =>
    Reached ingestor.channel cursor.next cursor'.next t) (fun _ _ => ⟨rfl, rfl⟩) ?_ ?_ hnext
    ⟨hclean, Nat.le_refl _, fun number hle hlt => absurd hle (Nat.not_le.mpr hlt)⟩
  · rintro remaining cursor' count u _ hu _ rfl
    exact ⟨hu, rfl, rfl⟩
  · rintro remaining cursor' count u _ hu hreached rfl
    refine ⟨hu, Attempt.Safe.mono (asks_ingestNext hu hreached) ?_ fun _ _ _ _ => ⟨rfl, rfl⟩⟩
    rintro block v hv hreached _ _ rfl
    exact ⟨hv, hreached⟩

end Exchange

/-! ### Requests and their questions -/

namespace SearchStore

theorem text_checkpointDocument (number : Nat) : (checkpointDocument number).text =
    String.ofList ('\x7b' :: Json.writeString "blockNumber"
      (':' :: (Decimal.digits number ++ ['\x7d']))) := rfl

theorem checkpointDocument_injective {m n : Nat}
    (h : (checkpointDocument m).text = (checkpointDocument n).text) : m = n := by
  rw [text_checkpointDocument, text_checkpointDocument, String.ofList_inj] at h
  have hdigits : Decimal.digits m ++ ['\x7d'] = Decimal.digits n ++ ['\x7d'] := by
    simpa [Json.writeString, Json.escape] using h
  exact Decimal.digits_injective (List.append_cancel_right hdigits)

theorem text_blockSearch_ne (c : String) (m n : Nat) :
    (store.blockSearch c m).text ≠ (checkpointDocument n).text := by
  intro h
  have hfields : ∀ size query : Json, Json.ofFields [("size", size), ("query", query)]
      = .object [("query", query), ("size", size)] := by
    have hlt : "query" < "size" := by decide
    intro size query
    simp [Json.ofFields, Json.insertField, hlt]
  rw [text_checkpointDocument, blockSearch, hfields, Json.text, String.ofList_inj] at h
  simp [Json.write, Json.writeString, Json.escape] at h

theorem request_putCheckpoint {request : Http.Request} {c : String}
    (h : store.request? (.putCheckpoint c number) = some request) :
    request.method = .post ∧ request.body = (checkpointDocument number).text := by
  obtain ⟨url, _, rfl⟩ := Option.map_eq_some_iff.mp h
  exact ⟨rfl, rfl⟩

end SearchStore

namespace Exchange

theorem Sent.putCheckpoint (h : x.Sent gateway store) {c : String}
    (hx : store.request? (.putCheckpoint c number) = some x.request) :
    ∃ c', x.query = .store (.putCheckpoint c' number) := by
  obtain ⟨hmethod, hbody⟩ := SearchStore.request_putCheckpoint hx
  obtain ⟨query, request, reply⟩ := x
  cases query with
  | ledger q =>
      obtain ⟨url, _, rfl⟩ := h
      cases hmethod
  | store q =>
      cases q with
      | checkpoint c' =>
          obtain ⟨url, _, rfl⟩ := Option.map_eq_some_iff.mp h
          cases hmethod
      | putCheckpoint c' n =>
          obtain ⟨_, hbody'⟩ := SearchStore.request_putCheckpoint h
          rw [SearchStore.checkpointDocument_injective (hbody.symm.trans hbody')]
          exact ⟨c', rfl⟩
      | blockHash c' n =>
          obtain ⟨url, _, rfl⟩ := Option.map_eq_some_iff.mp h
          exact absurd hbody (SearchStore.text_blockSearch_ne c' n number)
      | putEvent e =>
          obtain ⟨url, _, rfl⟩ := Option.map_eq_some_iff.mp h
          cases hmethod
  | cancelled => exact h.elim
  | report progress => exact h.elim

theorem Sent.putEvent (h : x.Sent gateway store) (hx : x.request.method = .put) :
    ∃ e, x.query = .store (.putEvent e) := by
  obtain ⟨query, request, reply⟩ := x
  cases query with
  | ledger q =>
      obtain ⟨url, _, rfl⟩ := h
      cases hx
  | store q =>
      obtain ⟨url, _, rfl⟩ := Option.map_eq_some_iff.mp h
      cases q with
      | putEvent e => exact ⟨e, rfl⟩
      | checkpoint c => cases hx
      | putCheckpoint c n => cases hx
      | blockHash c n => cases hx
  | cancelled => exact h.elim
  | report progress => exact h.elim

end Exchange

/-! ### Calls -/

namespace Exchange

/-- Answered with a status of success. -/
def Succeeded (x : Exchange) : Prop :=
  ∃ status body, x.reply = .answered status body ∧ Http.isSuccess status = true

/-- A request for a block that was answered with this block. -/
def Fetches (gateway : GatewayLedger) (channel : String) (number : Nat) (block : Block)
    (x : Exchange) : Prop :=
  (∃ url, gateway.url? (.block channel number) = some url ∧
    x.request = { method := .get, url := url }) ∧
  ∃ status body, x.reply = .answered status body ∧ Http.isSuccess status = true ∧
    Block.decode body = .ok block ∧ block.header.number = number

/-- One successful request for each event, in order. -/
def Publishes (store : SearchStore) (events : List Event) (puts : List Exchange) : Prop :=
  List.Forall₂ (fun e put => store.request? (.putEvent e) = some put.request ∧ put.Succeeded)
    events puts

/-- The last request puts a block document and waits until searches find it. -/
def Refreshes (document : BlockEvent) (puts : List Exchange) : Prop :=
  ∃ url : Url, puts.getLast?.map (·.request) = some
    (SearchStore.withJson .put (url.withParameter "refresh" "wait_for") document.document)

theorem Accepted.succeeded (h : x.Accepted) : x.Succeeded := by
  obtain ⟨status, body, hreply, hsuccess, _⟩ := h
  exact ⟨status, body, hreply, hsuccess⟩

theorem publishes_of_queries {events : List Event} : ∀ {puts : List Exchange},
    puts.map (·.query) = events.map (fun e => .store (.putEvent e)) →
    (∀ x ∈ puts, x.Sent gateway store ∧ x.Accepted) → Publishes store events puts := by
  induction events with
  | nil =>
      intro puts hputs _
      rw [List.map_eq_nil_iff.mp hputs]
      exact .nil
  | cons e events ih =>
      intro puts hputs hall
      obtain ⟨put, rest, rfl, hquery, hrest⟩ := List.map_eq_cons_iff.mp hputs
      obtain ⟨hsent, haccepted⟩ := hall put List.mem_cons_self
      have hrequest : store.request? (.putEvent e) = some put.request := by
        simpa [Sent, hquery] using hsent
      exact .cons ⟨hrequest, haccepted.succeeded⟩
        (ih hrest fun x hx => hall x (List.mem_cons_of_mem _ hx))

theorem refreshes_of_queries {front : List Event} {document : BlockEvent} {puts : List Exchange}
    (h : puts.map (·.query) = (front ++ [Event.block document]).map fun e => .store (.putEvent e))
    (hsent : ∀ x ∈ puts, x.Sent gateway store) : Refreshes document puts := by
  rw [List.map_append] at h
  obtain ⟨earlier, last, rfl, _, hlast⟩ := List.map_eq_append_iff.mp h
  obtain ⟨put, rest, rfl, hquery, hrest⟩ := List.map_eq_cons_iff.mp hlast
  obtain rfl := List.map_eq_nil_iff.mp hrest
  have hrequest : store.request? (.putEvent (.block document)) = some put.request := by
    simpa [Sent, hquery] using hsent put (by simp)
  obtain ⟨url, _, hurl⟩ := Option.map_eq_some_iff.mp hrequest
  exact ⟨url, by simp [← hurl, SearchStore.requestAt, Event.kind, Event.document]⟩

/-- A checkpoint is written directly behind the block. -/
def Behind (gateway : GatewayLedger) (store : SearchStore) (agent : Agent) (channel : String)
    (number : Nat) (before : List Exchange) : Prop :=
  ∃ earlier fetch puts block hash txs, before = earlier ++ fetch :: puts ∧
    Fetches gateway channel number block fetch ∧ block.header.hash = .ok hash ∧
    block.entries.mapM Transaction.decode = .ok txs ∧
    Publishes store (agent.eventsOf channel block hash.toHex txs) puts ∧
    Refreshes (agent.blockEvent channel block hash.toHex txs) puts

theorem Published.behind {published before earlier : List Exchange}
    (h : Published agent channel number published) (hbefore : before = earlier ++ published)
    (hall : ∀ x ∈ before, x.Sent gateway store ∧ x.Accepted) :
    Behind gateway store agent channel number before := by
  obtain ⟨hquery, hreply, hsuccess, hblock, hready, hputs⟩ := h
  rename_i fetch puts status body block prepared cursor
  subst hbefore
  have hfetch : Sent gateway store fetch := (hall fetch (by simp)).1
  simp only [Sent, hquery] at hfetch
  have hpublished : ∀ x ∈ puts, x.Sent gateway store ∧ x.Accepted :=
    fun x hx => hall x (by simp [hx])
  rw [hready.events] at hputs
  exact ⟨earlier, fetch, puts, block, prepared.headerHash, prepared.transactions, rfl,
    ⟨hfetch, status, body, hreply, hsuccess, Ingestor.decodeNumbered_eq_ok hblock⟩, hready.hash,
    hready.transactions, publishes_of_queries hputs hpublished,
    refreshes_of_queries hputs fun x hx => (hpublished x hx).1⟩

/-- Every checkpoint in a record is written directly behind its block. -/
def CheckpointsBehind (gateway : GatewayLedger) (store : SearchStore) (agent : Agent)
    (channel : String) (t : List Exchange) : Prop :=
  ∀ before x behind number, t = before ++ x :: behind →
    store.request? (.putCheckpoint channel number) = some x.request →
    Behind gateway store agent channel number before

/-- The record of one call: no request follows a reply that was not accepted, and no event of a
block is put before the checkpoint of the block that was fetched before it is written. -/
def InOrder (store : SearchStore) (channel : String) (t : List Exchange) : Prop :=
  ∀ before x behind, t = before ++ x :: behind →
    (∀ y ∈ before, y.Accepted) ∧
    (x.request.method = .put → ∃ e, x.query = .store (.putEvent e) ∧
      store.request? (.putEvent e) = some x.request ∧
      ∀ number, e.blockNumber = number + 1 →
        (∃ y ∈ t, y.query = .ledger (.block channel number)) →
        ∃ y ∈ before, store.request? (.putCheckpoint channel number) = some y.request ∧
          y.Succeeded)

def ReadOnly (store : SearchStore) (t : List Exchange) : Prop :=
  ∀ x ∈ t, x.request.method ≠ .put ∧
    ∀ c number, store.request? (.putCheckpoint c number) ≠ some x.request

theorem CheckpointsBehind.append {t u : List Exchange}
    (h : CheckpointsBehind gateway store agent channel t)
    (h' : CheckpointsBehind gateway store agent channel u) :
    CheckpointsBehind gateway store agent channel (t ++ u) := by
  intro before x behind number hsplit hx
  rcases List.append_eq_append_iff.mp hsplit with ⟨front, rfl, hu⟩ | ⟨front, rfl, hbehind⟩
  · obtain ⟨earlier, fetch, puts, block, hash, txs, rfl, hrest⟩ := h' front x behind number hu hx
    exact ⟨t ++ earlier, fetch, puts, block, hash, txs, by simp, hrest⟩
  · cases front with
    | nil =>
        obtain ⟨earlier, fetch, puts, block, hash, txs, hnil, _⟩ :=
          h' [] x behind number (by simpa using hbehind.symm) hx
        simp at hnil
    | cons y front =>
        obtain ⟨rfl, _⟩ := List.cons.inj hbehind
        exact h before x front number rfl hx

theorem checkpointsBehind_of_orderly
    (h : Orderly gateway store (Allowed agent channel first) t) :
    CheckpointsBehind gateway store agent channel t := by
  intro before x behind number hsplit hx
  obtain ⟨hclean, hmay, hsent⟩ := h.split hsplit
  obtain ⟨c, hquery⟩ := hsent.putCheckpoint hx
  rw [hquery] at hmay
  cases hmay with
  | checkpoint hpublished hbefore =>
      refine hpublished.behind hbefore fun y hy => ⟨h.sent y ?_, hclean y hy⟩
      rw [hsplit]
      exact List.mem_append_left _ hy

theorem readOnly_of_orderly (h : Orderly gateway store Reads t) : ReadOnly store t := by
  intro x hx
  obtain ⟨before, behind, hsplit⟩ := List.append_of_mem hx
  obtain ⟨_, hmay, hsent⟩ := h.split hsplit
  refine ⟨fun hmethod => ?_, fun c number hrequest => ?_⟩
  · obtain ⟨e, hquery⟩ := hsent.putEvent hmethod
    rw [hquery] at hmay
    exact hmay
  · obtain ⟨c', hquery⟩ := hsent.putCheckpoint hrequest
    rw [hquery] at hmay
    exact hmay

theorem inOrder_of_orderly (h : Orderly gateway store (Allowed agent channel first) t) :
    InOrder store channel t := by
  intro before x behind hsplit
  obtain ⟨hclean, hmay, hsent⟩ := h.split hsplit
  refine ⟨hclean, fun hmethod => ?_⟩
  obtain ⟨e, hquery⟩ := hsent.putEvent hmethod
  have hrequest : store.request? (.putEvent e) = some x.request := by
    simpa [Sent, hquery] using hsent
  refine ⟨e, hquery, hrequest, fun number hnumber hfetched => ?_⟩
  obtain ⟨y, hy, hyquery⟩ := hfetched
  obtain ⟨earlier, later, hy⟩ := List.append_of_mem hy
  have hymay := (h.split hy).2.1
  rw [hyquery] at hymay
  rw [hquery] at hmay
  cases hymay with
  | block hfirst =>
      cases hmay with
      | event hwritten =>
          obtain ⟨z, hz, hzquery⟩ := hwritten number hfirst hnumber
          have hzsent : z.Sent gateway store := by
            refine h.sent z ?_
            rw [hsplit]
            exact List.mem_append_left _ hz
          refine ⟨z, hz, ?_, (hclean z hz).succeeded⟩
          simpa [Sent, hzquery] using hzsent

theorem inOrder_of_reads (h : Orderly gateway store Reads t) : InOrder store channel t := by
  intro before x behind hsplit
  refine ⟨(h.split hsplit).1, fun hmethod => ?_⟩
  have hx : x ∈ t := hsplit ▸ List.mem_append_right _ List.mem_cons_self
  exact absurd hmethod (readOnly_of_orderly h x hx).1

theorem checkpointsBehind_of_readOnly (h : ReadOnly store t) :
    CheckpointsBehind gateway store agent channel t := by
  rintro before x behind number rfl hx
  exact absurd hx ((h x (by simp)).2 channel number)

end Exchange

namespace Ingestor

/-- A call to an ingestor; a poll with the request to stop that it may see. -/
inductive Call where
  | reconcile
  | poll (stopped : Bool) (stopAt : Option Nat)

def Call.program : Call → Ingestor → Program (Except IngestError Nat × Ingestor)
  | reconcile, ingestor => ingestor.reconcile
  | poll _ _, ingestor => ingestor.poll

/-- The session in which a call begins. -/
def Call.begin : Call → Session → Session
  | reconcile, session => session
  | poll stopped stopAt, session => { session with stopped := stopped, stopAt := stopAt }

/-- Makes calls one after the other; the record of each, and the session after the last. -/
def perform (ingestor : Ingestor) (session : Session) :
    List Call → List (Call × List Exchange) × Session
  | [] => ([], session)
  | call :: calls =>
    let session := call.begin session
    let after := session.run (call.program ingestor)
    let rest := after.1.2.perform after.2 calls
    ((call, session.exchanges (call.program ingestor)) :: rest.1, rest.2)

theorem Call.site_begin (call : Call) (session : Session) :
    (call.begin session).site = session.site := by
  cases call <;> rfl

theorem Call.in_order (call : Call) (ingestor : Ingestor) {session : Session}
    {network : Http.Network} (hsite : session.site = ⟨.gateway gateway, .search store, network⟩) :
    let after := session.run (call.program ingestor)
    let record := session.exchanges (call.program ingestor)
    ∃ network', after.2.site = ⟨.gateway gateway, .search store, network'⟩ ∧
      network.Since record network' ∧
      (after.1.2.agent = ingestor.agent ∧ after.1.2.channel = ingestor.channel) ∧
      CheckpointsBehind gateway store ingestor.agent ingestor.channel record ∧
      InOrder store ingestor.channel record ∧ (call = .reconcile → ReadOnly store record) := by
  cases call with
  | reconcile =>
      obtain ⟨network', hafter, hsince, horderly, hsame⟩ :=
        exists_of_safe Exchange.safe_reconcile hsite
      have hreads := readOnly_of_orderly horderly
      exact ⟨network', hafter, hsince, hsame, checkpointsBehind_of_readOnly hreads,
        inOrder_of_reads horderly, fun _ => hreads⟩
  | poll stopped stopAt =>
      obtain ⟨first, hsafe⟩ := Exchange.safe_poll gateway store ingestor
      obtain ⟨network', hafter, hsince, horderly, hsame⟩ := exists_of_safe hsafe hsite
      exact ⟨network', hafter, hsince, hsame, checkpointsBehind_of_orderly horderly,
        inOrder_of_orderly horderly, nofun⟩

theorem perform_in_order (calls : List Call) : ∀ (ingestor : Ingestor) {session : Session}
    {network : Http.Network},
    session.site = ⟨.gateway gateway, .search store, network⟩ →
    let performed := ingestor.perform session calls
    let trace := performed.1.flatMap (·.2)
    ∃ network', performed.2.site = ⟨.gateway gateway, .search store, network'⟩ ∧
      network.Since trace network' ∧
      CheckpointsBehind gateway store ingestor.agent ingestor.channel trace ∧
      ∀ call record, (call, record) ∈ performed.1 →
        InOrder store ingestor.channel record ∧ (call = .reconcile → ReadOnly store record) := by
  induction calls with
  | nil =>
      intro ingestor session network hsite
      exact ⟨network, hsite, Http.Network.since_refl network, by simp [CheckpointsBehind, perform],
        by simp [perform]⟩
  | cons call calls ih =>
      intro ingestor session network hsite performed trace
      obtain ⟨middle, hmiddle, hsince, ⟨hagent, hchannel⟩, hbehind, hcall⟩ :=
        call.in_order ingestor ((call.site_begin session).trans hsite)
      obtain ⟨network', hafter, hsince', hbehind', hcalls⟩ := ih _ hmiddle
      rw [hagent, hchannel] at hbehind'
      rw [hchannel] at hcalls
      refine ⟨network', hafter, hsince.trans hsince', hbehind.append hbehind', ?_⟩
      intro call' record hmem
      rcases List.mem_cons.mp hmem with heq | hmem
      · cases heq
        exact hcall
      · exact hcalls call' record hmem

/-- **The order of writes on the wire.**  Over a gateway and a search service that answer from any
script, for any calls of an ingestor: the requests that come through are those of the record, with
the replies of the script.  Every checkpoint is written directly behind the successful requests for
the events of its block, the block document last, and these directly behind the fetching of the
block.  Within a call no request follows a reply that was not accepted, and no event of a block is
put before the checkpoint of a block that the call fetched before it was written with success.  A
reconciliation writes nothing. -/
theorem write_order (ingestor : Ingestor) (calls : List Call) {session : Session}
    {replies : List Http.Reply}
    (hsite : session.site = ⟨.gateway gateway, .search store, .scripted replies⟩) :
    let performed := ingestor.perform session calls
    let trace := performed.1.flatMap (·.2)
    (performed.2.site.network.requests = trace.map (·.request) ∧
      trace.map (·.reply) = (List.range trace.length).map fun index =>
        replies.getD index Http.Network.unscripted) ∧
    CheckpointsBehind gateway store ingestor.agent ingestor.channel trace ∧
    ∀ call record, (call, record) ∈ performed.1 →
      InOrder store ingestor.channel record ∧ (call = .reconcile → ReadOnly store record) := by
  intro performed trace
  obtain ⟨network', hafter, hsince, hbehind, hcalls⟩ :=
    perform_in_order calls ingestor hsite
  refine ⟨⟨?_, hsince.replies⟩, hbehind, hcalls⟩
  rw [show performed.2.site = _ from hafter]
  exact hsince.requests

/-- A first block is written with six requests. -/
theorem write_order_first_block :
    let base : Url := ⟨"http", none, .segments [], none, none⟩
    let gateway : GatewayLedger := ⟨base⟩
    let store : SearchStore := ⟨base, "peer0", {}⟩
    let replies : List Http.Reply := [.answered 404 [],
      .answered 200 (Utf8.encode "\x7b\"height\":1\x7d"), .answered 200 Deployment.Sample.first,
      .answered 201 [], .answered 201 [], .answered 201 []]
    let session : Session :=
      { site := ⟨.gateway gateway, .search store, .scripted replies⟩, channel := "c" }
    let performed :=
      (start Deployment.Sample.agent "c").perform session [.reconcile, .poll false none]
    let trace := performed.1.flatMap (·.2)
    trace.map (·.request.method) = [.get, .get, .get, .put, .put, .post] ∧
    CheckpointsBehind gateway store Deployment.Sample.agent "c" trace ∧
    performed.2.site.network.requests = trace.map (·.request) := by
  intro base gateway store replies session performed trace
  have hmethods : trace.map (·.request.method) = [.get, .get, .get, .put, .put, .post] := by
    decide +kernel
  have hsite : session.site = ⟨.gateway gateway, .search store, .scripted replies⟩ := rfl
  obtain ⟨⟨hrequests, _⟩, hbehind, _⟩ :=
    write_order (start Deployment.Sample.agent "c") [.reconcile, .poll false none] hsite
  exact ⟨hmethods, hbehind, hrequests⟩

end Ingestor

end LedgerIndex
