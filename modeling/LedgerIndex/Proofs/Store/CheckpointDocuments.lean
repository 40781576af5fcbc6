import LedgerIndex.Proofs.Json.Members
import LedgerIndex.Proofs.Json.Written
import LedgerIndex.Proofs.Store.Peers
import LedgerIndex.Proofs.Url.Segments
import LedgerIndex.Store.Search
import Mathlib.Data.Set.Function

/-! # Checkpoints in a document store

A search service keeps the checkpoint of a peer and channel as a document under a URL of its own.
Of the service it is only assumed that it keeps documents (`Http.Documents.Faithful`): it shows the
body that was last posted to a URL with success, and nothing where none was.  Then every checkpoint
is the number that was put last (`SearchStore.Remembers`), exactly if the peers and channels have
indices of different names (`SearchStore.keepsApart_iff`).  The name of an index joins the peer and
the channel with an underscore and is in lowercase, and a URL keeps neither its tabs nor its line
ends. -/

namespace LedgerIndex

/-! ### Document stores -/

namespace Http

/-- A reply with a status of success. -/
def Reply.succeeded : Reply → Bool
  | .dropped => false
  | .answered status _ => isSuccess status

/-- The documents of a service by the texts of their URLs. -/
abbrev Documents : Type := String → Option String

namespace Documents

/-- The documents after an exchange: a body that is posted with success is kept. -/
def after (documents : Documents) (exchange : Request × Reply) : Documents :=
  if exchange.1.method = .post ∧ exchange.2.succeeded = true then
    Function.update documents exchange.1.url.text (some exchange.1.body)
  else documents

/-- A reply that shows a document as the field `_source` of an object, or says that there is
none. -/
def Shows : Option String → Reply → Prop
  | none, reply => ∃ body, reply = .answered 404 body
  | some document, reply => ∃ status body fields source, reply = .answered status body ∧
      isSuccess status = true ∧ Json.ofBytes? body = some (.object fields) ∧
      fields.filter (·.1 = "_source") = [("_source", source)] ∧
      Json.ofChars? Json.depthLimit document.toList = some source

theorem after_of_get (documents : Documents) {exchange : Request × Reply}
    (h : exchange.1.method = .get) : documents.after exchange = documents := by
  unfold after
  rw [h]
  exact if_neg fun hpost => nomatch hpost.1

theorem after_of_failed (documents : Documents) {exchange : Request × Reply}
    (h : exchange.2.succeeded = false) : documents.after exchange = documents := by
  unfold after
  rw [h]
  exact if_neg fun hpost => nomatch hpost.2

theorem after_of_posted (documents : Documents) {exchange : Request × Reply}
    (hmethod : exchange.1.method = .post) (h : exchange.2.succeeded = true) :
    documents.after exchange
      = Function.update documents exchange.1.url.text (some exchange.1.body) :=
  if_pos ⟨hmethod, h⟩

/-- Whatever is asked for is shown as it was posted last. -/
def Faithful (documents : Documents) : List (Request × Reply) → Prop
  | [] => True
  | exchange :: exchanges =>
    (exchange.1.method = .get → Shows (documents exchange.1.url.text) exchange.2) ∧
      Faithful (documents.after exchange) exchanges

end Documents

end Http

namespace SearchStore

open Http (Documents)
open Store (Request Reply)

/-! ### Calls for checkpoints -/

/-- The answers to some requests, by the stores of their peers under one base URL. -/
def serve (base : Url) (names : IndexNames) (network : Http.Network) : List Request → List Reply
  | [] => []
  | request :: requests =>
    let (answer, network) := answer ⟨base, request.peer, names⟩ network request.query
    ⟨request, answer⟩ :: serve base names network requests

/-- The exchanges that these requests take. -/
def exchanges (base : Url) (names : IndexNames) (network : Http.Network) :
    List Request → List (Http.Request × Http.Reply)
  | [] => []
  | request :: requests =>
    let store : SearchStore := ⟨base, request.peer, names⟩
    let exchange := (store.request? request.query).map fun r => (r, (network.exchange r).1)
    exchange.toList ++ exchanges base names (store.answer network request.query).2 requests

/-- The request gets or puts the checkpoint of one of these peers and channels. -/
def Concerns (pairs : Set (String × String)) (request : Request) : Prop :=
  match request.query with
  | .checkpoint channel => (request.peer, channel) ∈ pairs
  | .putCheckpoint channel number => (request.peer, channel) ∈ pairs ∧ number < UInt64.size
  | _ => False

/-- The checkpoints that were put last, by peer and channel. -/
abbrev Last : Type := String × String → Option Nat

/-- The last checkpoints after a reply. -/
def Last.after (last : Last) (reply : Reply) : Last :=
  match reply with
  | ⟨⟨peer, .putCheckpoint channel number⟩, .ok ()⟩ =>
    Function.update last (peer, channel) (some number)
  | _ => last

/-- The checkpoint of a peer and channel is always the one that was put last. -/
def Remembers (last : Last) : List Reply → Prop
  | [] => True
  | reply :: replies =>
    (match reply with
      | ⟨⟨peer, .checkpoint channel⟩, answer⟩ => answer = .ok (last (peer, channel))
      | _ => True) ∧
    Remembers (last.after reply) replies

/-- The name of the index that holds the checkpoint of a peer and channel, as URLs keep it. -/
def indexOf (pair : String × String) : List Char :=
  Url.visible (Store.checkpointIndex pair.1 pair.2)

/-! ### URLs of checkpoints -/

variable {base : Url} {list : List String} {names : IndexNames} {peer channel : String}
  {pair pair' : String × String} {number : Nat} {documents : Documents} {reply : Http.Reply}

/-- The URL of the checkpoint of a peer and channel, under a base with the given path. -/
def checkpointUrl (base : Url) (list : List String) (pair : String × String) : Url :=
  base.withPath (Url.root (Url.dropEmptyLast list)
    ++ [Store.checkpointIndex pair.1 pair.2, "_doc", "1"].map
      (Url.encodeSegment (Url.isSpecialScheme base.scheme)))

theorem visible_checkpointIndex (peer channel : String) :
    ∃ cs, Url.visible (Store.checkpointIndex peer channel) = 'l' :: cs := by
  obtain ⟨rest, hrest⟩ :
      ∃ rest, ("last_block_" ++ peer ++ "_" ++ channel).toList = 'l' :: rest := by
    simp only [String.toList_append]
    exact ⟨_, rfl⟩
  have hlower : Lowercase.lowerBetween [] 'l' rest = ['l'] := rfl
  refine ⟨(Lowercase.chars ['l'] rest).filter fun c => !(c == '\t' || c == '\n' || c == '\r'), ?_⟩
  rw [Url.visible, Store.checkpointIndex, lowercase, String.toList_ofList, hrest, Lowercase.chars,
    hlower]
  rfl

theorem kept_checkpointIndex (special : Bool) (pair : String × String) :
    Url.Kept special (Store.checkpointIndex pair.1 pair.2) := by
  obtain ⟨cs, hvisible⟩ := visible_checkpointIndex pair.1 pair.2
  refine Url.kept_of_visible hvisible ?_ (by decide) (by decide)
  cases special <;> decide

theorem kept_doc (special : Bool) : Url.Kept special "_doc" := by
  have hvisible : Url.visible "_doc" = '_' :: ['d', 'o', 'c'] := rfl
  refine Url.kept_of_visible hvisible ?_ (by decide) (by decide)
  cases special <;> decide

theorem kept_one (special : Bool) : Url.Kept special "1" := by
  have hvisible : Url.visible "1" = '1' :: [] := rfl
  refine Url.kept_of_visible hvisible ?_ (by decide) (by decide)
  cases special <;> decide

theorem withSegments?_checkpoint (hbase : base.path = .segments list) (pair : String × String) :
    base.withSegments? [Store.checkpointIndex pair.1 pair.2, "_doc", "1"]
      = some (checkpointUrl base list pair) := by
  refine Url.withSegments?_eq hbase fun segment hsegment => ?_
  simp only [List.mem_cons, List.not_mem_nil, or_false] at hsegment
  rcases hsegment with rfl | rfl | rfl
  · exact kept_checkpointIndex _ pair
  · exact kept_doc _
  · exact kept_one _

/-- **Checkpoints have URLs of their own exactly if their indices have names of their own.** -/
theorem text_checkpointUrl_eq_iff :
    (checkpointUrl base list pair).text = (checkpointUrl base list pair').text ↔
      indexOf pair = indexOf pair' := by
  constructor
  · intro h
    have hpaths := Url.pathText_eq_of_text_eq (kept_checkpointIndex _ pair).nonempty
      (kept_checkpointIndex _ pair').nonempty h
    rw [Url.pathText_cons, Url.pathText_cons, String.append_left_inj,
      String.append_right_inj] at hpaths
    exact Url.encodeSegment_eq_iff.mp hpaths
  · intro h
    have hsegment : ∀ special, Url.encodeSegment special (Store.checkpointIndex pair.1 pair.2)
        = Url.encodeSegment special (Store.checkpointIndex pair'.1 pair'.2) :=
      fun special => Url.encodeSegment_eq_iff.mpr h
    simp only [checkpointUrl, List.map_cons, hsegment]

/-! ### One call -/

theorem request?_checkpoint (hbase : base.path = .segments list) (names : IndexNames)
    (peer channel : String) :
    (SearchStore.mk base peer names).request? (.checkpoint channel)
      = some { method := .get, url := checkpointUrl base list (peer, channel) } := by
  rw [request?, segments, withSegments?_checkpoint hbase (peer, channel)]
  rfl

theorem request?_putCheckpoint (hbase : base.path = .segments list) (names : IndexNames)
    (peer channel : String) (number : Nat) :
    (SearchStore.mk base peer names).request? (.putCheckpoint channel number)
      = some (withJson .post (checkpointUrl base list (peer, channel))
        (checkpointDocument number)) := by
  rw [request?, segments, withSegments?_checkpoint hbase (peer, channel)]
  rfl

/-- A checkpoint is put exactly if the reply has a status of success. -/
theorem read_putCheckpoint (channel : String) (number : Nat) (reply : Http.Reply) :
    (reply.succeeded = true ∧ read (.putCheckpoint channel number) reply = .ok ()) ∨
      (reply.succeeded = false ∧ ∃ e, read (.putCheckpoint channel number) reply = .error e) := by
  cases reply with
  | dropped => exact .inr ⟨rfl, _, rfl⟩
  | answered status body =>
      have hnothing : (if status = 404 then notFound? (.putCheckpoint channel number) else none)
          = none := by split <;> rfl
      cases hsuccess : Http.isSuccess status with
      | true => exact .inl ⟨hsuccess, by simp [read, hnothing, hsuccess, readBody]⟩
      | false =>
          refine .inr ⟨hsuccess, .status status (Http.errorText body), ?_⟩
          simp [read, hnothing, hsuccess]

theorem tidy_checkpointDocument (h : number < UInt64.size) (depth : Nat) :
    Json.Tidy (depth + 1) (checkpointDocument number) :=
  (Json.tidy_nat h depth).record "blockNumber"

/-- The number of a checkpoint document is read from every text of the document. -/
theorem readAs_checkpointDocument {sp : Json.Spelling} (hsp : sp.Strict) {text : List Char}
    (h : Json.Spelled sp (checkpointDocument number) text) (hnumber : number < UInt64.size) :
    Json.ReadAs (Json.readRecord "blockNumber" Json.readUInt64) number text :=
  (h.objectWith hsp rfl).readAs fun h => Json.readAs_nat hsp h hnumber

/-- **A document store that shows a checkpoint answers with its number.** -/
theorem read_checkpoint {last : Option Nat} (hlast : ∀ n ∈ last, n < UInt64.size)
    (h : Documents.Shows (last.map fun n => (checkpointDocument n).text) reply) :
    read (.checkpoint channel) reply = .ok last := by
  cases last with
  | none =>
      obtain ⟨body, rfl⟩ := h
      rfl
  | some n =>
      obtain ⟨status, body, fields, source, rfl, hsuccess, hbody, hfields, hsource⟩ := h
      have hn := hlast n rfl
      obtain rfl := Option.some.inj
        ((tidy_checkpointDocument hn 126).ofChars?_text.symm.trans hsource)
      have hread : Json.document? readCheckpoint body = some n :=
        Json.document?_of_ofBytes? hbody fun h =>
          (h.objectWith Json.strict_exact hfields).readAs fun h =>
            readAs_checkpointDocument Json.strict_exact h hn
      have hstatus : status ≠ 404 := by
        rintro rfl
        cases hsuccess
      simp [read, hstatus, hsuccess, readBody, hread]

/-! ### Runs of calls -/

theorem answer_of_request? {store : SearchStore} {q : Store.Query} {request : Http.Request}
    (h : store.request? q = some request) (network : Http.Network) :
    store.answer network q
      = (read q (network.exchange request).1, (network.exchange request).2) := by
  rw [answer, h]

theorem serve_cons {q : Store.Query} {requests : List Request} {sent : Http.Request}
    (h : (SearchStore.mk base peer names).request? q = some sent) (network : Http.Network) :
    serve base names network (⟨peer, q⟩ :: requests)
      = ⟨⟨peer, q⟩, read q (network.exchange sent).1⟩
        :: serve base names (network.exchange sent).2 requests := by
  rw [serve, answer_of_request? h]

theorem exchanges_cons {q : Store.Query} {requests : List Request} {sent : Http.Request}
    (h : (SearchStore.mk base peer names).request? q = some sent) (network : Http.Network) :
    exchanges base names network (⟨peer, q⟩ :: requests)
      = (sent, (network.exchange sent).1)
        :: exchanges base names (network.exchange sent).2 requests := by
  rw [exchanges, answer_of_request? h, h]
  rfl

/-- The documents are the last checkpoints of the served peers and channels. -/
structure Holds (base : Url) (list : List String) (pairs : Set (String × String))
    (documents : Documents) (last : Last) : Prop where
  documents : ∀ pair ∈ pairs, documents (checkpointUrl base list pair).text
    = (last pair).map fun n => (checkpointDocument n).text
  numbers : ∀ pair, ∀ n ∈ last pair, n < UInt64.size

variable {pairs : Set (String × String)} {last : Last}

/-- Putting a checkpoint changes the document of its own peer and channel only. -/
theorem Holds.put (h : Holds base list pairs documents last) (hpairs : Set.InjOn indexOf pairs)
    (hpair : pair ∈ pairs) (hnumber : number < UInt64.size) :
    Holds base list pairs
      (Function.update documents (checkpointUrl base list pair).text
        (some (checkpointDocument number).text))
      (Function.update last pair (some number)) where
  documents other hother := by
    by_cases hsame : other = pair
    · subst hsame
      rw [Function.update_self, Function.update_self]
      rfl
    · have hurl : (checkpointUrl base list other).text ≠ (checkpointUrl base list pair).text :=
        fun heq => hsame (hpairs hother hpair (text_checkpointUrl_eq_iff.mp heq))
      rw [Function.update_of_ne hurl, Function.update_of_ne hsame]
      exact h.documents other hother
  numbers other := by
    by_cases hsame : other = pair
    · subst hsame
      rw [Function.update_self]
      rintro n ⟨⟩
      exact hnumber
    · rw [Function.update_of_ne hsame]
      exact h.numbers other

/-- **Different names keep the checkpoints of different peers and channels apart.** -/
theorem remembers_of_injOn (hbase : base.path = .segments list) (hpairs : Set.InjOn indexOf pairs)
    {requests : List Request} (hrequests : ∀ r ∈ requests, Concerns pairs r)
    {network : Http.Network} (h : Holds base list pairs documents last)
    (hfaithful : documents.Faithful (exchanges base names network requests)) :
    Remembers last (serve base names network requests) := by
  induction requests generalizing network documents last with
  | nil => trivial
  | cons request requests ih =>
      obtain ⟨peer, query⟩ := request
      obtain ⟨hconcerns, hrest⟩ := List.forall_mem_cons.mp hrequests
      cases query with
      | checkpoint channel =>
          have hsent := request?_checkpoint hbase names peer channel
          rw [exchanges_cons hsent] at hfaithful
          rw [serve_cons hsent]
          obtain ⟨hshows, hfaithful⟩ := hfaithful
          have hshown := hshows rfl
          rw [h.documents (peer, channel) hconcerns] at hshown
          rw [documents.after_of_get rfl] at hfaithful
          exact ⟨read_checkpoint (h.numbers (peer, channel)) hshown, ih hrest h hfaithful⟩
      | putCheckpoint channel number =>
          have hsent := request?_putCheckpoint hbase names peer channel number
          rw [exchanges_cons hsent] at hfaithful
          rw [serve_cons hsent]
          obtain ⟨-, hfaithful⟩ := hfaithful
          obtain ⟨hpair, hnumber⟩ := hconcerns
          refine ⟨trivial, ?_⟩
          rcases read_putCheckpoint channel number
            (network.exchange (withJson .post (checkpointUrl base list (peer, channel))
              (checkpointDocument number))).1 with ⟨hsuccess, hread⟩ | ⟨hfailed, e, hread⟩
          · rw [documents.after_of_posted rfl hsuccess] at hfaithful
            rw [hread]
            exact ih hrest (h.put hpairs hpair hnumber) hfaithful
          · rw [documents.after_of_failed hfailed] at hfaithful
            rw [hread]
            exact ih hrest h hfaithful
      | blockHash channel number => exact hconcerns.elim
      | putEvent e => exact hconcerns.elim

/-! ### Which checkpoints are kept apart -/

/-- Over whatever network, as long as it shows documents as they were posted last, every checkpoint
of these peers and channels is the one that was put last. -/
def KeepsApart (base : Url) (pairs : Set (String × String)) : Prop :=
  ∀ (names : IndexNames) (network : Http.Network) (requests : List Request),
    (∀ r ∈ requests, Concerns pairs r) →
    Documents.Faithful (fun _ => none) (exchanges base names network requests) →
    Remembers (fun _ => none) (serve base names network requests)

/-- The network of a service that takes a document and shows it. -/
def oneDocument (document : Json) : Http.Network :=
  .scripted [.answered 200 [],
    .answered 200 (Utf8.encode (Json.ofFields [("_source", document)]).text)]

theorem shows_oneDocument (h : number < UInt64.size) :
    Documents.Shows (some (checkpointDocument number).text)
      (.answered 200
        (Utf8.encode (Json.ofFields [("_source", checkpointDocument number)]).text)) := by
  have hshown : Json.Tidy Json.depthLimit
      (Json.ofFields [("_source", checkpointDocument number)]) :=
    (tidy_checkpointDocument h 125).record "_source"
  exact ⟨200, _, _, checkpointDocument number, rfl, rfl, hshown.ofBytes?_encode_text, rfl,
    (tidy_checkpointDocument h 126).ofChars?_text⟩

/-- Two checkpoints in one document are not kept apart: one is put, and the other one is got. -/
theorem injOn_of_keepsApart (hbase : base.path = .segments list) (h : KeepsApart base pairs) :
    Set.InjOn indexOf pairs := by
  intro pair hpair pair' hpair' hindex
  obtain ⟨peer, channel⟩ := pair
  obtain ⟨peer', channel'⟩ := pair'
  have hzero : 0 < UInt64.size := by decide
  have hput := request?_putCheckpoint hbase {} peer channel 0
  have hget := request?_checkpoint hbase {} peer' channel'
  have hshows := shows_oneDocument hzero
  have hurl : (checkpointUrl base list (peer', channel')).text
      = (checkpointUrl base list (peer, channel)).text :=
    text_checkpointUrl_eq_iff.mpr hindex.symm
  have hposted : Documents.after (fun _ => none)
      (withJson .post (checkpointUrl base list (peer, channel)) (checkpointDocument 0),
        .answered 200 []) (checkpointUrl base list (peer', channel')).text
      = some (checkpointDocument 0).text := by
    rw [Documents.after_of_posted _ rfl rfl, hurl]
    exact Function.update_self ..
  have hremembers := h {} (oneDocument (checkpointDocument 0))
    [⟨peer, .putCheckpoint channel 0⟩, ⟨peer', .checkpoint channel'⟩] (by
      intro r hr
      simp only [List.mem_cons, List.not_mem_nil, or_false] at hr
      rcases hr with rfl | rfl
      · exact ⟨hpair, hzero⟩
      · exact hpair') (by
      rw [exchanges_cons hput, exchanges_cons hget]
      exact ⟨nofun, fun _ => (congrArg (Documents.Shows · _) hposted).mpr hshows, trivial⟩)
  rw [serve_cons hput, serve_cons hget] at hremembers
  obtain ⟨-, hgot, -⟩ := hremembers
  have hread : read (.checkpoint channel') (.answered 200 (Utf8.encode
      (Json.ofFields [("_source", checkpointDocument 0)]).text)) = .ok (some 0) :=
    read_checkpoint (by rintro n ⟨⟩; exact hzero) hshows
  have hlast : Function.update (fun _ => none) (peer, channel) (some 0) (peer', channel')
      = some 0 := Except.ok.inj (hgot.symm.trans hread)
  by_contra hne
  rw [Function.update_of_ne (Ne.symm hne)] at hlast
  cases hlast

/-- **Checkpoints are kept apart exactly by the names of their indices.** -/
theorem keepsApart_iff (hbase : base.cannotBeABase = false) (pairs : Set (String × String)) :
    KeepsApart base pairs ↔ Set.InjOn indexOf pairs := by
  obtain ⟨list, hlist⟩ : ∃ list, base.path = .segments list := by
    unfold Url.cannotBeABase at hbase
    split at hbase
    · cases hbase
    · rename_i list hlist
      exact ⟨list, hlist⟩
  constructor
  · exact injOn_of_keepsApart hlist
  · intro hpairs names network requests hrequests hfaithful
    exact remembers_of_injOn hlist hpairs hrequests ⟨fun _ _ => rfl, nofun⟩ hfaithful

namespace Sample

def elastic : Url := ⟨"http", some ⟨"", none, .name "elastic", none⟩, .segments [""], none, none⟩

end Sample

/-- Two peers on one channel have checkpoints of their own. -/
theorem keepsApart_two_peers : Sample.elastic.cannotBeABase = false ∧
    KeepsApart Sample.elastic {("peer0", "c"), ("peer1", "c")} := by
  refine ⟨rfl, (keepsApart_iff rfl _).mpr ?_⟩
  intro pair hpair pair' hpair' hindex
  rcases hpair with rfl | rfl <;> rcases hpair' with rfl | rfl
  · rfl
  · exact absurd hindex (by decide +kernel)
  · exact absurd hindex (by decide +kernel)
  · rfl

/-- The peer `a` on the channel `b_c` and the peer `a_b` on the channel `c` share a document. -/
theorem not_forall_keepsApart :
    ¬ ∀ (base : Url) (pairs : Set (String × String)), base.cannotBeABase = false →
      KeepsApart base pairs := by
  intro h
  have hapart := h Sample.elastic {("a", "b_c"), ("a_b", "c")} rfl
  have hpairs : Set.InjOn indexOf {("a", "b_c"), ("a_b", "c")} := injOn_of_keepsApart rfl hapart
  have hindex : indexOf ("a", "b_c") = indexOf ("a_b", "c") := by decide +kernel
  exact absurd (hpairs (.inl rfl) (.inr rfl) hindex) (by decide)

end SearchStore

end LedgerIndex
