import LedgerIndex.Event.Document
import LedgerIndex.Http.Exchange
import LedgerIndex.Json.Member
import LedgerIndex.Json.Printer
import LedgerIndex.Store.Basic

/-! # An index store in a search service

Documents are written under one base URL: an event under its document id in the index of its kind,
the checkpoint of a peer and channel as the only document of an index of its own.  The hash of a
block is searched for among the block documents, so a block document is written in such a way that
a search finds it as soon as the write has been answered. -/

namespace LedgerIndex

/-- The client of a search service, on behalf of one peer. -/
structure SearchStore where
  base : Url
  peer : String
  indexNames : IndexNames
deriving DecidableEq, Repr

namespace SearchStore

/-- The client of a search service under a base URL. -/
def connect (base : Url) (peer : String) (names : IndexNames) : Except StoreError SearchStore :=
  if base.cannotBeABase then .error (.invalidBaseUrl base.text) else .ok ⟨base, peer, names⟩

/-- The path segments of a question. -/
def segments (store : SearchStore) : Store.Query → List String
  | .checkpoint channel | .putCheckpoint channel _ =>
    [Store.checkpointIndex store.peer channel, "_doc", "1"]
  | .blockHash _ _ => [store.indexNames.indexFor .block, "_search"]
  | .putEvent event => [store.indexNames.indexFor event.kind, "_doc", event.documentId]

def checkpointDocument (number : Nat) : Json :=
  .ofFields [("blockNumber", .nat number)]

def term (field : String) (value : Json) : Json :=
  .ofFields [("term", .ofFields [(field, value)])]

/-- The search for the document of a block. -/
def blockSearch (store : SearchStore) (channel : String) (number : Nat) : Json :=
  .ofFields [("size", .nat 1),
    ("query", .ofFields [("bool", .ofFields [("filter", .array
      [term "block_number" (.nat number), term "peer.keyword" (.string store.peer),
        term "channel_id.keyword" (.string channel)])])])]

def withJson (method : Http.Method) (url : Url) (json : Json) : Http.Request :=
  { method := method, url := url, body := json.text, contentType := some "application/json" }

/-- The request of a question under its URL. -/
def requestAt (store : SearchStore) (url : Url) : Store.Query → Http.Request
  | .checkpoint _ => { method := .get, url := url }
  | .putCheckpoint _ number => withJson .post url (checkpointDocument number)
  | .blockHash channel number => withJson .post url (store.blockSearch channel number)
  | .putEvent event =>
    let url := if event.kind = .block then url.withParameter "refresh" "wait_for" else url
    withJson .put url event.document

def request? (store : SearchStore) (q : Store.Query) : Option Http.Request :=
  (store.base.withSegments? (store.segments q)).map fun url => store.requestAt url q

/-- Reads a checkpoint document as it comes back. -/
def readCheckpoint : Json.Read Nat :=
  Json.readRecord "_source" (Json.readRecord "blockNumber" Json.readUInt64)

/-- Reads the block hash of one document that was found. -/
def readHash : Json.Read String :=
  Json.readRecord "_source" (Json.readRecord "block_hash" Json.readText)

/-- Reads the block hashes of the documents that were found. -/
def readHits : Json.Read (List String) :=
  Json.readRecord "hits" (Json.readRecord "hits" (Json.readArrayOf readHash))

/-- What the body of a success says. -/
def readBody : (q : Store.Query) → Bytes → Option q.Value
  | .checkpoint _, body => (Json.document? readCheckpoint body).map some
  | .putCheckpoint _ _, _ => some ()
  | .blockHash _ _, body => (Json.document? readHits body).map List.head?
  | .putEvent _, _ => some ()

/-- What it means that nothing was found, where it is no error. -/
def notFound? : (q : Store.Query) → Option q.Value
  | .checkpoint _ => some none
  | .putCheckpoint _ _ => none
  | .blockHash _ _ => some none
  | .putEvent _ => none

/-- The answer that a reply gives to a question. -/
def read (q : Store.Query) : Http.Reply → q.Answer
  | .dropped => .error .request
  | .answered status body =>
    match if status = 404 then notFound? q else none with
    | some value => .ok value
    | none =>
      if Http.isSuccess status then
        match readBody q body with
        | some value => .ok value
        | none => .error .request
      else .error (.status status (Http.errorText body))

/-- Asks a question over the network. -/
def answer (store : SearchStore) (network : Http.Network) (q : Store.Query) :
    q.Answer × Http.Network :=
  match store.request? q with
  | none => (.error (.invalidBaseUrl store.base.text), network)
  | some request =>
    let (reply, network) := network.exchange request
    (read q reply, network)

end SearchStore

end LedgerIndex
