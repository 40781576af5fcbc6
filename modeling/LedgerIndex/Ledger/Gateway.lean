import LedgerIndex.Http.Exchange
import LedgerIndex.Json.Member
import LedgerIndex.Ledger.Basic
import LedgerIndex.Tls.Certificate

/-! # A ledger behind a gateway

A gateway serves the channels of a ledger under one base URL:

* the list of channels under `channels`, as an object with the field `channels`;
* the height of a channel under `channels/{channel}/height`, as an object with the field `height`;
* the bytes of a block under `channels/{channel}/blocks/{number}`.

Every question is one request. -/

namespace LedgerIndex

structure GatewayLedger where
  base : Url
deriving DecidableEq, Repr

namespace GatewayLedger

/-- Why there is no client for a gateway. -/
inductive SetupError where
  | invalidBaseUrl (url : String)
  | unusableCertificates
deriving DecidableEq, Repr

/-- The client of a gateway under a base URL, trusting a certificate authority and presenting an
identity where they are given. -/
def connect (base : Url) (authority identity : Option Bytes) : Except SetupError GatewayLedger :=
  if base.cannotBeABase then .error (.invalidBaseUrl base.text)
  else if !(identity.all Tls.isIdentity && authority.all Tls.isTrustAnchor) then
    .error .unusableCertificates
  else .ok ⟨base⟩

/-- The path segments of a question. -/
def segments : Ledger.Query → List String
  | .channels => ["channels"]
  | .tipHeight channel => ["channels", channel, "height"]
  | .block channel number => ["channels", channel, "blocks", Decimal.text number]

def url? (gateway : GatewayLedger) (q : Ledger.Query) : Option Url :=
  gateway.base.withSegments? (segments q)

/-- The channels that a body lists. -/
def channelsOf? (body : Bytes) : Option (List String) :=
  Json.document? (Json.readRecord "channels" (Json.readArrayOf Json.readText)) body

def heightOf? (body : Bytes) : Option Nat :=
  Json.document? (Json.readRecord "height" Json.readUInt64) body

/-- What is not found when a question is answered with that status. -/
def notFound? : Ledger.Query → Option LedgerError
  | .channels => none
  | .tipHeight channel => some (.unknownChannel channel)
  | .block channel number => some (.blockNotFound channel number)

/-- What the body of a success says. -/
def readBody : (q : Ledger.Query) → Bytes → Option q.Value
  | .channels, body => channelsOf? body
  | .tipHeight _, body => heightOf? body
  | .block _ _, body => some body

/-- The answer that a reply gives to a question. -/
def read (q : Ledger.Query) : Http.Reply → q.Answer
  | .dropped => .error .request
  | .answered status body =>
    match if status = 404 then notFound? q else none with
    | some e => .error e
    | none =>
      if Http.isSuccess status then
        match readBody q body with
        | some value => .ok value
        | none => .error .request
      else .error (.status status (Http.errorText body))

/-- Asks a question over the network. -/
def answer (gateway : GatewayLedger) (network : Http.Network) (q : Ledger.Query) :
    q.Answer × Http.Network :=
  match gateway.url? q with
  | none => (.error (.invalidBaseUrl gateway.base.text), network)
  | some url =>
    let (reply, network) := network.exchange { method := .get, url := url }
    (read q reply, network)

end GatewayLedger

end LedgerIndex
