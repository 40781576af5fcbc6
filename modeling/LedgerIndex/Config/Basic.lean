import LedgerIndex.Config.Period
import LedgerIndex.Event.OfBlock
import LedgerIndex.Files.Tree
import LedgerIndex.Url.Parser
import LedgerIndex.Yaml.Document
import LedgerIndex.Yaml.Record

/-! # The configuration of an agent

`Config.ofText` reads a configuration from a YAML document.  Every field may be left out and then
has its default. -/

namespace LedgerIndex

/-- The configuration of an agent: how often it polls, which peer of which organization it reads
from and with which identity, where it finds the index store and the dashboard service, and what it
publishes under which names. -/
structure Config where
  period : Period := .text "1s"
  organization : String := "org1"
  peer : String := "peer0.org1.el-network.com"
  connectionProfile : String := "connection.yaml"
  certificatePath : Option String := none
  keyPath : Option String := none
  storeUrl : Url
  dashboardUrl : Url
  indexNames : IndexNames := {}
  dashboardDirectory : String := "dashboards"
  templateDirectory : String := "kibana_templates"
  links : List ChaincodeLink := []
  channels : List String := []
deriving DecidableEq, Repr

/-- Why there is no configuration, or no endpoint. -/
inductive ConfigError where
  | unreadable (path : String) (fault : FileFault)
  | malformed
  | invalidPeriod (source : InvalidPeriod)
  | unknownPeer (peer : String)
  | invalidUrl (source : UrlError)
deriving DecidableEq, Repr

namespace ConfigError

/-- The text of an error; a malformed document has none of its own. -/
def message? : ConfigError → Option String
  | unreadable path fault => some ("failed to read `" ++ path ++ "`: " ++ fault.message)
  | malformed => none
  | invalidPeriod source => some source.message
  | unknownPeer peer => some ("connection profile has no entry for peer `" ++ peer ++ "`")
  | invalidUrl source => some source.message

/-- The path at which a file is missing. -/
def missing? : ConfigError → Option String
  | unreadable path .notFound => some path
  | _ => none

def readText (files : Tree) (path : String) : Except ConfigError String :=
  match files.readText path with
  | .ok text => .ok text
  | .error fault => .error (.unreadable path fault)

end ConfigError

namespace Config

/-- The URL of a service on the same machine. -/
def localUrl (port : Nat) : Url :=
  { scheme := "http"
    authority := some ⟨"", none, .name "localhost", some port⟩
    path := .segments [""]
    query := none
    fragment := none }

/-- The configuration in which every field has its default. -/
def default : Config :=
  { storeUrl := localUrl 9200, dashboardUrl := localUrl 5601 }

/-- What the agent adds to the events it publishes. -/
def agent (config : Config) : Agent :=
  ⟨config.peer, config.organization, config.links⟩

/-- The names that each field has in a document. -/
def fieldNames : List (List String) :=
  [["period"], ["organization"], ["peer"], ["connectionProfile"], ["adminCertPath"],
    ["adminKeyPath"], ["elasticURL", "elasticUrl"], ["kibanaURL", "kibanaUrl"],
    ["blockIndexName"], ["transactionIndexName"], ["keyIndexName"], ["dashboardDirectory"],
    ["templateDirectory"], ["chaincodes"], ["channels"]]

open Yaml (Document Node)

/-- A period: a number of seconds or a text. -/
def period? (document : Document) (node : Node) : Option Period :=
  match document.follow node with
  | .scalar scalar =>
    match Yaml.Resolved.ofScalar? scalar with
    | some (.integer (.ofNat n)) => if n < UInt64.size then some (.seconds n) else none
    | some (.text text) => some (.text text)
    | _ => none
  | _ => none

def url? (document : Document) (node : Node) : Option Url :=
  (document.text? node).bind fun text => (Url.parse text).toOption

/-- The linking declaration of a chaincode. -/
def link? (document : Document) (node : Node) : Option ChaincodeLink := do
  match ← document.record? [["name"], ["linkingKey", "linking_key"], ["values"]] node with
  | [some name, some key, values] =>
    let values ← Document.fieldOr [] document.texts? values
    return ⟨← document.text? name, ← document.text? key, values⟩
  | _ => none

/-- The configuration that a document holds. -/
def ofDocument? (document : Document) : Option Config := do
  let text (fallback : String) := Document.fieldOr fallback document.text?
  let path? := Document.fieldOr none (document.optional? document.text?)
  let url (fallback : Url) := Document.fieldOr fallback (url? document)
  match ← document.record? fieldNames document.root with
  | [period, organization, peer, profile, certificate, key, store, dashboard, block, transaction,
      write, dashboards, templates, links, channels] =>
    return {
      period := ← Document.fieldOr default.period (period? document) period
      organization := ← text default.organization organization
      peer := ← text default.peer peer
      connectionProfile := ← text default.connectionProfile profile
      certificatePath := ← path? certificate
      keyPath := ← path? key
      storeUrl := ← url default.storeUrl store
      dashboardUrl := ← url default.dashboardUrl dashboard
      indexNames :=
        { block := ← text default.indexNames.block block
          transaction := ← text default.indexNames.transaction transaction
          key := ← text default.indexNames.key write }
      dashboardDirectory := ← text default.dashboardDirectory dashboards
      templateDirectory := ← text default.templateDirectory templates
      links := ← Document.fieldOr []
        (fun node => (document.items? node).bind fun items => items.mapM (link? document)) links
      channels := ← Document.fieldOr [] document.texts? channels }
  | _ => none

/-- The configuration that a text holds; its period has to be one. -/
def ofText (text : String) : Except ConfigError Config :=
  match (Document.ofText? text).bind ofDocument? with
  | none => .error .malformed
  | some config =>
    match config.period.span with
    | .ok _ => .ok config
    | .error e => .error (.invalidPeriod e)

/-- The configuration that a file holds. -/
def load (files : Tree) (path : String) : Except ConfigError Config := do
  ofText (← ConfigError.readText files path)

end Config

end LedgerIndex
