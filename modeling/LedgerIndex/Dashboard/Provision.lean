import LedgerIndex.Dashboard.Placeholders
import LedgerIndex.Files.Tree
import LedgerIndex.Http.Exchange

/-! # Provisioning index patterns and dashboards

Index patterns are posted to the dashboard service, and dashboards are written to files, each made
from a template of its own.  One that exists already is as good as one that was made.  The work
ends with the first failure; what was written before stays. -/

namespace LedgerIndex

inductive DashboardError where
  | unreadable (path : String) (fault : FileFault)
  | indexPattern (name : String) (status : Nat) (body : String)
  | invalidBaseUrl (url : String)
  | request
deriving DecidableEq, Repr

/-- The text of an error; a request that did not come through has none of its own. -/
def DashboardError.message? : DashboardError → Option String
  | unreadable path fault => some ("failed to access `" ++ path ++ "`: " ++ fault.message)
  | indexPattern name status body =>
    some ("failed to create " ++ name ++ " index pattern: status code " ++ Decimal.text status
      ++ ": " ++ body)
  | invalidBaseUrl url => some ("URL `" ++ url ++ "` cannot be used as a base")
  | request => none

/-- The path at which a file is missing. -/
def DashboardError.missing? : DashboardError → Option String
  | unreadable path .notFound => some path
  | _ => none

namespace Dashboard

/-- The files and the network that provisioning works with. -/
structure Surroundings where
  files : Tree
  network : Http.Network
deriving DecidableEq, Repr

/-- Where templates come from, where dashboards go, and the service for the index patterns. -/
structure Provisioner where
  url : Url
  templateDirectory : String
  dashboardDirectory : String
  scope : Scope

/-- What was provisioned: the ids of the index patterns and the paths of the dashboards. -/
structure Report where
  indexPatterns : List String
  dashboards : List String
deriving DecidableEq, Repr

abbrev Step (α : Type) : Type :=
  ExceptT DashboardError (StateM Surroundings) α

namespace Provisioner

/-- A provisioner, whose service has to have a URL that can be the base of others. -/
def connect (url : Url) (templateDirectory dashboardDirectory : String) (scope : Scope) :
    Except DashboardError Provisioner :=
  if url.cannotBeABase then .error (.invalidBaseUrl url.text)
  else .ok ⟨url, templateDirectory, dashboardDirectory, scope⟩

def readTemplate (p : Provisioner) (name : String) : Step String := do
  let path := Path.join p.templateDirectory name
  match (← get).files.readText path with
  | .ok text => return text
  | .error fault => throw (.unreadable path fault)

/-- One exchange with the service. -/
def exchange (request : Http.Request) : Step Http.Reply :=
  modifyGet fun s =>
    let (reply, network) := s.network.exchange request
    (reply, { s with network := network })

/-- The statuses with which an index pattern is there. -/
def patternExists (status : Nat) : Bool :=
  status == 200 || status == 409

/-- The request that creates an index pattern. -/
def patternRequest (url : Url) (body : String) : Http.Request :=
  { method := .post
    url := url
    body := body
    contentType := some "application/json"
    crossSiteToken := some "true" }

/-- Creates the index pattern of a kind of event. -/
def createPattern (p : Provisioner) (kind : EventKind) : Step String := do
  let template ← p.readTemplate (kind.name ++ "-index-pattern-TEMPLATE.json")
  let id := p.scope.patternId kind
  match p.url.withSegments? ["api", "saved_objects", "index-pattern", id] with
  | none => throw (.invalidBaseUrl p.url.text)
  | some url =>
    let body := Template.render template (p.scope.patternSubstitutions kind)
    match ← exchange (patternRequest url body) with
    | .dropped => throw .request
    | .answered status body =>
      if patternExists status then return id
      else throw (.indexPattern kind.name status (Http.errorText body))

/-- Changes the files, or fails with the fault of a path. -/
def changeFiles (path : String) (change : Tree → Except FileFault Tree) : Step Unit := do
  match change (← get).files with
  | .ok files => modify fun s => { s with files := files }
  | .error fault => throw (.unreadable path fault)

def writeDashboard (p : Provisioner) (name : String) : Step String := do
  let template ← p.readTemplate (name ++ "-dashboard-TEMPLATE.json")
  let dashboard := Template.render template p.scope.dashboardSubstitutions
  changeFiles p.dashboardDirectory (·.createDirectory p.dashboardDirectory)
  let path := Path.join p.dashboardDirectory
    (name ++ "-" ++ p.scope.peer ++ "-" ++ p.scope.organization ++ ".json")
  changeFiles path (·.write path (Utf8.encode dashboard))
  return path

/-- Provisions all index patterns, and then all dashboards. -/
def provision (p : Provisioner) : Step Report := do
  let patterns ← patternKinds.mapM p.createPattern
  let dashboards ← dashboardNames.mapM p.writeDashboard
  return ⟨patterns, dashboards⟩

end Provisioner

end Dashboard

end LedgerIndex
