import LedgerIndex.Dashboard.Template
import LedgerIndex.Event.Basic
import LedgerIndex.Event.Linking

/-! # Placeholders of index patterns and dashboards

The ids and titles that templates are filled with carry the peer and the organization, so that
several agents share one dashboard service without meeting. -/

namespace LedgerIndex.Dashboard

open Template

/-- What the ids and titles of one agent depend on. -/
structure Scope where
  peer : String
  organization : String
  indexNames : IndexNames
  links : List ChaincodeLink

/-- The kinds of event with an index pattern. -/
def patternKinds : List EventKind := [.block, .transaction, .write]

def dashboardNames : List String := ["overview", "block", "key", "transaction"]

def visualizationNames : List String :=
  ["block_count", "transaction_count", "transaction_per_organization",
    "transaction_count_timeline"]

def capitals (name : String) : String :=
  name.map Char.toUpper

/-- A name with a capital first letter. -/
def title (name : String) : String :=
  match name.toList with
  | c :: rest => String.ofList (c.toUpper :: rest)
  | [] => ""

namespace Scope

/-- The id of the index pattern of a kind of event. -/
def patternId (scope : Scope) (kind : EventKind) : String :=
  "fabricbeat-" ++ kind.name ++ "-" ++ scope.peer

def objectId (scope : Scope) (name object : String) : String :=
  name ++ "-" ++ object ++ "-" ++ scope.peer ++ "-" ++ scope.organization

def objectTitle (scope : Scope) (name object : String) : String :=
  title name ++ " " ++ object ++ " " ++ scope.peer ++ " (" ++ scope.organization ++ ")"

/-- The placeholders of the index pattern of a kind of event. -/
def patternSubstitutions (scope : Scope) (kind : EventKind) : List Substitution :=
  (dashboardNames.flatMap fun name =>
    [⟨capitals name ++ "_DASHBOARD_TEMPLATE_ID", scope.objectId name "dashboard"⟩,
      ⟨capitals name ++ "_SEARCH_TEMPLATE_ID", scope.objectId name "search"⟩,
      ⟨capitals name ++ "_VISUALIZATION_TEMPLATE_ID", scope.objectId name "visualization"⟩])
  ++ [⟨"INDEX_PATTERN_TEMPLATE_TITLE", scope.indexNames.indexFor kind⟩]

/-- The placeholder for the value fields of the chaincodes, and what it becomes. -/
def valueSubstitution (scope : Scope) : Substitution :=
  ⟨"\"VALUE_TEMPLATE\",", String.join ((scope.links.flatMap (·.values)).map fun value =>
    " \"value." ++ value ++ "\",")⟩

/-- The placeholders of every dashboard. -/
def dashboardSubstitutions (scope : Scope) : List Substitution :=
  (patternKinds.flatMap fun kind =>
    [⟨capitals kind.name ++ "_PATTERN", scope.patternId kind⟩,
      ⟨capitals kind.name ++ "_SEARCH_TEMPLATE_ID", scope.objectId kind.name "search"⟩,
      ⟨capitals kind.name ++ "_SEARCH_TEMPLATE_TITLE", scope.objectTitle kind.name "Search"⟩])
  ++ (visualizationNames.flatMap fun name =>
    [⟨capitals name ++ "_VISUALIZATION_TEMPLATE_ID", scope.objectId name "visualization"⟩,
      ⟨capitals name ++ "_VISUALIZATION_TEMPLATE_TITLE", scope.objectTitle name "Visualization"⟩])
  ++ (dashboardNames.flatMap fun name =>
    [⟨capitals name ++ "_DASHBOARD_TEMPLATE_ID", scope.objectId name "dashboard"⟩,
      ⟨capitals name ++ "_DASHBOARD_TEMPLATE_TITLE", scope.objectTitle name "Dashboard"⟩])
  ++ [scope.valueSubstitution]

end Scope

end LedgerIndex.Dashboard
