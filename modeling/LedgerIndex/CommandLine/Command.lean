import LedgerIndex.Block.Header
import LedgerIndex.CommandLine.Overrides
import LedgerIndex.Dashboard.Provision
import LedgerIndex.Ingest.Launch

/-! # Commands

The commands of the program: hashing a block header, showing a configuration, provisioning
dashboards, and running an agent. -/

namespace LedgerIndex.CommandLine

inductive Command where
  | blockHash (header : BlockHeader)
  | config (overrides : Overrides)
  | dashboards (overrides : Overrides)
  | start (overrides : Overrides) (store : StoreChoice)
deriving DecidableEq, Repr

namespace Command

/-- The options of the hash of a header. -/
def headerSpecs : List OptionSpec :=
  [⟨"number", .natural, none, false, true⟩, ⟨"previous-hash", .bytes, none, false, true⟩,
    ⟨"data-hash", .bytes, none, false, true⟩]

def storeSpecs : List OptionSpec :=
  [⟨"store", .choice ["elastic", "sqlite"], some "STORE", false, false⟩,
    ⟨"db-dir", .path, some "DB_DIR", false, false⟩]

/-- The header that the values of the options describe. -/
def headerOf (values : Values) : BlockHeader :=
  ⟨(values.natural? "number").getD 0, (values.bytes? "previous-hash").getD [],
    (values.bytes? "data-hash").getD []⟩

/-- The store that the values of the options choose. -/
def storeOf (values : Values) : StoreChoice :=
  match values.text? "store" with
  | some "sqlite" => .database (values.text? "db-dir")
  | _ => .search

/-- The command that words and an environment give. -/
def ofWords (environment : List (String × String)) : List String → Except UsageError Command
  | "block-hash" :: words => do
    return .blockHash (headerOf (← readOptions headerSpecs environment words))
  | "config" :: words => do
    return .config (.ofValues (← readOptions Overrides.specs environment words))
  | "dashboards" :: words => do
    return .dashboards (.ofValues (← readOptions Overrides.specs environment words))
  | "start" :: words => do
    let values ← readOptions (Overrides.specs ++ storeSpecs) environment words
    return .start (.ofValues values) (storeOf values)
  | [] => .error .missingRequiredArgument
  | _ => .error .unknownArgument

/-- The line that the hash of a header makes. -/
def hashLine (header : BlockHeader) : Except BlockNumberOverflow String :=
  header.hashText.map (· ++ "\n")

end Command

/-- Why provisioning from a configuration fails. -/
inductive ProvisionError where
  | config (source : ConfigError)
  | dashboard (source : DashboardError)
deriving DecidableEq, Repr

/-- The text of an error, where its source has one. -/
def ProvisionError.message? : ProvisionError → Option String
  | config source => source.message?
  | dashboard source => source.message?

/-- The path at which a file is missing. -/
def ProvisionError.missing? : ProvisionError → Option String
  | config source => source.missing?
  | dashboard source => source.missing?

/-- Provisions the dashboards of a configuration. -/
def provision (overrides : Overrides) (workspace : Workspace) :
    Except ProvisionError Dashboard.Report × Workspace :=
  match overrides.load workspace.files with
  | .error e => (.error (.config e), workspace)
  | .ok config =>
    let scope : Dashboard.Scope :=
      ⟨config.peer, config.organization, config.indexNames, config.links⟩
    match Dashboard.Provisioner.connect config.dashboardUrl config.templateDirectory
        config.dashboardDirectory scope with
    | .error e => (.error (.dashboard e), workspace)
    | .ok provisioner =>
      let (result, after) := provisioner.provision.run ⟨workspace.files, workspace.network⟩
      (result.mapError .dashboard,
        { workspace with files := after.files, network := after.network })

/-- Launches the daemon of a configuration. -/
def start (overrides : Overrides) (store : StoreChoice) (workspace : Workspace) :
    Except LaunchError Launch × Workspace :=
  match overrides.load workspace.files with
  | .error e => (.error (.config e), workspace)
  | .ok config => Launch.start config store workspace

end LedgerIndex.CommandLine
