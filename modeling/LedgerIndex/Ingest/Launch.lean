import LedgerIndex.Config.Profile
import LedgerIndex.Ingest.Daemon

/-! # Launching a daemon

A daemon is made from a configuration: the gateway of the configured peer is its ledger, and a
search service or a database its store.  Databases are files that come into being when they are
opened. -/

namespace LedgerIndex

/-- Why a daemon cannot be launched. -/
inductive LaunchError where
  | config (source : ConfigError)
  | identity (path : String) (fault : FileFault)
  | gateway (source : GatewayLedger.SetupError)
  | store (source : StoreError)
  | databaseFile (fault : FileFault)
  | zeroPeriod
deriving DecidableEq, Repr

/-- The text of an error, where its source has one. -/
def LaunchError.message? : LaunchError → Option String
  | config source => source.message?
  | identity _ fault => some fault.message
  | gateway (.invalidBaseUrl url) => some ("URL `" ++ url ++ "` cannot be used as a base")
  | gateway .unusableCertificates => none
  | store source => source.message?
  | databaseFile fault => some fault.message
  | zeroPeriod => some Daemon.zeroPeriodMessage

/-- The path at which a file is missing. -/
def LaunchError.missing? : LaunchError → Option String
  | config source => source.missing?
  | identity path .notFound => some path
  | _ => none

/-- The kind of store: the configured search service, or a database in a directory. -/
inductive StoreChoice where
  | search
  | database (directory : Option String)
deriving DecidableEq, Repr

/-- The files, the databases under their places, and the network of an agent. -/
structure Workspace where
  files : Tree
  databases : List (List String × Tables) := []
  network : Http.Network
deriving DecidableEq, Repr

namespace Workspace

/-- The path of the database in a directory. -/
def databasePath (directory : Option String) : String :=
  match directory with
  | some directory => directory ++ "/blockscope.db"
  | none => "blockscope.db"

/-- The tables of the database at a path, which has none before it is opened. -/
def tables? (workspace : Workspace) (path : String) : Option Tables :=
  Entries.get? (Path.parts path) workspace.databases

/-- Opens the database at a path; a file that is there has to be empty or a database. -/
def openDatabase (workspace : Workspace) (path : String) :
    Except LaunchError (List String × Tables × Workspace) :=
  match workspace.files.place path with
  | .error fault => .error (.databaseFile fault)
  | .ok place =>
    match Entries.get? place workspace.databases with
    | some tables => .ok (place, tables, workspace)
    | none =>
      let opened := (place, ({} : Tables),
        { workspace with databases := Entries.put place {} workspace.databases })
      match workspace.files.entry? place with
      | none | some (.file []) => .ok opened
      | some _ => .error (.store .database)

end Workspace

namespace Config

/-- The identity that the agent presents, where both its files are configured. -/
def identity (config : Config) (files : Tree) : Except LaunchError (Option Bytes) := do
  match config.certificatePath, config.keyPath with
  | some certificatePath, some keyPath =>
    let certificate ← (files.read certificatePath).mapError (.identity certificatePath)
    let key ← (files.read keyPath).mapError (.identity keyPath)
    return some (Tls.joinIdentity certificate key)
  | _, _ => return none

/-- The client of the configured gateway. -/
def gateway (config : Config) (files : Tree) : Except LaunchError GatewayLedger := do
  let endpoint ← (config.endpoint files).mapError .config
  let identity ← config.identity files
  (GatewayLedger.connect endpoint.url endpoint.authority identity).mapError .gateway

end Config

/-- A daemon about to run, and what becomes of the workspace: the tables of its store go back to
their place. -/
structure Launch where
  daemon : Daemon
  workspace : Workspace
  database : Option (List String)

namespace Launch

/-- The store that is chosen, the place of its database, and the workspace after opening it. -/
def openStore (config : Config) (choice : StoreChoice) (workspace : Workspace) :
    Except LaunchError (StoreBackend × Option (List String) × Workspace) :=
  match choice with
  | .search => do
    let store ← (SearchStore.connect config.storeUrl config.peer config.indexNames).mapError .store
    return (.search store, none, workspace)
  | .database directory => do
    let (place, tables, workspace) ← workspace.openDatabase (Workspace.databasePath directory)
    return (.tables ⟨config.peer, config.indexNames⟩ tables, some place, workspace)

/-- Launches a daemon for a configuration that is loaded. -/
def start (config : Config) (choice : StoreChoice) (workspace : Workspace) :
    Except LaunchError Launch × Workspace :=
  match config.gateway workspace.files with
  | .error e => (.error e, workspace)
  | .ok gateway =>
    match openStore config choice workspace with
    | .error e => (.error e, workspace)
    | .ok (store, database, workspace) =>
      match config.period.span with
      | .error e => (.error (.config (.invalidPeriod e)), workspace)
      | .ok period =>
        let site : Site := ⟨.gateway gateway, store, workspace.network⟩
        match Daemon.start? config.agent config.channels period site none with
        | none => (.error .zeroPeriod, workspace)
        | some daemon => (.ok ⟨daemon, workspace, database⟩, workspace)

/-- The workspace after the daemon has run. -/
def after (launch : Launch) (daemon : Daemon) : Workspace :=
  let site := daemon.session.site
  let workspace := { launch.workspace with network := site.network }
  match launch.database, site.store with
  | some place, .tables _ tables =>
    { workspace with databases := Entries.put place tables workspace.databases }
  | _, _ => workspace

end Launch

end LedgerIndex
