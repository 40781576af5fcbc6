import LedgerIndex.CommandLine.Options
import LedgerIndex.Config.Basic

/-! # Configuration on the command line

Options name the configuration file and override its fields. -/

namespace LedgerIndex.CommandLine

/-- The configuration file, if one is named, and the fields that are overridden. -/
structure Overrides where
  file : Option String
  period : Option String
  organization : Option String
  peer : Option String
  connectionProfile : Option String
  certificatePath : Option String
  keyPath : Option String
  storeUrl : Option Url
  dashboardUrl : Option Url
  channels : List String
deriving DecidableEq, Repr

namespace Overrides

def specs : List OptionSpec :=
  [⟨"config", .path, some "BLOCKSCOPE_CONFIG", false, false⟩,
    ⟨"period", .text, some "PERIOD", false, false⟩,
    ⟨"organization", .text, some "ORGANIZATION", false, false⟩,
    ⟨"peer", .text, some "PEER", false, false⟩,
    ⟨"connection-profile", .path, some "CONNECTION_PROFILE", false, false⟩,
    ⟨"admin-cert-path", .path, some "ADMIN_CERT_PATH", false, false⟩,
    ⟨"admin-key-path", .path, some "ADMIN_KEY_PATH", false, false⟩,
    ⟨"elastic-url", .url, some "ELASTIC_URL", false, false⟩,
    ⟨"kibana-url", .url, some "KIBANA_URL", false, false⟩,
    ⟨"channel", .text, some "CHANNELS", true, false⟩]

/-- What the values of the options say. -/
def ofValues (values : Values) : Overrides :=
  { file := values.text? "config"
    period := values.text? "period"
    organization := values.text? "organization"
    peer := values.text? "peer"
    connectionProfile := values.text? "connection-profile"
    certificatePath := values.text? "admin-cert-path"
    keyPath := values.text? "admin-key-path"
    storeUrl := values.url? "elastic-url"
    dashboardUrl := values.url? "kibana-url"
    channels := values.texts "channel" }

/-- A configuration with a period from the command line, which has to be one. -/
def applyPeriod (config : Config) : Option String → Except ConfigError Config
  | none => .ok config
  | some text =>
    match (Period.text text).span with
    | .ok _ => .ok { config with period := .text text }
    | .error e => .error (.invalidPeriod e)

/-- The configuration with the fields that are overridden. -/
def apply (overrides : Overrides) (config : Config) : Config :=
  { config with
    organization := overrides.organization.getD config.organization
    peer := overrides.peer.getD config.peer
    connectionProfile := overrides.connectionProfile.getD config.connectionProfile
    certificatePath := overrides.certificatePath.or config.certificatePath
    keyPath := overrides.keyPath.or config.keyPath
    storeUrl := overrides.storeUrl.getD config.storeUrl
    dashboardUrl := overrides.dashboardUrl.getD config.dashboardUrl
    channels := if overrides.channels = [] then config.channels else overrides.channels }

/-- The configuration in the file that is named, or the default one, with the fields that are
overridden. -/
def load (overrides : Overrides) (files : Tree) : Except ConfigError Config := do
  let config ← match overrides.file with
    | some path => Config.load files path
    | none => .ok Config.default
  return overrides.apply (← applyPeriod config overrides.period)

end Overrides

end LedgerIndex.CommandLine
