import LedgerIndex.Config.Basic

/-! # Configurations shown as JSON

The fields of a configuration under the names they have in a document. -/

namespace LedgerIndex

def Period.json : Period → Json
  | seconds count => .nat count
  | text t => .string t

def ChaincodeLink.json (link : ChaincodeLink) : Json :=
  .ofFields [("name", .string link.name), ("linkingKey", .string link.linkingKey),
    ("values", .ofStrings link.values)]

def IndexNames.json (names : IndexNames) : Json :=
  .ofFields [("block", .string names.block), ("transaction", .string names.transaction),
    ("key", .string names.key)]

def Config.json (config : Config) : Json :=
  .ofFields [("period", config.period.json), ("organization", .string config.organization),
    ("peer", .string config.peer), ("connectionProfile", .string config.connectionProfile),
    ("adminCertPath", .ofString? config.certificatePath),
    ("adminKeyPath", .ofString? config.keyPath), ("elasticURL", .string config.storeUrl.text),
    ("kibanaURL", .string config.dashboardUrl.text),
    ("blockIndexName", .string config.indexNames.block),
    ("transactionIndexName", .string config.indexNames.transaction),
    ("keyIndexName", .string config.indexNames.key),
    ("dashboardDirectory", .string config.dashboardDirectory),
    ("templateDirectory", .string config.templateDirectory),
    ("chaincodes", .array (config.links.map ChaincodeLink.json)),
    ("channels", .ofStrings config.channels)]

end LedgerIndex
