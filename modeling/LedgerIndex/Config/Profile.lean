import LedgerIndex.Config.Basic

/-! # Connection profiles

A connection profile lists the peers of a network.  `ConnectionProfile.endpoint` is where the
gateway of a peer is reached, and the certificate authority to trust there. -/

namespace LedgerIndex

/-- The certificate authority of a peer: a file, or the certificates themselves. -/
structure AuthorityEntry where
  path : Option String
  pem : Option String
deriving DecidableEq, Repr

/-- A peer: its own URL, that of its gateway where it is another one, and its certificate
authority. -/
structure PeerEntry where
  url : String
  gatewayUrl : Option String
  authority : Option AuthorityEntry
deriving DecidableEq, Repr

/-- The peers under their names, and the directory from which paths are seen. -/
structure ConnectionProfile where
  peers : List (String × PeerEntry)
  directory : String := ""
deriving DecidableEq, Repr

/-- Where the gateway of a peer is reached. -/
structure PeerEndpoint where
  url : Url
  authority : Option Bytes
deriving DecidableEq, Repr

namespace ConnectionProfile

open Yaml (Document Node)

/-- The certificate authority that a node describes. -/
def authority? (document : Document) (node : Node) : Option AuthorityEntry := do
  let text? := Document.fieldOr none (document.optional? document.text?)
  match ← document.record? [["path"], ["pem"]] node with
  | [path, pem] => return ⟨← text? path, ← text? pem⟩
  | _ => none

/-- The peer that a node describes. -/
def peer? (document : Document) (node : Node) : Option PeerEntry := do
  match ← document.record? [["url"], ["gatewayUrl"], ["tlsCACerts"]] node with
  | [some url, gateway, authority] =>
    return {
      url := ← document.text? url
      gatewayUrl := ← Document.fieldOr none (document.optional? document.text?) gateway
      authority := ← Document.fieldOr none (document.optional? (authority? document)) authority }
  | _ => none

/-- The peers of a map; of two equal names the last one counts. -/
def peers? (document : Document) (node : Node) : Option (List (String × PeerEntry)) := do
  let entries ← document.entries? node
  let peers ← entries.mapM fun (name, node) => (peer? document node).map (name, ·)
  return peers.foldl (fun peers (name, peer) => Entries.put name peer peers) []

/-- The profile that a document holds. -/
def ofDocument? (document : Document) : Option ConnectionProfile := do
  match ← document.record? [["peers"]] document.root with
  | [peers] => return { peers := ← Document.fieldOr [] (peers? document) peers }
  | _ => none

/-- The profile that a text holds. -/
def ofText (text : String) : Except ConfigError ConnectionProfile :=
  match (Document.ofText? text).bind ofDocument? with
  | some profile => .ok profile
  | none => .error .malformed

/-- The profile that a file holds; paths are seen from the directory of the file. -/
def load (files : Tree) (path : String) : Except ConfigError ConnectionProfile := do
  let profile ← ofText (← ConfigError.readText files path)
  return { profile with directory := Path.directory path }

/-- The web URL of a peer, whose own scheme may be that of remote calls. -/
def webUrl (url : String) : String :=
  match Search.after? "grpcs://".toList url.toList with
  | some rest => "https://" ++ String.ofList rest
  | none =>
    match Search.after? "grpc://".toList url.toList with
    | some rest => "http://" ++ String.ofList rest
    | none => url

/-- The URL of the gateway of a peer. -/
def gatewayUrl (peer : PeerEntry) : Except ConfigError Url :=
  match Url.parse (peer.gatewayUrl.getD (webUrl peer.url)) with
  | .ok url => .ok url
  | .error e => .error (.invalidUrl e)

/-- The certificate authority of a peer; the certificates themselves come before a file. -/
def authority (profile : ConnectionProfile) (files : Tree) (peer : PeerEntry) :
    Except ConfigError (Option Bytes) :=
  match peer.authority with
  | some ⟨_, some pem⟩ => .ok (some (Utf8.encode pem))
  | some ⟨some path, none⟩ =>
    let path := Path.join profile.directory path
    match files.read path with
    | .ok content => .ok (some content)
    | .error fault => .error (.unreadable path fault)
  | _ => .ok none

/-- Where the gateway of a peer is reached. -/
def endpoint (profile : ConnectionProfile) (files : Tree) (peer : String) :
    Except ConfigError PeerEndpoint := do
  match Entries.get? peer profile.peers with
  | none => throw (.unknownPeer peer)
  | some entry => return ⟨← gatewayUrl entry, ← profile.authority files entry⟩

end ConnectionProfile

/-- Where the gateway of the configured peer is reached. -/
def Config.endpoint (config : Config) (files : Tree) : Except ConfigError PeerEndpoint := do
  (← ConnectionProfile.load files config.connectionProfile).endpoint files config.peer

end LedgerIndex
