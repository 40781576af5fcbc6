import LedgerIndex.Url.Host

/-! # URLs

A URL in parts: scheme, authority, path, query and fragment, each part as it is written, special
characters encoded.  The path is a list of segments, or an opaque text for a URL that cannot be the
base of others. -/

namespace LedgerIndex

/-- The part of a URL that says where to connect, and as whom. -/
structure Authority where
  username : String
  password : Option String
  host : Host
  port : Option Nat
deriving DecidableEq, Repr

inductive UrlPath where
  | segments (list : List String)
  | opaqueText (text : String)
deriving DecidableEq, Repr

structure Url where
  scheme : String
  authority : Option Authority
  path : UrlPath
  query : Option String
  fragment : Option String
deriving DecidableEq, Repr

namespace Url

/-- The schemes whose URLs always have a host and a path. -/
def specialSchemes : List String := ["http", "https", "ws", "wss", "ftp", "file"]

def isSpecialScheme (scheme : String) : Bool :=
  specialSchemes.contains scheme

/-- The port that a scheme stands for. -/
def defaultPort? (scheme : String) : Option Nat :=
  match scheme with
  | "http" | "ws" => some 80
  | "https" | "wss" => some 443
  | "ftp" => some 21
  | _ => none

/-- A URL with an opaque path cannot be the base of others. -/
def cannotBeABase (url : Url) : Bool :=
  match url.path with
  | .opaqueText _ => true
  | .segments _ => false

def authorityText (a : Authority) : String :=
  let credentials :=
    match a.password with
    | some password => a.username ++ ":" ++ password ++ "@"
    | none => if a.username = "" then "" else a.username ++ "@"
  let port := match a.port with
    | some port => ":" ++ Decimal.text port
    | none => ""
  credentials ++ String.ofList a.host.chars ++ port

def pathText : UrlPath → String
  | .segments list => String.join (list.map ("/" ++ ·))
  | .opaqueText text => text

/-- The text of a URL.  A path without authority that begins with an empty segment is kept apart
from an authority by a point. -/
def text (url : Url) : String :=
  let front := match url.authority, url.path with
    | some a, _ => "//" ++ authorityText a
    | none, .segments ("" :: _ :: _) => "/."
    | none, _ => ""
  let query := match url.query with
    | some query => "?" ++ query
    | none => ""
  let fragment := match url.fragment with
    | some fragment => "#" ++ fragment
    | none => ""
  url.scheme ++ ":" ++ front ++ pathText url.path ++ query ++ fragment

end Url

end LedgerIndex
