import LedgerIndex.Text.Utf8
import LedgerIndex.Url.Extend

/-! # Exchanges over HTTP

A request goes out and one reply comes back, or none because the connection was dropped.  A
`Network` is where the replies come from: a script of replies that are taken in order, behind whose
end every request fails with status 500, or nothing at all, so that every connection is dropped. -/

namespace LedgerIndex.Http

inductive Method where
  | get
  | post
  | put
deriving DecidableEq, Repr

def Method.name : Method → String
  | get => "GET"
  | post => "POST"
  | put => "PUT"

/-- A request; an empty body is no body. -/
structure Request where
  method : Method
  url : Url
  body : String := ""
  contentType : Option String := none
  crossSiteToken : Option String := none
deriving DecidableEq, Repr

inductive Reply where
  | dropped
  | answered (status : Nat) (body : Bytes)
deriving DecidableEq, Repr

def isSuccess (status : Nat) : Bool :=
  200 ≤ status && status < 300

/-- The body of an error, as text. -/
def errorText (body : Bytes) : String :=
  Utf8.lossy body

/-- Where replies come from, and the requests that came through, oldest first. -/
structure Network where
  script : Option (List Reply)
  requests : List Request
deriving DecidableEq, Repr

namespace Network

/-- A network that answers from a script. -/
def scripted (replies : List Reply) : Network := ⟨some replies, []⟩

/-- A network without connections. -/
def unreachable : Network := ⟨none, []⟩

/-- The reply behind the end of a script. -/
def unscripted : Reply :=
  .answered 500 (Utf8.encode "unscripted")

def exchange (network : Network) (request : Request) : Reply × Network :=
  match network.script with
  | none => (.dropped, network)
  | some [] => (unscripted, { network with requests := network.requests ++ [request] })
  | some (reply :: rest) => (reply, ⟨some rest, network.requests ++ [request]⟩)

end Network

end LedgerIndex.Http
