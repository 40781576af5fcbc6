import LedgerIndex.Ingest.Notices
import LedgerIndex.Ledger.Gateway
import LedgerIndex.Ledger.Memory
import LedgerIndex.Store.Memory
import LedgerIndex.Store.Search
import LedgerIndex.Store.Table

/-! # Where programs run

A `Site` is a ledger and a store, each of one of the kinds that this library knows, and the network
between them and the agent.  A `Session` is a site together with what is observed of the program
that runs on one channel: the questions it asks the ledger, and its notifications. -/

namespace LedgerIndex

inductive LedgerBackend where
  | memory (ledger : MemoryLedger)
  | gateway (gateway : GatewayLedger)

inductive StoreBackend where
  | memory (store : MemoryStore)
  | tables (view : TableStore) (tables : Tables)
  | search (store : SearchStore)

/-- A ledger, a store and a network. -/
structure Site where
  ledger : LedgerBackend
  store : StoreBackend
  network : Http.Network

namespace Site

def askLedger (site : Site) (q : Ledger.Query) : q.Answer × Site :=
  match site.ledger with
  | .memory ledger => (ledger.answer q, site)
  | .gateway gateway =>
    let (answer, network) := gateway.answer site.network q
    (answer, { site with network := network })

def askStore (site : Site) (q : Store.Query) : q.Answer × Site :=
  match site.store with
  | .memory store =>
    let (answer, store) := store.answer q
    (answer, { site with store := .memory store })
  | .tables view tables =>
    let (answer, tables) := view.answer tables q
    (answer, { site with store := .tables view tables })
  | .search store =>
    let (answer, network) := store.answer site.network q
    (answer, { site with network := network })

end Site

namespace Ingest

/-- A site with what is observed of a program on one channel.  The program is told to stop when
`stopped` is set; fetching the block `stopAt` sets it. -/
structure Session where
  site : Site
  channel : String
  stopped : Bool := false
  stopAt : Option Nat := none
  calls : List Ledger.Query := []
  notices : Option Notices := none

namespace Session

/-- The question that sets the request to stop. -/
def setsStop (session : Session) : Ledger.Query → Bool
  | .block _ number => session.stopAt == some number
  | _ => false

def world : Program.World Session
  | .ledger q, session =>
    let (answer, site) := session.site.askLedger q
    (answer, { session with
      site := site
      stopped := session.stopped || session.setsStop q
      calls := session.calls ++ [q] })
  | .store q, session =>
    let (answer, site) := session.site.askStore q
    (answer, { session with site := site })
  | .cancelled, session => (session.stopped, session)
  | .report progress, session =>
    ((), { session with
      notices := session.notices.map fun notices => notices.send session.channel progress })

/-- A session for the work on another channel. -/
def on (session : Session) (channel : String) : Session :=
  { session with channel := channel }

/-- Carries out a program in a session. -/
def run {α : Type} (session : Session) (program : Program α) : α × Session :=
  program.run world session

end Session

end Ingest

end LedgerIndex
