import LedgerIndex.Proofs.Ingest.Bench
import LedgerIndex.Proofs.Ingest.Exchanges
import LedgerIndex.Proofs.Ledger.Gateway

/-! # A gateway in the place of a ledger in memory

An `Outpost` is an engine beside a ledger of any kind, a store of any kind and a network.  An
`Errand` is one thing that is asked of it, and its `Report` holds all that comes of it: the answer
or the result, every question that the engine asked with the answer it got, and the engine and the
store after it.

Over a network whose replies are those that the gateway documents for the content of a ledger, an
outpost at the gateway makes the same reports as one beside that ledger in memory
(`Outpost.interchangeable`). -/

namespace LedgerIndex

open Ingest GatewayLedger

inductive Errand where
  | list
  | reconcile (channel : String)
  | poll (channel : String) (stopped : Bool) (stopAt : Option Nat)

def Errand.channel? : Errand → Option String
  | .list => none
  | .reconcile channel | .poll channel _ _ => some channel

inductive Sighting where
  | listed (answer : Except LedgerError (List String))
  | called (result : Except IngestError Nat) (asked : List Asked)

/-- What is seen of an errand, with the engine and the store after it. -/
structure Report where
  sighting : Sighting
  engine : Engine
  store : StoreBackend

structure Outpost where
  engine : Engine
  site : Site

namespace Outpost

/-- A call to the engine on a channel. -/
def call (outpost : Outpost) (channel : String) (stopped : Bool) (stopAt : Option Nat)
    (program : Program (Except IngestError Nat × Engine)) : Sighting × Outpost :=
  let session : Session :=
    { site := outpost.site, channel := channel, stopped := stopped, stopAt := stopAt }
  let ran := session.run program
  (.called ran.1.1 (program.trace Session.world session), ⟨ran.1.2, ran.2.site⟩)

/-- What is seen of an errand, and the outpost after it. -/
def take (outpost : Outpost) : Errand → Sighting × Outpost
  | .list =>
    let (answer, site) := outpost.site.askLedger .channels
    (.listed answer, { outpost with site := site })
  | .reconcile channel =>
    outpost.call channel false none (outpost.engine.reconcile channel)
  | .poll channel stopped stopAt =>
    outpost.call channel stopped stopAt (outpost.engine.poll channel)

/-- The reports of some errands, and the outpost after them. -/
def run (outpost : Outpost) : List Errand → List Report × Outpost
  | [] => ([], outpost)
  | errand :: errands =>
    let (sighting, outpost) := outpost.take errand
    let (reports, last) := outpost.run errands
    (⟨sighting, outpost.engine, outpost.site.store⟩ :: reports, last)

theorem run_cons (outpost : Outpost) (errand : Errand) (errands : List Errand) :
    outpost.run (errand :: errands)
      = (⟨(outpost.take errand).1, (outpost.take errand).2.engine,
            (outpost.take errand).2.site.store⟩ :: ((outpost.take errand).2.run errands).1,
          ((outpost.take errand).2.run errands).2) := rfl

end Outpost

/-! ### Requests pile up -/

namespace Http.Network

theorem requests_exchange (network : Network) (request : Request) :
    network.requests <+: (network.exchange request).2.requests := by
  unfold exchange
  split
  · exact List.prefix_refl _
  · exact List.prefix_append ..
  · exact List.prefix_append ..

/-- A network that answers from a script, which it has taken up as far as it had requests. -/
def Follows (replies : List Reply) (network : Network) : Prop :=
  network.script = some (replies.drop network.requests.length)

variable {replies : List Reply} {network : Network}

theorem follows_scripted (replies : List Reply) : (scripted replies).Follows replies := rfl

/-- The next request gets the reply that the script has at its place. -/
theorem Follows.exchange (h : network.Follows replies) (request : Request) :
    (network.exchange request).1 = replies.getD network.requests.length unscripted ∧
      (network.exchange request).2.requests = network.requests ++ [request] ∧
      (network.exchange request).2.Follows replies := by
  unfold Follows at h
  cases hrest : replies.drop network.requests.length with
  | nil =>
      have hscript : network.script = some [] := h.trans (congrArg some hrest)
      have hend : replies.length ≤ network.requests.length := List.drop_eq_nil_iff.mp hrest
      have hexchange : network.exchange request
          = (unscripted, { network with requests := network.requests ++ [request] }) := by
        simp [Network.exchange, hscript]
      have hreply : replies.getD network.requests.length unscripted = unscripted := by
        rw [List.getD_eq_getElem?_getD, List.getElem?_eq_none hend, Option.getD_none]
      refine ⟨by rw [hexchange, hreply], by rw [hexchange], ?_⟩
      rw [hexchange]
      show network.script = some (replies.drop (network.requests ++ [request]).length)
      rw [hscript, List.drop_eq_nil_of_le (by simp; omega)]
  | cons reply rest =>
      have hscript : network.script = some (reply :: rest) := h.trans (congrArg some hrest)
      have hexchange : network.exchange request
          = (reply, ⟨some rest, network.requests ++ [request]⟩) := by
        simp [Network.exchange, hscript]
      have hat : replies[network.requests.length]? = some reply := by
        rw [← List.head?_drop, hrest, List.head?_cons]
      have hreply : replies.getD network.requests.length unscripted = reply := by
        rw [List.getD_eq_getElem?_getD, hat, Option.getD_some]
      have hbehind : replies.drop (network.requests ++ [request]).length = rest := by
        rw [List.length_append, List.length_singleton, ← List.tail_drop, hrest, List.tail_cons]
      refine ⟨by rw [hexchange, hreply], by rw [hexchange], ?_⟩
      rw [hexchange]
      show some rest = some (replies.drop (network.requests ++ [request]).length)
      rw [hbehind]

end Http.Network

theorem Site.askLedger_gateway {site : Site} {gateway : GatewayLedger}
    (h : site.ledger = .gateway gateway) (q : Ledger.Query) :
    site.askLedger q = ((gateway.answer site.network q).1,
      { site with network := (gateway.answer site.network q).2 }) := by
  obtain ⟨ledger, store, network⟩ := site
  obtain rfl : ledger = .gateway gateway := h
  rfl

theorem Site.requests_askLedger (site : Site) (q : Ledger.Query) :
    site.network.requests <+: (site.askLedger q).2.network.requests := by
  unfold Site.askLedger
  split
  · exact List.prefix_refl _
  · rename_i gateway _
    show site.network.requests <+: (gateway.answer site.network q).2.requests
    unfold GatewayLedger.answer
    split
    · exact List.prefix_refl _
    · exact site.network.requests_exchange _

theorem Site.requests_askStore (site : Site) (q : Store.Query) :
    site.network.requests <+: (site.askStore q).2.network.requests := by
  unfold Site.askStore
  split
  · exact List.prefix_refl _
  · exact List.prefix_refl _
  · rename_i store _
    show site.network.requests <+: (store.answer site.network q).2.requests
    unfold SearchStore.answer
    split
    · exact List.prefix_refl _
    · exact site.network.requests_exchange _

namespace Ingest.Session

theorem requests_world (q : Query) (session : Session) :
    session.site.network.requests <+: (world q session).2.site.network.requests := by
  cases q with
  | ledger q => exact session.site.requests_askLedger q
  | store q => exact session.site.requests_askStore q
  | cancelled => exact List.prefix_refl _
  | report progress => exact List.prefix_refl _

theorem requests_run {α : Type} (program : Program α) (session : Session) :
    session.site.network.requests
      <+: (program.run world session).2.site.network.requests := by
  induction program generalizing session with
  | done result => exact List.prefix_refl _
  | ask query next ih => exact (requests_world query session).trans (ih _ _)

end Ingest.Session

namespace Outpost

theorem requests_take (outpost : Outpost) (errand : Errand) :
    outpost.site.network.requests
      <+: (outpost.take errand).2.site.network.requests := by
  cases errand with
  | list => exact outpost.site.requests_askLedger .channels
  | reconcile channel =>
      exact Session.requests_run (outpost.engine.reconcile channel)
        { site := outpost.site, channel := channel, stopped := false, stopAt := none }
  | poll channel stopped stopAt =>
      exact Session.requests_run (outpost.engine.poll channel)
        { site := outpost.site, channel := channel, stopped := stopped, stopAt := stopAt }

theorem requests_run (outpost : Outpost) (errands : List Errand) :
    outpost.site.network.requests <+: (outpost.run errands).2.site.network.requests := by
  induction errands generalizing outpost with
  | nil => exact List.prefix_refl _
  | cons errand errands ih => exact (requests_take outpost errand).trans (ih _)

end Outpost

/-! ### Documented replies -/

/-- Each of the requests that a network has had gets the reply that the gateway documents. -/
def Http.Network.Honest (base : Url) (ledger : MemoryLedger) (replies : List Http.Reply)
    (network : Http.Network) : Prop :=
  ∀ index request, network.requests[index]? = some request →
    Documented base ledger request (replies.getD index Http.Network.unscripted)

theorem Http.Network.Honest.of_isPrefix {base : Url} {ledger : MemoryLedger}
    {replies : List Http.Reply} {network earlier : Http.Network}
    (h : network.Honest base ledger replies) (hearlier : earlier.requests <+: network.requests) :
    earlier.Honest base ledger replies := by
  intro index request hrequest
  obtain ⟨rest, hrest⟩ := hearlier
  have hindex : index < earlier.requests.length := (List.getElem?_eq_some_iff.mp hrequest).1
  refine h index request ?_
  rw [← hrest, List.getElem?_append_left hindex, hrequest]

variable {base : Url} {ledger : MemoryLedger} {replies : List Http.Reply} {q : Ledger.Query}

/-- **A documented exchange answers as the ledger does.** -/
theorem GatewayLedger.answer_documented (hbase : base.cannotBeABase = false)
    (havailable : ledger.unavailable = false) (hledger : ledger.Sized) (hq : Answerable ledger q)
    {network : Http.Network} (hscript : network.Follows replies)
    (hhonest : ((GatewayLedger.mk base).answer network q).2.Honest base ledger replies) :
    ((GatewayLedger.mk base).answer network q).1 = ledger.answer q ∧
      ((GatewayLedger.mk base).answer network q).2.Follows replies := by
  obtain ⟨url, hurl, hasks⟩ := asksFor_url hbase hq
  obtain ⟨hreply, hrequests, hnext⟩ := hscript.exchange { method := .get, url := url }
  have hanswer : (GatewayLedger.mk base).answer network q
      = (read q (network.exchange { method := .get, url := url }).1,
        (network.exchange { method := .get, url := url }).2) := by
    rw [GatewayLedger.answer, hurl]
  rw [hanswer] at hhonest ⊢
  have hdocumented := hhonest network.requests.length { method := .get, url := url } (by
    rw [hrequests]
    simp)
  rw [← hreply] at hdocumented
  refine ⟨?_, hnext⟩
  rw [MemoryLedger.answer, havailable]
  exact read_documented hledger hq hasks hdocumented

/-- A network that had the requests of some questions has had honest replies, if the script is the
replies that a gateway gives to these questions. -/
theorem Http.Network.honest_of_requests (hbase : base.cannotBeABase = false)
    {questions : List Ledger.Query} (hquestions : ∀ q ∈ questions, Answerable ledger q)
    {network : Http.Network}
    (hrequests : network.requests.map some = questions.map fun q =>
      ((GatewayLedger.mk base).url? q).map fun url => { method := .get, url := url }) :
    network.Honest base ledger (questions.map (replyTo ledger)) := by
  intro index request hrequest
  have hsent : (network.requests.map some)[index]? = some (some request) := by
    rw [List.getElem?_map, hrequest]
    rfl
  rw [hrequests, List.getElem?_map, Option.map_eq_some_iff] at hsent
  obtain ⟨q, hq, hsent⟩ := hsent
  obtain ⟨url, hurl, hasks⟩ := asksFor_url hbase (hquestions q (List.mem_of_getElem? hq))
  rw [hurl, Option.map_some, Option.some.injEq] at hsent
  rw [List.getD_eq_getElem?_getD, List.getElem?_map, hq, Option.map_some, Option.getD_some, ← hsent]
  exact documented_replyTo hasks

/-! ### Calls -/

/-- A session beside a ledger in memory and one at a gateway, over the same store in memory. -/
structure Counterparts (base : Url) (ledger : MemoryLedger) (replies : List Http.Reply)
    (here there : Session) : Prop where
  stopped : here.stopped = there.stopped
  stopAt : here.stopAt = there.stopAt
  ledger : here.site.ledger = .memory ledger
  gateway : there.site.ledger = .gateway ⟨base⟩
  store : ∃ store, here.site.store = .memory store ∧ there.site.store = .memory store
  script : there.site.network.Follows replies

variable {here there : Session} {agent : Agent} {channel : String}

/-- The questions that an ingestor of a channel may ask can be answered if the ledger has it. -/
theorem answerable_of_may (hchannel : (ledger.blocks? channel).isSome ∧ Url.Plain channel)
    (h : (Scope.anywhere agent channel).May (.ledger q)) : Answerable ledger q := by
  cases q with
  | channels => trivial
  | tipHeight other =>
      obtain rfl : other = channel := h
      exact hchannel
  | block other number =>
      obtain rfl : other = channel := h
      exact hchannel

/-- **A question does not tell such sessions apart**, if its request gets its documented reply. -/
theorem Counterparts.world (hbase : base.cannotBeABase = false)
    (havailable : ledger.unavailable = false) (hledger : ledger.Sized)
    (hchannel : (ledger.blocks? channel).isSome ∧ Url.Plain channel)
    (h : Counterparts base ledger replies here there) {query : Query}
    (hquery : (Scope.anywhere agent channel).May query)
    (hhonest : (Session.world query there).2.site.network.Honest base ledger replies) :
    (Session.world query here).1 = (Session.world query there).1 ∧
      Counterparts base ledger replies (Session.world query here).2
        (Session.world query there).2 := by
  obtain ⟨hstopped, hstopAt, hhere, hthere, ⟨store, hhereStore, hthereStore⟩, hscript⟩ := h
  cases query with
  | ledger q =>
      have hasked := Site.askLedger_gateway hthere q
      have hworld : (Session.world (.ledger q) there).2.site.network
          = ((GatewayLedger.mk base).answer there.site.network q).2 := by
        show (there.site.askLedger q).2.network = _
        rw [hasked]
      rw [hworld] at hhonest
      obtain ⟨hanswer, hfollows⟩ := answer_documented hbase havailable hledger
        (answerable_of_may hchannel hquery) hscript hhonest
      have hsets : here.setsStop q = there.setsStop q := by
        unfold Session.setsStop
        rw [hstopAt]
      rw [Session.world_ledger hhere]
      refine ⟨?_, ?_⟩
      · show ledger.answer q = (there.site.askLedger q).1
        rw [hasked, hanswer]
      · refine ⟨?_, hstopAt, hhere, ?_, ⟨store, hhereStore, ?_⟩, ?_⟩
        · show (here.stopped || here.setsStop q) = (there.stopped || there.setsStop q)
          rw [hstopped, hsets]
        · show (there.site.askLedger q).2.ledger = _
          rw [hasked]
          exact hthere
        · show (there.site.askLedger q).2.store = _
          rw [hasked]
          exact hthereStore
        · rw [hworld]
          exact hfollows
  | store q =>
      rw [Session.world_store_memory hhereStore, Session.world_store_memory hthereStore]
      exact ⟨rfl, hstopped, hstopAt, hhere, hthere, ⟨_, rfl, rfl⟩, hscript⟩
  | cancelled =>
      exact ⟨hstopped, hstopped, hstopAt, hhere, hthere, ⟨store, hhereStore, hthereStore⟩, hscript⟩
  | report progress =>
      exact ⟨rfl, hstopped, hstopAt, hhere, hthere, ⟨store, hhereStore, hthereStore⟩, hscript⟩

/-- **Neither does a program**, if all its requests do. -/
theorem Counterparts.run (hbase : base.cannotBeABase = false)
    (havailable : ledger.unavailable = false) (hledger : ledger.Sized)
    (hchannel : (ledger.blocks? channel).isSome ∧ Url.Plain channel) {α : Type}
    {post : α → List Asked → Prop} {program : Program α} {asked : List Asked}
    (hsafe : Program.Safe (recording (Scope.anywhere agent channel).possible)
      (Scope.anywhere agent channel).Fine post program asked)
    (h : Counterparts base ledger replies here there)
    (hhonest : (program.run Session.world there).2.site.network.Honest base ledger replies) :
    Program.Matched (Counterparts base ledger replies) program Session.world here Session.world
        there ∧
      ∃ asked, post (program.run Session.world here).1 asked := by
  induction program generalizing asked here there with
  | done result => exact ⟨⟨rfl, rfl, h⟩, asked, hsafe.2⟩
  | ask query next ih =>
      obtain ⟨answer, hanswer⟩ := Scope.exists_possible (Scope.anywhere agent channel) query
      have hquery : (Scope.anywhere agent channel).May query :=
        (hsafe.2 answer _ ⟨hanswer, rfl⟩).start.may_last
      have hearlier : (Session.world query there).2.site.network.Honest base ledger replies :=
        hhonest.of_isPrefix (Session.requests_run _ _)
      obtain ⟨heq, hnext⟩ := h.world hbase havailable hledger hchannel hquery hearlier
      have hafter := hsafe.2 (Session.world query here).1 _
        ⟨Scope.possible_anywhere agent channel query _, rfl⟩
      have hhonestNext : (((next (Session.world query here).1).run Session.world
          (Session.world query there).2).2.site.network).Honest base ledger replies := by
        rw [heq]
        exact hhonest
      obtain ⟨⟨hresult, htrace, hstates⟩, hpost⟩ := ih _ hafter hnext hhonestNext
      refine ⟨⟨?_, ?_, ?_⟩, hpost⟩
      · rw [Program.run_ask next heq.symm]
        exact hresult
      · rw [Program.trace_ask next heq.symm, ← htrace]
        rfl
      · rw [Program.run_ask next heq.symm]
        exact hstates

/-! ### Errands -/

namespace Outpost

/-- An outpost beside a ledger in memory and one at a gateway, with the same engine and store. -/
structure Twins (base : Url) (ledger : MemoryLedger) (replies : List Http.Reply)
    (here there : Outpost) : Prop where
  engine : here.engine = there.engine
  proper : here.engine.Proper fun _ => True
  ledger : here.site.ledger = .memory ledger
  gateway : there.site.ledger = .gateway ⟨base⟩
  store : ∃ store, here.site.store = .memory store ∧ there.site.store = .memory store
  script : there.site.network.Follows replies

variable {here there : Outpost}

theorem Twins.counterparts (h : Twins base ledger replies here there) (channel : String)
    (stopped : Bool) (stopAt : Option Nat) :
    Counterparts base ledger replies
      { site := here.site, channel := channel, stopped := stopped, stopAt := stopAt }
      { site := there.site, channel := channel, stopped := stopped, stopAt := stopAt } :=
  ⟨rfl, rfl, h.ledger, h.gateway, h.store, h.script⟩

theorem call_onChannel_none {outpost : Outpost}
    {step : Ingestor → Program (Except IngestError Nat × Ingestor)} {stopped : Bool}
    {stopAt : Option Nat} (h : outpost.engine.ingestor? channel = none) :
    outpost.call channel stopped stopAt (outpost.engine.onChannel channel step)
      = (.called (.error (.unknownChannel channel)) [], outpost) := by
  have hprogram : outpost.engine.onChannel channel step
      = pure (.error (.unknownChannel channel), outpost.engine) := by
    rw [Engine.onChannel, h]
  rw [call, hprogram]
  rfl

theorem call_onChannel_some {outpost : Outpost} {ingestor : Ingestor}
    {step : Ingestor → Program (Except IngestError Nat × Ingestor)} {stopped : Bool}
    {stopAt : Option Nat} (h : outpost.engine.ingestor? channel = some ingestor) :
    let session : Session :=
      { site := outpost.site, channel := channel, stopped := stopped, stopAt := stopAt }
    outpost.call channel stopped stopAt (outpost.engine.onChannel channel step)
      = (.called (session.run (step ingestor)).1.1 ((step ingestor).trace Session.world session),
        ⟨⟨Entries.put channel (session.run (step ingestor)).1.2 outpost.engine.ingestors⟩,
          (session.run (step ingestor)).2.site⟩) := by
  intro session
  have hprogram : outpost.engine.onChannel channel step = step ingestor >>= fun r =>
      pure (r.1, ⟨Entries.put channel r.2 outpost.engine.ingestors⟩) := by
    rw [Engine.onChannel, h]
  rw [call, hprogram, Session.run, Program.run_bind, Program.trace_bind, Program.trace_pure,
    List.append_nil]
  rfl

theorem Twins.call (hbase : base.cannotBeABase = false) (havailable : ledger.unavailable = false)
    (hledger : ledger.Sized) (hchannel : (ledger.blocks? channel).isSome ∧ Url.Plain channel)
    (h : Twins base ledger replies here there)
    {step : Ingestor → Program (Except IngestError Nat × Ingestor)}
    (hstep : Ingestor.Asking (fun _ => True) step) {stopped : Bool} {stopAt : Option Nat}
    (hhonest : (there.call channel stopped stopAt
      (there.engine.onChannel channel step)).2.site.network.Honest base ledger replies) :
    (here.call channel stopped stopAt (here.engine.onChannel channel step)).1
        = (there.call channel stopped stopAt (there.engine.onChannel channel step)).1 ∧
      Twins base ledger replies
        (here.call channel stopped stopAt (here.engine.onChannel channel step)).2
        (there.call channel stopped stopAt (there.engine.onChannel channel step)).2 := by
  have hcounterparts := h.counterparts channel stopped stopAt
  obtain ⟨hengine, hproper, hhere, hthere, hstore, hscript⟩ := h
  cases hingestor : here.engine.ingestor? channel with
  | none =>
      rw [call_onChannel_none hingestor, call_onChannel_none (hengine ▸ hingestor)]
      exact ⟨rfl, hengine, hproper, hhere, hthere, hstore, hscript⟩
  | some ingestor =>
      obtain ⟨rfl, -⟩ := hproper channel ingestor hingestor
      have hthereIngestor : there.engine.ingestor? ingestor.channel = some ingestor :=
        hengine ▸ hingestor
      rw [call_onChannel_some hthereIngestor] at hhonest
      obtain ⟨hmatched, -, cursor, hcursor⟩ := hcounterparts.run hbase havailable hledger hchannel
        (hstep ingestor) hhonest
      obtain ⟨-, -, hhereAfter, hthereAfter, hstoreAfter, hscriptAfter⟩ := hmatched.states
      have hresult := hmatched.result
      rw [call_onChannel_some hingestor, call_onChannel_some hthereIngestor]
      simp only [Session.run]
      rw [← hresult, ← hmatched.trace]
      refine ⟨rfl, ?_, ?_, hhereAfter, hthereAfter, hstoreAfter, hscriptAfter⟩
      · show Engine.mk _ = Engine.mk _
        rw [hengine]
      · exact hproper.put (by rw [hcursor]) trivial

/-- **An errand is the same beside the ledger and at the gateway.** -/
theorem Twins.take (hbase : base.cannotBeABase = false) (havailable : ledger.unavailable = false)
    (hledger : ledger.Sized) (h : Twins base ledger replies here there) {errand : Errand}
    (herrand : ∀ channel, errand.channel? = some channel →
      (ledger.blocks? channel).isSome ∧ Url.Plain channel)
    (hhonest : (there.take errand).2.site.network.Honest base ledger replies) :
    (here.take errand).1 = (there.take errand).1 ∧
      Twins base ledger replies (here.take errand).2 (there.take errand).2 := by
  cases errand with
  | list =>
      obtain ⟨hengine, hproper, hhere, hthere, hstore, hscript⟩ := h
      have hhereAsked : here.site.askLedger .channels = (ledger.answer .channels, here.site) := by
        rw [Site.askLedger, hhere]
      have hthereAsked := Site.askLedger_gateway hthere .channels
      simp only [Outpost.take, hhereAsked, hthereAsked] at hhonest ⊢
      obtain ⟨hanswer, hfollows⟩ := answer_documented (q := .channels) hbase havailable hledger
        trivial hscript hhonest
      exact ⟨by rw [hanswer], hengine, hproper, hhere, hthere, hstore, hfollows⟩
  | reconcile channel =>
      exact h.call hbase havailable hledger (herrand channel rfl)
        (Ingestor.asking_reconcile _) hhonest
  | poll channel stopped stopAt =>
      exact h.call hbase havailable hledger (herrand channel rfl) (Ingestor.asking_poll _) hhonest

theorem Twins.run (hbase : base.cannotBeABase = false) (havailable : ledger.unavailable = false)
    (hledger : ledger.Sized) (h : Twins base ledger replies here there) {errands : List Errand}
    (herrands : ∀ errand ∈ errands, ∀ channel, errand.channel? = some channel →
      (ledger.blocks? channel).isSome ∧ Url.Plain channel)
    (hhonest : (there.run errands).2.site.network.Honest base ledger replies) :
    (here.run errands).1 = (there.run errands).1 := by
  induction errands generalizing here there with
  | nil => rfl
  | cons errand errands ih =>
      obtain ⟨herrand, herrands⟩ := List.forall_mem_cons.mp herrands
      have hearlier : (there.take errand).2.site.network.Honest base ledger replies :=
        hhonest.of_isPrefix (requests_run _ _)
      obtain ⟨hsighting, htwins⟩ := h.take hbase havailable hledger herrand hearlier
      obtain ⟨store, hhereStore, hthereStore⟩ := htwins.store
      have hrest := ih htwins herrands hhonest
      rw [run_cons, run_cons, hsighting, htwins.engine, hrest, hhereStore, hthereStore]

/-- **A gateway and a ledger in memory are interchangeable.**  As long as every request gets the
reply that the gateway documents for what the ledger holds, errands on channels of the ledger have
the same reports: the same answers, results and cursors, and the same store after each of them. -/
theorem interchangeable (hbase : base.cannotBeABase = false) {ledger : MemoryLedger}
    (havailable : ledger.unavailable = false) (hledger : ledger.Sized) {engine : Engine}
    (hengine : engine.Proper fun _ => True) {store : MemoryStore} {errands : List Errand}
    (herrands : ∀ errand ∈ errands, ∀ channel, errand.channel? = some channel →
      (ledger.blocks? channel).isSome ∧ Url.Plain channel) {replies : List Http.Reply}
    (hhonest : (Outpost.run ⟨engine, .gateway ⟨base⟩, .memory store, .scripted replies⟩
      errands).2.site.network.Honest base ledger replies) :
    (Outpost.run ⟨engine, .memory ledger, .memory store, .unreachable⟩ errands).1
      = (Outpost.run ⟨engine, .gateway ⟨base⟩, .memory store, .scripted replies⟩ errands).1 :=
  have htwins : Twins base ledger replies
      ⟨engine, .memory ledger, .memory store, .unreachable⟩
      ⟨engine, .gateway ⟨base⟩, .memory store, .scripted replies⟩ :=
    ⟨rfl, hengine, rfl, rfl, ⟨store, rfl, rfl⟩, Http.Network.follows_scripted replies⟩
  htwins.run hbase havailable hledger herrands hhonest

namespace Sample

open Deployment.Sample (first)

/-- The URL `http://gateway/api/`. -/
def gateway : Url :=
  ⟨"http", some ⟨"", none, .name "gateway", none⟩, .segments ["api", ""], none, none⟩

/-- A ledger of one block, on a channel whose name a path has to encode. -/
def held : MemoryLedger := ⟨[("ä/%2e", [first])], false⟩

def started : Engine := Engine.start Deployment.Sample.agent ["ä/%2e"]

def errands : List Errand := [.list, .reconcile "ä/%2e", .poll "ä/%2e" false none]

/-- The questions to the ledger that these errands take. -/
def questions : List Ledger.Query := [.channels, .tipHeight "ä/%2e", .block "ä/%2e" 0]

theorem sized_held : held.Sized := by
  intro channel blocks h
  by_cases hchannel : "ä/%2e" = channel
  · have hblocks : [first] = blocks := by
      simpa [held, MemoryLedger.blocks?, Entries.get?, hchannel] using h
    rw [← hblocks]
    decide
  · simp [held, MemoryLedger.blocks?, Entries.get?, hchannel] at h

end Sample

open Sample in
/-- One block is listed, found and published alike. -/
theorem interchangeable_one_block :
    let here := Outpost.run ⟨started, .memory held, .memory {}, .unreachable⟩ errands
    let there := Outpost.run
      ⟨started, .gateway ⟨gateway⟩, .memory {}, .scripted (questions.map (replyTo held))⟩ errands
    (gateway.cannotBeABase = false ∧ held.unavailable = false ∧ held.Sized ∧
      there.2.site.network.requests.length = 3 ∧
      there.2.site.network.Honest gateway held (questions.map (replyTo held)) ∧
      (there.2.engine.cursor? "ä/%2e").map (·.next) = some 1) ∧ here.1 = there.1 := by
  intro here there
  have herrands : ∀ errand ∈ errands, ∀ channel, errand.channel? = some channel →
      (held.blocks? channel).isSome ∧ Url.Plain channel := by
    simp [errands, Errand.channel?, held, MemoryLedger.blocks?, Entries.get?]
    decide
  have hquestions : ∀ q ∈ questions, Answerable held q := by
    have hchannel : (held.blocks? "ä/%2e").isSome ∧ Url.Plain "ä/%2e" := by decide
    simpa [questions, Answerable] using hchannel
  have hhonest : there.2.site.network.Honest gateway held (questions.map (replyTo held)) :=
    Http.Network.honest_of_requests rfl hquestions (by decide +kernel)
  exact ⟨⟨rfl, rfl, sized_held, by decide +kernel, hhonest, by decide +kernel⟩,
    interchangeable rfl rfl sized_held (Engine.proper_start trivial _) herrands hhonest⟩

end Outpost

end LedgerIndex
