import LedgerIndex.Ingest.Site
import LedgerIndex.Proofs.Ingest.Safety

/-! # Exchanges of a session

Over a gateway and a search service a question of a program is one request, unless it has no URL.
An `Exchange` is such a question with its request and the reply; `Session.exchanges` records those
of a program.  The record is what the network holds (`Network.Since`), and the answers are what the
replies say, whatever these are: `Exchange.environment` lets any reply come back.

A record is `Orderly` if every request in it was allowed by what came before it, and came after
nothing but accepted replies. -/

namespace LedgerIndex

open Ingest

/-- The reply that the network gives to the request behind the next `index` ones. -/
def Http.Network.replyAt (network : Network) (index : Nat) : Reply :=
  match network.script with
  | none => .dropped
  | some replies => replies.getD index unscripted

/-- A question of a program with the request that it was and the reply that came back. -/
structure Exchange where
  query : Query
  request : Http.Request
  reply : Http.Reply

namespace Exchange

/-- The exchange of a question, if a request has come through since it was asked. -/
def ofQuery? (query : Query) (before after : Http.Network) : Option Exchange :=
  match after.requests.drop before.requests.length with
  | [request] => some ⟨query, request, before.replyAt 0⟩
  | _ => none

variable (gateway : GatewayLedger) (store : SearchStore)

/-- The request is that of the question. -/
def Sent (x : Exchange) : Prop :=
  match x.query with
  | .ledger q => ∃ url, gateway.url? q = some url ∧ x.request = { method := .get, url := url }
  | .store q => store.request? q = some x.request
  | _ => False

/-- The reply has a status of success and, where the answer is read from its body, can be read. -/
def Accepted (x : Exchange) : Prop :=
  ∃ status body, x.reply = .answered status body ∧ Http.isSuccess status = true ∧
    match x.query with
    | .ledger q => (GatewayLedger.readBody q body).isSome = true
    | .store q => (SearchStore.readBody q body).isSome = true
    | _ => True

/-- Any reply may come back to a request; a question without one fails. -/
def environment : Environment (List Exchange)
  | .ledger q, t, answer, t' => (∃ e, answer = .error e ∧ t' = t) ∨
      ∃ x : Exchange, x.query = .ledger q ∧ x.Sent gateway store ∧
        answer = GatewayLedger.read q x.reply ∧ t' = t ++ [x]
  | .store q, t, answer, t' => (∃ e, answer = .error e ∧ t' = t) ∨
      ∃ x : Exchange, x.query = .store q ∧ x.Sent gateway store ∧
        answer = SearchStore.read q x.reply ∧ t' = t ++ [x]
  | .cancelled, t, _, t' => t' = t
  | .report _, t, _, t' => t' = t

variable {gateway store} {x : Exchange}

theorem accepted_of_read_ledger {q : Ledger.Query} {value : q.Value} (hq : x.query = .ledger q)
    (h : GatewayLedger.read q x.reply = .ok value) :
    x.Accepted ∧ ∃ status body, x.reply = .answered status body ∧
      Http.isSuccess status = true ∧ GatewayLedger.readBody q body = some value := by
  unfold GatewayLedger.read at h
  split at h
  · cases h
  · rename_i status body hreply
    split at h
    · cases h
    · split at h
      · rename_i hsuccess
        split at h
        · rename_i found hfound
          cases h
          refine ⟨⟨status, body, hreply, hsuccess, ?_⟩, status, body, hreply, hsuccess, hfound⟩
          rw [hq]
          exact Option.isSome_of_eq_some hfound
        · cases h
      · cases h

/-- A store's answer comes from an accepted reply, or it says that nothing was found. -/
theorem accepted_of_read_store {q : Store.Query} {value : q.Value} (hq : x.query = .store q)
    (h : SearchStore.read q x.reply = .ok value) (hfound : SearchStore.notFound? q ≠ some value) :
    x.Accepted := by
  unfold SearchStore.read at h
  split at h
  · cases h
  · rename_i status body hreply
    split at h
    · rename_i nothing hnothing
      split at hnothing
      · cases h
        exact absurd hnothing hfound
      · cases hnothing
    · split at h
      · rename_i hsuccess
        split at h
        · rename_i found hread
          refine ⟨status, body, hreply, hsuccess, ?_⟩
          rw [hq]
          exact Option.isSome_of_eq_some hread
        · cases h
      · cases h

end Exchange

/-! ### The record of a session -/

/-- What the network has been through since `start`: these exchanges. -/
structure Http.Network.Since (start : Network) (exchanges : List Exchange) (network : Network) :
    Prop where
  requests : network.requests = start.requests ++ exchanges.map (·.request)
  script : network.script = start.script.map (·.drop exchanges.length)
  replies : exchanges.map (·.reply) = (List.range exchanges.length).map start.replyAt

namespace Http.Network

variable {start middle network : Network} {exchanges further : List Exchange}

theorem since_refl (start : Network) : Since start [] start := by
  refine ⟨by simp, ?_, rfl⟩
  cases start.script <;> rfl

theorem Since.replyAt (h : Since start exchanges network) (index : Nat) :
    network.replyAt index = start.replyAt (exchanges.length + index) := by
  unfold Network.replyAt
  rw [h.script]
  cases start.script with
  | none => rfl
  | some replies => simp [List.getD_eq_getElem?_getD, List.getElem?_drop]

theorem Since.trans (h : Since start exchanges middle) (h' : Since middle further network) :
    Since start (exchanges ++ further) network where
  requests := by rw [h'.requests, h.requests, List.map_append, List.append_assoc]
  script := by
    rw [h'.script, h.script]
    cases start.script with
    | none => rfl
    | some replies => simp
  replies := by
    rw [List.map_append, h.replies, h'.replies, List.length_append, List.range_add,
      List.map_append, List.map_map]
    congr 1
    exact List.map_congr_left fun index _ => h.replyAt index

theorem exchange_cases (network : Network) (query : Query) (request : Request) :
    ((network.exchange request).1 = .dropped ∧ (network.exchange request).2 = network) ∨
      Exchange.ofQuery? query network (network.exchange request).2
          = some ⟨query, request, (network.exchange request).1⟩ ∧
        network.Since [⟨query, request, (network.exchange request).1⟩]
          (network.exchange request).2 := by
  obtain ⟨script, requests⟩ := network
  cases script with
  | none => exact .inl ⟨rfl, rfl⟩
  | some replies =>
      refine .inr ?_
      cases replies <;> exact ⟨by simp [exchange, Exchange.ofQuery?, replyAt], rfl, rfl, rfl⟩

theorem ofQuery?_self (query : Query) (network : Network) :
    Exchange.ofQuery? query network network = none := by
  rw [Exchange.ofQuery?, List.drop_length]

end Http.Network

namespace Ingest.Session

/-- The world of a session, with a record of its exchanges. -/
def recorded : Program.World (Session × List Exchange)
  | query, (session, exchanges) =>
    let (answer, after) := world query session
    (answer, after, exchanges ++
      (Exchange.ofQuery? query session.site.network after.site.network).toList)

/-- The exchanges of a program in a session. -/
def exchanges {α : Type} (session : Session) (program : Program α) : List Exchange :=
  (program.run recorded (session, [])).2.2

theorem run_recorded {α : Type} (program : Program α) (session : Session)
    (exchanges : List Exchange) :
    (program.run recorded (session, exchanges)).1 = (session.run program).1 ∧
      (program.run recorded (session, exchanges)).2.1 = (session.run program).2 := by
  induction program generalizing session exchanges with
  | done result => exact ⟨rfl, rfl⟩
  | ask query next ih => exact ih _ _ _

end Ingest.Session

namespace Exchange

variable (gateway : GatewayLedger) (store : SearchStore) (start : Http.Network)

/-- The state of a session over a gateway and a search service that has had these exchanges since
`start`. -/
def Recorded (state : Session × List Exchange) (t : List Exchange) : Prop :=
  state.2 = t ∧ ∃ network, state.1.site = ⟨.gateway gateway, .search store, network⟩ ∧
    start.Since t network

variable {gateway store start} {t : List Exchange} {network : Http.Network}

/-- A question that is one request, if it has one, is answered as the environment lets it be and
recorded. -/
theorem record_query {ε α : Type} {query : Query} {read : Http.Reply → Except ε α}
    {request? : Option Http.Request} {refusal : ε} {answer : Except ε α × Http.Network}
    (hsince : start.Since t network) (hdropped : ∃ e, read .dropped = .error e)
    (hanswer : answer = match request? with
      | none => (.error refusal, network)
      | some request => (read (network.exchange request).1, (network.exchange request).2))
    (hsent : ∀ request reply, request? = some request →
      Sent gateway store ⟨query, request, reply⟩) :
    let t' := t ++ (ofQuery? query network answer.2).toList
    ((∃ e, answer.1 = .error e ∧ t' = t) ∨ ∃ x : Exchange, x.query = query ∧
      x.Sent gateway store ∧ answer.1 = read x.reply ∧ t' = t ++ [x]) ∧
    start.Since t' answer.2 := by
  intro t'
  cases request? with
  | none =>
      subst hanswer
      have ht' : t' = t := by simp [t', Http.Network.ofQuery?_self]
      exact ⟨.inl ⟨refusal, rfl, ht'⟩, ht' ▸ hsince⟩
  | some request =>
      subst hanswer
      rcases network.exchange_cases query request with ⟨hreply, hnetwork⟩ | ⟨hrecord, hstep⟩
      · have ht' : t' = t := by
          simp [t', hnetwork, Http.Network.ofQuery?_self]
        obtain ⟨e, he⟩ := hdropped
        refine ⟨.inl ⟨e, (congrArg read hreply).trans he, ht'⟩, ?_⟩
        rw [ht']
        show start.Since t (network.exchange request).2
        rw [hnetwork]
        exact hsince
      · have ht' : t' = t ++ [⟨query, request, (network.exchange request).1⟩] := by
          simp [t', hrecord]
        refine ⟨.inr ⟨_, rfl, hsent request _ rfl, rfl, ht'⟩, ?_⟩
        rw [ht']
        exact hsince.trans hstep

theorem within_recorded (gateway : GatewayLedger) (store : SearchStore) (start : Http.Network) :
    Session.recorded.Within (environment gateway store) (Recorded gateway store start) := by
  rintro query ⟨⟨site, channel, stopped, stopAt, calls, notices⟩, exchanges⟩ t
    ⟨rfl, network, rfl, hsince⟩
  cases query with
  | ledger q =>
      have hanswer : gateway.answer network q
          = match (gateway.url? q).map fun url => { method := .get, url := url } with
            | none => (.error (.invalidBaseUrl gateway.base.text), network)
            | some request => (GatewayLedger.read q (network.exchange request).1,
                (network.exchange request).2) := by
        unfold GatewayLedger.answer
        cases gateway.url? q <;> rfl
      have hdropped : ∃ e, GatewayLedger.read q .dropped = .error e := ⟨_, rfl⟩
      have hsent : ∀ request reply, (gateway.url? q).map (fun url =>
          ({ method := .get, url := url } : Http.Request)) = some request →
          Sent gateway store ⟨.ledger q, request, reply⟩ := by
        intro request reply hrequest
        obtain ⟨url, hurl, rfl⟩ := Option.map_eq_some_iff.mp hrequest
        exact ⟨url, hurl, rfl⟩
      obtain ⟨hstep, hafter⟩ := record_query hsince hdropped hanswer hsent
      exact ⟨_, hstep, rfl, _, rfl, hafter⟩
  | store q =>
      have hanswer : store.answer network q = match store.request? q with
          | none => (.error (.invalidBaseUrl store.base.text), network)
          | some request => (SearchStore.read q (network.exchange request).1,
              (network.exchange request).2) := by
        unfold SearchStore.answer
        cases store.request? q <;> rfl
      have hdropped : ∃ e, SearchStore.read q .dropped = .error e := ⟨_, rfl⟩
      have hsent : ∀ request reply, store.request? q = some request →
          Sent gateway store ⟨.store q, request, reply⟩ := fun _ _ hrequest => hrequest
      obtain ⟨hstep, hafter⟩ := record_query hsince hdropped hanswer hsent
      exact ⟨_, hstep, rfl, _, rfl, hafter⟩
  | cancelled =>
      refine ⟨exchanges, rfl, ?_, network, rfl, hsince⟩
      simp [Session.recorded, Session.world, Http.Network.ofQuery?_self]
  | report progress =>
      refine ⟨exchanges, rfl, ?_, network, rfl, hsince⟩
      simp [Session.recorded, Session.world, Http.Network.ofQuery?_self]

/-! ### Orderly records -/

def Clean (t : List Exchange) : Prop :=
  ∀ x ∈ t, x.Accepted

theorem clean_nil : Clean [] := fun _ h => absurd h List.not_mem_nil

theorem Clean.concat {x : Exchange} (h : Clean t) (hx : x.Accepted) : Clean (t ++ [x]) := by
  intro y hy
  rcases List.mem_append.mp hy with hy | hy
  · exact h y hy
  · rw [List.mem_singleton.mp hy]
    exact hx

/-- Every question was allowed by the exchanges before it, all of which were accepted. -/
inductive Orderly (gateway : GatewayLedger) (store : SearchStore)
    (may : List Exchange → Query → Prop) : List Exchange → Prop
  | nil : Orderly gateway store may []
  | concat {before : List Exchange} {x : Exchange} (h : Orderly gateway store may before)
      (hclean : Clean before) (hmay : may before x.query) (hsent : x.Sent gateway store) :
      Orderly gateway store may (before ++ [x])

variable {may : List Exchange → Query → Prop} {channel : String}

theorem Orderly.split (h : Orderly gateway store may t) :
    ∀ {before behind : List Exchange} {x : Exchange}, t = before ++ x :: behind →
      Clean before ∧ may before x.query ∧ x.Sent gateway store := by
  induction h with
  | nil => simp
  | @concat earlier last h hclean hmay hsent ih =>
      intro before behind x hsplit
      obtain ⟨-, rfl, rfl⟩ | ⟨front, -, hfront⟩ := split_concat hsplit
      · exact ⟨hclean, hmay, hsent⟩
      · exact ih hfront

/-- Safety over a gateway and a search service, of an attempt whose requests are all allowed. -/
abbrev Asks {α : Type} (gateway : GatewayLedger) (store : SearchStore)
    (may : List Exchange → Query → Prop) (good : α → List Exchange → Prop) (p : Attempt α)
    (t : List Exchange) : Prop :=
  Attempt.Safe (environment gateway store) (Orderly gateway store may) good (fun _ _ => True) p t

theorem asks_ledger {q : Ledger.Query} {good : q.Value → List Exchange → Prop}
    (ht : Orderly gateway store may t) (hclean : Clean t) (hmay : may t (.ledger q))
    (hgood : ∀ x value, x.query = .ledger q → GatewayLedger.read q x.reply = .ok value →
      Orderly gateway store may (t ++ [x]) → good value (t ++ [x])) :
    Asks gateway store may good (Attempt.ledger channel q) t := by
  refine Attempt.Safe.askLedger ht ?_
  rintro answer _ (⟨e, rfl, rfl⟩ | ⟨x, hquery, hsent, rfl, rfl⟩)
  · exact ⟨ht, nofun, fun _ _ => trivial⟩
  · have hnext : Orderly gateway store may (t ++ [x]) := ht.concat hclean (hquery ▸ hmay) hsent
    exact ⟨hnext, fun value hvalue => hgood x value hquery hvalue hnext, fun _ _ => trivial⟩

theorem asks_store {q : Store.Query} {good : q.Value → List Exchange → Prop}
    (ht : Orderly gateway store may t) (hclean : Clean t) (hmay : may t (.store q))
    (hgood : ∀ x value, x.query = .store q → SearchStore.read q x.reply = .ok value →
      Orderly gateway store may (t ++ [x]) → good value (t ++ [x])) :
    Asks gateway store may good (Attempt.store channel q) t := by
  refine Attempt.Safe.askStore ht ?_
  rintro answer _ (⟨e, rfl, rfl⟩ | ⟨x, hquery, hsent, rfl, rfl⟩)
  · exact ⟨ht, nofun, fun _ _ => trivial⟩
  · have hnext : Orderly gateway store may (t ++ [x]) := ht.concat hclean (hquery ▸ hmay) hsent
    exact ⟨hnext, fun value hvalue => hgood x value hquery hvalue hnext, fun _ _ => trivial⟩

theorem asks_fetch {number : Nat} {good : Block → List Exchange → Prop}
    (ht : Orderly gateway store may t) (hclean : Clean t)
    (hmay : may t (.ledger (.block channel number)))
    (hgood : ∀ x status body block, x.query = .ledger (.block channel number) →
      x.reply = .answered status body → Http.isSuccess status = true →
      Ingestor.decodeNumbered number body = .ok block → Clean (t ++ [x]) →
      Orderly gateway store may (t ++ [x]) → good block (t ++ [x])) :
    Asks gateway store may good (Ingestor.fetch channel number) t := by
  refine Attempt.Safe.bind (asks_ledger ht hclean hmay fun x value hquery hread hnext => ?_)
  obtain ⟨haccepted, status, body, hreply, hsuccess, hbody⟩ := accepted_of_read_ledger hquery hread
  obtain rfl : body = value := Option.some.inj hbody
  exact Attempt.Safe.ofExcept hnext (fun block hblock => hgood x status body block hquery hreply
    hsuccess hblock (hclean.concat haccepted) hnext) fun _ _ => trivial

theorem Orderly.sent (h : Orderly gateway store may t) : ∀ x ∈ t, x.Sent gateway store := by
  intro x hx
  obtain ⟨before, behind, hsplit⟩ := List.append_of_mem hx
  exact (h.split hsplit).2.2

/-- The exchanges of a safe program are orderly, and they are what the network has been through. -/
theorem exists_of_safe {α : Type} {post : α → List Exchange → Prop} {p : Program α}
    (h : Program.Safe (environment gateway store) (Orderly gateway store may) post p [])
    {session : Session} (hsite : session.site = ⟨.gateway gateway, .search store, network⟩) :
    ∃ after, (session.run p).2.site = ⟨.gateway gateway, .search store, after⟩ ∧
      network.Since (session.exchanges p) after ∧
      Orderly gateway store may (session.exchanges p) ∧
      post (session.run p).1 (session.exchanges p) := by
  obtain ⟨t, ⟨ht, after, hafter, hsince⟩, horderly, hpost⟩ := Program.Safe.run
    (within_recorded gateway store network)
    (Program.Safe.mono h fun _ _ horderly hpost => And.intro horderly hpost)
    (w := (session, [])) ⟨rfl, network, hsite, Http.Network.since_refl network⟩
  obtain ⟨hresult, hsession⟩ := Session.run_recorded p session []
  subst ht
  rw [hsession] at hafter
  rw [hresult] at hpost
  exact ⟨after, hafter, hsince, horderly, hpost⟩

end Exchange

end LedgerIndex
