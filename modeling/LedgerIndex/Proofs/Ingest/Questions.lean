import LedgerIndex.Proofs.Event.OfBlock
import LedgerIndex.Proofs.Ingest.Steps
import LedgerIndex.Proofs.Ingest.Trace
import LedgerIndex.Proofs.Der

/-! # What an ingestor asks

An ingestor asks about its own channel only.  The events it publishes carry its agent's origin on
that channel, and no number that it writes is greater than a header encoding holds: `Scope.May`.
When it looks for a request to stop and there is one, it asks nothing more: `Scope.Fine`.  Both hold
of a reconciliation and of a poll in every environment (`Scope.safe_reconcile`, `Scope.safe_poll`),
the second relative to the numbers that the store has as checkpoints. -/

namespace LedgerIndex

open Ingest

/-- Whose questions are looked at, and which numbers the store may answer as a checkpoint. -/
structure Scope where
  agent : Agent
  channel : String
  recorded : Nat → Prop

namespace Scope

/-- The questions that an ingestor may ask. -/
def May (scope : Scope) : Query → Prop
  | .ledger .channels => False
  | .ledger (.tipHeight channel) => channel = scope.channel
  | .ledger (.block channel _) => channel = scope.channel
  | .store (.checkpoint channel) => channel = scope.channel
  | .store (.blockHash channel number) => channel = scope.channel ∧ scope.recorded number
  | .store (.putCheckpoint channel number) =>
    channel = scope.channel ∧ number ≤ BlockHeader.greatestNumber
  | .store (.putEvent e) =>
    e.origin = scope.agent.origin scope.channel ∧ e.blockNumber ≤ BlockHeader.greatestNumber
  | .cancelled => True
  | .report _ => True

/-- Every answer is possible but for checkpoints that are not recorded. -/
def possible (scope : Scope) : Answering
  | .store (.checkpoint _), answer => ∀ number, answer = .ok (some number) → scope.recorded number
  | _, _ => True

/-- All questions may be asked, and no request to stop was seen. -/
def Quiet (scope : Scope) (asked : List Asked) : Prop :=
  ∀ a ∈ asked, scope.May a.1 ∧ a ≠ ⟨.cancelled, true⟩

/-- All questions may be asked, and none was asked after a request to stop was seen. -/
def Fine (scope : Scope) (asked : List Asked) : Prop :=
  scope.Quiet asked ∨ ∃ before, scope.Quiet before ∧ asked = before ++ [⟨.cancelled, true⟩]

/-- The scope of an agent on a channel where any number may be a checkpoint. -/
def anywhere (agent : Agent) (channel : String) : Scope :=
  ⟨agent, channel, fun _ => True⟩

theorem possible_anywhere (agent : Agent) (channel : String) (q : Query) (answer : q.Answer) :
    (anywhere agent channel).possible q answer := by
  unfold Scope.possible
  split
  · exact fun _ _ => trivial
  · trivial

variable {scope : Scope} {asked : List Asked}

theorem exists_possible (scope : Scope) (q : Query) : ∃ answer, scope.possible q answer := by
  cases q with
  | store q =>
      cases q with
      | checkpoint channel => exact ⟨.ok none, nofun⟩
      | putCheckpoint channel number => exact ⟨.ok (), trivial⟩
      | blockHash channel number => exact ⟨.ok none, trivial⟩
      | putEvent e => exact ⟨.ok (), trivial⟩
  | ledger q => exact ⟨.error .request, trivial⟩
  | cancelled => exact ⟨false, trivial⟩
  | report progress => exact ⟨(), trivial⟩

theorem quiet_nil : scope.Quiet [] := fun _ ha => absurd ha List.not_mem_nil

theorem Quiet.concat (h : scope.Quiet asked) {a : Asked} (hmay : scope.May a.1)
    (hstop : a ≠ ⟨.cancelled, true⟩) : scope.Quiet (asked ++ [a]) := by
  intro x hx
  rcases List.mem_append.mp hx with hx | hx
  · exact h x hx
  · rw [List.mem_singleton.mp hx]
    exact ⟨hmay, hstop⟩

theorem Fine.may (h : scope.Fine asked) : ∀ a ∈ asked, scope.May a.1 := by
  rcases h with h | ⟨before, hbefore, rfl⟩
  · exact fun a ha => (h a ha).1
  · intro a ha
    rcases List.mem_append.mp ha with ha | ha
    · exact (hbefore a ha).1
    · rw [List.mem_singleton.mp ha]
      trivial

theorem Fine.may_last {a : Asked} (h : scope.Fine (asked ++ [a])) : scope.May a.1 :=
  h.may a (by simp)

theorem Fine.eq_nil_of_stop (h : scope.Fine asked) {before after : List Asked}
    (hasked : asked = before ++ ⟨.cancelled, true⟩ :: after) : after = [] := by
  rcases h with h | ⟨quiet, hquiet, hlast⟩
  · exact absurd rfl (h ⟨.cancelled, true⟩ (by simp [hasked])).2
  · obtain ⟨hnil, -⟩ | ⟨front, -, hfront⟩ := split_concat (hlast.symm.trans hasked)
    · exact hnil
    · exact absurd rfl (hquiet ⟨.cancelled, true⟩ (by simp [hfront])).2

end Scope

/-- An error that a channel without a reconciliation does not explain. -/
def IngestError.Genuine (e : IngestError) : Prop :=
  ∀ channel, e ≠ .notReconciled channel

theorem IngestError.genuine_ofLedger (channel : String) (e : LedgerError) :
    (ofLedger channel e).Genuine := by
  cases e <;> exact nofun

namespace Scope

variable {α β : Type} {scope : Scope}

/-! ### Attempts -/

/-- An attempt asks only what it may, without a look for a request to stop, and its values are
good. -/
def Asks (scope : Scope) (good : α → Prop) (p : Attempt α) : Prop :=
  ∀ asked, scope.Quiet asked → Attempt.Safe (recording scope.possible) scope.Quiet
    (fun a _ => good a) (fun e _ => e.Genuine) p asked

theorem Asks.mono {good good' : α → Prop} {p : Attempt α} (h : scope.Asks good p)
    (hgood : ∀ a, good a → good' a) : scope.Asks good' p := fun asked hasked =>
  Attempt.Safe.mono (h asked hasked) (fun a _ _ => hgood a) fun _ _ _ he => he

theorem Asks.pure {good : α → Prop} {a : α} (ha : good a) :
    scope.Asks good (Pure.pure a : Attempt α) := fun _ hasked =>
  Attempt.Safe.pure hasked ha

theorem Asks.throw {good : α → Prop} {e : IngestError} (he : e.Genuine) :
    scope.Asks good (throw e : Attempt α) := fun _ hasked =>
  Attempt.Safe.throw hasked he

theorem Asks.bind {good : α → Prop} {good' : β → Prop} {p : Attempt α} {f : α → Attempt β}
    (h : scope.Asks good p) (hf : ∀ a, good a → scope.Asks good' (f a)) :
    scope.Asks good' (p >>= f) := fun asked hasked =>
  Attempt.Safe.bind (Attempt.Safe.mono (h asked hasked) (fun a t ht ha => hf a ha t ht)
    fun _ _ _ he => he)

theorem Asks.ofExcept {ε : Type} {error : ε → IngestError} {r : Except ε α} {good : α → Prop}
    (hgood : ∀ a, r = .ok a → good a) (herror : ∀ e, (error e).Genuine) :
    scope.Asks good (Attempt.ofExcept error r) := fun _ hasked =>
  Attempt.Safe.ofExcept hasked hgood fun e _ => herror e

variable {channel : String}

theorem asks_ledger (scope : Scope) (channel : String) {q : Ledger.Query}
    (hq : scope.May (.ledger q)) :
    scope.Asks (fun _ => True) (Attempt.ledger channel q) := by
  intro asked hasked
  refine Attempt.Safe.askLedger hasked ?_
  rintro answer _ ⟨-, rfl⟩
  exact ⟨hasked.concat hq nofun, fun _ _ => trivial,
    fun e _ => IngestError.genuine_ofLedger channel e⟩

theorem asks_store (scope : Scope) (channel : String) {q : Store.Query} (good : q.Value → Prop)
    (hq : scope.May (.store q))
    (hgood : ∀ value, scope.possible (.store q) (.ok value) → good value) :
    scope.Asks good (Attempt.store channel q) := by
  intro asked hasked
  refine Attempt.Safe.askStore hasked ?_
  rintro answer _ ⟨hanswer, rfl⟩
  exact ⟨hasked.concat hq nofun, fun value hvalue => hgood value (hvalue ▸ hanswer),
    fun _ _ => nofun⟩

/-! ### Blocks -/

open Ingestor

theorem asks_fetch (scope : Scope) (number : Nat) :
    scope.Asks (fun block => block.header.number = number) (fetch scope.channel number) := by
  refine (asks_ledger scope scope.channel (q := .block scope.channel number) rfl).bind ?_
  intro bytes _
  exact Asks.ofExcept (fun block hblock => (decodeNumbered_eq_ok hblock).2) fun _ => nofun

theorem asks_fetchCheckpoint (scope : Scope) (number : Nat) :
    scope.Asks (fun _ => True) (fetchCheckpoint scope.channel number) := by
  intro asked hasked
  refine Attempt.Safe.tryCatch (Attempt.Safe.mono (asks_fetch scope number asked hasked)
    (fun _ _ _ _ => trivial) fun e t ht he => ?_)
  split
  · exact Attempt.Safe.throw ht nofun
  · exact Attempt.Safe.throw ht he

theorem asks_headerHash (scope : Scope) (block : Block) :
    scope.Asks (fun _ => block.header.number ≤ BlockHeader.greatestNumber) (headerHash block) :=
  Asks.ofExcept (fun _ hhash => (BlockHeader.hash_eq_ok hhash).1) fun _ => nofun

theorem asks_startCursor (scope : Scope) :
    scope.Asks (fun _ => True) (startCursor scope.channel) := by
  refine (asks_store scope scope.channel (q := .checkpoint scope.channel)
    (fun value => ∀ number, value = some number → scope.recorded number) rfl
    fun value hvalue number hnumber => hvalue number (congrArg _ hnumber)).bind ?_
  intro checkpoint hcheckpoint
  cases checkpoint with
  | none => exact Asks.pure trivial
  | some number =>
      refine (asks_store scope scope.channel (q := .blockHash scope.channel number)
        (fun _ => True) ⟨rfl, hcheckpoint number rfl⟩ fun _ _ => trivial).bind ?_
      intro stored _
      cases stored with
      | none => exact Asks.throw nofun
      | some storedHash =>
          refine (asks_fetchCheckpoint scope number).bind fun block _ => ?_
          refine (asks_headerHash scope block).bind fun hash _ => ?_
          split
          · exact Asks.pure trivial
          · exact Asks.throw nofun

theorem asks_prepare (scope : Scope) (cursor : Cursor) :
    scope.Asks (fun prepared => cursor.next ≤ BlockHeader.greatestNumber ∧
        ∀ e ∈ prepared.events, scope.May (.store (.putEvent e)))
      (prepare scope.agent scope.channel cursor) := by
  intro asked hasked
  refine safe_prepare_of_fetch (Attempt.Safe.mono (asks_fetch scope cursor.next asked hasked)
    (fun block t ht hnumber => ⟨fun prepared hready => ?_, fun e he => ?_⟩) fun _ _ _ he => he)
  · have hle : cursor.next ≤ BlockHeader.greatestNumber :=
      hnumber ▸ (BlockHeader.hash_eq_ok hready.hash).1
    refine ⟨hle, fun e he => ?_⟩
    rw [hready.events] at he
    refine ⟨Agent.origin_of_mem_eventsOf he, ?_⟩
    rw [Agent.blockNumber_of_mem_eventsOf he, hnumber]
    exact hle
  · cases he <;> exact nofun

theorem asks_publish {events : List Event}
    (h : ∀ e ∈ events, scope.May (.store (.putEvent e))) :
    scope.Asks (fun _ => True) (publish channel events) := by
  induction events with
  | nil => exact Asks.pure trivial
  | cons e events ih =>
      refine (asks_store scope channel (fun _ => True) (h e List.mem_cons_self)
        fun _ _ => trivial).bind ?_
      exact fun _ _ => ih fun x hx => h x (List.mem_cons_of_mem _ hx)

theorem asks_ingestNext (scope : Scope) (cursor : Cursor) :
    scope.Asks (fun _ => True) (ingestNext scope.agent scope.channel cursor) := by
  refine (asks_prepare scope cursor).bind fun prepared hprepared => ?_
  refine (asks_publish hprepared.2).bind fun _ _ => ?_
  refine (asks_store scope scope.channel (q := .putCheckpoint scope.channel cursor.next)
    (fun _ => True) ⟨rfl, hprepared.1⟩ fun _ _ => trivial).bind fun _ _ => ?_
  exact Asks.pure trivial

/-! ### Steps -/

theorem Asks.safe {good : α → Prop} {p : Attempt α} (h : scope.Asks good p) {asked : List Asked}
    (hasked : scope.Quiet asked) :
    Attempt.Safe (recording scope.possible) scope.Fine (fun a t => scope.Quiet t ∧ good a)
      (fun e t => scope.Quiet t ∧ e.Genuine) p asked := by
  refine Program.Safe.mono (Program.Safe.weaken (h asked hasked) fun _ => .inl) ?_
  rintro r t - ⟨ht, hr⟩
  cases r with
  | ok a => exact ⟨ht, hr⟩
  | error e => exact ⟨ht, hr⟩

end Scope

namespace Ingestor

def scope (ingestor : Ingestor) (recorded : Nat → Prop) : Scope :=
  ⟨ingestor.agent, ingestor.channel, recorded⟩

/-- A result that a missing reconciliation does not explain. -/
def Explained (result : Except IngestError Nat) : Prop :=
  ∀ e, result = .error e → e.Genuine

variable (ingestor : Ingestor) (recorded : Nat → Prop)

/-- **What a reconciliation asks and leaves.**  It leaves a cursor, or the ingestor as it was. -/
theorem safe_reconcile_asks :
    Program.Safe (recording (ingestor.scope recorded).possible) (ingestor.scope recorded).Fine
      (fun r _ => Explained r.1 ∧ (∃ cursor, r.2 = { ingestor with cursor := cursor }) ∧
        (∀ n, r.1 = .ok n → r.2.cursor ≠ none) ∧ ∀ e, r.1 = .error e → r.2 = ingestor)
      ingestor.reconcile [] := by
  refine safe_reconcile_of_start (Attempt.Safe.mono
    ((Scope.asks_startCursor (ingestor.scope recorded)).safe Scope.quiet_nil) ?_ ?_)
  · rintro cursor asked - ⟨hasked, -⟩ answer _ ⟨-, rfl⟩
    refine ⟨.inl (hasked.concat trivial nofun), nofun, ⟨_, rfl⟩, ?_, nofun⟩
    exact fun _ _ => Option.some_ne_none cursor
  · rintro e asked - ⟨-, he⟩
    refine ⟨?_, ⟨ingestor.cursor, rfl⟩, nofun, fun _ _ => rfl⟩
    rintro _ ⟨⟩
    exact he

/-- **What a poll asks and leaves.** -/
theorem safe_poll_asks :
    Program.Safe (recording (ingestor.scope recorded).possible) (ingestor.scope recorded).Fine
      (fun r _ => (∃ cursor, r.2 = { ingestor with cursor := cursor }) ∧
        (ingestor.cursor ≠ none → Explained r.1 ∧ r.2.cursor ≠ none))
      ingestor.poll [] := by
  refine safe_poll_of_height (.inl Scope.quiet_nil)
    (fun hnone => ⟨⟨ingestor.cursor, rfl⟩, fun hsome => absurd hnone hsome⟩) ?_
  intro cursor hcursor
  have hexplained : ∀ {e : IngestError}, e.Genuine → Explained (.error e) := by
    rintro e he _ ⟨⟩
    exact he
  refine Attempt.Safe.mono ((Scope.asks_ledger (ingestor.scope recorded) ingestor.channel
    (q := .tipHeight ingestor.channel) rfl).safe Scope.quiet_nil) ?_ ?_
  · rintro height asked - ⟨hasked, -⟩
    refine safe_ingestUpTo (fun _ _ _ asked => (ingestor.scope recorded).Quiet asked)
      ?_ ?_ ?_ (.inl hasked) hasked
    · exact fun _ _ => ⟨⟨_, rfl⟩, fun _ => ⟨nofun, Option.some_ne_none _⟩⟩
    · rintro _ _ _ asked _ - hasked ⟨-, rfl⟩
      exact ⟨.inr ⟨asked, hasked, rfl⟩, ⟨_, rfl⟩, fun _ => ⟨nofun, Option.some_ne_none _⟩⟩
    · rintro remaining cursor count asked _ - hasked ⟨-, rfl⟩
      have hlook : (ingestor.scope recorded).Quiet (asked ++ [⟨.cancelled, false⟩]) :=
        hasked.concat trivial (by simp)
      refine ⟨.inl hlook, Attempt.Safe.mono
        ((Scope.asks_ingestNext (ingestor.scope recorded) cursor).safe hlook) ?_ ?_⟩
      · rintro block asked - ⟨hasked, -⟩ answer _ ⟨-, rfl⟩
        have hreport := hasked.concat (a := ⟨.report (.ingested block), answer⟩) trivial nofun
        exact ⟨.inl hreport, hreport⟩
      · rintro e asked - ⟨-, he⟩
        exact ⟨⟨_, rfl⟩, fun _ => ⟨hexplained he, Option.some_ne_none _⟩⟩
  · rintro e asked - ⟨-, he⟩
    exact ⟨⟨ingestor.cursor, rfl⟩, fun hsome => ⟨hexplained he, hsome⟩⟩

/-- A step that asks only what it may, and changes nothing of an ingestor but its cursor. -/
def Asking (recorded : Nat → Prop)
    (step : Ingestor → Program (Except IngestError Nat × Ingestor)) : Prop :=
  ∀ ingestor : Ingestor, Program.Safe (recording (ingestor.scope recorded).possible)
    (ingestor.scope recorded).Fine (fun r _ => ∃ cursor, r.2 = { ingestor with cursor := cursor })
    (step ingestor) []

theorem asking_reconcile : Asking recorded reconcile := fun ingestor =>
  Program.Safe.mono (safe_reconcile_asks ingestor recorded) fun _ _ _ h => h.2.1

theorem asking_poll : Asking recorded poll := fun ingestor =>
  Program.Safe.mono (safe_poll_asks ingestor recorded) fun _ _ _ h => h.1

end Ingestor

end LedgerIndex
