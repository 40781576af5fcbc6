import LedgerIndex.Proofs.Block.RoundTrip
import LedgerIndex.Proofs.Event.Place
import LedgerIndex.Proofs.Store.Recall

/-! # What a store in memory makes of the events it accepts

A store in memory keeps a list of events and an index of block hashes, and both are updated by one
operation, which may be refused.  `MemoryStore.Intake` is a store together with the events that it
has accepted, and `Intake.Kept` says what the two structures are in terms of these: the list is that
of the events put one after the other, and the hash of a block is that of the last event of the
block.  Every use of a store keeps it so (`Intake.Kept.next`).

In the list each document stands once, where it came first, with the event that came last
(`map_some_upsertAll`).  Among the events of one peer a block has one document only, so that the
list and the hashes agree (`filter_upsertAll`, `Intake.documents_after`). -/

namespace LedgerIndex

/-! ### First documents and last events -/

namespace Event

/-- The documents of some events, in the order in which they come first. -/
def targets (events : List Event) : List (EventKind × String) :=
  (events.map target).eraseDups

/-- The last of some events with a property. -/
def last? (p : Event → Bool) (events : List Event) : Option Event :=
  (events.filter p).getLast?

variable {e x : Event} {events : List Event} {p : Event → Bool}

theorem sameDocument_iff_target : x.SameDocument e ↔ x.target = e.target := by
  rw [target, target, Prod.mk.injEq, SameDocument]

theorem targets_concat (events : List Event) (e : Event) :
    targets (events ++ [e])
      = if e.target ∈ targets events then targets events else targets events ++ [e.target] := by
  rw [targets, List.map_append]
  exact TxFixture.eraseDups_concat ..

theorem last?_concat_of_pos (h : p e = true) : last? p (events ++ [e]) = some e := by
  rw [last?, List.filter_append, List.filter_cons_of_pos h]
  exact List.getLast?_concat

theorem last?_concat_of_neg (h : ¬ p e = true) : last? p (events ++ [e]) = last? p events := by
  rw [last?, List.filter_append, List.filter_cons_of_neg h, List.filter_nil, List.append_nil, last?]

theorem mem_of_last?_eq_some (h : last? p events = some x) : x ∈ events ∧ p x = true :=
  List.mem_filter.mp (List.mem_of_getLast? h)

end Event

namespace MemoryStore

variable {e x : Event} {l accepted : List Event} {peer channel : String} {number : Nat}

/-! ### The list of events -/

theorem upsertAll_concat (l accepted : List Event) (e : Event) :
    upsertAll l (accepted ++ [e]) = upsert e (upsertAll l accepted) :=
  upsertAll_append ..

theorem map_target_upsert (e : Event) (l : List Event) :
    (upsert e l).map Event.target
      = if e.target ∈ l.map Event.target then l.map Event.target
        else l.map Event.target ++ [e.target] := by
  induction l with
  | nil => rfl
  | cons x l ih =>
      by_cases hsame : x.SameDocument e
      · have htarget : x.target = e.target := Event.sameDocument_iff_target.mp hsame
        rw [upsert_cons_of_same hsame, List.map_cons, List.map_cons, htarget,
          if_pos List.mem_cons_self]
      · have htarget : e.target ≠ x.target := fun h =>
          hsame (Event.sameDocument_iff_target.mpr h.symm)
        rw [upsert_cons_of_not_same hsame, List.map_cons, List.map_cons, ih]
        by_cases hmem : e.target ∈ l.map Event.target
        · rw [if_pos hmem, if_pos (List.mem_cons_of_mem _ hmem)]
        · rw [if_neg hmem, if_neg (List.not_mem_cons_of_ne_of_not_mem htarget hmem)]
          rfl

theorem map_target_upsertAll (accepted : List Event) :
    (upsertAll [] accepted).map Event.target = Event.targets accepted := by
  induction accepted using List.reverseRecOn with
  | nil => rfl
  | append_singleton accepted e ih =>
      rw [upsertAll_concat, map_target_upsert, ih, Event.targets_concat]

/-- The event that stands for a document is the last one that came for it. -/
theorem last?_of_mem_upsertAll (h : x ∈ upsertAll [] accepted) :
    Event.last? (·.target = x.target) accepted = some x := by
  induction accepted using List.reverseRecOn with
  | nil => exact absurd h List.not_mem_nil
  | append_singleton accepted e ih =>
      rw [upsertAll_concat, mem_upsert_iff (separate_upsertAll List.Pairwise.nil accepted)] at h
      rcases h with rfl | ⟨hmem, hsame⟩
      · exact Event.last?_concat_of_pos (decide_eq_true rfl)
      · have htarget : e.target ≠ x.target := fun heq =>
          hsame (Event.sameDocument_iff_target.mpr heq.symm)
        rw [Event.last?_concat_of_neg (mt of_decide_eq_true htarget)]
        exact ih hmem

/-- **Each document stands once, where it came first, with the event that came last.** -/
theorem map_some_upsertAll (accepted : List Event) :
    (upsertAll [] accepted).map some
      = (Event.targets accepted).map fun d => Event.last? (·.target = d) accepted := by
  rw [← map_target_upsertAll, List.map_map]
  refine List.map_congr_left fun x hx => ?_
  exact (last?_of_mem_upsertAll hx).symm

theorem mem_of_mem_upsertAll (h : x ∈ upsertAll [] accepted) : x ∈ accepted :=
  (Event.mem_of_last?_eq_some (last?_of_mem_upsertAll h)).1

theorem filter_upsertAll (hpeer : ∀ e ∈ accepted, e.origin.peer = peer) (channel : String)
    (number : Nat) :
    (upsertAll [] accepted).filter (·.Documents channel number)
      = (Event.last? (·.Documents channel number) accepted).toList := by
  induction accepted using List.reverseRecOn with
  | nil => rfl
  | append_singleton accepted e ih =>
      have haccepted : ∀ x ∈ accepted, x.origin.peer = peer := fun x hx =>
        hpeer x (List.mem_append_left _ hx)
      have he : e.origin.peer = peer := hpeer e (List.mem_append_right _ List.mem_cons_self)
      have hone : ∀ x ∈ upsertAll [] accepted, x.origin.peer = e.origin.peer := fun x hx =>
        (haccepted x (mem_of_mem_upsertAll hx)).trans he.symm
      rw [upsertAll_concat]
      by_cases hdocuments : e.Documents channel number
      · have hsame : ∀ x ∈ upsertAll [] accepted, x.SameDocument e →
            decide (x.Documents channel number) = true := fun x hx hsame =>
          decide_eq_true (hdocuments.of_same hsame (hone x hx))
        rw [filter_upsert (decide_eq_true hdocuments) hsame,
          Event.last?_concat_of_pos (decide_eq_true hdocuments), ih haccepted]
        cases hlast : Event.last? (·.Documents channel number) accepted with
        | none => rfl
        | some x =>
            obtain ⟨hx, hxdocuments⟩ := Event.mem_of_last?_eq_some hlast
            refine upsert_cons_of_same ?_
            exact (of_decide_eq_true hxdocuments).same hdocuments ((haccepted x hx).trans he.symm)
      · have hother : ∀ x ∈ upsertAll [] accepted, x.SameDocument e →
            decide (x.Documents channel number) = false := fun x hx hsame =>
          decide_eq_false fun h => hdocuments (h.of_same hsame.symm (hone x hx).symm)
        rw [filter_upsert_of_not (decide_eq_false hdocuments) hother,
          Event.last?_concat_of_neg (mt of_decide_eq_true hdocuments), ih haccepted]

/-! ### The uses of a store -/

/-- What is done with a store: it is asked a question, or the number of events that it accepts from
then on is limited. -/
inductive Use where
  | ask (q : Store.Query)
  | limit (successful : Option Nat)

end MemoryStore

/-- The event that a question puts. -/
def Store.Query.event? : Store.Query → Option Event
  | .putEvent e => some e
  | _ => none

theorem Store.Query.eq_putEvent_of_event? {q : Store.Query} {e : Event} (h : q.event? = some e) :
    q = .putEvent e := by
  cases q with
  | putEvent e' => rw [Option.some.inj h]
  | checkpoint _ | putCheckpoint _ _ | blockHash _ _ => cases h

namespace MemoryStore

theorem answer_putEvent_of_refused {s : MemoryStore} (h : s.failingPuts = some 0) (e : Event) :
    s.answer (.putEvent e) = (.error refusal, s) :=
  if_pos h

theorem answer_putEvent_of_ne {s : MemoryStore} (h : s.failingPuts ≠ some 0) (e : Event) :
    s.answer (.putEvent e) = (.ok (), s.accept e) :=
  if_neg h

/-- A store, and the events that it has accepted so far. -/
structure Intake where
  store : MemoryStore := {}
  accepted : List Event := []

namespace Intake

/-- A use of the store.  An event that is put is accepted if the answer is no error. -/
def next (intake : Intake) : Use → Intake
  | .ask q =>
    ⟨(intake.store.answer q).2,
      intake.accepted ++ if (intake.store.answer q).1.isOk then q.event?.toList else []⟩
  | .limit successful => ⟨{ intake.store with failingPuts := successful }, intake.accepted⟩

def run (intake : Intake) (uses : List Use) : Intake :=
  uses.foldl next intake

def after (uses : List Use) : Intake :=
  run {} uses

variable {intake : Intake} {uses : List Use} {q : Store.Query}

/-! ### One use -/

theorem next_put_of_refused (h : intake.store.failingPuts = some 0) (e : Event) :
    intake.next (.ask (.putEvent e)) = intake := by
  rw [next, answer_putEvent_of_refused h]
  exact congrArg (mk _) (List.append_nil _)

theorem next_put (h : intake.store.failingPuts ≠ some 0) (e : Event) :
    intake.next (.ask (.putEvent e)) = ⟨intake.store.accept e, intake.accepted ++ [e]⟩ := by
  rw [next, answer_putEvent_of_ne h]
  rfl

theorem next_ask_of_event?_eq_none (h : q.event? = none) :
    ∃ checkpoints history, intake.next (.ask q)
      = ⟨{ intake.store with checkpoints := checkpoints, history := history },
        intake.accepted⟩ := by
  cases q with
  | putEvent e => cases h
  | checkpoint _ | putCheckpoint _ _ | blockHash _ _ =>
      exact ⟨_, _, congrArg (mk _) (List.append_nil _)⟩

theorem mem_accepted_next {use : Use} (h : e ∈ (intake.next use).accepted) :
    e ∈ intake.accepted ∨ use = .ask (.putEvent e) := by
  cases use with
  | limit successful => exact .inl h
  | ask q =>
      refine (List.mem_append.mp h).imp_right fun h => ?_
      split at h
      · rw [Store.Query.eq_putEvent_of_event? (Option.mem_toList.mp h)]
      · exact absurd h List.not_mem_nil

theorem mem_accepted_run (h : e ∈ (intake.run uses).accepted) :
    e ∈ intake.accepted ∨ .ask (.putEvent e) ∈ uses := by
  induction uses generalizing intake with
  | nil => exact .inl h
  | cons use uses ih =>
      rcases ih h with h | h
      · refine (mem_accepted_next h).imp_right fun huse => ?_
        rw [huse]
        exact List.mem_cons_self
      · exact .inr (List.mem_cons_of_mem _ h)

/-! ### The list of events and the block hashes -/

/-- The list of events and the block hashes of a store are those of the events that it has
accepted. -/
structure Kept (intake : Intake) : Prop where
  events : intake.store.events = upsertAll [] intake.accepted
  hashes : ∀ channel number, intake.store.blockHash? channel number
    = (Event.last? (·.Documents channel number) intake.accepted).bind TableStore.hashOf?

theorem kept_empty : Kept {} where
  events := rfl
  hashes _ _ := rfl

theorem Kept.accept (h : intake.Kept) (e : Event) :
    Kept ⟨intake.store.accept e, intake.accepted ++ [e]⟩ where
  events := by
    rw [upsertAll_concat, ← h.events]
    rfl
  hashes channel number := by
    rw [blockHash?_accept]
    by_cases hdocuments : e.Documents channel number
    · rw [if_pos hdocuments, Event.last?_concat_of_pos (decide_eq_true hdocuments)]
      rfl
    · rw [if_neg hdocuments, Event.last?_concat_of_neg (mt of_decide_eq_true hdocuments)]
      exact h.hashes channel number

theorem Kept.next (h : intake.Kept) (use : Use) : (intake.next use).Kept := by
  cases use with
  | limit successful => exact ⟨h.events, h.hashes⟩
  | ask q =>
      cases hevent : q.event? with
      | none =>
          obtain ⟨checkpoints, history, hnext⟩ := next_ask_of_event?_eq_none hevent
          rw [hnext]
          exact ⟨h.events, h.hashes⟩
      | some e =>
          rw [Store.Query.eq_putEvent_of_event? hevent]
          by_cases hrefused : intake.store.failingPuts = some 0
          · rw [next_put_of_refused hrefused]
            exact h
          · rw [next_put hrefused]
            exact h.accept e

theorem Kept.run (h : intake.Kept) (uses : List Use) : (intake.run uses).Kept := by
  induction uses generalizing intake with
  | nil => exact h
  | cons use uses ih => exact ih (h.next use)

/-! ### The limit -/

/-- As many events as a limit allows. -/
def allowed (limit : Option Nat) (events : List Event) : List Event :=
  match limit with
  | none => events
  | some n => events.take n

theorem allowed_nil (limit : Option Nat) : allowed limit [] = [] := by
  cases limit with
  | none => rfl
  | some n => exact List.take_nil

theorem allowed_cons {limit : Option Nat} (h : limit ≠ some 0) (e : Event) (events : List Event) :
    allowed limit (e :: events) = e :: allowed (limit.map (· - 1)) events := by
  cases limit with
  | none => rfl
  | some n =>
      cases n with
      | zero => exact absurd rfl h
      | succ n => rfl

/-- Of the events that are put, a store accepts the first ones, as many as its limit allows. -/
theorem accepted_run_ask (intake : Intake) (questions : List Store.Query) :
    (intake.run (questions.map .ask)).accepted
      = intake.accepted
        ++ allowed intake.store.failingPuts (questions.filterMap Store.Query.event?) := by
  induction questions generalizing intake with
  | nil =>
      rw [List.filterMap_nil, allowed_nil, List.append_nil]
      rfl
  | cons q questions ih =>
      rw [List.map_cons]
      refine (ih (intake.next (.ask q))).trans ?_
      cases hevent : q.event? with
      | none =>
          obtain ⟨checkpoints, history, hnext⟩ := next_ask_of_event?_eq_none hevent
          rw [List.filterMap_cons_none hevent, hnext]
      | some e =>
          rw [List.filterMap_cons_some hevent, Store.Query.eq_putEvent_of_event? hevent]
          by_cases hrefused : intake.store.failingPuts = some 0
          · rw [next_put_of_refused hrefused, hrefused]
            rfl
          · rw [next_put hrefused, allowed_cons hrefused, List.append_assoc]
            rfl

/-! ### All of it -/

/-- **What a store in memory makes of the events of one peer.**  Each document that it ever accepted
stands once in its list, in the order in which the documents came first, with the event that came
last.  Each block has one event there at the most, the last one that was accepted for it, and its
hash is the one that is looked up.  What is refused changes nothing, and with a limit just as many
of the events that are put next are accepted. -/
theorem documents_after (hpeer : ∀ e, .ask (.putEvent e) ∈ uses → e.origin.peer = peer) :
    (after uses).store.events.map some
      = (Event.targets (after uses).accepted).map
          (fun d => Event.last? (·.target = d) (after uses).accepted) ∧
    (∀ channel number,
      (after uses).store.events.filter (·.Documents channel number)
        = (Event.last? (·.Documents channel number) (after uses).accepted).toList ∧
      ((after uses).store.answer (.blockHash channel number)).1
        = .ok ((Event.last? (·.Documents channel number) (after uses).accepted).bind
            TableStore.hashOf?)) ∧
    (∀ e, ((after uses).store.answer (.putEvent e)).1.isOk = false →
      ((after uses).store.answer (.putEvent e)).2 = (after uses).store) ∧
    ∀ (limit : Option Nat) (questions : List Store.Query),
      (after (uses ++ .limit limit :: questions.map .ask)).accepted
        = (after uses).accepted ++ allowed limit (questions.filterMap Store.Query.event?) := by
  have hkept : (after uses).Kept := kept_empty.run uses
  have haccepted : ∀ e ∈ (after uses).accepted, e.origin.peer = peer := fun e he =>
    hpeer e ((mem_accepted_run he).resolve_left List.not_mem_nil)
  refine ⟨?_, fun channel number => ⟨?_, ?_⟩, fun e hrefused => ?_, fun limit questions => ?_⟩
  · rw [hkept.events]
    exact map_some_upsertAll _
  · rw [hkept.events]
    exact filter_upsertAll haccepted channel number
  · exact congrArg Except.ok (hkept.hashes channel number)
  · by_cases hlimit : (after uses).store.failingPuts = some 0
    · rw [answer_putEvent_of_refused hlimit]
    · rw [answer_putEvent_of_ne hlimit] at hrefused
      cases hrefused
  · rw [after, run, List.foldl_append]
    exact accepted_run_ask ⟨{ (after uses).store with failingPuts := limit }, _⟩ questions

/-- The event of a block in which nothing happened. -/
def bare (number : Nat) (hash : String) : Event :=
  .block {
    origin := ⟨"c", "p", ""⟩
    blockNumber := number
    blockHash := hash
    previousHash := ""
    dataHash := ""
    createdAt := none
    kind := .config
    transactions := [] }

theorem target_bare {m n : Nat} {hash hash' : String} :
    (bare m hash).target = (bare n hash').target ↔ m = n := by
  have hpeer : (bare m hash).origin.peer = (bare n hash').origin.peer := rfl
  rw [← Event.sameDocument_iff_target, Event.sameDocument_iff hpeer]
  exact and_iff_right rfl

/-- A block is published again with another hash, and the next one is refused at first. -/
def republished : List Use :=
  [.ask (.putEvent (bare 0 "old")), .limit (some 1), .ask (.putEvent (bare 0 "new")),
    .ask (.putEvent (bare 1 "refused")), .limit none, .ask (.putEvent (bare 1 "next"))]

theorem documents_after_republished :
    (after republished).store.events.map some = [some (bare 0 "new"), some (bare 1 "next")] ∧
    ((after republished).store.answer (.blockHash "c" 0)).1 = .ok (some "new") ∧
    ((after republished).store.answer (.blockHash "c" 2)).1 = .ok none := by
  have hpeer : ∀ e, .ask (.putEvent e) ∈ republished → e.origin.peer = "p" := by
    intro e he
    simp only [republished, List.mem_cons, Use.ask.injEq, Store.Query.putEvent.injEq, reduceCtorEq,
      List.not_mem_nil, or_false, false_or] at he
    rcases he with rfl | rfl | rfl | rfl <;> rfl
  obtain ⟨hdocuments, hblocks, -, -⟩ := documents_after hpeer
  have haccepted : (after republished).accepted = [bare 0 "old", bare 0 "new", bare 1 "next"] := rfl
  refine ⟨hdocuments.trans ?_, (hblocks "c" 0).2.trans ?_, (hblocks "c" 2).2.trans ?_⟩
  · rw [haccepted]
    simp [Event.targets, Event.last?, List.eraseDups_cons, List.filter_cons, target_bare]
  · rfl
  · rfl

end Intake

end MemoryStore

end LedgerIndex
