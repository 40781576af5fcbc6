import LedgerIndex.Proofs.Block.Fixture
import LedgerIndex.Proofs.Ingest.Publications
import LedgerIndex.Proofs.Ingest.Questions
import LedgerIndex.Proofs.Ingest.WriteOrder

/-! # Block numbers do not run over

A cursor is placed behind a block whose header was hashed, and a number that no header encoding
holds has no hash.  So whatever a ledger and a store answer, a cursor stands at 2^63 at most
(`Steady`), and a block with a greater number than a header encoding holds ends the call with the
fatal error that says so (`Ended`), unless something else is wrong with it first. -/

namespace LedgerIndex

open Ingest

/-- The number of the next block, which a notification says. -/
def Progress.next? : Progress → Option Nat
  | reconciled start => some start
  | ingested block => some (block.number + 1)
  | halted _ => none

namespace Numbers

/-- The number of the next block, where it was reported. -/
def next? : Asked → Option Nat
  | ⟨.report progress, _⟩ => progress.next?
  | _ => none

/-- The numbers that were reported, each the sum of one and the number of a block. -/
def sums (asked : List Asked) : List Nat :=
  asked.filterMap next?

/-- A block that was ingested moves the cursor behind it. -/
def moved (cursor : Option Cursor) : Asked → Option Cursor
  | ⟨.report (.ingested block), _⟩ => some ⟨block.number + 1, some block.headerHash⟩
  | _ => cursor

/-- The cursor that is held after some questions of a poll. -/
def held (cursor : Option Cursor) (asked : List Asked) : Option Cursor :=
  asked.foldl moved cursor

/-- The ledger served a block that can be read, under its own number, which no header encoding
holds, and nothing else keeps it from being hashed. -/
def Overflows (channel : String) (follows : Block → Prop) (number : Nat) (a : Asked) : Prop :=
  ∃ bytes block, a = ⟨.ledger (.block channel number), .ok bytes⟩ ∧
    Block.decode bytes = .ok block ∧ block.header.number = number ∧
    BlockHeader.greatestNumber < number ∧ follows block

/-- No such block was served so far. -/
def Calm (channel : String) (follows : List Asked → Block → Prop) (asked : List Asked) : Prop :=
  ∀ before a after, asked = before ++ a :: after →
    ∀ number, ¬ Overflows channel (follows before) number a

/-- No number that was reported is greater than 2^63. -/
def Bounded (asked : List Asked) : Prop :=
  ∀ n ∈ sums asked, n ≤ BlockHeader.greatestNumber + 1

variable {channel : String} {follows : List Asked → Block → Prop} {start cursor : Option Cursor}
  {t : List Asked} {a : Asked}

/-- So far all went well, and the cursor is held. -/
structure Steady (channel : String) (follows : List Asked → Block → Prop)
    (start cursor : Option Cursor) (t : List Asked) : Prop where
  bounded : Bounded t
  held : held start t = cursor
  calm : Calm channel follows t

/-- An error came up, with the cursor as it was before: if it came up at a block that no header
encoding holds, it says so. -/
structure Ended (channel : String) (follows : List Asked → Block → Prop)
    (start cursor : Option Cursor) (e : IngestError) (t : List Asked) : Prop where
  held : Numbers.held start t = cursor
  last : Calm channel follows t ∨ ∃ before a number, t = before ++ [a] ∧
    Calm channel follows before ∧ Overflows channel (follows before) number a ∧
    e = .blockNumberOverflow number

/-! ### One question -/

theorem bounded_nil : Bounded [] := by
  intro n hn
  cases hn

theorem Bounded.concat (h : Bounded t) (ha : ∀ n ∈ next? a, n ≤ BlockHeader.greatestNumber + 1) :
    Bounded (t ++ [a]) := by
  intro n hn
  rw [sums, List.filterMap_append, List.mem_append] at hn
  rcases hn with hn | hn
  · exact h n hn
  · obtain ⟨b, hb, hnext⟩ := List.mem_filterMap.mp hn
    rw [List.mem_singleton.mp hb] at hnext
    exact ha n hnext

theorem calm_nil : Calm channel follows [] := by
  intro before a after h
  simp at h

theorem Calm.concat (h : Calm channel follows t)
    (ha : ∀ number, ¬ Overflows channel (follows t) number a) :
    Calm channel follows (t ++ [a]) := by
  intro before b after hsplit
  obtain ⟨-, rfl, rfl⟩ | ⟨front, -, hfront⟩ := split_concat hsplit
  · exact ha
  · exact h before b front hfront

theorem held_concat : held start (t ++ [a]) = moved (held start t) a := by
  rw [held, List.foldl_append]
  rfl

/-- A cursor that is held was there before or its number was reported. -/
theorem held_cases (start : Option Cursor) (t : List Asked) :
    held start t = start ∨ ∃ cursor, held start t = some cursor ∧ cursor.next ∈ sums t := by
  induction t using List.reverseRecOn with
  | nil => exact .inl rfl
  | append_singleton t a ih =>
      have hsums : ∀ n ∈ sums t, n ∈ sums (t ++ [a]) := fun n hn => by
        rw [sums, List.filterMap_append]
        exact List.mem_append_left _ hn
      rw [held_concat]
      unfold moved
      split
      · refine .inr ⟨_, rfl, ?_⟩
        rw [sums, List.filterMap_append]
        exact List.mem_append_right _ (List.mem_singleton.mpr rfl)
      · obtain hsame | ⟨cursor, hcursor, hnext⟩ := ih
        · exact .inl hsame
        · exact .inr ⟨cursor, hcursor, hsums _ hnext⟩

/-- A question that is no report of progress and serves no such block changes nothing. -/
theorem Steady.concat (h : Steady channel follows start cursor t)
    (hreport : ∀ progress, a.1 ≠ .report progress)
    (ha : ∀ number, ¬ Overflows channel (follows t) number a) :
    Steady channel follows start cursor (t ++ [a]) := by
  obtain ⟨query, answer⟩ := a
  have hnext : next? ⟨query, answer⟩ = none := by
    cases query with
    | report progress => exact (hreport progress rfl).elim
    | ledger q => rfl
    | store q => rfl
    | cancelled => rfl
  have hmoved : ∀ cursor, moved cursor ⟨query, answer⟩ = cursor := by
    intro cursor
    cases query with
    | report progress => exact (hreport progress rfl).elim
    | ledger q => rfl
    | store q => rfl
    | cancelled => rfl
  refine ⟨h.bounded.concat (by simp [hnext]), ?_, h.calm.concat ha⟩
  rw [held_concat, h.held, hmoved]

theorem Steady.ended (h : Steady channel follows start cursor t) (e : IngestError) :
    Ended channel follows start cursor e t :=
  ⟨h.held, .inl h.calm⟩

/-! ### Attempts -/

/-- An attempt with the cursor held: with any answers every number that is reported is bounded. -/
abbrev Keeps {α : Type} (channel : String) (follows : List Asked → Block → Prop)
    (start cursor : Option Cursor) (good : α → List Asked → Prop) (p : Attempt α)
    (t : List Asked) : Prop :=
  Attempt.Safe anyAnswer Bounded good (fun e t => Ended channel follows start cursor e t) p t

variable {number : Nat}

theorem keeps_store {q : Store.Query} {good : q.Value → List Asked → Prop}
    (h : Steady channel follows start cursor t)
    (hgood : ∀ value u, Steady channel follows start cursor u → good value u) :
    Keeps channel follows start cursor good (Attempt.store channel q) t := by
  refine Attempt.Safe.askStore h.bounded ?_
  rintro answer _ ⟨-, rfl⟩
  have hnext : Steady channel follows start cursor (t ++ [⟨.store q, answer⟩]) :=
    h.concat nofun (by rintro number ⟨_, _, ⟨⟩, -⟩)
  exact ⟨hnext.bounded, fun value _ => hgood value _ hnext, fun e _ => hnext.ended _⟩

theorem keeps_tipHeight {good : Nat → List Asked → Prop}
    (h : Steady channel follows start cursor t)
    (hgood : ∀ height u, Steady channel follows start cursor u → good height u) :
    Keeps channel follows start cursor good (Attempt.ledger channel (.tipHeight channel)) t := by
  refine Attempt.Safe.askLedger h.bounded ?_
  rintro answer _ ⟨-, rfl⟩
  have hnext :
      Steady channel follows start cursor (t ++ [⟨.ledger (.tipHeight channel), answer⟩]) :=
    h.concat nofun (by rintro number ⟨_, _, ⟨⟩, -⟩)
  exact ⟨hnext.bounded, fun value _ => hgood value _ hnext, fun e _ => hnext.ended _⟩

/-- What a block that was fetched means for an attempt: unless no header encoding holds its number
and nothing else is wrong with it, all is well; in any case it may end the attempt that way. -/
structure Served (channel : String) (follows : List Asked → Block → Prop)
    (start cursor : Option Cursor) (t : List Asked) (number : Nat) (block : Block)
    (u : List Asked) : Prop where
  under : block.header.number = number
  bounded : Bounded u
  steady : (BlockHeader.greatestNumber < number → ¬ follows t block) →
    Steady channel follows start cursor u
  ended : Ended channel follows start cursor (.blockNumberOverflow number) u

theorem Steady.served (h : Steady channel follows start cursor t) {bytes : Bytes} {block : Block}
    (hblock : Block.decode bytes = .ok block) (hnumber : block.header.number = number) :
    Served channel follows start cursor t number block
      (t ++ [⟨.ledger (.block channel number), .ok bytes⟩]) := by
  have hsteady : (BlockHeader.greatestNumber < number → ¬ follows t block) →
      Steady channel follows start cursor
        (t ++ [⟨.ledger (.block channel number), .ok bytes⟩]) := by
    intro hfine
    refine h.concat nofun ?_
    rintro _ ⟨_, served, heq, hserved, -, hgreat, hfollows⟩
    cases heq
    cases hblock.symm.trans hserved
    exact hfine hgreat hfollows
  refine ⟨hnumber, h.bounded.concat nofun, hsteady, ?_⟩
  by_cases hover : BlockHeader.greatestNumber < number ∧ follows t block
  · refine ⟨by rw [held_concat, h.held]; rfl, .inr ⟨t, _, number, rfl, h.calm, ?_, rfl⟩⟩
    exact ⟨bytes, block, rfl, hblock, hnumber, hover⟩
  · exact (hsteady fun hgreat hfollows => hover ⟨hgreat, hfollows⟩).ended _

theorem keeps_fetch {good : Block → List Asked → Prop} {bad : IngestError → List Asked → Prop}
    (h : Steady channel follows start cursor t)
    (hgood : ∀ block u, Served channel follows start cursor t number block u → good block u)
    (hbad : ∀ e u, Steady channel follows start cursor u → bad e u) :
    Attempt.Safe anyAnswer Bounded good bad (Ingestor.fetch channel number) t := by
  refine Attempt.Safe.bind (Attempt.Safe.askLedger h.bounded ?_)
  rintro answer _ ⟨-, rfl⟩
  have hbounded : Bounded (t ++ [⟨.ledger (.block channel number), answer⟩]) :=
    h.bounded.concat nofun
  refine ⟨hbounded, ?_, ?_⟩
  · rintro bytes rfl
    refine Attempt.Safe.ofExcept hbounded (fun block hblock => ?_) fun e he => ?_
    · obtain ⟨hdecoded, hnumber⟩ := Ingestor.decodeNumbered_eq_ok hblock
      exact hgood block _ (h.served hdecoded hnumber)
    · refine hbad _ _ (h.concat nofun ?_)
      rintro _ ⟨_, block, heq, hblock, hnumber, -⟩
      cases heq
      rw [Ingestor.decodeNumbered, hblock] at he
      simp [bind, Except.bind, pure, Except.pure, hnumber] at he
  · rintro e rfl
    exact hbad _ _ (h.concat nofun (by rintro number ⟨_, _, ⟨⟩, -⟩))

/-- A block under a number that no header encoding holds is not hashed. -/
theorem keeps_headerHash {u : List Asked} {block : Block} {good : Bytes → List Asked → Prop}
    (h : Served channel follows start cursor t number block u)
    (hgood : ∀ hash, Steady channel follows start cursor u → number ≤ BlockHeader.greatestNumber →
      good hash u) :
    Keeps channel follows start cursor good (Ingestor.headerHash block) u := by
  refine Attempt.Safe.ofExcept h.bounded (fun hash hhash => ?_) fun e he => ?_
  · have hle := (BlockHeader.hash_eq_ok hhash).1
    rw [h.under] at hle
    exact hgood hash (h.steady fun hgreat => absurd hgreat (Nat.not_lt.mpr hle)) hle
  · rw [BlockHeader.hash_eq_error he, h.under]
    exact h.ended

/-! ### Reconciliation -/

/-- A reconciliation hashes whatever block it fetches. -/
def any (_before : List Asked) (_block : Block) : Prop := True

theorem keeps_fetchCheckpoint {good : Block → List Asked → Prop}
    (h : Steady channel any start cursor t)
    (hgood : ∀ block u, Served channel any start cursor t number block u → good block u) :
    Keeps channel any start cursor good (Ingestor.fetchCheckpoint channel number) t := by
  refine Attempt.Safe.tryCatch (keeps_fetch h hgood fun e u hu => ?_)
  split
  · exact Attempt.Safe.throw hu.bounded (hu.ended _)
  · exact Attempt.Safe.throw hu.bounded (hu.ended _)

theorem keeps_startCursor (start : Option Cursor) :
    Keeps channel any start start
      (fun cursor u => Steady channel any start start u ∧
        cursor.next ≤ BlockHeader.greatestNumber + 1) (Ingestor.startCursor channel) [] := by
  have hnil : Steady channel any start start [] := ⟨bounded_nil, rfl, calm_nil⟩
  refine Attempt.Safe.bind (keeps_store hnil fun checkpoint t ht => ?_)
  cases checkpoint with
  | none => exact Attempt.Safe.pure ht.bounded ⟨ht, Nat.zero_le _⟩
  | some number =>
      refine Attempt.Safe.bind (keeps_store ht fun stored u hu => ?_)
      cases stored with
      | none => exact Attempt.Safe.throw hu.bounded (hu.ended _)
      | some storedHash =>
          refine Attempt.Safe.bind (keeps_fetchCheckpoint hu fun block v hv => ?_)
          refine Attempt.Safe.bind (keeps_headerHash hv fun hash hsteady hle => ?_)
          split
          · exact Attempt.Safe.pure hsteady.bounded ⟨hsteady, Nat.succ_le_succ hle⟩
          · exact Attempt.Safe.throw hsteady.bounded (hsteady.ended _)

/-! ### Polling -/

/-- A poll hashes a block that follows on the cursor it holds. -/
def linking (start : Option Cursor) (before : List Asked) (block : Block) : Prop :=
  ∀ cursor ∈ held start before, Ingestor.linked cursor block = true

theorem keeps_prepare {agent : Agent} {cursor : Cursor}
    (h : Steady channel (linking start) start (some cursor) t) :
    Keeps channel (linking start) start (some cursor)
      (fun _ u => Steady channel (linking start) start (some cursor) u ∧
        cursor.next ≤ BlockHeader.greatestNumber) (Ingestor.prepare agent channel cursor) t := by
  refine Attempt.Safe.bind (keeps_fetch h (fun block u hu => ?_) fun e u hu => hu.ended e)
  cases hlinked : Ingestor.linked cursor block with
  | false =>
      have hsteady := hu.steady fun _ hfollows => by
        rw [hfollows cursor h.held] at hlinked
        cases hlinked
      exact Attempt.Safe.bind (Attempt.Safe.throw hu.bounded (hsteady.ended _))
  | true =>
      refine Attempt.Safe.bind (keeps_headerHash hu fun hash hsteady hle => ?_)
      refine Attempt.Safe.bind (Attempt.Safe.ofExcept hsteady.bounded (fun txs _ => ?_)
        fun e _ => hsteady.ended _)
      exact Attempt.Safe.pure hsteady.bounded ⟨hsteady, hle⟩

theorem keeps_publish (events : List Event) :
    ∀ t : List Asked, Steady channel follows start cursor t →
      Keeps channel follows start cursor (fun _ u => Steady channel follows start cursor u)
        (Ingestor.publish channel events) t := by
  induction events with
  | nil => exact fun t ht => Attempt.Safe.pure ht.bounded ht
  | cons event events ih =>
      intro t ht
      exact Attempt.Safe.bind (keeps_store ht fun _ u hu => ih u hu)

theorem keeps_ingestNext {agent : Agent} {cursor : Cursor}
    (h : Steady channel (linking start) start (some cursor) t) :
    Keeps channel (linking start) start (some cursor)
      (fun block u => Steady channel (linking start) start (some cursor) u ∧
        block.number = cursor.next ∧ cursor.next ≤ BlockHeader.greatestNumber)
      (Ingestor.ingestNext agent channel cursor) t := by
  refine Attempt.Safe.bind (Attempt.Safe.mono (keeps_prepare h) ?_ fun _ _ _ h => h)
  rintro prepared u - ⟨hu, hle⟩
  refine Attempt.Safe.bind (Attempt.Safe.mono (keeps_publish prepared.events u hu) ?_
    fun _ _ _ h => h)
  intro _ v _ hv
  refine Attempt.Safe.bind (keeps_store hv fun _ w hw => ?_)
  exact Attempt.Safe.pure hw.bounded ⟨hw, rfl, hle⟩

/-- A block that was ingested is reported, and the cursor moves behind it. -/
theorem Steady.ingested {cursor : Cursor} {block : IngestedBlock} {answer : Unit}
    (h : Steady channel follows start (some cursor) t) (hnumber : block.number = cursor.next)
    (hle : cursor.next ≤ BlockHeader.greatestNumber) :
    Steady channel follows start (some ⟨cursor.next + 1, some block.headerHash⟩)
      (t ++ [⟨.report (.ingested block), answer⟩]) := by
  refine ⟨h.bounded.concat ?_, ?_, h.calm.concat ?_⟩
  · rintro _ ⟨⟩
    rw [hnumber]
    exact Nat.succ_le_succ hle
  · rw [held_concat, ← hnumber]
    rfl
  · rintro number ⟨_, _, ⟨⟩, -⟩

/-! ### Calls -/

/-- What a call leaves: the cursor that was held or one that was reported, and after an error the
one that was held. -/
structure Leaves (follows : List Asked → Block → Prop) (ingestor : Ingestor)
    (result : Except IngestError Nat × Ingestor) (t : List Asked) : Prop where
  same : ∃ cursor, result.2 = { ingestor with cursor := cursor }
  cursor : result.2.cursor = held ingestor.cursor t ∨
    ∃ cursor, result.2.cursor = some cursor ∧ cursor.next ∈ sums t
  ok : ∀ n, result.1 = .ok n → Calm ingestor.channel follows t
  error : ∀ e, result.1 = .error e →
    Ended ingestor.channel follows ingestor.cursor result.2.cursor e t

variable {ingestor : Ingestor}

theorem Ended.leaves {e : IngestError}
    (h : Ended ingestor.channel follows ingestor.cursor cursor e t) :
    Leaves follows ingestor (.error e, { ingestor with cursor := cursor }) t := by
  refine ⟨⟨cursor, rfl⟩, .inl h.held.symm, nofun, ?_⟩
  rintro _ ⟨⟩
  exact h

theorem Steady.leaves {n : Nat} (h : Steady ingestor.channel follows ingestor.cursor cursor t) :
    Leaves follows ingestor (.ok n, { ingestor with cursor := cursor }) t :=
  ⟨⟨cursor, rfl⟩, .inl h.held.symm, fun _ _ => h.calm, nofun⟩

/-- A block that no header encoding holds is the last that a call asks for. -/
theorem Leaves.overflow {result : Except IngestError Nat × Ingestor} {before rest : List Asked}
    (h : Leaves follows ingestor result t) (ht : t = before ++ a :: rest)
    (ha : Overflows ingestor.channel (follows before) number a) :
    rest = [] ∧ result.1 = .error (.blockNumberOverflow number) ∧
      result.2.cursor = held ingestor.cursor t := by
  cases hresult : result.1 with
  | ok n => exact absurd ha (h.ok n hresult before a rest ht number)
  | error e =>
      obtain ⟨hheld, hcalm | ⟨earlier, last, m, rfl, hcalm, hlast, rfl⟩⟩ := h.error e hresult
      · exact absurd ha (hcalm before a rest ht number)
      · obtain ⟨rfl, rfl, rfl⟩ | ⟨front, -, hfront⟩ := split_concat ht
        · obtain ⟨_, _, rfl, -⟩ := ha
          obtain ⟨_, _, heq, -⟩ := hlast
          cases heq
          exact ⟨rfl, rfl, hheld.symm⟩
        · exact absurd ha (hcalm before a front hfront number)

/-- **What a reconciliation reports and leaves.** -/
theorem safe_reconcile (ingestor : Ingestor) :
    Program.Safe anyAnswer Bounded (fun r t => Leaves any ingestor r t ∧
      ∀ e, r.1 = .error e → r.2 = ingestor) ingestor.reconcile [] := by
  refine Ingestor.safe_reconcile_of_start (Attempt.Safe.mono
    (keeps_startCursor ingestor.cursor) ?_ fun e t _ ht => ⟨ht.leaves, fun _ _ => rfl⟩)
  rintro cursor t - ⟨ht, hle⟩ answer _ ⟨-, rfl⟩
  refine ⟨ht.bounded.concat (by rintro _ ⟨⟩; exact hle), ⟨⟨_, rfl⟩, ?_, ?_, nofun⟩, nofun⟩
  · refine .inr ⟨cursor, rfl, ?_⟩
    rw [sums, List.filterMap_append, List.mem_append]
    exact .inr (List.mem_singleton.mpr rfl)
  · intro _ _
    exact ht.calm.concat (by rintro number ⟨_, _, ⟨⟩, -⟩)

/-- **What a poll reports and leaves.** -/
theorem safe_poll (ingestor : Ingestor) :
    Program.Safe anyAnswer Bounded (Leaves (linking ingestor.cursor) ingestor)
      ingestor.poll [] := by
  have hnil : Steady ingestor.channel (linking ingestor.cursor) ingestor.cursor ingestor.cursor
      [] := ⟨bounded_nil, rfl, calm_nil⟩
  refine Ingestor.safe_poll_of_height bounded_nil (fun _ => (hnil.ended _).leaves) ?_
  intro cursor hcursor
  refine Attempt.Safe.mono (keeps_tipHeight hnil fun height t ht => ?_) (fun _ _ _ h => h)
    fun e t _ ht => ht.leaves
  have hstart : Steady ingestor.channel (linking ingestor.cursor) ingestor.cursor (some cursor) t :=
    ⟨ht.bounded, ht.held.trans hcursor, ht.calm⟩
  refine Ingestor.safe_ingestUpTo (fun _ cursor _ t => Steady ingestor.channel
    (linking ingestor.cursor) ingestor.cursor (some cursor) t) ?_ ?_ ?_ ht.bounded hstart
  · exact fun _ hsteady => hsteady.leaves
  · rintro _ cursor count t _ - hsteady ⟨-, rfl⟩
    have hnext := hsteady.concat (a := ⟨.cancelled, true⟩) nofun
      (by rintro number ⟨_, _, ⟨⟩, -⟩)
    exact ⟨hnext.bounded, hnext.leaves⟩
  · rintro _ cursor count t _ - hsteady ⟨-, rfl⟩
    have hnext := hsteady.concat (a := ⟨.cancelled, false⟩) nofun
      (by rintro number ⟨_, _, ⟨⟩, -⟩)
    refine ⟨hnext.bounded, Attempt.Safe.mono (keeps_ingestNext hnext) ?_ fun e u _ hu => hu.leaves⟩
    rintro block u - ⟨hu, hnumber, hle⟩ answer _ ⟨-, rfl⟩
    exact ⟨(hu.ingested hnumber hle).bounded, hu.ingested hnumber hle⟩

end Numbers

namespace Ingestor

open Numbers

section World

variable {σ : Type} {world : Program.World σ}

/-- Makes calls one after the other in a world. -/
def after (world : Program.World σ) : List Call → Ingestor → σ → Ingestor × σ
  | [], ingestor, s => (ingestor, s)
  | call :: calls, ingestor, s =>
    let ran := (call.program ingestor).run world s
    after world calls ran.1.2 ran.2

/-- Which blocks a call hashes when it has fetched them. -/
def Call.follows (ingestor : Ingestor) : Call → List Asked → Block → Prop
  | reconcile => any
  | poll .. => linking ingestor.cursor

theorem Call.leaves (call : Call) (ingestor : Ingestor) (world : Program.World σ) (s : σ) :
    Bounded ((call.program ingestor).trace world s) ∧
      Leaves (call.follows ingestor) ingestor ((call.program ingestor).run world s).1
        ((call.program ingestor).trace world s) ∧
      (call = .reconcile → ∀ e, ((call.program ingestor).run world s).1.1 = .error e →
        ((call.program ingestor).run world s).1.2 = ingestor) := by
  cases call with
  | reconcile =>
      obtain ⟨hbounded, hleaves, hsame⟩ :=
        (Numbers.safe_reconcile ingestor).traced (fun _ _ => trivial) s
      exact ⟨hbounded, hleaves, fun _ => hsame⟩
  | poll stopped stopAt =>
      obtain ⟨hbounded, hleaves⟩ := (safe_poll ingestor).traced (fun _ _ => trivial) s
      exact ⟨hbounded, hleaves, nofun⟩

theorem Call.may (call : Call) (ingestor : Ingestor) (world : Program.World σ) (s : σ) :
    ∀ a ∈ (call.program ingestor).trace world s,
      (Scope.anywhere ingestor.agent ingestor.channel).May a.1 := by
  have hpossible : ∀ q s, (Scope.anywhere ingestor.agent ingestor.channel).possible q
      (world q s).1 := fun _ _ => Scope.possible_anywhere _ _ _ _
  cases call with
  | reconcile =>
      obtain ⟨hfine, -⟩ := (ingestor.safe_reconcile_asks fun _ => True).traced hpossible s
      exact hfine.may
  | poll stopped stopAt =>
      obtain ⟨hfine, -⟩ := (ingestor.safe_poll_asks fun _ => True).traced hpossible s
      exact hfine.may

/-- A cursor at 2^63 at most. -/
def Low (cursor : Option Cursor) : Prop :=
  ∀ c ∈ cursor, c.next ≤ BlockHeader.greatestNumber + 1

theorem Low.held {cursor : Option Cursor} {t : List Asked} (h : Low cursor) (ht : Bounded t) :
    Low (held cursor t) := by
  obtain hsame | ⟨c, hc, hnext⟩ := held_cases cursor t
  · rw [hsame]
    exact h
  · rw [hc]
    rintro _ ⟨⟩
    exact ht _ hnext

theorem Low.leaves {ingestor : Ingestor} {follows : List Asked → Block → Prop}
    {result : Except IngestError Nat × Ingestor} {t : List Asked} (h : Low ingestor.cursor)
    (ht : Bounded t) (hleaves : Leaves follows ingestor result t) : Low result.2.cursor := by
  obtain hheld | ⟨c, hc, hnext⟩ := hleaves.cursor
  · rw [hheld]
    exact h.held ht
  · rw [hc]
    rintro _ ⟨⟩
    exact ht _ hnext

/-- After any calls the cursor stands at 2^63 at most, in the same scope. -/
theorem low_after (world : Program.World σ) (calls : List Call) :
    ∀ (ingestor : Ingestor) (s : σ), Low ingestor.cursor →
    Low (after world calls ingestor s).1.cursor ∧
      ∃ cursor, (after world calls ingestor s).1 = { ingestor with cursor := cursor } := by
  induction calls with
  | nil => exact fun ingestor s h => ⟨h, ingestor.cursor, rfl⟩
  | cons call calls ih =>
      intro ingestor s h
      obtain ⟨hbounded, hleaves, -⟩ := call.leaves ingestor world s
      obtain ⟨hlow, cursor, hcursor⟩ := ih ((call.program ingestor).run world s).1.2
        ((call.program ingestor).run world s).2 (h.leaves hbounded hleaves)
      obtain ⟨_, hsame⟩ := hleaves.same
      exact ⟨hlow, cursor, hcursor.trans (by rw [hsame])⟩

/-- **Block numbers do not run over.**  Whatever a ledger and a store answer, after any calls: every
sum of one and a block number that the next call reports is 2^63 at most, and so is every cursor
that it begins with, holds on the way or leaves.  When the ledger serves a block that can be read
under its own number, above the numbers that a header encoding holds, to a reconciliation, or to a
poll on whose cursor it follows, then the call ends there with the fatal error that says so, the
cursor where it was, and nothing is written for the block. -/
theorem numbers_bounded (world : Program.World σ) (s : σ) (agent : Agent) (channel : String)
    (calls : List Call) (call : Call) :
    let before := after world calls (start agent channel) s
    let ingestor := before.1
    let trace := (call.program ingestor).trace world before.2
    let result := ((call.program ingestor).run world before.2).1
    (∀ n ∈ sums trace, n ≤ 2 ^ 63) ∧
    (∀ cursor, ingestor.cursor = some cursor ∨ result.2.cursor = some cursor ∨
      (∃ asked rest, trace = asked ++ rest ∧ held ingestor.cursor asked = some cursor) →
        cursor.next ≤ 2 ^ 63) ∧
    (result.2.cursor = held ingestor.cursor trace ∨
      ∃ cursor, result.2.cursor = some cursor ∧ cursor.next ∈ sums trace) ∧
    ∀ asked bytes rest block number,
      trace = asked ++ ⟨.ledger (.block channel number), .ok bytes⟩ :: rest →
      Block.decode bytes = .ok block → block.header.number = number → 2 ^ 63 - 1 < number →
      (call = .reconcile ∨ ∀ cursor ∈ held ingestor.cursor asked, linked cursor block = true) →
      rest = [] ∧ result.1 = .error (.blockNumberOverflow number) ∧
        (IngestError.blockNumberOverflow number).isFatal = true ∧
        result.2 = { ingestor with cursor := held ingestor.cursor asked } ∧
        (call = .reconcile → result.2 = ingestor) ∧
        ∀ a ∈ trace, (∀ e, a.1 = .store (.putEvent e) → e.blockNumber ≠ number) ∧
          ∀ c, a.1 ≠ .store (.putCheckpoint c number) := by
  intro before ingestor trace result
  have hgreatest : BlockHeader.greatestNumber + 1 = 2 ^ 63 := by decide
  obtain ⟨hlow, cursor, hsame⟩ :=
    low_after world calls (start agent channel) s nofun
  have hchannel : ingestor.channel = channel := by
    rw [show ingestor = _ from hsame]
    rfl
  obtain ⟨hbounded, hleaves, hreconcile⟩ := call.leaves ingestor world before.2
  refine ⟨fun n hn => hgreatest ▸ hbounded n hn, ?_, hleaves.cursor, ?_⟩
  · rw [← hgreatest]
    rintro cursor (hcursor | hcursor | ⟨asked, rest, htrace, hcursor⟩)
    · exact hlow cursor hcursor
    · exact hlow.leaves hbounded hleaves cursor hcursor
    · have hasked : Bounded asked := by
        intro n hn
        refine hbounded n ?_
        rw [show (call.program ingestor).trace world before.2 = asked ++ rest from htrace, sums,
          List.filterMap_append]
        exact List.mem_append_left _ hn
      exact hlow.held hasked cursor hcursor
  · intro asked bytes rest block number htrace hblock hnumber hgreat hcall
    have hover : BlockHeader.greatestNumber < number := by omega
    have hfollows : call.follows ingestor asked block := by
      cases call with
      | reconcile => trivial
      | poll stopped stopAt =>
          obtain hcall | hlinked := hcall
          · cases hcall
          · exact hlinked
    obtain ⟨rfl, herror, hcursor⟩ := hleaves.overflow htrace
      ⟨bytes, block, by rw [hchannel], hblock, hnumber, hover, hfollows⟩
    obtain ⟨_, hsame⟩ := hleaves.same
    refine ⟨rfl, herror, rfl, ?_, fun hcall => hreconcile hcall _ herror, ?_⟩
    · rw [show (call.program ingestor).trace world before.2 = _ from htrace, held_concat] at hcursor
      rw [hsame] at hcursor
      exact hsame.trans (congrArg (fun c => ({ ingestor with cursor := c } : Ingestor)) hcursor)
    · intro a ha
      have hmay := call.may ingestor world before.2 a ha
      refine ⟨?_, ?_⟩
      · rintro e he heq
        rw [he] at hmay
        have := hmay.2
        omega
      · intro c hc
        rw [hc] at hmay
        have := hmay.2
        omega

end World

namespace Sample

/-- A transaction of the shortest kind. -/
def tx : TxFixture :=
  ⟨"", "", [], 0, .ofCode 0⟩

/-- A block with the greatest number that a header encoding holds. -/
def last : BlockFixture :=
  ⟨9223372036854775807, [], [tx], none⟩

def behind : BlockFixture :=
  ⟨9223372036854775808, Sha256.digest last.header.element, [tx], none⟩

/-- How many blocks there are up to that one. -/
def height : Nat := 9223372036854775809

/-- A ledger with both blocks, and a store with a checkpoint at a number. -/
def world (checkpoint : Nat) : Program.World Unit
  | .ledger .channels, s => (.ok ["c"], s)
  | .ledger (.tipHeight _), s => (.ok height, s)
  | .ledger (.block _ number), s =>
      (.ok (if number = 9223372036854775807 then last.encode else behind.encode), s)
  | .store (.checkpoint _), s => (.ok (some checkpoint), s)
  | .store (.blockHash ..), s => (.ok (some (Sha256.digest last.header.element).toHex), s)
  | .store (.putCheckpoint ..), s => (.ok (), s)
  | .store (.putEvent _), s => (.ok (), s)
  | .cancelled, s => (false, s)
  | .report _, s => ((), s)

end Sample

open Sample in
/-- A reconciliation with the greatest number and a poll behind it, and a reconciliation there. -/
theorem numbers_bounded_behind_last :
    let agent := Deployment.Sample.agent
    let placed : Ingestor :=
      ⟨agent, "c", some ⟨9223372036854775808, some (Sha256.digest last.header.element)⟩⟩
    (after (world 9223372036854775807) [.reconcile] (start agent "c") ()).1 = placed ∧
    (placed.poll.run (world 9223372036854775807) ()).1
      = (.error (.blockNumberOverflow 9223372036854775808), placed) ∧
    ((start agent "c").reconcile.run (world 9223372036854775808) ()).1
      = (.error (.blockNumberOverflow 9223372036854775808), start agent "c") := by
  intro agent placed
  have hplaced : (after (world 9223372036854775807) [.reconcile] (start agent "c") ()).1
      = placed := by decide +kernel
  have hbehind : Block.decode behind.encode = .ok (behind.record tx) :=
    BlockFixture.decode_encode (by decide +kernel) rfl
  refine ⟨hplaced, ?_, ?_⟩
  · obtain ⟨rest, htrace⟩ : ∃ rest, placed.poll.trace (world 9223372036854775807) ()
        = [⟨.ledger (.tipHeight "c"), .ok height⟩, ⟨.cancelled, false⟩]
          ++ ⟨.ledger (.block "c" 9223372036854775808), .ok behind.encode⟩ :: rest := ⟨_, rfl⟩
    obtain ⟨-, -, -, hoverflow⟩ := numbers_bounded (world 9223372036854775807) () agent "c"
      [.reconcile] (.poll false none)
    rw [hplaced] at hoverflow
    obtain ⟨-, herror, -, hsame, -⟩ := hoverflow _ _ rest _ _ htrace hbehind rfl (by decide)
      (.inr (by rintro _ ⟨⟩; exact beq_self_eq_true _))
    exact Prod.ext herror hsame
  · obtain ⟨rest, htrace⟩ : ∃ rest,
        (start agent "c").reconcile.trace (world 9223372036854775808) ()
          = [⟨.store (.checkpoint "c"), .ok (some 9223372036854775808)⟩,
              ⟨.store (.blockHash "c" 9223372036854775808),
                .ok (some (Sha256.digest last.header.element).toHex)⟩]
            ++ ⟨.ledger (.block "c" 9223372036854775808), .ok behind.encode⟩ :: rest := ⟨_, rfl⟩
    obtain ⟨-, -, -, hoverflow⟩ := numbers_bounded (world 9223372036854775808) () agent "c" []
      .reconcile
    obtain ⟨-, herror, -, -, hsame, -⟩ := hoverflow _ _ rest _ _ htrace hbehind rfl (by decide)
      (.inl rfl)
    exact Prod.ext herror (hsame rfl)

end Ingestor

end LedgerIndex
