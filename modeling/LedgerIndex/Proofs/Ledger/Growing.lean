import LedgerIndex.Proofs.Ingest.Surroundings

/-! # Channels that only grow

While no block of a channel is replaced, a block that the ledger has under a number stays there
(`Deployment.block?_run`).  Whatever the ledger serves for the channel in the course of a run is
then what it has at the end (`Deployment.ledgerWithin_last`). -/

namespace LedgerIndex

/-- A ledger that serves, for the blocks of a channel, nothing but the given ones. -/
def Ledger.serving (channel : String) (block? : Nat → Option Bytes) : Ledger.Serving
  | .block c number, .ok bytes => c = channel → block? number = some bytes
  | _, _ => True

namespace MemoryLedger

/-- The block of a channel under a number. -/
def block? (ledger : MemoryLedger) (channel : String) (number : Nat) : Option Bytes :=
  (ledger.blocks? channel).bind (·[number]?)

variable {ledger : MemoryLedger} {channel : String} {number : Nat} {bytes : Bytes}

theorem blocks?_push_self (ledger : MemoryLedger) (channel : String) (bytes : Bytes) :
    (ledger.push channel bytes).blocks? channel
      = some ((ledger.blocks? channel).getD [] ++ [bytes]) := Entries.get?_put_self ..

theorem blocks?_push_of_ne (ledger : MemoryLedger) {channel other : String} (h : channel ≠ other)
    (bytes : Bytes) : (ledger.push other bytes).blocks? channel = ledger.blocks? channel :=
  Entries.get?_put_of_ne h ..

theorem blocks?_replace_of_ne (ledger : MemoryLedger) {channel other : String}
    (h : channel ≠ other) (number : Nat) (bytes : Bytes) :
    (ledger.replace other number bytes).2.blocks? channel = ledger.blocks? channel := by
  unfold replace
  split
  · split
    · exact Entries.get?_put_of_ne h ..
    · rfl
  · rfl

theorem block?_push (h : ledger.block? channel number = some bytes) (other : String)
    (block : Bytes) : (ledger.push other block).block? channel number = some bytes := by
  obtain ⟨blocks, hblocks, hnumber⟩ := Option.bind_eq_some_iff.mp h
  unfold block?
  by_cases hother : channel = other
  · subst hother
    rw [blocks?_push_self, hblocks, Option.getD_some, Option.bind_some]
    obtain ⟨hlt, _⟩ := List.getElem?_eq_some_iff.mp hnumber
    rw [List.getElem?_append_left hlt, hnumber]
  · rw [blocks?_push_of_ne ledger hother, hblocks, Option.bind_some, hnumber]

theorem block?_of_answer (h : ledger.answer (.block channel number) = .ok bytes) :
    ledger.block? channel number = some bytes := by
  unfold answer at h
  split at h
  · cases h
  · simp only [lookUp] at h
    split at h
    · rename_i blocks hblocks
      split at h
      · rename_i block hblock
        cases h
        rw [block?, hblocks, Option.bind_some, hblock]
      · cases h
    · cases h

theorem serving_answer (ledger : MemoryLedger) {final : Nat → Option Bytes}
    (h : ∀ number bytes, ledger.block? channel number = some bytes → final number = some bytes)
    (q : Ledger.Query) : Ledger.serving channel final q (ledger.answer q) := by
  cases q with
  | channels => trivial
  | tipHeight c => trivial
  | block c number =>
      cases hanswer : ledger.answer (.block c number) with
      | error e => trivial
      | ok bytes =>
          rintro rfl
          exact h number bytes (block?_of_answer hanswer)

end MemoryLedger

namespace Deployment

@[simp] theorem ledger_begin (d : Deployment) (call : Engine → EngineCall) :
    (d.begin call).ledger = d.ledger := by
  unfold begin
  split <;> rfl

@[simp] theorem ledger_proceed (d : Deployment) (cancelled : Bool) :
    (d.proceed cancelled).ledger = d.ledger := by
  unfold proceed
  split <;> rfl

variable {channel : String} {number : Nat} {bytes : Bytes}

theorem block?_step {d : Deployment} {action : Action}
    (haction : ∀ n b, action ≠ .replace channel n b)
    (h : d.ledger.block? channel number = some bytes) :
    (d.step action).ledger.block? channel number = some bytes := by
  cases action with
  | push other block => exact MemoryLedger.block?_push h other block
  | replace other n block =>
      have hother : channel ≠ other := by
        rintro rfl
        exact haction n block rfl
      simp only [step, MemoryLedger.block?, d.ledger.blocks?_replace_of_ne hother]
      exact h
  | reconcile other => simpa only [step, ledger_begin] using h
  | poll other => simpa only [step, ledger_begin] using h
  | answer cancelled => simpa only [step, ledger_proceed] using h
  | start agent channels => exact h
  | kill => exact h
  | setUnavailable unavailable => exact h
  | limitPuts successful => exact h

/-- **A block of a channel that only grows stays where it is.** -/
theorem block?_run {d : Deployment} {actions : List Action}
    (hactions : ∀ n b, .replace channel n b ∉ actions)
    (h : d.ledger.block? channel number = some bytes) :
    (d.run actions).ledger.block? channel number = some bytes := by
  induction actions generalizing d with
  | nil => exact h
  | cons action actions ih =>
      have haction : ∀ n b, action ≠ .replace channel n b := by
        rintro n b rfl
        exact hactions n b List.mem_cons_self
      exact ih (fun n b hmem => hactions n b (List.mem_cons_of_mem _ hmem))
        (block?_step haction h)

/-- What is served for such a channel is what the ledger has at the end. -/
theorem ledgerWithin_last {d : Deployment} {actions : List Action}
    (hactions : ∀ n b, .replace channel n b ∉ actions) :
    d.LedgerWithin (Ledger.serving channel ((d.run actions).ledger.block? channel)) actions := by
  induction actions generalizing d with
  | nil => trivial
  | cons action actions ih =>
      exact ⟨d.ledger.serving_answer fun number bytes h => block?_run hactions h,
        ih fun n b hmem => hactions n b (List.mem_cons_of_mem _ hmem)⟩

end Deployment

end LedgerIndex
