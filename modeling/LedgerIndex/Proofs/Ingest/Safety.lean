import LedgerIndex.Ingest.Ingestor

/-! # Safety of programs

A program runs in an `Environment`, which may answer a question in more than one way and change the
state while it answers.  `Program.Safe env inv post p s` says that, whatever the answers to the
questions of `p` from the state `s` on, every state on the way satisfies `inv`, and the result
together with the last state satisfies `post`.  A program may therefore be dropped between any two
of its questions, and still leaves a state with `inv`.

`Attempt.Safe` is the same for programs that may fail, with one postcondition for values and one for
errors.  The rules follow the ways in which programs are put together.  What is safe in an
environment holds of every run in a world that answers within it (`Program.Safe.run`). -/

namespace LedgerIndex

namespace Ingest

/-- The ways in which a question may be answered in a state, with the state after the answer. -/
abbrev Environment (σ : Type) : Type :=
  (q : Query) → σ → q.Answer → σ → Prop

namespace Program

variable {α β σ : Type} {env : Environment σ} {inv : σ → Prop} {s : σ}

/-- Every state on the way satisfies `inv`, the result and the last state satisfy `post`. -/
def Safe (env : Environment σ) (inv : σ → Prop) (post : α → σ → Prop) : Program α → σ → Prop
  | done a, s => inv s ∧ post a s
  | ask q next, s => inv s ∧ ∀ answer t, env q s answer t → Safe env inv post (next answer) t

theorem Safe.start {post : α → σ → Prop} {p : Program α} (h : Safe env inv post p s) : inv s := by
  cases p with
  | done a => exact h.1
  | ask q next => exact h.1

theorem Safe.mono {post post' : α → σ → Prop} {p : Program α} (h : Safe env inv post p s)
    (hpost : ∀ a t, inv t → post a t → post' a t) : Safe env inv post' p s := by
  induction p generalizing s with
  | done a => exact ⟨h.1, hpost a s h.1 h.2⟩
  | ask q next ih => exact ⟨h.1, fun answer t ht => ih answer (h.2 answer t ht)⟩

theorem Safe.pure {post : α → σ → Prop} {a : α} (hs : inv s) (ha : post a s) :
    Safe env inv post (Pure.pure a) s := ⟨hs, ha⟩

theorem Safe.bind {post : β → σ → Prop} {p : Program α} {f : α → Program β}
    (h : Safe env inv (fun a t => Safe env inv post (f a) t) p s) :
    Safe env inv post (p >>= f) s := by
  induction p generalizing s with
  | done a => exact h.2
  | ask q next ih => exact ⟨h.1, fun answer t ht => ih answer (h.2 answer t ht)⟩

theorem Safe.query {q : Query} {post : q.Answer → σ → Prop} (hs : inv s)
    (h : ∀ answer t, env q s answer t → inv t ∧ post answer t) :
    Safe env inv post (Program.query q) s := ⟨hs, h⟩

/-- A world answers as the environment lets it, where `sees` says which of the environment's states
stand for one of its own. -/
def World.Within {τ : Type} (world : World τ) (env : Environment σ) (sees : τ → σ → Prop) : Prop :=
  ∀ (q : Query) {w : τ} {s : σ}, sees w s →
    ∃ t, env q s (world q w).1 t ∧ sees (world q w).2 t

/-- What is safe in an environment holds at the end of a run in a world within it. -/
theorem Safe.run {τ : Type} {world : World τ} {sees : τ → σ → Prop} {post : α → σ → Prop}
    (hworld : world.Within env sees) {p : Program α} {w : τ} (h : Safe env inv post p s)
    (hs : sees w s) : ∃ t, sees (p.run world w).2 t ∧ post (p.run world w).1 t := by
  induction p generalizing w s with
  | done a => exact ⟨s, hs, h.2⟩
  | ask q next ih =>
      obtain ⟨t, hanswer, ht⟩ := hworld q hs
      exact ih _ (h.2 _ t hanswer) ht

end Program

end Ingest

open Ingest

namespace Attempt

variable {α β σ : Type} {env : Environment σ} {inv : σ → Prop} {s : σ}
  {good : α → σ → Prop} {bad : IngestError → σ → Prop}

/-- What holds after an attempt: `good` of its value, or `bad` of its error. -/
def After (good : α → σ → Prop) (bad : IngestError → σ → Prop) : Except IngestError α → σ → Prop
  | .ok a, s => good a s
  | .error e, s => bad e s

/-- Safety of a program that may fail. -/
def Safe (env : Environment σ) (inv : σ → Prop) (good : α → σ → Prop)
    (bad : IngestError → σ → Prop) (p : Attempt α) (s : σ) : Prop :=
  Program.Safe env inv (After good bad) p.run s

theorem Safe.mono {good' : α → σ → Prop} {bad' : IngestError → σ → Prop} {p : Attempt α}
    (h : Safe env inv good bad p s) (hgood : ∀ a t, inv t → good a t → good' a t)
    (hbad : ∀ e t, inv t → bad e t → bad' e t) : Safe env inv good' bad' p s := by
  refine Program.Safe.mono h ?_
  intro r t ht hr
  cases r with
  | ok a => exact hgood a t ht hr
  | error e => exact hbad e t ht hr

theorem Safe.pure {a : α} (hs : inv s) (ha : good a s) :
    Safe env inv good bad (Pure.pure a : Attempt α) s := ⟨hs, ha⟩

theorem Safe.throw {e : IngestError} (hs : inv s) (he : bad e s) :
    Safe env inv good bad (throw e : Attempt α) s := ⟨hs, he⟩

/-- One attempt after another; an error of the first is the error of both. -/
theorem Safe.bind {good' : β → σ → Prop} {p : Attempt α} {f : α → Attempt β}
    (h : Safe env inv (fun a t => Safe env inv good' bad (f a) t) bad p s) :
    Safe env inv good' bad (p >>= f) s := by
  refine Program.Safe.bind (Program.Safe.mono h ?_)
  intro r t ht hr
  cases r with
  | ok a => exact hr
  | error e => exact ⟨ht, hr⟩

theorem Safe.tryCatch {p : Attempt α} {handle : IngestError → Attempt α}
    (h : Safe env inv good (fun e t => Safe env inv good bad (handle e) t) p s) :
    Safe env inv good bad (MonadExcept.tryCatch p handle) s := by
  refine Program.Safe.bind (Program.Safe.mono h ?_)
  intro r t ht hr
  cases r with
  | ok a => exact ⟨ht, hr⟩
  | error e => exact hr

theorem Safe.ofExcept {ε : Type} {error : ε → IngestError} {r : Except ε α} (hs : inv s)
    (hgood : ∀ a, r = .ok a → good a s) (hbad : ∀ e, r = .error e → bad (error e) s) :
    Safe env inv good bad (Attempt.ofExcept error r) s := by
  cases r with
  | ok a => exact Safe.pure hs (hgood a rfl)
  | error e => exact Safe.throw hs (hbad e rfl)

theorem Safe.lift {q : Query} {good : q.Answer → σ → Prop} (hs : inv s)
    (h : ∀ answer t, env q s answer t → inv t ∧ good answer t) :
    Safe env inv good bad (ExceptT.lift (Program.query q)) s := by
  refine Program.Safe.bind (Program.Safe.query hs ?_)
  intro answer t ht
  obtain ⟨hinv, hgood⟩ := h answer t ht
  exact ⟨hinv, hinv, hgood⟩

theorem Safe.askLedger {channel : String} {q : Ledger.Query} {good : q.Value → σ → Prop}
    (hs : inv s) (h : ∀ answer t, env (.ledger q) s answer t → inv t ∧
      (∀ value, answer = .ok value → good value t) ∧
      ∀ e, answer = .error e → bad (IngestError.ofLedger channel e) t) :
    Safe env inv good bad (Attempt.ledger channel q) s := by
  refine Safe.bind (Safe.lift hs fun answer t ht => ?_)
  obtain ⟨hinv, hgood, hbad⟩ := h answer t ht
  exact ⟨hinv, Safe.ofExcept hinv hgood hbad⟩

theorem Safe.askStore {channel : String} {q : Store.Query} {good : q.Value → σ → Prop}
    (hs : inv s) (h : ∀ answer t, env (.store q) s answer t → inv t ∧
      (∀ value, answer = .ok value → good value t) ∧
      ∀ e, answer = .error e → bad (.store channel e) t) :
    Safe env inv good bad (Attempt.store channel q) s := by
  refine Safe.bind (Safe.lift hs fun answer t ht => ?_)
  obtain ⟨hinv, hgood, hbad⟩ := h answer t ht
  exact ⟨hinv, Safe.ofExcept hinv hgood hbad⟩

end Attempt

/-- An entry of a log with one entry more is that entry or an earlier one. -/
theorem Ingest.split_concat {α : Type} {log before after : List α} {a b : α}
    (h : log ++ [b] = before ++ a :: after) :
    (after = [] ∧ before = log ∧ a = b) ∨
      ∃ front, after = front ++ [b] ∧ log = before ++ a :: front := by
  rcases List.eq_nil_or_concat after with rfl | ⟨front, last, rfl⟩
  · obtain ⟨hlog, hlast⟩ := List.append_inj' h rfl
    exact .inl ⟨rfl, hlog.symm, (List.singleton_inj.mp hlast).symm⟩
  · rw [List.concat_eq_append, ← List.cons_append, ← List.append_assoc] at h
    obtain ⟨hlog, hlast⟩ := List.append_inj' h rfl
    rw [List.singleton_inj.mp hlast]
    exact .inr ⟨front, List.concat_eq_append, hlog⟩

end LedgerIndex
