import LedgerIndex.Proofs.Ingest.Safety

/-! # Traces of programs

`Program.trace` lists the questions that a program asks in a world, each with the answer it got.
What is `Safe` in the environment that writes such a list (`recording`) holds of the trace in every
world, and two worlds that answer alike whatever the program may ask cannot be told apart by it
(`Safe.simulates`).  In any two worlds the traces are the same up to an answer in which the worlds
differ (`Program.trace_diverges`). -/

namespace LedgerIndex.Ingest

/-- A question and the answer that was given. -/
abbrev Asked : Type :=
  (q : Query) × q.Answer

/-- Which answers a question may get. -/
abbrev Answering : Type :=
  (q : Query) → q.Answer → Prop

instance (q : Query) : Nonempty q.Answer := by
  cases q with
  | ledger q => exact ⟨.error .request⟩
  | store q => exact ⟨.error .request⟩
  | cancelled => exact ⟨false⟩
  | report progress => exact ⟨()⟩

/-- The environment that writes down what is asked. -/
def recording (possible : Answering) : Environment (List Asked)
  | q, asked, answer, asked' => possible q answer ∧ asked' = asked ++ [⟨q, answer⟩]

/-- Two traces that first differ in the answer to one question. -/
def Diverge (asked asked' : List Asked) : Prop :=
  ∃ (before : List Asked) (q : Query) (answer answer' : q.Answer) (rest rest' : List Asked),
    answer ≠ answer' ∧ asked = before ++ ⟨q, answer⟩ :: rest ∧
      asked' = before ++ ⟨q, answer'⟩ :: rest'

theorem Diverge.cons {asked asked' : List Asked} (a : Asked) (h : Diverge asked asked') :
    Diverge (a :: asked) (a :: asked') := by
  obtain ⟨before, q, answer, answer', rest, rest', hne, rfl, rfl⟩ := h
  exact ⟨a :: before, q, answer, answer', rest, rest', hne, rfl, rfl⟩

namespace Program

variable {α β σ τ : Type}

/-- The questions of a program in a world, with their answers. -/
def trace (world : World σ) : Program α → σ → List Asked
  | done _, _ => []
  | ask q next, s => ⟨q, (world q s).1⟩ :: (next (world q s).1).trace world (world q s).2

@[simp] theorem trace_pure (world : World σ) (a : α) (s : σ) :
    (pure a : Program α).trace world s = [] := rfl

@[simp] theorem run_pure (world : World σ) (a : α) (s : σ) :
    (pure a : Program α).run world s = (a, s) := rfl

theorem run_ask {world : World σ} {q : Query} {s : σ} {answer : q.Answer}
    (next : q.Answer → Program α) (h : (world q s).1 = answer) :
    (ask q next).run world s = (next answer).run world (world q s).2 := by
  rw [← h]
  rfl

theorem trace_ask {world : World σ} {q : Query} {s : σ} {answer : q.Answer}
    (next : q.Answer → Program α) (h : (world q s).1 = answer) :
    (ask q next).trace world s = ⟨q, answer⟩ :: (next answer).trace world (world q s).2 := by
  rw [← h]
  rfl

theorem run_bind (world : World σ) (p : Program α) (f : α → Program β) (s : σ) :
    (p >>= f).run world s = (f (p.run world s).1).run world (p.run world s).2 := by
  induction p generalizing s with
  | done a => rfl
  | ask q next ih => exact ih _ _

theorem trace_bind (world : World σ) (p : Program α) (f : α → Program β) (s : σ) :
    (p >>= f).trace world s
      = p.trace world s ++ (f (p.run world s).1).trace world (p.run world s).2 := by
  induction p generalizing s with
  | done a => rfl
  | ask q next ih => exact congrArg _ (ih _ _)

/-- What a world keeps to while it answers holds of everything in a trace. -/
theorem forall_mem_trace {world : World σ} {keep : σ → Prop} {good : Asked → Prop}
    (hworld : ∀ q s, keep s → good ⟨q, (world q s).1⟩ ∧ keep (world q s).2) (p : Program α) {s : σ}
    (hs : keep s) : ∀ a ∈ p.trace world s, good a := by
  induction p generalizing s with
  | done a => exact fun _ ha => absurd ha List.not_mem_nil
  | ask q next ih =>
      obtain ⟨hgood, hkeep⟩ := hworld q s hs
      intro a ha
      rcases List.mem_cons.mp ha with rfl | ha
      · exact hgood
      · exact ih _ hkeep a ha

/-- What a program asks depends on the answers only: two of its runs are the same, or first differ
in the answer to one question. -/
theorem trace_diverges (world : World σ) (world' : World τ) (p : Program α) (s : σ) (t : τ) :
    ((p.run world s).1 = (p.run world' t).1 ∧ p.trace world s = p.trace world' t) ∨
      Diverge (p.trace world s) (p.trace world' t) := by
  induction p generalizing s t with
  | done a => exact .inl ⟨rfl, rfl⟩
  | ask q next ih =>
      by_cases heq : (world q s).1 = (world' q t).1
      · rw [run_ask next heq.symm, trace_ask next heq.symm]
        rcases ih _ (world q s).2 (world' q t).2 with ⟨hresult, htrace⟩ | hdiverge
        · exact .inl ⟨hresult, congrArg _ htrace⟩
        · exact .inr (hdiverge.cons _)
      · exact .inr ⟨[], q, _, _, _, _, heq, rfl, rfl⟩

/-- What is safe in the environment that writes down holds of the trace in every world whose answers
are possible. -/
theorem Safe.traced {possible : Answering} {inv : List Asked → Prop} {post : α → List Asked → Prop}
    {world : World σ} (hpossible : ∀ q s, possible q (world q s).1) {p : Program α}
    {asked : List Asked} (h : Safe (recording possible) inv post p asked) (s : σ) :
    inv (asked ++ p.trace world s) ∧ post (p.run world s).1 (asked ++ p.trace world s) := by
  induction p generalizing asked s with
  | done a =>
      rw [trace, List.append_nil]
      exact h
  | ask q next ih =>
      have hnext := ih _ (h.2 _ _ ⟨hpossible q s, rfl⟩) (world q s).2
      rw [List.append_assoc] at hnext
      exact hnext

/-- Safety for the sake of a weaker invariant; at the end the stronger one still holds. -/
theorem Safe.weaken {env : Environment σ} {inv inv' : σ → Prop} {post : α → σ → Prop}
    {p : Program α} {s : σ} (h : Safe env inv post p s) (hinv : ∀ t, inv t → inv' t) :
    Safe env inv' (fun a t => inv t ∧ post a t) p s := by
  induction p generalizing s with
  | done a => exact ⟨hinv s h.1, h⟩
  | ask q next ih => exact ⟨hinv s h.1, fun answer t ht => ih answer (h.2 answer t ht)⟩

/-- Two worlds in related states give possible and equal answers to whatever may be asked, and are
in related states afterwards. -/
def World.Simulates (world : World σ) (world' : World τ) (may : Query → Prop)
    (possible : Answering) (rel : σ → τ → Prop) : Prop :=
  ∀ q s t, may q → rel s t → (world q s).1 = (world' q t).1 ∧ possible q (world q s).1 ∧
    rel (world q s).2 (world' q t).2

/-- Two runs with the same result and the same trace. -/
structure Matched (rel : σ → τ → Prop) (p : Program α) (world : World σ) (s : σ)
    (world' : World τ) (t : τ) : Prop where
  result : (p.run world s).1 = (p.run world' t).1
  trace : p.trace world s = p.trace world' t
  states : rel (p.run world s).2 (p.run world' t).2

/-- **A program cannot tell two worlds apart that answer alike what it may ask.** -/
theorem Safe.simulates {possible : Answering} {may : Query → Prop} {inv : List Asked → Prop}
    {post : α → List Asked → Prop} {world : World σ} {world' : World τ} {rel : σ → τ → Prop}
    (hworlds : world.Simulates world' may possible rel)
    (hpossible : ∀ q, ∃ answer, possible q answer)
    (hmay : ∀ asked a, inv (asked ++ [a]) → may a.1) {p : Program α} {asked : List Asked} {s : σ}
    {t : τ} (h : Safe (recording possible) inv post p asked) (hrel : rel s t) :
    Matched rel p world s world' t ∧ inv (asked ++ p.trace world s) ∧
      post (p.run world s).1 (asked ++ p.trace world s) := by
  induction p generalizing asked s t with
  | done a =>
      rw [trace, List.append_nil]
      exact ⟨⟨rfl, rfl, hrel⟩, h⟩
  | ask q next ih =>
      obtain ⟨answer, hanswer⟩ := hpossible q
      have hq : may q := hmay asked ⟨q, answer⟩ (h.2 answer _ ⟨hanswer, rfl⟩).start
      obtain ⟨heq, hanswer, hrel⟩ := hworlds q s t hq hrel
      obtain ⟨⟨hresult, htrace, hstates⟩, hpost⟩ := ih _ (h.2 _ _ ⟨hanswer, rfl⟩) hrel
      rw [List.append_assoc] at hpost
      refine ⟨⟨?_, ?_, ?_⟩, hpost⟩
      · rw [run_ask next heq.symm]
        exact hresult
      · rw [trace_ask next heq.symm, ← htrace]
        rfl
      · rw [run_ask next heq.symm]
        exact hstates

/-- What is safe in an environment holds of a run in a world that answers within it whatever may be
asked. -/
theorem Safe.run_asking {possible : Answering} {may : Query → Prop} {inv : σ → Prop}
    {env : Environment σ} {post : α → σ → Prop} {invAsked : List Asked → Prop}
    {postAsked : α → List Asked → Prop} {world : World τ} {sees : τ → σ → Prop}
    (hworld : ∀ (q : Query) {w : τ} {s : σ}, may q → sees w s → possible q (world q w).1 ∧
      ∃ t, env q s (world q w).1 t ∧ sees (world q w).2 t)
    (hpossible : ∀ q, ∃ answer, possible q answer)
    (hmay : ∀ asked a, invAsked (asked ++ [a]) → may a.1) {p : Program α} {asked : List Asked}
    {w : τ} {s : σ} (h : Safe env inv post p s)
    (hasks : Safe (recording possible) invAsked postAsked p asked) (hs : sees w s) :
    ∃ t, sees (p.run world w).2 t ∧ post (p.run world w).1 t := by
  induction p generalizing asked w s with
  | done a => exact ⟨s, hs, h.2⟩
  | ask q next ih =>
      obtain ⟨answer, hanswer⟩ := hpossible q
      have hq : may q := hmay asked ⟨q, answer⟩ (hasks.2 answer _ ⟨hanswer, rfl⟩).start
      obtain ⟨hanswer, t, ht, hsees⟩ := hworld q hq hs
      exact ih _ (h.2 _ t ht) (hasks.2 _ _ ⟨hanswer, rfl⟩) hsees

theorem Safe.keeps {possible : Answering} {may : Query → Prop} {inv : List Asked → Prop}
    {post : α → List Asked → Prop} {world : World σ} {keep : σ → Prop}
    (hworld : ∀ q s, may q → keep s → possible q (world q s).1 ∧ keep (world q s).2)
    (hpossible : ∀ q, ∃ answer, possible q answer)
    (hmay : ∀ asked a, inv (asked ++ [a]) → may a.1) {p : Program α} {asked : List Asked} {s : σ}
    (h : Safe (recording possible) inv post p asked) (hs : keep s) :
    keep (p.run world s).2 ∧ inv (asked ++ p.trace world s) ∧
      post (p.run world s).1 (asked ++ p.trace world s) := by
  have hworlds : world.Simulates world may possible fun s t => s = t ∧ keep s := by
    rintro q s _ hq ⟨rfl, hs⟩
    obtain ⟨hanswer, hkeep⟩ := hworld q s hq hs
    exact ⟨rfl, hanswer, rfl, hkeep⟩
  obtain ⟨hmatched, hpost⟩ := h.simulates hworlds hpossible hmay ⟨rfl, hs⟩
  exact ⟨hmatched.states.2, hpost⟩

end Program

end LedgerIndex.Ingest
