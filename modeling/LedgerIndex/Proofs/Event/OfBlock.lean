import LedgerIndex.Event.OfBlock
import LedgerIndex.Proofs.Event.DocumentId
import Mathlib.Data.List.Sigma

/-! # What is published for a block

All events of a block carry the agent's origin on the channel and the number of the block
(`Agent.origin_of_mem_eventsOf`, `Agent.blockNumber_of_mem_eventsOf`), no two of them are the same
document (`Agent.separate_eventsOf`), and the only event of kind block is the last
(`Agent.eventsOf_eq_append`). -/

namespace LedgerIndex

/-- The later of two such events takes the place of the earlier one in an index store. -/
def Event.SameDocument (e f : Event) : Prop :=
  e.kind = f.kind ∧ e.documentId = f.documentId

instance (e f : Event) : Decidable (e.SameDocument f) := instDecidableAnd

/-- No two events of a list are the same document. -/
def Event.Separate (l : List Event) : Prop :=
  l.Pairwise fun e f => ¬ e.SameDocument f

theorem Event.SameDocument.symm {e f : Event} (h : e.SameDocument f) : f.SameDocument e :=
  ⟨h.1.symm, h.2.symm⟩

theorem Event.SameDocument.trans {e f g : Event} (h : e.SameDocument f) (h' : f.SameDocument g) :
    e.SameDocument g := ⟨h.1.trans h'.1, h.2.trans h'.2⟩

instance : Std.Symm fun e f : Event => ¬ e.SameDocument f := ⟨fun _ _ h h' => h h'.symm⟩

theorem Event.Separate.eq_of_same {l : List Event} (hl : Separate l) {e f : Event} (he : e ∈ l)
    (hf : f ∈ l) (h : e.SameDocument f) : e = f := by
  by_contra hne
  exact List.Pairwise.forall hl he hf hne h

theorem pairwise_zipIdx_snd {α : Type} (l : List α) : l.zipIdx.Pairwise fun a b => a.2 ≠ b.2 :=
  List.pairwise_map.mp (List.nodup_zipIdx_map_snd l)

namespace Agent

variable (agent : Agent) (channel : String) (block : Block)

/-- The events of the transactions of a block. -/
def transactionEventsOf (txs : List Transaction) : List Event :=
  txs.zipIdx.flatMap fun (tx, txIndex) => agent.eventsOfTransaction channel block tx txIndex

theorem eventsOf_eq_append (blockHash : String) (txs : List Transaction) :
    agent.eventsOf channel block blockHash txs
      = agent.transactionEventsOf channel block txs
        ++ [.block (agent.blockEvent channel block blockHash txs)] := rfl

/-! ### One transaction -/

theorem mem_eventsOfTransaction {tx : Transaction} {txIndex : Nat} {e : Event}
    (h : e ∈ agent.eventsOfTransaction channel block tx txIndex) :
    e.origin = agent.origin channel ∧ e.kind ≠ .block ∧
      ∃ rest, e.place = block.header.number :: txIndex :: rest := by
  rcases List.mem_append.mp h with h | h
  · unfold writeEventsOf at h
    split at h
    · obtain ⟨⟨entry, writeIndex⟩, _, rfl⟩ := List.mem_map.mp h
      exact ⟨rfl, by simp [Event.kind], [writeIndex], rfl⟩
    · simp at h
  · rw [List.mem_singleton] at h
    subst h
    exact ⟨rfl, by simp [Event.kind], [], rfl⟩

theorem pairwise_writeEventsOf (tx : Transaction) (txIndex : Nat) :
    (agent.writeEventsOf channel block tx txIndex).Pairwise fun e f => e.place ≠ f.place := by
  unfold writeEventsOf
  split
  · refine List.pairwise_map.mpr ((pairwise_zipIdx_snd _).imp ?_)
    rintro ⟨entry, i⟩ ⟨entry', j⟩ hne hplace
    simp only [Event.place, writeEvent, List.cons.injEq, and_true, true_and] at hplace
    exact hne hplace
  · exact List.Pairwise.nil

theorem pairwise_eventsOfTransaction (tx : Transaction) (txIndex : Nat) :
    (agent.eventsOfTransaction channel block tx txIndex).Pairwise
      fun e f => ¬ (e.kind = f.kind ∧ e.place = f.place) := by
  refine List.pairwise_append.mpr ⟨?_, List.pairwise_singleton .., ?_⟩
  · exact (agent.pairwise_writeEventsOf channel block tx txIndex).imp fun hne h => hne h.2
  · intro e he f hf h
    rw [List.mem_singleton] at hf
    subst hf
    unfold writeEventsOf at he
    split at he
    · obtain ⟨⟨entry, writeIndex⟩, _, rfl⟩ := List.mem_map.mp he
      simp [Event.kind] at h
    · simp at he

/-! ### All of them -/

theorem mem_transactionEventsOf {txs : List Transaction} {e : Event}
    (h : e ∈ agent.transactionEventsOf channel block txs) :
    e.origin = agent.origin channel ∧ e.kind ≠ .block ∧ e.blockNumber = block.header.number := by
  obtain ⟨⟨tx, txIndex⟩, _, he⟩ := List.mem_flatMap.mp h
  obtain ⟨horigin, hkind, rest, hplace⟩ := agent.mem_eventsOfTransaction channel block he
  refine ⟨horigin, hkind, ?_⟩
  cases e <;> simp_all [Event.place, Event.blockNumber]

theorem pairwise_transactionEventsOf (txs : List Transaction) :
    (agent.transactionEventsOf channel block txs).Pairwise
      fun e f => ¬ (e.kind = f.kind ∧ e.place = f.place) := by
  refine List.pairwise_flatMap.mpr ⟨?_, ?_⟩
  · rintro ⟨tx, txIndex⟩ _
    exact agent.pairwise_eventsOfTransaction channel block tx txIndex
  · refine (pairwise_zipIdx_snd txs).imp ?_
    rintro ⟨tx, i⟩ ⟨tx', j⟩ hne e he f hf ⟨_, hplace⟩
    obtain ⟨_, _, rest, he⟩ := agent.mem_eventsOfTransaction channel block he
    obtain ⟨_, _, rest', hf⟩ := agent.mem_eventsOfTransaction channel block hf
    rw [he, hf] at hplace
    simp only [List.cons.injEq, true_and] at hplace
    exact hne hplace.1

variable {agent channel block} {blockHash : String} {txs : List Transaction}

theorem origin_of_mem_eventsOf {e : Event}
    (h : e ∈ agent.eventsOf channel block blockHash txs) : e.origin = agent.origin channel := by
  rcases List.mem_append.mp h with h | h
  · exact (agent.mem_transactionEventsOf channel block h).1
  · rw [List.mem_singleton] at h
    rw [h]
    rfl

theorem blockNumber_of_mem_eventsOf {e : Event}
    (h : e ∈ agent.eventsOf channel block blockHash txs) : e.blockNumber = block.header.number := by
  rcases List.mem_append.mp h with h | h
  · exact (agent.mem_transactionEventsOf channel block h).2.2
  · rw [List.mem_singleton] at h
    rw [h]
    rfl

theorem eventsOf_split {sent rest : List Event} {e : Event}
    (h : agent.eventsOf channel block blockHash txs = sent ++ e :: rest) :
    (rest = [] ∧ e = .block (agent.blockEvent channel block blockHash txs)) ∨
      (rest ≠ [] ∧ e.kind ≠ .block) := by
  rw [eventsOf_eq_append] at h
  rcases List.eq_nil_or_concat rest with rfl | ⟨front, last, rfl⟩
  · exact .inl ⟨rfl, (List.singleton_inj.mp (List.append_inj_right' h rfl)).symm⟩
  · refine .inr ⟨by simp, ?_⟩
    rw [List.concat_eq_append, ← List.cons_append, ← List.append_assoc] at h
    have he : e ∈ agent.transactionEventsOf channel block txs := by
      rw [List.append_inj_left' h rfl]
      exact List.mem_append_right _ List.mem_cons_self
    exact (agent.mem_transactionEventsOf channel block he).2.1

/-- Of the events of one transaction only the last is of kind transaction. -/
theorem count_transaction_eventsOfTransaction (tx : Transaction) (txIndex : Nat) :
    (agent.eventsOfTransaction channel block tx txIndex).countP (·.kind = .transaction) = 1 := by
  have hwrites : (agent.writeEventsOf channel block tx txIndex).countP
      (·.kind = .transaction) = 0 := by
    refine List.countP_eq_zero.mpr fun e he => ?_
    unfold writeEventsOf at he
    split at he
    · obtain ⟨⟨entry, writeIndex⟩, _, rfl⟩ := List.mem_map.mp he
      simp [Event.kind]
    · simp at he
  rw [eventsOfTransaction, List.countP_append, hwrites]
  rfl

/-- There is one event of kind transaction for each transaction of a block. -/
theorem count_transaction_eventsOf :
    (agent.eventsOf channel block blockHash txs).countP (·.kind = .transaction) = txs.length := by
  have hblock : [Event.block (agent.blockEvent channel block blockHash txs)].countP
      (·.kind = .transaction) = 0 := rfl
  rw [eventsOf_eq_append, List.countP_append, hblock, transactionEventsOf, List.countP_flatMap]
  simp [Function.comp_def, count_transaction_eventsOfTransaction]

/-- **No two events of a block are the same document.** -/
theorem separate_eventsOf : Event.Separate (agent.eventsOf channel block blockHash txs) := by
  have hplaces : (agent.eventsOf channel block blockHash txs).Pairwise
      fun e f => ¬ (e.kind = f.kind ∧ e.place = f.place) := by
    refine List.pairwise_append.mpr
      ⟨agent.pairwise_transactionEventsOf channel block txs, List.pairwise_singleton .., ?_⟩
    rintro e he f hf ⟨hkind, _⟩
    rw [List.mem_singleton] at hf
    subst hf
    exact (agent.mem_transactionEventsOf channel block he).2.1 hkind
  refine hplaces.imp_of_mem ?_
  intro e f he hf hne h
  refine hne ⟨h.1, (Event.documentId_inj h.1 ?_ h.2).2⟩
  rw [origin_of_mem_eventsOf he, origin_of_mem_eventsOf hf]

end Agent

end LedgerIndex
