import LedgerIndex.Proofs.Event.OfBlock
import LedgerIndex.Store.Memory

/-! # Putting events in each other's place

`MemoryStore.upsert` puts an event in the place of the first one that is the same document, or at
the end.  In a list without two events of one document that keeps the list so
(`separate_upsert`), leaves an event that is there already where it is (`upsert_of_mem`), and does
not mix the events of different channels (`filter_upsert`, `filter_upsert_of_not`). -/

namespace LedgerIndex.MemoryStore

variable {e x : Event} {l : List Event}

theorem upsert_cons_of_same {l : List Event} (h : x.SameDocument e) : upsert e (x :: l) = e :: l :=
  if_pos h

theorem upsert_cons_of_not_same (h : ¬ x.SameDocument e) :
    upsert e (x :: l) = x :: upsert e l := if_neg h

theorem mem_upsert_self (e : Event) (l : List Event) : e ∈ upsert e l := by
  induction l with
  | nil => simp [upsert]
  | cons x l ih =>
      by_cases h : x.SameDocument e
      · rw [upsert_cons_of_same h]
        exact List.mem_cons_self
      · rw [upsert_cons_of_not_same h]
        exact List.mem_cons_of_mem _ ih

theorem mem_of_mem_upsert (h : x ∈ upsert e l) : x = e ∨ x ∈ l := by
  induction l with
  | nil => exact .inl (List.mem_singleton.mp h)
  | cons y l ih =>
      by_cases hy : y.SameDocument e
      · rw [upsert_cons_of_same hy] at h
        exact (List.mem_cons.mp h).imp_right (List.mem_cons_of_mem _)
      · rw [upsert_cons_of_not_same hy] at h
        rcases List.mem_cons.mp h with rfl | h
        · exact .inr List.mem_cons_self
        · exact (ih h).imp_right (List.mem_cons_of_mem _)

/-- What holds of all events and of a new one holds of all events after. -/
theorem forall_mem_upsert {p : Event → Prop} (h : ∀ x ∈ l, p x) (he : p e) :
    ∀ x ∈ upsert e l, p x := by
  intro x hx
  rcases mem_of_mem_upsert hx with rfl | hx
  · exact he
  · exact h x hx

theorem mem_upsert_of_not_same (h : x ∈ l) (hx : ¬ x.SameDocument e) : x ∈ upsert e l := by
  induction l with
  | nil => simp at h
  | cons y l ih =>
      by_cases hy : y.SameDocument e
      · rw [upsert_cons_of_same hy]
        rcases List.mem_cons.mp h with rfl | h
        · exact absurd hy hx
        · exact List.mem_cons_of_mem _ h
      · rw [upsert_cons_of_not_same hy]
        rcases List.mem_cons.mp h with rfl | h
        · exact List.mem_cons_self
        · exact List.mem_cons_of_mem _ (ih h)

theorem upsert_of_forall_not_same (h : ∀ x ∈ l, ¬ x.SameDocument e) : upsert e l = l ++ [e] := by
  induction l with
  | nil => rfl
  | cons y l ih =>
      rw [upsert_cons_of_not_same (h y List.mem_cons_self),
        ih fun x hx => h x (List.mem_cons_of_mem _ hx)]
      rfl

theorem upsert_of_mem (hl : Event.Separate l) (h : e ∈ l) :
    upsert e l = l := by
  induction l with
  | nil => simp at h
  | cons y l ih =>
      obtain ⟨hy, hl⟩ := List.pairwise_cons.mp hl
      rcases List.mem_cons.mp h with rfl | h
      · exact upsert_cons_of_same ⟨rfl, rfl⟩
      · rw [upsert_cons_of_not_same (hy e h), ih hl h]

theorem separate_upsert (hl : Event.Separate l) : Event.Separate (upsert e l) := by
  induction l with
  | nil => exact List.pairwise_singleton ..
  | cons y l ih =>
      obtain ⟨hy, hl⟩ := List.pairwise_cons.mp hl
      by_cases hye : y.SameDocument e
      · rw [upsert_cons_of_same hye]
        exact List.pairwise_cons.mpr ⟨fun x hx h => hy x hx (hye.trans h), hl⟩
      · rw [upsert_cons_of_not_same hye]
        refine List.pairwise_cons.mpr ⟨fun x hx => ?_, ih hl⟩
        rcases mem_of_mem_upsert hx with rfl | hx
        · exact hye
        · exact hy x hx

theorem eq_of_mem_upsert_of_same (hl : Event.Separate l)
    (h : x ∈ upsert e l) (hx : x.SameDocument e) : x = e :=
  (separate_upsert hl).eq_of_same h (mem_upsert_self e l) hx

/-! ### Some of the events -/

theorem filter_upsert {p : Event → Bool} (hp : p e = true)
    (h : ∀ x ∈ l, x.SameDocument e → p x = true) :
    (upsert e l).filter p = upsert e (l.filter p) := by
  induction l with
  | nil => simp [upsert, hp]
  | cons y l ih =>
      have ih := ih fun x hx => h x (List.mem_cons_of_mem _ hx)
      by_cases hy : y.SameDocument e
      · have hpy := h y List.mem_cons_self hy
        rw [upsert_cons_of_same hy, List.filter_cons_of_pos hp, List.filter_cons_of_pos hpy,
          upsert_cons_of_same hy]
      · rw [upsert_cons_of_not_same hy]
        cases hpy : p y with
        | true =>
            rw [List.filter_cons_of_pos hpy, List.filter_cons_of_pos hpy,
              upsert_cons_of_not_same hy, ih]
        | false =>
            rw [List.filter_cons_of_neg (by simp [hpy]), List.filter_cons_of_neg (by simp [hpy]),
              ih]

theorem filter_upsert_of_not {p : Event → Bool} (hp : p e = false)
    (h : ∀ x ∈ l, x.SameDocument e → p x = false) : (upsert e l).filter p = l.filter p := by
  induction l with
  | nil => simp [upsert, hp]
  | cons y l ih =>
      have ih := ih fun x hx => h x (List.mem_cons_of_mem _ hx)
      by_cases hy : y.SameDocument e
      · have hpy := h y List.mem_cons_self hy
        rw [upsert_cons_of_same hy, List.filter_cons_of_neg (by simp [hp]),
          List.filter_cons_of_neg (by simp [hpy])]
      · rw [upsert_cons_of_not_same hy, List.filter_cons, List.filter_cons, ih]

end LedgerIndex.MemoryStore
