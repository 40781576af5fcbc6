import Mathlib.Data.List.Forall2
import LedgerIndex.Block.Encoded
import LedgerIndex.Proofs.Wire.Grammar

/-! # List fields

The elements of a list field are what its occurrences hold, in the order in which they stand in the
bytes, whatever other fields stand between them (`Wire.Lists`).  That is so of any field whose
occurrences are appended and that no other field touches (`Wire.Collects.lists`); the list fields of
a read-write set are such fields. -/

namespace LedgerIndex

namespace Wire

/-- The elements that the occurrences of a list field hold, in the order of the bytes. -/
def Lists {E : Type} [Message E] (number : Nat) (elements : List E) (bytes : Bytes) : Prop :=
  ∃ fields, IsFields levels fields bytes ∧
    List.Forall₂ (fun field element => field.message? levels none = some element)
      (fields.filter (·.number = number)) elements

/-- A list field of a message type: an occurrence is appended, another field changes nothing. -/
structure Collects {M E : Type} [Message M] [Message E] (number : Nat) (elements : M → List E) :
    Prop where
  empty : elements Message.empty = []
  own : ∀ {budget : Nat} {m m' : M} {field : Field}, Message.merge budget m field = some m' →
    field.number = number →
      ∃ element, field.message? budget none = some element ∧ elements m' = elements m ++ [element]
  other : ∀ {budget : Nat} {m m' : M} {field : Field}, Message.merge budget m field = some m' →
    field.number ≠ number → elements m' = elements m

variable {M E : Type} [Message M] [Message E] {budget number : Nat} {elements : M → List E}
  {bytes : Bytes}

theorem Collects.appended (h : Collects number elements) {fields : List Field} {m m' : M}
    (hfields : IsFields budget fields bytes) (hm : mergeBytes? budget m bytes = some m') :
    ∃ added, elements m' = elements m ++ added ∧
      List.Forall₂ (fun field element => field.message? budget none = some element)
        (fields.filter (·.number = number)) added := by
  induction hfields generalizing m with
  | nil =>
      cases hm
      exact ⟨[], (List.append_nil _).symm, .nil⟩
  | @cons field fields first rest hfield hfields ih =>
      rw [mergeBytes?_field m hfield, Option.bind_eq_some_iff] at hm
      obtain ⟨next, hnext, hm⟩ := hm
      obtain ⟨added, helements, hadded⟩ := ih hm
      by_cases hnumber : field.number = number
      · obtain ⟨element, helement, hown⟩ := h.own hnext hnumber
        refine ⟨element :: added, by rw [helements, hown, List.append_assoc]; rfl, ?_⟩
        rw [List.filter_cons_of_pos (by simpa using hnumber)]
        exact .cons helement hadded
      · refine ⟨added, by rw [helements, h.other hnext hnumber], ?_⟩
        rw [List.filter_cons_of_neg (by simpa using hnumber)]
        exact hadded

/-- **A list field is read in the order of the bytes.** -/
theorem Collects.lists (h : Collects number elements) {m : M} (hm : decode? bytes = some m) :
    Lists number (elements m) bytes := by
  obtain ⟨fields, hfields⟩ := isFields_of_mergeBytes? hm
  obtain ⟨added, helements, hadded⟩ := h.appended hfields hm
  rw [h.empty, List.nil_append] at helements
  exact ⟨fields, hfields, helements ▸ hadded⟩

end Wire

namespace Encoded

open Wire

theorem TxReadWriteSet.collects_namespaces : Collects 2 TxReadWriteSet.namespaces where
  empty := rfl
  own := by
    rintro budget m m' ⟨number, payload⟩ h rfl
    obtain ⟨element, helement, rfl⟩ := Option.map_eq_some_iff.mp h
    exact ⟨element, helement, rfl⟩
  other := by
    intro budget m m' field h hnumber
    simp only [Message.merge] at h
    split at h
    · obtain ⟨_, _, rfl⟩ := Option.map_eq_some_iff.mp h
      rfl
    · exact (hnumber ‹_›).elim
    · cases h
      rfl

theorem KeyReadWriteSet.collects_reads : Collects 1 KeyReadWriteSet.reads where
  empty := rfl
  own := by
    rintro budget m m' ⟨number, payload⟩ h rfl
    obtain ⟨element, helement, rfl⟩ := Option.map_eq_some_iff.mp h
    exact ⟨element, helement, rfl⟩
  other := by
    intro budget m m' field h hnumber
    simp only [Message.merge] at h
    split at h
    · exact (hnumber ‹_›).elim
    · obtain ⟨_, _, rfl⟩ := Option.map_eq_some_iff.mp h
      rfl
    · cases h
      rfl

theorem KeyReadWriteSet.collects_writes : Collects 3 KeyReadWriteSet.writes where
  empty := rfl
  own := by
    rintro budget m m' ⟨number, payload⟩ h rfl
    obtain ⟨element, helement, rfl⟩ := Option.map_eq_some_iff.mp h
    exact ⟨element, helement, rfl⟩
  other := by
    intro budget m m' field h hnumber
    simp only [Message.merge] at h
    split at h
    · obtain ⟨_, _, rfl⟩ := Option.map_eq_some_iff.mp h
      rfl
    · exact (hnumber ‹_›).elim
    · cases h
      rfl

end Encoded

end LedgerIndex
