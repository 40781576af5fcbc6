import LedgerIndex.Proofs.Json.Grammar

/-! # The fields of an object are in order

`Json.ofFields` puts fields in the order of their keys (`Json.ascending_insertFields`).  Where the
keys are distinct it keeps every field, so that the order in which the fields are given does not
matter (`Json.ofFields_of_perm`). -/

namespace LedgerIndex.Json

variable {key : String} {value : Json} {fields sorted : List (String × Json)}
  {field : String × Json}

/-- The fields that `ofFields` has put in order. -/
def insertFields (fields sorted : List (String × Json)) : List (String × Json) :=
  fields.foldl (fun sorted field => insertField field.1 field.2 sorted) sorted

theorem lt_of_not_lt {k : String} (hlt : ¬ key < k) (hne : key ≠ k) : k < key := by
  rw [← String.not_le]
  exact fun hle => hne (String.le_antisymm hle (String.not_lt.mp hlt))

theorem mem_insertField (h : field ∈ insertField key value sorted) :
    field = (key, value) ∨ field ∈ sorted := by
  induction sorted with
  | nil => exact .inl (List.mem_singleton.mp h)
  | cons first rest ih =>
      obtain ⟨k, v⟩ := first
      rw [insertField] at h
      split at h
      · exact List.mem_cons.mp h
      · split at h
        · exact (List.mem_cons.mp h).imp_right (List.mem_cons_of_mem _)
        · rcases List.mem_cons.mp h with rfl | h
          · exact .inr List.mem_cons_self
          · exact (ih h).imp_right (List.mem_cons_of_mem _)

theorem Ascending.insertField (h : Ascending sorted) :
    Ascending (insertField key value sorted) := by
  induction sorted with
  | nil => exact List.pairwise_singleton _ _
  | cons first rest ih =>
      obtain ⟨k, v⟩ := first
      obtain ⟨hfirst, hrest⟩ := List.pairwise_cons.mp h
      rw [Json.insertField]
      split
      · rename_i hlt
        refine List.pairwise_cons.mpr ⟨fun field hfield => ?_, h⟩
        rcases List.mem_cons.mp hfield with rfl | hfield
        · exact hlt
        · exact String.lt_trans hlt (hfirst field hfield)
      · rename_i hlt
        split
        · rename_i heq
          subst heq
          exact List.pairwise_cons.mpr ⟨hfirst, hrest⟩
        · rename_i hne
          refine List.pairwise_cons.mpr ⟨fun field hfield => ?_, ih hrest⟩
          rcases mem_insertField hfield with rfl | hfield
          · exact lt_of_not_lt hlt hne
          · exact hfirst field hfield

/-- **The fields of an object are in the order of their keys.** -/
theorem ascending_insertFields (fields : List (String × Json)) (h : Ascending sorted) :
    Ascending (insertFields fields sorted) := by
  induction fields generalizing sorted with
  | nil => exact h
  | cons field fields ih => exact ih h.insertField

theorem mem_insertFields (h : field ∈ insertFields fields sorted) :
    field ∈ fields ∨ field ∈ sorted := by
  induction fields generalizing sorted with
  | nil => exact .inr h
  | cons first fields ih =>
      rcases ih h with h | h
      · exact .inl (List.mem_cons_of_mem _ h)
      · exact (mem_insertField h).imp_left fun heq => by rw [heq]; exact List.mem_cons_self

theorem insertField_perm (h : ∀ field ∈ sorted, field.1 ≠ key) :
    (insertField key value sorted).Perm ((key, value) :: sorted) := by
  induction sorted with
  | nil => exact .refl _
  | cons first rest ih =>
      obtain ⟨k, v⟩ := first
      obtain ⟨hfirst, hrest⟩ := List.forall_mem_cons.mp h
      rw [insertField]
      split
      · exact .refl _
      · rw [if_neg (Ne.symm hfirst)]
        exact ((ih hrest).cons _).trans (.swap ..)

theorem insertFields_perm (hfields : fields.Pairwise fun a b => a.1 ≠ b.1)
    (hsorted : ∀ field ∈ fields, ∀ other ∈ sorted, other.1 ≠ field.1) :
    (insertFields fields sorted).Perm (fields ++ sorted) := by
  induction fields generalizing sorted with
  | nil => exact .refl _
  | cons first fields ih =>
      obtain ⟨hfirst, hfields⟩ := List.pairwise_cons.mp hfields
      obtain ⟨hhead, htail⟩ := List.forall_mem_cons.mp hsorted
      refine (ih hfields fun field hfield other hother => ?_).trans ?_
      · rcases mem_insertField hother with rfl | hother
        · exact hfirst field hfield
        · exact htail field hfield other hother
      · exact ((insertField_perm hhead).append_left fields).trans List.perm_middle

/-- **The order in which fields of distinct keys are given does not matter.** -/
theorem ofFields_of_perm (hperm : fields.Perm sorted) (h : Ascending sorted) :
    ofFields fields = .object sorted := by
  have hne : sorted.Pairwise fun a b => a.1 ≠ b.1 := by
    refine h.imp fun {a b} hlt heq => ?_
    rw [heq] at hlt
    exact String.lt_irrefl b.1 hlt
  have hfields : fields.Pairwise fun a b => a.1 ≠ b.1 :=
    (hperm.pairwise_iff fun hne => hne.symm).mpr hne
  have hresult : (insertFields fields []).Perm sorted := by
    have hall : (insertFields fields []).Perm (fields ++ []) :=
      insertFields_perm hfields fun _ _ _ => nofun
    rw [List.append_nil] at hall
    exact hall.trans hperm
  refine congrArg Json.object (hresult.eq_of_pairwise ?_ (ascending_insertFields fields .nil) h)
  intro a b _ _ hab hba
  exact absurd hba (String.lt_asymm hab)

/-- A field that is given once is a field of the object once, where all keys are distinct. -/
theorem filter_insertFields (hkeys : (fields.map Prod.fst).Nodup)
    (h : fields.filter (·.1 = key) = [(key, value)]) :
    (insertFields fields []).filter (·.1 = key) = [(key, value)] := by
  have hperm : (insertFields fields []).Perm (fields ++ []) :=
    insertFields_perm (List.pairwise_map.mp hkeys) fun _ _ => nofun
  rw [List.append_nil] at hperm
  have hfilter := hperm.filter (·.1 = key)
  rwa [h, List.perm_singleton] at hfilter

theorem tidy_ofFields {depth : Nat} (h : ∀ field ∈ fields, Tidy depth field.2) :
    Tidy (depth + 1) (ofFields fields) := by
  refine .object (ascending_insertFields fields .nil) fun field hfield => ?_
  rcases mem_insertFields hfield with hfield | hfield
  · exact h field hfield
  · cases hfield

end LedgerIndex.Json
