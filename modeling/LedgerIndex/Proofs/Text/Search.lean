import LedgerIndex.Text.Search

/-! # Occurrences and their replacement

`Search.from?` finds the first occurrence of a pattern (`from?_eq_some`), if there is one
(`occursIn_iff`), so that another pattern is found behind the first occurrence if it stands behind
any (`occursBehind_iff`).

`Search.replace` goes through a list from the left: at an occurrence of the pattern it writes the
value and goes on behind it (`replace_occurrence`), and it copies what stands in front of the first
place at which an occurrence begins (`replace_gap`). -/

namespace LedgerIndex.Search

variable {α : Type} {pattern value l rest : List α} {a : α}

/-! ### Patterns that do not overlap -/

/-- No occurrence of the second pattern begins within an occurrence of the first. -/
def Apart (pattern next : List α) : Prop :=
  ∀ k < pattern.length, ¬ (pattern.drop k <+: next ∨ next <+: pattern.drop k)

/-- Behind an occurrence of the first pattern the second one leaves it whole. -/
theorem Apart.behind {next x y rest : List α} (h : Apart pattern next)
    (heq : pattern ++ rest = x ++ next ++ y) : ∃ z, x = pattern ++ z := by
  rw [List.append_assoc] at heq
  obtain ⟨z, hx, -⟩ | ⟨z, hpattern, hrest⟩ := List.append_eq_append_iff.mp heq
  · exact ⟨z, hx⟩
  · cases z with
    | nil => exact ⟨[], by simp [hpattern]⟩
    | cons a z =>
        have hdrop : pattern.drop x.length = a :: z := by rw [hpattern, List.drop_left]
        refine absurd ?_ (h x.length (by simp [hpattern]))
        rw [hdrop]
        exact List.prefix_or_prefix_of_prefix (List.prefix_append _ rest)
          (hrest ▸ List.prefix_append next y)

variable [DecidableEq α]

instance (pattern next : List α) : Decidable (Apart pattern next) :=
  inferInstanceAs (Decidable (∀ k < pattern.length, _))

/-! ### Occurrences -/

theorem after?_eq_some_iff : after? pattern l = some rest ↔ l = pattern ++ rest := by
  induction pattern generalizing l with
  | nil => exact ⟨Option.some.inj, congrArg some⟩
  | cons p pattern ih =>
      cases l with
      | nil => exact ⟨nofun, nofun⟩
      | cons b l =>
          rw [after?]
          split
          · rename_i heq
            rw [ih, heq, List.cons_append, List.cons.injEq, eq_self, true_and]
          · rename_i hne
            exact ⟨nofun, fun h => absurd (List.cons.inj h).1.symm hne⟩

theorem isSome_after?_iff : (after? pattern l).isSome = true ↔ pattern <+: l := by
  rw [Option.isSome_iff_exists]
  exact exists_congr fun rest => after?_eq_some_iff.trans eq_comm

/-! ### The first occurrence -/

theorem from?_eq_some (h : from? pattern l = some rest) :
    pattern <+: rest ∧ ∃ front, l = front ++ rest ∧
      ∀ x y, l = x ++ pattern ++ y → front.length ≤ x.length := by
  induction l with
  | nil =>
      rw [from?] at h
      split at h
      · rename_i hempty
        obtain rfl := Option.some.inj h
        exact ⟨hempty ▸ List.prefix_rfl, [], rfl, fun _ _ _ => Nat.zero_le _⟩
      · cases h
  | cons a l ih =>
      rw [from?] at h
      split at h
      · rename_i hfront
        obtain rfl := Option.some.inj h
        exact ⟨isSome_after?_iff.mp hfront, [], rfl, fun _ _ _ => Nat.zero_le _⟩
      · rename_i hfront
        obtain ⟨hrest, front, rfl, hfirst⟩ := ih h
        refine ⟨hrest, a :: front, rfl, fun x y hxy => ?_⟩
        cases x with
        | nil => exact absurd (isSome_after?_iff.mpr ⟨y, hxy.symm⟩) hfront
        | cons b x => exact Nat.succ_le_succ (hfirst x y (List.cons.inj hxy).2)

theorem occursIn_iff : occursIn pattern l = true ↔ pattern <:+: l := by
  unfold occursIn
  induction l with
  | nil =>
      rw [from?, List.infix_nil]
      split <;> simp_all
  | cons a l ih =>
      rw [from?, List.infix_cons_iff, ← ih]
      split
      · rename_i hfront
        simp [isSome_after?_iff.mp hfront]
      · rename_i hfront
        exact (or_iff_right (mt isSome_after?_iff.mpr hfront)).symm

/-- **One pattern occurs, and another one behind its first occurrence**, exactly if the other one
occurs behind any occurrence. -/
theorem occursBehind_iff {next : List α} (h : Apart pattern next) :
    (∃ rest, from? pattern l = some rest ∧ occursIn next rest = true)
      ↔ ∃ x y z, l = x ++ pattern ++ y ++ next ++ z := by
  constructor
  · rintro ⟨rest, hrest, hnext⟩
    obtain ⟨⟨tail, rfl⟩, x, rfl, -⟩ := from?_eq_some hrest
    obtain ⟨between, z, hbetween⟩ := occursIn_iff.mp hnext
    obtain ⟨y, rfl⟩ := h.behind hbetween.symm
    exact ⟨x, y, z, by rw [← hbetween]; simp⟩
  · rintro ⟨x, y, z, rfl⟩
    have hoccurs : occursIn pattern (x ++ pattern ++ y ++ next ++ z) = true :=
      occursIn_iff.mpr ⟨x, y ++ next ++ z, by simp⟩
    obtain ⟨rest, hrest⟩ := Option.isSome_iff_exists.mp hoccurs
    refine ⟨rest, hrest, occursIn_iff.mpr ?_⟩
    obtain ⟨-, front, heq, hfirst⟩ := from?_eq_some hrest
    have hlength := hfirst x (y ++ next ++ z) (by simp)
    have htail : rest = x.drop front.length ++ pattern ++ y ++ next ++ z := by
      have hdrop := congrArg (List.drop front.length) heq
      rw [List.drop_left] at hdrop
      rw [← hdrop]
      simp [List.drop_append_of_le_length hlength]
    exact ⟨x.drop front.length ++ pattern ++ y, z, htail.symm⟩

/-! ### One step of a replacement -/

theorem replaceFrom_done (fuel : Nat) (done l : List α) :
    replaceFrom pattern value fuel done l
      = done.reverse ++ replaceFrom pattern value fuel [] l := by
  induction fuel generalizing done l with
  | zero => rfl
  | succ fuel ih =>
      cases l with
      | nil => exact (List.append_nil _).symm
      | cons a l =>
          rw [replaceFrom, replaceFrom]
          split
          · rw [ih (value.reverse ++ done), ih (value.reverse ++ [])]
            simp
          · rw [ih (a :: done), ih [a]]
            simp

theorem length_of_after? (hpattern : pattern ≠ []) (h : after? pattern (a :: l) = some rest) :
    rest.length ≤ l.length := by
  have hlength := congrArg List.length (after?_eq_some_iff.mp h)
  have hpos := List.length_pos_iff.mpr hpattern
  rw [List.length_cons, List.length_append] at hlength
  omega

theorem replaceFrom_eq (hpattern : pattern ≠ []) {fuel : Nat} (hfuel : l.length ≤ fuel) :
    replaceFrom pattern value fuel [] l = replace pattern value l := by
  suffices hany : ∀ fuel fuel' (l : List α), l.length ≤ fuel → l.length ≤ fuel' →
      replaceFrom pattern value fuel [] l = replaceFrom pattern value fuel' [] l from
    hany _ _ l hfuel (Nat.le_refl _)
  intro fuel
  induction fuel with
  | zero =>
      intro fuel' l hl _
      obtain rfl := List.length_eq_zero_iff.mp (Nat.le_zero.mp hl)
      cases fuel' <;> rfl
  | succ fuel ih =>
      intro fuel' l hl hl'
      cases l with
      | nil => cases fuel' <;> rfl
      | cons a l =>
          rw [List.length_cons] at hl hl'
          obtain ⟨fuel', rfl⟩ : ∃ n, fuel' = n + 1 := ⟨fuel' - 1, by omega⟩
          rw [replaceFrom, replaceFrom]
          split
          · rename_i rest hrest
            have hlength := length_of_after? hpattern hrest
            rw [replaceFrom_done, replaceFrom_done fuel', ih fuel' rest (by omega) (by omega)]
          · rw [replaceFrom_done, replaceFrom_done fuel', ih fuel' l (by omega) (by omega)]

theorem replace_occurrence (hpattern : pattern ≠ []) (rest : List α) :
    replace pattern value (pattern ++ rest) = value ++ replace pattern value rest := by
  obtain ⟨a, l, hal⟩ := List.exists_cons_of_ne_nil
    (List.append_ne_nil_of_left_ne_nil hpattern rest)
  have hafter : after? pattern (a :: l) = some rest := after?_eq_some_iff.mpr hal.symm
  rw [hal, replace, List.length_cons, replaceFrom, hafter]
  dsimp only
  rw [replaceFrom_done, replaceFrom_eq hpattern (length_of_after? hpattern hafter)]
  simp

theorem replace_cons (hpattern : pattern ≠ []) (h : ¬pattern <+: a :: l) :
    replace pattern value (a :: l) = a :: replace pattern value l := by
  have hafter : after? pattern (a :: l) = none := by
    cases hafter : after? pattern (a :: l) with
    | none => rfl
    | some rest => exact absurd ⟨rest, (after?_eq_some_iff.mp hafter).symm⟩ h
  rw [replace, List.length_cons, replaceFrom, hafter]
  dsimp only
  rw [replaceFrom_done, replaceFrom_eq hpattern (Nat.le_refl _)]
  rfl

theorem replace_gap (hpattern : pattern ≠ []) {gap l : List α}
    (h : ∀ before after, gap ++ l = before ++ pattern ++ after → gap.length ≤ before.length) :
    replace pattern value (gap ++ l) = gap ++ replace pattern value l := by
  induction gap with
  | nil => rfl
  | cons a gap ih =>
      have hfront : ¬pattern <+: a :: (gap ++ l) := by
        rintro ⟨after, hafter⟩
        exact absurd (h [] after hafter.symm) (Nat.not_succ_le_zero _)
      rw [List.cons_append, replace_cons hpattern hfront, ih fun before after heq => ?_]
      · rfl
      · have hlength := h (a :: before) after (congrArg (a :: ·) heq)
        exact Nat.le_of_succ_le_succ hlength

end LedgerIndex.Search
