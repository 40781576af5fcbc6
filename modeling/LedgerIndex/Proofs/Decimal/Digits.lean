import LedgerIndex.Decimal.Basic

/-! # Reading numerals back

The digits of a number write that number (`Decimal.value_digits`), so that numerals of different
numbers differ, and there is nothing but digits among them.  `Writes cs n` is the grammar of the
numerals that `Decimal.natural?` reads (`natural?_eq_some_iff`). -/

namespace LedgerIndex.Decimal

theorem toNat_digit {n : Nat} (h : n < 10) : (digit n).toNat = 48 + n := by
  revert n
  decide

theorem digitValue_digit {n : Nat} (h : n < 10) : digitValue (digit n) = n := by
  rw [digitValue, toNat_digit h]
  omega

theorem value_append_singleton (cs : List Char) (c : Char) :
    value (cs ++ [c]) = value cs * 10 + digitValue c := by
  simp [value]

/-- **The digits of a number write it.** -/
theorem value_digits (n : Nat) : value (digits n) = n := by
  induction n using digits.induct with
  | case1 n h =>
      rw [digits, if_pos h]
      simp [value, digitValue_digit h]
  | case2 n h ih =>
      rw [digits, if_neg h, value_append_singleton, ih, digitValue_digit (Nat.mod_lt n (by omega))]
      omega

theorem digits_injective {m n : Nat} (h : digits m = digits n) : m = n := by
  rw [← value_digits m, h, value_digits]

theorem toNat_of_mem_digits (n : Nat) : ∀ c ∈ digits n, 48 ≤ c.toNat ∧ c.toNat < 58 := by
  induction n using digits.induct with
  | case1 n h =>
      intro c hc
      rw [digits, if_pos h, List.mem_singleton] at hc
      rw [hc, toNat_digit h]
      omega
  | case2 n h ih =>
      intro c hc
      rw [digits, if_neg h, List.mem_append, List.mem_singleton] at hc
      rcases hc with hc | rfl
      · exact ih c hc
      · have hlt : n % 10 < 10 := Nat.mod_lt n (by omega)
        rw [toNat_digit hlt]
        omega

theorem digits_ne_nil (n : Nat) : digits n ≠ [] := by
  rw [digits]
  split <;> simp

theorem head?_digits_ne_zero {n : Nat} (h : 0 < n) : (digits n).head? ≠ some '0' := by
  induction n using digits.induct with
  | case1 n hsmall =>
      rw [digits, if_pos hsmall, List.head?_cons]
      intro hzero
      have hvalue := congrArg Char.toNat (Option.some.inj hzero)
      rw [toNat_digit hsmall] at hvalue
      have hchar : '0'.toNat = 48 := rfl
      omega
  | case2 n hlarge ih =>
      obtain ⟨c, cs, hcons⟩ := List.exists_cons_of_ne_nil (digits_ne_nil (n / 10))
      have hhead := ih (by omega)
      rw [hcons] at hhead
      rw [digits, if_neg hlarge, hcons]
      exact hhead

theorem isDigit_of_mem_digits {n : Nat} {c : Char} (h : c ∈ digits n) : c.isDigit = true := by
  obtain ⟨hlow, hhigh⟩ := toNat_of_mem_digits n c h
  rw [Char.isDigit, Bool.and_eq_true, decide_eq_true_eq, decide_eq_true_eq]
  exact ⟨hlow, Nat.le_of_lt_succ hhigh⟩

theorem underscore_notMem_digits (n : Nat) : '_' ∉ digits n := by
  intro h
  have := toNat_of_mem_digits n '_' h
  exact absurd this (by decide)

/-! ### The numerals that are read -/

/-- One or more decimal digits, leading zeros allowed, with at most one plus sign in front: the
numeral and the number it writes. -/
inductive Writes : List Char → Nat → Prop
  | unsigned {ds : List Char} (hne : ds ≠ []) (hds : ∀ c ∈ ds, c.isDigit = true) :
      Writes ds (value ds)
  | signed {ds : List Char} (hne : ds ≠ []) (hds : ∀ c ∈ ds, c.isDigit = true) :
      Writes ('+' :: ds) (value ds)

theorem Writes.char {cs : List Char} {n : Nat} (h : Writes cs n) :
    ∀ c ∈ cs, c = '+' ∨ c.isDigit = true := by
  intro c hc
  cases h with
  | unsigned _ hds => exact .inr (hds c hc)
  | signed _ hds =>
      rcases List.mem_cons.mp hc with rfl | hc
      · exact .inl rfl
      · exact .inr (hds c hc)

theorem ofDigits?_eq_some_iff {cs : List Char} {n : Nat} :
    ofDigits? cs = some n ↔ cs ≠ [] ∧ (∀ c ∈ cs, c.isDigit = true) ∧ value cs = n := by
  rw [ofDigits?, Option.ite_none_right_eq_some, List.all_eq_true, Option.some.injEq, and_assoc]

theorem natural?_plus (bound : Nat) (ds : List Char) :
    natural? bound ('+' :: ds) = (ofDigits? ds).filter (· ≤ bound) := by
  rw [natural?]
  cases ofDigits? ds <;> simp [Option.filter]

theorem natural?_of_no_plus (bound : Nat) {ds : List Char} (h : ∀ rest, ds ≠ '+' :: rest) :
    natural? bound ds = (ofDigits? ds).filter (· ≤ bound) := by
  rw [natural?]
  · cases ofDigits? ds <;> simp [Option.filter]
  · exact h

/-- **The numerals that are read are those of the grammar, with the number they write.** -/
theorem natural?_eq_some_iff {bound n : Nat} {cs : List Char} :
    natural? bound cs = some n ↔ Writes cs n ∧ n ≤ bound := by
  by_cases hplus : ∃ ds, cs = '+' :: ds
  · obtain ⟨ds, rfl⟩ := hplus
    rw [natural?_plus, Option.filter_eq_some_iff, ofDigits?_eq_some_iff, decide_eq_true_eq,
      and_congr_left_iff]
    rintro -
    constructor
    · rintro ⟨hne, hds, rfl⟩
      exact .signed hne hds
    · intro h
      cases h with
      | unsigned _ hds => exact absurd (hds '+' List.mem_cons_self) (by decide)
      | signed hne hds => exact ⟨hne, hds, rfl⟩
  · rw [natural?_of_no_plus bound (not_exists.mp hplus), Option.filter_eq_some_iff,
      ofDigits?_eq_some_iff, decide_eq_true_eq, and_congr_left_iff]
    rintro -
    constructor
    · rintro ⟨hne, hds, rfl⟩
      exact .unsigned hne hds
    · intro h
      cases h with
      | unsigned hne hds => exact ⟨hne, hds, rfl⟩
      | signed _ _ => exact absurd ⟨_, rfl⟩ hplus

end LedgerIndex.Decimal
