import LedgerIndex.Bytes

/-! # Hexadecimal texts

The hexadecimal text of a byte string reads back as that byte string (`Bytes.ofHex?_toHex`), so
different byte strings have different texts.  The texts are in lowercase, hence they also differ
when case is ignored (`Bytes.eq_of_toHex_eq_lower`). -/

namespace LedgerIndex.Bytes

theorem halfByte_cases {p : UInt8 → Prop} (h : ∀ n : Fin 16, p (UInt8.ofNat n)) {value : UInt8}
    (hvalue : value < 16) : p value := by
  have hlt : value.toNat < 16 := hvalue
  have := h ⟨value.toNat, hlt⟩
  rwa [UInt8.ofNat_toNat] at this

theorem digitValue?_digit {value : UInt8} (h : value < 16) :
    digitValue? (digit value) = some value :=
  halfByte_cases (p := fun value => digitValue? (digit value) = some value) (by decide) h

theorem toLower_digit {value : UInt8} (h : value < 16) : (digit value).toLower = digit value :=
  halfByte_cases (p := fun value => (digit value).toLower = digit value) (by decide) h

theorem high_lt (byte : UInt8) : byte / 16 < 16 := by
  rw [UInt8.lt_iff_toNat_lt, UInt8.toNat_div]
  have := byte.toNat_lt
  exact Nat.div_lt_of_lt_mul (by simpa using this)

theorem low_lt (byte : UInt8) : byte % 16 < 16 := by
  rw [UInt8.lt_iff_toNat_lt, UInt8.toNat_mod]
  exact Nat.mod_lt _ (by decide)

theorem halves (byte : UInt8) : byte / 16 * 16 + byte % 16 = byte := by
  refine UInt8.toNat_inj.mp ?_
  have := byte.toNat_lt
  simp only [UInt8.toNat_add, UInt8.toNat_mul, UInt8.toNat_div, UInt8.toNat_mod, UInt8.reduceToNat]
  omega

theorem ofDigits?_flatMap_digits (bytes done : Bytes) :
    ofDigits? done (bytes.flatMap digits) = some (done.reverse ++ bytes) := by
  induction bytes generalizing done with
  | nil => simp [ofDigits?]
  | cons byte bytes ih =>
      rw [List.flatMap_cons]
      simp only [digits, List.cons_append, List.nil_append, ofDigits?,
        digitValue?_digit (high_lt byte), digitValue?_digit (low_lt byte), halves]
      rw [ih]
      simp

/-- **A hexadecimal text reads back.** -/
theorem ofHex?_toHex (bytes : Bytes) : ofHex? bytes.toHex = some bytes := by
  simp [ofHex?, toHex, ofDigits?_flatMap_digits]

theorem toHex_injective {a b : Bytes} (h : a.toHex = b.toHex) : a = b := by
  have hread := ofHex?_toHex a
  rw [h, ofHex?_toHex] at hread
  exact (Option.some.inj hread).symm

theorem map_toLower_toHex (bytes : Bytes) :
    bytes.toHex.toList.map Char.toLower = bytes.toHex.toList := by
  simp only [toHex, String.toList_ofList]
  induction bytes with
  | nil => rfl
  | cons byte bytes ih =>
      rw [List.flatMap_cons, List.map_append, ih]
      simp only [digits, List.map_cons, List.map_nil, toLower_digit (high_lt byte),
        toLower_digit (low_lt byte)]

/-- Texts that are equal up to the case of their letters write the same bytes. -/
theorem eq_of_toHex_eq_lower {a b : Bytes}
    (h : a.toHex.toList.map Char.toLower = b.toHex.toList.map Char.toLower) : a = b := by
  rw [map_toLower_toHex, map_toLower_toHex] at h
  exact toHex_injective (String.toList_injective h)

end LedgerIndex.Bytes
