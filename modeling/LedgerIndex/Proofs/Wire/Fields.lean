import LedgerIndex.Proofs.Wire.Grammar
import Mathlib.Algebra.Group.Nat.Defs

/-! # Fields read back

What the writer of fields writes is in the grammar: numbers (`Varint.writes_writeNat`), keys,
payloads, and whole sequences of fields (`Wire.isFields_encodeFields`).  So it is what the reader
reads (`Wire.fields?_encodeFields`).  A field can be written if its number fits a key and the length
of its byte string fits a number of sixty-four bits (`Wire.Field.Writable`); groups are left out,
for no message writes one. -/

namespace LedgerIndex

namespace Varint

theorem toNat_toUInt8 {n : Nat} (h : n < 256) : n.toUInt8.toNat = n := by
  simp [Nat.mod_eq_of_lt h]

theorem spells_writeNat (n : Nat) : Spells n (writeNat n) := by
  induction n using Nat.strongRecOn with
  | ind n ih =>
      rw [writeNat]
      split
      · rename_i hsmall
        have hbyte := toNat_toUInt8 (show n < 256 by omega)
        have hlt : n.toUInt8 < 128 := by
          rw [UInt8.lt_iff_toNat_lt, hbyte]
          exact hsmall
        have hlast : Spells n.toUInt8.toNat [n.toUInt8] := .last hlt
        rwa [hbyte] at hlast
      · rename_i hbig
        have hbyte := toNat_toUInt8 (show n % 128 + 128 < 256 by omega)
        have hge : ¬ (n % 128 + 128).toUInt8 < 128 := by
          rw [UInt8.lt_iff_toNat_lt, hbyte]
          exact Nat.not_lt.mpr (Nat.le_add_left ..)
        have hmore := Spells.more hge (ih (n / 128) (by omega))
        have hsum : n % 128 + 128 - 128 + 128 * (n / 128) = n := by omega
        rwa [hbyte, hsum] at hmore

theorem length_writeNat_le (k : Nat) : ∀ {n : Nat}, n < 128 ^ (k + 1) →
    (writeNat n).length ≤ k + 1 := by
  induction k with
  | zero =>
      intro n h
      rw [writeNat, if_pos (by simpa using h)]
      simp
  | succ k ih =>
      intro n h
      rw [writeNat]
      split
      · simp
      · have hrest : n / 128 < 128 ^ (k + 1) := by
          rw [Nat.div_lt_iff_lt_mul (by decide), ← Nat.pow_succ]
          exact h
        rw [List.length_cons]
        exact Nat.succ_le_succ (ih hrest)

/-- **A number is written in one of its spellings.** -/
theorem writes_writeNat {n : Nat} (h : n < UInt64.size) : Writes n (writeNat n) where
  spells := spells_writeNat n
  length := length_writeNat_le 9 (Nat.lt_trans h (by decide))
  lt := h

end Varint

namespace Wire

/-- The payload is no group and has the length of its wire type. -/
def Payload.Writable : Payload → Prop
  | .varint _ => True
  | .fixed64 bytes => bytes.length = 8
  | .block bytes => bytes.length < UInt64.size
  | .group => False
  | .fixed32 bytes => bytes.length = 4

/-- A field that can be written and read back. -/
structure Field.Writable (field : Field) : Prop where
  pos : 0 < field.number
  lt : field.number < 2 ^ 29
  payload : field.payload.Writable

theorem isKey_writeNat {number wireType : Nat} (hpos : 0 < number) (hnumber : number < 2 ^ 29)
    (htype : wireType < 8) :
    IsKey number wireType (Varint.writeNat (number * 8 + wireType)) := by
  have hsize : UInt32.size = 2 ^ 32 := rfl
  have hfits : number * 8 + wireType < UInt32.size := by omega
  exact ⟨Varint.writes_writeNat (Nat.lt_trans hfits (by decide)), hfits, hpos, htype⟩

theorem wireType_lt (payload : Payload) : payload.wireType < 8 := by
  cases payload <;> simp [Payload.wireType]

theorem Payload.Writable.isPayload {payload : Payload} (h : payload.Writable) (number : Nat) :
    IsPayload payload (payload.encode number) := by
  cases payload with
  | varint value => exact .varint (Varint.writes_writeNat value.toNat_lt)
  | fixed64 bytes => exact .fixed64 h
  | block bytes => exact .block (Varint.writes_writeNat h)
  | group => exact h.elim
  | fixed32 bytes => exact .fixed32 h

/-- **A field is written in one of its spellings.** -/
theorem Field.Writable.isField {field : Field} (h : field.Writable) (budget : Nat) :
    IsField (budget + 1) field field.encode :=
  .plain (isKey_writeNat h.pos h.lt (wireType_lt field.payload)) (h.payload.isPayload field.number)

theorem isFields_encodeFields {fields : List Field} (h : ∀ field ∈ fields, field.Writable)
    (budget : Nat) : IsFields (budget + 1) fields (encodeFields fields) := by
  induction fields with
  | nil => exact .nil
  | cons field fields ih =>
      obtain ⟨hfield, hfields⟩ := List.forall_mem_cons.mp h
      exact .cons (hfield.isField budget) (ih hfields)

/-- **Fields are read back.** -/
theorem fields?_encodeFields {fields : List Field} (h : ∀ field ∈ fields, field.Writable)
    (budget : Nat) : fields? (budget + 1) (encodeFields fields) = some fields :=
  fields?_eq_some_iff.mpr (isFields_encodeFields h budget)

theorem length_le_length_encodeFields {fields : List Field} {number : Nat} {bytes : Bytes}
    (h : ⟨number, .block bytes⟩ ∈ fields) : bytes.length ≤ (encodeFields fields).length := by
  obtain ⟨before, behind, rfl⟩ := List.append_of_mem h
  simp only [encodeFields, List.flatMap_append, List.flatMap_cons, List.length_append, Field.encode,
    Payload.encode]
  omega

end Wire

end LedgerIndex
