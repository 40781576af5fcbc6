import LedgerIndex.Block.Record
import LedgerIndex.Proofs.Wire.Grammar

/-! # Lengths of what is read

A byte string inside an encoded message stands behind its length, a number of sixty-four bits.  So
every byte string that is read from a message is shorter than `UInt64.size`, and in particular the
hashes of a decoded block are (`Block.length_hash_lt`). -/

namespace LedgerIndex

namespace Wire

/-- A byte string in a field is shorter than its length field can say. -/
def Field.Short (field : Field) : Prop :=
  ∀ bytes, field.payload = .block bytes → bytes.length < UInt64.size

theorem IsField.short {budget : Nat} {field : Field} {bytes : Bytes}
    (h : IsField budget field bytes) : field.Short := by
  cases h with
  | plain _ h =>
      cases h with
      | block h =>
          rintro _ ⟨⟩
          exact h.lt
      | varint _ => exact nofun
      | fixed64 _ => exact nofun
      | fixed32 _ => exact nofun
  | group _ _ _ => exact nofun

theorem mergeBytes?_keeps {M : Type} [Message M] {P : M → Prop} {budget : Nat} {bytes : Bytes}
    {m m' : M}
    (hmerge : ∀ m field m', field.Short → P m → Message.merge budget m field = some m' → P m')
    (hm : P m) (h : mergeBytes? budget m bytes = some m') : P m' := by
  obtain ⟨fields, hread⟩ := isFields_of_mergeBytes? h
  induction hread generalizing m with
  | nil =>
      cases h
      exact hm
  | cons hfield _ ih =>
      rw [mergeBytes?_field m hfield, Option.bind_eq_some_iff] at h
      obtain ⟨next, hnext, h⟩ := h
      exact ih (hmerge m _ next hfield.short hm hnext) h

theorem Field.Short.length_lt {field : Field} {bytes : Bytes} (h : field.Short)
    (hbytes : field.bytes? = some bytes) : bytes.length < UInt64.size := by
  unfold Field.bytes? at hbytes
  split at hbytes
  · rename_i block hblock
    cases hbytes
    exact h _ hblock
  · cases hbytes

end Wire

open Wire

namespace Encoded

/-- The hashes of an encoded header are shorter than their length fields can say. -/
def BlockHeader.Short (header : BlockHeader) : Prop :=
  header.previousHash.length < UInt64.size ∧ header.dataHash.length < UInt64.size

theorem BlockHeader.short_merge {budget : Nat} {m m' : BlockHeader} {field : Field}
    (hfield : field.Short) (hm : m.Short) (h : Message.merge budget m field = some m') :
    m'.Short := by
  simp only [Message.merge] at h
  split at h
  · obtain ⟨number, _, rfl⟩ := Option.map_eq_some_iff.mp h
    exact hm
  · obtain ⟨bytes, hbytes, rfl⟩ := Option.map_eq_some_iff.mp h
    exact ⟨hfield.length_lt hbytes, hm.2⟩
  · obtain ⟨bytes, hbytes, rfl⟩ := Option.map_eq_some_iff.mp h
    exact ⟨hm.1, hfield.length_lt hbytes⟩
  · cases h
    exact hm

theorem BlockHeader.short_empty : (Message.empty : BlockHeader).Short :=
  ⟨by decide, by decide⟩

theorem Block.short_merge {budget : Nat} {m m' : Block} {field : Field}
    (hm : ∀ header, m.header = some header → header.Short)
    (h : Message.merge budget m field = some m') :
    ∀ header, m'.header = some header → header.Short := by
  simp only [Message.merge] at h
  split at h
  · obtain ⟨header, hheader, rfl⟩ := Option.map_eq_some_iff.mp h
    have hold : (m.header.getD Message.empty).Short := by
      cases hm' : m.header with
      | none => exact BlockHeader.short_empty
      | some old => exact hm old hm'
    unfold Field.message? at hheader
    split at hheader
    · rintro _ ⟨⟩
      exact mergeBytes?_keeps (fun _ _ _ => BlockHeader.short_merge) hold hheader
    · cases hheader
  · obtain ⟨data, _, rfl⟩ := Option.map_eq_some_iff.mp h
    exact hm
  · obtain ⟨metadata, _, rfl⟩ := Option.map_eq_some_iff.mp h
    exact hm
  · cases h
    exact hm

end Encoded

/-- **The hashes of a decoded block are shorter than `UInt64.size`.** -/
theorem Block.length_hash_lt {bytes : Bytes} {block : Block} (h : Block.decode bytes = .ok block) :
    block.header.previousHash.length < UInt64.size ∧
      block.header.dataHash.length < UInt64.size := by
  unfold Block.decode at h
  cases hencoded : decodeMessage Encoded.Block bytes with
  | error e =>
      rw [hencoded] at h
      cases h
  | ok encoded =>
      have hshort : ∀ header, encoded.header = some header → header.Short := by
        unfold decodeMessage at hencoded
        split at hencoded
        · rename_i message hmessage
          cases hencoded
          exact mergeBytes?_keeps (fun _ _ _ _ => Encoded.Block.short_merge) (by nofun) hmessage
        · cases hencoded
      rw [hencoded] at h
      cases hheader : encoded.header with
      | none =>
          simp only [bind, Except.bind, hheader, required] at h
          cases h
      | some header =>
          simp only [bind, Except.bind, hheader, required] at h
          split at h
          · cases h
          · split at h
            · cases h
            · cases h
              exact hshort header hheader

end LedgerIndex
