import LedgerIndex.Wire.Message

/-! # The grammar of the wire format

What bytes a number, a key and a field may have, said without a reader: `Varint.Writes`,
`Wire.IsKey`, `Wire.IsField`.  Numbers may be written with more bytes than they need, and the fields
of a group stand between its key and an end of the same number.

The reader of fields takes exactly the bytes of this grammar (`Wire.readField?_eq_some_iff`,
`Wire.fields?_eq_some_iff`), so the fields before a boundary are read alike whatever follows them
(`Wire.fields?_append`), and a message takes them in one by one (`Wire.mergeBytes?_field`). -/

namespace LedgerIndex

/-! ### Numbers -/

namespace Varint

/-- Groups of seven bits, the lowest first; a group of 128 and more is not the last. -/
inductive Spells : Nat → Bytes → Prop
  | last {byte : UInt8} (h : byte < 128) : Spells byte.toNat [byte]
  | more {byte : UInt8} {n : Nat} {bytes : Bytes} (h : ¬ byte < 128) (hrest : Spells n bytes) :
      Spells (byte.toNat - 128 + 128 * n) (byte :: bytes)

/-- The bytes of a number of sixty-four bits: any spelling of at most ten bytes. -/
structure Writes (n : Nat) (bytes : Bytes) : Prop where
  spells : Spells n bytes
  length : bytes.length ≤ 10
  lt : n < UInt64.size

variable {k n : Nat} {bytes rest : Bytes}

theorem toNat_toUInt64 (h : n < UInt64.size) : n.toUInt64.toNat = n := by
  simp only [Nat.toUInt64_eq, UInt64.toNat_ofNat']
  exact Nat.mod_eq_of_lt h

theorem Spells.readNat? (h : Spells n bytes) (rest : Bytes) (hk : bytes.length ≤ k) :
    readNat? k (bytes ++ rest) = some (n, rest) := by
  induction h generalizing k with
  | last h =>
      obtain ⟨k, rfl⟩ : ∃ j, k = j + 1 := ⟨k - 1, by simp at hk; omega⟩
      rw [List.cons_append, Varint.readNat?, if_pos h]
      rfl
  | more h hrest ih =>
      rw [List.length_cons] at hk
      obtain ⟨k, rfl⟩ : ∃ j, k = j + 1 := ⟨k - 1, by omega⟩
      rw [List.cons_append, Varint.readNat?, if_neg h, ih (by omega)]

theorem spells_of_readNat? (h : readNat? k bytes = some (n, rest)) :
    ∃ first, bytes = first ++ rest ∧ Spells n first ∧ first.length ≤ k := by
  induction k generalizing bytes n with
  | zero => cases h
  | succ k ih =>
      cases bytes with
      | nil => cases h
      | cons byte bytes =>
          rw [Varint.readNat?] at h
          split at h
          · rename_i hlast
            cases h
            exact ⟨[byte], rfl, .last hlast, by simp⟩
          · rename_i hmore
            split at h
            · rename_i m rest' hrest
              cases h
              obtain ⟨first, rfl, hspells, hlength⟩ := ih hrest
              exact ⟨byte :: first, rfl, .more hmore hspells, by simpa using hlength⟩
            · cases h

theorem Spells.ne_nil (h : Spells n bytes) : bytes ≠ [] := by
  cases h <;> simp

/-- **Every spelling of a number is read.** -/
theorem Writes.read? (h : Writes n bytes) (rest : Bytes) :
    read? (bytes ++ rest) = some (n.toUInt64, rest) := by
  rw [Varint.read?, h.spells.readNat? rest h.length]
  exact if_pos h.lt

theorem writes_of_read? {value : UInt64} (h : read? bytes = some (value, rest)) :
    ∃ first, bytes = first ++ rest ∧ Writes value.toNat first := by
  unfold Varint.read? at h
  split at h
  · rename_i m rest' hread
    split at h
    · rename_i hlt
      cases h
      obtain ⟨first, rfl, hspells, hlength⟩ := spells_of_readNat? hread
      have hvalue : m.toUInt64.toNat = m := toNat_toUInt64 hlt
      exact ⟨first, rfl, hvalue.symm ▸ hspells, hlength, hvalue.symm ▸ hlt⟩
    · cases h
  · cases h

end Varint

namespace Wire

/-! ### Keys -/

structure IsKey (number wireType : Nat) (bytes : Bytes) : Prop where
  writes : Varint.Writes (number * 8 + wireType) bytes
  fits : number * 8 + wireType < UInt32.size
  number : 0 < number
  wireType : wireType < 8

variable {budget number wireType : Nat} {bytes rest : Bytes} {field : Field}

theorem IsKey.readKey? (h : IsKey number wireType bytes) (rest : Bytes) :
    readKey? (bytes ++ rest) = some (⟨number, wireType⟩, rest) := by
  have hnumber := h.number
  have htype := h.wireType
  have hkey : (number * 8 + wireType).toUInt64.toNat = number * 8 + wireType :=
    Varint.toNat_toUInt64 h.writes.lt
  have hfits : number * 8 + wireType < UInt32.size ∧ 8 ≤ number * 8 + wireType :=
    ⟨h.fits, by omega⟩
  rw [Wire.readKey?, h.writes.read?]
  simp only [hkey, if_pos hfits, Option.some.injEq, Prod.mk.injEq, Key.mk.injEq, and_true]
  omega

theorem isKey_of_readKey? {key : Key} (h : readKey? bytes = some (key, rest)) :
    ∃ first, bytes = first ++ rest ∧ IsKey key.number key.wireType first := by
  unfold Wire.readKey? at h
  split at h
  · rename_i value rest' hread
    dsimp only at h
    split at h
    · rename_i hfits
      cases h
      obtain ⟨first, rfl, hwrites⟩ := Varint.writes_of_read? hread
      have hvalue : value.toNat / 8 * 8 + value.toNat % 8 = value.toNat := by omega
      refine ⟨first, rfl, ?_, ?_, ?_, ?_⟩
      · rw [hvalue]
        exact hwrites
      · rw [hvalue]
        exact hfits.1
      · show 0 < value.toNat / 8
        omega
      · show value.toNat % 8 < 8
        omega
    · cases h
  · cases h

/-! ### Fields -/

/-- The bytes of a payload that is no group. -/
inductive IsPayload : Payload → Bytes → Prop
  | varint {value : UInt64} {bytes : Bytes} (h : Varint.Writes value.toNat bytes) :
      IsPayload (.varint value) bytes
  | fixed64 {bytes : Bytes} (h : bytes.length = 8) : IsPayload (.fixed64 bytes) bytes
  | block {length bytes : Bytes} (h : Varint.Writes bytes.length length) :
      IsPayload (.block bytes) (length ++ bytes)
  | fixed32 {bytes : Bytes} (h : bytes.length = 4) : IsPayload (.fixed32 bytes) bytes

/-- The bytes of a field, with at most `budget` levels of fields: a key and a payload, or a group of
fields up to the end with its number. -/
inductive IsField : Nat → Field → Bytes → Prop
  | plain {budget number : Nat} {payload : Payload} {key bytes : Bytes}
      (hkey : IsKey number payload.wireType key) (h : IsPayload payload bytes) :
      IsField (budget + 1) ⟨number, payload⟩ (key ++ bytes)
  | group {budget number : Nat} {key last : Bytes} {inside : List (Field × Bytes)}
      (hkey : IsKey number 3 key) (hinside : ∀ piece ∈ inside, IsField budget piece.1 piece.2)
      (hlast : IsKey number 4 last) :
      IsField (budget + 1) ⟨number, .group⟩ (key ++ inside.flatMap Prod.snd ++ last)

/-- The bytes of some fields, one after the other. -/
inductive IsFields (budget : Nat) : List Field → Bytes → Prop
  | nil : IsFields budget [] []
  | cons {field : Field} {fields : List Field} {first rest : Bytes}
      (h : IsField budget field first) (hrest : IsFields budget fields rest) :
      IsFields budget (field :: fields) (first ++ rest)

theorem IsPayload.readPayload? {payload : Payload} (h : IsPayload payload bytes)
    (budget number : Nat) (rest : Bytes) :
    readPayload? (budget + 1) ⟨number, payload.wireType⟩ (bytes ++ rest)
      = some (payload, rest) := by
  cases h with
  | varint h => simp [Wire.readPayload?, Payload.wireType, h.read?]
  | fixed64 h => simp [Wire.readPayload?, Payload.wireType, cut?, ← h]
  | fixed32 h => simp [Wire.readPayload?, Payload.wireType, cut?, ← h]
  | @block length bytes h =>
      have hblock : readBlock? (length ++ (bytes ++ rest)) = some (bytes, rest) := by
        rw [readBlock?, h.read?]
        simp [Varint.toNat_toUInt64 h.lt, cut?]
      simp [Wire.readPayload?, Payload.wireType, hblock]

theorem cut?_eq_some {length : Nat} {first : Bytes} (h : cut? length bytes = some (first, rest)) :
    bytes = first ++ rest ∧ first.length = length := by
  unfold cut? at h
  split at h
  · cases h
    rename_i hle
    exact ⟨(List.take_append_drop ..).symm, List.length_take_of_le hle⟩
  · cases h

theorem readField?_eq_some {field : Field} :
    readField? budget bytes = some (field, rest) ↔
      ∃ key behind, readKey? bytes = some (key, behind) ∧ key.number = field.number ∧
        readPayload? budget key behind = some (field.payload, rest) := by
  unfold readField?
  constructor
  · intro h
    split at h
    · rename_i key behind hkey
      obtain ⟨⟨payload, rest'⟩, hpayload, heq⟩ := Option.map_eq_some_iff.mp h
      cases heq
      exact ⟨key, behind, hkey, rfl, hpayload⟩
    · cases h
  · rintro ⟨key, behind, hkey, hnumber, hpayload⟩
    simp [hkey, hpayload, hnumber]

theorem readPayload?_end (budget number : Nat) (bytes : Bytes) :
    readPayload? budget ⟨number, 4⟩ bytes = none := by
  cases budget <;> rfl

theorem skipGroup?_fields {last : Bytes} (hlast : IsKey number 4 last)
    {inside : List (Field × Bytes)}
    (hinside : ∀ piece ∈ inside, ∀ rest,
      readField? budget (piece.2 ++ rest) = some (piece.1, rest)) (rest : Bytes) :
    ∀ {fuel : Nat}, inside.length < fuel →
      skipGroup? (readPayload? budget) number fuel (inside.flatMap Prod.snd ++ last ++ rest)
        = some rest := by
  induction inside with
  | nil =>
      intro fuel hfuel
      obtain ⟨fuel, rfl⟩ : ∃ j, fuel = j + 1 := ⟨fuel - 1, by simp at hfuel; omega⟩
      rw [List.flatMap_nil, List.nil_append, skipGroup?, hlast.readKey?]
      simp
  | cons piece inside ih =>
      intro fuel hfuel
      rw [List.length_cons] at hfuel
      obtain ⟨fuel, rfl⟩ : ∃ j, fuel = j + 1 := ⟨fuel - 1, by omega⟩
      obtain ⟨hpiece, hinside⟩ := List.forall_mem_cons.mp hinside
      obtain ⟨key, behind, hkey, -, hpayload⟩ :=
        readField?_eq_some.mp (hpiece (inside.flatMap Prod.snd ++ last ++ rest))
      have hend : key.wireType ≠ 4 := by
        intro hend
        obtain ⟨number, wireType⟩ := key
        subst hend
        rw [readPayload?_end] at hpayload
        cases hpayload
      rw [List.flatMap_cons, List.append_assoc, List.append_assoc, ← List.append_assoc _ last,
        skipGroup?, hkey]
      simp only [if_neg hend, hpayload]
      exact ih hinside (by omega)

theorem ne_nil_of_readField? (h : readField? budget bytes = some (field, rest)) : bytes ≠ [] := by
  rintro rfl
  obtain ⟨key, behind, hkey, -⟩ := readField?_eq_some.mp h
  cases hkey

theorem length_le_length_flatMap {inside : List (Field × Bytes)}
    (h : ∀ piece ∈ inside, piece.2 ≠ []) :
    inside.length ≤ (inside.flatMap Prod.snd).length := by
  induction inside with
  | nil => simp
  | cons piece inside ih =>
      obtain ⟨hpiece, hinside⟩ := List.forall_mem_cons.mp h
      have hpos := List.length_pos_iff.mpr hpiece
      have hrest := ih hinside
      rw [List.flatMap_cons, List.length_append, List.length_cons]
      omega

/-- **Every field of the grammar is read, whatever follows it.** -/
theorem IsField.readField? (h : IsField budget field bytes) (rest : Bytes) :
    readField? budget (bytes ++ rest) = some (field, rest) := by
  induction h generalizing rest with
  | plain hkey h =>
      rw [Wire.readField?, List.append_assoc, hkey.readKey?]
      simp [h.readPayload?]
  | @group budget number key last inside hkey hinside hlast ih =>
      have hpieces : ∀ piece ∈ inside, piece.2 ≠ [] := by
        intro piece hpiece
        have hread := ih piece hpiece []
        rw [List.append_nil] at hread
        exact ne_nil_of_readField? hread
      have hfuel : inside.length < (inside.flatMap Prod.snd ++ last ++ rest).length := by
        have hfew := length_le_length_flatMap hpieces
        have hend := List.length_pos_iff.mpr hlast.writes.spells.ne_nil
        rw [List.length_append, List.length_append]
        omega
      have hskip := skipGroup?_fields hlast ih rest hfuel
      rw [Wire.readField?, List.append_assoc, List.append_assoc, ← List.append_assoc _ last,
        hkey.readKey?]
      simp only [Wire.readPayload?, hskip]
      rfl

/-! ### Nothing else is read -/

theorem isFields_of_skipGroup? {fuel : Nat}
    (hread : ∀ {field : Field} {bytes rest : Bytes}, readField? budget bytes = some (field, rest) →
      ∃ first, bytes = first ++ rest ∧ IsField budget field first)
    (h : skipGroup? (readPayload? budget) number fuel bytes = some rest) :
    ∃ (inside : List (Field × Bytes)) (last : Bytes),
      bytes = inside.flatMap Prod.snd ++ last ++ rest ∧
        (∀ piece ∈ inside, IsField budget piece.1 piece.2) ∧ IsKey number 4 last := by
  induction fuel generalizing bytes with
  | zero => cases h
  | succ fuel ih =>
      rw [skipGroup?] at h
      split at h
      · cases h
      · rename_i key behind hkey
        split at h
        · rename_i hend
          split at h
          · rename_i hnumber
            cases h
            obtain ⟨last, rfl, hlast⟩ := isKey_of_readKey? hkey
            rw [hend, hnumber] at hlast
            exact ⟨[], last, rfl, nofun, hlast⟩
          · cases h
        · split at h
          · rename_i payload rest' hpayload
            have hfield : readField? budget bytes = some (⟨key.number, payload⟩, rest') :=
              readField?_eq_some.mpr ⟨key, behind, hkey, rfl, hpayload⟩
            obtain ⟨first, rfl, hfirst⟩ := hread hfield
            obtain ⟨inside, last, rfl, hinside, hlast⟩ := ih h
            refine ⟨(⟨key.number, payload⟩, first) :: inside, last, by simp, ?_, hlast⟩
            exact List.forall_mem_cons.mpr ⟨hfirst, hinside⟩
          · cases h

theorem writes_of_readBlock? {block : Bytes} (h : readBlock? bytes = some (block, rest)) :
    ∃ length, bytes = length ++ block ++ rest ∧ Varint.Writes block.length length := by
  unfold readBlock? at h
  split at h
  · rename_i value behind hvalue
    obtain ⟨length, rfl, hwrites⟩ := Varint.writes_of_read? hvalue
    obtain ⟨rfl, hlength⟩ := cut?_eq_some h
    rw [← hlength] at hwrites
    exact ⟨length, (List.append_assoc ..).symm, hwrites⟩
  · cases h

/-- What is read behind a key is a payload of its wire type, or a group that is passed over. -/
theorem readPayload?_cases {payload : Payload}
    (h : readPayload? (budget + 1) ⟨number, wireType⟩ bytes = some (payload, rest)) :
    (wireType = payload.wireType ∧ ∃ first, bytes = first ++ rest ∧ IsPayload payload first) ∨
    (wireType = 3 ∧ payload = .group ∧
      skipGroup? (readPayload? budget) number bytes.length bytes = some rest) := by
  simp only [Wire.readPayload?] at h
  split at h
  · obtain ⟨⟨value, _⟩, hvalue, heq⟩ := Option.map_eq_some_iff.mp h
    cases heq
    obtain ⟨first, rfl, hwrites⟩ := Varint.writes_of_read? hvalue
    exact .inl ⟨rfl, first, rfl, .varint hwrites⟩
  · obtain ⟨⟨first, _⟩, hfirst, heq⟩ := Option.map_eq_some_iff.mp h
    cases heq
    obtain ⟨rfl, hlength⟩ := cut?_eq_some hfirst
    exact .inl ⟨rfl, first, rfl, .fixed64 hlength⟩
  · obtain ⟨⟨block, _⟩, hblock, heq⟩ := Option.map_eq_some_iff.mp h
    cases heq
    obtain ⟨length, rfl, hwrites⟩ := writes_of_readBlock? hblock
    exact .inl ⟨rfl, length ++ block, rfl, .block hwrites⟩
  · obtain ⟨_, hskip, heq⟩ := Option.map_eq_some_iff.mp h
    cases heq
    exact .inr ⟨rfl, rfl, hskip⟩
  · obtain ⟨⟨first, _⟩, hfirst, heq⟩ := Option.map_eq_some_iff.mp h
    cases heq
    obtain ⟨rfl, hlength⟩ := cut?_eq_some hfirst
    exact .inl ⟨rfl, first, rfl, .fixed32 hlength⟩
  · cases h

theorem isField_of_readField? (h : readField? budget bytes = some (field, rest)) :
    ∃ first, bytes = first ++ rest ∧ IsField budget field first := by
  induction budget generalizing field bytes rest with
  | zero =>
      obtain ⟨key, behind, -, -, hpayload⟩ := readField?_eq_some.mp h
      cases hpayload
  | succ budget ih =>
      obtain ⟨⟨_, wireType⟩, behind, hread, rfl, hpayload⟩ := readField?_eq_some.mp h
      obtain ⟨key, rfl, hkey⟩ := isKey_of_readKey? hread
      obtain ⟨number, payload⟩ := field
      obtain ⟨rfl, bytes, rfl, hbytes⟩ | ⟨rfl, rfl, hskip⟩ := readPayload?_cases hpayload
      · exact ⟨key ++ bytes, (List.append_assoc ..).symm, .plain hkey hbytes⟩
      · obtain ⟨inside, last, rfl, hinside, hlast⟩ := isFields_of_skipGroup? ih hskip
        exact ⟨key ++ inside.flatMap Prod.snd ++ last, by simp, .group hkey hinside hlast⟩

/-- **The reader takes exactly the fields of the grammar.** -/
theorem readField?_eq_some_iff : readField? budget bytes = some (field, rest) ↔
    ∃ first, bytes = first ++ rest ∧ IsField budget field first := by
  constructor
  · exact isField_of_readField?
  · rintro ⟨first, rfl, hfirst⟩
    exact hfirst.readField? rest

instance (budget : Nat) (field : Field) (bytes : Bytes) : Decidable (IsField budget field bytes) :=
  decidable_of_iff (readField? budget bytes = some (field, [])) <| by
    simp [readField?_eq_some_iff]

/-! ### Sequences of fields -/

theorem IsField.pos (h : IsField budget field bytes) : 0 < budget := by
  cases h <;> exact Nat.succ_pos _

theorem IsField.ne_nil (h : IsField budget field bytes) : bytes ≠ [] := by
  have hread := h.readField? []
  rw [List.append_nil] at hread
  exact ne_nil_of_readField? hread

theorem shortens_cutField (budget : Nat) : Shortens (cutField budget) := by
  intro byte bytes
  unfold cutField
  split
  · rename_i field rest hread
    obtain ⟨first, hbytes, hfirst⟩ := isField_of_readField? hread
    have hpos := List.length_pos_iff.mpr hfirst.ne_nil
    have hlength := congrArg List.length hbytes
    rw [List.length_cons, List.length_append] at hlength
    show rest.length ≤ bytes.length
    omega
  · simp

theorem fields?_field (h : IsField budget field bytes) (rest : Bytes) :
    fields? budget (bytes ++ rest) = (fields? budget rest).map (field :: ·) := by
  obtain ⟨byte, tail, rfl⟩ := List.exists_cons_of_ne_nil h.ne_nil
  have hread := h.readField? rest
  have hcut : cutField budget byte (tail ++ rest) = (some field, rest) := by
    rw [cutField, ← List.cons_append, hread]
  rw [fields?, List.cons_append, sections_cons _ (shortens_cutField budget), hcut, List.mapM_cons,
    fields?]
  cases (sections (cutField budget) rest).mapM id <;> rfl

/-- **The fields before a boundary are read alike, whatever follows them.** -/
theorem fields?_append {fields : List Field} (h : IsFields budget fields bytes) (rest : Bytes) :
    fields? budget (bytes ++ rest) = (fields? budget rest).map (fields ++ ·) := by
  induction h with
  | nil => simp
  | cons h hrest ih =>
      rw [List.append_assoc, fields?_field h, ih, Option.map_map]
      rfl

theorem fields?_nil (budget : Nat) : fields? budget [] = some [] := rfl

/-- **The reader of sequences takes exactly the sequences of the grammar.** -/
theorem fields?_eq_some_iff {fields : List Field} :
    fields? budget bytes = some fields ↔ IsFields budget fields bytes := by
  constructor
  · intro h
    induction hn : bytes.length using Nat.strongRecOn generalizing bytes fields with
    | ind n ih =>
        cases bytes with
        | nil =>
            cases h
            exact .nil
        | cons byte tail =>
            rw [fields?, sections_cons _ (shortens_cutField budget), List.mapM_cons] at h
            cases hread : Wire.readField? budget (byte :: tail) with
            | none =>
                rw [cutField, hread] at h
                cases h
            | some read =>
                obtain ⟨field, rest⟩ := read
                obtain ⟨first, hbytes, hfirst⟩ := isField_of_readField? hread
                rw [hbytes] at hn ⊢
                have hrest := fields?_field hfirst rest
                rw [← hbytes, fields?, sections_cons _ (shortens_cutField budget),
                  List.mapM_cons, h] at hrest
                obtain ⟨others, hothers, rfl⟩ := Option.map_eq_some_iff.mp hrest.symm
                have hpos := List.length_pos_iff.mpr hfirst.ne_nil
                rw [List.length_append] at hn
                exact .cons hfirst (ih rest.length (by omega) hothers rfl)
  · intro h
    have hread := fields?_append h []
    rwa [List.append_nil, fields?_nil, Option.map_some, List.append_nil] at hread

/-! ### Messages -/

variable {M : Type} [Message M]

theorem mergeBytes?_field (m : M) (h : IsField budget field bytes) (rest : Bytes) :
    mergeBytes? budget m (bytes ++ rest)
      = (Message.merge budget m field).bind (mergeBytes? budget · rest) := by
  unfold mergeBytes?
  rw [fields?_field h]
  cases fields? budget rest with
  | none => cases Message.merge budget m field <;> rfl
  | some fields => rfl

theorem isFields_of_mergeBytes? {m m' : M} (h : mergeBytes? budget m bytes = some m') :
    ∃ fields, IsFields budget fields bytes := by
  unfold mergeBytes? at h
  split at h
  · rename_i fields hfields
    exact ⟨fields, fields?_eq_some_iff.mp hfields⟩
  · cases h

end Wire

end LedgerIndex
