import LedgerIndex.Proofs.Text.Utf8
import LedgerIndex.Proofs.Wire.Fields
import LedgerIndex.Wire.Message

/-! # Messages read back

`Message.Sets` says that some fields, taken into one message, make another one of it; it has a rule
for each kind of declared field.  A message type is `Message.Lawful` if the fields that write a
message make it out of the empty one.  Then what is written for a message decodes to that message
(`Wire.decode?_encode`), as long as its bytes can be counted in sixty-four bits. -/

namespace LedgerIndex.Wire

/-- A field of the kind that messages write: with a number that fits a key, and neither a group nor
of fixed length. -/
def Field.Plain (field : Field) : Prop :=
  (0 < field.number ∧ field.number < 2 ^ 29) ∧
    match field.payload with
    | .varint _ | .block _ => True
    | _ => False

theorem Field.Plain.writable {field : Field} (h : field.Plain)
    (hlength : ∀ bytes, field.payload = .block bytes → bytes.length < UInt64.size) :
    field.Writable := by
  obtain ⟨number, payload⟩ := field
  obtain ⟨⟨hpos, hlt⟩, hpayload⟩ := h
  cases payload with
  | varint value => exact ⟨hpos, hlt, trivial⟩
  | block bytes => exact ⟨hpos, hlt, hlength bytes rfl⟩
  | fixed64 bytes => exact hpayload.elim
  | group => exact hpayload.elim
  | fixed32 bytes => exact hpayload.elim

namespace Message

variable {M N α : Type} [Message M] [Message N] {budget number : Nat} {m m' m'' : M}

/-- Plain fields that make one message of another. -/
structure Sets (budget : Nat) (m : M) (fields : List Field) (m' : M) : Prop where
  plain : ∀ field ∈ fields, field.Plain
  merged : fields.foldlM (merge budget) m = some m'

/-- Every byte string in the fields of a message can be counted in sixty-four bits. -/
def Fits (m : M) : Prop :=
  ∀ {number bytes}, ⟨number, .block bytes⟩ ∈ fields m → bytes.length < UInt64.size

/-- The fields of a message make it out of the empty one, with `depth` levels of messages. -/
class Lawful (M : Type) [Message M] (depth : outParam Nat) : Prop where
  sets : ∀ {budget : Nat} {m : M}, depth ≤ budget → Fits m → Sets budget empty (fields m) m

/-- What the bytes of a message are read as. -/
def ReadsBack (budget : Nat) (m : M) : Prop :=
  mergeBytes? budget empty (encode m) = some m

/-! ### Declared fields -/

/-- A number that was widened to be written is narrowed to the same one. -/
theorem narrow_widen (value : Int32) : value.toInt64.toUInt64.toUInt32.toInt32 = value := by
  apply Int32.toBitVec_inj.mp
  rw [UInt32.toBitVec_toInt32, UInt64.toBitVec_toUInt32, Int64.toBitVec_toUInt64,
    Int32.toBitVec_toInt64]
  ext i hi
  rw [BitVec.getElem_setWidth, BitVec.getLsbD_signExtend]
  simp only [hi, ↓reduceIte, BitVec.getLsbD_eq_getElem, Bool.and_eq_right_iff_imp,
    decide_eq_true_eq]
  omega

namespace Sets

theorem append {first second : List Field} (h : Sets budget m first m')
    (h' : Sets budget m' second m'') : Sets budget m (first ++ second) m'' where
  plain := List.forall_mem_append.mpr ⟨h.plain, h'.plain⟩
  merged := by
    rw [List.foldlM_append, h.merged]
    exact h'.merged

theorem unlessDefault [DecidableEq α] {default value : α} {payload : α → Payload} (set : α → M)
    (hplain : Field.Plain ⟨number, payload value⟩)
    (hmerge : merge budget m ⟨number, payload value⟩ = some (set value))
    (hdefault : set default = m) :
    Sets budget m (Field.unlessDefault default number payload value) (set value) := by
  unfold Field.unlessDefault
  split
  · rename_i hvalue
    rw [hvalue, hdefault]
    exact ⟨nofun, rfl⟩
  · refine ⟨fun field hfield => ?_, ?_⟩
    · rw [List.mem_singleton.mp hfield]
      exact hplain
    · rw [List.foldlM_cons, hmerge]
      rfl

theorem ofList {values : List α} {field : α → Field} (set : List α → M)
    (hplain : ∀ v, (field v).Plain)
    (hmerge : ∀ done, ∀ v ∈ values, merge budget (set done) (field v) = some (set (done ++ [v]))) :
    Sets budget (set []) (values.map field) (set values) := by
  refine ⟨fun f hf => ?_, ?_⟩
  · obtain ⟨v, _, rfl⟩ := List.mem_map.mp hf
    exact hplain v
  · have hfold : ∀ (rest done : List α), (∀ v ∈ rest, v ∈ values) →
        (rest.map field).foldlM (merge budget) (set done) = some (set (done ++ rest)) := by
      intro rest
      induction rest with
      | nil => simp
      | cons v rest ih =>
          intro done hrest
          rw [List.map_cons, List.foldlM_cons, hmerge done v (hrest v List.mem_cons_self)]
          show (rest.map field).foldlM (merge budget) (set (done ++ [v])) = _
          rw [ih _ fun w hw => hrest w (List.mem_cons_of_mem _ hw), List.append_assoc]
          rfl
    exact hfold values [] fun _ h => h

theorem ofUInt64 {value : UInt64} (set : UInt64 → M)
    (hmerge : ∀ payload, merge budget m ⟨number, payload⟩
      = (Field.uint64? ⟨number, payload⟩).map set)
    (hdefault : set 0 = m)
    (hnumber : 0 < number ∧ number < 2 ^ 29 := by decide) :
    Sets budget m (Field.ofUInt64 number value) (set value) :=
  unlessDefault set ⟨hnumber, trivial⟩ (hmerge _) hdefault

theorem ofInt64 {value : Int64} (set : Int64 → M)
    (hmerge : ∀ payload, merge budget m ⟨number, payload⟩
      = (Field.int64? ⟨number, payload⟩).map set)
    (hdefault : set 0 = m)
    (hnumber : 0 < number ∧ number < 2 ^ 29 := by decide) :
    Sets budget m (Field.ofInt64 number value) (set value) := by
  refine unlessDefault set ⟨hnumber, trivial⟩ ?_ hdefault
  rw [hmerge]
  simp [Field.int64?, Field.uint64?]

theorem ofInt32 {value : Int32} (set : Int32 → M)
    (hmerge : ∀ payload, merge budget m ⟨number, payload⟩
      = (Field.int32? ⟨number, payload⟩).map set)
    (hdefault : set 0 = m)
    (hnumber : 0 < number ∧ number < 2 ^ 29 := by decide) :
    Sets budget m (Field.ofInt32 number value) (set value) := by
  refine unlessDefault set ⟨hnumber, trivial⟩ ?_ hdefault
  rw [hmerge]
  simp [Field.int32?, Field.uint64?, narrow_widen]

theorem ofBool {value : Bool} (set : Bool → M)
    (hmerge : ∀ payload, merge budget m ⟨number, payload⟩
      = (Field.bool? ⟨number, payload⟩).map set)
    (hdefault : set false = m)
    (hnumber : 0 < number ∧ number < 2 ^ 29 := by decide) :
    Sets budget m (Field.ofBool number value) (set value) := by
  refine unlessDefault set ⟨hnumber, trivial⟩ ?_ hdefault
  rw [hmerge]
  cases value <;> rfl

theorem ofBytes {value : Bytes} (set : Bytes → M)
    (hmerge : ∀ payload, merge budget m ⟨number, payload⟩
      = (Field.bytes? ⟨number, payload⟩).map set)
    (hdefault : set [] = m)
    (hnumber : 0 < number ∧ number < 2 ^ 29 := by decide) :
    Sets budget m (Field.ofBytes number value) (set value) :=
  unlessDefault set ⟨hnumber, trivial⟩ (hmerge _) hdefault

theorem ofText {value : String} (set : String → M)
    (hmerge : ∀ payload, merge budget m ⟨number, payload⟩
      = (Field.text? ⟨number, payload⟩).map set)
    (hdefault : set "" = m)
    (hnumber : 0 < number ∧ number < 2 ^ 29 := by decide) :
    Sets budget m (Field.ofText number value) (set value) := by
  refine unlessDefault set ⟨hnumber, trivial⟩ ?_ hdefault
  rw [hmerge]
  simp [Field.text?, Utf8.decode?_encode]

theorem ofMessage? {value : Option N} (set : Option N → M)
    (hmerge : ∀ payload, merge budget m ⟨number, payload⟩
      = (Field.message? budget none ⟨number, payload⟩).map fun v => set (some v))
    (hnone : set none = m) (hread : ∀ v, value = some v → ReadsBack (budget - 1) v)
    (hnumber : 0 < number ∧ number < 2 ^ 29 := by decide) :
    Sets budget m (Field.ofMessage? number value) (set value) := by
  cases value with
  | none =>
      rw [hnone]
      exact ⟨nofun, rfl⟩
  | some v =>
      refine ⟨fun field hfield => ?_, ?_⟩
      · rw [List.mem_singleton.mp hfield]
        exact ⟨hnumber, trivial⟩
      · have hv : mergeBytes? (budget - 1) empty (encode v) = some v := hread v rfl
        simp [Field.ofMessage?, hmerge, Field.message?, hv]

theorem ofMessages {values : List N} (set : List N → M)
    (hmerge : ∀ done payload, merge budget (set done) ⟨number, payload⟩
      = (Field.message? budget none ⟨number, payload⟩).map fun v => set (done ++ [v]))
    (hread : ∀ v ∈ values, ReadsBack (budget - 1) v)
    (hnumber : 0 < number ∧ number < 2 ^ 29 := by decide) :
    Sets budget (set []) (Field.ofMessages number values) (set values) := by
  refine ofList set (fun _ => ⟨hnumber, trivial⟩) fun done v hv => ?_
  have hv : mergeBytes? (budget - 1) empty (encode v) = some v := hread v hv
  simp [hmerge, Field.message?, hv]

theorem ofBytesList {values : List Bytes} (set : List Bytes → M)
    (hmerge : ∀ done payload, merge budget (set done) ⟨number, payload⟩
      = (Field.bytes? ⟨number, payload⟩).map fun v => set (done ++ [v]))
    (hnumber : 0 < number ∧ number < 2 ^ 29 := by decide) :
    Sets budget (set []) (Field.ofBytesList number values) (set values) :=
  ofList set (fun _ => ⟨hnumber, trivial⟩) fun done _ _ => hmerge done _

end Sets

/-! ### Whole messages -/

theorem fits_of_length_lt {m : M} (h : (encode m).length < UInt64.size) : Fits m :=
  fun hmem => Nat.lt_of_le_of_lt (length_le_length_encodeFields hmem) h

theorem length_le_of_mem {m : M} {bytes : Bytes} (h : ⟨number, .block bytes⟩ ∈ fields m) :
    bytes.length ≤ (encode m).length :=
  length_le_length_encodeFields h

theorem readsBack {depth : Nat} [Lawful M depth] (hbudget : depth ≤ budget) (hpos : 0 < budget)
    (hfits : Fits m) : ReadsBack budget m := by
  have hsets : Sets budget empty (fields m) m := Lawful.sets hbudget hfits
  obtain ⟨levels, rfl⟩ := Nat.exists_eq_succ_of_ne_zero (Nat.ne_zero_of_lt hpos)
  have hfields : fields? (levels + 1) (encode m) = some (fields m) := by
    refine fields?_encodeFields (fun field hfield => ?_) levels
    refine (hsets.plain field hfield).writable fun bytes hbytes => ?_
    obtain ⟨number, payload⟩ := field
    obtain rfl : payload = .block bytes := hbytes
    exact hfits hfield
  rw [ReadsBack, mergeBytes?, hfields]
  exact hsets.merged

theorem readsBack_part [Lawful N 1] {v : N} (number : Nat) (hbudget : 2 ≤ budget) (hfits : Fits m)
    (hmem : ⟨number, .block (encode v)⟩ ∈ fields m) : ReadsBack (budget - 1) v :=
  readsBack (Nat.le_sub_one_of_lt hbudget) (Nat.sub_pos_of_lt hbudget)
    (fits_of_length_lt (hfits hmem))

end Message

/-- **Messages are read back.** -/
theorem decode?_encode {M : Type} [Message M] {depth : Nat} [Message.Lawful M depth] (m : M)
    (h : (encode m).length < UInt64.size) (hdepth : depth ≤ levels := by decide) :
    decode? (encode m) = some m :=
  Message.readsBack hdepth (by decide) (Message.fits_of_length_lt h)

end LedgerIndex.Wire
