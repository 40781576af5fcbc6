import LedgerIndex.Proofs.Der
import Mathlib.Algebra.Group.Int.Defs
import Mathlib.Data.List.Induction

/-! # Header encodings are canonical

A strict reader of sequences of integers and octet strings (`Der.items?`): lengths are definite and
in their shortest form, integers are signed and in their shortest form, and nothing follows the
sequence.  What the reader accepts, the writer writes (`Der.readLength?_eq_some`,
`Der.readAny?_eq_some`, `Der.readNatural?_eq_some_iff`), so a list of items has one spelling.  A
header encoding is the one spelling of the header's number and of its two hashes
(`BlockHeader.encode_canonical`). -/

namespace LedgerIndex

namespace Der

/-! ### The reader -/

/-- The number that a two's-complement content writes, the highest byte first. -/
def ofTwosComplement : Bytes → Int
  | [] => 0
  | high :: rest =>
    if high < 128 then ofBigEndian (high :: rest)
    else ofBigEndian (high :: rest) - 256 ^ (rest.length + 1)

/-- Reads the content of an integer in its shortest form: its first nine bits are not all equal. -/
def readInteger? : Bytes → Option Int
  | [] => none
  | [byte] => some (ofTwosComplement [byte])
  | high :: next :: rest =>
    if (high = 0 ∧ next < 128) ∨ (high = 255 ∧ 128 ≤ next) then none
    else some (ofTwosComplement (high :: next :: rest))

/-- What an element of a sequence says. -/
inductive Item where
  | integer (value : Int)
  | octetString (content : Bytes)
deriving DecidableEq, Repr

def Item.ofElement? (element : UInt8 × Bytes) : Option Item :=
  if element.1 = Tag.integer.octet then (readInteger? element.2).map .integer
  else if element.1 = Tag.octetString.octet then some (.octetString element.2)
  else none

/-- Reads a sequence of integers and octet strings that nothing follows. -/
def items? (bytes : Bytes) : Option (List Item) :=
  match read? .sequence bytes with
  | some (content, []) => (elements? content).bind (List.mapM Item.ofElement?)
  | _ => none

/-! ### Numbers have one spelling -/

theorem ofBigEndian_lt (bytes : Bytes) : ofBigEndian bytes < 256 ^ bytes.length := by
  induction bytes using List.reverseRecOn with
  | nil => exact Nat.one_pos
  | append_singleton bytes byte ih =>
      have hbyte := byte.toNat_lt
      rw [ofBigEndian_append_singleton, List.length_append, List.length_singleton, Nat.pow_succ]
      omega

/-- Bytes without a leading zero are the bytes of the number that they write. -/
theorem bigEndian_ofBigEndian {bytes : Bytes} (h : bytes.head? ≠ some 0) :
    bigEndian (ofBigEndian bytes) = bytes := by
  induction bytes using List.reverseRecOn with
  | nil =>
      show bigEndian 0 = []
      rw [bigEndian, if_pos rfl]
  | append_singleton bytes byte ih =>
      have hbyte := byte.toNat_lt
      have hhigh : bytes.head? ≠ some 0 := by
        intro hzero
        exact h (by rw [List.head?_append, hzero, Option.some_or])
      rw [ofBigEndian_append_singleton]
      have hpos : 0 < ofBigEndian bytes * 256 + byte.toNat := by
        rcases Nat.eq_zero_or_pos (ofBigEndian bytes) with hnone | hsome
        · have hbytes := ih hhigh
          rw [hnone, bigEndian, if_pos rfl] at hbytes
          subst hbytes
          have hne : byte.toNat ≠ 0 := by
            intro hzero
            exact h (congrArg some (UInt8.toNat_inj.mp hzero))
          omega
        · omega
      have hdiv : (ofBigEndian bytes * 256 + byte.toNat) / 256 = ofBigEndian bytes := by omega
      have hmod : (ofBigEndian bytes * 256 + byte.toNat).toUInt8 = byte := by
        apply UInt8.toNat_inj.mp
        rw [Nat.toUInt8_eq, UInt8.toNat_ofNat']
        omega
      rw [bigEndian_of_pos hpos, hdiv, hmod, ih hhigh]

/-- **A number has one shortest content.** -/
theorem readNatural?_eq_some_iff {content : Bytes} {n : Nat} :
    readNatural? content = some n ↔ content = integerContent n := by
  refine ⟨fun h => ?_, fun h => h ▸ readNatural?_integerContent n⟩
  match content with
  | [] => cases h
  | [byte] =>
    rw [readNatural?] at h
    split at h
    · rename_i hlow
      obtain rfl := Option.some.inj h
      have hvalue : byte.toNat = ofBigEndian [byte] := by simp [ofBigEndian]
      rcases eq_or_ne byte 0 with rfl | hne
      · rw [integerContent, UInt8.toNat_zero, bigEndian, if_pos rfl]
      · rw [integerContent, hvalue, bigEndian_ofBigEndian (by simpa using hne)]
        exact (if_pos hlow).symm
    · cases h
  | high :: next :: rest =>
    rw [readNatural?] at h
    split at h
    · cases h
    · rename_i hshortest
      obtain rfl := Option.some.inj h
      simp only [not_or, not_and, UInt8.not_le, UInt8.not_lt] at hshortest
      obtain ⟨hlow, hnext⟩ := hshortest
      rcases eq_or_ne high 0 with rfl | hne
      · have hhead : (next :: rest).head? ≠ some 0 := by
          intro hzero
          obtain rfl := Option.some.inj hzero
          exact absurd (hnext rfl) (by decide)
        rw [ofBigEndian_zero_cons, integerContent, bigEndian_ofBigEndian hhead]
        exact (if_neg (UInt8.not_lt.mpr (hnext rfl))).symm
      · rw [integerContent, bigEndian_ofBigEndian (by simpa using hne)]
        exact (if_pos hlow).symm

/-- The signed reader agrees with the reader of natural numbers on them. -/
theorem readInteger?_eq_natCast_iff {content : Bytes} {n : Nat} :
    readInteger? content = some (n : Int) ↔ readNatural? content = some n := by
  have hvalue : ∀ (high : UInt8) (rest : Bytes), ofTwosComplement (high :: rest) = n ↔
      high < 128 ∧ ofBigEndian (high :: rest) = n := by
    intro high rest
    rw [ofTwosComplement]
    by_cases hlow : high < 128
    · rw [if_pos hlow, Int.natCast_inj]
      exact (and_iff_right hlow).symm
    · have hlt := Int.ofNat_lt.mpr (ofBigEndian_lt (high :: rest))
      rw [List.length_cons, Int.natCast_pow] at hlt
      rw [if_neg hlow]
      constructor
      · intro hneg
        have hn : (0 : Int) ≤ n := Int.natCast_nonneg n
        rw [← hneg] at hn
        exact absurd (Int.sub_nonneg.mp hn) (Int.not_le.mpr hlt)
      · rintro ⟨hlow', -⟩
        exact absurd hlow' hlow
  match content with
  | [] => simp [readInteger?, readNatural?]
  | [byte] =>
    have hbyte : ofBigEndian [byte] = byte.toNat := by simp [ofBigEndian]
    rw [readInteger?, readNatural?, Option.some.injEq, hvalue, hbyte]
    by_cases hlow : byte < 128
    · simp [hlow]
    · simp [hlow]
  | high :: next :: rest =>
    rw [readInteger?, readNatural?]
    by_cases hlow : high < 128
    · have hne : high ≠ 255 := by
        rintro rfl
        exact absurd hlow (by decide)
      by_cases hpadded : high = 0 ∧ next < 128
      · rw [if_pos (.inl hpadded), if_pos (.inr hpadded)]
        simp
      · rw [if_neg (by simp [hpadded, hne]), if_neg (by simp [hpadded, hlow]), Option.some.injEq,
          hvalue, Option.some.injEq]
        simp [hlow]
    · rw [if_pos (Or.inl (UInt8.not_lt.mp hlow) : 128 ≤ high ∨ high = 0 ∧ next < 128)]
      split
      · simp
      · rw [Option.some.injEq, hvalue]
        simp [hlow]

/-! ### Elements have one spelling -/

/-- Any element: its first byte, the length of its content and the content. -/
def spelling (element : UInt8 × Bytes) : Bytes :=
  element.1 :: lengthOctets element.2.length ++ element.2

/-- **A length has one shortest form.** -/
theorem readLength?_eq_some {bytes rest : Bytes} {length : Nat}
    (h : readLength? bytes = some (length, rest)) : bytes = lengthOctets length ++ rest := by
  match bytes with
  | [] => cases h
  | first :: tail =>
    have hfirst := first.toNat_lt
    rw [readLength?] at h
    split at h
    · rename_i hshort
      obtain ⟨rfl, rfl⟩ := Prod.mk.inj (Option.some.inj h)
      have hlength : first.toNat < 128 := UInt8.lt_iff_toNat_lt.mp hshort
      rw [lengthOctets, if_pos hlength, List.singleton_append, Nat.toUInt8_eq, UInt8.ofNat_toNat]
    · rename_i hlong
      dsimp only at h
      split at h
      · rename_i hshortest
        obtain ⟨hcount, hhead, hleast⟩ := hshortest
        obtain ⟨rfl, rfl⟩ := Prod.mk.inj (Option.some.inj h)
        have hmark : 128 ≤ first.toNat := by
          rw [UInt8.lt_iff_toNat_lt] at hlong
          exact Nat.not_lt.mp hlong
        have hbyte : (128 + (first.toNat - 128)).toUInt8 = first := by
          rw [Nat.add_sub_of_le hmark, Nat.toUInt8_eq, UInt8.ofNat_toNat]
        rw [lengthOctets, if_neg (Nat.not_lt.mpr hleast), bigEndian_ofBigEndian hhead, hcount,
          hbyte, List.cons_append, List.take_append_drop]
      · cases h

theorem readAny?_eq_some {bytes content rest : Bytes} {first : UInt8}
    (h : readAny? bytes = some (first, content, rest)) :
    bytes = spelling (first, content) ++ rest := by
  match bytes with
  | [] => cases h
  | tag :: tail =>
    rw [readAny?] at h
    split at h
    · rename_i length left hlength
      split at h
      · rename_i henough
        obtain ⟨rfl, hrest⟩ := Prod.mk.inj (Option.some.inj h)
        obtain ⟨rfl, rfl⟩ := Prod.mk.inj hrest
        rw [spelling, List.length_take_of_le henough, readLength?_eq_some hlength]
        simp [List.take_append_drop]
      · cases h
    · cases h

theorem readAny?_spelling {element : UInt8 × Bytes} (h : element.2.length < lengthLimit)
    (rest : Bytes) : readAny? (spelling element ++ rest) = some (element.1, element.2, rest) := by
  unfold spelling
  rw [List.append_assoc, List.cons_append, readAny?, readLength?_lengthOctets h]
  simp

theorem read?_eq_some {tag : Tag} {bytes content rest : Bytes}
    (h : read? tag bytes = some (content, rest)) : bytes = element tag content ++ rest := by
  rw [read?] at h
  split at h
  · rename_i first content' rest' hany
    split at h
    · rename_i htag
      obtain ⟨rfl, rfl⟩ := Prod.mk.inj (Option.some.inj h)
      rw [readAny?_eq_some hany, htag]
      rfl
    · cases h
  · cases h

theorem elementsUpTo?_eq_some {fuel : Nat} {bytes : Bytes} {elements : List (UInt8 × Bytes)}
    (h : elementsUpTo? fuel bytes = some elements) : bytes = elements.flatMap spelling := by
  induction fuel generalizing bytes elements with
  | zero =>
      cases bytes with
      | nil =>
          obtain rfl := Option.some.inj h
          rfl
      | cons => cases h
  | succ fuel ih =>
      cases bytes with
      | nil =>
          obtain rfl := Option.some.inj h
          rfl
      | cons first tail =>
          rw [elementsUpTo?] at h
          · split at h
            · rename_i tag content rest hany
              obtain ⟨others, hothers, rfl⟩ := Option.map_eq_some_iff.mp h
              rw [readAny?_eq_some hany, ih hothers, List.flatMap_cons]
            · cases h
          · simp

theorem elementsUpTo?_flatMap {fuel : Nat} {elements : List (UInt8 × Bytes)}
    (h : ∀ element ∈ elements, element.2.length < lengthLimit) (hfuel : elements.length ≤ fuel) :
    elementsUpTo? fuel (elements.flatMap spelling) = some elements := by
  induction elements generalizing fuel with
  | nil => cases fuel <;> rfl
  | cons element elements ih =>
      obtain ⟨hfirst, hothers⟩ := List.forall_mem_cons.mp h
      obtain ⟨fuel, rfl⟩ : ∃ rest, fuel = rest + 1 :=
        ⟨fuel - 1, by rw [List.length_cons] at hfuel; omega⟩
      have hread := readAny?_spelling hfirst (elements.flatMap spelling)
      have hrest := ih hothers (Nat.le_of_succ_le_succ hfuel)
      rw [List.flatMap_cons, elementsUpTo?, hread]
      · simp [hrest]
      · simp [spelling]

theorem length_le_length_flatMap_spelling (elements : List (UInt8 × Bytes)) :
    elements.length ≤ (elements.flatMap spelling).length := by
  induction elements with
  | nil => exact Nat.le_refl 0
  | cons element elements ih =>
      simp only [List.flatMap_cons, List.length_append, List.length_cons, spelling]
      omega

/-- **A list of elements has one spelling.** -/
theorem elements?_eq_some_iff {content : Bytes} {elements : List (UInt8 × Bytes)}
    (h : ∀ element ∈ elements, element.2.length < lengthLimit) :
    elements? content = some elements ↔ content = elements.flatMap spelling := by
  constructor
  · exact elementsUpTo?_eq_some
  · rintro rfl
    exact elementsUpTo?_flatMap h (length_le_length_flatMap_spelling elements)

/-! ### Items -/

theorem ofElement?_eq_integer_iff {element : UInt8 × Bytes} {n : Nat} :
    Item.ofElement? element = some (.integer n) ↔
      element = (Tag.integer.octet, integerContent n) := by
  obtain ⟨tag, content⟩ := element
  have hnatural := @readInteger?_eq_natCast_iff content n
  rw [readNatural?_eq_some_iff] at hnatural
  unfold Item.ofElement?
  by_cases hinteger : tag = Tag.integer.octet
  · simp [hinteger, hnatural]
  · by_cases hoctets : tag = Tag.octetString.octet
    · simp [hoctets, Tag.octet]
    · simp [hinteger, hoctets]

theorem ofElement?_eq_octetString_iff {element : UInt8 × Bytes} {octets : Bytes} :
    Item.ofElement? element = some (.octetString octets) ↔
      element = (Tag.octetString.octet, octets) := by
  obtain ⟨tag, content⟩ := element
  unfold Item.ofElement?
  by_cases hinteger : tag = Tag.integer.octet
  · simp [hinteger, Tag.octet]
  · by_cases hoctets : tag = Tag.octetString.octet
    · simp [hoctets, Tag.octet]
    · simp [hinteger, hoctets]

theorem mapM_ofElement?_eq_some_nil {elements : List (UInt8 × Bytes)} :
    elements.mapM Item.ofElement? = some [] ↔ elements = [] := by
  cases elements with
  | nil => simp
  | cons first rest => simp [Option.bind_eq_some_iff]

theorem mapM_ofElement?_eq_some_cons {elements : List (UInt8 × Bytes)} {item : Item}
    {items : List Item} :
    elements.mapM Item.ofElement? = some (item :: items) ↔
      ∃ first rest, elements = first :: rest ∧ Item.ofElement? first = some item ∧
        rest.mapM Item.ofElement? = some items := by
  cases elements with
  | nil => simp
  | cons first rest => simp [Option.bind_eq_some_iff]

/-- Bytes read as a list of items if and only if they are the sequence of elements for them. -/
theorem items?_eq_some_iff {bytes : Bytes} {items : List Item} :
    items? bytes = some items ↔
      ∃ content elements, read? .sequence bytes = some (content, []) ∧
        elements? content = some elements ∧ elements.mapM Item.ofElement? = some items := by
  unfold items?
  split
  · rename_i content hread
    simp [hread, Option.bind_eq_some_iff]
  · rename_i hother
    constructor
    · intro h
      cases h
    · rintro ⟨content, elements, hread, -⟩
      exact absurd hread (hother content)

end Der

namespace BlockHeader

/-! ### Headers -/

variable {header : BlockHeader}

/-- The elements of a header encoding. -/
def elements (header : BlockHeader) : List (UInt8 × Bytes) :=
  [(Der.Tag.integer.octet, Der.integerContent header.number),
    (Der.Tag.octetString.octet, header.previousHash), (Der.Tag.octetString.octet, header.dataHash)]

def items (header : BlockHeader) : List Der.Item :=
  [.integer header.number, .octetString header.previousHash, .octetString header.dataHash]

theorem body_eq_flatMap_elements (header : BlockHeader) :
    header.body = header.elements.flatMap Der.spelling := by
  simp [body, elements, Der.element, Der.spelling]

theorem length_le_length_body {element : UInt8 × Bytes} (h : element ∈ header.elements) :
    element.2.length ≤ header.body.length := by
  simp only [elements, List.mem_cons, List.not_mem_nil, or_false] at h
  rcases h with rfl | rfl | rfl <;>
    (simp only [body, Der.element, List.length_append]; omega)

theorem mapM_ofElement?_eq_items {elements : List (UInt8 × Bytes)} :
    elements.mapM Der.Item.ofElement? = some header.items ↔ elements = header.elements := by
  simp [items, BlockHeader.elements, Der.mapM_ofElement?_eq_some_cons,
    Der.mapM_ofElement?_eq_some_nil, Der.ofElement?_eq_integer_iff,
    Der.ofElement?_eq_octetString_iff]

/-- **The fields of a header have one spelling.** -/
theorem items?_eq_items_iff (h : header.Readable) {bytes : Bytes} :
    Der.items? bytes = some header.items ↔ bytes = header.element := by
  have hlimit : ∀ element ∈ header.elements, element.2.length < Der.lengthLimit :=
    fun element helement => Nat.lt_of_le_of_lt (length_le_length_body helement) h
  rw [Der.items?_eq_some_iff]
  constructor
  · rintro ⟨content, elements, hread, helements, hitems⟩
    obtain rfl := mapM_ofElement?_eq_items.mp hitems
    rw [Der.elements?_eq_some_iff hlimit, ← body_eq_flatMap_elements] at helements
    subst helements
    rw [Der.read?_eq_some hread, List.append_nil]
    rfl
  · rintro rfl
    have hread := Der.read?_element .sequence header.body h []
    rw [List.append_nil] at hread
    refine ⟨header.body, header.elements, hread, ?_, mapM_ofElement?_eq_items.mpr rfl⟩
    rw [Der.elements?_eq_some_iff hlimit, body_eq_flatMap_elements]

theorem encode_eq_ok_iff {bytes : Bytes} :
    header.encode = .ok bytes ↔ header.number ≤ greatestNumber ∧ bytes = header.element := by
  unfold encode
  split
  · rename_i hnumber
    rw [Except.ok.injEq]
    exact ⟨fun h => ⟨hnumber, h.symm⟩, fun h => h.2.symm⟩
  · rename_i hnumber
    constructor
    · intro h
      cases h
    · rintro ⟨hle, -⟩
      exact absurd hle hnumber

theorem readable_of_total_lt (hnumber : header.number ≤ greatestNumber)
    (hlength : header.previousHash.length + header.dataHash.length < 2 ^ 63) :
    header.Readable := by
  have hsize : 2 ^ 63 < UInt64.size := by decide
  exact readable_of_length_lt hnumber (by omega) (by omega)

/-- **A header encoding is canonical.**  There is one as far as the number fits a signed
sixty-four-bit integer.  The strict reader reads the three fields from it and from no other bytes,
so that two headers of one encoding are one header. -/
theorem encode_canonical (header : BlockHeader)
    (hlength : header.previousHash.length + header.dataHash.length < 2 ^ 63) :
    ((∃ bytes, header.encode = .ok bytes) ↔ header.number ≤ 2 ^ 63 - 1) ∧
      ∀ bytes, header.encode = .ok bytes →
        (∀ read, Der.items? read = some [.integer header.number,
            .octetString header.previousHash, .octetString header.dataHash] ↔ read = bytes) ∧
        ∀ other : BlockHeader, other.previousHash.length + other.dataHash.length < 2 ^ 63 →
          other.encode = .ok bytes → other = header := by
  have hgreatest : greatestNumber = 2 ^ 63 - 1 := by decide
  refine ⟨?_, fun bytes hbytes => ?_⟩
  · rw [← hgreatest]
    constructor
    · rintro ⟨bytes, hbytes⟩
      exact (encode_eq_ok_iff.mp hbytes).1
    · intro hnumber
      exact ⟨header.element, encode_eq_ok_iff.mpr ⟨hnumber, rfl⟩⟩
  · obtain ⟨hnumber, rfl⟩ := encode_eq_ok_iff.mp hbytes
    have hreadable := readable_of_total_lt hnumber hlength
    refine ⟨fun read => items?_eq_items_iff hreadable, fun other hother hsame => ?_⟩
    obtain ⟨hnumber', helement⟩ := encode_eq_ok_iff.mp hsame
    exact element_injective (readable_of_total_lt hnumber' hother) hreadable helement.symm

/-- The block number 128 needs a byte in front of its own, and so does the length of a hash of 128
bytes. -/
theorem encode_canonical_padded :
    (∃ bytes, BlockHeader.encode ⟨128, [], List.replicate 128 7⟩ = .ok bytes) ∧
      ∀ read, Der.items? read
          = some [.integer 128, .octetString [], .octetString (List.replicate 128 7)] ↔
        read = [0x30, 0x81, 0x89, 0x02, 0x02, 0x00, 0x80, 0x04, 0x00, 0x04, 0x81, 0x80]
          ++ List.replicate 128 7 := by
  have hcanonical := encode_canonical ⟨128, [], List.replicate 128 7⟩ (by simp)
  refine ⟨hcanonical.1.mpr (by decide), (hcanonical.2 _ ?_).1⟩
  decide +kernel

end BlockHeader

end LedgerIndex
