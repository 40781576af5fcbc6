import LedgerIndex.Block.Header
import Mathlib.Algebra.Group.Nat.Defs

/-! # Reading distinguished encodings back

The strict reader reads back what the writer writes (`Der.read?_element`,
`Der.readNatural?_integerContent`), for contents whose length has a length field
(`Der.lengthLimit`).  A header encoding therefore determines the header
(`BlockHeader.decode?_element`, `BlockHeader.element_injective`). -/

namespace LedgerIndex

namespace Der

/-! ### Numbers -/

theorem ofBigEndian_append_singleton (bytes : Bytes) (byte : UInt8) :
    ofBigEndian (bytes ++ [byte]) = ofBigEndian bytes * 256 + byte.toNat := by
  simp [ofBigEndian]

theorem ofBigEndian_zero_cons (bytes : Bytes) : ofBigEndian (0 :: bytes) = ofBigEndian bytes := by
  simp [ofBigEndian]

theorem bigEndian_of_pos {n : Nat} (h : 0 < n) :
    bigEndian n = bigEndian (n / 256) ++ [n.toUInt8] := by
  rw [bigEndian, if_neg (by omega)]

theorem ofBigEndian_bigEndian (n : Nat) : ofBigEndian (bigEndian n) = n := by
  induction n using bigEndian.induct with
  | case1 =>
      rw [bigEndian, if_pos rfl]
      rfl
  | case2 n h ih =>
      rw [bigEndian_of_pos (Nat.pos_of_ne_zero h), ofBigEndian_append_singleton, ih]
      simp only [Nat.toUInt8_eq, UInt8.toNat_ofNat']
      omega

theorem head?_bigEndian_ne_zero (n : Nat) : (bigEndian n).head? ≠ some 0 := by
  induction n using bigEndian.induct with
  | case1 =>
      rw [bigEndian, if_pos rfl]
      simp
  | case2 n h ih =>
      rw [bigEndian_of_pos (Nat.pos_of_ne_zero h)]
      by_cases hsmall : n / 256 = 0
      · rw [hsmall, bigEndian, if_pos rfl, List.nil_append, List.head?_cons]
        intro hzero
        have hbyte := congrArg UInt8.toNat (Option.some.inj hzero)
        simp only [Nat.toUInt8_eq, UInt8.toNat_ofNat', UInt8.toNat_zero] at hbyte
        omega
      · cases hhigh : bigEndian (n / 256) with
        | nil =>
            have hvalue := ofBigEndian_bigEndian (n / 256)
            rw [hhigh] at hvalue
            exact absurd hvalue.symm hsmall
        | cons high rest =>
            rw [hhigh] at ih
            exact ih

theorem length_bigEndian_le {n k : Nat} (h : n < 256 ^ k) : (bigEndian n).length ≤ k := by
  induction k generalizing n with
  | zero =>
      obtain rfl : n = 0 := by simpa using h
      simp [bigEndian]
  | succ k ih =>
      rcases Nat.eq_zero_or_pos n with rfl | hpos
      · simp [bigEndian]
      · rw [bigEndian_of_pos hpos, List.length_append, List.length_singleton]
        have hdiv : n / 256 < 256 ^ k := Nat.div_lt_of_lt_mul (by rwa [Nat.pow_succ'] at h)
        exact Nat.succ_le_succ (ih hdiv)

/-- **The content of an integer reads back.** -/
theorem readNatural?_integerContent (n : Nat) : readNatural? (integerContent n) = some n := by
  have hvalue := ofBigEndian_bigEndian n
  have hhead := head?_bigEndian_ne_zero n
  unfold integerContent
  cases hbytes : bigEndian n with
  | nil =>
      rw [hbytes] at hvalue
      rw [← hvalue]
      rfl
  | cons high rest =>
      rw [hbytes] at hvalue hhead
      have hne : high ≠ 0 := fun h => hhead (by rw [h]; rfl)
      by_cases hlow : high < 128
      · simp only [hlow, if_true]
        cases rest with
        | nil =>
            rw [readNatural?, if_pos hlow, ← hvalue]
            simp [ofBigEndian]
        | cons next rest =>
            have hhigh : ¬ 128 ≤ high := UInt8.not_le.mpr hlow
            rw [readNatural?, if_neg (by simp [hhigh, hne]), hvalue]
      · simp only [hlow, if_false]
        rw [readNatural?, if_neg (by simp [hlow]), ofBigEndian_zero_cons, hvalue]

theorem length_integerContent_le {n k : Nat} (h : n < 256 ^ k) :
    (integerContent n).length ≤ k + 1 := by
  have hlength := length_bigEndian_le h
  unfold integerContent
  cases hbytes : bigEndian n with
  | nil => simp
  | cons high rest =>
      rw [hbytes, List.length_cons] at hlength
      by_cases hlow : high < 128
      · simp only [hlow, if_true, List.length_cons]
        omega
      · simp only [hlow, if_false, List.length_cons]
        omega

/-! ### Elements -/

/-- Lengths below the limit have a length field. -/
def lengthLimit : Nat := 256 ^ 127

theorem length_bigEndian_of_lt {length : Nat} (h : length < lengthLimit) :
    (bigEndian length).length ≤ 127 := length_bigEndian_le h

theorem length_lengthOctets_le {length : Nat} (h : length < lengthLimit) :
    (lengthOctets length).length ≤ 128 := by
  have := length_bigEndian_of_lt h
  unfold lengthOctets
  split
  · simp
  · rw [List.length_cons]
    omega

theorem readLength?_lengthOctets {length : Nat} (h : length < lengthLimit) (rest : Bytes) :
    readLength? (lengthOctets length ++ rest) = some (length, rest) := by
  unfold lengthOctets
  by_cases hshort : length < 128
  · have hnat : length.toUInt8.toNat = length := by
      simp only [Nat.toUInt8_eq, UInt8.toNat_ofNat']
      omega
    have hlt : length.toUInt8 < 128 := by
      rw [UInt8.lt_iff_toNat_lt, hnat]
      exact hshort
    rw [if_pos hshort, List.singleton_append, readLength?, if_pos hlt, hnat]
  · have hcount := length_bigEndian_of_lt h
    have hnat : (128 + (bigEndian length).length).toUInt8.toNat
        = 128 + (bigEndian length).length := by
      simp only [Nat.toUInt8_eq, UInt8.toNat_ofNat']
      omega
    have hlt : ¬ (128 + (bigEndian length).length).toUInt8 < 128 := by
      rw [UInt8.lt_iff_toNat_lt, hnat]
      exact Nat.not_lt.mpr (Nat.le_add_right ..)
    rw [if_neg hshort, List.cons_append, readLength?, if_neg hlt]
    simp only [hnat, Nat.add_sub_cancel_left, List.take_left', List.drop_left',
      ofBigEndian_bigEndian]
    rw [if_pos ⟨trivial, head?_bigEndian_ne_zero length, Nat.not_lt.mp hshort⟩]

/-- **An element reads back.** -/
theorem read?_element (tag : Tag) (content : Bytes) (h : content.length < lengthLimit)
    (rest : Bytes) : read? tag (element tag content ++ rest) = some (content, rest) := by
  unfold read? element
  rw [List.append_assoc, List.cons_append, readAny?, readLength?_lengthOctets h]
  simp

theorem length_element_le (tag : Tag) (content : Bytes) (h : content.length < lengthLimit) :
    (element tag content).length ≤ content.length + 129 := by
  have := length_lengthOctets_le h
  simp only [element, List.length_append, List.length_cons]
  omega

theorem length_le_length_element (tag : Tag) (content : Bytes) :
    content.length ≤ (element tag content).length := by
  simp only [element, List.length_append]
  omega

end Der

/-! ### Headers -/

namespace BlockHeader

/-- The content of a header encoding. -/
def body (header : BlockHeader) : Bytes :=
  Der.element .integer (Der.integerContent header.number)
    ++ Der.element .octetString header.previousHash ++ Der.element .octetString header.dataHash

/-- The encoding of a header has its length field. -/
def Readable (header : BlockHeader) : Prop :=
  header.body.length < Der.lengthLimit

/-- **A header encoding reads back.** -/
theorem decode?_element {header : BlockHeader} (h : header.Readable) :
    decode? header.element = some header := by
  unfold Readable at h
  have hnumber := Der.length_le_length_element .integer (Der.integerContent header.number)
  have hprevious := Der.length_le_length_element .octetString header.previousHash
  have hdata := Der.length_le_length_element .octetString header.dataHash
  have hlength : header.body.length
      = (Der.element .integer (Der.integerContent header.number)).length
      + (Der.element .octetString header.previousHash).length
      + (Der.element .octetString header.dataHash).length := by
    simp [body, Nat.add_assoc]
  have hsequence : Der.read? .sequence header.element = some (header.body, []) := by
    have hread := Der.read?_element .sequence header.body h []
    rwa [List.append_nil] at hread
  have hinteger : Der.read? .integer header.body = some (Der.integerContent header.number,
      Der.element .octetString header.previousHash
        ++ Der.element .octetString header.dataHash) := by
    rw [body, List.append_assoc]
    exact Der.read?_element .integer _ (by omega) _
  have hfirst := Der.read?_element .octetString header.previousHash (by omega)
    (Der.element .octetString header.dataHash)
  have hsecond : Der.read? .octetString (Der.element .octetString header.dataHash)
      = some (header.dataHash, []) := by
    have hread := Der.read?_element .octetString header.dataHash (by omega) []
    rwa [List.append_nil] at hread
  simp only [decode?, hsequence, hinteger, hfirst, hsecond, Der.readNatural?_integerContent,
    Option.bind_eq_bind, Option.bind_some, and_self, if_true]

/-- **A header encoding determines the header.** -/
theorem element_injective {header header' : BlockHeader} (h : header.Readable)
    (h' : header'.Readable) (helement : header.element = header'.element) : header = header' := by
  have hread := decode?_element h
  rw [helement, decode?_element h'] at hread
  exact (Option.some.inj hread).symm

theorem readable_of_length_lt {header : BlockHeader} (hnumber : header.number ≤ greatestNumber)
    (hprevious : header.previousHash.length < UInt64.size)
    (hdata : header.dataHash.length < UInt64.size) : header.Readable := by
  have hlimit : 2 * UInt64.size + 1000 < Der.lengthLimit := by decide +kernel
  have hcontent : (Der.integerContent header.number).length ≤ 9 := by
    refine Der.length_integerContent_le (Nat.lt_of_le_of_lt hnumber ?_)
    decide +kernel
  have hinteger := Der.length_element_le .integer (Der.integerContent header.number) (by omega)
  have hfirst := Der.length_element_le .octetString header.previousHash (by omega)
  have hsecond := Der.length_element_le .octetString header.dataHash (by omega)
  simp only [Readable, body, List.length_append]
  omega

/-- A header hash is the digest of the encoding, and the number fits it. -/
theorem hash_eq_ok {header : BlockHeader} {hash : Bytes} (h : header.hash = .ok hash) :
    header.number ≤ greatestNumber ∧ hash = Sha256.digest header.element := by
  unfold BlockHeader.hash encode at h
  split at h
  · rename_i hnumber
    cases h
    exact ⟨hnumber, rfl⟩
  · cases h

theorem hash_of_number_le {header : BlockHeader} (h : header.number ≤ greatestNumber) :
    header.hash = .ok (Sha256.digest header.element) := by
  rw [BlockHeader.hash, encode, if_pos h]
  rfl

theorem hash_eq_error {header : BlockHeader} {e : BlockNumberOverflow}
    (h : header.hash = .error e) : e = ⟨header.number⟩ := by
  unfold BlockHeader.hash encode at h
  split at h
  · cases h
  · cases h
    rfl

end BlockHeader

end LedgerIndex
