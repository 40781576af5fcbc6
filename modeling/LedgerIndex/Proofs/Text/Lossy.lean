import LedgerIndex.Proofs.Text.Utf8

/-! # Bytes that are no text

Only the encoding of a text is decoded (`Utf8.decodeChars?_sound`).  The lossy text of any other
byte string has U+FFFD for each maximal subpart that is ill formed, in the sense of Unicode
(`Utf8.MaximalSubpart`), and every character that is encoded between them: `Utf8.replaced_lossy`. -/

namespace LedgerIndex.Utf8

/-! ### Encoded characters -/

section Encoded

variable {x y z w : Nat}

theorem val_toNat_ofNat {n : Nat} (h : n.isValidChar) : (Char.ofNat n).val.toNat = n := by
  rw [Char.ofNat, dif_pos h]
  rfl

theorem encodeChar_one (hx : x < 0x80) :
    String.utf8EncodeChar (Char.ofNat x) = [UInt8.ofNat x] := by
  have hvalid : x.isValidChar := .inl (by omega)
  simp only [String.utf8EncodeChar, val_toNat_ofNat hvalid]
  rw [if_pos (by omega)]

theorem encodeChar_two (hx : 2 ≤ x ∧ x < 32) (hy : y < 64) :
    String.utf8EncodeChar (Char.ofNat (x * 64 + y))
      = [UInt8.ofNat (x + 0xC0), UInt8.ofNat (y + 0x80)] := by
  have hvalid : (x * 64 + y).isValidChar := .inl (by omega)
  have hlead : (x * 64 + y) / 64 % 32 = x := by omega
  have hlast : (x * 64 + y) % 64 = y := by omega
  simp only [String.utf8EncodeChar, val_toNat_ofNat hvalid]
  rw [if_neg (by omega), if_pos (by omega), hlead, hlast]

theorem encodeChar_three (hx : x < 16) (hy : y < 64) (hz : z < 64) (hlow : x = 0 → 32 ≤ y)
    (hsurrogate : x = 13 → y < 32) :
    String.utf8EncodeChar (Char.ofNat ((x * 64 + y) * 64 + z))
      = [UInt8.ofNat (x + 0xE0), UInt8.ofNat (y + 0x80), UInt8.ofNat (z + 0x80)] := by
  obtain ⟨v, hv⟩ : ∃ v, (x * 64 + y) * 64 + z = v := ⟨_, rfl⟩
  have hvalid : v.isValidChar := by
    rcases Nat.lt_or_ge v 0xD800 with hsmall | hlarge
    · exact .inl hsmall
    · exact .inr ⟨by omega, by omega⟩
  have hlead : v / 4096 % 16 = x := by omega
  have hmiddle : v / 64 % 64 = y := by omega
  have hlast : v % 64 = z := by omega
  rw [hv]
  simp only [String.utf8EncodeChar, val_toNat_ofNat hvalid]
  rw [if_neg (by omega), if_neg (by omega), if_pos (by omega), hlead, hmiddle, hlast]

theorem encodeChar_four (hx : x < 5) (hy : y < 64) (hz : z < 64) (hw : w < 64)
    (hlow : x = 0 → 16 ≤ y) (hhigh : x = 4 → y < 16) :
    String.utf8EncodeChar (Char.ofNat (((x * 64 + y) * 64 + z) * 64 + w))
      = [UInt8.ofNat (x + 0xF0), UInt8.ofNat (y + 0x80), UInt8.ofNat (z + 0x80),
          UInt8.ofNat (w + 0x80)] := by
  obtain ⟨v, hv⟩ : ∃ v, ((x * 64 + y) * 64 + z) * 64 + w = v := ⟨_, rfl⟩
  have hvalid : v.isValidChar := .inr ⟨by omega, by omega⟩
  have hlead : v / 262144 % 8 = x := by omega
  have hsecond : v / 4096 % 64 = y := by omega
  have hthird : v / 64 % 64 = z := by omega
  have hlast : v % 64 = w := by omega
  rw [hv]
  simp only [String.utf8EncodeChar, val_toNat_ofNat hvalid]
  rw [if_neg (by omega), if_neg (by omega), if_neg (by omega), hlead, hsecond, hthird, hlast]

end Encoded

/-! ### The bytes behind a leading byte -/

section Trailing

variable {k bits : Nat} {low high byte : UInt8} {rest rest' : Bytes} {c : Char}

theorem ofNat_toNat_sub {m : Nat} (h : m ≤ byte.toNat) :
    UInt8.ofNat (byte.toNat - m + m) = byte := by
  rw [Nat.sub_add_cancel h, UInt8.ofNat_toNat]

theorem trailing_zero_eq_some (h : trailing 0 low high bits rest = (some c, rest')) :
    c = Char.ofNat bits ∧ rest = rest' := by
  rw [trailing] at h
  exact ⟨(Option.some.inj (Prod.mk.inj h).1).symm, (Prod.mk.inj h).2⟩

theorem trailing_succ_eq_some (h : trailing (k + 1) low high bits rest = (some c, rest')) :
    ∃ byte tail, rest = byte :: tail ∧ (low.toNat ≤ byte.toNat ∧ byte.toNat ≤ high.toNat) ∧
      trailing k 0x80 0xBF (bits * 64 + (byte.toNat - 0x80)) tail = (some c, rest') := by
  cases rest with
  | nil => cases h
  | cons byte tail =>
      rw [trailing] at h
      split at h
      · rename_i hrange
        exact ⟨byte, tail, rfl, hrange, h⟩
      · cases h

theorem trailing_completes (k : Nat) {low high : UInt8} (h : low ≤ high) (bits : Nat) :
    ∃ bytes c, trailing k low high bits bytes = (some c, []) := by
  induction k generalizing low high bits with
  | zero => exact ⟨[], _, rfl⟩
  | succ k ih =>
      obtain ⟨bytes, c, hbytes⟩ := ih (show (0x80 : UInt8) ≤ 0xBF by decide)
        (bits * 64 + (low.toNat - 0x80))
      refine ⟨low :: bytes, c, ?_⟩
      rw [trailing, if_pos ⟨UInt8.le_refl low, h⟩, hbytes]

/-- Where a character is not completed, the bytes in range are taken: other bytes complete them,
and no longer part of what follows begins the rest of a character. -/
theorem trailing_eq_none (hrange : low ≤ high)
    (h : trailing k low high bits rest = (none, rest')) :
    ∃ taken, rest = taken ++ rest' ∧
      (∃ bytes c, trailing k low high bits (taken ++ bytes) = (some c, [])) ∧
      ∀ {part bytes tail : Bytes} {c : Char}, part <+: rest →
        trailing k low high bits (part ++ bytes) = (some c, tail) →
          part.length ≤ taken.length := by
  induction k generalizing low high bits rest with
  | zero => cases h
  | succ k ih =>
      cases rest with
      | nil =>
          cases h
          refine ⟨[], rfl, trailing_completes _ hrange bits, fun hpart _ => ?_⟩
          exact Nat.le_of_eq (congrArg _ (List.prefix_nil.mp hpart))
      | cons byte rest =>
          rw [trailing] at h
          split at h
          · rename_i hbyte
            obtain ⟨taken, rfl, ⟨bytes, c, hbytes⟩, hlongest⟩ := ih (by decide) h
            refine ⟨byte :: taken, rfl, ⟨bytes, c, ?_⟩, fun {part bytes tail c} hpart hread => ?_⟩
            · rw [List.cons_append, trailing, if_pos hbyte, hbytes]
            · cases part with
              | nil => exact Nat.zero_le _
              | cons first part =>
                  obtain ⟨rfl, hrest⟩ := List.cons_prefix_cons.mp hpart
                  rw [List.cons_append, trailing, if_pos hbyte] at hread
                  exact Nat.succ_le_succ (hlongest hrest hread)
          · rename_i hbyte
            cases h
            refine ⟨[], rfl, trailing_completes _ hrange bits, fun {part _ _ _} hpart hread => ?_⟩
            cases part with
            | nil => exact Nat.le_refl _
            | cons first part =>
                obtain ⟨rfl, -⟩ := List.cons_prefix_cons.mp hpart
                rw [List.cons_append, trailing, if_neg hbyte] at hread
                cases hread

/-- What a leading byte asks for: so many bytes, the first of them in a range, that complete a
character with these leading bits. -/
structure Leads (byte : UInt8) (k : Nat) (low high : UInt8) (bits : Nat) : Prop where
  piece (rest : Bytes) : piece byte rest = trailing k low high bits rest
  range : low ≤ high
  sound {rest rest' : Bytes} {c : Char} (h : trailing k low high bits rest = (some c, rest')) :
    byte :: rest = String.utf8EncodeChar c ++ rest'

theorem leads_one (h : byte.toNat < 0x80)
    (hpiece : ∀ rest, Utf8.piece byte rest = (some (Char.ofNat byte.toNat), rest)) :
    Leads byte 0 0x80 0xBF byte.toNat where
  piece := hpiece
  range := by decide
  sound h' := by
    obtain ⟨hc, rfl⟩ := trailing_zero_eq_some h'
    rw [hc, encodeChar_one h, UInt8.ofNat_toNat]
    rfl

theorem leads_two (h : 0xC2 ≤ byte.toNat ∧ byte.toNat < 0xE0)
    (hpiece : ∀ rest, Utf8.piece byte rest = trailing 1 0x80 0xBF (byte.toNat - 0xC0) rest) :
    Leads byte 1 0x80 0xBF (byte.toNat - 0xC0) where
  piece := hpiece
  range := by decide
  sound h' := by
    obtain ⟨second, rest, rfl, ⟨hlow, hhigh⟩, h'⟩ := trailing_succ_eq_some h'
    have hlow : 0x80 ≤ second.toNat := hlow
    have hhigh : second.toNat ≤ 0xBF := hhigh
    obtain ⟨hc, rfl⟩ := trailing_zero_eq_some h'
    rw [hc, encodeChar_two (by omega) (by omega), ofNat_toNat_sub (by omega), ofNat_toNat_sub hlow]
    rfl

theorem leads_three (h : 0xE0 ≤ byte.toNat ∧ byte.toNat < 0xF0) (hrange : low ≤ high)
    (hlow : 0x80 ≤ low.toNat) (hhigh : high.toNat ≤ 0xBF)
    (hfirst : byte.toNat = 0xE0 → 0xA0 ≤ low.toNat)
    (hsurrogate : byte.toNat = 0xED → high.toNat ≤ 0x9F)
    (hpiece : ∀ rest, Utf8.piece byte rest = trailing 2 low high (byte.toNat - 0xE0) rest) :
    Leads byte 2 low high (byte.toNat - 0xE0) where
  piece := hpiece
  range := hrange
  sound h' := by
    obtain ⟨second, rest, rfl, ⟨hlow₂, hhigh₂⟩, h'⟩ := trailing_succ_eq_some h'
    obtain ⟨third, rest, rfl, ⟨hlow₃, hhigh₃⟩, h'⟩ := trailing_succ_eq_some h'
    have hlow₃ : 0x80 ≤ third.toNat := hlow₃
    have hhigh₃ : third.toNat ≤ 0xBF := hhigh₃
    obtain ⟨hc, rfl⟩ := trailing_zero_eq_some h'
    rw [hc, encodeChar_three (by omega) (by omega) (by omega) (by omega) (by omega),
      ofNat_toNat_sub (by omega), ofNat_toNat_sub (by omega), ofNat_toNat_sub hlow₃]
    rfl

theorem leads_four (h : 0xF0 ≤ byte.toNat ∧ byte.toNat < 0xF5) (hrange : low ≤ high)
    (hlow : 0x80 ≤ low.toNat) (hhigh : high.toNat ≤ 0xBF)
    (hfirst : byte.toNat = 0xF0 → 0x90 ≤ low.toNat)
    (hlast : byte.toNat = 0xF4 → high.toNat ≤ 0x8F)
    (hpiece : ∀ rest, Utf8.piece byte rest = trailing 3 low high (byte.toNat - 0xF0) rest) :
    Leads byte 3 low high (byte.toNat - 0xF0) where
  piece := hpiece
  range := hrange
  sound h' := by
    obtain ⟨second, rest, rfl, ⟨hlow₂, hhigh₂⟩, h'⟩ := trailing_succ_eq_some h'
    obtain ⟨third, rest, rfl, ⟨hlow₃, hhigh₃⟩, h'⟩ := trailing_succ_eq_some h'
    obtain ⟨fourth, rest, rfl, ⟨hlow₄, hhigh₄⟩, h'⟩ := trailing_succ_eq_some h'
    have hlow₃ : 0x80 ≤ third.toNat := hlow₃
    have hhigh₃ : third.toNat ≤ 0xBF := hhigh₃
    have hlow₄ : 0x80 ≤ fourth.toNat := hlow₄
    have hhigh₄ : fourth.toNat ≤ 0xBF := hhigh₄
    obtain ⟨hc, rfl⟩ := trailing_zero_eq_some h'
    rw [hc, encodeChar_four (by omega) (by omega) (by omega) (by omega) (by omega) (by omega),
      ofNat_toNat_sub (by omega), ofNat_toNat_sub (by omega), ofNat_toNat_sub hlow₃,
      ofNat_toNat_sub hlow₄]
    rfl

theorem leads_or (byte : UInt8) :
    (∃ k low high bits, Leads byte k low high bits) ∨ ∀ rest, piece byte rest = (none, rest) := by
  have hpiece := fun rest => piece_ofNat byte.toNat_lt rest
  simp only [UInt8.ofNat_toNat] at hpiece
  by_cases hascii : byte.toNat < 0x80
  · exact .inl ⟨_, _, _, _, leads_one hascii fun rest => by rw [hpiece, if_pos hascii]⟩
  simp only [if_neg hascii] at hpiece
  by_cases htail : byte.toNat < 0xC2
  · exact .inr fun rest => by rw [hpiece, if_pos htail]
  simp only [if_neg htail] at hpiece
  by_cases htwo : byte.toNat < 0xE0
  · exact .inl ⟨_, _, _, _, leads_two ⟨by omega, htwo⟩ fun rest => by rw [hpiece, if_pos htwo]⟩
  simp only [if_neg htwo] at hpiece
  by_cases hE0 : byte.toNat = 0xE0
  · exact .inl ⟨_, _, _, _, leads_three ⟨by omega, by omega⟩
      (show (0xA0 : UInt8) ≤ 0xBF by decide) (by decide) (by decide)
      (fun _ => by decide) (fun h => by omega) fun rest => by rw [hpiece, if_pos hE0, hE0]⟩
  simp only [if_neg hE0] at hpiece
  by_cases hED : byte.toNat = 0xED
  · exact .inl ⟨_, _, _, _, leads_three ⟨by omega, by omega⟩
      (show (0x80 : UInt8) ≤ 0x9F by decide) (by decide) (by decide)
      (fun h => by omega) (fun _ => by decide) fun rest => by rw [hpiece, if_pos hED, hED]⟩
  simp only [if_neg hED] at hpiece
  by_cases hthree : byte.toNat < 0xF0
  · exact .inl ⟨_, _, _, _, leads_three ⟨by omega, hthree⟩
      (show (0x80 : UInt8) ≤ 0xBF by decide) (by decide) (by decide)
      (fun h => by omega) (fun h => by omega) fun rest => by rw [hpiece, if_pos hthree]⟩
  simp only [if_neg hthree] at hpiece
  by_cases hF0 : byte.toNat = 0xF0
  · exact .inl ⟨_, _, _, _, leads_four ⟨by omega, by omega⟩
      (show (0x90 : UInt8) ≤ 0xBF by decide) (by decide) (by decide)
      (fun _ => by decide) (fun h => by omega) fun rest => by rw [hpiece, if_pos hF0, hF0]⟩
  simp only [if_neg hF0] at hpiece
  by_cases hfour : byte.toNat < 0xF4
  · exact .inl ⟨_, _, _, _, leads_four ⟨by omega, by omega⟩
      (show (0x80 : UInt8) ≤ 0xBF by decide) (by decide) (by decide)
      (fun h => by omega) (fun h => by omega) fun rest => by rw [hpiece, if_pos hfour]⟩
  simp only [if_neg hfour] at hpiece
  by_cases hF4 : byte.toNat = 0xF4
  · exact .inl ⟨_, _, _, _, leads_four ⟨by omega, by omega⟩
      (show (0x80 : UInt8) ≤ 0x8F by decide) (by decide) (by decide)
      (fun h => by omega) (fun _ => by decide) fun rest => by rw [hpiece, if_pos hF4, hF4]⟩
  · exact .inr fun rest => by rw [hpiece, if_neg hF4]

end Trailing

/-! ### Pieces -/

variable {byte : UInt8} {bytes rest rest' : Bytes} {c : Char}

theorem piece_sound (h : piece byte rest = (some c, rest')) :
    byte :: rest = String.utf8EncodeChar c ++ rest' := by
  rcases leads_or byte with ⟨k, low, high, bits, hleads⟩ | hnone
  · rw [hleads.piece] at h
    exact hleads.sound h
  · rw [hnone] at h
    cases h

theorem piece_of_front (h : String.utf8EncodeChar c <+: byte :: rest) :
    ∃ rest', piece byte rest = (some c, rest') := by
  obtain ⟨rest', hrest⟩ := h
  obtain ⟨first, more, hchar, hpiece⟩ := piece_encodeChar c rest'
  rw [hchar, List.cons_append] at hrest
  obtain ⟨rfl, rfl⟩ := List.cons.inj hrest
  exact ⟨rest', hpiece⟩

theorem pieces_induction {P : Bytes → List (Option Char) → Prop} (nil : P [] [])
    (cons : ∀ {byte rest piece' rest' pieces'}, piece byte rest = (piece', rest') →
      P rest' pieces' → P (byte :: rest) (piece' :: pieces')) (bytes : Bytes) :
    P bytes (pieces bytes) := by
  induction hlength : bytes.length using Nat.strongRecOn generalizing bytes with
  | ind n ih =>
      cases bytes with
      | nil => exact nil
      | cons byte rest =>
          rw [pieces, sections_cons _ shortens_piece]
          refine cons rfl (ih (piece byte rest).2.length ?_ _ rfl)
          have hshort : (piece byte rest).2.length ≤ rest.length := shortens_piece byte rest
          rw [List.length_cons] at hlength
          omega

theorem encode_ofList_cons (c : Char) (cs : List Char) :
    encode (String.ofList (c :: cs)) = String.utf8EncodeChar c ++ encode (String.ofList cs) := by
  rw [encode, encode, String.toList_ofList, String.toList_ofList, List.flatMap_cons]

/-- **Only the encoding of a text is decoded.** -/
theorem decodeChars?_sound {cs : List Char} (h : decodeChars? bytes = some cs) :
    bytes = encode (String.ofList cs) := by
  refine pieces_induction (P := fun bytes pieces => ∀ cs, pieces.mapM id = some cs →
    bytes = encode (String.ofList cs)) ?_ ?_ bytes cs h
  · rintro cs ⟨⟩
    rfl
  · rintro byte rest piece' rest' pieces' hpiece ih cs h
    simp only [List.mapM_cons, Option.bind_eq_bind, Option.bind_eq_some_iff, Option.pure_def,
      Option.some.injEq] at h
    obtain ⟨c, rfl, cs, hcs, rfl⟩ := h
    rw [encode_ofList_cons, piece_sound hpiece, ih cs hcs]

/-! ### Maximal subparts -/

/-- An initial part of the encoding of a character. -/
def Initial (part : Bytes) : Prop :=
  ∃ c, part <+: String.utf8EncodeChar c

theorem Initial.piece {part : Bytes} (h : Initial (byte :: part)) :
    ∃ bytes c tail, piece byte (part ++ bytes) = (some c, tail) := by
  obtain ⟨c, bytes, hc⟩ := h
  have hfront : String.utf8EncodeChar c <+: byte :: (part ++ bytes) := by
    rw [← hc]
    exact List.prefix_rfl
  obtain ⟨tail, hpiece⟩ := piece_of_front hfront
  exact ⟨bytes, c, tail, hpiece⟩

/-- The maximal ill-formed subpart in front of a byte string: no character is encoded there, and of
the parts in front that begin the encoding of a character, or are a single byte, it is the
longest. -/
structure MaximalSubpart (bad bytes : Bytes) : Prop where
  unconvertible (c : Char) : ¬ String.utf8EncodeChar c <+: bytes
  front : bad <+: bytes
  candidate : Initial bad ∨ bad.length = 1
  longest {part : Bytes} : part <+: bytes → Initial part ∨ part.length = 1 →
    part.length ≤ bad.length

/-- A byte string with each encoded character decoded, and with U+FFFD for each maximal ill-formed
subpart. -/
inductive Replaced : Bytes → List Char → Prop
  | nil : Replaced [] []
  | char {c : Char} {bytes : Bytes} {cs : List Char} (h : Replaced bytes cs) :
      Replaced (String.utf8EncodeChar c ++ bytes) (c :: cs)
  | subpart {bad bytes : Bytes} {cs : List Char} (hbad : MaximalSubpart bad (bad ++ bytes))
      (h : Replaced bytes cs) : Replaced (bad ++ bytes) ('\uFFFD' :: cs)

theorem maximalSubpart_of_piece (h : piece byte rest = (none, rest')) :
    ∃ bad, byte :: rest = bad ++ rest' ∧ MaximalSubpart bad (byte :: rest) := by
  have hunconvertible : ∀ c, ¬ String.utf8EncodeChar c <+: byte :: rest := by
    intro c hc
    obtain ⟨rest', hpiece⟩ := piece_of_front hc
    rw [hpiece] at h
    cases h
  rcases leads_or byte with ⟨k, low, high, bits, hleads⟩ | hnone
  · rw [hleads.piece] at h
    obtain ⟨taken, rfl, ⟨bytes, c, hbytes⟩, hlongest⟩ := trailing_eq_none hleads.range h
    refine ⟨byte :: taken, rfl, hunconvertible, List.prefix_append .., ?_, ?_⟩
    · refine .inl ⟨c, bytes, ?_⟩
      have hchar := hleads.sound hbytes
      rw [List.append_nil] at hchar
      exact hchar
    · intro part hpart hcandidate
      cases part with
      | nil => exact Nat.zero_le _
      | cons first part =>
          obtain ⟨rfl, hrest⟩ := List.cons_prefix_cons.mp hpart
          rcases hcandidate with hinitial | hone
          · obtain ⟨bytes, c, tail, hpiece⟩ := hinitial.piece
            rw [hleads.piece] at hpiece
            exact Nat.succ_le_succ (hlongest hrest hpiece)
          · rw [hone, List.length_cons]
            omega
  · obtain rfl : rest = rest' := (Prod.mk.inj ((hnone rest).symm.trans h)).2
    refine ⟨[byte], rfl, hunconvertible, List.prefix_append .., .inr rfl, ?_⟩
    intro part hpart hcandidate
    cases part with
    | nil => exact Nat.zero_le _
    | cons first part =>
        obtain ⟨rfl, -⟩ := List.cons_prefix_cons.mp hpart
        rcases hcandidate with hinitial | hone
        · obtain ⟨bytes, c, tail, hpiece⟩ := hinitial.piece
          rw [hnone] at hpiece
          cases hpiece
        · exact Nat.le_of_eq hone

/-- **The lossy text replaces the maximal ill-formed subparts**, and nothing else. -/
theorem replaced_lossy (bytes : Bytes) : Replaced bytes (lossy bytes).toList := by
  rw [lossy, String.toList_ofList, lossyChars]
  refine pieces_induction (P := fun bytes pieces => Replaced bytes (pieces.map (·.getD '\uFFFD')))
    .nil ?_ bytes
  rintro byte rest (_ | c) rest' pieces' hpiece ih
  · obtain ⟨bad, hbytes, hbad⟩ := maximalSubpart_of_piece hpiece
    rw [hbytes] at hbad ⊢
    exact .subpart hbad ih
  · rw [piece_sound hpiece]
    exact .char ih

theorem lossy_encode (text : String) : lossy (encode text) = text := by
  rw [lossy, lossyChars, pieces_encode, List.map_map]
  exact (congrArg String.ofList (List.map_id _)).trans String.ofList_toList

end LedgerIndex.Utf8
