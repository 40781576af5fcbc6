import LedgerIndex.Text.Utf8

/-! # Texts read back

The pieces of an encoded text are its characters (`Utf8.piece_encodeChar`, character by character),
so that decoding gives the text back (`Utf8.decode?_encode`). -/

namespace LedgerIndex.Utf8

theorem ofNat_lt_iff {m n : Nat} (hm : m < 256) (hn : n < 256) :
    UInt8.ofNat m < UInt8.ofNat n ↔ m < n := by
  simp [UInt8.lt_iff_toNat_lt, Nat.mod_eq_of_lt hm, Nat.mod_eq_of_lt hn]

theorem ofNat_le_iff {m n : Nat} (hm : m < 256) (hn : n < 256) :
    UInt8.ofNat m ≤ UInt8.ofNat n ↔ m ≤ n := by
  simp [UInt8.le_iff_toNat_le, Nat.mod_eq_of_lt hm, Nat.mod_eq_of_lt hn]

theorem ofNat_eq_iff {m n : Nat} (hm : m < 256) (hn : n < 256) :
    UInt8.ofNat m = UInt8.ofNat n ↔ m = n := by
  simp [← UInt8.toNat_inj, Nat.mod_eq_of_lt hm, Nat.mod_eq_of_lt hn]

theorem toNat_ofNat {n : Nat} (h : n < 256) : (UInt8.ofNat n).toNat = n := by
  simp [Nat.mod_eq_of_lt h]

theorem trailing_cons (low high : Nat) {n : Nat} (hlow : low ≤ n + 128) (hhigh : n + 128 ≤ high)
    (hlimit : high < 192) (k bits : Nat) (rest : Bytes) :
    trailing (k + 1) (UInt8.ofNat low) (UInt8.ofNat high) bits (UInt8.ofNat (n + 128) :: rest)
      = trailing k 0x80 0xBF (bits * 64 + n) rest := by
  rw [trailing, if_pos ⟨(ofNat_le_iff (by omega) (by omega)).mpr hlow,
    (ofNat_le_iff (by omega) (by omega)).mpr hhigh⟩, toNat_ofNat (by omega), Nat.add_sub_cancel]

theorem trailing_mod (k bits v : Nat) (rest : Bytes) :
    trailing (k + 1) 0x80 0xBF bits (UInt8.ofNat (v % 64 + 128) :: rest)
      = trailing k 0x80 0xBF (bits * 64 + v % 64) rest :=
  trailing_cons 0x80 0xBF (by omega) (by omega) (by omega) k bits rest

/-- The first piece behind a leading byte, with the byte as a number. -/
theorem piece_ofNat {n : Nat} (h : n < 256) (rest : Bytes) :
    piece (UInt8.ofNat n) rest =
      if n < 0x80 then (some (Char.ofNat n), rest)
      else if n < 0xC2 then (none, rest)
      else if n < 0xE0 then trailing 1 0x80 0xBF (n - 0xC0) rest
      else if n = 0xE0 then trailing 2 0xA0 0xBF 0 rest
      else if n = 0xED then trailing 2 0x80 0x9F 0xD rest
      else if n < 0xF0 then trailing 2 0x80 0xBF (n - 0xE0) rest
      else if n = 0xF0 then trailing 3 0x90 0xBF 0 rest
      else if n < 0xF4 then trailing 3 0x80 0xBF (n - 0xF0) rest
      else if n = 0xF4 then trailing 3 0x80 0x8F 4 rest
      else (none, rest) := by
  have hlt : ∀ m, m < 256 → (UInt8.ofNat n < UInt8.ofNat m ↔ n < m) := fun _ => ofNat_lt_iff h
  have heq : ∀ m, m < 256 → (UInt8.ofNat n = UInt8.ofNat m ↔ n = m) := fun _ => ofNat_eq_iff h
  have h80 : UInt8.ofNat n < 0x80 ↔ n < 0x80 := hlt 0x80 (by decide)
  have hC2 : UInt8.ofNat n < 0xC2 ↔ n < 0xC2 := hlt 0xC2 (by decide)
  have hE0 : UInt8.ofNat n < 0xE0 ↔ n < 0xE0 := hlt 0xE0 (by decide)
  have hE0' : UInt8.ofNat n = 0xE0 ↔ n = 0xE0 := heq 0xE0 (by decide)
  have hED' : UInt8.ofNat n = 0xED ↔ n = 0xED := heq 0xED (by decide)
  have hF0 : UInt8.ofNat n < 0xF0 ↔ n < 0xF0 := hlt 0xF0 (by decide)
  have hF0' : UInt8.ofNat n = 0xF0 ↔ n = 0xF0 := heq 0xF0 (by decide)
  have hF4 : UInt8.ofNat n < 0xF4 ↔ n < 0xF4 := hlt 0xF4 (by decide)
  have hF4' : UInt8.ofNat n = 0xF4 ↔ n = 0xF4 := heq 0xF4 (by decide)
  simp only [piece, toNat_ofNat h, h80, hC2, hE0, hE0', hED', hF0, hF0', hF4, hF4']

/-- **The first piece of an encoded character is that character.** -/
theorem piece_encodeChar (c : Char) (rest : Bytes) :
    ∃ byte more, String.utf8EncodeChar c = byte :: more ∧
      piece byte (more ++ rest) = (some c, rest) := by
  obtain ⟨v, hv⟩ : ∃ v, c.val.toNat = v := ⟨_, rfl⟩
  have hvalid : v.isValidChar := hv ▸ c.valid
  have hback : ∀ n, n = v → (some (Char.ofNat n), rest) = (some c, rest) := by
    rintro _ rfl
    rw [← hv, show c.val.toNat = c.toNat from rfl, Char.ofNat_toNat]
  simp only [String.utf8EncodeChar, hv]
  split
  · refine ⟨_, _, rfl, ?_⟩
    rw [piece_ofNat (by omega), if_pos (by omega)]
    exact hback v rfl
  · split
    · refine ⟨_, _, rfl, ?_⟩
      rw [piece_ofNat (by omega), if_neg (by omega), if_neg (by omega), if_pos (by omega)]
      exact (trailing_mod 0 _ v rest).trans (hback _ (by omega))
    · split
      · refine ⟨_, _, rfl, ?_⟩
        rw [piece_ofNat (by omega), if_neg (by omega), if_neg (by omega), if_neg (by omega)]
        split
        · refine (trailing_cons 0xA0 0xBF (by omega) (by omega) (by omega) 1 _ _).trans ?_
          exact (trailing_mod 0 _ v rest).trans (hback _ (by omega))
        · split
          · refine (trailing_cons 0x80 0x9F (by omega) (by omega) (by omega) 1 _ _).trans ?_
            exact (trailing_mod 0 _ v rest).trans (hback _ (by omega))
          · rw [if_pos (by omega)]
            refine (trailing_mod 1 _ (v / 64) _).trans ?_
            exact (trailing_mod 0 _ v rest).trans (hback _ (by omega))
      · refine ⟨_, _, rfl, ?_⟩
        rw [piece_ofNat (by omega), if_neg (by omega), if_neg (by omega), if_neg (by omega),
          if_neg (by omega), if_neg (by omega), if_neg (by omega)]
        split
        · refine (trailing_cons 0x90 0xBF (by omega) (by omega) (by omega) 2 _ _).trans ?_
          refine (trailing_mod 1 _ (v / 64) _).trans ?_
          exact (trailing_mod 0 _ v rest).trans (hback _ (by omega))
        · split
          · refine (trailing_mod 2 _ (v / 4096) _).trans ?_
            refine (trailing_mod 1 _ (v / 64) _).trans ?_
            exact (trailing_mod 0 _ v rest).trans (hback _ (by omega))
          · rw [if_pos (by omega)]
            refine (trailing_cons 0x80 0x8F (by omega) (by omega) (by omega) 2 _ _).trans ?_
            refine (trailing_mod 1 _ (v / 64) _).trans ?_
            exact (trailing_mod 0 _ v rest).trans (hback _ (by omega))

theorem pieces_encode (text : String) : pieces (encode text) = text.toList.map some := by
  unfold encode
  induction text.toList with
  | nil => rfl
  | cons c cs ih =>
      obtain ⟨byte, more, hchar, hpiece⟩ := piece_encodeChar c (cs.flatMap String.utf8EncodeChar)
      rw [List.flatMap_cons, hchar, List.cons_append, pieces, sections_cons _ shortens_piece,
        hpiece]
      exact congrArg (some c :: ·) ih

theorem decodeChars?_encode (text : String) : decodeChars? (encode text) = some text.toList := by
  rw [decodeChars?, pieces_encode]
  exact mapM_id_map_some text.toList

/-- **Texts are read back.** -/
theorem decode?_encode (text : String) : decode? (encode text) = some text := by
  rw [decode?, decodeChars?_encode, Option.map_some, String.ofList_toList]

end LedgerIndex.Utf8
