import LedgerIndex.Bytes
import LedgerIndex.Sections

/-! # UTF-8

A byte string falls into pieces (`Utf8.pieces`): a piece is one encoded character, or a maximal
run of bytes that begins an encoded character without completing it, or a single byte that begins
none.  A text is well formed when every piece is a character (`Utf8.decode?`); the lossy reading
(`Utf8.lossy`) writes U+FFFD for every other piece. -/

namespace LedgerIndex.Utf8

def encode (text : String) : Bytes :=
  text.toList.flatMap String.utf8EncodeChar

/-- Reads the last `k` bytes of a character whose leading bits are `bits`.  The first of them must
lie between `low` and `high`, the others between 0x80 and 0xBF; a byte out of range is not taken. -/
def trailing : Nat → UInt8 → UInt8 → Nat → Bytes → Option Char × Bytes
  | 0, _, _, bits, rest => (some (Char.ofNat bits), rest)
  | _ + 1, _, _, _, [] => (none, [])
  | k + 1, low, high, bits, byte :: rest =>
    if low ≤ byte ∧ byte ≤ high then
      trailing k 0x80 0xBF (bits * 64 + (byte.toNat - 0x80)) rest
    else (none, byte :: rest)

/-- The first piece of a byte string that begins with `byte`, and what follows the piece.  The
narrower ranges after E0, ED, F0 and F4 rule out over-long forms, surrogates and numbers above
U+10FFFF. -/
def piece (byte : UInt8) (rest : Bytes) : Option Char × Bytes :=
  if byte < 0x80 then (some (Char.ofNat byte.toNat), rest)
  else if byte < 0xC2 then (none, rest)
  else if byte < 0xE0 then trailing 1 0x80 0xBF (byte.toNat - 0xC0) rest
  else if byte = 0xE0 then trailing 2 0xA0 0xBF 0 rest
  else if byte = 0xED then trailing 2 0x80 0x9F 0xD rest
  else if byte < 0xF0 then trailing 2 0x80 0xBF (byte.toNat - 0xE0) rest
  else if byte = 0xF0 then trailing 3 0x90 0xBF 0 rest
  else if byte < 0xF4 then trailing 3 0x80 0xBF (byte.toNat - 0xF0) rest
  else if byte = 0xF4 then trailing 3 0x80 0x8F 4 rest
  else (none, rest)

/-- The pieces of a byte string; `none` stands for one that is no character. -/
def pieces (bytes : Bytes) : List (Option Char) :=
  sections piece bytes

/-- The characters of a well-formed byte string. -/
def decodeChars? (bytes : Bytes) : Option (List Char) :=
  (pieces bytes).mapM id

/-- The text of a well-formed byte string. -/
def decode? (bytes : Bytes) : Option String :=
  (decodeChars? bytes).map String.ofList

/-- The characters of any byte string, U+FFFD for each piece that is none. -/
def lossyChars (bytes : Bytes) : List Char :=
  (pieces bytes).map (·.getD '\uFFFD')

/-- The text of any byte string, U+FFFD for each piece that is no character. -/
def lossy (bytes : Bytes) : String :=
  String.ofList (lossyChars bytes)

theorem trailing_length_le (k : Nat) (low high : UInt8) (bits : Nat) (rest : Bytes) :
    (trailing k low high bits rest).2.length ≤ rest.length := by
  induction k generalizing low high bits rest with
  | zero => simp [trailing]
  | succ k ih =>
    cases rest with
    | nil => simp [trailing]
    | cons byte rest =>
      simp only [trailing]
      split
      · exact Nat.le_succ_of_le (ih ..)
      · simp

theorem shortens_piece : Shortens piece := by
  intro byte rest
  simp only [piece]
  repeat' split
  all_goals first | exact trailing_length_le .. | exact Nat.le_refl _

end LedgerIndex.Utf8
