import LedgerIndex.Json.Basic
import LedgerIndex.Json.Double
import LedgerIndex.Text.Utf8

/-! # Reading JSON text

A strict reader: the blanks are space, tab, line feed and carriage return, a control below U+0020
does not stand in a string, an escaped surrogate stands in a pair, and arrays and objects nest to
a given depth.  Every reader takes the remaining characters and returns what is left of them.

A number without fraction and exponent that fits sixty-four bits, with or without sign, is an
integer; `-0` and every other number is a double.

The fields of an object are read in the order of the text, repeated keys included; `Json.canonical`
puts them in the order of their keys, the last of equal keys winning. -/

namespace LedgerIndex.Json

/-- A reader of a prefix of the remaining characters. -/
abbrev Read (α : Type) := List Char → Option (α × List Char)

def isBlank (c : Char) : Bool :=
  c == ' ' || c == '\n' || c == '\t' || c == '\r'

def skipBlank (cs : List Char) : List Char :=
  cs.dropWhile isBlank

/-! ### Strings -/

/-- The value of a hexadecimal digit. -/
def hexValue? (c : Char) : Option Nat :=
  if '0' ≤ c ∧ c ≤ '9' then some (c.toNat - 48)
  else if 'a' ≤ c ∧ c ≤ 'f' then some (c.toNat - 87)
  else if 'A' ≤ c ∧ c ≤ 'F' then some (c.toNat - 55)
  else none

/-- The sixteen-bit unit of four hexadecimal digits. -/
def readUnit : Read Nat
  | a :: b :: c :: d :: rest =>
    match hexValue? a, hexValue? b, hexValue? c, hexValue? d with
    | some a, some b, some c, some d => some (((a * 16 + b) * 16 + c) * 16 + d, rest)
    | _, _, _, _ => none
  | _ => none

/-- The second unit of a surrogate pair, behind its own escape. -/
def readLowSurrogate : Read Nat
  | '\\' :: 'u' :: rest =>
    match readUnit rest with
    | some (low, rest) => if 0xDC00 ≤ low ∧ low ≤ 0xDFFF then some (low - 0xDC00, rest) else none
    | none => none
  | _ => none

/-- The character of an escape of one letter. -/
def shortEscape? : Char → Option Char
  | '"' => some '"'
  | '\\' => some '\\'
  | '/' => some '/'
  | 'b' => some '\x08'
  | 'f' => some '\x0c'
  | 'n' => some '\n'
  | 'r' => some '\r'
  | 't' => some '\t'
  | _ => none

/-- The character of an escape, from behind its backslash. -/
def readEscape : Read Char
  | [] => none
  | c :: rest =>
    if c = 'u' then
      match readUnit rest with
      | none => none
      | some (unit, rest) =>
        if 0xDC00 ≤ unit ∧ unit ≤ 0xDFFF then none
        else if 0xD800 ≤ unit ∧ unit ≤ 0xDBFF then
          match readLowSurrogate rest with
          | some (low, rest) => some (Char.ofNat (0x10000 + (unit - 0xD800) * 0x400 + low), rest)
          | none => none
        else some (Char.ofNat unit, rest)
    else (shortEscape? c).map (·, rest)

/-- Reads at most `fuel` characters of a string up to its closing quotation mark, the characters
so far last first; `escape` reads an escape from behind its backslash. -/
def readChars (escape : Read Char) : Nat → List Char → Read (List Char)
  | 0, _, _ => none
  | _ + 1, _, [] => none
  | fuel + 1, done, c :: rest =>
    if c = '"' then some (done.reverse, rest)
    else if c = '\\' then
      match escape rest with
      | some (e, rest) => readChars escape fuel (e :: done) rest
      | none => none
    else if c.toNat < 0x20 then none
    else readChars escape fuel (c :: done) rest

/-- Reads a string with these escapes, from behind its opening quotation mark. -/
def readQuoted (escape : Read Char) : Read String := fun cs =>
  match readChars escape cs.length [] cs with
  | some (chars, rest) => some (String.ofList chars, rest)
  | none => none

/-- Reads a string from behind its opening quotation mark. -/
def readString : Read String :=
  readQuoted readEscape

/-! ### Numbers -/

/-- A decimal significand on sixty-four bits. A digit that no longer fits is dropped, together with
all that follow it in the same run. -/
structure Significand where
  value : Nat
  exponent : Int
  full : Bool

/-- One more digit before the point. -/
def Significand.whole (s : Significand) (c : Char) : Significand :=
  let next := s.value * 10 + Decimal.digitValue c
  if s.full ∨ UInt64.size ≤ next then { s with exponent := s.exponent + 1, full := true }
  else { s with value := next }

/-- One more digit behind the point. -/
def Significand.fraction (s : Significand) (c : Char) : Significand :=
  let next := s.value * 10 + Decimal.digitValue c
  if s.full ∨ UInt64.size ≤ next then { s with full := true }
  else { s with value := next, exponent := s.exponent - 1 }

/-- A run of digits and what follows it. -/
def digitRun (cs : List Char) : List Char × List Char :=
  (cs.takeWhile Char.isDigit, cs.dropWhile Char.isDigit)

/-- The digits before the point: no zero in front of another digit. -/
def readWhole : Read (List Char) := fun cs =>
  match digitRun cs with
  | ([], _) => none
  | ('0' :: _ :: _, _) => none
  | (ds, rest) => some (ds, rest)

/-- The point and the digits behind it, if there is a point. -/
def readFraction : Read (Option (List Char))
  | '.' :: rest =>
    match digitRun rest with
    | ([], _) => none
    | (ds, rest) => some (some ds, rest)
  | cs => some (none, cs)

/-- The exponent, if there is one. -/
def readExponent : Read (Option Int)
  | c :: rest =>
    if c = 'e' ∨ c = 'E' then
      let (negative, rest) := match rest with
        | '-' :: rest => (true, rest)
        | '+' :: rest => (false, rest)
        | _ => (false, rest)
      match digitRun rest with
      | ([], _) => none
      | (ds, rest) =>
        let n : Int := Decimal.value ds
        some (some (if negative then -n else n), rest)
    else some (none, c :: rest)
  | [] => some (none, [])

/-- A number as it is written: its sign, the digits before and behind the point, the exponent. -/
structure Numeral where
  negative : Bool
  whole : List Char
  fraction : Option (List Char)
  exponent : Option Int

/-- Reads a number as it is written. -/
def readNumeral : Read Numeral := fun cs => do
  let (negative, cs) := match cs with
    | '-' :: rest => (true, rest)
    | _ => (false, cs)
  let (whole, cs) ← readWhole cs
  let (fraction, cs) ← readFraction cs
  let (exponent, cs) ← readExponent cs
  some (⟨negative, whole, fraction, exponent⟩, cs)

/-- The number that is written; there is none where it is too great for a double. -/
def Numeral.value? (numeral : Numeral) : Option Number :=
  let s := numeral.whole.foldl Significand.whole ⟨0, 0, false⟩
  let isInteger := numeral.fraction.isNone && numeral.exponent.isNone && !s.full
  if isInteger ∧ ¬ numeral.negative then some (.integer s.value)
  else if isInteger ∧ s.value ≠ 0 ∧ s.value ≤ UInt64.size / 2 then
    some (.integer (-(s.value : Int)))
  else
    let s := (numeral.fraction.getD []).foldl Significand.fraction { s with full := false }
    (Double.ofParts? numeral.negative s.value.toUInt64 (s.exponent + numeral.exponent.getD 0)).map
      .double

def readNumber : Read Number := fun cs =>
  match readNumeral cs with
  | some (numeral, rest) => numeral.value?.map (·, rest)
  | none => none

/-! ### Sequences -/

/-- Reads what stands between commas up to a closing character, what was read so far last first. -/
def readList {α : Type} (close : Char) (read : Read α) : Nat → List α → Read (List α)
  | 0, _, _ => none
  | fuel + 1, done, cs =>
    match read (skipBlank cs) with
    | none => none
    | some (a, rest) =>
      match skipBlank rest with
      | [] => none
      | c :: rest =>
        if c = ',' then readList close read fuel (a :: done) rest
        else if c = close then some ((a :: done).reverse, rest)
        else none

/-- Reads what stands between commas up to a closing character, which may come at once. -/
def readSequence {α : Type} (close : Char) (read : Read α) : Read (List α) := fun cs =>
  match skipBlank cs with
  | [] => none
  | c :: rest =>
    if c = close then some ([], rest) else readList close read cs.length [] cs

/-- Reads a key, a colon, and what belongs to the key. -/
def readMember {α : Type} (string : Read String) (value : String → Read α) : Read α
  | '"' :: rest =>
    match string rest with
    | none => none
    | some (key, rest) =>
      match skipBlank rest with
      | ':' :: rest => value key (skipBlank rest)
      | _ => none
  | _ => none

/-! ### Values -/

/-- How strings, from behind their opening quotation mark, and numbers are read. -/
structure Scanner where
  string : Read String
  number : Read Number

/-- Strings with paired surrogates, and numbers that are not too great. -/
def strict : Scanner :=
  ⟨readString, readNumber⟩

/-- Reads a value that is no array and no object. -/
def readScalar (scan : Scanner) : Read Json
  | 'n' :: 'u' :: 'l' :: 'l' :: rest => some (.null, rest)
  | 't' :: 'r' :: 'u' :: 'e' :: rest => some (.bool true, rest)
  | 'f' :: 'a' :: 'l' :: 's' :: 'e' :: rest => some (.bool false, rest)
  | '"' :: rest =>
    match scan.string rest with
    | some (s, rest) => some (.string s, rest)
    | none => none
  | cs =>
    match scan.number cs with
    | some (n, rest) => some (.number n, rest)
    | none => none

def readField (scan : Scanner) (read : Read Json) : Read (String × Json) :=
  readMember scan.string fun key cs =>
    match read cs with
    | some (value, rest) => some ((key, value), rest)
    | none => none

/-- Reads a value whose arrays and objects nest at most `depth` levels, the fields of an object in
the order of the text. -/
def readTree (scan : Scanner) : Nat → Read Json
  | 0, cs => readScalar scan cs
  | depth + 1, cs =>
    match cs with
    | '[' :: rest =>
      match readSequence ']' (readTree scan depth) rest with
      | some (items, rest) => some (.array items, rest)
      | none => none
    | '\x7b' :: rest =>
      match readSequence '\x7d' (readField scan (readTree scan depth)) rest with
      | some (fields, rest) => some (.object fields, rest)
      | none => none
    | _ => readScalar scan cs

/-- Reads a value whose arrays and objects nest at most `depth` levels. -/
def readValue (depth : Nat) : Read Json :=
  readTree strict depth

/-- The deepest nesting of a document. -/
def depthLimit : Nat := 127

/-- What a whole text is read as, with blanks around it. -/
def whole? {α : Type} (read : Read α) (cs : List Char) : Option α :=
  match read (skipBlank cs) with
  | some (a, rest) => if skipBlank rest = [] then some a else none
  | none => none

/-- The value that a whole text writes, with blanks around it. -/
def ofChars? (depth : Nat) (cs : List Char) : Option Json :=
  whole? (readValue depth) cs

/-- The value that a byte string writes in UTF-8. -/
def ofBytes? (bytes : Bytes) : Option Json :=
  (Utf8.decodeChars? bytes).bind (ofChars? depthLimit)

/-- A piece of a byte string as it is read: one that is no character reads as a surrogate on its
own, which stands only in a string that is passed over.  The character in front of it belongs to no
escape. -/
def pieceChars : Option Char → List Char
  | some c => [c]
  | none => ['\uFFFD', '\\', 'u', 'D', 'C', '0', '0']

/-- What a byte string is read as; a string that is passed over need not be in UTF-8. -/
def document? {α : Type} (read : Read α) (bytes : Bytes) : Option α :=
  whole? read ((Utf8.pieces bytes).flatMap pieceChars)

mutual

/-- A value with the fields of all its objects in the order of their keys, each key once. -/
def canonical : Json → Json
  | .array items => .array (canonicalItems items)
  | .object fields => ofFields (canonicalFields fields)
  | json => json

/-- The items of an array, each with its fields in order. -/
def canonicalItems : List Json → List Json
  | [] => []
  | item :: items => canonical item :: canonicalItems items

/-- The fields of an object, the value of each with its fields in order. -/
def canonicalFields : List (String × Json) → List (String × Json)
  | [] => []
  | (key, value) :: fields => (key, canonical value) :: canonicalFields fields

end

end LedgerIndex.Json
