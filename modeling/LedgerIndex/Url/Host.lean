import LedgerIndex.Decimal.Basic
import LedgerIndex.Text.CaseTable
import LedgerIndex.Url.Percent
import LedgerIndex.Url.Punycode

/-! # Hosts

The host of a URL is a name or an address.  Under a special scheme a name is put into ASCII and
lowercase, and a name that ends in a number is read as an address of thirty-two bits; under any
other scheme it stays as it is, special characters encoded.  An address of a hundred and
twenty-eight bits stands in brackets. -/

namespace LedgerIndex

inductive UrlError where
  | emptyHost
  | invalidInternationalName
  | invalidPort
  | invalidIpv4
  | invalidIpv6
  | invalidDomainCharacter
  | relativeWithoutBase
deriving DecidableEq, Repr

def UrlError.message : UrlError → String
  | emptyHost => "empty host"
  | invalidInternationalName => "invalid international domain name"
  | invalidPort => "invalid port number"
  | invalidIpv4 => "invalid IPv4 address"
  | invalidIpv6 => "invalid IPv6 address"
  | invalidDomainCharacter => "invalid domain character"
  | relativeWithoutBase => "relative URL without a base"

inductive Host where
  | name (text : String)
  | ipv4 (address : Nat)
  | ipv6 (pieces : List Nat)
deriving DecidableEq, Repr

namespace Host

/-- Splits a list at every occurrence of a separator. -/
def splitAt (separator : Char) (cs : List Char) : List (List Char) :=
  cs.foldr (fun c parts =>
    if c = separator then [] :: parts
    else match parts with
      | part :: rest => (c :: part) :: rest
      | [] => [[c]]) [[]]

/-! ### Addresses of thirty-two bits -/

/-- The value of a digit in a base. -/
def digitIn? (base : Nat) (c : Char) : Option Nat :=
  match Bytes.digitValue? c with
  | some v => if v.toNat < base then some v.toNat else none
  | none => none

/-- The number that digits of a base write. -/
def numberIn? (base : Nat) (cs : List Char) : Option Nat :=
  cs.foldlM (fun n c => (digitIn? base c).map (n * base + ·)) 0

/-- A number as addresses spell it: hexadecimal behind `0x`, octal behind a zero, or decimal. -/
def addressNumber? : List Char → Option Nat
  | [] => none
  | '0' :: 'x' :: rest | '0' :: 'X' :: rest => numberIn? 16 rest
  | '0' :: c :: rest => numberIn? 8 (c :: rest)
  | cs => numberIn? 10 cs

/-- The parts of a name without the empty one behind a final point. -/
def nameParts (cs : List Char) : List (List Char) :=
  let parts := splitAt '.' cs
  if 1 < parts.length ∧ parts.getLast? = some [] then parts.dropLast else parts

/-- The last part of a name is a number, so the name is an address. -/
def endsInNumber (cs : List Char) : Bool :=
  match (nameParts cs).getLast? with
  | some last => last ≠ [] && (last.all Char.isDigit || (addressNumber? last).isSome)
  | none => false

/-- The address that a name writes. -/
def ofIpv4? (cs : List Char) : Option Nat := do
  let numbers ← (nameParts cs).mapM addressNumber?
  let last ← numbers.getLast?
  let first := numbers.dropLast
  if 3 < first.length ∨ Nat.pow 256 (4 - first.length) ≤ last ∨ first.any (255 < ·) then none
  else some (first.zipIdx.foldl (fun sum (n, i) => sum + n * Nat.pow 256 (3 - i)) last)

/-! ### Addresses of a hundred and twenty-eight bits -/

/-- A piece of one to four hexadecimal digits. -/
def piece? (cs : List Char) : Option Nat :=
  if cs = [] ∨ 4 < cs.length then none else numberIn? 16 cs

/-- A decimal number up to 255 without leading zeros. -/
def octet? (cs : List Char) : Option Nat :=
  match Decimal.ofDigits? cs with
  | some n => if n ≤ 255 ∧ (cs.length = 1 ∨ cs.head? ≠ some '0') then some n else none
  | none => none

/-- The last group of an address, which may be spelled as four decimal numbers. -/
def lastGroup? (cs : List Char) : Option (List Nat) :=
  if '.' ∈ cs then
    match (splitAt '.' cs).mapM octet? with
    | some [a, b, c, d] => some [a * 256 + b, c * 256 + d]
    | _ => none
  else (piece? cs).map ([·])

/-- The pieces of groups separated by colons, none for no text. -/
def groups? (last : List Char → Option (List Nat)) (cs : List Char) : Option (List Nat) :=
  if cs = [] then some []
  else do
    let groups := splitAt ':' cs
    let first ← groups.dropLast.mapM piece?
    let final ← last (groups.getLast?.getD [])
    some (first ++ final)

/-- Splits at the first double colon. -/
def splitDouble? : List Char → Option (List Char × List Char)
  | ':' :: ':' :: rest => some ([], rest)
  | c :: rest => (splitDouble? rest).map fun (left, right) => (c :: left, right)
  | [] => none

/-- The eight pieces of an address; a double colon stands for one zero piece or more. -/
def ofIpv6? (cs : List Char) : Option (List Nat) :=
  match splitDouble? cs with
  | some (left, right) => do
    let left ← groups? (fun cs => (piece? cs).map ([·])) left
    let right ← groups? lastGroup? right
    if left.length + right.length ≤ 7 then
      some (left ++ List.replicate (8 - left.length - right.length) 0 ++ right)
    else none
  | none => do
    let pieces ← groups? lastGroup? cs
    if pieces.length = 8 then some pieces else none

/-- Start and length of the first of the longest runs of at least two zero pieces. -/
def zeroRun (pieces : List Nat) : Nat × Nat :=
  let runAt (i : Nat) : Nat := ((pieces.drop i).takeWhile (· == 0)).length
  (List.range 8).foldl (fun best i => if best.2 < runAt i then (i, runAt i) else best) (8, 1)

/-- Pieces in hexadecimal, separated by colons. -/
def pieceChars (pieces : List Nat) : List Char :=
  (":".intercalate (pieces.map fun p => String.ofList (Nat.toDigits 16 p))).toList

/-- The shortest text of an address. -/
def ipv6Chars (pieces : List Nat) : List Char :=
  let (start, length) := zeroRun pieces
  if length < 2 then pieceChars pieces
  else pieceChars (pieces.take start) ++ ':' :: ':' :: pieceChars (pieces.drop (start + length))

/-! ### Names -/

/-- Characters that no name holds. -/
def isForbidden (c : Char) : Bool :=
  c ∈ ['\x00', '\t', '\n', '\r', ' ', '#', '/', ':', '<', '>', '?', '@', '[', '\\', ']', '^', '|']

/-- Characters that no name under a special scheme holds. -/
def isForbiddenInDomain (c : Char) : Bool :=
  c.toNat < 0x20 || c == '\x7f' || c == '%' || isForbidden c

/-- A character of a domain name as it is compared: lowercase, wide forms as narrow ones. -/
def foldCase (c : Char) : List Char :=
  if c = '\u00ad' then []
  else if c = '\u3002' ∨ c = '\uff61' then ['.']
  else if 0xFF01 ≤ c.toNat ∧ c.toNat ≤ 0xFF5E then
    [CaseTable.lower (Char.ofNat (c.toNat - 0xFEE0))]
  else if c = 'İ' then ['i', '\u0307']
  else [CaseTable.lower c]

def asciiLabel (label : List Char) : List Char :=
  if label.all (·.toNat < 128) then label else "xn--".toList ++ Punycode.encode label

/-- A domain name in ASCII and lowercase. -/
def asciiName? (cs : List Char) : Option (List Char) :=
  let folded := cs.flatMap foldCase
  if folded.any isForbiddenInDomain then none
  else some ((".".intercalate ((splitAt '.' folded).map fun label =>
    String.ofList (asciiLabel label))).toList)

/-- The address between brackets. -/
def ofBrackets (cs : List Char) : Except UrlError Host :=
  if cs.getLast? = some ']' then
    match ofIpv6? cs.dropLast with
    | some pieces => .ok (.ipv6 pieces)
    | none => .error .invalidIpv6
  else .error .invalidIpv6

/-- The host of a URL with a special scheme. -/
def ofDomain (cs : List Char) : Except UrlError Host :=
  match cs with
  | '[' :: rest => ofBrackets rest
  | _ =>
    match (Utf8.decodeChars? (Percent.decode cs)).bind asciiName? with
    | none => .error .invalidInternationalName
    | some [] => .error .emptyHost
    | some domain =>
      if endsInNumber domain then
        match ofIpv4? domain with
        | some address => .ok (.ipv4 address)
        | none => .error .invalidIpv4
      else .ok (.name (String.ofList domain))

/-- The host of a URL with any other scheme. -/
def ofOpaque (cs : List Char) : Except UrlError Host :=
  match cs with
  | '[' :: rest => ofBrackets rest
  | _ =>
    if cs.any isForbidden then .error .invalidDomainCharacter
    else .ok (.name (String.ofList (Percent.encode (fun _ => false) cs)))

def chars : Host → List Char
  | name text => text.toList
  | ipv4 address =>
    (".".intercalate ([16777216, 65536, 256, 1].map fun unit =>
      Decimal.text (address / unit % 256))).toList
  | ipv6 pieces => '[' :: ipv6Chars pieces ++ [']']

end Host

end LedgerIndex
