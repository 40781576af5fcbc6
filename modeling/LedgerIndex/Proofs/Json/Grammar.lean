import LedgerIndex.Json.Member
import LedgerIndex.Json.Printer

/-! # The grammar of JSON text

What texts a value may have, said without a reader: `Json.Spelled`.  Blanks may stand around every
value, a character of a string may be escaped in any way, and a number is a sign, digits before and
behind the point, and an exponent.  How strings, numbers and the order of fields are taken is said
by a `Spelling`:

* in `Spelling.plain` a number is an integer of sixty-four bits in plain decimal, and the fields of
  an object stand in any order;
* in `Spelling.exact` a number is any that is not too great, and the fields stand in their order;
* in `Spelling.loose` surrogates may stand on their own and numbers be of any magnitude, and the
  values of strings and numbers are left open. -/

namespace LedgerIndex.Json

def Blank (cs : List Char) : Prop :=
  ∀ c ∈ cs, isBlank c = true

theorem Blank.nil : Blank [] :=
  nofun

/-! ### Strings -/

/-- The four hexadecimal digits of a sixteen-bit unit. -/
inductive IsUnit : Nat → List Char → Prop
  | intro {a b c d : Char} {w x y z : Nat} (ha : hexValue? a = some w) (hb : hexValue? b = some x)
      (hc : hexValue? c = some y) (hd : hexValue? d = some z) :
      IsUnit (((w * 16 + x) * 16 + y) * 16 + z) [a, b, c, d]

/-- The escapes of a character, behind the backslash: one letter, its unit, or a surrogate pair. -/
inductive IsEscape : Char → List Char → Prop
  | short {letter c : Char} (h : shortEscape? letter = some c) : IsEscape c [letter]
  | unit {c : Char} {digits : List Char} (h : IsUnit c.toNat digits) : IsEscape c ('u' :: digits)
  | pair {c : Char} {high low : Nat} {digits digits' : List Char} (hhigh : IsUnit high digits)
      (hlow : IsUnit low digits') (hhighRange : 0xD800 ≤ high ∧ high ≤ 0xDBFF)
      (hlowRange : 0xDC00 ≤ low ∧ low ≤ 0xDFFF)
      (hc : c.toNat = 0x10000 + (high - 0xD800) * 0x400 + (low - 0xDC00)) :
      IsEscape c ('u' :: (digits ++ '\\' :: 'u' :: digits'))

/-- The same, but that any unit stands on its own. -/
inductive IsLooseEscape : Char → List Char → Prop
  | short {letter c : Char} (h : shortEscape? letter = some c) : IsLooseEscape c [letter]
  | unit {n : Nat} {digits : List Char} (h : IsUnit n digits) :
      IsLooseEscape '\uFFFD' ('u' :: digits)

/-- The text of some characters of a string: each as it is or escaped. -/
inductive Chars (escape : Char → List Char → Prop) : List Char → List Char → Prop
  | nil : Chars escape [] []
  | plain {c : Char} {cs text : List Char} (hquote : c ≠ '"') (hslash : c ≠ '\\')
      (hcontrol : 0x20 ≤ c.toNat) (h : Chars escape cs text) : Chars escape (c :: cs) (c :: text)
  | escaped {c : Char} {cs e text : List Char} (he : escape c e) (h : Chars escape cs text) :
      Chars escape (c :: cs) ('\\' :: (e ++ text))

/-- The text of a string, between its quotation marks. -/
def IsString (escape : Char → List Char → Prop) (s : String) (text : List Char) : Prop :=
  Chars escape s.toList text

/-! ### Numbers -/

/-- One digit or more. -/
structure IsDigits (ds : List Char) : Prop where
  ne_nil : ds ≠ []
  digits : ∀ c ∈ ds, c.isDigit = true

/-- The digits before the point: no zero in front of another digit. -/
structure IsWhole (ds : List Char) : Prop extends IsDigits ds where
  zero : ds.head? = some '0' → ds = ['0']

/-- The text of the digits behind the point, if there are any. -/
inductive IsFraction : Option (List Char) → List Char → Prop
  | none : IsFraction none []
  | some {ds : List Char} (h : IsDigits ds) : IsFraction (some ds) ('.' :: ds)

/-- The text of an exponent, if there is one. -/
inductive IsExponent : Option Int → List Char → Prop
  | none : IsExponent none []
  | bare {mark : Char} {ds : List Char} (hmark : mark = 'e' ∨ mark = 'E') (h : IsDigits ds) :
      IsExponent (some (Decimal.value ds)) (mark :: ds)
  | plus {mark : Char} {ds : List Char} (hmark : mark = 'e' ∨ mark = 'E') (h : IsDigits ds) :
      IsExponent (some (Decimal.value ds)) (mark :: '+' :: ds)
  | minus {mark : Char} {ds : List Char} (hmark : mark = 'e' ∨ mark = 'E') (h : IsDigits ds) :
      IsExponent (some (-(Decimal.value ds : Int))) (mark :: '-' :: ds)

def sign (negative : Bool) : List Char :=
  if negative then ['-'] else []

inductive IsNumeral : Numeral → List Char → Prop
  | intro {negative : Bool} {ds fractionText exponentText : List Char}
      {fraction : Option (List Char)} {exponent : Option Int} (hwhole : IsWhole ds)
      (hfraction : IsFraction fraction fractionText)
      (hexponent : IsExponent exponent exponentText) :
      IsNumeral ⟨negative, ds, fraction, exponent⟩
        (sign negative ++ (ds ++ (fractionText ++ exponentText)))

/-! ### Sequences -/

/-- Some texts, at least one, with blanks around each and commas between them, up to a closing
character. -/
inductive Items (close : Char) : List (List Char) → List Char → Prop
  | last {before piece after : List Char} (hbefore : Blank before) (hafter : Blank after) :
      Items close [piece] (before ++ (piece ++ (after ++ [close])))
  | more {before piece after text : List Char} {pieces : List (List Char)} (hbefore : Blank before)
      (hafter : Blank after) (h : Items close pieces text) :
      Items close (piece :: pieces) (before ++ (piece ++ (after ++ ',' :: text)))

/-- The same, with blanks only where there are no texts. -/
inductive Listed (close : Char) : List (List Char) → List Char → Prop
  | none {blank : List Char} (h : Blank blank) : Listed close [] (blank ++ [close])
  | some {text : List Char} {pieces : List (List Char)} (h : Items close pieces text) :
      Listed close pieces text

/-! ### Values -/

/-- What texts strings and numbers may have, and in which order fields may stand. -/
structure Spelling where
  string : String → List Char → Prop
  number : Number → List Char → Prop
  order : List (String × Json) → List (String × Json) → Prop

/-- A field of an object with its text. -/
structure Member where
  key : String
  keyText : List Char
  before : List Char
  after : List Char
  value : Json
  valueText : List Char

namespace Member

def text (m : Member) : List Char :=
  '"' :: (m.keyText ++ '"' :: (m.before ++ ':' :: (m.after ++ m.valueText)))

def field (m : Member) : String × Json :=
  (m.key, m.value)

end Member

inductive Spelled (sp : Spelling) : Json → List Char → Prop
  | null : Spelled sp .null ['n', 'u', 'l', 'l']
  | true : Spelled sp (.bool true) ['t', 'r', 'u', 'e']
  | false : Spelled sp (.bool false) ['f', 'a', 'l', 's', 'e']
  | number {n : Number} {text : List Char} (h : sp.number n text) : Spelled sp (.number n) text
  | string {s : String} {text : List Char} (h : sp.string s text) :
      Spelled sp (.string s) ('"' :: (text ++ ['"']))
  | array {items : List (Json × List Char)} {text : List Char}
      (hitems : ∀ item ∈ items, Spelled sp item.1 item.2)
      (htext : Listed ']' (items.map Prod.snd) text) :
      Spelled sp (.array (items.map Prod.fst)) ('[' :: text)
  | object {members : List Member} {fields : List (String × Json)} {text : List Char}
      (hkeys : ∀ m ∈ members, sp.string m.key m.keyText)
      (hblank : ∀ m ∈ members, Blank m.before ∧ Blank m.after)
      (hvalues : ∀ m ∈ members, Spelled sp m.value m.valueText)
      (horder : sp.order (members.map Member.field) fields)
      (htext : Listed '\x7d' (members.map Member.text) text) :
      Spelled sp (.object fields) ('\x7b' :: text)

/-- Arrays and objects that nest at most so many levels. -/
inductive Nested : Nat → Json → Prop
  | null {depth : Nat} : Nested depth .null
  | bool {depth : Nat} {b : Bool} : Nested depth (.bool b)
  | number {depth : Nat} {n : Number} : Nested depth (.number n)
  | string {depth : Nat} {s : String} : Nested depth (.string s)
  | array {depth : Nat} {items : List Json} (h : ∀ item ∈ items, Nested depth item) :
      Nested (depth + 1) (.array items)
  | object {depth : Nat} {fields : List (String × Json)}
      (h : ∀ field ∈ fields, Nested depth field.2) : Nested (depth + 1) (.object fields)

/-- An integer that sixty-four bits hold, with a sign or without. -/
def Word (i : Int) : Prop :=
  -0x8000000000000000 ≤ i ∧ i < 0x10000000000000000

/-- Fields with distinct keys, in the order of their keys. -/
def Ascending (fields : List (String × Json)) : Prop :=
  fields.Pairwise fun a b => a.1 < b.1

/-- Values with integers of sixty-four bits and with distinct keys in their order, whose arrays and
objects nest at most so many levels. -/
inductive Tidy : Nat → Json → Prop
  | null {depth : Nat} : Tidy depth .null
  | bool {depth : Nat} {b : Bool} : Tidy depth (.bool b)
  | integer {depth : Nat} {i : Int} (h : Word i) : Tidy depth (.number (.integer i))
  | string {depth : Nat} {s : String} : Tidy depth (.string s)
  | array {depth : Nat} {items : List Json} (h : ∀ item ∈ items, Tidy depth item) :
      Tidy (depth + 1) (.array items)
  | object {depth : Nat} {fields : List (String × Json)} (hkeys : Ascending fields)
      (h : ∀ field ∈ fields, Tidy depth field.2) : Tidy (depth + 1) (.object fields)

namespace Spelling

/-- Any escapes, integers of sixty-four bits in plain decimal, fields in any order. -/
def plain : Spelling where
  string := IsString IsEscape
  number n text := ∃ i, n = .integer i ∧ Word i ∧ text = n.chars
  order := List.Perm

/-- Any escapes, any number that is not too great, fields in their order. -/
def exact : Spelling where
  string := IsString IsEscape
  number n text := ∃ numeral, IsNumeral numeral text ∧ numeral.value? = some n
  order := Eq

/-- Surrogates on their own too, and numbers of any magnitude. -/
def loose : Spelling where
  string := IsString IsLooseEscape
  number n text := n = .integer 0 ∧ ∃ numeral, IsNumeral numeral text
  order := Eq

end Spelling

/-- A text of this form, with blanks around it. -/
def Whole (form : List Char → Prop) (cs : List Char) : Prop :=
  ∃ before text after, Blank before ∧ Blank after ∧ form text ∧ cs = before ++ (text ++ after)

def IsText (sp : Spelling) (json : Json) (cs : List Char) : Prop :=
  Whole (Spelled sp json) cs

end LedgerIndex.Json
