import LedgerIndex.Proofs.Decimal.Digits
import LedgerIndex.Proofs.Json.Fields
import LedgerIndex.Proofs.Json.Values
import LedgerIndex.Proofs.Text.Utf8

/-! # Compact JSON text reads back

The compact text of a value is one of its texts, in every spelling that has plain integers and
keeps the order of fields (`Json.Tidy.written`).  So it reads back
(`Json.Tidy.ofBytes?_encode_text`). -/

namespace LedgerIndex.Json

/-! ### Strings -/

theorem hexValue?_hexDigit {n : Nat} (h : n < 16) : hexValue? (hexDigit n) = some n := by
  revert n
  decide

theorem isUnit_control {n : Nat} (h : n < 0x20) :
    IsUnit n ['0', '0', hexDigit (n / 16), hexDigit (n % 16)] := by
  have hzero : hexValue? '0' = some 0 := by decide
  have hunit := IsUnit.intro hzero hzero (hexValue?_hexDigit (n := n / 16) (by omega))
    (hexValue?_hexDigit (n := n % 16) (by omega))
  have hvalue : ((0 * 16 + 0) * 16 + n / 16) * 16 + n % 16 = n := by omega
  rwa [hvalue] at hunit

theorem Chars.cons_escape {cs text : List Char} (c : Char) (h : Chars IsEscape cs text) :
    Chars IsEscape (c :: cs) (escape c ++ text) := by
  unfold escape
  split
  · exact .escaped (.short (show shortEscape? '"' = some '"' from rfl)) h
  · exact .escaped (.short (show shortEscape? '\\' = some '\\' from rfl)) h
  · exact .escaped (.short (show shortEscape? 'b' = some '\x08' from rfl)) h
  · exact .escaped (.short (show shortEscape? 'f' = some '\x0c' from rfl)) h
  · exact .escaped (.short (show shortEscape? 'n' = some '\n' from rfl)) h
  · exact .escaped (.short (show shortEscape? 'r' = some '\r' from rfl)) h
  · exact .escaped (.short (show shortEscape? 't' = some '\t' from rfl)) h
  · rename_i hquote hslash _ _ _ _ _
    split
    · rename_i hcontrol
      exact .escaped (.unit (isUnit_control hcontrol)) h
    · rename_i hcontrol
      exact .plain hquote hslash (Nat.not_lt.mp hcontrol) h

/-- **A string, as it is written, is one of its texts.** -/
theorem writeString_eq (s : String) : ∃ text, IsString IsEscape s text ∧
    ∀ rest, writeString s rest = '"' :: (text ++ '"' :: rest) := by
  unfold IsString writeString
  induction s.toList with
  | nil => exact ⟨[], .nil, fun _ => rfl⟩
  | cons c cs ih =>
      obtain ⟨text, htext, hwrite⟩ := ih
      refine ⟨escape c ++ text, htext.cons_escape c, fun rest => ?_⟩
      rw [List.foldr_cons, (List.cons.inj (hwrite rest)).2, List.append_assoc]

/-! ### Numbers -/

theorem isWhole_digits (n : Nat) : IsWhole (Decimal.digits n) where
  ne_nil := Decimal.digits_ne_nil n
  digits _ := Decimal.isDigit_of_mem_digits
  zero hzero := by
    rcases Nat.eq_zero_or_pos n with rfl | hpos
    · rw [Decimal.digits, if_pos (by decide)]
      rfl
    · exact absurd hzero (Decimal.head?_digits_ne_zero hpos)

/-- The digits of a number are taken one by one as long as the number fits. -/
theorem foldl_whole (n : Nat) (h : n < UInt64.size) :
    (Decimal.digits n).foldl Significand.whole ⟨0, 0, false⟩ = ⟨n, 0, false⟩ := by
  induction n using Decimal.digits.induct with
  | case1 n hsmall =>
      rw [Decimal.digits, if_pos hsmall, List.foldl_cons, List.foldl_nil, Significand.whole]
      simp only [Decimal.digitValue_digit hsmall]
      rw [if_neg (by simp; omega)]
      simp
  | case2 n hlarge ih =>
      have hlast : n % 10 < 10 := Nat.mod_lt n (by decide)
      rw [Decimal.digits, if_neg hlarge, List.foldl_append, ih (by omega), List.foldl_cons,
        List.foldl_nil, Significand.whole]
      have hvalue : n / 10 * 10 + n % 10 = n := by omega
      simp only [Decimal.digitValue_digit hlast, hvalue]
      rw [if_neg (by simp; omega)]

/-- **An integer of sixty-four bits is written exactly.** -/
theorem exact_chars {i : Int} (h : Word i) :
    Spelling.exact.number (.integer i) (Number.integer i).chars := by
  obtain ⟨hlow, hhigh⟩ := h
  have hsize : UInt64.size = 0x10000000000000000 := rfl
  cases i with
  | ofNat n =>
      have hn : n < UInt64.size := by
        rw [Int.ofNat_eq_natCast] at hhigh
        omega
      refine ⟨⟨false, Decimal.digits n, none, none⟩, ?_, ?_⟩
      · have htext : IsNumeral ⟨false, _, _, _⟩ _ := .intro (isWhole_digits n) .none .none
        rwa [List.append_nil, List.append_nil] at htext
      · simp only [Numeral.value?, foldl_whole n hn]
        rfl
  | negSucc n =>
      have hn : n + 1 ≤ 0x8000000000000000 := by
        rw [Int.negSucc_eq] at hlow
        omega
      refine ⟨⟨true, Decimal.digits (n + 1), none, none⟩, ?_, ?_⟩
      · have htext : IsNumeral ⟨true, _, _, _⟩ _ := .intro (isWhole_digits (n + 1)) .none .none
        rwa [List.append_nil, List.append_nil] at htext
      · have hvalue : n + 1 ≠ 0 ∧ n + 1 ≤ UInt64.size / 2 := ⟨by omega, hn⟩
        simp only [Numeral.value?, foldl_whole (n + 1) (by omega)]
        rw [if_neg (fun h => h.2 trivial), if_pos ⟨rfl, hvalue⟩]
        rfl

theorem strict_plain : Spelling.plain.Strict where
  string h := h
  number := by
    rintro n text ⟨i, rfl, hi, rfl⟩
    exact exact_chars hi
  order h := h

/-! ### Values -/

/-- Strings with any escapes, integers of sixty-four bits in plain decimal and fields in their order
belong to the spelling. -/
structure Spelling.Compact (sp : Spelling) : Prop where
  string {s : String} {text : List Char} (h : IsString IsEscape s text) : sp.string s text
  number {i : Int} (h : Word i) : sp.number (.integer i) (Number.integer i).chars
  order (fields : List (String × Json)) : sp.order fields fields

theorem compact_plain : Spelling.plain.Compact where
  string h := h
  number h := ⟨_, rfl, h, rfl⟩
  order _ := .refl _

theorem compact_exact : Spelling.exact.Compact where
  string h := h
  number := exact_chars
  order _ := rfl

theorem Tidy.nested {depth : Nat} {json : Json} (h : Tidy depth json) : Nested depth json := by
  induction h with
  | null => exact .null
  | bool => exact .bool
  | integer => exact .number
  | string => exact .string
  | array _ ih => exact .array ih
  | object _ _ ih => exact .object ih

theorem items_write {text : Json → List Char} (items : List Json) :
    ∀ item, (∀ i ∈ item :: items, ∀ rest, write i rest = text i ++ rest) →
      ∃ whole, Items ']' ((item :: items).map text) whole ∧
        ∀ rest, write item (writeItems items rest) = whole ++ rest := by
  induction items with
  | nil =>
      intro item hitems
      refine ⟨_, .last Blank.nil Blank.nil, fun rest => ?_⟩
      rw [writeItems, hitems item List.mem_cons_self]
      simp
  | cons next items ih =>
      intro item hitems
      obtain ⟨whole, hwhole, hwrite⟩ := ih next fun i hi => hitems i (List.mem_cons_of_mem _ hi)
      refine ⟨_, .more Blank.nil Blank.nil hwhole, fun rest => ?_⟩
      rw [writeItems, hwrite, hitems item List.mem_cons_self]
      simp

/-- Fields whose keys and values are written one by one are written between commas. -/
theorem fields_write {member : String × Json → Member} (fields : List (String × Json)) :
    ∀ field, (∀ f ∈ field :: fields, ∀ rest,
        writeString f.1 (':' :: write f.2 rest) = (member f).text ++ rest) →
      ∃ whole, Items '\x7d' ((field :: fields).map fun f => (member f).text) whole ∧
        ∀ rest, writeString field.1 (':' :: write field.2 (writeFields fields rest))
          = whole ++ rest := by
  induction fields with
  | nil =>
      intro field hfields
      refine ⟨_, .last Blank.nil Blank.nil, fun rest => ?_⟩
      rw [writeFields, hfields field List.mem_cons_self]
      simp
  | cons next fields ih =>
      intro field hfields
      obtain ⟨whole, hwhole, hwrite⟩ := ih next fun f hf => hfields f (List.mem_cons_of_mem _ hf)
      refine ⟨_, .more Blank.nil Blank.nil hwhole, fun rest => ?_⟩
      obtain ⟨key, value⟩ := next
      rw [writeFields, hwrite, hfields field List.mem_cons_self]
      simp

/-- The compact text of a value is one of its texts. -/
def Written (sp : Spelling) (json : Json) : Prop :=
  ∃ text, Spelled sp json text ∧ ∀ rest, json.write rest = text ++ rest

section Written

variable {sp : Spelling}

theorem written_string (hsp : sp.Compact) (s : String) : Written sp (.string s) := by
  obtain ⟨text, htext, hwrite⟩ := writeString_eq s
  refine ⟨_, .string (hsp.string htext), fun rest => ?_⟩
  rw [write, hwrite]
  simp

theorem written_array {items : List Json} (h : ∀ item ∈ items, Written sp item) :
    Written sp (.array items) := by
  choose! text htext hwrite using h
  have hspelled : ∀ item ∈ items.map fun i => (i, text i), Spelled sp item.1 item.2 :=
    List.forall_mem_map.mpr htext
  have hvalues : (items.map fun i => (i, text i)).map Prod.fst = items := by
    rw [List.map_map]
    exact List.map_id items
  have htexts : (items.map fun i => (i, text i)).map Prod.snd = items.map text :=
    List.map_map ..
  rw [← hvalues]
  cases items with
  | nil => exact ⟨_, .array hspelled (.none Blank.nil), fun _ => rfl⟩
  | cons item items =>
      obtain ⟨whole, hwhole, hitems⟩ := items_write items item hwrite
      rw [← htexts] at hwhole
      refine ⟨_, .array hspelled (.some hwhole), fun rest => ?_⟩
      rw [hvalues, write, hitems]
      rfl

theorem written_object (hsp : sp.Compact) {fields : List (String × Json)}
    (h : ∀ field ∈ fields, Written sp field.2) : Written sp (.object fields) := by
  choose! text htext hwrite using h
  choose keyText hkey hkeyWrite using writeString_eq
  let member : String × Json → Member := fun f => ⟨f.1, keyText f.1, [], [], f.2, text f⟩
  have hfields : (fields.map member).map Member.field = fields := by
    rw [List.map_map]
    exact List.map_id fields
  have hmember : ∀ f ∈ fields, ∀ rest,
      writeString f.1 (':' :: write f.2 rest) = (member f).text ++ rest := by
    intro f hf rest
    rw [hkeyWrite, hwrite f hf]
    simp [Member.text, member]
  have htexts : (fields.map member).map Member.text = fields.map fun f => (member f).text :=
    List.map_map ..
  have hspelled : ∀ {text}, Listed '\x7d' ((fields.map member).map Member.text) text →
      Spelled sp (.object fields) ('\x7b' :: text) := by
    intro text hlisted
    refine @Spelled.object _ (fields.map member) _ _ ?_ ?_ ?_ ?_ hlisted
    · exact List.forall_mem_map.mpr fun f _ => hsp.string (hkey f.1)
    · exact List.forall_mem_map.mpr fun f _ => ⟨Blank.nil, Blank.nil⟩
    · exact List.forall_mem_map.mpr htext
    · rw [hfields]
      exact hsp.order fields
  rw [htexts] at hspelled
  cases fields with
  | nil => exact ⟨_, hspelled (.none Blank.nil), fun _ => rfl⟩
  | cons field fields =>
      obtain ⟨whole, hwhole, hitems⟩ := fields_write fields field hmember
      refine ⟨_, hspelled (.some hwhole), fun rest => ?_⟩
      obtain ⟨key, value⟩ := field
      rw [write, hitems]
      rfl

/-- **The compact text of a value is one of its texts.** -/
theorem Tidy.written (hsp : sp.Compact) {depth : Nat} {json : Json} (h : Tidy depth json) :
    Written sp json := by
  induction h with
  | null => exact ⟨_, .null, fun _ => rfl⟩
  | @bool _ b =>
      cases b with
      | true => exact ⟨_, .true, fun _ => rfl⟩
      | false => exact ⟨_, .false, fun _ => rfl⟩
  | integer h => exact ⟨_, .number (hsp.number h), fun _ => rfl⟩
  | @string _ s => exact written_string hsp s
  | array _ ih => exact written_array ih
  | object _ _ ih => exact written_object hsp ih

end Written

/-- **The compact text of a value is a whole text of it.** -/
theorem Tidy.isText_text {sp : Spelling} (hsp : sp.Compact) {depth : Nat} {json : Json}
    (h : Tidy depth json) : IsText sp json json.text.toList := by
  obtain ⟨text, htext, hwrite⟩ := h.written hsp
  refine ⟨[], text, [], Blank.nil, Blank.nil, htext, ?_⟩
  rw [Json.text, String.toList_ofList, hwrite]
  rfl

theorem Tidy.ofChars?_text {json : Json} (h : Tidy depthLimit json) :
    ofChars? depthLimit json.text.toList = some json :=
  (h.isText_text compact_exact).read fun htext => htext.readAs takes_exact h.nested

theorem document?_encode {α : Type} (read : Read α) (text : String) :
    document? read (Utf8.encode text) = whole? read text.toList := by
  rw [document?, Utf8.pieces_encode, flatMap_pieceChars]

theorem Whole.document?_encode {α : Type} {form : List Char → Prop} {read : Read α} {a : α}
    {text : String} (h : Whole form text.toList)
    (hread : ∀ {body}, form body → ReadAs read a body) :
    document? read (Utf8.encode text) = some a := by
  rw [Json.document?_encode]
  exact h.read hread

theorem ofBytes?_encode (text : String) :
    ofBytes? (Utf8.encode text) = ofChars? depthLimit text.toList := by
  rw [ofBytes?, Utf8.decodeChars?_encode, Option.bind_some]

/-- **The encoded text of a value reads back.** -/
theorem Tidy.ofBytes?_encode_text {json : Json} (h : Tidy depthLimit json) :
    ofBytes? (Utf8.encode json.text) = some json := by
  rw [ofBytes?_encode]
  exact h.ofChars?_text

/-! ### Tidy values -/

theorem tidy_nat {n : Nat} (h : n < UInt64.size) (depth : Nat) : Tidy depth (.nat n) := by
  have hsize : UInt64.size = 0x10000000000000000 := rfl
  exact .integer ⟨by omega, by omega⟩

theorem tidy_ofStrings (texts : List String) (depth : Nat) : Tidy (depth + 1) (.ofStrings texts) :=
  .array (List.forall_mem_map.mpr fun _ _ => .string)

theorem tidy_ofString? (text : Option String) (depth : Nat) : Tidy depth (.ofString? text) := by
  cases text with
  | none => exact .null
  | some s => exact .string

theorem Tidy.record {depth : Nat} {json : Json} (h : Tidy depth json) (key : String) :
    Tidy (depth + 1) (ofFields [(key, json)]) :=
  tidy_ofFields (List.forall_mem_singleton.mpr h)

end LedgerIndex.Json
