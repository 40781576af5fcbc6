import LedgerIndex.Json.Rendered
import LedgerIndex.Proofs.Json.Written
import LedgerIndex.Proofs.Text.Lossy

/-! # Values are rendered faithfully

Every text of a tidy value is shown as that value: the fields of its objects may stand in any
order, its strings be escaped in any way, and blanks stand anywhere.  Every byte string that is no
JSON text (`Json.IsJson`) is shown as a string, the text itself if it is one.  Both are said by
`Json.rendered_faithful`. -/

namespace LedgerIndex.Json

/-! ### Texts of a value in any order -/

theorem canonicalItems_eq_map (items : List Json) : canonicalItems items = items.map canonical := by
  induction items with
  | nil => rfl
  | cons item items ih => rw [canonicalItems, ih, List.map_cons]

theorem canonicalFields_eq_map (fields : List (String × Json)) :
    canonicalFields fields = fields.map fun field => (field.1, field.2.canonical) := by
  induction fields with
  | nil => rfl
  | cons field fields ih =>
      obtain ⟨key, value⟩ := field
      rw [canonicalFields, ih, List.map_cons]

/-- **A text of a tidy value writes the value, but for the order of fields.** -/
theorem Spelled.exactly {json : Json} {text : List Char} (h : Spelled .plain json text)
    {depth : Nat} (htidy : Tidy depth json) :
    ∃ written, Exactly depth written text ∧ written.canonical = json := by
  induction h generalizing depth with
  | null => exact ⟨_, ⟨.null, .null⟩, rfl⟩
  | true => exact ⟨_, ⟨.true, .bool⟩, rfl⟩
  | false => exact ⟨_, ⟨.false, .bool⟩, rfl⟩
  | number h => exact ⟨_, ⟨.number (strict_plain.number h), .number⟩, rfl⟩
  | string h => exact ⟨_, ⟨.string h, .string⟩, rfl⟩
  | @array items text _ htext ih =>
      cases htidy with
      | @array depth _ htidy =>
          have hitems : ∀ item ∈ items, ∃ written,
              Exactly depth written item.2 ∧ written.canonical = item.1 :=
            fun item hitem => ih item hitem (htidy _ (List.mem_map_of_mem hitem))
          choose! written hexact hcanonical using hitems
          have htexts : (items.map fun item => (written item, item.2)).map Prod.snd
              = items.map Prod.snd := List.map_map ..
          rw [← htexts] at htext
          refine ⟨_, ⟨.array ?_ htext, .array ?_⟩, ?_⟩
          · exact List.forall_mem_map.mpr fun item hitem => (hexact item hitem).1
          · rw [List.map_map]
            exact List.forall_mem_map.mpr fun item hitem => (hexact item hitem).2
          · rw [canonical, canonicalItems_eq_map, List.map_map, List.map_map]
            exact congrArg Json.array (List.map_congr_left hcanonical)
  | @object members sorted text hkeys hblank _ horder htext ih =>
      cases htidy with
      | @object depth _ hascending htidy =>
          have hvalues : ∀ m ∈ members, ∃ written,
              Exactly depth written m.valueText ∧ written.canonical = m.value := fun m hm =>
            ih m hm (htidy m.field (horder.mem_iff.mp (List.mem_map_of_mem hm)))
          choose! written hexact hcanonical using hvalues
          have htexts : (members.map fun m => { m with value := written m }).map Member.text
              = members.map Member.text := List.map_map ..
          rw [← htexts] at htext
          refine ⟨_, ⟨.object ?_ ?_ ?_ rfl htext, .object ?_⟩, ?_⟩
          · exact List.forall_mem_map.mpr hkeys
          · exact List.forall_mem_map.mpr hblank
          · exact List.forall_mem_map.mpr fun m hm => (hexact m hm).1
          · rw [List.map_map]
            exact List.forall_mem_map.mpr fun m hm => (hexact m hm).2
          · have hfields : (members.map fun m => (m.key, (written m).canonical))
                = members.map Member.field :=
              List.map_congr_left fun m hm => by rw [hcanonical m hm]; rfl
            rw [canonical, canonicalFields_eq_map, List.map_map, List.map_map]
            refine (congrArg ofFields hfields).trans ?_
            exact ofFields_of_perm horder hascending

/-! ### JSON texts -/

/-- The encoding of a JSON text: of any value that does not nest too deep, with numbers that are not
too great and with paired surrogates. -/
def IsJson (bytes : Bytes) : Prop :=
  ∃ (json : Json) (text : String), bytes = Utf8.encode text ∧ IsText .exact json text.toList ∧
    Nested depthLimit json

theorem IsText.ofBytes?_encode {json : Json} {text : String} (h : IsText .exact json text.toList)
    (hnested : Nested depthLimit json) : ofBytes? (Utf8.encode text) = some json := by
  rw [Json.ofBytes?_encode]
  exact h.read fun hbody => hbody.readAs takes_exact hnested

/-- **JSON texts are read, and nothing else is.** -/
theorem isSome_ofBytes?_iff {bytes : Bytes} : (ofBytes? bytes).isSome = true ↔ IsJson bytes := by
  constructor
  · intro h
    obtain ⟨json, hjson⟩ := Option.isSome_iff_exists.mp h
    obtain ⟨cs, hcs, hread⟩ := Option.bind_eq_some_iff.mp hjson
    obtain ⟨htext, hnested⟩ := ofChars?_sound hread
    rw [← String.toList_ofList (l := cs)] at htext
    exact ⟨json, _, Utf8.decodeChars?_sound hcs, htext, hnested⟩
  · rintro ⟨json, text, rfl, htext, hnested⟩
    rw [htext.ofBytes?_encode hnested]
    rfl

/-- What is no text is shown as it is, with its ill-formed parts replaced. -/
theorem rendered_of_not_isJson {bytes : Bytes} (h : ¬ IsJson bytes) :
    rendered bytes = .string (Utf8.lossy bytes) := by
  rw [← isSome_ofBytes?_iff, Bool.not_eq_true, Option.isSome_eq_false_iff,
    Option.isNone_iff_eq_none] at h
  rw [rendered, h]

/-- **Rendered values are faithful.**  Every text of a tidy value is shown as the value.  Every byte
string that is no JSON text is shown as a string: as itself where it is a text, and otherwise with
U+FFFD for each maximal ill-formed subpart. -/
theorem rendered_faithful :
    (∀ {json : Json} {text : String}, Tidy 127 json → IsText .plain json text.toList →
      rendered (Utf8.encode text) = json) ∧
    ∀ {bytes : Bytes}, ¬ IsJson bytes → ∃ s, rendered bytes = .string s ∧
      (∀ text, bytes = Utf8.encode text → s = text) ∧ Utf8.Replaced bytes s.toList := by
  constructor
  · rintro json text htidy ⟨before, body, after, hbefore, hafter, hbody, htext⟩
    obtain ⟨written, ⟨hexact, hnested⟩, rfl⟩ := hbody.exactly htidy
    have hwhole : IsText .exact written text.toList :=
      ⟨before, body, after, hbefore, hafter, hexact, htext⟩
    rw [rendered, hwhole.ofBytes?_encode hnested]
  · intro bytes h
    refine ⟨Utf8.lossy bytes, rendered_of_not_isJson h, ?_, Utf8.replaced_lossy bytes⟩
    rintro text rfl
    exact Utf8.lossy_encode text

/-- A text with blanks, an escape, the greatest integer and its fields in another order; and a
bracket before a byte that is no text. -/
theorem rendered_faithful_samples :
    rendered (Utf8.encode " \x7b\"b\" : [18446744073709551615,true],\"a\":\"\\u0041\"\x7d")
      = .object [("a", .string "A"), ("b", .array [.nat 18446744073709551615, .bool true])] ∧
    ∃ s, rendered [0x5B, 0xFF] = .string s ∧
      (∀ text, [0x5B, 0xFF] = Utf8.encode text → s = text) ∧
      Utf8.Replaced [0x5B, 0xFF] s.toList := by
  constructor
  · have hpair : ∀ {α : Type} {P : α → Prop} {a b : α}, P a → P b → ∀ x ∈ [a, b], P x :=
      fun ha hb => List.forall_mem_cons.mpr ⟨ha, List.forall_mem_singleton.mpr hb⟩
    have hnumber : Spelled .plain (.nat 18446744073709551615) _ :=
      .number ⟨_, rfl, ⟨by decide, by decide⟩, rfl⟩
    have harray := @Spelled.array .plain [(.nat 18446744073709551615, _), (.bool true, _)] _
      (hpair hnumber .true) (.some (.more Blank.nil Blank.nil (.last Blank.nil Blank.nil)))
    have hunit : IsUnit 'A'.toNat ['0', '0', '4', '1'] :=
      IsUnit.intro (w := 0) (x := 0) (y := 4) (z := 1) rfl rfl rfl rfl
    have hescaped : IsString IsEscape "A" _ := .escaped (.unit hunit) .nil
    have hblank : Blank [' '] := List.forall_mem_singleton.mpr rfl
    have hb : IsString IsEscape "b" ['b'] := .plain (by decide) (by decide) (by decide) .nil
    have ha : IsString IsEscape "a" ['a'] := .plain (by decide) (by decide) (by decide) .nil
    have hobject := @Spelled.object .plain
      [⟨"b", ['b'], [' '], [' '], _, _⟩, ⟨"a", ['a'], [], [], _, _⟩] _ _ (hpair hb ha)
      (hpair ⟨hblank, hblank⟩ ⟨Blank.nil, Blank.nil⟩) (hpair harray (.string hescaped)) (.swap ..)
      (.some (.more Blank.nil Blank.nil (.last Blank.nil Blank.nil)))
    refine rendered_faithful.1 (.object ?_ (hpair .string ?_))
      ⟨[' '], _, [], hblank, Blank.nil, hobject, by decide +kernel⟩
    · exact List.pairwise_pair.mpr (by decide)
    · exact .array (hpair (.integer ⟨by decide, by decide⟩) .bool)
  · refine rendered_faithful.2 fun h => ?_
    rw [← isSome_ofBytes?_iff] at h
    exact absurd h (by decide)

end LedgerIndex.Json
