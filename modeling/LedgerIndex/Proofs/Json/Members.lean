import LedgerIndex.Proofs.Json.Values

/-! # Records are read from objects

A record of one declared field is read from every object that has the field once
(`Json.ObjectWith`), whatever other members stand around it: `Json.ObjectWith.readAs`.  An object
of a value has each of its fields so (`Json.Spelled.objectWith`). -/

namespace LedgerIndex.Json

/-! ### Any text -/

/-- The text of some value: of any depth, with numbers of any magnitude and with surrogates on
their own. -/
def AnyText (text : List Char) : Prop :=
  ∃ json, Spelled .loose json text

theorem Chars.loosely {cs text : List Char} (h : Chars IsEscape cs text) :
    ∃ cs, Chars IsLooseEscape cs text := by
  induction h with
  | nil => exact ⟨[], .nil⟩
  | plain hquote hslash hcontrol _ ih =>
      obtain ⟨cs, hcs⟩ := ih
      exact ⟨_, .plain hquote hslash hcontrol hcs⟩
  | escaped he _ ih =>
      obtain ⟨cs, hcs⟩ := ih
      cases he with
      | short h => exact ⟨_, .escaped (.short h) hcs⟩
      | unit h => exact ⟨_, .escaped (.unit h) hcs⟩
      | pair hhigh hlow =>
          have htext := Chars.escaped (.unit hhigh) (Chars.escaped (.unit hlow) hcs)
          refine ⟨'\uFFFD' :: '\uFFFD' :: cs, ?_⟩
          simpa only [List.cons_append, List.append_assoc] using htext

theorem IsString.loosely {s : String} {text : List Char} (h : IsString IsEscape s text) :
    ∃ s, IsString IsLooseEscape s text := by
  obtain ⟨cs, hcs⟩ := Chars.loosely h
  exact ⟨String.ofList cs, by rwa [IsString, String.toList_ofList]⟩

/-- **Every text of a value is any text.** -/
theorem Spelled.anyText {sp : Spelling} (hsp : sp.Strict) {json : Json} {text : List Char}
    (h : Spelled sp json text) : AnyText text := by
  induction h with
  | null => exact ⟨_, .null⟩
  | true => exact ⟨_, .true⟩
  | false => exact ⟨_, .false⟩
  | number h =>
      obtain ⟨numeral, hnumeral, -⟩ := hsp.number h
      exact ⟨_, .number ⟨rfl, numeral, hnumeral⟩⟩
  | string h =>
      obtain ⟨s, hs⟩ := (hsp.string h).loosely
      exact ⟨_, .string hs⟩
  | @array items text _ htext ih =>
      choose! json hjson using ih
      refine ⟨_, @Spelled.array _ (items.map fun item => (json item, item.2)) _ ?_ ?_⟩
      · exact List.forall_mem_map.mpr hjson
      · rwa [List.map_map]
  | @object members fields text hkeys hblank _ _ htext ih =>
      choose! json hjson using ih
      have hkeys' : ∀ m ∈ members, ∃ s, IsString IsLooseEscape s m.keyText :=
        fun m hm => (hsp.string (hkeys m hm)).loosely
      choose! key hkey using hkeys'
      refine ⟨_, @Spelled.object _ (members.map fun m => { m with key := key m, value := json m })
        _ _ ?_ ?_ ?_ rfl ?_⟩
      · exact List.forall_mem_map.mpr hkey
      · exact List.forall_mem_map.mpr hblank
      · exact List.forall_mem_map.mpr hjson
      · rwa [List.map_map]

/-- **Any text is passed over.** -/
theorem AnyText.readAs {text : List Char} (h : AnyText text) : ReadAs skipValue () text := by
  obtain ⟨json, htext⟩ := h
  have hread : ∀ {depth}, text.length ≤ depth → ReadAs (readTree loose depth) json text :=
    fun hdepth => htext.readAs takes_loose ((htext.nested fun h => h ▸ .refl _).mono hdepth)
  refine ⟨(hread (Nat.le_refl _)).opens, fun {rest} hrest => ?_⟩
  have hlength : text.length ≤ (text ++ rest).length := by
    rw [List.length_append]
    omega
  rw [skipValue, (hread hlength).value hrest]
  rfl

/-! ### Objects with a field -/

/-- A well-formed key, with the blanks around the colon behind it. -/
structure Member.WellFormed (m : Member) : Prop where
  key : IsString IsEscape m.key m.keyText
  before : Blank m.before
  after : Blank m.after

/-- The text of an object with one member of this name, whose value has such a text.  The other
members have other names, and any texts as their values. -/
def ObjectWith (name : String) (inner : List Char → Prop) (text : List Char) : Prop :=
  ∃ (front back : List Member) (only : Member) (listed : List Char),
    text = '\x7b' :: listed ∧
    Listed '\x7d' ((front ++ only :: back).map Member.text) listed ∧
    (∀ m ∈ front ++ only :: back, m.WellFormed) ∧
    only.key = name ∧ inner only.valueText ∧
    ∀ m ∈ front ++ back, m.key ≠ name ∧ AnyText m.valueText

section Members

variable {α : Type} {read : Read α} {a : α} {name : String} {inner : List Char → Prop}
  {text : List Char} {m : Member}

theorem Member.opens (m : Member) : Opens m.text :=
  ⟨_, _, rfl, by decide, by decide, by decide⟩

theorem Member.WellFormed.declared (h : m.WellFormed) (hvalue : ReadAs read a m.valueText) :
    ReadAs (readDeclared m.key read) (some a) m.text := by
  refine ⟨m.opens, fun hrest => ?_⟩
  refine readMember_complete (readString_complete h.key) h.before h.after
    ⟨hvalue.opens, fun hrest => ?_⟩ hrest
  rw [if_pos rfl, hvalue.value hrest]
  rfl

theorem Member.WellFormed.undeclared (h : m.WellFormed) (hname : m.key ≠ name)
    (hvalue : AnyText m.valueText) : ReadAs (readDeclared name read) none m.text := by
  refine ⟨m.opens, fun hrest => ?_⟩
  refine readMember_complete (readString_complete h.key) h.before h.after
    ⟨hvalue.readAs.opens, fun hrest => ?_⟩ hrest
  rw [if_neg hname, hvalue.readAs.value hrest]
  rfl

/-- **A record is read from every object that has its field.** -/
theorem ObjectWith.readAs (h : ObjectWith name inner text)
    (hinner : ∀ {text}, inner text → ReadAs read a text) :
    ReadAs (readRecord name read) a text := by
  obtain ⟨front, back, only, listed, rfl, hlisted, hwell, rfl, hvalue, hothers⟩ := h
  have hundeclared : ∀ m ∈ front ++ back,
      ReadAs (readDeclared only.key read) none m.text := by
    intro m hm
    have hmem : m ∈ front ++ only :: back := by
      rw [List.mem_append, List.mem_cons]
      exact (List.mem_append.mp hm).imp_right .inr
    exact (hwell m hmem).undeclared (hothers m hm).1 (hothers m hm).2
  have hwritten : ∀ members : List Member, (∀ m ∈ members, m ∈ front ++ back) →
      List.Forall₂ (ReadAs (readDeclared only.key read)) (members.map fun _ => none)
        (members.map Member.text) := by
    intro members hmembers
    rw [List.forall₂_map_left_iff, List.forall₂_map_right_iff, List.forall₂_same]
    exact fun m hm => hundeclared m (hmembers m hm)
  have honly : ReadAs (readDeclared only.key read) (some a) only.text :=
    (hwell only (by simp)).declared (hinner hvalue)
  have hread : List.Forall₂ (ReadAs (readDeclared only.key read))
      (front.map (fun _ => none) ++ some a :: back.map fun _ => none)
      ((front ++ only :: back).map Member.text) := by
    rw [List.map_append, List.map_cons]
    refine List.rel_append (hwritten front fun m hm => List.mem_append_left _ hm)
      (.cons honly (hwritten back fun m hm => List.mem_append_right _ hm))
  refine ⟨⟨_, _, rfl, by decide, by decide, by decide⟩, fun {rest} _ => ?_⟩
  rw [List.cons_append, readRecord, readSequence_complete (.inr rfl) hlisted hread]
  simp

theorem ObjectWith.imp {inner' : List Char → Prop} (h : ObjectWith name inner text)
    (himp : ∀ {text}, inner text → inner' text) : ObjectWith name inner' text := by
  obtain ⟨front, back, only, listed, htext, hlisted, hwell, hname, hvalue, hothers⟩ := h
  exact ⟨front, back, only, listed, htext, hlisted, hwell, hname, himp hvalue, hothers⟩

theorem ObjectWith.exists_inner (h : ObjectWith name inner text) :
    ∃ value, inner value ∧ ObjectWith name (· = value) text := by
  obtain ⟨front, back, only, listed, htext, hlisted, hwell, hname, hvalue, hothers⟩ := h
  exact ⟨_, hvalue, front, back, only, listed, htext, hlisted, hwell, hname, rfl, hothers⟩

/-- **An object has each of its fields.** -/
theorem Spelled.objectWith {sp : Spelling} (hsp : sp.Strict) {fields : List (String × Json)}
    {value : Json} (h : Spelled sp (.object fields) text)
    (hfield : fields.filter (·.1 = name) = [(name, value)]) :
    ObjectWith name (Spelled sp value) text := by
  cases h with
  | @object members _ text hkeys hblank hvalues horder htext =>
      have hperm := ((hsp.order horder).filter (·.1 = name))
      rw [hfield, List.perm_singleton, List.filter_map, List.map_eq_singleton_iff] at hperm
      obtain ⟨only, honly, hsame⟩ := hperm
      obtain ⟨front, back, rfl, hfront, hname, hback⟩ := List.filter_eq_cons_iff.mp honly
      have hback := List.filter_eq_nil_iff.mp hback
      obtain ⟨hkey, hvalue⟩ := Prod.mk.inj hsame
      refine ⟨front, back, only, text, rfl, htext, ?_, hkey, ?_, ?_⟩
      · exact fun m hm => ⟨hsp.string (hkeys m hm), (hblank m hm).1, (hblank m hm).2⟩
      · rw [← hvalue]
        exact hvalues only (by simp)
      · intro m hm
        have hmem : m ∈ front ++ only :: back := by
          rw [List.mem_append, List.mem_cons]
          exact (List.mem_append.mp hm).imp_right .inr
        refine ⟨fun hsame => ?_, (hvalues m hmem).anyText hsp⟩
        rcases List.mem_append.mp hm with hm | hm
        · exact hfront m hm (decide_eq_true hsame)
        · exact hback m hm (decide_eq_true hsame)

end Members

/-! ### Texts and numbers -/

theorem readAs_string {sp : Spelling} (hsp : sp.Strict) {s : String} {text : List Char}
    (h : Spelled sp (.string s) text) : ReadAs readText s text := by
  cases h with
  | @string _ text h =>
      refine ⟨⟨_, _, rfl, by decide, by decide, by decide⟩, fun {rest} _ => ?_⟩
      rw [List.cons_append, List.append_assoc]
      exact readString_complete (hsp.string h) rest

theorem readAs_nat {sp : Spelling} (hsp : sp.Strict) {n : Nat} {text : List Char}
    (h : Spelled sp (.nat n) text) (hn : n < UInt64.size) : ReadAs readUInt64 n text := by
  cases h with
  | number h =>
      have hnumber := hsp.number h
      have hvalue : (Json.number (.integer n)).uint64? = some n := if_pos (Nat.le_sub_one_of_lt hn)
      refine ⟨(takes_exact.numeral hnumber).choose_spec.opens, fun {rest} hrest => ?_⟩
      have hread : readNumber (text ++ rest) = some (.integer n, rest) :=
        takes_exact.number hnumber hrest
      rw [readUInt64, hread]
      simp only [hvalue, Option.map_some]

theorem readAs_array {α : Type} {read : Read α} {values : List α} {pieces : List (List Char)}
    {text : List Char} (h : Listed ']' pieces text)
    (hread : List.Forall₂ (ReadAs read) values pieces) :
    ReadAs (readArrayOf read) values ('[' :: text) := by
  refine ⟨⟨_, _, rfl, by decide, by decide, by decide⟩, fun {rest} _ => ?_⟩
  exact readSequence_complete (.inl rfl) h hread rest

theorem Spelled.listed {sp : Spelling} {items : List Json} {text : List Char}
    (h : Spelled sp (.array items) text) :
    ∃ pieces listed, text = '[' :: listed ∧ Listed ']' pieces listed ∧
      List.Forall₂ (Spelled sp) items pieces := by
  cases h with
  | @array items listed hitems htext =>
      refine ⟨_, listed, rfl, htext, ?_⟩
      rw [List.forall₂_map_left_iff, List.forall₂_map_right_iff, List.forall₂_same]
      exact hitems

theorem readAs_strings {sp : Spelling} (hsp : sp.Strict) {texts : List String} {text : List Char}
    (h : Spelled sp (.ofStrings texts) text) : ReadAs (readArrayOf readText) texts text := by
  obtain ⟨pieces, listed, rfl, hlisted, hpieces⟩ := h.listed
  rw [List.forall₂_map_left_iff] at hpieces
  exact readAs_array hlisted (hpieces.imp fun _ _ => readAs_string hsp)

end LedgerIndex.Json
