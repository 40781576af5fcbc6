import LedgerIndex.Proofs.Json.Leaves
import Mathlib.Data.List.Forall2

/-! # Values are read as the grammar has them

A reader takes a text (`Json.ReadAs`) if it reads it whatever may follow it.  So do the readers of
sequences with the texts of a listing, and a reader of values with every text of a value that does
not nest too deep, once its scanner takes the strings and numbers of the spelling
(`Json.Spelled.readAs`).  In turn every value that is read is written in the exact spelling and
does not nest too deep (`Json.readValue_sound`). -/

namespace LedgerIndex.Json

/-! ### Blanks -/

theorem skipBlank_append {blank : List Char} (h : Blank blank) (cs : List Char) :
    skipBlank (blank ++ cs) = skipBlank cs :=
  List.dropWhile_append_of_pos h

theorem skipBlank_cons {c : Char} (h : isBlank c = false) (cs : List Char) :
    skipBlank (c :: cs) = c :: cs :=
  List.dropWhile_cons_of_neg (by simp [h])

theorem skipBlank_sound (cs : List Char) : ∃ blank, Blank blank ∧ cs = blank ++ skipBlank cs :=
  ⟨cs.takeWhile isBlank, fun _ => List.mem_takeWhile_imp,
    (List.takeWhile_append_dropWhile ..).symm⟩

theorem Blank.ends {blank rest : List Char} (h : Blank blank) (hrest : Ends rest) :
    Ends (blank ++ rest) := by
  cases blank with
  | nil => exact hrest
  | cons c blank =>
      rintro _ ⟨⟩
      have hc := h c List.mem_cons_self
      simp only [isBlank, Bool.or_eq_true, beq_iff_eq] at hc
      rcases hc with ((rfl | rfl) | rfl) | rfl <;> decide

theorem ends_cons {c : Char} {rest : List Char}
    (h : c.isDigit = false ∧ c ≠ '.' ∧ c ≠ 'e' ∧ c ≠ 'E') : Ends (c :: rest) := by
  rintro _ ⟨⟩
  exact h

/-! ### Texts that are read -/

/-- A text that begins neither with a blank nor with a closing character. -/
def Opens (text : List Char) : Prop :=
  ∃ c tail, text = c :: tail ∧ isBlank c = false ∧ c ≠ ']' ∧ c ≠ '\x7d'

theorem Opens.skipBlank {text : List Char} (h : Opens text) (rest : List Char) :
    skipBlank (text ++ rest) = text ++ rest := by
  obtain ⟨c, tail, rfl, hc, -⟩ := h
  exact skipBlank_cons hc _

/-- A text is read as this, whatever may follow it. -/
structure ReadAs {α : Type} (read : Read α) (a : α) (text : List Char) : Prop where
  opens : Opens text
  value : ∀ {rest}, Ends rest → read (text ++ rest) = some (a, rest)

theorem ReadAs.behind {α : Type} {read : Read α} {a : α} {blank text rest : List Char}
    (h : ReadAs read a text) (hblank : Blank blank) (hrest : Ends rest) :
    read (skipBlank (blank ++ (text ++ rest))) = some (a, rest) := by
  rw [skipBlank_append hblank, h.opens.skipBlank, h.value hrest]

/-- **A whole text is read where the texts of its form are.** -/
theorem Whole.read {α : Type} {read : Read α} {a : α} {form : List Char → Prop} {cs : List Char}
    (h : Whole form cs) (hread : ∀ {text}, form text → ReadAs read a text) :
    whole? read cs = some a := by
  obtain ⟨before, text, after, hbefore, hafter, hform, rfl⟩ := h
  have hends : Ends after := by
    have hnil : Ends [] := nofun
    rw [← List.append_nil after]
    exact hafter.ends hnil
  have hlast : skipBlank after = [] := by
    rw [← List.append_nil after]
    exact skipBlank_append hafter []
  rw [whole?, (hread hform).behind hbefore hends]
  simp only [hlast, if_true]

/-! ### Sequences -/

/-- The closing characters of arrays and objects. -/
def IsClose (close : Char) : Prop :=
  close = ']' ∨ close = '\x7d'

section Sequences

variable {α : Type} {read : Read α} {close : Char} {pieces : List (List Char)} {values : List α}
  {text rest : List Char}

theorem IsClose.isBlank (h : IsClose close) : isBlank close = false := by
  rcases h with rfl | rfl <;> rfl

theorem IsClose.ends (h : IsClose close) : Ends (close :: rest) := by
  rcases h with rfl | rfl <;> exact ends_cons (by decide)

theorem IsClose.ne_comma (h : IsClose close) : close ≠ ',' := by
  rcases h with rfl | rfl <;> decide

theorem Items.length_le (h : Items close pieces text) : pieces.length ≤ text.length := by
  induction h with
  | last =>
      simp only [List.length_append, List.length_cons, List.length_nil]
      omega
  | more _ _ _ ih =>
      simp only [List.length_append, List.length_cons]
      omega

theorem Items.ne_close (h : Items close pieces text) (hclose : IsClose close)
    (hopens : ∀ piece ∈ pieces, Opens piece) (rest : List Char) :
    ∃ c tail, skipBlank (text ++ rest) = c :: tail ∧ c ≠ close := by
  obtain ⟨before, piece, more, rfl, hbefore, hpiece⟩ :
      ∃ before piece more, text = before ++ (piece ++ more) ∧ Blank before ∧ piece ∈ pieces := by
    cases h with
    | last hbefore => exact ⟨_, _, _, rfl, hbefore, List.mem_cons_self⟩
    | more hbefore => exact ⟨_, _, _, rfl, hbefore, List.mem_cons_self⟩
  obtain ⟨c, tail, rfl, hc, hbracket, hbrace⟩ := hopens piece hpiece
  refine ⟨c, tail ++ (more ++ rest), ?_, ?_⟩
  · rw [List.append_assoc, List.append_assoc, skipBlank_append hbefore, List.cons_append,
      skipBlank_cons hc]
  · rcases hclose with rfl | rfl
    · exact hbracket
    · exact hbrace

/-- Texts between commas are read one after the other up to the closing character. -/
theorem readList_complete (hclose : IsClose close) (h : Items close pieces text) :
    ∀ {values : List α}, List.Forall₂ (ReadAs read) values pieces → ∀ {fuel : Nat},
      pieces.length ≤ fuel → ∀ (done : List α) (rest : List Char),
        readList close read fuel done (text ++ rest) = some (done.reverse ++ values, rest) := by
  induction h with
  | @last before piece after hbefore hafter =>
      intro values hvalues fuel hfuel done rest
      obtain ⟨fuel, rfl⟩ : ∃ k, fuel = k + 1 := ⟨fuel - 1, by simp at hfuel; omega⟩
      cases hvalues with
      | cons hread hnil =>
          cases hnil
          have hends : Ends (after ++ close :: rest) := hafter.ends hclose.ends
          have hpiece := hread.behind hbefore hends
          have hend : skipBlank (after ++ close :: rest) = close :: rest := by
            rw [skipBlank_append hafter, skipBlank_cons hclose.isBlank]
          simp only [List.append_assoc, List.cons_append, List.nil_append]
          rw [readList, hpiece]
          simp only [hend, if_neg hclose.ne_comma, if_true, List.reverse_cons]
  | @more before piece after text pieces hbefore hafter _ ih =>
      intro values hvalues fuel hfuel done rest
      rw [List.length_cons] at hfuel
      obtain ⟨fuel, rfl⟩ : ∃ k, fuel = k + 1 := ⟨fuel - 1, by omega⟩
      cases hvalues with
      | @cons a _ values _ hread hvalues =>
          have hends : Ends (after ++ ',' :: (text ++ rest)) :=
            hafter.ends (ends_cons (by decide))
          have hpiece := hread.behind hbefore hends
          have hcomma : skipBlank (after ++ ',' :: (text ++ rest)) = ',' :: (text ++ rest) := by
            rw [skipBlank_append hafter, skipBlank_cons rfl]
          simp only [List.append_assoc, List.cons_append]
          rw [readList, hpiece]
          simp only [hcomma, if_true]
          rw [ih hvalues (by omega), List.reverse_cons, List.append_assoc]
          rfl

/-- **A listing is read text by text.** -/
theorem readSequence_complete (hclose : IsClose close) (h : Listed close pieces text)
    (hread : List.Forall₂ (ReadAs read) values pieces) (rest : List Char) :
    readSequence close read (text ++ rest) = some (values, rest) := by
  cases h with
  | @none blank hblank =>
      cases hread
      have hend : skipBlank (blank ++ [close] ++ rest) = close :: rest := by
        rw [List.append_assoc, skipBlank_append hblank]
        exact skipBlank_cons hclose.isBlank rest
      rw [readSequence, hend]
      simp only [if_true]
  | some h =>
      have hopens : ∀ piece ∈ pieces, Opens piece := by
        intro piece hpiece
        obtain ⟨i, hi, rfl⟩ := List.getElem_of_mem hpiece
        exact ((List.forall₂_iff_get.mp hread).2 i (by rw [hread.length_eq]; exact hi) hi).opens
      obtain ⟨c, tail, hstart, hne⟩ := h.ne_close hclose hopens rest
      have hfuel : pieces.length ≤ (text ++ rest).length := by
        have := h.length_le
        rw [List.length_append]
        omega
      rw [readSequence, hstart]
      simp only [if_neg hne]
      exact readList_complete hclose h hread hfuel [] rest

/-- What a reader of lists takes is a sequence of texts that its reader takes. -/
theorem readList_sound {P : α → List Char → Prop}
    (hread : ∀ {cs a rest}, read cs = some (a, rest) → ∃ text, cs = text ++ rest ∧ P a text)
    {fuel : Nat} {done : List α} {cs : List Char}
    (h : readList close read fuel done cs = some (values, rest)) :
    ∃ more pieces text, values = done.reverse ++ more ∧ cs = text ++ rest ∧
      Items close pieces text ∧ List.Forall₂ P more pieces := by
  induction fuel generalizing done cs with
  | zero => cases h
  | succ fuel ih =>
      obtain ⟨before, hbefore, hcs⟩ := skipBlank_sound cs
      rw [readList] at h
      split at h
      · cases h
      · rename_i a behind hpiece
        obtain ⟨piece, htext, hP⟩ := hread hpiece
        obtain ⟨after, hafter, hbehind⟩ := skipBlank_sound behind
        split at h
        · cases h
        · rename_i c tail hnext
          rw [hnext] at hbehind
          split at h
          · rename_i hcomma
            subst hcomma
            obtain ⟨more, pieces, text, rfl, rfl, hitems, hmore⟩ := ih h
            refine ⟨a :: more, piece :: pieces, _, ?_, ?_, .more hbefore hafter hitems,
              .cons hP hmore⟩
            · rw [List.reverse_cons, List.append_assoc]
              rfl
            · rw [hcs, htext, hbehind]
              simp only [List.append_assoc, List.cons_append]
          · split at h
            · rename_i hclose
              subst hclose
              cases h
              refine ⟨[a], [piece], _, List.reverse_cons, ?_, .last hbefore hafter,
                .cons hP .nil⟩
              rw [hcs, htext, hbehind]
              simp only [List.append_assoc, List.cons_append, List.nil_append]
            · cases h

theorem readSequence_sound {P : α → List Char → Prop}
    (hread : ∀ {cs a rest}, read cs = some (a, rest) → ∃ text, cs = text ++ rest ∧ P a text)
    {cs : List Char} (h : readSequence close read cs = some (values, rest)) :
    ∃ pieces text, cs = text ++ rest ∧ Listed close pieces text ∧ List.Forall₂ P values pieces := by
  unfold readSequence at h
  split at h
  · cases h
  · rename_i c tail hstart
    obtain ⟨blank, hblank, hcs⟩ := skipBlank_sound cs
    split at h
    · rename_i hclose
      subst hclose
      cases h
      exact ⟨[], _, by rw [hcs, hstart, List.append_assoc]; rfl, .none hblank, .nil⟩
    · obtain ⟨more, pieces, text, rfl, rfl, hitems, hmore⟩ := readList_sound hread h
      exact ⟨pieces, text, rfl, .some hitems, hmore⟩

end Sequences

/-! ### Spellings and their scanners -/

/-- A spelling with the escapes of strings, the numerals of numbers and the fields of objects. -/
structure Spelling.Strict (sp : Spelling) : Prop where
  string {s : String} {text : List Char} (h : sp.string s text) : IsString IsEscape s text
  number {n : Number} {text : List Char} (h : sp.number n text) : Spelling.exact.number n text
  order {fields sorted : List (String × Json)} (h : sp.order fields sorted) : fields.Perm sorted

theorem strict_exact : Spelling.exact.Strict where
  string h := h
  number h := h
  order h := h ▸ .refl _

/-- The strings and numbers of a spelling are read. -/
structure Scanner.Takes (scan : Scanner) (sp : Spelling) : Prop where
  string {s : String} {text : List Char} (h : sp.string s text) (rest : List Char) :
    scan.string (text ++ '"' :: rest) = some (s, rest)
  number {n : Number} {text rest : List Char} (h : sp.number n text) (hrest : Ends rest) :
    scan.number (text ++ rest) = some (n, rest)
  numeral {n : Number} {text : List Char} (h : sp.number n text) :
    ∃ numeral, IsNumeral numeral text
  order {fields sorted : List (String × Json)} (h : sp.order fields sorted) : fields = sorted

theorem takes_exact : strict.Takes .exact where
  string h rest := readString_complete h rest
  number := by
    rintro n text rest ⟨numeral, htext, hvalue⟩ hrest
    show readNumber (text ++ rest) = some (n, rest)
    rw [readNumber, readNumeral_complete htext hrest]
    simp only [hvalue, Option.map_some]
  numeral h := ⟨h.choose, h.choose_spec.1⟩
  order h := h

theorem takes_loose : loose.Takes .loose where
  string h rest := readQuoted_complete skipEscape_complete h rest
  number := by
    rintro n text rest ⟨rfl, numeral, htext⟩ hrest
    show skipNumber (text ++ rest) = some (.integer 0, rest)
    rw [skipNumber, readNumeral_complete htext hrest]
    rfl
  numeral h := h.2
  order h := h

/-! ### Every text of a value is read -/

/-- What a number may begin with: its sign or a digit. -/
def Begins (c : Char) : Prop :=
  c = '-' ∨ c.isDigit = true

instance (c : Char) : Decidable (Begins c) :=
  inferInstanceAs (Decidable (_ ∨ _))

theorem Begins.ne {c d : Char} (h : Begins c) (hd : ¬ Begins d) : c ≠ d :=
  fun heq => hd (heq ▸ h)

theorem IsNumeral.head {numeral : Numeral} {text : List Char} (h : IsNumeral numeral text) :
    ∃ c tail, text = c :: tail ∧ Begins c := by
  obtain ⟨hwhole, -, -⟩ := h
  rename_i negative ds _ _ _ _
  cases negative with
  | true => exact ⟨'-', _, rfl, .inl rfl⟩
  | false =>
      obtain ⟨c, tail, rfl, hc⟩ := hwhole.head?
      exact ⟨c, _, rfl, .inr hc⟩

theorem IsNumeral.opens {numeral : Numeral} {text : List Char} (h : IsNumeral numeral text) :
    Opens text := by
  obtain ⟨c, tail, rfl, hc⟩ := h.head
  refine ⟨c, tail, rfl, ?_, hc.ne (by decide), hc.ne (by decide)⟩
  have hspace : c ≠ ' ' := hc.ne (by decide)
  have hline : c ≠ '\n' := hc.ne (by decide)
  have htab : c ≠ '\t' := hc.ne (by decide)
  have hreturn : c ≠ '\r' := hc.ne (by decide)
  simp [isBlank, hspace, hline, htab, hreturn]

section Spelled

variable {scan : Scanner} {sp : Spelling} {json : Json} {text : List Char}

theorem Spelled.opens (hscan : scan.Takes sp) (h : Spelled sp json text) : Opens text := by
  cases h with
  | number h => exact (hscan.numeral h).choose_spec.opens
  | _ => exact ⟨_, _, rfl, by decide, by decide, by decide⟩

theorem readScalar_number {c : Char} (h : Begins c) (cs : List Char) :
    readScalar scan (c :: cs) =
      match scan.number (c :: cs) with
      | some (n, rest) => some (.number n, rest)
      | none => none := by
  unfold readScalar
  split
  all_goals first | rfl | (rename_i heq; exact absurd (List.cons.inj heq).1 (h.ne (by decide)))

theorem readTree_of_scalar {c : Char} (hbracket : c ≠ '[') (hbrace : c ≠ '\x7b') (cs : List Char)
    (depth : Nat) : readTree scan depth (c :: cs) = readScalar scan (c :: cs) := by
  cases depth with
  | zero => rfl
  | succ depth =>
      unfold readTree
      split
      · rename_i heq
        exact absurd (List.cons.inj heq).1 hbracket
      · rename_i heq
        exact absurd (List.cons.inj heq).1 hbrace
      · rfl

theorem readMember_complete {α : Type} {string : Read String} {value : String → Read α} {a : α}
    {key : String} {keyText before after body rest : List Char}
    (hkey : ∀ rest, string (keyText ++ '"' :: rest) = some (key, rest)) (hbefore : Blank before)
    (hafter : Blank after) (hvalue : ReadAs (value key) a body) (hrest : Ends rest) :
    readMember string value
        ('"' :: (keyText ++ '"' :: (before ++ ':' :: (after ++ body))) ++ rest)
      = some (a, rest) := by
  have hcolon : skipBlank (before ++ ':' :: (after ++ (body ++ rest)))
      = ':' :: (after ++ (body ++ rest)) := by
    rw [skipBlank_append hbefore, skipBlank_cons rfl]
  simp only [List.append_assoc, List.cons_append]
  rw [readMember, hkey]
  simp only [hcolon]
  exact hvalue.behind hafter hrest

/-- **Every text of a value is read**, unless the value nests too deep. -/
theorem Spelled.readAs (hscan : scan.Takes sp) (h : Spelled sp json text) {depth : Nat}
    (hdepth : Nested depth json) : ReadAs (readTree scan depth) json text := by
  refine ⟨h.opens hscan, ?_⟩
  induction h generalizing depth with
  | null | true | false =>
      intro rest _
      exact readTree_of_scalar (by decide) (by decide) _ depth
  | number h =>
      intro rest hrest
      have hnumber := hscan.number h hrest
      obtain ⟨numeral, hnumeral⟩ := hscan.numeral h
      obtain ⟨c, tail, rfl, hc⟩ := hnumeral.head
      rw [List.cons_append] at hnumber ⊢
      rw [readTree_of_scalar (hc.ne (by decide)) (hc.ne (by decide)), readScalar_number hc, hnumber]
  | @string s text h =>
      intro rest _
      have hstring := hscan.string h rest
      rw [List.cons_append, List.append_assoc, readTree_of_scalar (by decide) (by decide)]
      show readScalar scan ('"' :: (text ++ '"' :: rest)) = _
      rw [readScalar, hstring]
  | @array items text hitems htext ih =>
      intro rest _
      cases hdepth with
      | @array depth _ hdepth =>
          have hread : List.Forall₂ (ReadAs (readTree scan depth)) (items.map Prod.fst)
              (items.map Prod.snd) := by
            rw [List.forall₂_map_left_iff, List.forall₂_map_right_iff, List.forall₂_same]
            intro item hitem
            exact ⟨(hitems item hitem).opens hscan,
              ih item hitem (hdepth _ (List.mem_map_of_mem hitem))⟩
          rw [List.cons_append, readTree, readSequence_complete (.inl rfl) htext hread]
  | @object members fields text hkeys hblank hvalues horder htext ih =>
      intro rest _
      obtain rfl := hscan.order horder
      cases hdepth with
      | @object depth _ hdepth =>
          have hread : List.Forall₂ (ReadAs (readField scan (readTree scan depth)))
              (members.map Member.field) (members.map Member.text) := by
            rw [List.forall₂_map_left_iff, List.forall₂_map_right_iff, List.forall₂_same]
            intro m hm
            have hvalue : ReadAs (readTree scan depth) m.value m.valueText :=
              ⟨(hvalues m hm).opens hscan, ih m hm (hdepth _ (List.mem_map_of_mem hm))⟩
            refine ⟨⟨_, _, rfl, by decide, by decide, by decide⟩, fun hrest => ?_⟩
            refine readMember_complete (hscan.string (hkeys m hm)) (hblank m hm).1
              (hblank m hm).2 ⟨hvalue.opens, fun hrest => ?_⟩ hrest
            rw [hvalue.value hrest]
            rfl
          rw [List.cons_append, readTree, readSequence_complete (.inr rfl) htext hread]

end Spelled

/-! ### Depth -/

theorem Nested.mono {depth deeper : Nat} {json : Json} (h : Nested depth json)
    (hle : depth ≤ deeper) : Nested deeper json := by
  induction h generalizing deeper with
  | null => exact .null
  | bool => exact .bool
  | number => exact .number
  | string => exact .string
  | array _ ih =>
      obtain ⟨deeper, rfl⟩ : ∃ k, deeper = k + 1 := ⟨deeper - 1, by omega⟩
      exact .array fun item hitem => ih item hitem (by omega)
  | object _ ih =>
      obtain ⟨deeper, rfl⟩ : ∃ k, deeper = k + 1 := ⟨deeper - 1, by omega⟩
      exact .object fun field hfield => ih field hfield (by omega)

theorem Items.length_piece_le {close : Char} {pieces : List (List Char)} {text piece : List Char}
    (h : Items close pieces text) (hpiece : piece ∈ pieces) : piece.length ≤ text.length := by
  induction h with
  | last =>
      rw [List.mem_singleton.mp hpiece]
      simp only [List.length_append]
      omega
  | more _ _ _ ih =>
      simp only [List.length_append, List.length_cons]
      rcases List.mem_cons.mp hpiece with rfl | hpiece
      · omega
      · have := ih hpiece
        omega

theorem Listed.length_piece_le {close : Char} {pieces : List (List Char)} {text piece : List Char}
    (h : Listed close pieces text) (hpiece : piece ∈ pieces) : piece.length ≤ text.length := by
  cases h with
  | none => cases hpiece
  | some h => exact h.length_piece_le hpiece

theorem Spelled.nested {sp : Spelling} {json : Json} {text : List Char} (h : Spelled sp json text)
    (hsp : ∀ {fields sorted}, sp.order fields sorted → fields.Perm sorted) :
    Nested text.length json := by
  induction h with
  | null => exact .null
  | true | false => exact .bool
  | number => exact .number
  | string => exact .string
  | array _ htext ih =>
      refine .array (List.forall_mem_map.mpr fun item hitem => ?_)
      exact (ih item hitem).mono (htext.length_piece_le (List.mem_map_of_mem hitem))
  | @object members _ text _ _ _ horder htext ih =>
      refine .object fun field hfield => ?_
      obtain ⟨m, hm, rfl⟩ := List.mem_map.mp ((hsp horder).mem_iff.mpr hfield)
      refine (ih m hm).mono ?_
      have hmember := htext.length_piece_le (List.mem_map_of_mem hm)
      simp only [Member.text, List.length_cons, List.length_append] at hmember
      omega

/-- **A text writes one value only.** -/
theorem IsText.unique {json other : Json} {cs : List Char} (h : IsText .exact json cs)
    (hother : IsText .exact other cs) : json = other := by
  have hread : ∀ {json}, IsText .exact json cs → whole? (readValue cs.length) cs = some json := by
    rintro json ⟨before, text, after, hbefore, hafter, htext, hcs⟩
    have hlength : text.length ≤ cs.length := by
      rw [hcs, List.length_append, List.length_append]
      omega
    have hwhole : Whole (· = text) cs := ⟨before, text, after, hbefore, hafter, rfl, hcs⟩
    refine hwhole.read ?_
    rintro _ rfl
    exact htext.readAs takes_exact ((htext.nested strict_exact.order).mono hlength)
  exact Option.some.inj ((hread h).symm.trans (hread hother))

/-! ### Nothing else is read as a value -/

/-- Two lists whose entries have common sources are the images of one list of sources. -/
theorem exists_sources {α β γ : Type} {f : γ → α} {g : γ → β} {P : γ → Prop} {as : List α}
    {bs : List β} (h : List.Forall₂ (fun a b => ∃ c, f c = a ∧ g c = b ∧ P c) as bs) :
    ∃ cs : List γ, cs.map f = as ∧ cs.map g = bs ∧ ∀ c ∈ cs, P c := by
  induction h with
  | nil => exact ⟨[], rfl, rfl, nofun⟩
  | cons hhead _ ih =>
      obtain ⟨c, rfl, rfl, hc⟩ := hhead
      obtain ⟨cs, rfl, rfl, hcs⟩ := ih
      exact ⟨c :: cs, rfl, rfl, List.forall_mem_cons.mpr ⟨hc, hcs⟩⟩

theorem readMember_sound {α : Type} {value : String → Read α} {a : α} {cs rest : List Char}
    (h : readMember readString value cs = some (a, rest)) :
    ∃ key keyText before after body, cs = '"' :: (keyText ++ '"' :: (before ++ ':' ::
        (after ++ body))) ∧ IsString IsEscape key keyText ∧ Blank before ∧ Blank after ∧
      value key body = some (a, rest) := by
  unfold readMember at h
  split at h
  · split at h
    · cases h
    · rename_i key behind hkey
      obtain ⟨keyText, rfl, hkeyText⟩ := readString_sound hkey
      split at h
      · rename_i tail hcolon
        obtain ⟨before, hbefore, hbehind⟩ := skipBlank_sound behind
        obtain ⟨after, hafter, htail⟩ := skipBlank_sound tail
        rw [hcolon, htail] at hbehind
        exact ⟨key, keyText, before, after, skipBlank tail, by rw [hbehind], hkeyText, hbefore,
          hafter, h⟩
      · cases h
  · cases h

theorem readNumber_sound {n : Number} {cs rest : List Char} (h : readNumber cs = some (n, rest)) :
    ∃ text, cs = text ++ rest ∧ Spelling.exact.number n text := by
  unfold readNumber at h
  split at h
  · rename_i numeral behind hnumeral
    obtain ⟨value, hvalue, heq⟩ := Option.map_eq_some_iff.mp h
    cases heq
    obtain ⟨text, rfl, htext⟩ := readNumeral_sound hnumeral
    exact ⟨text, rfl, numeral, htext, hvalue⟩
  · cases h

/-- The text is that of a value in the exact spelling, which does not nest too deep. -/
def Exactly (depth : Nat) (json : Json) (text : List Char) : Prop :=
  Spelled .exact json text ∧ Nested depth json

theorem readScalar_sound {json : Json} {cs rest : List Char} (depth : Nat)
    (h : readScalar strict cs = some (json, rest)) :
    ∃ text, cs = text ++ rest ∧ Exactly depth json text := by
  unfold readScalar at h
  split at h
  · cases h
    exact ⟨_, rfl, .null, .null⟩
  · cases h
    exact ⟨_, rfl, .true, .bool⟩
  · cases h
    exact ⟨_, rfl, .false, .bool⟩
  · split at h
    · rename_i s behind hstring
      cases h
      obtain ⟨text, rfl, htext⟩ := readString_sound hstring
      exact ⟨'"' :: (text ++ ['"']), by simp, .string htext, .string⟩
    · cases h
  · split at h
    · rename_i n behind hnumber
      cases h
      obtain ⟨text, rfl, htext⟩ := readNumber_sound hnumber
      exact ⟨text, rfl, .number htext, .number⟩
    · cases h

/-- **Every value that is read is written in the exact spelling** and does not nest too deep. -/
theorem readValue_sound {depth : Nat} {json : Json} {cs rest : List Char}
    (h : readValue depth cs = some (json, rest)) :
    ∃ text, cs = text ++ rest ∧ Exactly depth json text := by
  unfold readValue at h
  induction depth generalizing json cs rest with
  | zero => exact readScalar_sound 0 h
  | succ depth ih =>
      unfold readTree at h
      split at h
      · split at h
        · rename_i items behind hitems
          cases h
          obtain ⟨pieces, text, rfl, htext, hread⟩ := readSequence_sound ih hitems
          obtain ⟨sources, rfl, rfl, hsources⟩ := exists_sources (f := Prod.fst) (g := Prod.snd)
            (P := fun item => Exactly depth item.1 item.2)
            (hread.imp fun json text h => ⟨(json, text), rfl, rfl, h⟩)
          refine ⟨_, rfl, .array (fun item hitem => (hsources item hitem).1) htext, .array ?_⟩
          rw [List.forall_mem_map]
          exact fun item hitem => (hsources item hitem).2
        · cases h
      · split at h
        · rename_i fields behind hfields
          cases h
          have hfield : ∀ {cs : List Char} {field : String × Json} {rest : List Char},
              readField strict (readTree strict depth) cs = some (field, rest) →
                ∃ text, cs = text ++ rest ∧ ∃ m : Member, m.field = field ∧ m.text = text ∧
                  IsString IsEscape m.key m.keyText ∧ (Blank m.before ∧ Blank m.after) ∧
                  Exactly depth m.value m.valueText := by
            intro cs field rest h
            obtain ⟨key, keyText, before, after, body, rfl, hkey, hbefore, hafter, hvalue⟩ :=
              readMember_sound h
            split at hvalue
            · rename_i value behind hread
              cases hvalue
              obtain ⟨text, rfl, htext⟩ := ih hread
              exact ⟨_, by simp [Member.text], ⟨key, keyText, before, after, value, text⟩, rfl,
                rfl, hkey, ⟨hbefore, hafter⟩, htext⟩
            · cases hvalue
          obtain ⟨pieces, text, rfl, htext, hread⟩ := readSequence_sound hfield hfields
          obtain ⟨members, rfl, rfl, hmembers⟩ := exists_sources hread
          refine ⟨_, rfl, .object (fun m hm => (hmembers m hm).1) (fun m hm => (hmembers m hm).2.1)
            (fun m hm => (hmembers m hm).2.2.1) rfl htext, .object ?_⟩
          rw [List.forall_mem_map]
          exact fun m hm => (hmembers m hm).2.2.2
        · cases h
      · exact readScalar_sound _ h

theorem ofChars?_sound {depth : Nat} {json : Json} {cs : List Char}
    (h : ofChars? depth cs = some json) : IsText .exact json cs ∧ Nested depth json := by
  obtain ⟨before, hbefore, hcs⟩ := skipBlank_sound cs
  unfold ofChars? whole? at h
  split at h
  · rename_i value rest hread
    obtain ⟨text, htext, hspelled, hnested⟩ := readValue_sound hread
    obtain ⟨after, hafter, hrest⟩ := skipBlank_sound rest
    split at h
    · rename_i hnil
      cases h
      refine ⟨⟨before, text, after, hbefore, hafter, hspelled, ?_⟩, hnested⟩
      rw [hcs, htext, hrest, hnil, List.append_nil]
    · cases h
  · cases h

theorem flatMap_pieceChars (cs : List Char) : (cs.map some).flatMap pieceChars = cs := by
  rw [List.flatMap_map]
  exact List.flatMap_singleton' cs

/-- **A body that writes a value is read** where every text of the value is. -/
theorem document?_of_ofBytes? {α : Type} {read : Read α} {a : α} {json : Json} {bytes : Bytes}
    (h : ofBytes? bytes = some json)
    (hread : ∀ {text}, Spelled .exact json text → ReadAs read a text) :
    document? read bytes = some a := by
  obtain ⟨cs, hcs, hjson⟩ := Option.bind_eq_some_iff.mp h
  have hpieces : Utf8.pieces bytes = cs.map some := eq_map_some_of_mapM_id hcs
  rw [document?, hpieces, flatMap_pieceChars]
  exact (ofChars?_sound hjson).1.read hread

end LedgerIndex.Json
