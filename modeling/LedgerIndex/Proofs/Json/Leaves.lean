import LedgerIndex.Proofs.Json.Grammar
import Mathlib.Data.List.TakeWhile

/-! # Strings and numbers are read as the grammar has them

The readers of strings and numbers take the texts of the grammar, whatever follows them
(`Json.readString_complete`, `Json.readNumeral_complete`), and nothing else
(`Json.readString_sound`, `Json.readNumeral_sound`). -/

namespace LedgerIndex.Json

/-! ### Escapes -/

theorem readUnit_complete {n : Nat} {digits : List Char} (h : IsUnit n digits) (rest : List Char) :
    readUnit (digits ++ rest) = some (n, rest) := by
  obtain ⟨ha, hb, hc, hd⟩ := h
  simp [readUnit, ha, hb, hc, hd]

theorem readUnit_sound {n : Nat} {cs rest : List Char} (h : readUnit cs = some (n, rest)) :
    ∃ digits, cs = digits ++ rest ∧ IsUnit n digits := by
  unfold readUnit at h
  split at h
  · split at h
    · rename_i a b c d tail _ _ _ _ w x y z ha hb hc hd
      cases h
      exact ⟨[a, b, c, d], rfl, .intro ha hb hc hd⟩
    · cases h
  · cases h

theorem hexValue?_lt {c : Char} {n : Nat} (h : hexValue? c = some n) : n < 16 := by
  unfold hexValue? at h
  split at h
  · rename_i hc
    have hhigh : c.toNat ≤ '9'.toNat := hc.2
    cases h
    have : '9'.toNat = 57 := rfl
    omega
  · split at h
    · rename_i hc
      have hhigh : c.toNat ≤ 'f'.toNat := hc.2
      cases h
      have : 'f'.toNat = 102 := rfl
      omega
    · split at h
      · rename_i hc
        have hhigh : c.toNat ≤ 'F'.toNat := hc.2
        cases h
        have : 'F'.toNat = 70 := rfl
        omega
      · cases h

theorem IsUnit.lt {n : Nat} {digits : List Char} (h : IsUnit n digits) : n < 65536 := by
  obtain ⟨ha, hb, hc, hd⟩ := h
  have := hexValue?_lt ha
  have := hexValue?_lt hb
  have := hexValue?_lt hc
  have := hexValue?_lt hd
  omega

theorem toNat_not_surrogate (c : Char) : ¬ (0xD800 ≤ c.toNat ∧ c.toNat ≤ 0xDFFF) := by
  have hvalid : c.toNat.isValidChar := c.valid
  rcases hvalid with h | ⟨h, _⟩ <;> omega

theorem toNat_ofNat_of_valid {n : Nat} (h : n.isValidChar) : (Char.ofNat n).toNat = n := by
  rw [Char.ofNat, dif_pos h]
  rfl

theorem isValidChar_of_pair {high low : Nat} (hhigh : 0xD800 ≤ high ∧ high ≤ 0xDBFF)
    (hlow : 0xDC00 ≤ low ∧ low ≤ 0xDFFF) :
    (0x10000 + (high - 0xD800) * 0x400 + (low - 0xDC00)).isValidChar := by
  refine .inr ⟨?_, ?_⟩ <;> omega

theorem readEscape_complete {c : Char} {e : List Char} (h : IsEscape c e) (rest : List Char) :
    readEscape (e ++ rest) = some (c, rest) := by
  cases h with
  | @short letter c h =>
      have hletter : letter ≠ 'u' := by
        rintro rfl
        cases h
      simp [readEscape, hletter, h]
  | unit h =>
      have hplain := toNat_not_surrogate c
      have hlow : ¬ (0xDC00 ≤ c.toNat ∧ c.toNat ≤ 0xDFFF) := by omega
      have hhigh : ¬ (0xD800 ≤ c.toNat ∧ c.toNat ≤ 0xDBFF) := by omega
      simp [readEscape, readUnit_complete h, hlow, hhigh, Char.ofNat_toNat]
  | @pair c high low digits digits' hhigh hlow hhighRange hlowRange hc =>
      have hfirst : ¬ (0xDC00 ≤ high ∧ high ≤ 0xDFFF) := by omega
      have hsecond : readLowSurrogate ('\\' :: 'u' :: (digits' ++ rest))
          = some (low - 0xDC00, rest) := by
        simp [readLowSurrogate, readUnit_complete hlow, hlowRange]
      rw [List.cons_append, List.append_assoc, readEscape, if_pos rfl, readUnit_complete hhigh]
      simp only [if_neg hfirst, if_pos hhighRange, List.cons_append, hsecond]
      rw [← hc, Char.ofNat_toNat]

theorem readLowSurrogate_sound {n : Nat} {cs rest : List Char}
    (h : readLowSurrogate cs = some (n, rest)) :
    ∃ low digits, cs = '\\' :: 'u' :: (digits ++ rest) ∧ IsUnit low digits ∧
      (0xDC00 ≤ low ∧ low ≤ 0xDFFF) ∧ n = low - 0xDC00 := by
  unfold readLowSurrogate at h
  split at h
  · split at h
    · rename_i tail _ low rest' hunit
      split at h
      · rename_i hrange
        obtain ⟨hn, rfl⟩ := Prod.mk.inj (Option.some.inj h)
        obtain ⟨digits, rfl, hdigits⟩ := readUnit_sound hunit
        exact ⟨low, digits, rfl, hdigits, hrange, hn.symm⟩
      · cases h
    · cases h
  · cases h

theorem readEscape_sound {c : Char} {cs rest : List Char} (h : readEscape cs = some (c, rest)) :
    ∃ e, cs = e ++ rest ∧ IsEscape c e := by
  cases cs with
  | nil => cases h
  | cons letter tail =>
      rw [readEscape] at h
      split at h
      · rename_i hletter
        subst hletter
        split at h
        · cases h
        · rename_i unit rest' hunit
          obtain ⟨digits, rfl, hdigits⟩ := readUnit_sound hunit
          have hlt := hdigits.lt
          split at h
          · cases h
          · rename_i hlow
            split at h
            · rename_i hhigh
              split at h
              · rename_i offset rest'' hpair
                obtain ⟨low, digits', rfl, hdigits', hrange, hoffset⟩ :=
                  readLowSurrogate_sound hpair
                obtain ⟨rfl, rfl⟩ := Prod.mk.inj (Option.some.inj h)
                rw [hoffset]
                have hchar := toNat_ofNat_of_valid (isValidChar_of_pair hhigh hrange)
                exact ⟨_, by simp, .pair hdigits hdigits' hhigh hrange hchar⟩
              · cases h
            · rename_i hhigh
              cases h
              have hvalid : unit.isValidChar := by
                rcases Nat.lt_or_ge unit 0xD800 with hsmall | hlarge
                · exact .inl hsmall
                · exact .inr ⟨by omega, by omega⟩
              refine ⟨'u' :: digits, rfl, .unit ?_⟩
              rw [toNat_ofNat_of_valid hvalid]
              exact hdigits
      · obtain ⟨e, he, heq⟩ := Option.map_eq_some_iff.mp h
        cases heq
        exact ⟨[letter], rfl, .short he⟩

theorem skipEscape_complete {c : Char} {e : List Char} (h : IsLooseEscape c e) (rest : List Char) :
    skipEscape (e ++ rest) = some (c, rest) := by
  cases h with
  | @short letter c h =>
      have hletter : letter ≠ 'u' := by
        rintro rfl
        cases h
      simp [skipEscape, hletter, h]
  | unit h => simp [skipEscape, readUnit_complete h]

/-! ### Strings -/

section Strings

variable {escape : Char → List Char → Prop} {read : Read Char} {cs text rest : List Char}

theorem Chars.length_le (h : Chars escape cs text) : cs.length ≤ text.length := by
  induction h with
  | nil => exact Nat.le_refl _
  | plain _ _ _ _ ih => exact Nat.succ_le_succ ih
  | escaped _ _ ih =>
      rw [List.length_cons, List.length_cons, List.length_append]
      omega

theorem readChars_complete
    (hread : ∀ {c e}, escape c e → ∀ rest, read (e ++ rest) = some (c, rest))
    (h : Chars escape cs text) (rest : List Char) :
    ∀ {fuel : Nat} (done : List Char), cs.length < fuel →
      readChars read fuel done (text ++ '"' :: rest) = some (done.reverse ++ cs, rest) := by
  induction h with
  | nil =>
      intro fuel done hfuel
      obtain ⟨fuel, rfl⟩ : ∃ k, fuel = k + 1 := ⟨fuel - 1, by omega⟩
      simp [readChars]
  | plain hquote hslash hcontrol _ ih =>
      intro fuel done hfuel
      rw [List.length_cons] at hfuel
      obtain ⟨fuel, rfl⟩ : ∃ k, fuel = k + 1 := ⟨fuel - 1, by omega⟩
      rw [List.cons_append, readChars, if_neg hquote, if_neg hslash,
        if_neg (Nat.not_lt.mpr hcontrol), ih _ (by omega)]
      simp
  | escaped he _ ih =>
      intro fuel done hfuel
      rw [List.length_cons] at hfuel
      obtain ⟨fuel, rfl⟩ : ∃ k, fuel = k + 1 := ⟨fuel - 1, by omega⟩
      rw [List.cons_append, List.append_assoc, readChars, if_neg (by decide), if_pos rfl,
        hread he]
      simp only
      rw [ih _ (by omega)]
      simp

theorem readChars_sound
    (hread : ∀ {c cs rest}, read cs = some (c, rest) → ∃ e, cs = e ++ rest ∧ escape c e)
    {fuel : Nat} {done input : List Char} (h : readChars read fuel done input = some (cs, rest)) :
    ∃ more text, cs = done.reverse ++ more ∧ input = text ++ '"' :: rest ∧
      Chars escape more text := by
  induction fuel generalizing done input with
  | zero => cases h
  | succ fuel ih =>
      cases input with
      | nil => cases h
      | cons c input =>
          rw [readChars] at h
          split at h
          · rename_i hquote
            subst hquote
            cases h
            exact ⟨[], [], (List.append_nil _).symm, rfl, .nil⟩
          · rename_i hquote
            split at h
            · rename_i hslash
              subst hslash
              split at h
              · rename_i d tail hd
                obtain ⟨e, rfl, he⟩ := hread hd
                obtain ⟨more, text, rfl, rfl, htext⟩ := ih h
                exact ⟨d :: more, '\\' :: (e ++ text), by simp, by simp, .escaped he htext⟩
              · cases h
            · rename_i hslash
              split at h
              · cases h
              · rename_i hcontrol
                obtain ⟨more, text, rfl, rfl, htext⟩ := ih h
                exact ⟨c :: more, c :: text, by simp, rfl,
                  .plain hquote hslash (Nat.not_lt.mp hcontrol) htext⟩

theorem readQuoted_complete
    (hread : ∀ {c e}, escape c e → ∀ rest, read (e ++ rest) = some (c, rest)) {s : String}
    (h : IsString escape s text) (rest : List Char) :
    readQuoted read (text ++ '"' :: rest) = some (s, rest) := by
  have hfuel : s.toList.length < (text ++ '"' :: rest).length := by
    have hlength := h.length_le
    rw [List.length_append, List.length_cons]
    omega
  rw [readQuoted, readChars_complete hread h rest [] hfuel]
  simp

/-- **Every text of a string is read.** -/
theorem readString_complete {s : String} (h : IsString IsEscape s text) (rest : List Char) :
    readString (text ++ '"' :: rest) = some (s, rest) :=
  readQuoted_complete readEscape_complete h rest

/-- **Nothing else is read as a string.** -/
theorem readString_sound {s : String} (h : readString cs = some (s, rest)) :
    ∃ text, cs = text ++ '"' :: rest ∧ IsString IsEscape s text := by
  unfold readString readQuoted at h
  split at h
  · rename_i chars tail hchars
    cases h
    obtain ⟨more, text, rfl, rfl, htext⟩ := readChars_sound readEscape_sound hchars
    refine ⟨text, rfl, ?_⟩
    rw [IsString, String.toList_ofList]
    exact htext
  · cases h

end Strings

/-! ### Numbers -/

/-- What may follow a number: neither a digit nor a point nor an exponent. -/
def Ends (rest : List Char) : Prop :=
  ∀ c ∈ rest.head?, c.isDigit = false ∧ c ≠ '.' ∧ c ≠ 'e' ∧ c ≠ 'E'

/-- No digit follows. -/
def Apart (rest : List Char) : Prop :=
  ∀ c ∈ rest.head?, c.isDigit = false

theorem Ends.apart {rest : List Char} (h : Ends rest) : Apart rest :=
  fun c hc => (h c hc).1

theorem digitRun_complete {ds rest : List Char} (h : ∀ c ∈ ds, c.isDigit = true)
    (hrest : Apart rest) : digitRun (ds ++ rest) = (ds, rest) := by
  have hstop : rest.takeWhile Char.isDigit = [] ∧ rest.dropWhile Char.isDigit = rest := by
    cases rest with
    | nil => exact ⟨rfl, rfl⟩
    | cons c rest =>
        have hc : ¬ c.isDigit = true := by simp [hrest c rfl]
        exact ⟨List.takeWhile_cons_of_neg hc, List.dropWhile_cons_of_neg hc⟩
  rw [digitRun, List.takeWhile_append_of_pos h, List.dropWhile_append_of_pos h, hstop.1, hstop.2,
    List.append_nil]

theorem digitRun_sound {cs ds rest : List Char} (h : digitRun cs = (ds, rest)) :
    cs = ds ++ rest ∧ ∀ c ∈ ds, c.isDigit = true := by
  cases h
  exact ⟨(List.takeWhile_append_dropWhile ..).symm, fun c hc => List.mem_takeWhile_imp hc⟩

theorem readWhole_complete {ds rest : List Char} (h : IsWhole ds) (hrest : Apart rest) :
    readWhole (ds ++ rest) = some (ds, rest) := by
  rw [readWhole, digitRun_complete h.digits hrest]
  split
  · rename_i heq
    exact absurd (Prod.mk.inj heq).1 h.ne_nil
  · rename_i heq
    have hds := (Prod.mk.inj heq).1
    have hone := h.zero (by rw [hds]; rfl)
    rw [hds] at hone
    simp at hone
  · rename_i heq
    cases heq
    rfl

theorem readWhole_sound {cs ds rest : List Char} (h : readWhole cs = some (ds, rest)) :
    cs = ds ++ rest ∧ IsWhole ds := by
  unfold readWhole at h
  split at h
  · cases h
  · cases h
  · rename_i ds' rest' hnil hzero hrun
    cases h
    obtain ⟨rfl, hdigits⟩ := digitRun_sound hrun
    refine ⟨rfl, ⟨⟨fun hds => hnil hds, hdigits⟩, fun hhead => ?_⟩⟩
    obtain ⟨tail, rfl⟩ : ∃ tail, ds = '0' :: tail := by
      cases ds with
      | nil => cases hhead
      | cons c tail => exact ⟨tail, by rw [Option.some.inj hhead]⟩
    cases tail with
    | nil => rfl
    | cons c tail => exact absurd rfl (hzero c tail)

theorem readFraction_complete {fraction : Option (List Char)} {text rest : List Char}
    (h : IsFraction fraction text) (hrest : Apart rest)
    (hpoint : ∀ c ∈ rest.head?, c ≠ '.') : readFraction (text ++ rest) = some (fraction, rest) := by
  cases h with
  | none =>
      rw [List.nil_append]
      unfold readFraction
      split
      · exact absurd rfl (hpoint '.' rfl)
      · rfl
  | @some ds h =>
      rw [List.cons_append, readFraction, digitRun_complete h.digits hrest]
      split
      · rename_i heq
        exact absurd (Prod.mk.inj heq).1 h.ne_nil
      · rename_i heq
        cases heq
        rfl

theorem readFraction_sound {cs rest : List Char} {fraction : Option (List Char)}
    (h : readFraction cs = some (fraction, rest)) :
    ∃ text, cs = text ++ rest ∧ IsFraction fraction text := by
  unfold readFraction at h
  split at h
  · split at h
    · cases h
    · rename_i hnil hrun
      cases h
      obtain ⟨rfl, hdigits⟩ := digitRun_sound hrun
      exact ⟨_, rfl, .some ⟨fun hds => hnil hds, hdigits⟩⟩
  · cases h
    exact ⟨[], rfl, .none⟩

theorem digitRun_ne_nil {ds rest : List Char} (h : IsDigits ds) (hrest : Apart rest) :
    ∃ c tail, ds = c :: tail ∧ c.isDigit = true ∧ digitRun (ds ++ rest) = (c :: tail, rest) := by
  obtain ⟨c, tail, rfl⟩ := List.exists_cons_of_ne_nil h.ne_nil
  exact ⟨c, tail, rfl, h.digits c List.mem_cons_self, digitRun_complete h.digits hrest⟩

theorem readExponent_complete {exponent : Option Int} {text rest : List Char}
    (h : IsExponent exponent text) (hrest : Ends rest) :
    readExponent (text ++ rest) = some (exponent, rest) := by
  cases h with
  | none =>
      cases rest with
      | nil => rfl
      | cons c rest =>
          obtain ⟨-, -, hlower, hupper⟩ := hrest c rfl
          exact if_neg (not_or.mpr ⟨hlower, hupper⟩)
  | bare hmark h =>
      obtain ⟨c, tail, rfl, hc, hrun⟩ := digitRun_ne_nil h hrest.apart
      have hsign : ∀ d : Char, d.isDigit = false →
          ∀ more, c :: tail ++ rest = d :: more → False := by
        intro d hd more heq
        rw [(List.cons.inj heq).1, hd] at hc
        cases hc
      rw [List.cons_append, readExponent, if_pos hmark, hrun]
      · rfl
      · exact hsign '-' rfl
      · exact hsign '+' rfl
  | plus hmark h =>
      obtain ⟨c, tail, rfl, hc, hrun⟩ := digitRun_ne_nil h hrest.apart
      rw [List.cons_append, List.cons_append, readExponent, if_pos hmark]
      simp only
      rw [hrun]
      rfl
  | minus hmark h =>
      obtain ⟨c, tail, rfl, hc, hrun⟩ := digitRun_ne_nil h hrest.apart
      rw [List.cons_append, List.cons_append, readExponent, if_pos hmark]
      simp only [hrun]
      rfl

theorem readExponent_sound {cs rest : List Char} {exponent : Option Int}
    (h : readExponent cs = some (exponent, rest)) :
    ∃ text, cs = text ++ rest ∧ IsExponent exponent text := by
  unfold readExponent at h
  split at h
  · rename_i c tail
    split at h
    · rename_i hmark
      split at h
      · rename_i negative body hsign
        split at h
        · cases h
        · rename_i ds rest' hnil hrun
          obtain ⟨hbody, hdigits⟩ := digitRun_sound hrun
          have hds : IsDigits ds := ⟨fun hds => hnil hds, hdigits⟩
          cases h
          split at hsign
          · cases hsign
            exact ⟨_, by rw [hbody]; rfl, .minus hmark hds⟩
          · cases hsign
            exact ⟨_, by rw [hbody]; rfl, .plus hmark hds⟩
          · cases hsign
            exact ⟨_, by rw [hbody]; rfl, .bare hmark hds⟩
    · cases h
      exact ⟨[], rfl, .none⟩
  · cases h
    exact ⟨[], rfl, .none⟩

theorem IsFraction.apart {fraction : Option (List Char)} {text rest : List Char}
    (h : IsFraction fraction text) (hrest : Apart rest) : Apart (text ++ rest) := by
  cases h with
  | none => exact hrest
  | some h =>
      intro c hc
      obtain rfl := Option.some.inj hc
      rfl

theorem IsExponent.head? {exponent : Option Int} {text rest : List Char}
    (h : IsExponent exponent text) (hrest : Ends rest) :
    ∀ c ∈ (text ++ rest).head?, c.isDigit = false ∧ c ≠ '.' := by
  have hmark : ∀ {mark : Char} {more : List Char}, mark = 'e' ∨ mark = 'E' →
      ∀ c ∈ (mark :: more).head?, c.isDigit = false ∧ c ≠ '.' := by
    intro mark more hmark c hc
    obtain rfl := Option.some.inj hc
    rcases hmark with rfl | rfl <;> decide
  cases h with
  | none => exact fun c hc => ⟨(hrest c hc).1, (hrest c hc).2.1⟩
  | bare h => exact hmark h
  | plus h => exact hmark h
  | minus h => exact hmark h

theorem IsWhole.head? {ds : List Char} (h : IsWhole ds) :
    ∃ c tail, ds = c :: tail ∧ c.isDigit = true := by
  obtain ⟨c, tail, rfl⟩ := List.exists_cons_of_ne_nil h.ne_nil
  exact ⟨c, tail, rfl, h.digits c List.mem_cons_self⟩

/-- **Every text of a number is read**, where it ends. -/
theorem readNumeral_complete {numeral : Numeral} {text rest : List Char}
    (h : IsNumeral numeral text) (hrest : Ends rest) :
    readNumeral (text ++ rest) = some (numeral, rest) := by
  obtain ⟨hwhole, hfraction, hexponent⟩ := h
  rename_i negative ds fractionText exponentText fraction exponent
  have hhead := hexponent.head? hrest
  have hapart : Apart (exponentText ++ rest) := fun c hc => (hhead c hc).1
  have hbody : readWhole (ds ++ (fractionText ++ (exponentText ++ rest)))
      = some (ds, fractionText ++ (exponentText ++ rest)) :=
    readWhole_complete hwhole (hfraction.apart hapart)
  have hpoint : readFraction (fractionText ++ (exponentText ++ rest))
      = some (fraction, exponentText ++ rest) :=
    readFraction_complete hfraction hapart fun c hc => (hhead c hc).2
  have hlast := readExponent_complete hexponent hrest
  cases negative with
  | true =>
      simp [readNumeral, sign, hbody, hpoint, hlast]
  | false =>
      obtain ⟨c, tail, rfl, hc⟩ := hwhole.head?
      have hminus : c ≠ '-' := by
        rintro rfl
        cases hc
      rw [List.cons_append] at hbody
      simp [readNumeral, sign, hbody, hpoint, hlast, hminus]

/-- **Nothing else is read as a number.** -/
theorem readNumeral_sound {cs rest : List Char} {numeral : Numeral}
    (h : readNumeral cs = some (numeral, rest)) :
    ∃ text, cs = text ++ rest ∧ IsNumeral numeral text := by
  unfold readNumeral at h
  split at h
  rename_i negative body hsign
  obtain ⟨⟨ds, afterWhole⟩, hwhole, h⟩ := Option.bind_eq_some_iff.mp h
  obtain ⟨⟨fraction, afterFraction⟩, hfraction, h⟩ := Option.bind_eq_some_iff.mp h
  obtain ⟨⟨exponent, last⟩, hexponent, h⟩ := Option.bind_eq_some_iff.mp h
  cases h
  obtain ⟨hbody, hds⟩ := readWhole_sound hwhole
  obtain ⟨fractionText, hpoint, hfraction⟩ := readFraction_sound hfraction
  obtain ⟨exponentText, hmark, hexponent⟩ := readExponent_sound hexponent
  have hcs : cs = sign negative ++ body := by
    split at hsign <;> (cases hsign; rfl)
  refine ⟨_, ?_, .intro hds hfraction hexponent⟩
  rw [hcs, hbody, hpoint, hmark]
  simp only [List.append_assoc]

end LedgerIndex.Json
