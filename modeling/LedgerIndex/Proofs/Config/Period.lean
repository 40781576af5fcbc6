import LedgerIndex.Config.Period
import LedgerIndex.Proofs.Decimal.Digits
import LedgerIndex.Proofs.Text.Trim

/-! # The grammar of polling periods

`Spells cs span` is the grammar of the texts that are periods, once the white space around them is
gone: a numeral, white space, and a unit.  `Period.read?` accepts these texts and no others
(`read?_eq_some_iff`), although the ending `s` is also the ending of `ms`: a numeral and white
space contain no letter, so that a text has one reading at most. -/

namespace LedgerIndex.Period

open Text (Blank Strips isSpace trim)

variable {cs : List Char} {span : Span}

/-- A unit as it is written, and the span of a count of it. -/
inductive Measures : List Char → (Nat → Span) → Prop
  | millis : Measures ['m', 's'] Span.ofMillis
  | seconds : Measures ['s'] Span.ofSeconds
  | none : Measures [] Span.ofSeconds

/-- A numeral of thirty-two bits, white space and a unit, and the span that they describe. -/
inductive Spells : List Char → Span → Prop
  | intro {numeral gap unit : List Char} {count : Nat} {measure : Nat → Span}
      (hnumeral : Decimal.Writes numeral count) (hcount : count < UInt32.size) (hgap : Blank gap)
      (hunit : Measures unit measure) : Spells (numeral ++ gap ++ unit) (measure count)

/-! ### The unit -/

theorem splitUnit_spec (cs : List Char) :
    ∃ unit, Measures unit (splitUnit cs).2 ∧ cs = (splitUnit cs).1 ++ unit := by
  rw [splitUnit]
  split
  · rename_i hmillis
    exact ⟨_, .millis, Text.before?_eq_some hmillis⟩
  · split
    · rename_i hseconds
      exact ⟨_, .seconds, Text.before?_eq_some hseconds⟩
    · exact ⟨[], .none, (List.append_nil cs).symm⟩

theorem splitUnit_append {unit : List Char} {measure : Nat → Span} (hunit : Measures unit measure)
    (hm : 'm' ∉ cs) (hs : 's' ∉ cs) : splitUnit (cs ++ unit) = (cs, measure) := by
  rw [splitUnit]
  cases hunit with
  | millis => rw [Text.before?_append]
  | seconds =>
      have hnotMillis : 'm' ∉ cs ++ ['s'] := fun h =>
        (List.mem_append.mp h).elim hm (by decide)
      rw [Text.before?_of_notMem List.mem_cons_self hnotMillis, Text.before?_append]
  | none =>
      rw [List.append_nil, Text.before?_of_notMem List.mem_cons_self hm,
        Text.before?_of_notMem List.mem_cons_self hs]

/-! ### The numeral -/

theorem isSpace_of_isDigit {c : Char} (h : c.isDigit = true) : isSpace c = false := by
  rw [Char.isDigit, Bool.and_eq_true, decide_eq_true_eq, decide_eq_true_eq] at h
  have hlow : 48 ≤ c.toNat := h.1
  have hhigh : c.toNat ≤ 57 := h.2
  simp only [isSpace, Text.singleSpaces, List.contains_eq_mem, List.mem_cons, List.not_mem_nil,
    or_false, Bool.or_eq_false_iff, Bool.and_eq_false_iff, decide_eq_false_iff_not]
  omega

theorem isSpace_of_writes {numeral : List Char} {count : Nat} (h : Decimal.Writes numeral count) :
    ∀ c ∈ numeral, isSpace c = false := by
  intro c hc
  rcases h.char c hc with rfl | hdigit
  · rfl
  · exact isSpace_of_isDigit hdigit

theorem notMem_of_writes {numeral gap : List Char} {count : Nat} {letter : Char}
    (hnumeral : Decimal.Writes numeral count) (hgap : Blank gap) (hplus : letter ≠ '+')
    (hdigit : letter.isDigit = false) (hspace : isSpace letter = false) :
    letter ∉ numeral ++ gap := by
  intro h
  rcases List.mem_append.mp h with h | h
  · rcases hnumeral.char letter h with heq | hd
    · exact hplus heq
    · exact Bool.false_ne_true (hdigit.symm.trans hd)
  · exact Bool.false_ne_true (hspace.symm.trans (hgap letter h))

/-- A numeral is what trimming leaves of it and the white space behind it. -/
theorem trim_numeral {numeral gap : List Char} {count : Nat}
    (hnumeral : Decimal.Writes numeral count) (hgap : Blank gap) :
    trim (numeral ++ gap) = numeral :=
  Text.trim_eq_iff.mpr
    { around := ⟨[], gap, nofun, hgap, rfl⟩
      head := fun c hc => isSpace_of_writes hnumeral c (List.mem_of_mem_head? hc)
      last := fun c hc => isSpace_of_writes hnumeral c (List.mem_of_mem_getLast? hc) }

/-! ### The periods that are read -/

theorem read?_eq (cs : List Char) :
    read? cs = (Decimal.natural? greatestCount (trim (splitUnit cs).1)).map (splitUnit cs).2 := rfl

theorem le_greatestCount_iff {count : Nat} : count ≤ greatestCount ↔ count < UInt32.size :=
  Nat.le_sub_one_iff_lt (by decide)

theorem spells_of_read? (hhead : ∀ c ∈ cs.head?, isSpace c = false) (h : read? cs = some span) :
    Spells cs span := by
  obtain ⟨unit, hunit, hcs⟩ := splitUnit_spec cs
  rw [read?_eq] at h
  obtain ⟨count, hread, rfl⟩ := Option.map_eq_some_iff.mp h
  obtain ⟨hnumeral, hcount⟩ := Decimal.natural?_eq_some_iff.mp hread
  obtain ⟨lead, gap, hlead, hgap, hsplit⟩ := Text.exists_eq_trim (splitUnit cs).1
  have hnil : lead = [] := by
    cases lead with
    | nil => rfl
    | cons c lead =>
        rw [hcs, hsplit] at hhead
        have hc : isSpace c = false := hhead c rfl
        rw [hlead c List.mem_cons_self] at hc
        exact nomatch hc
  rw [hnil, List.nil_append] at hsplit
  have hspells := Spells.intro hnumeral (le_greatestCount_iff.mp hcount) hgap hunit
  rwa [← hsplit, ← hcs] at hspells

theorem read?_of_spells (h : Spells cs span) : read? cs = some span := by
  obtain ⟨hnumeral, hcount, hgap, hunit⟩ := h
  rename_i numeral gap unit count measure
  have hm : 'm' ∉ numeral ++ gap :=
    notMem_of_writes hnumeral hgap (by decide) (by decide) (by decide)
  have hs : 's' ∉ numeral ++ gap :=
    notMem_of_writes hnumeral hgap (by decide) (by decide) (by decide)
  have hread : Decimal.natural? greatestCount numeral = some count :=
    Decimal.natural?_eq_some_iff.mpr ⟨hnumeral, le_greatestCount_iff.mpr hcount⟩
  rw [read?_eq, splitUnit_append hunit hm hs, trim_numeral hnumeral hgap, hread]
  rfl

theorem read?_eq_some_iff (hhead : ∀ c ∈ cs.head?, isSpace c = false) :
    read? cs = some span ↔ Spells cs span :=
  ⟨spells_of_read? hhead, read?_of_spells⟩

theorem Spells.nanos_lt (h : Spells cs span) : span.nanos < UInt64.size := by
  obtain @⟨_, _, _, count, _, _, hcount, _, hunit⟩ := h
  have hunitNanos : count * 1000000000 < UInt64.size :=
    Nat.lt_of_lt_of_le (Nat.mul_lt_mul_of_pos_right hcount (by decide)) (by decide)
  cases hunit with
  | millis => exact Nat.lt_of_le_of_lt (Nat.mul_le_mul_left count (by decide)) hunitNanos
  | seconds => exact hunitNanos
  | none => exact hunitNanos

/-- **A text is a period exactly if it follows the grammar**, and then it has the span that the
grammar gives it, which does not overflow; every other text is refused under its name. -/
theorem span_text (t : String) :
    Strips t.toList (trim t.toList)
      ∧ (∀ span, Period.span (.text t) = .ok span ↔ Spells (trim t.toList) span)
      ∧ (∀ span, Spells (trim t.toList) span → span.nanos < UInt64.size)
      ∧ ((¬∃ span, Spells (trim t.toList) span) →
          Period.span (.text t) = .error ⟨String.ofList (trim t.toList)⟩) := by
  have hread : ∀ span, read? (trim t.toList) = some span ↔ Spells (trim t.toList) span :=
    fun _ => read?_eq_some_iff (Text.head?_trim t.toList)
  refine ⟨Text.strips_trim t.toList, fun span => ?_, fun _ => Spells.nanos_lt, fun hno => ?_⟩
  · rw [← hread, Period.span]
    split <;> rename_i h
    · rw [h, Except.ok.injEq, Option.some.injEq]
    · rw [h]
      exact ⟨nofun, nofun⟩
  · rw [Period.span]
    split <;> rename_i h
    · exact absurd ⟨_, (hread _).mp h⟩ hno
    · rfl

/-- The longer unit wins, and a text that ends in neither unit is a number of seconds or nothing. -/
example : [" +05 ms ", "7s", "7", "7 m", "ms"].map (fun t => Period.span (.text t))
    = [.ok ⟨5000000⟩, .ok ⟨7000000000⟩, .ok ⟨7000000000⟩, .error ⟨"7 m"⟩, .error ⟨"ms"⟩] := by
  decide +kernel

end LedgerIndex.Period
