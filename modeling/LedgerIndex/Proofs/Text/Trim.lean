import LedgerIndex.Text.Trim
import Mathlib.Data.List.DropRight

/-! # Texts without white space at their ends

`Strips cs core` says what removing the surrounding white space of `cs` has to leave: `core` stands
in `cs` between two runs of white space, and has none at its own ends.  There is exactly one such
text, and it is the one that `Text.trim` returns (`trim_eq_iff`). -/

namespace LedgerIndex.Text

variable {cs core ending front : List Char}

def Blank (cs : List Char) : Prop := ∀ c ∈ cs, isSpace c = true

/-- `core` is `cs` without the white space around it. -/
structure Strips (cs core : List Char) : Prop where
  around : ∃ lead trail, Blank lead ∧ Blank trail ∧ cs = lead ++ core ++ trail
  head : ∀ c ∈ core.head?, isSpace c = false
  last : ∀ c ∈ core.getLast?, isSpace c = false

theorem trimEnd_eq_rdropWhile (cs : List Char) : trimEnd cs = cs.rdropWhile isSpace := rfl

theorem dropWhile_blank_append {lead : List Char} (h : Blank lead) (cs : List Char) :
    (lead ++ cs).dropWhile isSpace = cs.dropWhile isSpace :=
  List.dropWhile_append_of_pos h

theorem trimEnd_append_blank {trail : List Char} (h : Blank trail) (cs : List Char) :
    trimEnd (cs ++ trail) = trimEnd cs := by
  have hback : Blank trail.reverse := fun c hc => h c (List.mem_reverse.mp hc)
  rw [trimEnd, trimEnd, List.reverse_append, dropWhile_blank_append hback]

theorem dropWhile_of_head (h : ∀ c ∈ cs.head?, isSpace c = false) : cs.dropWhile isSpace = cs := by
  cases cs with
  | nil => rfl
  | cons c cs => exact List.dropWhile_cons_of_neg (by rw [h c rfl]; exact Bool.false_ne_true)

theorem trimEnd_of_last (h : ∀ c ∈ cs.getLast?, isSpace c = false) : trimEnd cs = cs := by
  rw [trimEnd, dropWhile_of_head (by rwa [List.head?_reverse]), List.reverse_reverse]

/-! ### What trimming leaves -/

/-- The characters of a text are white space, what trimming leaves, and white space again. -/
theorem exists_eq_trim (cs : List Char) :
    ∃ lead trail, Blank lead ∧ Blank trail ∧ cs = lead ++ trim cs ++ trail := by
  refine ⟨cs.takeWhile isSpace, (cs.dropWhile isSpace).rtakeWhile isSpace,
    fun c hc => List.mem_takeWhile_imp hc, fun c hc => List.mem_rtakeWhile_imp hc, ?_⟩
  rw [trim, trimEnd_eq_rdropWhile, List.append_assoc, List.rdropWhile_append_rtakeWhile,
    List.takeWhile_append_dropWhile]

theorem head?_trim (cs : List Char) : ∀ c ∈ (trim cs).head?, isSpace c = false := by
  intro c hc
  obtain ⟨rest, hrest⟩ := List.rdropWhile_prefix isSpace (cs.dropWhile isSpace)
  obtain ⟨tail, htail⟩ := List.head?_eq_some_iff.mp (Option.mem_def.mp hc)
  rw [← trimEnd_eq_rdropWhile, ← trim, htail] at hrest
  have hhead : (cs.dropWhile isSpace).head? = some c := by rw [← hrest]; rfl
  have := List.head?_dropWhile_not isSpace cs
  rw [hhead] at this
  exact this

theorem getLast?_trim (cs : List Char) : ∀ c ∈ (trim cs).getLast?, isSpace c = false := by
  intro c hc
  rw [trim, trimEnd, List.getLast?_reverse] at hc
  have := List.head?_dropWhile_not isSpace (cs.dropWhile isSpace).reverse
  rw [Option.mem_def.mp hc] at this
  exact this

theorem strips_trim (cs : List Char) : Strips cs (trim cs) :=
  ⟨exists_eq_trim cs, head?_trim cs, getLast?_trim cs⟩

/-- **Trimming is removing the surrounding white space.** -/
theorem trim_eq_iff : trim cs = core ↔ Strips cs core := by
  refine ⟨fun h => h ▸ strips_trim cs, fun ⟨⟨lead, trail, hlead, htrail, heq⟩, hhead, hlast⟩ => ?_⟩
  rw [heq, trim, List.append_assoc, dropWhile_blank_append hlead]
  cases core with
  | nil =>
      rw [List.nil_append, List.dropWhile_eq_nil_iff.mpr htrail]
      rfl
  | cons c core =>
      rw [dropWhile_of_head (by exact hhead), trimEnd_append_blank htrail, trimEnd_of_last hlast]

/-! ### Endings -/

theorem before?_eq_some (h : before? ending cs = some front) : cs = front ++ ending := by
  rw [before?] at h
  split at h
  · rename_i hsuffix
    rw [← Option.some.inj h]
    obtain ⟨front, rfl⟩ := hsuffix
    rw [List.length_append, Nat.add_sub_cancel, List.take_left]
  · exact nomatch h

theorem before?_append (ending front : List Char) :
    before? ending (front ++ ending) = some front := by
  rw [before?, if_pos (List.suffix_append front ending), List.length_append, Nat.add_sub_cancel,
    List.take_left]

theorem before?_of_notMem {c : Char} (hending : c ∈ ending) (hcs : c ∉ cs) :
    before? ending cs = none :=
  if_neg fun h => hcs (h.subset hending)

end LedgerIndex.Text
