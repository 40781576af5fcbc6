import LedgerIndex.Dashboard.Template
import LedgerIndex.Proofs.Text.Search
import Mathlib.Data.List.Nodup

/-! # Templates and their placeholders

The order of replacement is a total order on placeholders, and sorting by it is stable.  So what is
rendered depends, for each placeholder, on its own substitutions only (`render_congr`), and not on
the order in which the substitutions of different placeholders are given.

A template is made of pieces, literal texts and placeholders.  As long as placeholders occur within
pieces only, whichever of these were replaced, the longest placeholder that is left occurs as a
whole piece or not at all; so a placeholder that contains another one is never replaced in part
(`exact_of_separated`), and rendering replaces the pieces one by one. -/

namespace LedgerIndex.Template

/-! ### The order of replacement -/

namespace Substitution

variable {s t : Substitution}

theorem before_iff : s.before t = true ↔
    t.placeholder.utf8ByteSize < s.placeholder.utf8ByteSize ∨
      t.placeholder.utf8ByteSize = s.placeholder.utf8ByteSize ∧ s.placeholder ≤ t.placeholder := by
  simp [before]

theorem before_trans (s t u : Substitution) (hst : s.before t = true) (htu : t.before u = true) :
    s.before u = true := by
  rw [before_iff] at *
  rcases hst with hst | ⟨hst, hle⟩ <;> rcases htu with htu | ⟨htu, hle'⟩
  · exact .inl (by omega)
  · exact .inl (by omega)
  · exact .inl (by omega)
  · exact .inr ⟨by omega, String.le_trans hle hle'⟩

theorem before_total (s t : Substitution) : (s.before t || t.before s) = true := by
  rw [Bool.or_eq_true, before_iff, before_iff]
  rcases Nat.lt_trichotomy t.placeholder.utf8ByteSize s.placeholder.utf8ByteSize with h | h | h
  · exact .inl (.inl h)
  · rcases String.le_total s.placeholder t.placeholder with hle | hle
    · exact .inl (.inr ⟨h, hle⟩)
    · exact .inr (.inr ⟨h.symm, hle⟩)
  · exact .inr (.inl h)

theorem placeholder_eq_of_before (hst : s.before t = true) (hts : t.before s = true) :
    s.placeholder = t.placeholder := by
  rw [before_iff] at *
  rcases hst with hst | ⟨hst, hle⟩ <;> rcases hts with hts | ⟨hts, hle'⟩
  · omega
  · omega
  · omega
  · exact String.le_antisymm hle hle'

theorem size_le_of_before (h : s.before t = true) :
    t.placeholder.utf8ByteSize ≤ s.placeholder.utf8ByteSize := by
  rw [before_iff] at h
  omega

end Substitution

/-- The substitutions of one placeholder, in order. -/
def entriesOf (placeholder : String) (substitutions : List Substitution) : List Substitution :=
  substitutions.filter (·.placeholder = placeholder)

variable {placeholder template : String} {s : Substitution} {l l' : List Substitution}

theorem mem_entriesOf : s ∈ entriesOf placeholder l ↔ s ∈ l ∧ s.placeholder = placeholder := by
  simp [entriesOf]

theorem entriesOf_cons_self : entriesOf s.placeholder (s :: l) = s :: entriesOf s.placeholder l :=
  List.filter_cons_of_pos (decide_eq_true rfl)

theorem mem_ordered : s ∈ ordered l ↔ s ∈ l ∧ s.placeholder ≠ "" := by
  simp [ordered]

theorem pairwise_ordered (l : List Substitution) :
    (ordered l).Pairwise fun s t => s.before t = true :=
  (List.pairwise_mergeSort Substitution.before_trans Substitution.before_total l).filter _

theorem ordered_of_pairwise (h : l.Pairwise fun s t => s.before t = true) :
    ordered l = l.filter (·.placeholder != "") := by
  rw [ordered, List.mergeSort_of_pairwise h]

theorem entriesOf_ordered (h : placeholder ≠ "") (l : List Substitution) :
    entriesOf placeholder (ordered l) = entriesOf placeholder l := by
  have hsame : (entriesOf placeholder l).Pairwise fun s t => s.before t = true := by
    refine List.pairwise_of_forall_mem_list fun s hs t ht => ?_
    rw [Substitution.before_iff, (mem_entriesOf.mp hs).2, (mem_entriesOf.mp ht).2]
    exact .inr ⟨rfl, String.le_refl _⟩
  have hsub : (entriesOf placeholder l).Sublist (l.mergeSort Substitution.before) :=
    List.sublist_mergeSort Substitution.before_trans Substitution.before_total hsame
      List.filter_sublist
  have hentries := hsub.filter (·.placeholder = placeholder)
  simp only [entriesOf, List.filter_filter, Bool.and_self] at hentries
  have hperm := (List.mergeSort_perm l Substitution.before).filter (·.placeholder = placeholder)
  have hsorted := hentries.eq_of_length hperm.length_eq.symm
  rw [entriesOf, entriesOf, hsorted, ordered, List.filter_filter]
  refine List.filter_congr fun s _ => ?_
  by_cases hs : s.placeholder = placeholder
  · simp [hs, h]
  · simp [hs]

/-- A list in the order of replacement is known by the substitutions of each placeholder. -/
theorem eq_of_entriesOf (hl : l.Pairwise fun s t => s.before t = true)
    (hl' : l'.Pairwise fun s t => s.before t = true)
    (h : ∀ placeholder, entriesOf placeholder l = entriesOf placeholder l') : l = l' := by
  induction l generalizing l' with
  | nil =>
      cases l' with
      | nil => rfl
      | cons t l' => exact absurd (h t.placeholder) (by simp [entriesOf])
  | cons s l ih =>
      cases l' with
      | nil => exact absurd (h s.placeholder) (by simp [entriesOf])
      | cons t l' =>
          obtain ⟨hs, hrest⟩ := List.pairwise_cons.mp hl
          obtain ⟨ht, hrest'⟩ := List.pairwise_cons.mp hl'
          have hmem : s ∈ t :: l' :=
            (mem_entriesOf.mp (h s.placeholder ▸ mem_entriesOf.mpr ⟨List.mem_cons_self, rfl⟩)).1
          have hmem' : t ∈ s :: l :=
            (mem_entriesOf.mp (h t.placeholder ▸ mem_entriesOf.mpr ⟨List.mem_cons_self, rfl⟩)).1
          have hplaceholder : s.placeholder = t.placeholder := by
            rcases List.mem_cons.mp hmem with rfl | hmem
            · rfl
            rcases List.mem_cons.mp hmem' with rfl | hmem'
            · rfl
            exact Substitution.placeholder_eq_of_before (hs t hmem') (ht s hmem)
          have hfirst := h s.placeholder
          rw [entriesOf_cons_self, hplaceholder, entriesOf_cons_self] at hfirst
          obtain rfl := (List.cons.inj hfirst).1
          refine congrArg (s :: ·) (ih hrest hrest' fun placeholder => ?_)
          have hentries := h placeholder
          unfold entriesOf at hentries ⊢
          by_cases hs : s.placeholder = placeholder
          · simpa [hs] using hentries
          · simpa [hs] using hentries

/-- **What is rendered** depends on the substitutions of each placeholder. -/
theorem render_congr (template : String)
    (h : ∀ placeholder ≠ "", entriesOf placeholder l = entriesOf placeholder l') :
    render template l = render template l' := by
  have hordered : ordered l = ordered l' := by
    refine eq_of_entriesOf (pairwise_ordered l) (pairwise_ordered l') fun placeholder => ?_
    by_cases hplaceholder : placeholder = ""
    · have hnone : ∀ l, entriesOf "" (ordered l) = [] := fun l =>
        List.filter_eq_nil_iff.mpr fun s hs =>
          fun heq => (mem_ordered.mp hs).2 (of_decide_eq_true heq)
      rw [hplaceholder, hnone, hnone]
    · rw [entriesOf_ordered hplaceholder, entriesOf_ordered hplaceholder, h _ hplaceholder]
  rw [render, render, hordered]

/-- Where placeholders are different each has one substitution at most. -/
theorem entriesOf_perm (hperm : l.Perm l') (hdistinct : (l.map (·.placeholder)).Nodup)
    (placeholder : String) : entriesOf placeholder l = entriesOf placeholder l' := by
  have hentries : (entriesOf placeholder l).Perm (entriesOf placeholder l') := hperm.filter _
  have hnodup : ((entriesOf placeholder l).map (·.placeholder)).Nodup :=
    hdistinct.sublist (List.filter_sublist.map _)
  have hsame : ∀ s ∈ entriesOf placeholder l, s.placeholder = placeholder := fun s hs =>
    (mem_entriesOf.mp hs).2
  cases hl : entriesOf placeholder l with
  | nil => exact (List.nil_perm.mp (hl ▸ hentries)).symm
  | cons s rest =>
      cases rest with
      | nil => exact (List.perm_singleton.mp (hl ▸ hentries).symm).symm
      | cons t rest =>
          rw [hl] at hnodup hsame
          have hs := hsame s (by simp)
          have ht := hsame t (by simp)
          simp [hs, ht] at hnodup

/-- **Rendering does not depend on the order of the substitutions** of different placeholders, nor
on substitutions of the empty one.  Of the substitutions of one placeholder only the order among
themselves matters. -/
theorem render_order_free (template : String) :
    (∀ l l' : List Substitution, l.Perm l' → (l.map (·.placeholder)).Nodup →
      render template l = render template l') ∧
    (∀ l : List Substitution, render template (l.filter (·.placeholder ≠ ""))
      = render template l) ∧
    ∀ l l' : List Substitution,
      (∀ placeholder ≠ "", entriesOf placeholder l = entriesOf placeholder l') →
      render template l = render template l' := by
  refine ⟨fun l l' hperm hdistinct => ?_, fun l => ?_, fun l l' => render_congr template⟩
  · exact render_congr template fun placeholder _ => entriesOf_perm hperm hdistinct placeholder
  · refine render_congr template fun placeholder hplaceholder => ?_
    rw [entriesOf, entriesOf, List.filter_filter]
    refine List.filter_congr fun s _ => ?_
    by_cases hs : s.placeholder = placeholder
    · simp [hs, hplaceholder]
    · simp [hs]

/-- Two substitutions that feed a third, in two orders, and two of one placeholder, in two
orders. -/
theorem render_order_free_feeding :
    let feeding : List Substitution := [⟨"A", "x"⟩, ⟨"AB", "A"⟩, ⟨"", "y"⟩, ⟨"C", "AB"⟩]
    let ones : List Substitution := [⟨"A", "1"⟩]
    let twos : List Substitution := [⟨"A", "2"⟩]
    render "AB C" feeding = render "AB C" feeding.reverse ∧
      render "AB C" (feeding.filter (·.placeholder ≠ "")) = render "AB C" feeding ∧
      render "AB" (ones ++ ⟨"B", "A"⟩ :: twos) = render "AB" (⟨"B", "A"⟩ :: ones ++ twos) ∧
      render "A" (ones ++ twos) ≠ render "A" (twos ++ ones) := by
  intro feeding ones twos
  obtain ⟨hperm, hempty, -⟩ := render_order_free "AB C"
  obtain ⟨-, -, hentries⟩ := render_order_free "AB"
  refine ⟨hperm _ _ (List.reverse_perm feeding).symm (by decide), hempty feeding, ?_, ?_⟩
  · refine hentries _ _ fun placeholder _ => ?_
    by_cases hb : "B" = placeholder
    · subst hb
      decide
    · simp [entriesOf, ones, twos, List.filter_cons, hb]
  · rw [render, render, ordered_of_pairwise (by decide +kernel),
      ordered_of_pairwise (by decide +kernel)]
    decide +kernel

/-! ### Pieces -/

inductive Piece where
  | literal (text : String)
  | slot (s : Substitution)
deriving DecidableEq

/-- What stands in a piece, which may have been replaced. -/
def Piece.chars (replaced : Bool) : Piece → List Char
  | literal text => text.toList
  | slot s => if replaced then s.value.toList else s.placeholder.toList

/-- The text of some pieces, of which those that are marked have been replaced. -/
def written (marked : List (Piece × Bool)) : List Char :=
  marked.flatMap fun (piece, replaced) => piece.chars replaced

/-- The placeholder of `q`, where it stands after `before`, lies within one placeholder that has not
been replaced. -/
def Inside (q : Substitution) (marked : List (Piece × Bool)) (before : List Char) : Prop :=
  ∃ front s back x y, marked = front ++ (.slot s, false) :: back ∧ before = written front ++ x ∧
    s.placeholder.toList = x ++ q.placeholder.toList ++ y

/-- Whichever pieces have been replaced, placeholders occur only within placeholders that have
not. -/
def Separated (substitutions : List Substitution) (pieces : List Piece) : Prop :=
  ∀ marked : List (Piece × Bool), marked.map Prod.fst = pieces → ∀ q ∈ substitutions,
    ∀ before after, written marked = before ++ q.placeholder.toList ++ after →
      Inside q marked before

variable {q : Substitution} {substitutions done rest : List Substitution} {pieces : List Piece}
  {marked : List (Piece × Bool)}

theorem written_cons (x : Piece × Bool) (marked : List (Piece × Bool)) :
    written (x :: marked) = x.1.chars x.2 ++ written marked := List.flatMap_cons

/-- Replaces a piece of a placeholder. -/
def Piece.fill (q : Substitution) : Piece × Bool → Piece × Bool
  | (literal text, replaced) => (literal text, replaced)
  | (slot s, replaced) => (slot s, replaced || s = q)

theorem chars_fill {x : Piece × Bool} (h : x ≠ (.slot q, false)) :
    (Piece.fill q x).1.chars (Piece.fill q x).2 = x.1.chars x.2 := by
  obtain ⟨piece, replaced⟩ := x
  cases piece with
  | literal text => rfl
  | slot s =>
      cases replaced with
      | true => rfl
      | false =>
          have hne : s ≠ q := fun heq => h (heq ▸ rfl)
          simp [Piece.fill, Piece.chars, hne]

/-- Each occurrence of the placeholder of `q` is a piece. -/
def Exact (q : Substitution) (marked : List (Piece × Bool)) : Prop :=
  ∀ before after, written marked = before ++ q.placeholder.toList ++ after →
    ∃ front back, marked = front ++ (.slot q, false) :: back ∧ before = written front

theorem toList_ne_nil {s : String} (h : s ≠ "") : s.toList ≠ [] := by
  simpa using h

theorem Exact.behind {x : Piece × Bool} (h : Exact q (x :: marked)) {before after : List Char}
    (hwritten : written (x :: marked) = before ++ q.placeholder.toList ++ after)
    (hx : x ≠ (.slot q, false) ∨ before ≠ []) :
    ∃ front back, marked = front ++ (.slot q, false) :: back ∧
      before = x.1.chars x.2 ++ written front := by
  obtain ⟨front, back, hmarked, hbefore⟩ := h before after hwritten
  cases front with
  | nil =>
      obtain ⟨rfl, -⟩ := List.cons.inj hmarked
      rcases hx with hx | hne
      · exact absurd rfl hx
      · exact absurd hbefore hne
  | cons first front =>
      obtain ⟨rfl, rfl⟩ := List.cons.inj hmarked
      exact ⟨front, back, rfl, hbefore.trans (written_cons ..)⟩

theorem Exact.tail {x : Piece × Bool} (h : Exact q (x :: marked)) (hq : q.placeholder ≠ "") :
    Exact q marked := by
  intro before after hwritten
  have hwhole : written (x :: marked)
      = x.1.chars x.2 ++ before ++ q.placeholder.toList ++ after := by
    rw [written_cons, hwritten]
    simp only [List.append_assoc]
  by_cases hx : x = (.slot q, false)
  · have hne : x.1.chars x.2 ++ before ≠ [] := by
      rw [hx]
      exact List.append_ne_nil_of_left_ne_nil (toList_ne_nil hq) before
    obtain ⟨front, back, hmarked, hbefore⟩ := h.behind hwhole (.inr hne)
    exact ⟨front, back, hmarked, List.append_cancel_left hbefore⟩
  · obtain ⟨front, back, hmarked, hbefore⟩ := h.behind hwhole (.inl hx)
    exact ⟨front, back, hmarked, List.append_cancel_left hbefore⟩

theorem replaceOne_written (hq : q.placeholder ≠ "") (h : Exact q marked) :
    replaceOne (written marked) q = written (marked.map (Piece.fill q)) := by
  have hpattern := toList_ne_nil hq
  induction marked with
  | nil => rfl
  | cons x marked ih =>
      have hrest := ih (h.tail hq)
      unfold replaceOne at hrest ⊢
      rw [List.map_cons, written_cons, written_cons, ← hrest]
      by_cases hx : x = (.slot q, false)
      · have hvalue : (Piece.fill q x).1.chars (Piece.fill q x).2 = q.value.toList := by
          simp [hx, Piece.fill, Piece.chars]
        rw [hvalue, hx]
        exact Search.replace_occurrence hpattern _
      · rw [chars_fill hx]
        refine Search.replace_gap hpattern fun before after hwritten => ?_
        obtain ⟨front, back, -, rfl⟩ := h.behind ((written_cons ..).trans hwritten) (.inl hx)
        rw [List.length_append]
        exact Nat.le_add_right ..

/-! ### One placeholder after the other -/

/-- The pieces, of which those of some substitutions have been replaced. -/
def filledBy (done : List Substitution) (pieces : List Piece) : List (Piece × Bool) :=
  pieces.map fun
    | .literal text => (.literal text, false)
    | .slot s => (.slot s, s ∈ done)

theorem fill_filledBy (q : Substitution) (done : List Substitution) (pieces : List Piece) :
    (filledBy done pieces).map (Piece.fill q) = filledBy (done ++ [q]) pieces := by
  rw [filledBy, filledBy, List.map_map]
  refine List.map_congr_left fun piece _ => ?_
  cases piece <;> simp [Piece.fill]

theorem written_filledBy {replaced : Bool}
    (h : ∀ s, .slot s ∈ pieces → decide (s ∈ done) = replaced) :
    written (filledBy done pieces) = written (pieces.map (·, replaced)) := by
  rw [written, written, filledBy, List.flatMap_map, List.flatMap_map]
  refine List.flatMap_congr fun piece hpiece => ?_
  cases piece with
  | literal text => rfl
  | slot s => simp only [h s hpiece]

/-- **The longest placeholder that is left** occurs as a whole piece or not at all. -/
theorem exact_of_separated (hseparated : Separated substitutions pieces)
    (hdistinct : (substitutions.map (·.placeholder)).Nodup)
    (hnonempty : ∀ s ∈ substitutions, s.placeholder ≠ "")
    (hpieces : ∀ s, .slot s ∈ pieces → s ∈ substitutions)
    (hordered : ordered substitutions = done ++ q :: rest) : Exact q (filledBy done pieces) := by
  have hq : q ∈ substitutions :=
    (mem_ordered.mp (hordered ▸ List.mem_append_right done List.mem_cons_self)).1
  have hmarked : (filledBy done pieces).map Prod.fst = pieces := by
    rw [filledBy, List.map_map]
    exact (List.map_congr_left fun piece _ => by cases piece <;> rfl).trans (List.map_id pieces)
  intro before after hwritten
  obtain ⟨front, s, back, x, y, hsplit, rfl, hs⟩ :=
    hseparated _ hmarked q hq before after hwritten
  obtain ⟨hslot, hdone⟩ : .slot s ∈ pieces ∧ s ∉ done := by
    have hmem : (.slot s, false) ∈ filledBy done pieces := by simp [hsplit]
    obtain ⟨piece, hpiece, heq⟩ := List.mem_map.mp hmem
    cases piece with
    | literal text => cases heq
    | slot t =>
        obtain ⟨hst, hfalse⟩ := Prod.mk.inj heq
        obtain rfl := Piece.slot.inj hst
        exact ⟨hpiece, of_decide_eq_false hfalse⟩
  have hleft : s ∈ q :: rest := by
    have hmem := mem_ordered.mpr ⟨hpieces s hslot, hnonempty s (hpieces s hslot)⟩
    rw [hordered] at hmem
    exact (List.mem_append.mp hmem).resolve_left hdone
  have hsize : s.placeholder.utf8ByteSize ≤ q.placeholder.utf8ByteSize := by
    rcases List.mem_cons.mp hleft with rfl | hrest
    · exact Nat.le_refl _
    · have hpairwise := pairwise_ordered substitutions
      rw [hordered] at hpairwise
      have hbehind := (List.pairwise_append.mp hpairwise).2.1
      exact Substitution.size_le_of_before ((List.pairwise_cons.mp hbehind).1 s hrest)
  have hwhole : s.placeholder = String.ofList x ++ q.placeholder ++ String.ofList y := by
    rw [← String.toList_inj, hs]
    simp
  rw [hwhole, String.utf8ByteSize_append, String.utf8ByteSize_append] at hsize
  obtain rfl : x = [] := by
    have hx : (String.ofList x).utf8ByteSize = 0 := by omega
    simpa using String.utf8ByteSize_eq_zero_iff.mp hx
  obtain rfl : y = [] := by
    have hy : (String.ofList y).utf8ByteSize = 0 := by omega
    simpa using String.utf8ByteSize_eq_zero_iff.mp hy
  have hplaceholder : s.placeholder = q.placeholder := by simpa using hwhole
  obtain rfl := List.inj_on_of_nodup_map hdistinct (hpieces s hslot) hq hplaceholder
  exact ⟨front, back, hsplit, List.append_nil _⟩

/-- **A placeholder is never replaced in part.** -/
theorem render_pieces (hnonempty : ∀ s ∈ substitutions, s.placeholder ≠ "")
    (hdistinct : (substitutions.map (·.placeholder)).Nodup)
    (hpieces : ∀ s, .slot s ∈ pieces → s ∈ substitutions)
    (hseparated : Separated substitutions pieces) :
    render (String.ofList (written (pieces.map (·, false)))) substitutions
      = String.ofList (written (pieces.map (·, true))) := by
  have hsteps : ∀ rest done, done ++ rest = ordered substitutions →
      rest.foldl replaceOne (written (filledBy done pieces))
        = written (filledBy (ordered substitutions) pieces) := by
    intro rest
    induction rest with
    | nil =>
        intro done hdone
        rw [← hdone, List.append_nil]
        rfl
    | cons q rest ih =>
        intro done hdone
        have hq : q.placeholder ≠ "" :=
          (mem_ordered.mp (hdone ▸ List.mem_append_right done List.mem_cons_self)).2
        have hexact := exact_of_separated hseparated hdistinct hnonempty hpieces hdone.symm
        rw [List.foldl_cons, replaceOne_written hq hexact, fill_filledBy]
        exact ih (done ++ [q]) ((List.append_assoc ..).trans hdone)
  have hall : ∀ s, .slot s ∈ pieces → decide (s ∈ ordered substitutions) = true := fun s hs =>
    decide_eq_true (mem_ordered.mpr ⟨hpieces s hs, hnonempty s (hpieces s hs)⟩)
  have hnone : ∀ s, .slot s ∈ pieces → decide (s ∈ ([] : List Substitution)) = false := fun _ _ =>
    decide_eq_false List.not_mem_nil
  rw [render, String.toList_ofList, ← written_filledBy hnone,
    hsteps (ordered substitutions) [] rfl, written_filledBy hall]

namespace Sample

def short : Substitution := ⟨"A", "1"⟩

/-- A placeholder that contains the other one. -/
def long : Substitution := ⟨"AB", "2"⟩

/-- A template in which the one placeholder stands within the other and beside it. -/
def nested : List Piece := [.slot long, .literal "-", .slot short]

theorem separated_nested : Separated [short, long] nested := by
  intro marked hmarked q hq before after hwritten
  obtain ⟨⟨_, b⟩, rest, rfl, rfl, hrest⟩ := List.map_eq_cons_iff.mp hmarked
  obtain ⟨⟨_, c⟩, rest, rfl, rfl, hlast⟩ := List.map_eq_cons_iff.mp hrest
  obtain ⟨⟨_, d⟩, rest, rfl, rfl, hnil⟩ := List.map_eq_cons_iff.mp hlast
  obtain rfl := List.map_eq_nil_iff.mp hnil
  have hqs : q = short ∨ q = long := by simpa using hq
  rcases hqs with rfl | rfl <;> cases b <;> cases d <;>
    simp [written, Piece.chars, short, long, List.cons_eq_append_iff] at hwritten
  case inl.false.false =>
      rcases hwritten with ⟨rfl, -⟩ | ⟨rfl, -⟩
      · exact ⟨[], long, _, [], ['B'], rfl, rfl, rfl⟩
      · exact ⟨[(.slot long, false), (.literal "-", c)], short, [], [], [], rfl, rfl, rfl⟩
  case inl.false.true =>
      obtain ⟨rfl, -⟩ := hwritten
      exact ⟨[], long, _, [], ['B'], rfl, rfl, rfl⟩
  case inl.true.false =>
      obtain ⟨rfl, -⟩ := hwritten
      exact ⟨[(.slot long, true), (.literal "-", c)], short, [], [], [], rfl, rfl, rfl⟩
  case inr.false.false =>
      obtain ⟨rfl, -⟩ := hwritten
      exact ⟨[], long, _, [], [], rfl, rfl, rfl⟩
  case inr.false.true =>
      obtain ⟨rfl, -⟩ := hwritten
      exact ⟨[], long, _, [], [], rfl, rfl, rfl⟩

end Sample

open Sample in
/-- The placeholder within the other one is not replaced, the one beside it is. -/
theorem render_pieces_nested :
    Separated [short, long] nested ∧
      String.ofList (written (nested.map (·, false))) = "AB-A" ∧
      render "AB-A" [short, long] = "2-1" := by
  have hrender := @render_pieces [short, long] nested (by decide) (by decide) (by simp [nested])
    separated_nested
  exact ⟨separated_nested, by decide, hrender⟩

end LedgerIndex.Template
