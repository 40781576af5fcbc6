import Mathlib.Logic.Basic
import LedgerIndex.Proofs.Url.Names

/-! # The segments of a path

No encoded segment has a character that ends a segment or a path (`Url.whole_encodeSegment`), so
that the text of a path falls into its segments (`Url.splitAt_pathText`), and paths of one text are
equal (`Url.eq_of_pathText_eq`).  Every URL with a special scheme has a path of segments
(`Url.cannotBeABase_of_parse`). -/

namespace LedgerIndex

namespace Percent

/-- What is written is a percent sign, a digit, or a character that is not special. -/
theorem mem_encode {special : Char → Bool} {c : Char} {cs : List Char}
    (h : c ∈ encode special cs) :
    c = '%' ∨ (∃ value < 16, c = digit value) ∨ special c = false := by
  obtain ⟨d, -, hd⟩ := List.mem_flatMap.mp h
  unfold encodeChar at hd
  split at hd
  · obtain ⟨byte, -, hbyte⟩ := List.mem_flatMap.mp hd
    simp only [encodeByte, List.mem_cons, List.not_mem_nil, or_false] at hbyte
    rcases hbyte with hpercent | hhigh | hlow
    · exact .inl hpercent
    · exact .inr (.inl ⟨_, Bytes.high_lt byte, hhigh⟩)
    · exact .inr (.inl ⟨_, Bytes.low_lt byte, hlow⟩)
  · rename_i hplain
    obtain rfl := List.mem_singleton.mp hd
    rw [Bool.or_eq_true, not_or] at hplain
    exact .inr (.inr (Bool.eq_false_iff.mpr hplain.2))

theorem encode_eq_self {special : Char → Bool} {cs : List Char}
    (h : ∀ c ∈ cs, encodeChar special c = [c]) : encode special cs = cs := by
  induction cs with
  | nil => rfl
  | cons c cs ih =>
      obtain ⟨hc, hcs⟩ := List.forall_mem_cons.mp h
      have hrest := ih hcs
      unfold encode at hrest ⊢
      rw [List.flatMap_cons, hc, hrest]
      rfl

end Percent

namespace Host

variable {separator : Char} {cs : List Char}

theorem splitAt_cons_self (separator : Char) (cs : List Char) :
    splitAt separator (separator :: cs) = [] :: splitAt separator cs :=
  if_pos rfl

/-- What stands in front of the first separator belongs to the first part. -/
theorem splitAt_append {part first : List Char} {rest : List (List Char)} (h : separator ∉ part)
    (hcs : splitAt separator cs = first :: rest) :
    splitAt separator (part ++ cs) = (part ++ first) :: rest := by
  induction part with
  | nil => exact hcs
  | cons c part ih =>
      obtain ⟨hc, hpart⟩ := not_or.mp (mt List.mem_cons.mpr h)
      have hrest := ih hpart
      unfold splitAt at hrest ⊢
      rw [List.cons_append, List.foldr_cons, hrest, if_neg (Ne.symm hc)]
      rfl

end Host

namespace Url

variable {special : Bool} {a b : List String}

/-- A segment that is one in the text of a path as well: no character ends it. -/
def Whole (special : Bool) (segment : String) : Prop :=
  ∀ c ∈ segment.toList, endsAuthority special c = false

theorem not_ends_digit (special : Bool) {value : UInt8} (h : value < 16) :
    endsAuthority special (Percent.digit value) = false := by
  revert special
  exact Bytes.halfByte_cases
    (p := fun value => ∀ special, endsAuthority special (Percent.digit value) = false) (by decide) h

theorem segmentSet_of_ends {c : Char} (h : endsAuthority special c = true) :
    segmentSet special c = true := by
  simp only [endsAuthority, Bool.or_eq_true, beq_iff_eq, Bool.and_eq_true] at h
  obtain ((rfl | rfl) | rfl) | ⟨rfl, rfl⟩ := h
  · cases special <;> decide
  · cases special <;> decide
  · cases special <;> decide
  · decide

/-- **An encoded segment is whole**, whatever the name is. -/
theorem whole_encodeSegment (special : Bool) (segment : String) :
    Whole special (encodeSegment special segment) := by
  intro c hc
  rw [encodeSegment_eq, String.toList_ofList] at hc
  rcases Percent.mem_encode hc with rfl | ⟨value, hvalue, rfl⟩ | hplain
  · cases special <;> decide
  · exact not_ends_digit special hvalue
  · refine Bool.eq_false_iff.mpr fun hends => ?_
    rw [segmentSet_of_ends hends] at hplain
    cases hplain

theorem Whole.slash_notMem {segment : String} (h : Whole special segment) :
    '/' ∉ segment.toList := by
  intro hmem
  cases h '/' hmem

/-- **The text of a path falls into its segments**, if they are whole. -/
theorem splitAt_pathText (h : ∀ s ∈ a, Whole special s) :
    Host.splitAt '/' (pathText (.segments a)).toList = [] :: a.map String.toList := by
  induction a with
  | nil => rfl
  | cons segment segments ih =>
      obtain ⟨hsegment, hsegments⟩ := List.forall_mem_cons.mp h
      have htext : (pathText (.segments (segment :: segments))).toList
          = '/' :: (segment.toList ++ (pathText (.segments segments)).toList) := by
        rw [pathText_cons, String.toList_append, String.toList_append]
        rfl
      rw [htext, Host.splitAt_cons_self, Host.splitAt_append hsegment.slash_notMem (ih hsegments),
        List.append_nil]
      rfl

theorem eq_of_pathText_eq (ha : ∀ s ∈ a, Whole special s) (hb : ∀ s ∈ b, Whole special s)
    (h : pathText (.segments a) = pathText (.segments b)) : a = b := by
  have hparts := splitAt_pathText ha
  rw [h, splitAt_pathText hb] at hparts
  exact (List.map_inj_right fun _ _ => String.toList_inj.mp).mp (List.cons.inj hparts).2.symm

/-! ### Bases -/

/-- The segments of a path without an empty one at its end. -/
def withoutEmptyLast (segments : List String) : List String :=
  if segments.getLast? = some "" then segments.dropLast else segments

/-- Further segments go behind all of a base but an empty last segment.  Of two empty segments
neither stays. -/
theorem root_dropEmptyLast (segments : List String) :
    root (dropEmptyLast segments)
      = if segments = ["", ""] then [] else withoutEmptyLast segments := by
  match segments with
  | [] => rfl
  | [only] => simp [root, dropEmptyLast, withoutEmptyLast]
  | first :: second :: rest =>
      by_cases hlast : (first :: second :: rest).getLast? = some ""
      · have hdrop : dropEmptyLast (first :: second :: rest) = (first :: second :: rest).dropLast :=
          if_pos ⟨by simp, hlast⟩
        have hpair : (first :: second :: rest).dropLast = [""] ↔
            first :: second :: rest = ["", ""] := by
          cases rest <;> simp_all
        rw [hdrop, withoutEmptyLast, if_pos hlast, root]
        simp only [hpair]
      · have hkeep : dropEmptyLast (first :: second :: rest) = first :: second :: rest :=
          if_neg fun h => hlast h.2
        have hpair : first :: second :: rest ≠ ["", ""] := by
          rintro heq
          exact hlast (heq ▸ rfl)
        rw [hkeep, withoutEmptyLast, if_neg hlast, if_neg hpair, root, if_neg (by simp)]

theorem exists_of_bind_ok {α : Type} {part : Except UrlError α} {assembled : α → Url} {url : Url}
    (h : (part >>= fun a => .ok (assembled a)) = .ok url) : ∃ a, assembled a = url := by
  cases part with
  | error e => cases h
  | ok a => exact ⟨a, Except.ok.inj h⟩

theorem readHierarchical_path {scheme : String} {cs : List Char} {url : Url}
    (h : readHierarchical scheme cs = .ok url) : ∃ list, url.path = .segments list := by
  obtain ⟨authority, rfl⟩ := exists_of_bind_ok h
  exact ⟨_, rfl⟩

theorem readFile_path {cs : List Char} {url : Url} (h : readFile cs = .ok url) :
    ∃ list, url.path = .segments list := by
  dsimp only [readFile] at h
  rcases ite_eq_iff.mp h with ⟨-, h⟩ | ⟨-, h⟩
  · obtain ⟨host, rfl⟩ := exists_of_bind_ok h
    exact ⟨_, rfl⟩
  · obtain ⟨host, rfl⟩ := exists_of_bind_ok h
    exact ⟨_, rfl⟩

theorem readPlain_scheme {scheme : String} {cs : List Char} {url : Url}
    (h : readPlain scheme cs = .ok url) : url.scheme = scheme := by
  unfold readPlain at h
  split at h
  · obtain ⟨authority, rfl⟩ := exists_of_bind_ok h
    rfl
  · obtain rfl := Except.ok.inj h
    rfl
  · obtain rfl := Except.ok.inj h
    rfl

/-- **A URL with a special scheme can be the base of others.** -/
theorem cannotBeABase_of_parse {text : String} {url : Url} (h : parse text = .ok url)
    (hspecial : isSpecialScheme url.scheme = true) : url.cannotBeABase = false := by
  have hpath : ∃ list, url.path = .segments list := by
    unfold parse at h
    split at h
    · cases h
    · split at h
      · exact readFile_path h
      · split at h
        · exact readHierarchical_path h
        · rename_i hplain
          rw [readPlain_scheme h] at hspecial
          exact absurd hspecial hplain
  obtain ⟨list, hlist⟩ := hpath
  unfold cannotBeABase
  rw [hlist]

end Url

end LedgerIndex
