import LedgerIndex.Proofs.Url.Segments

/-! # Names that a path keeps

A name without tabs and line ends that is no point or double point is a segment of its own in any
path, the empty name included, and reads back from it (`Url.decode_encodeSegment`).  No such name is
encoded as a point or double point, since these read back as points only. -/

namespace LedgerIndex.Url

/-- A name that stands in a path as it is. -/
structure Plain (name : String) : Prop where
  point : name ≠ "."
  doublePoint : name ≠ ".."
  visible : ∀ c ∈ name.toList, c ≠ '\t' ∧ c ≠ '\n' ∧ c ≠ '\r'

instance (name : String) : Decidable (Plain name) :=
  decidable_of_iff (name ≠ "." ∧ name ≠ ".." ∧
      name.toList.all fun c => c ≠ '\t' ∧ c ≠ '\n' ∧ c ≠ '\r')
    ⟨fun h => ⟨h.1, h.2.1, by simpa using h.2.2⟩,
      fun h => ⟨h.point, h.doublePoint, by simpa using h.visible⟩⟩

variable {name : String} {special : Bool}

theorem Plain.visible_eq (h : Plain name) : Url.visible name = name.toList := by
  unfold Url.visible
  rw [List.filter_eq_self]
  intro c hc
  obtain ⟨htab, hfeed, hreturn⟩ := h.visible c hc
  simp [htab, hfeed, hreturn]

theorem Plain.decode_encodeSegment (h : Plain name) :
    Percent.decode (encodeSegment special name).toList = Utf8.encode name := by
  rw [encodeSegment_eq, String.toList_ofList, Percent.decode_encode (segmentSet_percent special),
    h.visible_eq]
  rfl

theorem eq_of_encode_eq {a b : String} (h : Utf8.encode a = Utf8.encode b) : a = b := by
  have htexts := congrArg Utf8.decode? h
  rw [Utf8.decode?_encode, Utf8.decode?_encode] at htexts
  exact Option.some.inj htexts

theorem decode_of_isDoubleDot {segment : String} (h : isDoubleDot segment = true) :
    Percent.decode segment.toList = Utf8.encode ".." := by
  simp only [isDoubleDot, List.mem_cons, List.not_mem_nil, or_false, decide_eq_true_eq] at h
  rcases h with rfl | rfl | rfl | rfl | rfl | rfl | rfl | rfl | rfl <;> decide

theorem decode_of_isSingleDot {segment : String} (h : isSingleDot segment = true) :
    Percent.decode segment.toList = Utf8.encode "." := by
  simp only [isSingleDot, List.mem_cons, List.not_mem_nil, or_false, decide_eq_true_eq] at h
  rcases h with rfl | rfl | rfl <;> decide

theorem Plain.not_isDoubleDot (h : Plain name) :
    ¬ isDoubleDot (encodeSegment special name) = true := by
  intro hdots
  have hread := decode_of_isDoubleDot hdots
  rw [h.decode_encodeSegment] at hread
  exact h.doublePoint (eq_of_encode_eq hread)

theorem Plain.not_isSingleDot (h : Plain name) :
    ¬ isSingleDot (encodeSegment special name) = true := by
  intro hdots
  have hread := decode_of_isSingleDot hdots
  rw [h.decode_encodeSegment] at hread
  exact h.point (eq_of_encode_eq hread)

/-! ### Plain names behind a base -/

theorem Plain.pushSegment (h : Plain name) (segments : List String) :
    pushSegment special segments name = addSegment segments (encodeSegment special name) := by
  unfold Url.pushSegment
  have hname : ¬ (name = "." ∨ name = "..") := by
    rintro (hpoint | hpoints)
    · exact h.point hpoint
    · exact h.doublePoint hpoints
  rw [if_neg hname]
  dsimp only
  rw [if_neg h.not_isDoubleDot, if_neg h.not_isSingleDot]

theorem foldl_pushSegment_plain {names : List String} (h : ∀ name ∈ names, Plain name)
    {list : List String} (hnil : list ≠ []) (hempty : list ≠ [""]) :
    names.foldl (Url.pushSegment special) list = list ++ names.map (encodeSegment special) := by
  induction names generalizing list with
  | nil => simp
  | cons name names ih =>
      obtain ⟨hname, hnames⟩ := List.forall_mem_cons.mp h
      have hadd : addSegment list (encodeSegment special name)
          = list ++ [encodeSegment special name] := if_neg hempty
      have hlong : list ++ [encodeSegment special name] ≠ [""] := by
        intro heq
        have hlength := congrArg List.length heq
        rw [List.length_append] at hlength
        have hpos := List.length_pos_iff.mpr hnil
        simp only [List.length_cons, List.length_nil] at hlength
        omega
      rw [List.foldl_cons, hname.pushSegment, hadd, ih hnames (by simp) hlong]
      simp

/-- **The URL of plain names under a base**, the first of which is not empty. -/
theorem withSegments?_plain {url : Url} {list : List String} (hpath : url.path = .segments list)
    {first : String} {names : List String} (hfirst : Plain first)
    (hkept : encodeSegment (isSpecialScheme url.scheme) first ≠ "")
    (h : ∀ name ∈ names, Plain name) :
    url.withSegments? (first :: names) = some (url.withPath (root (dropEmptyLast list)
      ++ (first :: names).map (encodeSegment (isSpecialScheme url.scheme)))) := by
  unfold withSegments?
  rw [hpath]
  dsimp only
  have hbegun : root (dropEmptyLast list)
      ++ [encodeSegment (isSpecialScheme url.scheme) first] ≠ [""] := by
    intro heq
    have hlast := congrArg List.getLast? heq
    rw [List.getLast?_concat] at hlast
    exact hkept (Option.some.inj hlast)
  rw [List.foldl_cons, hfirst.pushSegment, addSegment_eq,
    foldl_pushSegment_plain h (by simp) hbegun, List.append_assoc]
  rfl

end LedgerIndex.Url
