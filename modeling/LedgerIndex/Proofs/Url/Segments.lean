import LedgerIndex.Proofs.Text.Hex
import LedgerIndex.Proofs.Text.Utf8
import LedgerIndex.Url.Extend

/-! # Path segments tell names apart

Percent encoding reads back, as long as the percent sign itself is encoded
(`Percent.decode_encode`).  A name therefore has a path segment of its own, up to the tabs and line
ends that no segment keeps (`Url.encodeSegment_eq_iff`).  Behind a base a segment that does not
begin with a point stays as it is encoded (`Url.pushSegment_of_head`). -/

namespace LedgerIndex

namespace Percent

theorem digitValue?_digit {value : UInt8} (h : value < 16) :
    digitValue? (digit value) = some value :=
  Bytes.halfByte_cases (p := fun value => digitValue? (digit value) = some value) (by decide) h

theorem decode_encodeByte (byte : UInt8) (rest : List Char) :
    decode (encodeByte byte ++ rest) = byte :: decode rest := by
  simp only [encodeByte, List.cons_append, List.nil_append, decode,
    digitValue?_digit (Bytes.high_lt byte), digitValue?_digit (Bytes.low_lt byte), Bytes.halves]

theorem decode_flatMap_encodeByte (bytes : Bytes) (rest : List Char) :
    decode (bytes.flatMap encodeByte ++ rest) = bytes ++ decode rest := by
  induction bytes with
  | nil => rfl
  | cons byte bytes ih =>
      rw [List.flatMap_cons, List.append_assoc, decode_encodeByte, ih]
      rfl

theorem decode_cons_of_ne {c : Char} (h : c ≠ '%') (rest : List Char) :
    decode (c :: rest) = String.utf8EncodeChar c ++ decode rest := by
  rw [decode]
  rintro high low rest' rfl
  exact absurd rfl h

theorem decode_encodeChar {special : Char → Bool} (h : special '%' = true) (c : Char)
    (rest : List Char) :
    decode (encodeChar special c ++ rest) = String.utf8EncodeChar c ++ decode rest := by
  unfold encodeChar
  split
  · exact decode_flatMap_encodeByte (String.utf8EncodeChar c) rest
  · rename_i hplain
    refine decode_cons_of_ne ?_ rest
    rintro rfl
    exact hplain (by rw [h, Bool.or_true])

/-- **Percent encoding reads back.** -/
theorem decode_encode {special : Char → Bool} (h : special '%' = true) (cs : List Char) :
    decode (encode special cs) = cs.flatMap String.utf8EncodeChar := by
  induction cs with
  | nil => rfl
  | cons c cs ih =>
      rw [List.flatMap_cons, ← ih, ← decode_encodeChar h]
      rfl

theorem encode_injective {special : Char → Bool} (h : special '%' = true) {a b : List Char}
    (heq : encode special a = encode special b) : a = b := by
  have hbytes : Utf8.encode (String.ofList a) = Utf8.encode (String.ofList b) := by
    have hdecoded := congrArg decode heq
    rw [decode_encode h, decode_encode h] at hdecoded
    rwa [Utf8.encode, Utf8.encode, String.toList_ofList, String.toList_ofList]
  have htexts := congrArg Utf8.decode? hbytes
  rw [Utf8.decode?_encode, Utf8.decode?_encode, Option.some.injEq, String.ofList_inj] at htexts
  exact htexts

end Percent

namespace Url

/-- The characters of a text that a segment keeps: all but tabs and line ends. -/
def visible (segment : String) : List Char :=
  segment.toList.filter fun c => !(c == '\t' || c == '\n' || c == '\r')

/-- The characters that a segment encodes. -/
def segmentSet (special : Bool) : Char → Bool :=
  if special then Percent.inSpecialSegment else Percent.inSegment

theorem encodeSegment_eq (special : Bool) (segment : String) : encodeSegment special segment
    = String.ofList (Percent.encode (segmentSet special) (visible segment)) := rfl

theorem segmentSet_percent (special : Bool) : segmentSet special '%' = true := by
  cases special <;> decide

/-- **Segments are equal exactly if the names are, up to tabs and line ends.** -/
theorem encodeSegment_eq_iff {special : Bool} {a b : String} :
    encodeSegment special a = encodeSegment special b ↔ visible a = visible b := by
  rw [encodeSegment_eq, encodeSegment_eq, String.ofList_inj]
  constructor
  · exact Percent.encode_injective (segmentSet_percent special)
  · exact congrArg (Percent.encode (segmentSet special))

theorem head?_of_isDoubleDot {segment : String} (h : isDoubleDot segment = true) :
    segment.toList.head? = some '.' ∨ segment.toList.head? = some '%' := by
  simp only [isDoubleDot, List.mem_cons, List.not_mem_nil, or_false, decide_eq_true_eq] at h
  rcases h with rfl | rfl | rfl | rfl | rfl | rfl | rfl | rfl | rfl <;> decide

theorem head?_of_isSingleDot {segment : String} (h : isSingleDot segment = true) :
    segment.toList.head? = some '.' ∨ segment.toList.head? = some '%' := by
  simp only [isSingleDot, List.mem_cons, List.not_mem_nil, or_false, decide_eq_true_eq] at h
  rcases h with rfl | rfl | rfl <;> decide

/-- A segment that stays as it is encoded: it is no point or double point, and not empty. -/
structure Kept (special : Bool) (segment : String) : Prop where
  name : ¬ (segment = "." ∨ segment = "..")
  double : ¬ isDoubleDot (encodeSegment special segment) = true
  single : ¬ isSingleDot (encodeSegment special segment) = true
  nonempty : encodeSegment special segment ≠ ""

theorem Kept.pushSegment {special : Bool} {segment : String} (h : Kept special segment)
    (segments : List String) :
    pushSegment special segments segment
      = addSegment segments (encodeSegment special segment) := by
  unfold Url.pushSegment
  rw [if_neg h.name]
  dsimp only
  rw [if_neg h.double, if_neg h.single]

/-- A segment is kept if its first character is neither encoded nor a point. -/
theorem kept_of_visible {special : Bool} {segment : String} {c : Char} {cs : List Char}
    (h : visible segment = c :: cs) (hplain : Percent.encodeChar (segmentSet special) c = [c])
    (hpoint : c ≠ '.') (hpercent : c ≠ '%') : Kept special segment := by
  have hhead : (encodeSegment special segment).toList.head? = some c := by
    rw [encodeSegment_eq, String.toList_ofList, h, Percent.encode, List.flatMap_cons, hplain]
    rfl
  have hnot : ¬ ((encodeSegment special segment).toList.head? = some '.' ∨
      (encodeSegment special segment).toList.head? = some '%') := by
    rw [hhead]
    rintro (heq | heq)
    · exact hpoint (Option.some.inj heq)
    · exact hpercent (Option.some.inj heq)
  refine ⟨?_, mt head?_of_isDoubleDot hnot, mt head?_of_isSingleDot hnot, ?_⟩
  · rintro (rfl | rfl)
    · exact hpoint (List.cons.inj h).1.symm
    · exact hpoint (List.cons.inj h).1.symm
  · intro hempty
    rw [hempty] at hhead
    cases hhead

/-! ### URLs under a base -/

/-- The segments of a base that further ones go behind. -/
def root (segments : List String) : List String :=
  if segments = [""] then [] else segments

theorem addSegment_eq (segments : List String) (encoded : String) :
    addSegment segments encoded = root segments ++ [encoded] := by
  unfold addSegment root
  split <;> rfl

/-- Segments that are kept go behind those of the base, each encoded. -/
theorem foldl_pushSegment {special : Bool} {segment : String} {segments : List String}
    (h : ∀ s ∈ segment :: segments, Kept special s) (list : List String) :
    (segment :: segments).foldl (pushSegment special) list
      = root list ++ (segment :: segments).map (encodeSegment special) := by
  induction segments generalizing segment list with
  | nil =>
      rw [List.foldl_cons, (h segment List.mem_cons_self).pushSegment, addSegment_eq]
      rfl
  | cons next segments ih =>
      have hfirst := h segment List.mem_cons_self
      have hroot : root (root list ++ [encodeSegment special segment])
          = root list ++ [encodeSegment special segment] := by
        refine if_neg fun heq => ?_
        have hlast := congrArg List.getLast? heq
        rw [List.getLast?_concat] at hlast
        exact hfirst.nonempty (Option.some.inj hlast)
      rw [List.foldl_cons, hfirst.pushSegment, addSegment_eq,
        ih (fun s hs => h s (List.mem_cons_of_mem _ hs)), hroot, List.append_assoc]
      rfl

def withPath (url : Url) (segments : List String) : Url :=
  { url with path := .segments segments }

/-- **The URL of some segments under a base.** -/
theorem withSegments?_eq {url : Url} {list : List String} (hpath : url.path = .segments list)
    {segment : String} {segments : List String}
    (h : ∀ s ∈ segment :: segments, Kept (isSpecialScheme url.scheme) s) :
    url.withSegments? (segment :: segments) = some (url.withPath (root (dropEmptyLast list)
      ++ (segment :: segments).map (encodeSegment (isSpecialScheme url.scheme)))) := by
  unfold withSegments?
  rw [hpath]
  dsimp only
  rw [foldl_pushSegment h]
  rfl

theorem pathText_append (a b : List String) :
    pathText (.segments (a ++ b)) = pathText (.segments a) ++ pathText (.segments b) := by
  rw [pathText, List.map_append, String.join_append]
  rfl

theorem pathText_cons (segment : String) (segments : List String) :
    pathText (.segments (segment :: segments))
      = "/" ++ segment ++ pathText (.segments segments) := by
  rw [pathText, List.map_cons, String.join_cons]
  rfl

/-- What stands between the scheme and a path that begins with `first`, unless that is all of the
path and empty. -/
def lead (url : Url) (first : String) : String :=
  match url.authority with
  | some a => "//" ++ authorityText a
  | none => if first = "" then "/." else ""

def rear (url : Url) : String :=
  (match url.query with
    | some query => "?" ++ query
    | none => "")
  ++ match url.fragment with
    | some fragment => "#" ++ fragment
    | none => ""

theorem text_withPath_cons (url : Url) (first : String) {rest : List String}
    (h : first ≠ "" ∨ rest ≠ []) :
    (url.withPath (first :: rest)).text
      = url.scheme ++ ":" ++ url.lead first ++ pathText (.segments (first :: rest))
        ++ url.rear := by
  obtain ⟨scheme, authority, path, query, fragment⟩ := url
  rw [rear, ← String.append_assoc]
  cases authority with
  | some a => rfl
  | none =>
      by_cases hfirst : first = ""
      · obtain ⟨second, rest, rfl⟩ :=
          List.exists_cons_of_ne_nil (h.resolve_left fun hne => hne hfirst)
        subst hfirst
        rfl
      · simp only [text, withPath, lead, if_neg hfirst]
        cases query <;> cases fragment <;> split <;> simp_all

/-- **Paths of one text below one front are equal.** -/
theorem pathText_eq_of_text_eq {url : Url} {front a b : List String} {x y : String}
    (hx : x ≠ "") (hy : y ≠ "")
    (h : (url.withPath (front ++ x :: a)).text = (url.withPath (front ++ y :: b)).text) :
    pathText (.segments (x :: a)) = pathText (.segments (y :: b)) := by
  cases front with
  | nil =>
      have hlead : url.lead x = url.lead y := by
        unfold lead
        rw [if_neg hx, if_neg hy]
      rw [List.nil_append, List.nil_append, text_withPath_cons url x (.inl hx),
        text_withPath_cons url y (.inl hy), hlead, String.append_left_inj,
        String.append_right_inj] at h
      exact h
  | cons first front =>
      rw [List.cons_append, List.cons_append, text_withPath_cons url first (.inr (by simp)),
        text_withPath_cons url first (.inr (by simp)), String.append_left_inj,
        String.append_right_inj] at h
      rw [← List.cons_append, ← List.cons_append, pathText_append, pathText_append,
        String.append_right_inj] at h
      exact h

end Url

end LedgerIndex
