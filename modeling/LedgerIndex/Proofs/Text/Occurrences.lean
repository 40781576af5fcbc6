import Mathlib.Tactic.SplitIfs
import LedgerIndex.Proofs.Text.Lossy

/-! # Texts among any bytes

The lossy text of any bytes shows a text wherever the bytes hold it (`Utf8.lossyChars_around`), and
shows one without U+FFFD only there (`Utf8.around_of_lossyChars`).  Ill-formed bytes neither take in
the characters behind them nor make up others: the byte that begins a character continues none, so
that a piece in front of it ends there at the latest, and is what it would be without anything
behind it (`Utf8.piece_append`). -/

namespace LedgerIndex.Utf8

/-- A byte that can only stand behind the first one of a character. -/
def Continues (byte : UInt8) : Prop :=
  0x80 ≤ byte ∧ byte ≤ 0xBF

variable {a byte : UInt8} {bytes rest rest' : Bytes} {piece' : Option Char} {c : Char}
  {cs l m : List Char}

/-! ### Where a piece ends -/

theorem trailing_append (ha : ¬ Continues a) {low high : UInt8} (hlow : 0x80 ≤ low)
    (hhigh : high ≤ 0xBF) (k bits : Nat) (bytes rest : Bytes) :
    trailing k low high bits (bytes ++ a :: rest)
      = ((trailing k low high bits bytes).1, (trailing k low high bits bytes).2 ++ a :: rest) := by
  induction k generalizing low high bits bytes with
  | zero => rfl
  | succ k ih =>
      cases bytes with
      | nil =>
          have hrange : ¬ (low ≤ a ∧ a ≤ high) := fun h =>
            ha ⟨UInt8.le_trans hlow h.1, UInt8.le_trans h.2 hhigh⟩
          simp only [List.nil_append, trailing, if_neg hrange]
      | cons byte bytes =>
          rw [List.cons_append, trailing, trailing]
          split
          · exact ih (by decide) (by decide) _ bytes
          · rfl

/-- **A piece does not depend on what stands behind it**, if that begins with a byte that continues
no character. -/
theorem piece_append (ha : ¬ Continues a) (byte : UInt8) (bytes rest : Bytes) :
    piece byte (bytes ++ a :: rest)
      = ((piece byte bytes).1, (piece byte bytes).2 ++ a :: rest) := by
  unfold piece
  split_ifs
  all_goals first | rfl | exact trailing_append ha (by decide) (by decide) ..

theorem trailing_suffix (k : Nat) (low high : UInt8) (bits : Nat) (rest : Bytes) :
    (trailing k low high bits rest).2 <:+ rest := by
  induction k generalizing low high bits rest with
  | zero => exact List.suffix_rfl
  | succ k ih =>
      cases rest with
      | nil => exact List.suffix_rfl
      | cons byte rest =>
          rw [trailing]
          split
          · exact (ih ..).trans (List.suffix_cons byte rest)
          · exact List.suffix_rfl

theorem piece_suffix (byte : UInt8) (rest : Bytes) : (piece byte rest).2 <:+ rest := by
  unfold piece
  split_ifs
  all_goals first | exact List.suffix_rfl | exact trailing_suffix ..

theorem not_continues_of_encodeChar {more : Bytes} (h : String.utf8EncodeChar c = a :: more) :
    ¬ Continues a := by
  rintro ⟨hlow, hhigh⟩
  obtain ⟨byte, more', hchar, hpiece⟩ := piece_encodeChar c []
  obtain ⟨rfl, rfl⟩ := List.cons.inj (h.symm.trans hchar)
  have hnone : ∀ rest, piece a rest = (none, rest) := fun rest => by
    unfold piece
    rw [if_neg (UInt8.not_lt.mpr hlow), if_pos (UInt8.lt_of_le_of_lt hhigh (by decide))]
  rw [hnone] at hpiece
  cases hpiece

/-! ### The lossy text piece by piece -/

theorem lossyChars_cons (h : piece byte rest = (piece', rest')) :
    lossyChars (byte :: rest) = piece'.getD '\uFFFD' :: lossyChars rest' := by
  rw [lossyChars, pieces, sections_cons _ shortens_piece, h]
  rfl

/-- What holds of all that is left behind a piece holds of all bytes. -/
theorem bytes_induction {P : Bytes → Prop} (nil : P [])
    (cons : ∀ {byte rest piece' rest'}, piece byte rest = (piece', rest') → P rest' →
      P (byte :: rest)) (bytes : Bytes) : P bytes :=
  pieces_induction (P := fun bytes _ => P bytes) nil cons bytes

theorem eq_nil_of_lossyChars (h : lossyChars bytes = []) : bytes = [] := by
  cases bytes with
  | nil => rfl
  | cons byte rest =>
      rw [lossyChars_cons rfl] at h
      cases h

theorem lossyChars_append (ha : ¬ Continues a) (bytes rest : Bytes) :
    lossyChars (bytes ++ a :: rest) = lossyChars bytes ++ lossyChars (a :: rest) := by
  induction bytes using bytes_induction with
  | nil => rfl
  | @cons byte bytes _ _ hpiece ih =>
      have happend := piece_append ha byte bytes rest
      rw [hpiece] at happend
      rw [List.cons_append, lossyChars_cons happend, lossyChars_cons hpiece, ih]
      rfl

theorem lossyChars_encodeChar (c : Char) (rest : Bytes) :
    lossyChars (String.utf8EncodeChar c ++ rest) = c :: lossyChars rest := by
  obtain ⟨byte, more, hchar, hpiece⟩ := piece_encodeChar c rest
  rw [hchar, List.cons_append, lossyChars_cons hpiece]
  rfl

theorem lossyChars_front (cs : List Char) (rest : Bytes) :
    lossyChars (cs.flatMap String.utf8EncodeChar ++ rest) = cs ++ lossyChars rest := by
  induction cs with
  | nil => rfl
  | cons c cs ih =>
      rw [List.flatMap_cons, List.append_assoc, lossyChars_encodeChar, ih]
      rfl

/-- **A text that some bytes hold is shown at its place.** -/
theorem lossyChars_around (h : cs ≠ []) (bytes rest : Bytes) :
    lossyChars (bytes ++ cs.flatMap String.utf8EncodeChar ++ rest)
      = lossyChars bytes ++ cs ++ lossyChars rest := by
  obtain ⟨c, cs, rfl⟩ := List.exists_cons_of_ne_nil h
  obtain ⟨byte, more, hchar, -⟩ := piece_encodeChar c []
  rw [List.append_assoc, List.append_assoc, ← lossyChars_front, List.flatMap_cons, hchar,
    List.cons_append, List.cons_append,
    lossyChars_append (not_continues_of_encodeChar hchar)]

/-! ### Back from the lossy text -/

theorem char_of_lossyChars (hc : c ≠ '\uFFFD') (h : lossyChars bytes = l ++ c :: m) :
    ∃ x y, bytes = x ++ String.utf8EncodeChar c ++ y ∧ lossyChars x = l ∧ lossyChars y = m := by
  induction bytes using bytes_induction generalizing l with
  | nil => cases l <;> cases h
  | @cons byte rest piece' rest' hpiece ih =>
      rw [lossyChars_cons hpiece] at h
      cases l with
      | nil =>
          obtain ⟨hshown, hrest⟩ := List.cons.inj h
          cases piece' with
          | none => exact absurd hshown.symm hc
          | some d =>
              obtain rfl : d = c := hshown
              exact ⟨[], rest', piece_sound hpiece, rfl, hrest⟩
      | cons d l =>
          obtain ⟨hshown, hrest⟩ := List.cons.inj h
          obtain ⟨x, y, rfl, hx, hy⟩ := ih hrest
          obtain ⟨taken, htaken⟩ := piece_suffix byte rest
          rw [hpiece] at htaken
          have hfront : piece byte (taken ++ x) = (piece', x) := by
            obtain ⟨a, more, hchar, -⟩ := piece_encodeChar c []
            have happend := piece_append (not_continues_of_encodeChar hchar) byte (taken ++ x)
              (more ++ y)
            rw [List.append_assoc, ← List.cons_append, ← hchar, ← List.append_assoc x, htaken,
              hpiece, hchar, List.append_assoc x, List.cons_append] at happend
            obtain ⟨hfirst, hsecond⟩ := Prod.mk.inj happend
            exact Prod.ext hfirst.symm (List.append_cancel_right hsecond).symm
          refine ⟨byte :: (taken ++ x), y, ?_, ?_, hy⟩
          · rw [← htaken]
            simp
          · rw [lossyChars_cons hfront, hshown, hx]

theorem front_of_lossyChars (hcs : '\uFFFD' ∉ cs) (h : lossyChars bytes = cs ++ m) :
    ∃ y, bytes = cs.flatMap String.utf8EncodeChar ++ y ∧ lossyChars y = m := by
  induction cs generalizing bytes with
  | nil => exact ⟨bytes, rfl, h⟩
  | cons c cs ih =>
      obtain ⟨hc, hcs⟩ := not_or.mp (mt List.mem_cons.mpr hcs)
      obtain ⟨x, y, rfl, hx, hy⟩ := char_of_lossyChars (l := []) (Ne.symm hc) h
      obtain ⟨rest, rfl, hrest⟩ := ih hcs hy
      refine ⟨rest, ?_, hrest⟩
      rw [eq_nil_of_lossyChars hx, List.flatMap_cons, List.nil_append, List.append_assoc]

/-- **A text that is shown stands among the bytes**, unless it has U+FFFD. -/
theorem around_of_lossyChars (hne : cs ≠ []) (hcs : '\uFFFD' ∉ cs)
    (h : lossyChars bytes = l ++ cs ++ m) :
    ∃ x y, bytes = x ++ cs.flatMap String.utf8EncodeChar ++ y ∧ lossyChars x = l ∧
      lossyChars y = m := by
  obtain ⟨c, cs, rfl⟩ := List.exists_cons_of_ne_nil hne
  obtain ⟨hc, hcs⟩ := not_or.mp (mt List.mem_cons.mpr hcs)
  rw [List.append_assoc] at h
  obtain ⟨x, y, rfl, hx, hy⟩ := char_of_lossyChars (Ne.symm hc) h
  obtain ⟨rest, rfl, hrest⟩ := front_of_lossyChars hcs hy
  refine ⟨x, rest, ?_, hx, hrest⟩
  rw [List.flatMap_cons]
  simp only [List.append_assoc]

end LedgerIndex.Utf8
