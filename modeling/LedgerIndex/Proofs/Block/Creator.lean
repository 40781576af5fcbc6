import LedgerIndex.Block.Creator
import LedgerIndex.Proofs.Text.Occurrences
import LedgerIndex.Proofs.Text.Search

/-! # Creators by their bytes

Whether a creator is shown by its certificate is decided on the lossy text of its identity, and line
feeds are replaced in the lossy text of its bytes.  Both can be said of the bytes themselves,
whatever their encoding: the marks of a certificate are searched for among the raw bytes
(`Creator.isCertificate_lossyChars_iff`), and the bytes 0A are replaced by 2E
(`Creator.lossyChars_withoutFeeds`).  `Creator.ofBytes_raw` puts both together. -/

namespace LedgerIndex.Creator

/-- The mark at which a certificate begins stands among some bytes, and the mark at which one ends
somewhere behind it. -/
def Certified (bytes : Bytes) : Prop :=
  ∃ front body rear : Bytes,
    bytes = front ++ Utf8.encode "-----BEGIN " ++ body ++ Utf8.encode "-----END " ++ rear

/-- Some bytes with 2E in the place of each 0A. -/
def withoutFeeds (bytes : Bytes) : Bytes :=
  bytes.map fun byte => if byte = 0x0A then 0x2E else byte

/-! ### Certificates -/

theorem apart_marks : Search.Apart beginMark endMark := by decide

/-- The marks are found in the lossy text if they stand among the bytes, and only then. -/
theorem isCertificate_lossyChars_iff {bytes : Bytes} :
    isCertificate (Utf8.lossyChars bytes) = true ↔ Certified bytes := by
  have hbegin : beginMark ≠ [] ∧ '\uFFFD' ∉ beginMark := by decide
  have hend : endMark ≠ [] ∧ '\uFFFD' ∉ endMark := by decide
  have htext : isCertificate (Utf8.lossyChars bytes) = true ↔ ∃ x y z,
      Utf8.lossyChars bytes = x ++ beginMark ++ y ++ endMark ++ z := by
    rw [← Search.occursBehind_iff apart_marks, isCertificate]
    cases Search.from? beginMark (Utf8.lossyChars bytes) <;> simp
  rw [htext]
  constructor
  · rintro ⟨x, y, z, hshown⟩
    obtain ⟨front, rear, rfl, hfront, -⟩ := Utf8.around_of_lossyChars hend.1 hend.2 hshown
    obtain ⟨front, body, rfl, -, -⟩ := Utf8.around_of_lossyChars hbegin.1 hbegin.2 hfront
    exact ⟨front, body, rear, rfl⟩
  · rintro ⟨front, body, rear, rfl⟩
    refine ⟨Utf8.lossyChars front, Utf8.lossyChars body, Utf8.lossyChars rear, ?_⟩
    rw [← Utf8.lossyChars_around hbegin.1, ← Utf8.lossyChars_around hend.1]
    rfl

example : isCertificate (Utf8.lossyChars
    ([0xE0] ++ Utf8.encode "-----BEGIN " ++ [0xF0, 0x9F] ++ Utf8.encode "-----END ")) = true := by
  decide

/-! ### Line feeds -/

variable {bytes : Bytes}

/-- The text with a point in the place of each line feed. -/
def pointed (cs : List Char) : List Char :=
  cs.map fun c => if c = '\n' then '.' else c

theorem feed_notMem_pointed (cs : List Char) : '\n' ∉ pointed cs := by
  intro hmem
  obtain ⟨c, -, hc⟩ := List.mem_map.mp hmem
  split at hc
  · exact absurd hc (by decide)
  · contradiction

theorem pointed_append (cs cs' : List Char) : pointed (cs ++ cs') = pointed cs ++ pointed cs' :=
  List.map_append

theorem withoutFeeds_of_notMem (h : 0x0A ∉ bytes) : withoutFeeds bytes = bytes := by
  have hkept : ∀ byte ∈ bytes, (if byte = 0x0A then 0x2E else byte) = byte := by
    intro byte hbyte
    refine if_neg ?_
    rintro rfl
    exact h hbyte
  exact (List.map_congr_left hkept).trans (List.map_id' bytes)

theorem pointed_of_notMem (h : 0x0A ∉ bytes) :
    pointed (Utf8.lossyChars bytes) = Utf8.lossyChars bytes := by
  have hkept : ∀ c ∈ Utf8.lossyChars bytes, (if c = '\n' then '.' else c) = c := by
    intro c hc
    refine if_neg fun hfeed => h ?_
    obtain ⟨l, m, hshown⟩ := List.append_of_mem (hfeed ▸ hc)
    obtain ⟨x, y, rfl, -, -⟩ := Utf8.char_of_lossyChars (by decide) hshown
    exact List.mem_append_left y (List.mem_append_right x (by decide))
  exact (List.map_congr_left hkept).trans (List.map_id' _)

/-- **Line feeds may be replaced before or after the bytes are read.** -/
theorem lossyChars_withoutFeeds (bytes : Bytes) :
    Utf8.lossyChars (withoutFeeds bytes) = pointed (Utf8.lossyChars bytes) := by
  induction hlength : bytes.length using Nat.strongRecOn generalizing bytes with
  | ind n ih =>
      by_cases hfeed : 0x0A ∈ bytes
      · obtain ⟨line, rest, rfl, hline⟩ := List.eq_append_cons_of_mem hfeed
        have hrest := ih rest.length (by simp [← hlength]; omega) rest rfl
        have hends : ∀ (c : Char) (byte : UInt8), String.utf8EncodeChar c = [byte] →
            ∀ tail, Utf8.lossyChars (line ++ byte :: tail)
              = Utf8.lossyChars line ++ c :: Utf8.lossyChars tail := by
          intro c byte hc tail
          have haround := Utf8.lossyChars_around (List.cons_ne_nil c []) line tail
          simpa [hc] using haround
        have hpoint : withoutFeeds (line ++ 0x0A :: rest) = line ++ 0x2E :: withoutFeeds rest := by
          rw [withoutFeeds, List.map_append, ← withoutFeeds, withoutFeeds_of_notMem hline]
          rfl
        rw [hpoint, hends '.' 0x2E rfl, hends '\n' 0x0A rfl, hrest, pointed_append,
          pointed_of_notMem hline]
        rfl
      · rw [withoutFeeds_of_notMem hfeed, pointed_of_notMem hfeed]

/-! ### Both -/

/-- **A creator is shown as its raw bytes say.**  It is shown by a certificate exactly if its bytes
are a serialized identity whose bytes hold the marks of a certificate, whatever their encoding: then
by the identity's lossy text and the name of its provider.  Otherwise both places show the lossy
text of the bytes with 2E for each 0A, in which there is no line feed. -/
theorem ofBytes_raw (bytes : Bytes) :
    (∀ creator, ofIdentity? bytes = some creator ↔
      ∃ identity : Encoded.SerializedIdentity, Wire.decode? bytes = some identity ∧
        Certified identity.idBytes ∧
        creator = ⟨Utf8.lossy identity.idBytes, identity.mspId⟩) ∧
    ofBytes bytes = (ofIdentity? bytes).getD
      ⟨Utf8.lossy (withoutFeeds bytes), Utf8.lossy (withoutFeeds bytes)⟩ ∧
    '\n' ∉ (Utf8.lossy (withoutFeeds bytes)).toList := by
  have htext : Utf8.lossy (withoutFeeds bytes)
      = String.ofList (pointed (Utf8.lossyChars bytes)) := by
    rw [Utf8.lossy, lossyChars_withoutFeeds]
  refine ⟨fun creator => ?_, ?_, ?_⟩
  · unfold ofIdentity?
    cases hidentity : Wire.decode? (M := Encoded.SerializedIdentity) bytes with
    | none => simp
    | some identity =>
        simp only [Option.some.injEq, exists_eq_left', ← isCertificate_lossyChars_iff]
        by_cases hcertificate : isCertificate (Utf8.lossyChars identity.idBytes) = true
        · simp only [hcertificate, if_true, Option.some.injEq, true_and]
          exact eq_comm
        · simp [hcertificate]
  · rw [htext]
    rfl
  · rw [htext, String.toList_ofList]
    exact feed_notMem_pointed _

end LedgerIndex.Creator
