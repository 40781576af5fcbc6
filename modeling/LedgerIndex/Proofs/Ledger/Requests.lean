import LedgerIndex.Proofs.Ledger.Gateway
import LedgerIndex.Proofs.Url.Paths

/-! # Every question to a gateway has a URL of its own

The path of a question is that of the base with one, three or four segments behind it, whatever the
channel is called: no name leaves its segment, and it reads back from there (`url?_spells`).  So the
URLs of two questions have one text exactly if the questions are the same (`requests_apart`). -/

namespace LedgerIndex.GatewayLedger

/-- The segments of a question in a path: its words as they are, and the channel as a segment that
reads back. -/
def Spells : Ledger.Query → List String → Prop
  | .channels, encoded => encoded = ["channels"]
  | .tipHeight channel, encoded => ∃ name, encoded = ["channels", name, "height"] ∧
      Percent.decode name.toList = Utf8.encode channel
  | .block channel number, encoded =>
    ∃ name, encoded = ["channels", name, "blocks", Decimal.text number] ∧
      Percent.decode name.toList = Utf8.encode channel

/-- The segments of a base that those of a question stand behind: all but an empty last one, and
none of two empty ones. -/
def kept (list : List String) : List String :=
  if list = ["", ""] then [] else Url.withoutEmptyLast list

variable {base : Url} {list : List String} {q r : Ledger.Query}

/-! ### Segments -/

theorem encodeSegment_text (special : Bool) (number : Nat) :
    Url.encodeSegment special (Decimal.text number) = Decimal.text number := by
  have hdigit : ∀ n < 58, 48 ≤ n → ∀ special,
      Percent.encodeChar (Url.segmentSet special) (Char.ofNat n) = [Char.ofNat n] := by decide
  have hplain : ∀ c ∈ (Decimal.text number).toList,
      Percent.encodeChar (Url.segmentSet special) c = [c] := by
    intro c hc
    rw [Decimal.text, String.toList_ofList] at hc
    obtain ⟨hlow, hhigh⟩ := Decimal.toNat_of_mem_digits number c hc
    have hchar := hdigit c.toNat hhigh hlow special
    rwa [Char.ofNat_toNat] at hchar
  rw [Url.encodeSegment_eq, (plain_text number).visible_eq, Percent.encode_eq_self hplain,
    String.ofList_toList]

theorem spells_segments (special : Bool) (h : Named q) :
    Spells q ((segments q).map (Url.encodeSegment special)) := by
  have hwords : Url.encodeSegment special "channels" = "channels" ∧
      Url.encodeSegment special "height" = "height" ∧
      Url.encodeSegment special "blocks" = "blocks" := by
    cases special <;> decide
  obtain ⟨hchannels, hheight, hblocks⟩ := hwords
  cases q with
  | channels => simp [Spells, segments, hchannels]
  | tipHeight channel =>
      refine ⟨Url.encodeSegment special channel, ?_, Url.Plain.decode_encodeSegment h⟩
      simp [segments, hchannels, hheight]
  | block channel number =>
      refine ⟨Url.encodeSegment special channel, ?_, Url.Plain.decode_encodeSegment h⟩
      simp [segments, hchannels, hblocks, encodeSegment_text]

theorem Spells.exists_cons {encoded : List String} (h : Spells q encoded) :
    ∃ rest, encoded = "channels" :: rest := by
  cases q with
  | channels => exact ⟨_, h⟩
  | tipHeight channel =>
      obtain ⟨name, rfl, -⟩ := h
      exact ⟨_, rfl⟩
  | block channel number =>
      obtain ⟨name, rfl, -⟩ := h
      exact ⟨_, rfl⟩

/-- **Segments are those of one question only.** -/
theorem Spells.unique {encoded : List String} (hq : Spells q encoded) (hr : Spells r encoded) :
    q = r := by
  cases q with
  | channels =>
      cases hq
      cases r with
      | channels => rfl
      | tipHeight channel' => obtain ⟨name', heq, -⟩ := hr; cases heq
      | block channel' number' => obtain ⟨name', heq, -⟩ := hr; cases heq
  | tipHeight channel =>
      obtain ⟨name, rfl, hname⟩ := hq
      cases r with
      | channels => cases hr
      | tipHeight channel' =>
          obtain ⟨name', heq, hname'⟩ := hr
          obtain rfl : name = name' := by simpa using heq
          rw [Url.eq_of_encode_eq (hname.symm.trans hname')]
      | block channel' number' => obtain ⟨name', heq, -⟩ := hr; simp at heq
  | block channel number =>
      obtain ⟨name, rfl, hname⟩ := hq
      cases r with
      | channels => cases hr
      | tipHeight channel' => obtain ⟨name', heq, -⟩ := hr; simp at heq
      | block channel' number' =>
          obtain ⟨name', heq, hname'⟩ := hr
          obtain ⟨rfl, hnumber⟩ : name = name' ∧ Decimal.text number = Decimal.text number' := by
            simpa using heq
          rw [Url.eq_of_encode_eq (hname.symm.trans hname'),
            Decimal.digits_injective (String.ofList_inj.mp hnumber)]

/-! ### URLs -/

/-- The URL of a question, with what is known of the segments behind those of the base. -/
theorem url?_spells (hlist : base.path = .segments list) (h : Named q) :
    ∃ encoded, Spells q encoded ∧
      (∀ segment ∈ encoded, Url.Whole (Url.isSpecialScheme base.scheme) segment) ∧
      (GatewayLedger.mk base).url? q = some (base.withPath (kept list ++ encoded)) := by
  refine ⟨_, spells_segments (Url.isSpecialScheme base.scheme) h, ?_, ?_⟩
  · intro segment hsegment
    obtain ⟨name, -, rfl⟩ := List.mem_map.mp hsegment
    exact Url.whole_encodeSegment _ name
  · rw [url?_eq hlist h, Url.root_dropEmptyLast]
    rfl

/-- URLs of one text have the same segments behind those of the base. -/
theorem eq_of_text_eq {front a b : List String} (ha : Spells q a) (hb : Spells r b)
    {special : Bool} (hwhole : ∀ segment ∈ a, Url.Whole special segment)
    (hwhole' : ∀ segment ∈ b, Url.Whole special segment)
    (h : (base.withPath (front ++ a)).text = (base.withPath (front ++ b)).text) : a = b := by
  obtain ⟨a, rfl⟩ := ha.exists_cons
  obtain ⟨b, rfl⟩ := hb.exists_cons
  have hword : "channels" ≠ "" := by decide
  exact Url.eq_of_pathText_eq hwhole hwhole' (Url.pathText_eq_of_text_eq hword hword h)

/-- **Different questions have different URLs**, whatever the channels are called, and each path is
that of the base with the segments of the question behind it. -/
theorem requests_apart (hbase : base.cannotBeABase = false) :
    ∃ list, base.path = .segments list ∧
      (∀ q, Named q → ∃ encoded, Spells q encoded ∧
        (∀ segment ∈ encoded, Url.Whole (Url.isSpecialScheme base.scheme) segment) ∧
        (GatewayLedger.mk base).url? q = some (base.withPath (kept list ++ encoded))) ∧
      ∀ q r, Named q → Named r → ∃ u v, (GatewayLedger.mk base).url? q = some u ∧
        (GatewayLedger.mk base).url? r = some v ∧ (u.text = v.text ↔ q = r) := by
  obtain ⟨list, hlist⟩ := exists_segments hbase
  refine ⟨list, hlist, fun q hq => url?_spells hlist hq, fun q r hq hr => ?_⟩
  obtain ⟨a, ha, hwhole, hu⟩ := url?_spells hlist hq
  obtain ⟨b, hb, hwhole', hv⟩ := url?_spells hlist hr
  refine ⟨_, _, hu, hv, fun htext => ?_, ?_⟩
  · obtain rfl := eq_of_text_eq ha hb hwhole hwhole' htext
    exact ha.unique hb
  · rintro rfl
    rw [Option.some.inj (hu.symm.trans hv)]

/-- The heights of `a/b` and `a%2Fb` under a base with a query. -/
theorem requests_apart_slash :
    ∃ base, Url.parse "http://gw:7080/ledger/?x=1" = .ok base ∧ base.cannotBeABase = false ∧
      Named (.tipHeight "a/b") ∧ Named (.tipHeight "a%2Fb") ∧
      ∃ u v, (GatewayLedger.mk base).url? (.tipHeight "a/b") = some u ∧
        (GatewayLedger.mk base).url? (.tipHeight "a%2Fb") = some v ∧
        u.text = "http://gw:7080/ledger/channels/a%2Fb/height?x=1" ∧ u.text ≠ v.text := by
  let base : Url := ⟨"http", some ⟨"", none, .name "gw", some 7080⟩, .segments ["ledger", ""],
    some "x=1", none⟩
  have hparse : Url.parse "http://gw:7080/ledger/?x=1" = .ok base := by decide +kernel
  have hbase : base.cannotBeABase = false := Url.cannotBeABase_of_parse hparse (by decide)
  have hslash : Named (.tipHeight "a/b") := show Url.Plain "a/b" by decide
  have hpercent : Named (.tipHeight "a%2Fb") := show Url.Plain "a%2Fb" by decide
  obtain ⟨list, -, -, htexts⟩ := requests_apart hbase
  obtain ⟨u, v, hu, hv, hiff⟩ := htexts _ _ hslash hpercent
  have htext : ((GatewayLedger.mk base).url? (.tipHeight "a/b")).map Url.text
      = some "http://gw:7080/ledger/channels/a%2Fb/height?x=1" := by decide +kernel
  rw [hu] at htext
  refine ⟨base, hparse, hbase, hslash, hpercent, u, v, hu, hv, Option.some.inj htext, fun heq => ?_⟩
  exact absurd (hiff.mp heq) (by decide)

/-- Of the path `//`, which has two empty segments, neither stays. -/
theorem not_forall_behind_base :
    ¬ ∀ (text : String) (base url : Url) (list : List String) (q : Ledger.Query),
      Url.parse text = .ok base → base.scheme = "http" → base.path = .segments list → Named q →
      (GatewayLedger.mk base).url? q = some url →
      ∃ encoded, Spells q encoded ∧
        url.path = .segments (Url.withoutEmptyLast list ++ encoded) := by
  intro h
  let base : Url := ⟨"http", some ⟨"", none, .name "gw", none⟩, .segments ["", ""], none, none⟩
  have hparse : Url.parse "http://gw//" = .ok base := by decide +kernel
  have hurl : (GatewayLedger.mk base).url? .channels
      = some (base.withPath ["channels"]) := by decide +kernel
  obtain ⟨encoded, rfl, hpath⟩ := h _ base _ _ .channels hparse rfl rfl trivial hurl
  exact absurd hpath (by decide)

end LedgerIndex.GatewayLedger
