import LedgerIndex.Ledger.Gateway
import LedgerIndex.Ledger.Memory
import LedgerIndex.Proofs.Json.Members
import LedgerIndex.Proofs.Json.Written
import LedgerIndex.Proofs.Url.Names

/-! # What a gateway promises

A gateway is taken at its documentation only: `GatewayLedger.Documented` says which reply belongs to
a request for a resource of a ledger, where the request is known by its method and the segments of
its path, percent signs resolved.  The client asks for the right resources
(`GatewayLedger.asksFor_url`), whatever the channel is called, and reads from the replies what the
ledger holds (`GatewayLedger.read_documented`). -/

namespace LedgerIndex

/-- The heights of a ledger fit sixty-four bits. -/
def MemoryLedger.Sized (ledger : MemoryLedger) : Prop :=
  ∀ channel blocks, ledger.blocks? channel = some blocks → blocks.length < UInt64.size

namespace GatewayLedger

/-! ### Documented replies -/

/-- A request for the resource of these names behind a base. -/
def AsksFor (base : Url) (request : Http.Request) (names : List String) : Prop :=
  request.method = .get ∧ ∃ list encoded, base.path = .segments list ∧
    request.url = base.withPath (Url.root (Url.dropEmptyLast list) ++ encoded) ∧
    encoded.map (fun segment => Percent.decode segment.toList) = names.map Utf8.encode

/-- The compact text of an object of one field. -/
def compact (key : String) (value : Json) : Bytes :=
  Utf8.encode (Json.ofFields [(key, value)]).text

/-- A body that is an object with this value under a key: its compact text, or any text that reads
as such an object, whatever else that has. -/
inductive ShowsField (key : String) (value : Json) : Bytes → Prop
  | compact : ShowsField key value (compact key value)
  | text {body : Bytes} {fields : List (String × Json)}
      (hbody : Json.ofBytes? body = some (.object fields))
      (hfields : fields.filter (·.1 = key) = [(key, value)]) : ShowsField key value body

/-- The reply that belongs to a request, by what a ledger holds: the channels as an object with the
field `channels`, the height of a channel as an object with the field `height`, the bytes of a
block, and status 404 for a block that does not exist. -/
structure Documented (base : Url) (ledger : MemoryLedger) (request : Http.Request)
    (reply : Http.Reply) : Prop where
  channels : AsksFor base request ["channels"] →
    ∃ body, reply = .answered 200 body ∧
      ShowsField "channels" (.ofStrings ledger.channelNames) body
  height : ∀ channel blocks, ledger.blocks? channel = some blocks →
    AsksFor base request ["channels", channel, "height"] →
      ∃ body, reply = .answered 200 body ∧ ShowsField "height" (.nat blocks.length) body
  block : ∀ channel blocks number, ledger.blocks? channel = some blocks →
    AsksFor base request ["channels", channel, "blocks", Decimal.text number] →
      match blocks[number]? with
      | some block => reply = .answered 200 block
      | none => ∃ body, reply = .answered 404 body

/-! ### Requests -/

variable {base : Url} {ledger : MemoryLedger} {q : Ledger.Query} {reply : Http.Reply}

/-- A question about the ledger as a whole or a channel that it has, under a plain name. -/
def Answerable (ledger : MemoryLedger) : Ledger.Query → Prop
  | .channels => True
  | .tipHeight channel | .block channel _ => (ledger.blocks? channel).isSome ∧ Url.Plain channel

/-- A question about the ledger as a whole or a channel under a plain name. -/
def Named : Ledger.Query → Prop
  | .channels => True
  | .tipHeight channel | .block channel _ => Url.Plain channel

theorem Answerable.named (h : Answerable ledger q) : Named q := by
  cases q with
  | channels => trivial
  | tipHeight channel => exact h.2
  | block channel number => exact h.2

theorem plain_text (number : Nat) : Url.Plain (Decimal.text number) := by
  have hdigit : ∀ c ∈ (Decimal.text number).toList, 48 ≤ c.toNat := by
    intro c hc
    rw [Decimal.text, String.toList_ofList] at hc
    exact (Decimal.toNat_of_mem_digits number c hc).1
  have hpoint : '.' ∉ (Decimal.text number).toList := by
    intro hmem
    exact absurd (hdigit '.' hmem) (by decide)
  refine ⟨?_, ?_, ?_⟩
  · intro heq
    rw [heq] at hpoint
    exact hpoint (by decide)
  · intro heq
    rw [heq] at hpoint
    exact hpoint (by decide)
  · intro c hc
    have hlow := hdigit c hc
    refine ⟨?_, ?_, ?_⟩ <;> rintro rfl <;> exact absurd hlow (by decide)

theorem plain_segments (h : Named q) : ∀ name ∈ segments q, Url.Plain name := by
  cases q with
  | channels =>
      intro name hname
      simp only [segments, List.mem_cons, List.not_mem_nil, or_false] at hname
      subst hname
      decide
  | tipHeight channel =>
      intro name hname
      simp only [segments, List.mem_cons, List.not_mem_nil, or_false] at hname
      rcases hname with rfl | rfl | rfl
      · decide
      · exact h
      · decide
  | block channel number =>
      intro name hname
      simp only [segments, List.mem_cons, List.not_mem_nil, or_false] at hname
      rcases hname with rfl | rfl | rfl | rfl
      · decide
      · exact h
      · decide
      · exact plain_text number

/-- The URL of a question, with the segments of the question behind those of the base. -/
theorem url?_eq {list : List String} (hlist : base.path = .segments list) (h : Named q) :
    (GatewayLedger.mk base).url? q = some (base.withPath (Url.root (Url.dropEmptyLast list)
      ++ (segments q).map (Url.encodeSegment (Url.isSpecialScheme base.scheme)))) := by
  have hplain := plain_segments h
  obtain ⟨names, hnames⟩ : ∃ names, segments q = "channels" :: names := by
    cases q <;> exact ⟨_, rfl⟩
  rw [url?]
  rw [hnames] at hplain ⊢
  obtain ⟨hfirst, hrest⟩ := List.forall_mem_cons.mp hplain
  have hkept : ∀ special, Url.encodeSegment special "channels" ≠ "" := by decide
  exact Url.withSegments?_plain hlist hfirst (hkept _) hrest

theorem exists_segments (hbase : base.cannotBeABase = false) :
    ∃ list, base.path = .segments list := by
  unfold Url.cannotBeABase at hbase
  split at hbase
  · cases hbase
  · rename_i list hlist
    exact ⟨list, hlist⟩

/-- **A question is a request for its resource.** -/
theorem asksFor_url (hbase : base.cannotBeABase = false) (h : Answerable ledger q) :
    ∃ url, (GatewayLedger.mk base).url? q = some url ∧
      AsksFor base { method := .get, url := url } (segments q) := by
  obtain ⟨list, hlist⟩ := exists_segments hbase
  refine ⟨_, url?_eq hlist h.named, rfl, list, _, hlist, rfl, ?_⟩
  rw [List.map_map]
  exact List.map_congr_left fun name hname =>
    (plain_segments h.named name hname).decode_encodeSegment

/-! ### Replies -/

theorem ShowsField.document? {α : Type} {body : Bytes} {key : String} {value : Json}
    {read : Json.Read α} {a : α} (h : ShowsField key value body) (hvalue : Json.Tidy 126 value)
    (hread : ∀ {text}, Json.Spelled .exact value text → Json.ReadAs read a text) :
    Json.document? (Json.readRecord key read) body = some a := by
  obtain ⟨fields, hbody, hfields⟩ : ∃ fields, Json.ofBytes? body = some (.object fields) ∧
      fields.filter (·.1 = key) = [(key, value)] := by
    cases h with
    | compact =>
        exact ⟨_, (hvalue.record key).ofBytes?_encode_text, by simp [Json.insertField]⟩
    | text hbody hfields => exact ⟨_, hbody, hfields⟩
  exact Json.document?_of_ofBytes? hbody fun h =>
    (h.objectWith Json.strict_exact hfields).readAs hread

theorem heightOf?_of_showsField {body : Bytes} {height : Nat}
    (h : ShowsField "height" (.nat height) body) (hheight : height < UInt64.size) :
    heightOf? body = some height :=
  h.document? (Json.tidy_nat hheight 126) fun h => Json.readAs_nat Json.strict_exact h hheight

theorem channelsOf?_of_showsField {body : Bytes} {channels : List String}
    (h : ShowsField "channels" (.ofStrings channels) body) :
    channelsOf? body = some channels :=
  h.document? (Json.tidy_ofStrings channels 125) fun h => Json.readAs_strings Json.strict_exact h

/-- A byte that is no text stands in a string that is passed over, and in no other. -/
example :
    heightOf? (Utf8.encode "\x7b\"note\":\"" ++ [0xFF] ++ Utf8.encode "\",\"height\":5\x7d")
      = some 5 ∧
    channelsOf? (Utf8.encode "\x7b\"channels\":[\"" ++ [0xFF] ++ Utf8.encode "\"]\x7d")
      = none := by
  decide

theorem read_success {body : Bytes} {value : q.Value} (h : readBody q body = some value) :
    read q (.answered 200 body) = .ok value := by
  have hsuccess : Http.isSuccess 200 = true := rfl
  simp [read, hsuccess, h]

/-- **A documented reply says what the ledger holds.** -/
theorem read_documented (hledger : ledger.Sized) (h : Answerable ledger q) {request : Http.Request}
    (hasks : AsksFor base request (segments q)) (hreply : Documented base ledger request reply) :
    read q reply = ledger.lookUp q := by
  cases q with
  | channels =>
      obtain ⟨body, rfl, hshows⟩ := hreply.channels hasks
      exact read_success (channelsOf?_of_showsField hshows)
  | tipHeight channel =>
      obtain ⟨blocks, hblocks⟩ := Option.isSome_iff_exists.mp h.1
      obtain ⟨body, rfl, hshows⟩ := hreply.height channel blocks hblocks hasks
      have hheight : heightOf? body = some blocks.length :=
        heightOf?_of_showsField hshows (hledger channel blocks hblocks)
      rw [read_success (q := .tipHeight channel) hheight]
      simp only [MemoryLedger.lookUp, hblocks]
  | block channel number =>
      obtain ⟨blocks, hblocks⟩ := Option.isSome_iff_exists.mp h.1
      have hanswer := hreply.block channel blocks number hblocks hasks
      cases hblock : blocks[number]? with
      | some block =>
          rw [hblock] at hanswer
          subst hanswer
          rw [read_success (q := .block channel number) rfl]
          simp only [MemoryLedger.lookUp, hblocks, hblock]
      | none =>
          rw [hblock] at hanswer
          obtain ⟨body, rfl⟩ := hanswer
          simp only [MemoryLedger.lookUp, hblocks, hblock]
          rfl

/-! ### A gateway that keeps its promise -/

theorem AsksFor.unique {request : Http.Request} {names names' : List String}
    (h : AsksFor base request names) (h' : AsksFor base request names') : names = names' := by
  obtain ⟨-, list, encoded, hlist, hurl, hread⟩ := h
  obtain ⟨-, list', encoded', hlist', hurl', hread'⟩ := h'
  obtain rfl : list = list' := UrlPath.segments.inj (hlist.symm.trans hlist')
  have hpath := congrArg Url.path (hurl.symm.trans hurl')
  have hencoded : encoded = encoded' := List.append_cancel_left (UrlPath.segments.inj hpath)
  rw [← hencoded, hread] at hread'
  exact List.map_inj_right (fun _ _ => Url.eq_of_encode_eq) |>.mp hread'

/-- The reply to a question, with compact bodies. -/
def replyTo (ledger : MemoryLedger) : Ledger.Query → Http.Reply
  | .channels => .answered 200 (compact "channels" (.ofStrings ledger.channelNames))
  | .tipHeight channel =>
    match ledger.blocks? channel with
    | some blocks => .answered 200 (compact "height" (.nat blocks.length))
    | none => .answered 404 []
  | .block channel number =>
    match (ledger.blocks? channel).bind (·[number]?) with
    | some block => .answered 200 block
    | none => .answered 404 []

/-- **Every request can be answered as the gateway documents.** -/
theorem documented_replyTo {request : Http.Request} (h : AsksFor base request (segments q)) :
    Documented base ledger request (replyTo ledger q) where
  channels hasks := by
    have hnames := h.unique hasks
    cases q with
    | channels => exact ⟨_, rfl, .compact⟩
    | tipHeight channel => simp [segments] at hnames
    | block channel number => simp [segments] at hnames
  height channel blocks hblocks hasks := by
    have hnames := h.unique hasks
    cases q with
    | channels => simp [segments] at hnames
    | tipHeight other =>
        obtain rfl : other = channel := by simpa [segments] using hnames
        refine ⟨compact "height" (.nat blocks.length), ?_, .compact⟩
        simp only [replyTo, hblocks]
    | block channel number => simp [segments] at hnames
  block channel blocks number hblocks hasks := by
    have hnames := h.unique hasks
    cases q with
    | channels => simp [segments] at hnames
    | tipHeight other => simp [segments] at hnames
    | block other asked =>
        simp only [segments, List.cons.injEq, and_true, true_and] at hnames
        obtain ⟨rfl, htext⟩ := hnames
        have hdigits : Decimal.digits asked = Decimal.digits number := String.ofList_inj.mp htext
        obtain rfl := Decimal.digits_injective hdigits
        cases hblock : blocks[asked]? with
        | some block => simp [replyTo, hblocks, hblock]
        | none => exact ⟨[], by simp [replyTo, hblocks, hblock]⟩

end GatewayLedger

end LedgerIndex
