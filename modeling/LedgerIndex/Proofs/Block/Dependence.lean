import LedgerIndex.Proofs.Block.Fixture
import LedgerIndex.Proofs.Wire.Lists

/-! # What a transaction depends on

An envelope is read through its headers.  Two envelopes with the same headers are read alike when
their kind is not the endorser kind, whatever they carry (`Transaction.decode_eq_of_kind`), and when
the first actions of what they carry have the same payload, whatever else is in it
(`Transaction.decode_eq_of_payload`).  What is read has an endorsement just for the endorser kind,
and its reads and writes stand namespace by namespace as in the bytes
(`Transaction.decode_sound`). -/

namespace LedgerIndex

open Wire

/-- The bytes are an envelope with these headers and this content; the signature is any. -/
def Encloses (bytes : Bytes) (header : Encoded.Header) (data : Bytes) : Prop :=
  ∃ payload signature, decode? bytes = some (⟨payload, signature⟩ : Encoded.Envelope) ∧
    decode? payload = some (⟨some header, data⟩ : Encoded.Payload)

namespace Endorsement

/-- What the first action of some content has as its results; other actions may follow. -/
def FirstResults (data results : Bytes) : Prop :=
  ∃ action others payload endorsed response done,
    decode? data = some (⟨action :: others⟩ : Encoded.Transaction) ∧
    decode? action.payload = some (payload : Encoded.ChaincodeActionPayload) ∧
    payload.action = some endorsed ∧
    decode? endorsed.proposalResponsePayload = some (response : Encoded.ProposalResponsePayload) ∧
    decode? response.extension = some (done : Encoded.ChaincodeAction) ∧ done.results = results

/-- The reads and the writes of one namespace, in the order of its bytes. -/
def OfNamespace (ns : Encoded.NamespaceSet) (keys : List KeyRead × List KeyWrite) : Prop :=
  ∃ reads writes, Lists 1 reads ns.keys ∧ Lists 3 writes ns.keys ∧
    keys.1 = reads.map (fun r : Encoded.KeyRead => ⟨ns.namespaceName, r.key⟩) ∧
    keys.2 = writes.map fun w : Encoded.KeyWrite =>
      ⟨ns.namespaceName, w.key, w.value, w.isDelete⟩

/-- The reads and the writes of some results are those of their namespaces, one namespace after
the other in the order of the bytes. -/
def OfResults (results : Bytes) (endorsement : Endorsement) : Prop :=
  ∃ namespaces keys, Lists 2 namespaces results ∧ List.Forall₂ OfNamespace namespaces keys ∧
    endorsement.reads = keys.flatMap Prod.fst ∧ endorsement.writes = keys.flatMap Prod.snd

end Endorsement

/-! ### Layers that are read -/

theorem decodeMessage_eq_ok {M : Type} [Message M] {bytes : Bytes} {m : M} :
    decodeMessage M bytes = .ok m ↔ decode? bytes = some m := by
  unfold decodeMessage
  cases decode? (M := M) bytes <;> simp

theorem exists_of_bind_eq_ok {ε α β : Type} {x : Except ε α} {f : α → Except ε β} {b : β}
    (h : x >>= f = .ok b) : ∃ a, x = .ok a ∧ f a = .ok b := by
  cases x with
  | error e => cases h
  | ok a => exact ⟨a, rfl, h⟩

theorem required_eq_ok {α : Type} {name : String} {x : Option α} {a : α} :
    required name x = .ok a ↔ x = some a := by
  cases x <;> simp [required]

theorem mapM_eq_ok {ε α β : Type} {f : α → Except ε β} {l : List α} {l' : List β}
    (h : l.mapM f = .ok l') : List.Forall₂ (fun a b => f a = .ok b) l l' := by
  induction l generalizing l' with
  | nil =>
      cases h
      exact .nil
  | cons a l ih =>
      rw [List.mapM_cons] at h
      obtain ⟨b, hb, h⟩ := exists_of_bind_eq_ok h
      obtain ⟨l', hl, h⟩ := exists_of_bind_eq_ok h
      cases h
      exact .cons hb (ih hl)

/-! ### The headers -/

section Headers

variable {bytes data : Bytes} {header : Encoded.Header}

theorem Encloses.opened (h : Encloses bytes header data) :
    OpenedEnvelope.decode bytes = (do
      let channelHeader ← decodeMessage Encoded.ChannelHeader header.channelHeader
      let signatureHeader ← decodeMessage Encoded.SignatureHeader header.signatureHeader
      return ⟨channelHeader, signatureHeader, data⟩) := by
  obtain ⟨payload, signature, henvelope, hpayload⟩ := h
  refine bind_eq_of_ok (decodeMessage_eq_ok.mpr henvelope) ?_
  exact bind_eq_of_ok (decodeMessage_eq_ok.mpr hpayload) (bind_eq_of_ok rfl rfl)

theorem Encloses.unique {header' : Encoded.Header} {data' : Bytes} (h : Encloses bytes header data)
    (h' : Encloses bytes header' data') : header = header' ∧ data = data' := by
  obtain ⟨payload, signature, henvelope, hpayload⟩ := h
  obtain ⟨payload', signature', henvelope', hpayload'⟩ := h'
  cases henvelope.symm.trans henvelope'
  cases hpayload.symm.trans hpayload'
  exact ⟨rfl, rfl⟩

theorem OpenedEnvelope.decode_sound {envelope : OpenedEnvelope}
    (h : OpenedEnvelope.decode bytes = .ok envelope) :
    ∃ header, Encloses bytes header envelope.data ∧
      decode? header.channelHeader = some envelope.channelHeader ∧
      decode? header.signatureHeader = some envelope.signatureHeader := by
  obtain ⟨⟨bytes', signature⟩, henvelope, h⟩ := exists_of_bind_eq_ok h
  obtain ⟨⟨header?, data⟩, hpayload, h⟩ := exists_of_bind_eq_ok h
  obtain ⟨header, hheader, h⟩ := exists_of_bind_eq_ok h
  obtain ⟨channelHeader, hchannel, h⟩ := exists_of_bind_eq_ok h
  obtain ⟨signatureHeader, hsignature, h⟩ := exists_of_bind_eq_ok h
  cases h
  cases required_eq_ok.mp hheader
  rw [decodeMessage_eq_ok] at henvelope hpayload hchannel hsignature
  exact ⟨header, ⟨bytes', signature, henvelope, hpayload⟩, hchannel, hsignature⟩

end Headers

/-! ### The content -/

namespace Endorsement

theorem decode_of_first {data : Bytes} {action : Encoded.TransactionAction}
    {others : List Encoded.TransactionAction}
    (h : decode? data = some (⟨action :: others⟩ : Encoded.Transaction)) :
    decode data = decodeAction action.payload :=
  bind_eq_of_ok (decodeMessage_eq_ok.mpr h) rfl

theorem decodeNamespace_sound {ns : Encoded.NamespaceSet} {keys : List KeyRead × List KeyWrite}
    (h : decodeNamespace ns = .ok keys) : OfNamespace ns keys := by
  obtain ⟨set, hset, h⟩ := exists_of_bind_eq_ok h
  cases h
  rw [decodeMessage_eq_ok] at hset
  exact ⟨set.reads, set.writes, Encoded.KeyReadWriteSet.collects_reads.lists hset,
    Encoded.KeyReadWriteSet.collects_writes.lists hset, rfl, rfl⟩

/-- **An endorsement holds what the first action did, in the order of the bytes.** -/
theorem decode_sound {data : Bytes} {endorsement : Endorsement}
    (h : decode data = .ok endorsement) :
    ∃ results, FirstResults data results ∧ OfResults results endorsement := by
  obtain ⟨⟨actions⟩, htransaction, h⟩ := exists_of_bind_eq_ok h
  cases actions with
  | nil => cases h
  | cons action others =>
      obtain ⟨payload, hpayload, h⟩ := exists_of_bind_eq_ok h
      obtain ⟨endorsed, hendorsed, h⟩ := exists_of_bind_eq_ok h
      obtain ⟨response, hresponse, h⟩ := exists_of_bind_eq_ok h
      obtain ⟨done, hdone, h⟩ := exists_of_bind_eq_ok h
      obtain ⟨set, hset, h⟩ := exists_of_bind_eq_ok h
      obtain ⟨keys, hkeys, h⟩ := exists_of_bind_eq_ok h
      cases h
      rw [decodeMessage_eq_ok] at htransaction hpayload hresponse hdone hset
      rw [required_eq_ok] at hendorsed
      refine ⟨done.results, ⟨action, others, payload, endorsed, response, done, htransaction,
        hpayload, hendorsed, hresponse, hdone, rfl⟩, ?_⟩
      exact ⟨set.namespaces, keys, Encoded.TxReadWriteSet.collects_namespaces.lists hset,
        (mapM_eq_ok hkeys).imp fun _ _ => decodeNamespace_sound, rfl, rfl⟩

end Endorsement

/-! ### Headers and content together -/

namespace OpenedEnvelope

variable (envelope : OpenedEnvelope)

/-- The transaction of an envelope whose content is read as the given endorsement. -/
def withEndorsement (endorsement : Option Endorsement) : Transaction where
  txId := envelope.channelHeader.txId
  channelId := envelope.channelHeader.channelId
  creator := Creator.ofBytes envelope.signatureHeader.creator
  kind := TxKind.ofCode envelope.channelHeader.kind
  timestamp := envelope.instant?
  endorsement := endorsement

/-- The transaction of an envelope that has been opened. -/
def transaction : Except DecodeError Transaction :=
  if envelope.channelHeader.kind = 3 then
    (Endorsement.decode envelope.data).map fun endorsement =>
      envelope.withEndorsement (some endorsement)
  else .ok (envelope.withEndorsement none)

end OpenedEnvelope

namespace Transaction

section TwoEnvelopes

variable {bytes bytes' data data' : Bytes} {header : Encoded.Header}

theorem decode_eq (bytes : Bytes) :
    decode bytes = OpenedEnvelope.decode bytes >>= OpenedEnvelope.transaction := by
  refine congrArg (OpenedEnvelope.decode bytes >>= ·) (funext fun envelope => ?_)
  unfold OpenedEnvelope.transaction
  by_cases hkind : envelope.channelHeader.kind = 3
  · have hendorser : (TxKind.ofCode envelope.channelHeader.kind).isEndorser = true := by
      rw [hkind]
      rfl
    simp only [if_pos hkind, if_pos hendorser]
    cases Endorsement.decode envelope.data <;> rfl
  · have hother : ¬ (TxKind.ofCode envelope.channelHeader.kind).isEndorser = true := by
      rw [TxKind.isEndorser_ofCode hkind]
      decide
    simp only [if_neg hkind, if_neg hother]
    rfl

/-- **What is read has an endorsement just for the endorser kind, and its reads and writes stand as
in the bytes.** -/
theorem decode_sound {tx : Transaction} (h : decode bytes = .ok tx) :
    ∃ header data channelHeader, Encloses bytes header data ∧
      decode? header.channelHeader = some (channelHeader : Encoded.ChannelHeader) ∧
      tx.kind = TxKind.ofCode channelHeader.kind ∧
      (tx.endorsement.isSome ↔ channelHeader.kind = 3) ∧
      ∀ endorsement ∈ tx.endorsement, ∃ results, Endorsement.FirstResults data results ∧
        Endorsement.OfResults results endorsement := by
  rw [decode_eq] at h
  obtain ⟨envelope, henvelope, h⟩ := exists_of_bind_eq_ok h
  obtain ⟨header, hencloses, hchannel, -⟩ := OpenedEnvelope.decode_sound henvelope
  refine ⟨header, envelope.data, envelope.channelHeader, hencloses, hchannel, ?_⟩
  unfold OpenedEnvelope.transaction at h
  split at h
  · rename_i hkind
    cases hcontent : Endorsement.decode envelope.data with
    | error e =>
        rw [hcontent] at h
        cases h
    | ok endorsement =>
        rw [hcontent] at h
        cases h
        refine ⟨rfl, by simp [OpenedEnvelope.withEndorsement, hkind], ?_⟩
        rintro _ ⟨⟩
        exact Endorsement.decode_sound hcontent
  · rename_i hkind
    cases h
    exact ⟨rfl, by simp [OpenedEnvelope.withEndorsement, hkind], nofun⟩

/-- Envelopes with the same headers are read alike when their contents are. -/
theorem decode_congr (h : Encloses bytes header data) (h' : Encloses bytes' header data')
    (hcontent : ∀ channelHeader : Encoded.ChannelHeader,
      decode? header.channelHeader = some channelHeader → channelHeader.kind = 3 →
        Endorsement.decode data = Endorsement.decode data') : decode bytes = decode bytes' := by
  rw [decode_eq, decode_eq, h.opened, h'.opened]
  cases hchannel : decodeMessage Encoded.ChannelHeader header.channelHeader with
  | error e => rfl
  | ok channelHeader =>
      cases decodeMessage Encoded.SignatureHeader header.signatureHeader with
      | error e => rfl
      | ok signatureHeader =>
          show OpenedEnvelope.transaction ⟨channelHeader, signatureHeader, data⟩
            = OpenedEnvelope.transaction ⟨channelHeader, signatureHeader, data'⟩
          unfold OpenedEnvelope.transaction
          split
          · rename_i hkind
            dsimp only
            rw [hcontent channelHeader (decodeMessage_eq_ok.mp hchannel) hkind]
            rfl
          · rfl

theorem decode_of_kind (h : Encloses bytes header data) {channelHeader : Encoded.ChannelHeader}
    {signatureHeader : Encoded.SignatureHeader}
    (hchannel : decode? header.channelHeader = some channelHeader)
    (hsignature : decode? header.signatureHeader = some signatureHeader)
    (hkind : channelHeader.kind ≠ 3) :
    decode bytes
      = .ok (OpenedEnvelope.withEndorsement ⟨channelHeader, signatureHeader, data⟩ none) := by
  have hopened : OpenedEnvelope.decode bytes = .ok ⟨channelHeader, signatureHeader, data⟩ := by
    rw [h.opened]
    refine bind_eq_of_ok (decodeMessage_eq_ok.mpr hchannel) ?_
    exact bind_eq_of_ok (decodeMessage_eq_ok.mpr hsignature) rfl
  rw [decode_eq]
  exact bind_eq_of_ok hopened (if_neg hkind)

end TwoEnvelopes

/-- **What a transaction depends on.**  Envelopes with the same headers are read alike whatever they
carry, unless their kind is the endorser kind: no endorsement is read then, and nothing but the
headers can be malformed.  Of what an endorser transaction carries, only the payload of its first
action is read, whatever other actions follow.  What is read has an endorsement just for the
endorser kind, and its reads and writes are those of the namespaces, one after the other in the
order of the bytes. -/
theorem decode_depends :
    (∀ {bytes bytes' data data' : Bytes} {header : Encoded.Header},
      Encloses bytes header data → Encloses bytes' header data' →
      (∀ channelHeader : Encoded.ChannelHeader,
        decode? header.channelHeader = some channelHeader → channelHeader.kind ≠ 3) →
      decode bytes = decode bytes' ∧ (∀ tx, decode bytes = .ok tx → tx.endorsement = none) ∧
      ((decode? (M := Encoded.ChannelHeader) header.channelHeader).isSome →
        (decode? (M := Encoded.SignatureHeader) header.signatureHeader).isSome →
          ∃ tx, decode bytes = .ok tx)) ∧
    (∀ {bytes bytes' data data' : Bytes} {header : Encoded.Header}
      {action action' : Encoded.TransactionAction}
      {others others' : List Encoded.TransactionAction},
      Encloses bytes header data → Encloses bytes' header data' →
      decode? data = some (⟨action :: others⟩ : Encoded.Transaction) →
      decode? data' = some (⟨action' :: others'⟩ : Encoded.Transaction) →
      action.payload = action'.payload → decode bytes = decode bytes') ∧
    ∀ {bytes : Bytes} {tx : Transaction}, decode bytes = .ok tx →
      ∃ header data channelHeader, Encloses bytes header data ∧
        decode? header.channelHeader = some (channelHeader : Encoded.ChannelHeader) ∧
        tx.kind = TxKind.ofCode channelHeader.kind ∧
        (tx.endorsement.isSome ↔ channelHeader.kind = 3) ∧
        ∀ endorsement ∈ tx.endorsement, ∃ results, Endorsement.FirstResults data results ∧
          Endorsement.OfResults results endorsement := by
  refine ⟨?_, ?_, decode_sound⟩
  · intro bytes bytes' data data' header h h' hkind
    refine ⟨decode_congr h h' fun _ hchannel hendorser => (hkind _ hchannel hendorser).elim, ?_, ?_⟩
    · intro tx htx
      obtain ⟨header', _, channelHeader, hencloses, hchannel, -, hendorsement, -⟩ :=
        decode_sound htx
      obtain rfl := (h.unique hencloses).1
      rw [← Option.not_isSome_iff_eq_none, hendorsement]
      exact hkind channelHeader hchannel
    · intro hchannel hsignature
      obtain ⟨channelHeader, hchannel⟩ := Option.isSome_iff_exists.mp hchannel
      obtain ⟨signatureHeader, hsignature⟩ := Option.isSome_iff_exists.mp hsignature
      exact ⟨_, decode_of_kind h hchannel hsignature (hkind _ hchannel)⟩
  · intro bytes bytes' data data' header action action' others others' h h' hdata hdata' hpayload
    refine decode_congr h h' fun _ _ _ => ?_
    rw [Endorsement.decode_of_first hdata, Endorsement.decode_of_first hdata', hpayload]

namespace Sample

/-- Headers that only name a kind. -/
def headers (kind : Int32) : Encoded.Header :=
  ⟨Wire.encode (M := Encoded.ChannelHeader) { kind := kind }, []⟩

def envelope (kind : Int32) (data signature : Bytes) : Bytes :=
  Wire.encode (M := Encoded.Envelope)
    ⟨Wire.encode (M := Encoded.Payload) ⟨some (headers kind), data⟩, signature⟩

/-- The payload of an action in two namespaces. -/
def payload : Bytes :=
  TxFixture.actionPayload "cc" "1.0" [.write "b" "k" [1], .read "a" "k"]

def alone : Bytes :=
  Wire.encode (M := Encoded.Transaction) ⟨[⟨[], payload⟩]⟩

/-- The same action with another header, and an action that cannot be read. -/
def followed : Bytes :=
  Wire.encode (M := Encoded.Transaction) ⟨[⟨[7], payload⟩, ⟨[], [255]⟩]⟩

end Sample

open Sample in
/-- Content that cannot be read in a transaction of another kind, and in an action that is not the
first. -/
theorem decode_depends_samples :
    (decode (envelope 1 [255] []) = decode (envelope 1 [] [7]) ∧
      ∃ tx, decode (envelope 1 [255] []) = .ok tx) ∧
    decode (envelope 3 alone []) = decode (envelope 3 followed []) ∧
    ∃ tx, decode (envelope 3 followed []) = .ok tx ∧ tx.endorsement.isSome ∧
      ∃ header data channelHeader, Encloses (envelope 3 followed []) header data ∧
        decode? header.channelHeader = some (channelHeader : Encoded.ChannelHeader) ∧
        channelHeader.kind = 3 := by
  have hconfig : decode? (headers 1).channelHeader
      = some ({ kind := 1 } : Encoded.ChannelHeader) := by decide +kernel
  have hmalformed : Encloses (envelope 1 [255] []) (headers 1) [255] :=
    ⟨Wire.encode (M := Encoded.Payload) ⟨some (headers 1), [255]⟩, [],
      by decide +kernel, by decide +kernel⟩
  have hsigned : Encloses (envelope 1 [] [7]) (headers 1) [] :=
    ⟨Wire.encode (M := Encoded.Payload) ⟨some (headers 1), []⟩, [7],
      by decide +kernel, by decide +kernel⟩
  have halone : Encloses (envelope 3 alone []) (headers 3) alone :=
    ⟨Wire.encode (M := Encoded.Payload) ⟨some (headers 3), alone⟩, [],
      by decide +kernel, by decide +kernel⟩
  have hfollowed : Encloses (envelope 3 followed []) (headers 3) followed :=
    ⟨Wire.encode (M := Encoded.Payload) ⟨some (headers 3), followed⟩, [],
      by decide +kernel, by decide +kernel⟩
  refine ⟨?_, ?_, ?_⟩
  · obtain ⟨heq, -, hok⟩ := decode_depends.1 hmalformed hsigned (by
      intro channelHeader hchannel
      cases hconfig.symm.trans hchannel
      decide)
    exact ⟨heq, hok (by rw [hconfig]; rfl) (by decide +kernel)⟩
  · have hdata : decode? alone = some (⟨[⟨[], payload⟩]⟩ : Encoded.Transaction) := by
      decide +kernel
    have hdata' : decode? followed
        = some (⟨[⟨[7], payload⟩, ⟨[], [255]⟩]⟩ : Encoded.Transaction) := by decide +kernel
    exact decode_depends.2.1 halone hfollowed hdata hdata' rfl
  · have hsome : ((decode (envelope 3 followed [])).toOption.bind (·.endorsement)).isSome := by
      decide +kernel
    cases htx : decode (envelope 3 followed []) with
    | error e =>
        rw [htx] at hsome
        cases hsome
    | ok tx =>
        rw [htx] at hsome
        obtain ⟨header, data, channelHeader, hencloses, hchannel, -, hkind, -⟩ :=
          decode_depends.2.2 htx
        exact ⟨tx, rfl, hsome, header, data, channelHeader, hencloses, hchannel, hkind.mp hsome⟩

end Transaction

end LedgerIndex
