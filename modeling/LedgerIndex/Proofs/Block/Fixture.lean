import LedgerIndex.Block.Fixture
import LedgerIndex.Proofs.Block.Encoded

/-! # Sample blocks are read back

What a sample transaction is read as (`TxFixture.decode_envelope`), and what a sample block is read
as (`BlockFixture.decode_encode`).  The only condition is that the bytes can be counted in
sixty-four bits: every byte string inside is no longer, so each layer is read back in its turn.  In
a chain of sample blocks each block carries its place as its number (`ChainFixture.number_blocks`)
and the header hash of the block before (`ChainFixture.previousHash_blocks`). -/

namespace LedgerIndex

open Wire

/-! ### One layer -/

theorem bind_eq_of_ok {ε α β : Type} {x : Except ε α} {a : α} {f : α → Except ε β}
    {y : Except ε β} (h : x = .ok a) (hy : f a = y) : (x >>= f) = y := by
  rw [h]
  exact hy

theorem decodeMessage_encode {M : Type} [Message M] {depth : Nat} [Message.Lawful M depth] (m : M)
    (h : (Wire.encode m).length < UInt64.size) (hdepth : depth ≤ levels := by decide) :
    decodeMessage M (Wire.encode m) = .ok m := by
  rw [decodeMessage, decode?_encode m h hdepth]

theorem mapM_map_eq_ok {ε α β γ : Type} {write : α → β} {read : β → Except ε γ} {value : α → γ} :
    ∀ {l : List α}, (∀ a ∈ l, read (write a) = .ok (value a)) →
      (l.map write).mapM read = .ok (l.map value)
  | [], _ => rfl
  | a :: l, h => by
      have ha := h a List.mem_cons_self
      have hl := mapM_map_eq_ok fun b hb => h b (List.mem_cons_of_mem a hb)
      rw [List.map_cons, List.mapM_cons, ha, hl]
      rfl

theorem length_lt_of_field {M : Type} [Message M] {m : M} {bytes : Bytes} {n : Nat} (number : Nat)
    (h : (Wire.encode m).length < n) (hfield : Field.ofBytes number bytes ⊆ Message.fields m) :
    bytes.length < n := by
  by_cases hbytes : bytes = []
  · rw [hbytes]
    exact Nat.zero_lt_of_lt h
  · have hmem : ⟨number, .block bytes⟩ ∈ Message.fields m :=
      hfield (by simp [Field.ofBytes, Field.unlessDefault, hbytes])
    exact Nat.lt_of_le_of_lt (Message.length_le_of_mem hmem) h

theorem length_lt_of_part {M N : Type} [Message M] [Message N] {m : M} {part : N} {n : Nat}
    (number : Nat) (h : (Wire.encode m).length < n)
    (hmem : ⟨number, .block (Wire.encode part)⟩ ∈ Message.fields m) :
    (Wire.encode part).length < n :=
  Nat.lt_of_le_of_lt (Message.length_le_of_mem hmem) h

theorem TxKind.isEndorser_ofCode {code : Int32} (h : code ≠ 3) :
    (TxKind.ofCode code).isEndorser = false := by
  cases hkind : TxKind.all.find? fun kind => kind.code? == some code with
  | none => rw [ofCode, hkind]; rfl
  | some kind =>
      have hcode : (kind.code? == some code) = true :=
        List.find?_some (p := fun kind : TxKind => kind.code? == some code) hkind
      have hne : kind ≠ .endorser := by
        rintro rfl
        exact h (Option.some.inj (eq_of_beq hcode)).symm
      rw [ofCode, hkind, Option.getD_some, isEndorser, beq_eq_false_iff_ne]
      exact hne

namespace TxFixture

/-! ### What an endorser transaction did -/

section Endorser

variable (chaincode version : String) (operations : List KeyOperation)

/-- The reads and writes of a sample transaction in one namespace. -/
def keys (name : String) : List KeyRead × List KeyWrite :=
  let own := operations.filter (·.namespaceName == name)
  ((own.filterMap KeyOperation.read?).map fun r => ⟨name, r.key⟩,
    (own.filterMap KeyOperation.write?).map fun w => ⟨name, w.key, w.value, w.isDelete⟩)

/-- The endorsement of a sample transaction, namespace by namespace. -/
def endorsement : Endorsement :=
  let sets := (namespaces operations).map (keys operations)
  ⟨chaincode, version, sets.flatMap Prod.fst, sets.flatMap Prod.snd⟩

theorem decodeNamespace_namespaceSet {name : String}
    (h : (namespaceSet operations name).keys.length < UInt64.size) :
    Endorsement.decodeNamespace (namespaceSet operations name) = .ok (keys operations name) :=
  bind_eq_of_ok (decodeMessage_encode _ h) rfl

/-- The results of a sample transaction. -/
def results : Encoded.TxReadWriteSet :=
  ⟨0, (namespaces operations).map (namespaceSet operations)⟩

/-- The action of a sample transaction. -/
def action : Encoded.ChaincodeAction :=
  ⟨Wire.encode (results operations), [], some ⟨"", chaincode, version⟩⟩

/-- The endorsed answer of a sample transaction. -/
def response : Encoded.ProposalResponsePayload :=
  ⟨[], Wire.encode (action chaincode version operations)⟩

theorem actionPayload_eq : actionPayload chaincode version operations
    = Wire.encode (M := Encoded.ChaincodeActionPayload)
      ⟨[], some ⟨Wire.encode (response chaincode version operations)⟩⟩ := rfl

theorem decodeAction_actionPayload
    (h : (actionPayload chaincode version operations).length < UInt64.size) :
    Endorsement.decodeAction (actionPayload chaincode version operations)
      = .ok (endorsement chaincode version operations) := by
  rw [actionPayload_eq] at h ⊢
  have hendorsed : (Wire.encode (M := Encoded.ChaincodeEndorsedAction)
      ⟨Wire.encode (response chaincode version operations)⟩).length < UInt64.size :=
    length_lt_of_part 2 h (by simp [Message.fields, Field.ofMessage?])
  have hresponse : (Wire.encode (response chaincode version operations)).length < UInt64.size :=
    length_lt_of_field 1 hendorsed (by simp [Message.fields])
  have haction : (Wire.encode (action chaincode version operations)).length < UInt64.size :=
    length_lt_of_field 2 hresponse (by simp [Message.fields, response])
  have hresults : (Wire.encode (results operations)).length < UInt64.size :=
    length_lt_of_field 1 haction (by simp [Message.fields, action])
  have hsets : ∀ name ∈ namespaces operations,
      Endorsement.decodeNamespace (namespaceSet operations name)
        = .ok (keys operations name) := by
    intro name hname
    have hset : (Wire.encode (namespaceSet operations name)).length < UInt64.size :=
      length_lt_of_part 2 hresults (by
        simp only [Message.fields, Field.ofMessages, results, List.mem_append, List.mem_map]
        exact .inr ⟨_, ⟨name, hname, rfl⟩, rfl⟩)
    exact decodeNamespace_namespaceSet operations
      (length_lt_of_field 2 hset (by simp [Message.fields]))
  refine bind_eq_of_ok (decodeMessage_encode _ h) ?_
  refine bind_eq_of_ok rfl (bind_eq_of_ok (decodeMessage_encode _ hresponse) ?_)
  refine bind_eq_of_ok (decodeMessage_encode _ haction) ?_
  refine bind_eq_of_ok (decodeMessage_encode _ hresults) ?_
  exact bind_eq_of_ok (mapM_map_eq_ok hsets) rfl

end Endorser

variable (tx : TxFixture)

/-- The header that names the kind, the channel and the time of a sample transaction. -/
def channelHeader : Encoded.ChannelHeader :=
  ⟨tx.code, 0, some ⟨tx.timestamp, 0⟩, tx.channel, tx.txId, 0⟩

/-- The header that names the creator of a sample transaction. -/
def signatureHeader : Encoded.SignatureHeader :=
  ⟨tx.creator, Utf8.encode tx.txId⟩

/-- What the envelope of a sample transaction is around. -/
def payload : Encoded.Payload :=
  ⟨some ⟨Wire.encode tx.channelHeader, Wire.encode tx.signatureHeader⟩, tx.data⟩

theorem envelope_eq :
    tx.envelope = Wire.encode (M := Encoded.Envelope) ⟨Wire.encode tx.payload, []⟩ := rfl

variable {tx} (h : tx.envelope.length < UInt64.size)

include h

theorem payload_length_lt : (Wire.encode tx.payload).length < UInt64.size :=
  length_lt_of_field 1 (tx.envelope_eq ▸ h) (by simp [Message.fields])

theorem data_length_lt : tx.data.length < UInt64.size :=
  length_lt_of_field 2 (payload_length_lt h) (by simp [Message.fields, payload])

/-- **The headers of a sample transaction are read back.** -/
theorem opened : OpenedEnvelope.decode tx.envelope
    = .ok ⟨tx.channelHeader, tx.signatureHeader, tx.data⟩ := by
  have hpayload := payload_length_lt h
  have hheader : (Wire.encode (M := Encoded.Header)
      ⟨Wire.encode tx.channelHeader, Wire.encode tx.signatureHeader⟩).length < UInt64.size :=
    length_lt_of_part 1 hpayload (by simp [Message.fields, Field.ofMessage?, payload])
  have hchannel : (Wire.encode tx.channelHeader).length < UInt64.size :=
    length_lt_of_field 1 hheader (by simp [Message.fields])
  have hsignature : (Wire.encode tx.signatureHeader).length < UInt64.size :=
    length_lt_of_field 2 hheader (by simp [Message.fields])
  rw [envelope_eq] at h ⊢
  refine bind_eq_of_ok (decodeMessage_encode _ h) ?_
  refine bind_eq_of_ok (decodeMessage_encode _ hpayload) (bind_eq_of_ok rfl ?_)
  refine bind_eq_of_ok (decodeMessage_encode _ hchannel) ?_
  exact bind_eq_of_ok (decodeMessage_encode _ hsignature) rfl

omit h

/-- A kind of transaction that a peer can serve: an endorser transaction has its actions. -/
def Content.Proper : Content → Prop
  | .config | .endorser .. => True
  | .endorserWithoutActions => False
  | .ofCode code => code ≠ 3

instance : DecidablePred Content.Proper
  | .config | .endorser .. => .isTrue trivial
  | .endorserWithoutActions => .isFalse id
  | .ofCode _ => instDecidableNot

/-- What an endorser transaction among the sample transactions did. -/
def endorsement? : Content → Option Endorsement
  | .endorser chaincode version operations => some (endorsement chaincode version operations)
  | _ => none

/-- What a sample transaction is read as. -/
def transaction (tx : TxFixture) : Transaction where
  txId := tx.txId
  channelId := tx.channel
  creator := Creator.ofBytes tx.creator
  kind := TxKind.ofCode tx.code
  timestamp := Instant.ofUnix? tx.timestamp.toInt 0
  endorsement := endorsement? tx.content

theorem decode_data {chaincode version : String} {operations : List KeyOperation}
    (hdata : (Wire.encode (M := Encoded.Transaction)
      ⟨[⟨[], actionPayload chaincode version operations⟩]⟩).length < UInt64.size) :
    Endorsement.decode (Wire.encode (M := Encoded.Transaction)
        ⟨[⟨[], actionPayload chaincode version operations⟩]⟩)
      = .ok (endorsement chaincode version operations) := by
  have haction : (Wire.encode (M := Encoded.TransactionAction)
      ⟨[], actionPayload chaincode version operations⟩).length < UInt64.size :=
    length_lt_of_part 1 hdata (by simp [Message.fields, Field.ofMessages])
  have hpayload : (actionPayload chaincode version operations).length < UInt64.size :=
    length_lt_of_field 2 haction (by simp [Message.fields])
  exact bind_eq_of_ok (decodeMessage_encode _ hdata)
    (decodeAction_actionPayload chaincode version operations hpayload)

/-- **A sample transaction is read back.** -/
theorem decode_envelope (hproper : tx.content.Proper) (h : tx.envelope.length < UInt64.size) :
    Transaction.decode tx.envelope = .ok tx.transaction := by
  refine bind_eq_of_ok (opened h) ?_
  have hdata := data_length_lt h
  obtain ⟨txId, channel, creator, timestamp, content⟩ := tx
  cases content with
  | config => rfl
  | endorser chaincode version operations =>
      refine (if_pos rfl).trans (bind_eq_of_ok ?_ rfl)
      exact congrArg (Except.map some) (decode_data hdata)
  | endorserWithoutActions => exact hproper.elim
  | ofCode code =>
      have hkind : ¬ (TxKind.ofCode code).isEndorser = true := by
        rw [TxKind.isEndorser_ofCode hproper]
        decide
      exact (if_neg hkind).trans rfl

end TxFixture

namespace BlockFixture

variable (block : BlockFixture)

/-- The validation codes of a sample block. -/
def codes : Bytes :=
  block.validationCodes.getD (List.replicate block.entries.length 0)

/-- What a sample block that begins with the given transaction is read as. -/
def record (first : TxFixture) : Block where
  header := block.header
  timestamp := Instant.ofUnix? first.timestamp.toInt 0
  kind := TxKind.ofCode first.code
  entries := block.entries
  validationCodes := block.codes

variable {block} (h : block.encode.length < UInt64.size)

include h

theorem envelope_length_lt {tx : TxFixture} (htx : tx ∈ block.transactions) :
    tx.envelope.length < UInt64.size := by
  have hdata : (Wire.encode (M := Encoded.BlockData) ⟨block.entries⟩).length < UInt64.size :=
    length_lt_of_part 2 h (by simp [Message.fields, Field.ofMessage?])
  have hmem : ⟨1, .block tx.envelope⟩ ∈ Message.fields (⟨block.entries⟩ : Encoded.BlockData) := by
    simp only [Message.fields, Field.ofBytesList, entries, List.map_map, List.mem_map]
    exact ⟨tx, htx, rfl⟩
  exact Nat.lt_of_le_of_lt (Message.length_le_of_mem hmem) hdata

/-- **A sample block is read back.** -/
theorem decode_encode {first : TxFixture} {rest : List TxFixture}
    (htransactions : block.transactions = first :: rest) :
    Block.decode block.encode = .ok (block.record first) := by
  have hfirst : first.envelope.length < UInt64.size :=
    envelope_length_lt h (by rw [htransactions]; exact List.mem_cons_self)
  obtain ⟨number, previousHash, transactions, codes⟩ := block
  obtain rfl : transactions = first :: rest := htransactions
  refine bind_eq_of_ok (decodeMessage_encode _ h) (bind_eq_of_ok rfl ?_)
  exact bind_eq_of_ok (TxFixture.opened hfirst) rfl

/-- **The transactions of a sample block are read back.** -/
theorem mapM_decode (hproper : ∀ tx ∈ block.transactions, tx.content.Proper) :
    block.entries.mapM Transaction.decode
      = .ok (block.transactions.map TxFixture.transaction) := by
  refine mapM_map_eq_ok fun tx htx => ?_
  exact TxFixture.decode_envelope (hproper tx htx) (envelope_length_lt h htx)

end BlockFixture

/-! ### Chains -/

namespace ChainFixture

/-- The blocks of a new chain, one for each list of transactions. -/
def blocks (channel : String) (transactions : List (List TxFixture)) : List BlockFixture :=
  ((start channel).steps (transactions.map .next)).1

theorem steps_next (chain : ChainFixture) (txs : List TxFixture) (rest : List Step) :
    (chain.steps (.next txs :: rest)).1
      = (chain.append txs).1 :: ((chain.append txs).2.steps rest).1 := rfl

variable {transactions : List (List TxFixture)} {chain : ChainFixture} {i : Nat}
  {block next : BlockFixture}

theorem transactions_steps (transactions : List (List TxFixture)) (chain : ChainFixture) :
    (chain.steps (transactions.map .next)).1.map (·.transactions) = transactions := by
  induction transactions generalizing chain with
  | nil => rfl
  | cons txs transactions ih => rw [List.map_cons, steps_next, List.map_cons, ih]; rfl

theorem number_steps (h : (chain.steps (transactions.map .next)).1[i]? = some block) :
    block.number = (chain.nextNumber + i).toUInt64 := by
  induction transactions generalizing chain i with
  | nil => simp [steps] at h
  | cons txs transactions ih =>
      rw [List.map_cons, steps_next] at h
      cases i with
      | zero =>
          rw [List.getElem?_cons_zero] at h
          rw [← Option.some.inj h]
          rfl
      | succ i =>
          rw [List.getElem?_cons_succ] at h
          rw [ih h, show (chain.append txs).2.nextNumber = chain.nextNumber + 1 from rfl,
            Nat.add_assoc, Nat.add_comm 1 i]

theorem previousHash_head (h : (chain.steps (transactions.map .next)).1[0]? = some block) :
    block.previousHash = chain.previousHash := by
  cases transactions with
  | nil => simp [steps] at h
  | cons txs transactions =>
      rw [List.map_cons, steps_next, List.getElem?_cons_zero] at h
      rw [← Option.some.inj h]
      rfl

theorem previousHash_steps (h : (chain.steps (transactions.map .next)).1[i]? = some block)
    (hnext : (chain.steps (transactions.map .next)).1[i + 1]? = some next) :
    next.previousHash = Sha256.digest block.header.element := by
  induction transactions generalizing chain i with
  | nil => simp [steps] at h
  | cons txs transactions ih =>
      rw [List.map_cons, steps_next] at h hnext
      rw [List.getElem?_cons_succ] at hnext
      cases i with
      | zero =>
          rw [List.getElem?_cons_zero] at h
          rw [previousHash_head hnext, ← Option.some.inj h]
          rfl
      | succ i =>
          rw [List.getElem?_cons_succ] at h
          exact ih h hnext

variable {channel : String}

@[simp] theorem length_blocks (channel : String) (transactions : List (List TxFixture)) :
    (blocks channel transactions).length = transactions.length := by
  rw [← List.length_map (·.transactions), blocks, transactions_steps]

theorem transactions_mem (h : (blocks channel transactions)[i]? = some block) :
    block.transactions ∈ transactions := by
  have hmem : block.transactions ∈ (blocks channel transactions).map (·.transactions) :=
    List.mem_map_of_mem (List.mem_of_getElem? h)
  rwa [blocks, transactions_steps] at hmem

/-- **Each block carries its place as its number.** -/
theorem number_blocks (h : (blocks channel transactions)[i]? = some block)
    (hlength : transactions.length < UInt64.size) : block.header.number = i := by
  obtain ⟨hlt, _⟩ := List.getElem?_eq_some_iff.mp h
  rw [length_blocks] at hlt
  have hnumber : block.number = i.toUInt64 := by
    rw [number_steps h, show (start channel).nextNumber = 0 from rfl, Nat.zero_add]
  rw [BlockFixture.header, hnumber]
  simp only [Nat.toUInt64_eq, UInt64.toNat_ofNat']
  exact Nat.mod_eq_of_lt (Nat.lt_trans hlt hlength)

/-- **Each block carries the header hash of the block before.** -/
theorem previousHash_blocks (h : (blocks channel transactions)[i]? = some block)
    (hnext : (blocks channel transactions)[i + 1]? = some next) :
    next.header.previousHash = Sha256.digest block.header.element :=
  previousHash_steps h hnext

end ChainFixture

end LedgerIndex
