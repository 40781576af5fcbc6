import LedgerIndex.Block.Encoded
import LedgerIndex.Proofs.Wire.Grammar

/-! # The message types of the block format

`Encoded.MessageType` names the message types, and `MessageType.declared` lists the fields that each
of them declares, with what a field holds: a nested message, the bytes of a further message, or
neither.  The table is exact: a field of any other number changes nothing
(`MessageType.merge_undeclared`), and a group is refused at the declared numbers and nowhere else
(`MessageType.merge_group_eq_none_iff`).

So a field of an undeclared number may stand between any two fields of a message
(`MessageType.mergeBytes?_insert`). -/

namespace LedgerIndex.Encoded

open Wire

/-- A message type of the block format. -/
inductive MessageType where
  | timestamp
  | blockHeader
  | blockData
  | blockMetadata
  | block
  | envelope
  | header
  | payload
  | channelHeader
  | signatureHeader
  | serializedIdentity
  | transactionAction
  | transaction
  | chaincodeEndorsedAction
  | chaincodeActionPayload
  | proposalResponsePayload
  | chaincodeId
  | chaincodeAction
  | namespaceSet
  | txReadWriteSet
  | keyRead
  | keyWrite
  | keyReadWriteSet
deriving DecidableEq

namespace MessageType

def Value : MessageType → Type
  | timestamp => Timestamp
  | blockHeader => BlockHeader
  | blockData => BlockData
  | blockMetadata => BlockMetadata
  | block => Block
  | envelope => Envelope
  | header => Header
  | payload => Payload
  | channelHeader => ChannelHeader
  | signatureHeader => SignatureHeader
  | serializedIdentity => SerializedIdentity
  | transactionAction => TransactionAction
  | transaction => Transaction
  | chaincodeEndorsedAction => ChaincodeEndorsedAction
  | chaincodeActionPayload => ChaincodeActionPayload
  | proposalResponsePayload => ProposalResponsePayload
  | chaincodeId => ChaincodeId
  | chaincodeAction => ChaincodeAction
  | namespaceSet => NamespaceSet
  | txReadWriteSet => TxReadWriteSet
  | keyRead => KeyRead
  | keyWrite => KeyWrite
  | keyReadWriteSet => KeyReadWriteSet

instance : (type : MessageType) → Message type.Value
  | timestamp => (inferInstance : Message Timestamp)
  | blockHeader => (inferInstance : Message BlockHeader)
  | blockData => (inferInstance : Message BlockData)
  | blockMetadata => (inferInstance : Message BlockMetadata)
  | block => (inferInstance : Message Block)
  | envelope => (inferInstance : Message Envelope)
  | header => (inferInstance : Message Header)
  | payload => (inferInstance : Message Payload)
  | channelHeader => (inferInstance : Message ChannelHeader)
  | signatureHeader => (inferInstance : Message SignatureHeader)
  | serializedIdentity => (inferInstance : Message SerializedIdentity)
  | transactionAction => (inferInstance : Message TransactionAction)
  | transaction => (inferInstance : Message Transaction)
  | chaincodeEndorsedAction => (inferInstance : Message ChaincodeEndorsedAction)
  | chaincodeActionPayload => (inferInstance : Message ChaincodeActionPayload)
  | proposalResponsePayload => (inferInstance : Message ProposalResponsePayload)
  | chaincodeId => (inferInstance : Message ChaincodeId)
  | chaincodeAction => (inferInstance : Message ChaincodeAction)
  | namespaceSet => (inferInstance : Message NamespaceSet)
  | txReadWriteSet => (inferInstance : Message TxReadWriteSet)
  | keyRead => (inferInstance : Message KeyRead)
  | keyWrite => (inferInstance : Message KeyWrite)
  | keyReadWriteSet => (inferInstance : Message KeyReadWriteSet)

/-! ### Declared fields -/

inductive Part where
  /-- A number, a text, or bytes that are taken as they are. -/
  | plain
  /-- A message that is read with the message around it. -/
  | nested (type : MessageType)
  /-- The bytes of a message that is read on its own, if at all. -/
  | wrapped (type : MessageType)
deriving DecidableEq

/-- The numbers that a message type declares, and what their fields hold. -/
def declared : MessageType → List (Nat × Part)
  | timestamp => [(1, .plain), (2, .plain)]
  | blockHeader => [(1, .plain), (2, .plain), (3, .plain)]
  | blockData => [(1, .wrapped envelope)]
  | blockMetadata => [(1, .plain)]
  | block => [(1, .nested blockHeader), (2, .nested blockData), (3, .nested blockMetadata)]
  | envelope => [(1, .wrapped payload), (2, .plain)]
  | header => [(1, .wrapped channelHeader), (2, .wrapped signatureHeader)]
  | payload => [(1, .nested header), (2, .wrapped transaction)]
  | channelHeader =>
      [(1, .plain), (2, .plain), (3, .nested timestamp), (4, .plain), (5, .plain), (6, .plain)]
  | signatureHeader => [(1, .plain), (2, .plain)]
  | serializedIdentity => [(1, .plain), (2, .plain)]
  | transactionAction => [(1, .plain), (2, .wrapped chaincodeActionPayload)]
  | transaction => [(1, .nested transactionAction)]
  | chaincodeEndorsedAction => [(1, .wrapped proposalResponsePayload)]
  | chaincodeActionPayload => [(1, .plain), (2, .nested chaincodeEndorsedAction)]
  | proposalResponsePayload => [(1, .plain), (2, .wrapped chaincodeAction)]
  | chaincodeId => [(1, .plain), (2, .plain), (3, .plain)]
  | chaincodeAction => [(1, .wrapped txReadWriteSet), (2, .plain), (4, .nested chaincodeId)]
  | namespaceSet => [(1, .plain), (2, .wrapped keyReadWriteSet)]
  | txReadWriteSet => [(1, .plain), (2, .nested namespaceSet)]
  | keyRead => [(1, .plain)]
  | keyWrite => [(1, .plain), (2, .plain), (3, .plain)]
  | keyReadWriteSet => [(1, .nested keyRead), (3, .nested keyWrite)]

/-- A message type declares no field of a number. -/
def Undeclared (type : MessageType) (number : Nat) : Prop :=
  ∀ entry ∈ type.declared, entry.1 ≠ number

instance (type : MessageType) (number : Nat) : Decidable (type.Undeclared number) :=
  inferInstanceAs (Decidable (∀ entry ∈ type.declared, entry.1 ≠ number))

variable {type : MessageType} {budget number : Nat} {field : Field}

theorem undeclared_or (type : MessageType) (number : Nat) :
    type.Undeclared number ∨ ∃ part, (number, part) ∈ type.declared := by
  by_cases h : ∃ part, (number, part) ∈ type.declared
  · exact .inr h
  · exact .inl fun entry hentry heq => h ⟨entry.2, heq ▸ hentry⟩

/-- **An undeclared field changes nothing.** -/
theorem merge_undeclared (m : type.Value) (h : type.Undeclared field.number) :
    Message.merge budget m field = some m := by
  obtain ⟨number, payload⟩ := field
  cases type <;>
    simp only [Undeclared, declared, List.mem_cons, List.not_mem_nil, or_false,
      forall_eq_or_imp, forall_eq] at h <;>
    simp only [Message.merge] <;>
    split <;>
    first
      | rfl
      | simp_all

theorem merge_group (m : type.Value) {part : Part} (h : (number, part) ∈ type.declared) :
    Message.merge budget m ⟨number, .group⟩ = none := by
  cases type <;>
    simp only [declared, List.mem_cons, List.not_mem_nil, or_false, Prod.mk.injEq] at h <;>
    simp only [Message.merge] <;>
    split <;>
    first
      | rfl
      | simp_all

/-- **A group tells the declared numbers apart from all others.** -/
theorem merge_group_eq_none_iff (m : type.Value) :
    Message.merge budget m ⟨number, .group⟩ = none ↔ ¬ type.Undeclared number := by
  constructor
  · intro h hnumber
    rw [merge_undeclared m hnumber] at h
    cases h
  · intro h
    obtain hnumber | ⟨part, hmem⟩ := undeclared_or type number
    · exact absurd hnumber h
    · exact merge_group m hmem

/-! ### Undeclared fields between the others -/

theorem mergeBytes?_insert {fields : List Field} {before added : Bytes} (m : type.Value)
    (hbefore : IsFields budget fields before) (hadded : IsField budget field added)
    (hnumber : type.Undeclared field.number) (behind : Bytes) :
    mergeBytes? budget m (before ++ added ++ behind) = mergeBytes? budget m (before ++ behind) := by
  induction hbefore generalizing m with
  | nil =>
      rw [List.nil_append, mergeBytes?_field m hadded, merge_undeclared m hnumber]
      rfl
  | cons hfirst _ ih =>
      simp only [List.append_assoc] at ih ⊢
      rw [mergeBytes?_field m hfirst, mergeBytes?_field m hfirst]
      exact congrArg _ (funext ih)

end MessageType

end LedgerIndex.Encoded
