import LedgerIndex.Block.Encoded
import LedgerIndex.Proofs.Wire.Messages

/-! # The block format is read back

Every message type of the block format is lawful: what its fields write is read back field by field.
The types without nested messages need one level, the others a second one for their parts. -/

namespace LedgerIndex.Encoded

open Wire Wire.Message

/-! ### Messages without parts -/

instance : Lawful Timestamp 1 where
  sets {_ m} _ _ :=
    (Sets.ofInt64 (fun v => ({ seconds := v } : Timestamp)) (fun _ => rfl) rfl).append
      (Sets.ofInt32 (fun v => { m with nanos := v }) (fun _ => rfl) rfl)

instance : Lawful BlockHeader 1 where
  sets {_ m} _ _ :=
    ((Sets.ofUInt64 (fun v => ({ number := v } : BlockHeader)) (fun _ => rfl) rfl).append
      (Sets.ofBytes (fun v => { number := m.number, previousHash := v }) (fun _ => rfl) rfl)).append
      (Sets.ofBytes (fun v => { m with dataHash := v }) (fun _ => rfl) rfl)

instance : Lawful BlockData 1 where
  sets _ _ := Sets.ofBytesList BlockData.mk fun _ _ => rfl

instance : Lawful BlockMetadata 1 where
  sets _ _ := Sets.ofBytesList BlockMetadata.mk fun _ _ => rfl

instance : Lawful Envelope 1 where
  sets {_ m} _ _ :=
    (Sets.ofBytes (fun v => ({ payload := v } : Envelope)) (fun _ => rfl) rfl).append
      (Sets.ofBytes (fun v => { m with signature := v }) (fun _ => rfl) rfl)

instance : Lawful Header 1 where
  sets {_ m} _ _ :=
    (Sets.ofBytes (fun v => ({ channelHeader := v } : Header)) (fun _ => rfl) rfl).append
      (Sets.ofBytes (fun v => { m with signatureHeader := v }) (fun _ => rfl) rfl)

instance : Lawful SignatureHeader 1 where
  sets {_ m} _ _ :=
    (Sets.ofBytes (fun v => ({ creator := v } : SignatureHeader)) (fun _ => rfl) rfl).append
      (Sets.ofBytes (fun v => { m with nonce := v }) (fun _ => rfl) rfl)

instance : Lawful SerializedIdentity 1 where
  sets {_ m} _ _ :=
    (Sets.ofText (fun v => ({ mspId := v } : SerializedIdentity)) (fun _ => rfl) rfl).append
      (Sets.ofBytes (fun v => { m with idBytes := v }) (fun _ => rfl) rfl)

instance : Lawful TransactionAction 1 where
  sets {_ m} _ _ :=
    (Sets.ofBytes (fun v => ({ header := v } : TransactionAction)) (fun _ => rfl) rfl).append
      (Sets.ofBytes (fun v => { m with payload := v }) (fun _ => rfl) rfl)

instance : Lawful ChaincodeEndorsedAction 1 where
  sets _ _ := Sets.ofBytes ChaincodeEndorsedAction.mk (fun _ => rfl) rfl

instance : Lawful ProposalResponsePayload 1 where
  sets {_ m} _ _ :=
    (Sets.ofBytes (fun v => ({ proposalHash := v } : ProposalResponsePayload))
      (fun _ => rfl) rfl).append
      (Sets.ofBytes (fun v => { m with extension := v }) (fun _ => rfl) rfl)

instance : Lawful ChaincodeId 1 where
  sets {_ m} _ _ :=
    ((Sets.ofText (fun v => ({ path := v } : ChaincodeId)) (fun _ => rfl) rfl).append
      (Sets.ofText (fun v => { path := m.path, name := v }) (fun _ => rfl) rfl)).append
      (Sets.ofText (fun v => { m with version := v }) (fun _ => rfl) rfl)

instance : Lawful NamespaceSet 1 where
  sets {_ m} _ _ :=
    (Sets.ofText (fun v => ({ namespaceName := v } : NamespaceSet)) (fun _ => rfl) rfl).append
      (Sets.ofBytes (fun v => { m with keys := v }) (fun _ => rfl) rfl)

instance : Lawful KeyRead 1 where
  sets _ _ := Sets.ofText KeyRead.mk (fun _ => rfl) rfl

instance : Lawful KeyWrite 1 where
  sets {_ m} _ _ :=
    ((Sets.ofText (fun v => ({ key := v } : KeyWrite)) (fun _ => rfl) rfl).append
      (Sets.ofBool (fun v => { key := m.key, isDelete := v }) (fun _ => rfl) rfl)).append
      (Sets.ofBytes (fun v => { m with value := v }) (fun _ => rfl) rfl)

/-! ### Messages with parts

The parts are among the fields, so they are no longer than the message and read back themselves. -/

instance : Lawful Block 2 where
  sets {budget m} hbudget hfits := by
    have hheader : ∀ v, m.header = some v → ReadsBack (budget - 1) v := fun v hv =>
      readsBack_part 1 hbudget hfits (by simp [fields, Field.ofMessage?, hv])
    have hdata : ∀ v, m.data = some v → ReadsBack (budget - 1) v := fun v hv =>
      readsBack_part 2 hbudget hfits (by simp [fields, Field.ofMessage?, hv])
    have hmetadata : ∀ v, m.metadata = some v → ReadsBack (budget - 1) v := fun v hv =>
      readsBack_part 3 hbudget hfits (by simp [fields, Field.ofMessage?, hv])
    exact ((Sets.ofMessage? (fun v => ({ header := v } : Block)) (fun _ => rfl) rfl hheader).append
      (Sets.ofMessage? (fun v => { header := m.header, data := v }) (fun _ => rfl) rfl
        hdata)).append
      (Sets.ofMessage? (fun v => { m with metadata := v }) (fun _ => rfl) rfl hmetadata)

instance : Lawful Payload 2 where
  sets {budget m} hbudget hfits := by
    have hheader : ∀ v, m.header = some v → ReadsBack (budget - 1) v := fun v hv =>
      readsBack_part 1 hbudget hfits (by simp [fields, Field.ofMessage?, hv])
    exact (Sets.ofMessage? (fun v => ({ header := v } : Payload)) (fun _ => rfl) rfl hheader).append
      (Sets.ofBytes (fun v => { m with data := v }) (fun _ => rfl) rfl)

instance : Lawful ChannelHeader 2 where
  sets {budget m} hbudget hfits := by
    have htimestamp : ∀ v, m.timestamp = some v → ReadsBack (budget - 1) v := fun v hv =>
      readsBack_part 3 hbudget hfits (by simp [fields, Field.ofMessage?, hv])
    exact (((((Sets.ofInt32 (fun v => ({ kind := v } : ChannelHeader)) (fun _ => rfl) rfl).append
      (Sets.ofInt32 (fun v => { kind := m.kind, version := v }) (fun _ => rfl) rfl)).append
      (Sets.ofMessage? (fun v => { kind := m.kind, version := m.version, timestamp := v })
        (fun _ => rfl) rfl htimestamp)).append
      (Sets.ofText (fun v => { m with channelId := v, txId := "", epoch := 0 })
        (fun _ => rfl) rfl)).append
      (Sets.ofText (fun v => { m with txId := v, epoch := 0 }) (fun _ => rfl) rfl)).append
      (Sets.ofUInt64 (fun v => { m with epoch := v }) (fun _ => rfl) rfl)

instance : Lawful Transaction 2 where
  sets {budget m} hbudget hfits := by
    have hactions : ∀ v ∈ m.actions, ReadsBack (budget - 1) v := fun v hv =>
      readsBack_part 1 hbudget hfits (by simp [fields, Field.ofMessages, List.mem_map_of_mem hv])
    exact Sets.ofMessages Transaction.mk (fun _ _ => rfl) hactions

instance : Lawful ChaincodeActionPayload 2 where
  sets {budget m} hbudget hfits := by
    have haction : ∀ v, m.action = some v → ReadsBack (budget - 1) v := fun v hv =>
      readsBack_part 2 hbudget hfits (by simp [fields, Field.ofMessage?, hv])
    exact (Sets.ofBytes (fun v => ({ proposalPayload := v } : ChaincodeActionPayload))
      (fun _ => rfl) rfl).append
      (Sets.ofMessage? (fun v => { m with action := v }) (fun _ => rfl) rfl haction)

instance : Lawful ChaincodeAction 2 where
  sets {budget m} hbudget hfits := by
    have hid : ∀ v, m.chaincodeId = some v → ReadsBack (budget - 1) v := fun v hv =>
      readsBack_part 4 hbudget hfits (by simp [fields, Field.ofMessage?, hv])
    exact ((Sets.ofBytes (fun v => ({ results := v } : ChaincodeAction)) (fun _ => rfl) rfl).append
      (Sets.ofBytes (fun v => { results := m.results, events := v }) (fun _ => rfl) rfl)).append
      (Sets.ofMessage? (fun v => { m with chaincodeId := v }) (fun _ => rfl) rfl hid)

instance : Lawful TxReadWriteSet 2 where
  sets {budget m} hbudget hfits := by
    have hnamespaces : ∀ v ∈ m.namespaces, ReadsBack (budget - 1) v := fun v hv =>
      readsBack_part 2 hbudget hfits (by simp [fields, Field.ofMessages, List.mem_map_of_mem hv])
    exact (Sets.ofInt32 (fun v => ({ dataModel := v } : TxReadWriteSet)) (fun _ => rfl) rfl).append
      (Sets.ofMessages (fun v => { m with namespaces := v }) (fun _ _ => rfl) hnamespaces)

instance : Lawful KeyReadWriteSet 2 where
  sets {budget m} hbudget hfits := by
    have hreads : ∀ v ∈ m.reads, ReadsBack (budget - 1) v := fun v hv =>
      readsBack_part 1 hbudget hfits (by simp [fields, Field.ofMessages, List.mem_map_of_mem hv])
    have hwrites : ∀ v ∈ m.writes, ReadsBack (budget - 1) v := fun v hv =>
      readsBack_part 3 hbudget hfits (by simp [fields, Field.ofMessages, List.mem_map_of_mem hv])
    exact (Sets.ofMessages (fun v => ({ reads := v } : KeyReadWriteSet)) (fun _ _ => rfl)
      hreads).append
      (Sets.ofMessages (fun v => { m with writes := v }) (fun _ _ => rfl) hwrites)

end LedgerIndex.Encoded
