import LedgerIndex.Wire.Message

/-! # The serialized form of a block

The message types of the block format, each with the numbers of its fields.  Many fields hold a
further serialized message as a byte string, so a block is read layer by layer. -/

namespace LedgerIndex.Encoded

open Wire

/-- Seconds and nanoseconds since 1970. -/
structure Timestamp where
  seconds : Int64 := 0
  nanos : Int32 := 0
deriving DecidableEq

instance : Message Timestamp where
  empty := {}
  merge _ m f := match f.number with
    | 1 => f.int64?.map fun v => { m with seconds := v }
    | 2 => f.int32?.map fun v => { m with nanos := v }
    | _ => some m
  fields m := Field.ofInt64 1 m.seconds ++ Field.ofInt32 2 m.nanos

/-- The number of a block and the hashes that chain it. -/
structure BlockHeader where
  number : UInt64 := 0
  previousHash : Bytes := []
  dataHash : Bytes := []
deriving DecidableEq

instance : Message BlockHeader where
  empty := {}
  merge _ m f := match f.number with
    | 1 => f.uint64?.map fun v => { m with number := v }
    | 2 => f.bytes?.map fun v => { m with previousHash := v }
    | 3 => f.bytes?.map fun v => { m with dataHash := v }
    | _ => some m
  fields m :=
    Field.ofUInt64 1 m.number ++ Field.ofBytes 2 m.previousHash ++ Field.ofBytes 3 m.dataHash

structure BlockData where
  entries : List Bytes := []
deriving DecidableEq

instance : Message BlockData where
  empty := {}
  merge _ m f := match f.number with
    | 1 => f.bytes?.map fun v => { m with entries := m.entries ++ [v] }
    | _ => some m
  fields m := Field.ofBytesList 1 m.entries

/-- What the network adds to a block; the third entry holds the validation codes. -/
structure BlockMetadata where
  entries : List Bytes := []
deriving DecidableEq

instance : Message BlockMetadata where
  empty := {}
  merge _ m f := match f.number with
    | 1 => f.bytes?.map fun v => { m with entries := m.entries ++ [v] }
    | _ => some m
  fields m := Field.ofBytesList 1 m.entries

structure Block where
  header : Option BlockHeader := none
  data : Option BlockData := none
  metadata : Option BlockMetadata := none
deriving DecidableEq

instance : Message Block where
  empty := {}
  merge budget m f := match f.number with
    | 1 => (f.message? budget m.header).map fun v => { m with header := some v }
    | 2 => (f.message? budget m.data).map fun v => { m with data := some v }
    | 3 => (f.message? budget m.metadata).map fun v => { m with metadata := some v }
    | _ => some m
  fields m :=
    Field.ofMessage? 1 m.header ++ Field.ofMessage? 2 m.data ++ Field.ofMessage? 3 m.metadata

structure Envelope where
  payload : Bytes := []
  signature : Bytes := []
deriving DecidableEq

instance : Message Envelope where
  empty := {}
  merge _ m f := match f.number with
    | 1 => f.bytes?.map fun v => { m with payload := v }
    | 2 => f.bytes?.map fun v => { m with signature := v }
    | _ => some m
  fields m := Field.ofBytes 1 m.payload ++ Field.ofBytes 2 m.signature

/-- The two serialized headers of a payload. -/
structure Header where
  channelHeader : Bytes := []
  signatureHeader : Bytes := []
deriving DecidableEq

instance : Message Header where
  empty := {}
  merge _ m f := match f.number with
    | 1 => f.bytes?.map fun v => { m with channelHeader := v }
    | 2 => f.bytes?.map fun v => { m with signatureHeader := v }
    | _ => some m
  fields m := Field.ofBytes 1 m.channelHeader ++ Field.ofBytes 2 m.signatureHeader

/-- Headers and serialized content of a transaction. -/
structure Payload where
  header : Option Header := none
  data : Bytes := []
deriving DecidableEq

instance : Message Payload where
  empty := {}
  merge budget m f := match f.number with
    | 1 => (f.message? budget m.header).map fun v => { m with header := some v }
    | 2 => f.bytes?.map fun v => { m with data := v }
    | _ => some m
  fields m := Field.ofMessage? 1 m.header ++ Field.ofBytes 2 m.data

/-- Kind, time, channel and identifier of a transaction. -/
structure ChannelHeader where
  kind : Int32 := 0
  version : Int32 := 0
  timestamp : Option Timestamp := none
  channelId : String := ""
  txId : String := ""
  epoch : UInt64 := 0
deriving DecidableEq

instance : Message ChannelHeader where
  empty := {}
  merge budget m f := match f.number with
    | 1 => f.int32?.map fun v => { m with kind := v }
    | 2 => f.int32?.map fun v => { m with version := v }
    | 3 => (f.message? budget m.timestamp).map fun v => { m with timestamp := some v }
    | 4 => f.text?.map fun v => { m with channelId := v }
    | 5 => f.text?.map fun v => { m with txId := v }
    | 6 => f.uint64?.map fun v => { m with epoch := v }
    | _ => some m
  fields m :=
    Field.ofInt32 1 m.kind ++ Field.ofInt32 2 m.version ++ Field.ofMessage? 3 m.timestamp
      ++ Field.ofText 4 m.channelId ++ Field.ofText 5 m.txId ++ Field.ofUInt64 6 m.epoch

structure SignatureHeader where
  creator : Bytes := []
  nonce : Bytes := []
deriving DecidableEq

instance : Message SignatureHeader where
  empty := {}
  merge _ m f := match f.number with
    | 1 => f.bytes?.map fun v => { m with creator := v }
    | 2 => f.bytes?.map fun v => { m with nonce := v }
    | _ => some m
  fields m := Field.ofBytes 1 m.creator ++ Field.ofBytes 2 m.nonce

/-- A member of an organization and its certificate. -/
structure SerializedIdentity where
  mspId : String := ""
  idBytes : Bytes := []
deriving DecidableEq

instance : Message SerializedIdentity where
  empty := {}
  merge _ m f := match f.number with
    | 1 => f.text?.map fun v => { m with mspId := v }
    | 2 => f.bytes?.map fun v => { m with idBytes := v }
    | _ => some m
  fields m := Field.ofText 1 m.mspId ++ Field.ofBytes 2 m.idBytes

/-- One action of an endorser transaction. -/
structure TransactionAction where
  header : Bytes := []
  payload : Bytes := []
deriving DecidableEq

instance : Message TransactionAction where
  empty := {}
  merge _ m f := match f.number with
    | 1 => f.bytes?.map fun v => { m with header := v }
    | 2 => f.bytes?.map fun v => { m with payload := v }
    | _ => some m
  fields m := Field.ofBytes 1 m.header ++ Field.ofBytes 2 m.payload

/-- The actions of an endorser transaction. -/
structure Transaction where
  actions : List TransactionAction := []
deriving DecidableEq

instance : Message Transaction where
  empty := {}
  merge budget m f := match f.number with
    | 1 => (f.message? budget none).map fun v => { m with actions := m.actions ++ [v] }
    | _ => some m
  fields m := Field.ofMessages 1 m.actions

/-- The endorsed answer to a proposal. -/
structure ChaincodeEndorsedAction where
  proposalResponsePayload : Bytes := []
deriving DecidableEq

instance : Message ChaincodeEndorsedAction where
  empty := {}
  merge _ m f := match f.number with
    | 1 => f.bytes?.map fun v => { m with proposalResponsePayload := v }
    | _ => some m
  fields m := Field.ofBytes 1 m.proposalResponsePayload

/-- A proposal and the endorsed answer to it. -/
structure ChaincodeActionPayload where
  proposalPayload : Bytes := []
  action : Option ChaincodeEndorsedAction := none
deriving DecidableEq

instance : Message ChaincodeActionPayload where
  empty := {}
  merge budget m f := match f.number with
    | 1 => f.bytes?.map fun v => { m with proposalPayload := v }
    | 2 => (f.message? budget m.action).map fun v => { m with action := some v }
    | _ => some m
  fields m := Field.ofBytes 1 m.proposalPayload ++ Field.ofMessage? 2 m.action

structure ProposalResponsePayload where
  proposalHash : Bytes := []
  extension : Bytes := []
deriving DecidableEq

instance : Message ProposalResponsePayload where
  empty := {}
  merge _ m f := match f.number with
    | 1 => f.bytes?.map fun v => { m with proposalHash := v }
    | 2 => f.bytes?.map fun v => { m with extension := v }
    | _ => some m
  fields m := Field.ofBytes 1 m.proposalHash ++ Field.ofBytes 2 m.extension

/-- Name and version of a chaincode. -/
structure ChaincodeId where
  path : String := ""
  name : String := ""
  version : String := ""
deriving DecidableEq

instance : Message ChaincodeId where
  empty := {}
  merge _ m f := match f.number with
    | 1 => f.text?.map fun v => { m with path := v }
    | 2 => f.text?.map fun v => { m with name := v }
    | 3 => f.text?.map fun v => { m with version := v }
    | _ => some m
  fields m := Field.ofText 1 m.path ++ Field.ofText 2 m.name ++ Field.ofText 3 m.version

structure ChaincodeAction where
  results : Bytes := []
  events : Bytes := []
  chaincodeId : Option ChaincodeId := none
deriving DecidableEq

instance : Message ChaincodeAction where
  empty := {}
  merge budget m f := match f.number with
    | 1 => f.bytes?.map fun v => { m with results := v }
    | 2 => f.bytes?.map fun v => { m with events := v }
    | 4 => (f.message? budget m.chaincodeId).map fun v => { m with chaincodeId := some v }
    | _ => some m
  fields m :=
    Field.ofBytes 1 m.results ++ Field.ofBytes 2 m.events ++ Field.ofMessage? 4 m.chaincodeId

/-- The serialized reads and writes of one namespace. -/
structure NamespaceSet where
  namespaceName : String := ""
  keys : Bytes := []
deriving DecidableEq

instance : Message NamespaceSet where
  empty := {}
  merge _ m f := match f.number with
    | 1 => f.text?.map fun v => { m with namespaceName := v }
    | 2 => f.bytes?.map fun v => { m with keys := v }
    | _ => some m
  fields m := Field.ofText 1 m.namespaceName ++ Field.ofBytes 2 m.keys

/-- The reads and writes of a transaction, by namespace. -/
structure TxReadWriteSet where
  dataModel : Int32 := 0
  namespaces : List NamespaceSet := []
deriving DecidableEq

instance : Message TxReadWriteSet where
  empty := {}
  merge budget m f := match f.number with
    | 1 => f.int32?.map fun v => { m with dataModel := v }
    | 2 => (f.message? budget none).map fun v => { m with namespaces := m.namespaces ++ [v] }
    | _ => some m
  fields m := Field.ofInt32 1 m.dataModel ++ Field.ofMessages 2 m.namespaces

structure KeyRead where
  key : String := ""
deriving DecidableEq

instance : Message KeyRead where
  empty := {}
  merge _ m f := match f.number with
    | 1 => f.text?.map fun v => { m with key := v }
    | _ => some m
  fields m := Field.ofText 1 m.key

/-- A key that was written or deleted. -/
structure KeyWrite where
  key : String := ""
  isDelete : Bool := false
  value : Bytes := []
deriving DecidableEq

instance : Message KeyWrite where
  empty := {}
  merge _ m f := match f.number with
    | 1 => f.text?.map fun v => { m with key := v }
    | 2 => f.bool?.map fun v => { m with isDelete := v }
    | 3 => f.bytes?.map fun v => { m with value := v }
    | _ => some m
  fields m := Field.ofText 1 m.key ++ Field.ofBool 2 m.isDelete ++ Field.ofBytes 3 m.value

/-- The reads and writes of one namespace. -/
structure KeyReadWriteSet where
  reads : List KeyRead := []
  writes : List KeyWrite := []
deriving DecidableEq

instance : Message KeyReadWriteSet where
  empty := {}
  merge budget m f := match f.number with
    | 1 => (f.message? budget none).map fun v => { m with reads := m.reads ++ [v] }
    | 3 => (f.message? budget none).map fun v => { m with writes := m.writes ++ [v] }
    | _ => some m
  fields m := Field.ofMessages 1 m.reads ++ Field.ofMessages 3 m.writes

end LedgerIndex.Encoded
