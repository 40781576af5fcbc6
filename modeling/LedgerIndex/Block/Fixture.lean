import LedgerIndex.Block.Record

/-! # Sample blocks

Builders of serialized blocks as a peer serves them: `TxFixture` is a transaction under
construction, `BlockFixture` a block, and `ChainFixture` a chain of blocks in which each carries the
header hash of the one before. -/

namespace LedgerIndex

/-- An operation of an endorser transaction. -/
inductive KeyOperation where
  | read (namespaceName key : String)
  | write (namespaceName key : String) (value : Bytes)
  | delete (namespaceName key : String)
deriving DecidableEq, Repr, Inhabited

namespace KeyOperation

/-- The namespace of an operation. -/
def namespaceName : KeyOperation → String
  | read ns _ | write ns _ _ | delete ns _ => ns

/-- The read that an operation is. -/
def read? : KeyOperation → Option Encoded.KeyRead
  | read _ key => some ⟨key⟩
  | _ => none

/-- The write that an operation is. -/
def write? : KeyOperation → Option Encoded.KeyWrite
  | read _ _ => none
  | write _ key value => some ⟨key, false, value⟩
  | delete _ key => some ⟨key, true, []⟩

end KeyOperation

/-- What kind of transaction is built. -/
inductive TxFixture.Content where
  | config
  | endorser (chaincode version : String) (operations : List KeyOperation)
  | endorserWithoutActions
  | ofCode (code : Int32)
deriving DecidableEq, Repr, Inhabited

/-- A transaction under construction. -/
structure TxFixture where
  txId : String
  channel : String
  creator : Bytes
  timestamp : Int64
  content : TxFixture.Content
deriving DecidableEq, Repr, Inhabited

namespace TxFixture

/-- The certificate of the sample creator. -/
def certificate : String :=
  "-----BEGIN CERTIFICATE-----\n"
    ++ "MIICKzCCAdGgAwIBAgIRAKbnJ0a2hhZ0Lm9yZzEuZWwtbmV0d29yay5jb20wCgYI\n"
    ++ "-----END CERTIFICATE-----\n"

/-- The organization of the sample creator. -/
def organization : String := "Org1MSP"

/-- The time of a transaction that is given none. -/
def epoch : Int64 := 1700000000

/-- The serialized sample creator. -/
def sampleCreator : Bytes :=
  Wire.encode (M := Encoded.SerializedIdentity) ⟨organization, Utf8.encode certificate⟩

/-- The names of the namespaces in the order of their first use. -/
def namespaces (operations : List KeyOperation) : List String :=
  operations.foldl (fun names op =>
    if op.namespaceName ∈ names then names else names ++ [op.namespaceName]) []

/-- The operations on one namespace. -/
def namespaceSet (operations : List KeyOperation) (name : String) : Encoded.NamespaceSet :=
  let own := operations.filter (·.namespaceName == name)
  ⟨name, Wire.encode (M := Encoded.KeyReadWriteSet)
    ⟨own.filterMap KeyOperation.read?, own.filterMap KeyOperation.write?⟩⟩

/-- The serialized payload of an action. -/
def actionPayload (chaincode version : String) (operations : List KeyOperation) : Bytes :=
  let results : Encoded.TxReadWriteSet :=
    ⟨0, (namespaces operations).map (namespaceSet operations)⟩
  let action : Encoded.ChaincodeAction := ⟨Wire.encode results, [], some ⟨"", chaincode, version⟩⟩
  let response : Encoded.ProposalResponsePayload := ⟨[], Wire.encode action⟩
  Wire.encode (M := Encoded.ChaincodeActionPayload) ⟨[], some ⟨Wire.encode response⟩⟩

/-- The code of a transaction under construction. -/
def code (tx : TxFixture) : Int32 :=
  match tx.content with
  | .config => 1
  | .endorser .. | .endorserWithoutActions => 3
  | .ofCode code => code

/-- The serialized content of a transaction. -/
def data (tx : TxFixture) : Bytes :=
  match tx.content with
  | .config | .ofCode _ => []
  | .endorserWithoutActions => Wire.encode (M := Encoded.Transaction) ⟨[]⟩
  | .endorser chaincode version operations =>
    Wire.encode (M := Encoded.Transaction) ⟨[⟨[], actionPayload chaincode version operations⟩]⟩

/-- The serialized envelope of a transaction. -/
def envelope (tx : TxFixture) : Bytes :=
  let channelHeader : Encoded.ChannelHeader :=
    ⟨tx.code, 0, some ⟨tx.timestamp, 0⟩, tx.channel, tx.txId, 0⟩
  let signatureHeader : Encoded.SignatureHeader := ⟨tx.creator, Utf8.encode tx.txId⟩
  let payload : Encoded.Payload :=
    ⟨some ⟨Wire.encode channelHeader, Wire.encode signatureHeader⟩, tx.data⟩
  Wire.encode (M := Encoded.Envelope) ⟨Wire.encode payload, []⟩

end TxFixture

/-- A block under construction; without codes of its own every transaction is valid. -/
structure BlockFixture where
  number : UInt64
  previousHash : Bytes
  transactions : List TxFixture
  validationCodes : Option Bytes
deriving DecidableEq, Repr, Inhabited

namespace BlockFixture

/-- The envelopes of a block under construction. -/
def entries (block : BlockFixture) : List Bytes :=
  block.transactions.map TxFixture.envelope

def dataHash (block : BlockFixture) : Bytes :=
  Sha256.digest (block.entries.flatMap id)

/-- The header of a block under construction. -/
def header (block : BlockFixture) : BlockHeader :=
  ⟨block.number.toNat, block.previousHash, block.dataHash⟩

def encode (block : BlockFixture) : Bytes :=
  let entries := block.entries
  let codes := block.validationCodes.getD (List.replicate entries.length 0)
  Wire.encode (M := Encoded.Block)
    { header := some ⟨block.number, block.previousHash, block.dataHash⟩
      data := some ⟨entries⟩
      metadata := some ⟨[[], [], codes, []]⟩ }

end BlockFixture

/-- A chain of blocks under construction: the number and the previous hash of the next one. -/
structure ChainFixture where
  channel : String
  nextNumber : Nat
  previousHash : Bytes
deriving DecidableEq, Repr, Inhabited

namespace ChainFixture

/-- The chain of a channel before its first block. -/
def start (channel : String) : ChainFixture :=
  ⟨channel, 0, []⟩

/-- Appends a block of the given transactions. -/
def append (chain : ChainFixture) (transactions : List TxFixture) : BlockFixture × ChainFixture :=
  let block : BlockFixture :=
    ⟨chain.nextNumber.toUInt64, chain.previousHash, transactions, none⟩
  (block, { chain with
    nextNumber := chain.nextNumber + 1
    previousHash := Sha256.digest block.header.element })

/-- The transaction of a simple block: one write of one key. -/
def simpleTransaction (channel : String) (number : Nat) : TxFixture :=
  { txId := "tx-" ++ channel ++ "-" ++ Decimal.text number
    channel := channel
    creator := TxFixture.sampleCreator
    timestamp := TxFixture.epoch + Int64.ofNat number
    content := .endorser "mycc" "1.0"
      [.write "ns1" ("key" ++ Decimal.text number) (Utf8.encode "\x7b\"id\":\"asset\"\x7d")] }

/-- Appends a block with a single transaction. -/
def appendSimple (chain : ChainFixture) : BlockFixture × ChainFixture :=
  chain.append [simpleTransaction chain.channel chain.nextNumber]

inductive Step where
  | simple (count : Nat)
  | next (transactions : List TxFixture)
deriving DecidableEq, Repr, Inhabited

/-- Appends a number of simple blocks, after the ones in `done`, last first. -/
def appendSimples : Nat → List BlockFixture → ChainFixture → List BlockFixture × ChainFixture
  | 0, done, chain => (done.reverse, chain)
  | count + 1, done, chain =>
    let (block, chain) := chain.appendSimple
    appendSimples count (block :: done) chain

def step (chain : ChainFixture) : Step → List BlockFixture × ChainFixture
  | .simple count => appendSimples count [] chain
  | .next transactions =>
    let (block, chain) := chain.append transactions
    ([block], chain)

/-- The blocks of a sequence of steps. -/
def steps (chain : ChainFixture) : List Step → List BlockFixture × ChainFixture
  | [] => ([], chain)
  | s :: rest =>
    let (blocks, chain) := chain.step s
    let (more, chain) := chain.steps rest
    (blocks ++ more, chain)

end ChainFixture

end LedgerIndex
