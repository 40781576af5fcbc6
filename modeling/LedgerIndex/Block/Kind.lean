/-! # Kinds of transaction

Every transaction envelope carries a numeric code that says what kind of transaction it is. -/

namespace LedgerIndex

inductive TxKind where
  | message
  | config
  | configUpdate
  | endorser
  | orderer
  | deliverSeekInfo
  | chaincodePackage
  | peerAdminOperation
  | token
  | unrecognized
deriving DecidableEq, Repr

namespace TxKind

/-- All kinds, the recognized ones in the order of their codes. -/
def all : List TxKind :=
  [.message, .config, .configUpdate, .endorser, .orderer, .deliverSeekInfo, .chaincodePackage,
    .peerAdminOperation, .token, .unrecognized]

/-- The code of a recognized kind. -/
def code? : TxKind → Option Int32
  | .message => some 0
  | .config => some 1
  | .configUpdate => some 2
  | .endorser => some 3
  | .orderer => some 4
  | .deliverSeekInfo => some 5
  | .chaincodePackage => some 6
  | .peerAdminOperation => some 8
  | .token => some 9
  | .unrecognized => none

/-- The kind with a code; a code of no kind is unrecognized. -/
def ofCode (code : Int32) : TxKind :=
  (all.find? fun kind => kind.code? == some code).getD .unrecognized

/-- The name under which a kind is shown and stored. -/
def name : TxKind → String
  | .message => "MESSAGE"
  | .config => "CONFIG"
  | .configUpdate => "CONFIG_UPDATE"
  | .endorser => "ENDORSER_TRANSACTION"
  | .orderer => "ORDERER_TRANSACTION"
  | .deliverSeekInfo => "DELIVER_SEEK_INFO"
  | .chaincodePackage => "CHAINCODE_PACKAGE"
  | .peerAdminOperation => "PEER_ADMIN_OPERATION"
  | .token => "TOKEN_TRANSACTION"
  | .unrecognized => "UNRECOGNIZED_TYPE"

/-- The name of the kind with a code. -/
def nameOfCode (code : Int32) : String :=
  (ofCode code).name

/-- The kind whose transactions carry an endorsement. -/
def isEndorser (kind : TxKind) : Bool :=
  kind == .endorser

end TxKind

end LedgerIndex
