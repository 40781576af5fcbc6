import LedgerIndex.Der
import LedgerIndex.Tls.Pem

/-! # Certificates and identities

A certificate authority is trusted when all its certificates are readable.  A client identity is a
certificate together with a private key that belongs to it. -/

namespace LedgerIndex.Tls

/-- The content of a single sequence. -/
def sequence? (bytes : Bytes) : Option Bytes :=
  match Der.read? .sequence bytes with
  | some (content, []) => some content
  | _ => none

/-- The bit string of a public key, from the element that describes the key. -/
def bitsOf? (keyInfo : Bytes) : Option Bytes :=
  match Der.elements? keyInfo with
  | some [(0x30, _), (0x03, bits)] => some bits
  | _ => none

/-- The public key of a certificate: a sequence of the signed part, an algorithm and a signature;
the signed part has an optional version, the serial number, the algorithm, the issuer, the validity,
the subject and the key. -/
def publicKey? (certificate : Bytes) : Option Bytes := do
  let body ← sequence? certificate
  match ← Der.elements? body with
  | [(0x30, signed), (0x30, _), (0x03, _)] =>
    let fields ← Der.elements? signed
    let fields := match fields with
      | (0xA0, _) :: rest => rest
      | _ => fields
    match fields with
    | (0x02, _) :: (0x30, _) :: (0x30, _) :: (0x30, _) :: (0x30, _) :: (0x30, key) :: _ =>
      bitsOf? key
    | _ => none
  | _ => none

/-- The public key that an elliptic-curve private key carries. -/
def curvePublicKey? (key : Bytes) : Option Bytes := do
  let body ← sequence? key
  let fields ← Der.elements? body
  let (_, tagged) ← fields.find? (·.1 == 0xA1)
  match ← Der.elements? tagged with
  | [(0x03, bits)] => some bits
  | _ => none

/-- The modulus of an integer-factoring private key. -/
def modulus? (key : Bytes) : Option Bytes := do
  let body ← sequence? key
  match ← Der.elements? body with
  | (0x02, _) :: (0x02, modulus) :: _ :: _ :: _ => some modulus
  | _ => none

/-- The private key inside its algorithm-independent wrapping. -/
def unwrapKey? (key : Bytes) : Option Bytes := do
  let body ← sequence? key
  match ← Der.elements? body with
  | (0x02, _) :: (0x30, _) :: (0x04, inner) :: _ => some inner
  | _ => none

/-- A private key belongs to a public key: the public key holds the point or the modulus that the
private key carries. -/
def belongs (key publicKey : Bytes) : Bool :=
  match curvePublicKey? key with
  | some bits => bits == publicKey
  | none =>
    match modulus? key with
    | some modulus => Search.occursIn modulus publicKey
    | none => false

/-- The private key of a section that holds one. -/
def privateKey? (s : Pem.Section) : Option (Option Bytes) :=
  match s.label with
  | "PRIVATE KEY" => some (unwrapKey? s.content)
  | "RSA PRIVATE KEY" | "EC PRIVATE KEY" => some (some s.content)
  | _ => none

/-- The labels of sections that are neither certificates nor private keys. -/
def otherLabels : List String :=
  ["PUBLIC KEY", "X509 CRL", "CERTIFICATE REQUEST", "ECHCONFIG"]

/-- A certificate followed by its key, on lines of their own. -/
def joinIdentity (certificate key : Bytes) : Bytes :=
  certificate ++ (if certificate.getLast? = some 0x0A then [] else [0x0A]) ++ key

/-- The file holds a client identity: certificates, the first of which belongs to the last private
key. -/
def isIdentity (bytes : Bytes) : Bool :=
  match Pem.sections? bytes with
  | none => false
  | some sections =>
    let certificates := sections.filter (·.label == "CERTIFICATE")
    let keys := sections.filterMap privateKey?
    !(sections.any fun s => otherLabels.contains s.label) &&
      match certificates.head?.bind (publicKey? ·.content), keys.getLast?.join with
      | some publicKey, some key => belongs key publicKey
      | _, _ => false

/-- The file holds readable certificates only, or none at all. -/
def isTrustAnchor (bytes : Bytes) : Bool :=
  match Pem.sections? bytes with
  | none => false
  | some sections =>
    (sections.filter (·.label == "CERTIFICATE")).all fun s => (publicKey? s.content).isSome

end LedgerIndex.Tls
