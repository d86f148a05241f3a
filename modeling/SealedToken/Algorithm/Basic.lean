import SealedToken.Algorithm.Size
import SealedToken.Error
import SealedToken.Key.Curve

/-!
The registered algorithms: those that sign, those that manage a content
encryption key and those that encrypt content. A name belongs to one algorithm
of one class, and a look-up asks for a class, so a name of one class never
stands in for an algorithm of another.
-/

namespace SealedToken

/-- What an algorithm is for. -/
inductive AlgorithmUsage
  | signature
  | keyExchange
  | encryption
  deriving DecidableEq, Repr

def AlgorithmUsage.name : AlgorithmUsage → String
  | .signature => "sig"
  | .keyExchange => "kex"
  | .encryption => "enc"

/-- The header parameter that carries the name of an algorithm. -/
inductive HeaderLocation
  | alg
  | enc
  deriving DecidableEq, Repr

def HeaderLocation.name : HeaderLocation → String
  | .alg => "alg"
  | .enc => "enc"

/-- The registered facts about an algorithm. -/
structure AlgorithmDescriptor where
  name : String
  description : String
  /-- The key size in bits, none where the context determines it. -/
  keySize : Option Nat
  location : HeaderLocation
  usage : AlgorithmUsage
  deriving DecidableEq, Repr

/-! ### Signing -/

/-- The digest a curve signs with. -/
def EllipticCurve.sha : EllipticCurve → ShaSize
  | .p256 | .secp256k1 => .sha256
  | .p384 => .sha384
  | .p521 => .sha512

inductive SigningAlgorithm
  | hmac (h : ShaSize)
  | rsaPkcs1 (h : ShaSize)
  | rsaPss (h : ShaSize)
  | ecdsa (c : EllipticCurve)
  | eddsa
  /-- The algorithm without any signature. -/
  | unsecured
  deriving DecidableEq, Repr

namespace SigningAlgorithm

def all : List SigningAlgorithm :=
  [.hmac .sha256, .hmac .sha384, .hmac .sha512,
   .rsaPkcs1 .sha256, .rsaPkcs1 .sha384, .rsaPkcs1 .sha512,
   .rsaPss .sha256, .rsaPss .sha384, .rsaPss .sha512,
   .ecdsa .p256, .ecdsa .p384, .ecdsa .p521, .ecdsa .secp256k1,
   .eddsa, .unsecured]

def name : SigningAlgorithm → String
  | .hmac h => s!"HS{h.bits}"
  | .rsaPkcs1 h => s!"RS{h.bits}"
  | .rsaPss h => s!"PS{h.bits}"
  | .ecdsa .p256 => "ES256"
  | .ecdsa .p384 => "ES384"
  | .ecdsa .p521 => "ES512"
  | .ecdsa .secp256k1 => "ES256K"
  | .eddsa => "EdDSA"
  | .unsecured => "none"

def description : SigningAlgorithm → String
  | .hmac h => s!"HMAC using SHA-{h.bits}"
  | .rsaPkcs1 h => s!"RSASSA-PKCS1-v1_5 using SHA-{h.bits}"
  | .rsaPss h => s!"RSASSA-PSS using SHA-{h.bits} and MGF1 with SHA-{h.bits}"
  | .ecdsa c => s!"ECDSA using {c.name} and SHA-{c.sha.bits}"
  | .eddsa => "EdDSA using Ed25519"
  | .unsecured => "No digital signature or MAC performed"

def keySize : SigningAlgorithm → Option Nat
  | .hmac h => some h.bits
  | .rsaPkcs1 _ | .rsaPss _ => some 2048
  | .ecdsa .p384 => some 384
  | .ecdsa .p521 => some 521
  | .ecdsa _ => some 256
  | .eddsa => none
  | .unsecured => some 0

def descriptor (a : SigningAlgorithm) : AlgorithmDescriptor :=
  ⟨a.name, a.description, a.keySize, .alg, .signature⟩

/-- The curve an algorithm signs on. -/
def curve : SigningAlgorithm → Except Error EllipticCurve
  | .ecdsa c => .ok c
  | other => .error (.invalidKey (.noCurve other.name))

end SigningAlgorithm

/-! ### Key management -/

inductive KeyManagementAlgorithm
  /-- The key itself encrypts the content. -/
  | direct
  | rsaPkcs1
  /-- Optimal padding with SHA-1. -/
  | rsaOaep
  /-- Optimal padding with SHA-256. -/
  | rsaOaep256
  | aesKeyWrap (s : AesSize)
  | aesGcmKeyWrap (s : AesSize)
  /-- A password from which the key that wraps is derived. -/
  | pbes2 (s : AesSize)
  /-- Key agreement; the agreed key encrypts the content or wraps the key that
  does. -/
  | ecdhEs (wrap : Option AesSize)
  deriving DecidableEq, Repr

namespace KeyManagementAlgorithm

def all : List KeyManagementAlgorithm :=
  [.direct, .rsaPkcs1, .rsaOaep, .rsaOaep256,
   .aesKeyWrap .aes128, .aesKeyWrap .aes192, .aesKeyWrap .aes256,
   .aesGcmKeyWrap .aes128, .aesGcmKeyWrap .aes192, .aesGcmKeyWrap .aes256,
   .pbes2 .aes128, .pbes2 .aes192, .pbes2 .aes256,
   .ecdhEs none, .ecdhEs (some .aes128), .ecdhEs (some .aes192), .ecdhEs (some .aes256)]

def name : KeyManagementAlgorithm → String
  | .direct => "dir"
  | .rsaPkcs1 => "RSA1_5"
  | .rsaOaep => "RSA-OAEP"
  | .rsaOaep256 => "RSA-OAEP-256"
  | .aesKeyWrap s => s!"A{s.bits}KW"
  | .aesGcmKeyWrap s => s!"A{s.bits}GCMKW"
  | .pbes2 s => s!"PBES2-HS{s.sha.bits}+A{s.bits}KW"
  | .ecdhEs none => "ECDH-ES"
  | .ecdhEs (some s) => s!"ECDH-ES+A{s.bits}KW"

def description : KeyManagementAlgorithm → String
  | .direct => "Direct use of a shared symmetric key"
  | .rsaPkcs1 => "RSAES-PKCS1-v1_5"
  | .rsaOaep => "RSAES OAEP using default parameters"
  | .rsaOaep256 => "RSAES OAEP using SHA-256 and MGF1 with SHA-256"
  | .aesKeyWrap s => s!"AES Key Wrap using {s.bits}-bit key"
  | .aesGcmKeyWrap s => s!"Key wrapping with AES GCM using {s.bits}-bit key"
  | .pbes2 s => s!"PBES2 with HMAC SHA-{s.sha.bits} and \"A{s.bits}KW\" wrapping"
  | .ecdhEs none => "ECDH-ES using Concat KDF"
  | .ecdhEs (some s) => s!"ECDH-ES using Concat KDF and \"A{s.bits}KW\" wrapping"

def keySize : KeyManagementAlgorithm → Option Nat
  | .direct | .ecdhEs none => none
  | .rsaPkcs1 | .rsaOaep | .rsaOaep256 => some 2048
  | .aesKeyWrap s | .aesGcmKeyWrap s | .pbes2 s | .ecdhEs (some s) => some s.bits

def descriptor (a : KeyManagementAlgorithm) : AlgorithmDescriptor :=
  ⟨a.name, a.description, a.keySize, .alg, .keyExchange⟩

/-- The algorithms that determine the content encryption key by themselves. -/
def determinesKey : KeyManagementAlgorithm → Bool
  | .direct | .ecdhEs none => true
  | _ => false

end KeyManagementAlgorithm

/-! ### Content encryption -/

inductive ContentEncryptionAlgorithm
  /-- Chained blocks, authenticated by a tag over everything else. -/
  | cbcHmac (s : AesSize)
  | gcm (s : AesSize)
  deriving DecidableEq, Repr

namespace ContentEncryptionAlgorithm

def all : List ContentEncryptionAlgorithm :=
  [.cbcHmac .aes128, .cbcHmac .aes192, .cbcHmac .aes256,
   .gcm .aes128, .gcm .aes192, .gcm .aes256]

def name : ContentEncryptionAlgorithm → String
  | .cbcHmac s => s!"A{s.bits}CBC-HS{s.sha.bits}"
  | .gcm s => s!"A{s.bits}GCM"

def description : ContentEncryptionAlgorithm → String
  | .cbcHmac s =>
      s!"AES_{s.bits}_CBC_HMAC_SHA_{s.sha.bits} authenticated encryption algorithm"
  | .gcm s => s!"AES GCM using {s.bits}-bit key"

/-- The size in bits of the content encryption key; chained blocks need a key
for the tag as well. -/
def keySize : ContentEncryptionAlgorithm → Nat
  | .cbcHmac s => 2 * s.bits
  | .gcm s => s.bits

def descriptor (a : ContentEncryptionAlgorithm) : AlgorithmDescriptor :=
  ⟨a.name, a.description, some a.keySize, .enc, .encryption⟩

end ContentEncryptionAlgorithm

/-! ### The registry -/

/-- A registered algorithm of any class. -/
inductive Algorithm
  | signing (a : SigningAlgorithm)
  | keyManagement (a : KeyManagementAlgorithm)
  | contentEncryption (a : ContentEncryptionAlgorithm)
  deriving DecidableEq, Repr

namespace Algorithm

def descriptor : Algorithm → AlgorithmDescriptor
  | .signing a => a.descriptor
  | .keyManagement a => a.descriptor
  | .contentEncryption a => a.descriptor

def name (a : Algorithm) : String := a.descriptor.name

def registered : List Algorithm :=
  SigningAlgorithm.all.map .signing ++
    (KeyManagementAlgorithm.all.map .keyManagement ++
      ContentEncryptionAlgorithm.all.map .contentEncryption)

def lookup (name : String) : Except Error Algorithm :=
  match registered.find? (·.name == name) with
  | some a => .ok a
  | none => .error (.unknownAlgorithm name)

/-- The names that are refused unless a caller allows them. -/
def restricted : List String := ["none", "RSA1_5"]

/-- The names allowed where no list of allowed names is given, in order. -/
def defaultAllowed : List String :=
  ((registered.map name).filter (! restricted.contains ·)).mergeSort

/-- Is a name allowed by a list, or by the default where there is none? -/
def checkAllowed (allowed : Option (List String)) (name : String) : Except Error Unit := do
  let permitted ←
    match allowed with
    | some names => pure (names.contains name)
    | none => do
        let _ ← lookup name
        pure (defaultAllowed.contains name)
  if permitted then pure () else throw (.algorithmNotAllowed name)

end Algorithm

def SigningAlgorithm.lookup (name : String) : Except Error SigningAlgorithm := do
  match ← Algorithm.lookup name with
  | .signing a => pure a
  | _ => throw (.unknownAlgorithm name)

def KeyManagementAlgorithm.lookup (name : String) : Except Error KeyManagementAlgorithm := do
  match ← Algorithm.lookup name with
  | .keyManagement a => pure a
  | _ => throw (.unknownAlgorithm name)

def ContentEncryptionAlgorithm.lookup (name : String) :
    Except Error ContentEncryptionAlgorithm := do
  match ← Algorithm.lookup name with
  | .contentEncryption a => pure a
  | _ => throw (.unknownAlgorithm name)

end SealedToken
