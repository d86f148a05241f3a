import SealedToken.Key.Curve
import SealedToken.Key.Usage
import SealedToken.Text.Utf8

/-!
Everything an operation can refuse with, by cause. The wording is kept in the
`message` functions; no decision is taken on a text. A failed verification and
a failed decryption carry no detail, so a wrong key and a tampered token look
the same.
-/

namespace SealedToken

/-- The two kinds of token that carry claims. -/
inductive TokenKind
  | signed
  | encrypted
  deriving DecidableEq, Repr

def TokenKind.name : TokenKind → String
  | .signed => "JWS"
  | .encrypted => "JWE"

/-- What is wrong with the members of a key in JSON form. -/
inductive MemberFault
  | missing (member : String)
  | unknownCurve (name : String)
  | unknownType (name : String)
  | length (expected actual : Nat)
  | base64
  deriving DecidableEq, Repr

def MemberFault.message : MemberFault → String
  | .missing member => s!"Invalid key: missing member: {member}"
  | .unknownCurve name => s!"Invalid key: unsupported curve: {name}"
  | .unknownType name => s!"Invalid key: unsupported key type: {name}"
  | .length expected actual =>
      s!"Invalid key length: expected {expected} bytes, got {actual}"
  | .base64 => "Invalid format: invalid base64url"

/-- What is wrong with the structure of a token, a header or a claims set. -/
inductive FormatFault
  | base64
  /-- No JSON, JSON of another shape, or a key in it with a faulty member. -/
  | json (inside : Option MemberFault)
  | algorithmMismatch (given header : String)
  | mixedPayloadEncoding
  | payloadEncodingNotBoolean
  | payloadEncodingNotCritical
  | noSignatures
  | noRecipients
  | signedSegments
  | encryptedSegments
  | encryptedWithoutHeader
  | signedBothForms
  | encryptedBothForms
  | segmentCount (found : Nat)
  | claimsShape
  | claimsText (fault : Utf8.Fault)
  | headersNotObject
  | protectedNotObject
  | criticalNotList
  | criticalNotStrings
  | headerNotString (name : String)
  | headerNotBase64 (name : String)
  | headerMissing (name : String)
  | compression (name : String)
  | inflate
  | inflateTruncated
  | contentAlgorithmFixed (name : String)
  | iterationsNotCount
  | iterationsAbove (given limit : Nat)
  | iterationsZero
  | saltBelow (limit : Nat)
  | encryptedKeyNotEmpty (algorithm : String)
  /-- A fault in a caller's own words. -/
  | stated (text : String)
  deriving DecidableEq, Repr

def FormatFault.message : FormatFault → String
  | .base64 => "invalid base64url"
  | .json none => "invalid json"
  | .json (some fault) => s!"invalid json: {fault.message}"
  | .algorithmMismatch given header =>
      s!"algorithm {given} does not match header alg {header}"
  | .mixedPayloadEncoding => "b64 must be the same for every signature"
  | .payloadEncodingNotBoolean => "b64 must be a boolean"
  | .payloadEncodingNotCritical => "b64 must be listed in crit"
  | .noSignatures => "no signatures"
  | .noRecipients => "no recipients"
  | .signedSegments => "compact JWS must have three segments"
  | .encryptedSegments => "compact JWE must have five segments"
  | .encryptedWithoutHeader => "compact JWE requires a protected header"
  | .signedBothForms => "JWS cannot be both flattened and general"
  | .encryptedBothForms => "JWE cannot be both flattened and general"
  | .segmentCount found => s!"token with {found} segments is neither a JWS nor a JWE"
  | .claimsShape => "claims must be a JSON object or a string"
  | .claimsText fault => s!"claims are neither JSON nor UTF-8: {fault.message}"
  | .headersNotObject => "can only set multiple headers from a key value object"
  | .protectedNotObject => "protected header is not a JSON object"
  | .criticalNotList => "crit must be a non-empty array"
  | .criticalNotStrings => "crit must only contain strings"
  | .headerNotString name => s!"header parameter {name} must be a string"
  | .headerNotBase64 name => s!"header parameter {name} must be a base64url string"
  | .headerMissing name => s!"missing {name} header parameter"
  | .compression name => s!"unsupported compression algorithm: {name}"
  | .inflate => "inflate"
  | .inflateTruncated => "truncated deflate stream"
  | .contentAlgorithmFixed name => s!"content is already encrypted with {name}"
  | .iterationsNotCount => "p2c must be an unsigned 32 bit integer"
  | .iterationsAbove given limit => s!"p2c {given} exceeds the maximum of {limit}"
  | .iterationsZero => "p2c must be positive"
  | .saltBelow limit => s!"p2s must be at least {limit} bytes"
  | .encryptedKeyNotEmpty algorithm => s!"{algorithm} requires an empty encrypted key"
  | .stated text => text

/-- Why an operation does not apply to an object in its current state. -/
inductive OperationFault
  | signDetached
  | payloadDetached
  | noSignature (index : Nat)
  | noRecipient (index : Nat)
  | payloadNotText (fault : Utf8.Fault)
  | compactSignatures (found : Nat)
  | compactSignedHeader
  | compactSignedAlgorithm
  | compactPayloadDot
  | serializeUnsigned
  | additionalDataFixed
  | noPlaintext
  | nothingToDecrypt
  | serializeUnencrypted
  | compactRecipients (found : Nat)
  | compactAdditionalData
  | compactSharedHeader
  | compactEncryptedAlgorithms
  | compactKeyNotHeld
  | compactUnencrypted
  | directKeyShared (algorithm : String)
  | noHeaders
  | claimsNotObject
  | noClaims
  | noClaimsToWrap
  | noTokenMade
  | noTokenToValidate
  | noPayload
  /-- A fault in a caller's own words. -/
  | stated (text : String)
  deriving DecidableEq, Repr

def OperationFault.message : OperationFault → String
  | .signDetached => "cannot sign a detached payload"
  | .payloadDetached => "payload is detached and none was provided"
  | .noSignature index => s!"no signature at index {index}"
  | .noRecipient index => s!"no recipient at index {index}"
  | .payloadNotText fault => s!"unencoded payload is not valid UTF-8: {fault.message}"
  | .compactSignatures found =>
      s!"compact serialization requires exactly one signature, found {found}"
  | .compactSignedHeader => "compact serialization cannot carry an unprotected header"
  | .compactSignedAlgorithm => "compact serialization requires alg in the protected header"
  | .compactPayloadDot => "unencoded payload containing '.' cannot be compact"
  | .serializeUnsigned => "cannot serialize without signatures"
  | .additionalDataFixed => "external aad must be set before the content is encrypted"
  | .noPlaintext => "no plaintext to encrypt"
  | .nothingToDecrypt => "nothing to decrypt"
  | .serializeUnencrypted => "cannot serialize before a recipient is added"
  | .compactRecipients found =>
      s!"compact serialization requires exactly one recipient, found {found}"
  | .compactAdditionalData =>
      "compact serialization cannot carry additional authenticated data"
  | .compactSharedHeader => "compact serialization cannot carry a shared unprotected header"
  | .compactEncryptedAlgorithms =>
      "compact serialization requires alg and enc in the protected header"
  | .compactKeyNotHeld =>
      "a per-recipient header can only be made compact while the key is held"
  | .compactUnencrypted => "compact serialization requires encrypted content"
  | .directKeyShared algorithm =>
      s!"{algorithm} determines the content encryption key and cannot share it between recipients"
  | .noHeaders => "headers are None, deserialize not supported"
  | .claimsNotObject => "claims are not a JSON object"
  | .noClaims => "no claims"
  | .noClaimsToWrap => "no claims to wrap"
  | .noTokenMade => "no token, make a signed or encrypted token first"
  | .noTokenToValidate => "no token to validate"
  | .noPayload => "validated token has no payload"
  | .stated text => text

/-- Why a key does not fit an operation. -/
inductive KeyFault
  | useForbids (use : KeyUse) (op : KeyOperation)
  | operationsForbid (op : KeyOperation)
  | wrongType (expected found : KeyType)
  | noPrivatePart
  | noPublicPart
  | secretSize
  | modulusSize (bits : Nat)
  | wrongCurve (algorithm : String) (required found : EllipticCurve)
  | noCurve (algorithm : String)
  | notSigningCurve
  | secretNotEmpty
  /-- The members of the key contradict each other or break a rule of its kind. -/
  | rejected
  | agreementType (found : KeyType)
  | agreementCurve
  | agreementPeer
  | ephemeralMismatch
  /-- A fault in a caller's own words. -/
  | stated (text : String)
  deriving DecidableEq, Repr

def KeyFault.message : KeyFault → String
  | .useForbids use op => s!"key use {use.title} does not permit {op.name}"
  | .operationsForbid op => s!"key_ops does not permit {op.name}"
  | .wrongType expected found => s!"expected {expected.name} key, found {found.name}"
  | .noPrivatePart => "operation requires a private key"
  | .noPublicPart => "symmetric keys have no public part"
  | .secretSize => "symmetric key size must be a positive multiple of 8 bits"
  | .modulusSize bits => s!"unsupported RSA key size: {bits}"
  | .wrongCurve algorithm required found =>
      s!"{algorithm} requires curve {required.name}, found {found.name}"
  | .noCurve algorithm => s!"{algorithm} does not use an elliptic curve key"
  | .notSigningCurve => "EdDSA requires an Ed25519 key"
  | .secretNotEmpty => "the none algorithm can only be used with an empty oct key"
  | .rejected => "key rejected"
  | .agreementType found =>
      s!"ECDH-ES requires an EC or X25519 key, found {found.name}"
  | .agreementCurve => "key agreement is not supported on secp256k1"
  | .agreementPeer => "invalid public key for key agreement"
  | .ephemeralMismatch => "ephemeral key does not match the recipient key type and curve"
  | .stated text => text

/-- Which primitive could not be applied, outside of any verification. -/
inductive PrimitiveFault
  | rsaSign
  | rsaEncrypt
  | rsaOaepEncrypt
  | rsaGenerate
  | curveKey
  | keyWrap
  /-- A fault in a caller's own words. -/
  | stated (text : String)
  deriving DecidableEq, Repr

def PrimitiveFault.message : PrimitiveFault → String
  | .rsaSign => "RSA sign"
  | .rsaEncrypt => "RSA1_5 encrypt"
  | .rsaOaepEncrypt => "RSA-OAEP encrypt"
  | .rsaGenerate => "generate RSA key"
  | .curveKey => "generate EC key"
  | .keyWrap => "AES key wrap"
  | .stated text => text

/-- The reasons for which an operation on keys and tokens fails. -/
inductive Error
  | unknownAlgorithm (name : String)
  | algorithmNotAllowed (name : String)
  | missingAlgorithm
  | invalidFormat (fault : FormatFault)
  | invalidOperation (fault : OperationFault)
  | duplicateHeader (name : String)
  | misplacedHeader (name : String)
  | unsupportedCritical (name : String)
  | invalidSignature
  | authenticationFailure
  | keyNotFound
  | invalidKeyLength (expected actual : Nat)
  | invalidKey (fault : KeyFault)
  | expired
  | notYetValid
  | missingClaim (name : String)
  | invalidClaimValue (name : String)
  | typeMismatch (expected found : TokenKind)
  | compressionLimitExceeded (limit : Nat)
  | primitive (fault : PrimitiveFault)
  deriving DecidableEq, Repr

def Error.message : Error → String
  | .unknownAlgorithm name => s!"Unknown algorithm: {name}"
  | .algorithmNotAllowed name => s!"Algorithm not allowed: {name}"
  | .missingAlgorithm => "No algorithm specified"
  | .invalidFormat fault => s!"Invalid format: {fault.message}"
  | .invalidOperation fault => s!"Invalid operation: {fault.message}"
  | .duplicateHeader name => s!"Duplicate header: {name}"
  | .misplacedHeader name => s!"Header must be integrity protected: {name}"
  | .unsupportedCritical name => s!"Unsupported critical header: {name}"
  | .invalidSignature => "Signature verification failed"
  | .authenticationFailure => "Decryption failed"
  | .keyNotFound => "No matching key found"
  | .invalidKeyLength expected actual =>
      s!"Invalid key length: expected {expected} bytes, got {actual}"
  | .invalidKey fault => s!"Invalid key: {fault.message}"
  | .expired => "Token expired"
  | .notYetValid => "Token not yet valid"
  | .missingClaim name => s!"Missing claim: {name}"
  | .invalidClaimValue name => s!"Invalid claim value: {name}"
  | .typeMismatch expected found =>
      s!"Token type mismatch: expected {expected.name}, found {found.name}"
  | .compressionLimitExceeded limit => s!"Decompressed content exceeds {limit} bytes"
  | .primitive fault => s!"Crypto backend error: {fault.message}"

/-- The errors that only concern the claims of a token that is authentic. -/
def Error.isClaimsError : Error → Bool
  | .expired | .notYetValid | .missingClaim _ | .invalidClaimValue _ => true
  | _ => false

/-- How little an error tells the caller: a key that was tried and failed comes
first, then a key that does not fit, a key that was never found and an
algorithm that was never attempted. -/
def Error.rank : Error → Nat
  | .invalidSignature | .authenticationFailure => 0
  | .invalidKey _ | .invalidKeyLength _ _ => 1
  | .keyNotFound => 2
  | .algorithmNotAllowed _ => 3
  | .unknownAlgorithm _ => 4
  | _ => 5

/-- Of two failed attempts keep the one of lower rank, the earlier one when
they are equal. -/
def Error.mostRelevant (current : Option Error) (new : Error) : Option Error :=
  match current with
  | some error => if error.rank ≤ new.rank then some error else some new
  | none => some new

end SealedToken
