import SealedToken.Attempt
import SealedToken.ContentEncryption
import SealedToken.Deflate.Bounded
import SealedToken.Deflate.Deflater
import SealedToken.Header.Encoding
import SealedToken.Header.Member
import SealedToken.Header.Registry
import SealedToken.KeyManagement.Password

/-!
Encrypted tokens. The content is encrypted once, with a key of its own; that key is
brought to every recipient. All recipients share one initialisation vector, one
ciphertext and one tag.
-/

namespace SealedToken

structure Recipient where
  header : Option Object
  /-- Empty where the algorithm determines the content key. -/
  encryptedKey : ByteArray
  deriving DecidableEq

/-- What is accepted when content is encrypted or decrypted. -/
structure JweOptions where
  /-- The accepted algorithms, or else the default ones. -/
  allowed : Option (List String) := none
  /-- The greatest size of a plaintext that was compressed. -/
  maxSize : Nat := Deflate.defaultLimit
  limits : PasswordLimits := {}
  registry : HeaderRegistry := .encrypted
  deriving DecidableEq

structure Jwe where
  plaintext : Option ByteArray
  protectedHeader : Option Object
  /-- The protected header exactly as it is written; the tag covers it. -/
  protectedText : String := ""
  sharedHeader : Option Object
  aad : Option ByteArray := none
  recipients : List Recipient := []
  content : Option EncryptedContent := none
  /-- The algorithm of the content, while its key is held. -/
  algorithm : Option ContentEncryptionAlgorithm := none
  contentKey : Option ByteArray := none
  options : JweOptions := {}
  /-- The keys that failed in the last decryption. -/
  log : List FailedAttempt := []
  deriving DecidableEq

namespace Jwe

/-- A token to be encrypted; that happens when the first recipient is added. -/
def ofPlaintext (plaintext : ByteArray) (protectedHeader sharedHeader : Option Object) : Jwe :=
  { plaintext := some plaintext
    protectedHeader := Header.nonempty protectedHeader
    sharedHeader := Header.nonempty sharedHeader }

/-- Set additional data to be authenticated, which the content must not yet be
encrypted for. -/
def setAad (t : Jwe) (aad : ByteArray) : Except Error Jwe :=
  if t.content.isSome then .error (.invalidOperation .additionalDataFixed)
  else .ok { t with aad := some aad }

/-- The merged header of a recipient with a header. -/
def merged (t : Jwe) (header : Option Object) : Except Error Object :=
  t.options.registry.merge t.protectedHeader [t.sharedHeader, header]

def headerAt (t : Jwe) (index : Nat) : Except Error Object :=
  match t.recipients[index]? with
  | some r => t.merged r.header
  | none => .error (.invalidOperation (.noRecipient index))

/-- The name of an algorithm that a header has to give, if it is allowed. -/
def allowedName (options : JweOptions) (header : Object) (parameter : String) :
    Except Error String := do
  match ← Header.text? header parameter with
  | none => throw .missingAlgorithm
  | some name =>
      Algorithm.checkAllowed options.allowed name
      pure name

/-- The two algorithms that a merged header names. -/
def algorithms (options : JweOptions) (header : Object) :
    Except Error (KeyManagementAlgorithm × ContentEncryptionAlgorithm) := do
  let management ← KeyManagementAlgorithm.lookup (← allowedName options header "alg")
  let encryption ← ContentEncryptionAlgorithm.lookup (← allowedName options header "enc")
  pure (management, encryption)

/-- The only compression there is. -/
def compression : String := "DEF"

/-- Does the protected header ask for compression? -/
def compresses (protectedHeader : Option Object) : Except Error Bool :=
  match protectedHeader with
  | none => .ok false
  | some header => do
      match ← Header.text? header "zip" with
      | none => pure false
      | some name =>
          if name = compression then pure true
          else throw (.invalidFormat (.compression name))

/-- What is authenticated beside the ciphertext: the protected header as it is
written, and the additional data behind a dot, if there is any. -/
def contentAad (protectedText : String) (aad : Option ByteArray) : ByteArray :=
  protectedText.toUTF8 ++
    (match aad with
     | none => .empty
     | some bytes => ".".toUTF8 ++ (Base64Url.encode bytes).toUTF8)

/-- Encrypt the plaintext under the protected header as it is. -/
def sealContent (p : Primitives) (rng : Entropy) (t : Jwe) (a : ContentEncryptionAlgorithm)
    (contentKey : ByteArray) : Except Error Jwe :=
  match t.plaintext with
  | none => .error (.invalidOperation .noPlaintext)
  | some plaintext => do
      let text := if ← compresses t.protectedHeader then Deflate.deflate plaintext else plaintext
      let protectedText := Header.encode t.protectedHeader
      let content ← a.encrypt p rng contentKey (contentAad protectedText t.aad) text
      pure { t with protectedText, content := some content }

end Jwe

end SealedToken
