import SealedToken.Jwe.Basic
import SealedToken.Key.Set
import SealedToken.KeyManagement.Basic

/-!
Decryption. The recipients are tried one after the other, each with every key that
is offered for it, until one of them opens the content.
-/

namespace SealedToken.Jwe

/-- The content opened. -/
structure Opened where
  plaintext : ByteArray
  algorithm : ContentEncryptionAlgorithm
  contentKey : ByteArray

/-- What is left to do for a recipient once its header has been checked. -/
structure Pending where
  header : Object
  management : KeyManagementAlgorithm
  encryption : ContentEncryptionAlgorithm
  compressed : Bool
  keys : List Jwk

def Pending.algorithmNames (pending : Pending) : String :=
  s!"{pending.management.name}/{pending.encryption.name}"

/-- Check the header of a recipient; no key is touched. -/
def prepare (t : Jwe) (keys : KeySource) (r : Recipient) : Except Error Pending := do
  let header ← t.merged r.header
  let (management, encryption) ← algorithms t.options header
  let compressed ← compresses t.protectedHeader
  let keys ← keys.candidates (← Header.text? header "kid")
  pure { header, management, encryption, compressed, keys }

/-- Recover the content key with a key and decrypt the content with it: what was
encrypted, and the content key. -/
def attempt (p : Primitives) (supply : Recipient → Jwk → Entropy) (t : Jwe)
    (content : EncryptedContent) (r : Recipient) (pending : Pending) (key : Jwk) :
    Except Error (ByteArray × ByteArray) := do
  let contentKey ← pending.management.unwrap p (supply r key) key pending.encryption.keySize
    r.encryptedKey pending.header t.options.limits
  let text ← pending.encryption.decrypt p contentKey (contentAad t.protectedText t.aad) content
  pure (text, contentKey)

/-- Expand what was compressed. -/
def expand (options : JweOptions) (compressed : Bool) (text : ByteArray) :
    Except Error ByteArray :=
  if compressed then Deflate.inflate text options.maxSize else .ok text

/-- The outcome for one recipient, and the keys that failed. -/
def openFor (p : Primitives) (supply : Recipient → Jwk → Entropy) (t : Jwe)
    (content : EncryptedContent) (keys : KeySource) (r : Recipient) :
    Except Error Opened × List FailedAttempt :=
  match t.prepare keys r with
  | .error error => (.error error, [])
  | .ok pending =>
      let (failures, success) := tryEach (t.attempt p supply content r pending) pending.keys
      let log := failures.map fun (key, error) => ⟨key.kid, pending.algorithmNames, error⟩
      match success with
      | some (text, contentKey) =>
          let opened := (expand t.options pending.compressed text).map fun plaintext =>
            { plaintext, algorithm := pending.encryption, contentKey }
          (opened, log)
      | none =>
          (.error ((Error.mostRelevantOf (failures.map (·.2))).getD .authenticationFailure), log)

/-- Go through recipients until one opens the content or shows that the plaintext
is too large; `failure` and `log` tell of those before. -/
def openFirst (p : Primitives) (supply : Recipient → Jwk → Entropy) (t : Jwe)
    (content : EncryptedContent) (keys : KeySource) (failure : Option Error)
    (log : List FailedAttempt) : List Recipient → Except Error Opened × List FailedAttempt
  | [] => (.error (failure.getD .authenticationFailure), log)
  | r :: rest =>
      match t.openFor p supply content keys r with
      | (.ok opened, more) => (.ok opened, log ++ more)
      | (.error (.compressionLimitExceeded limit), more) =>
          (.error (.compressionLimitExceeded limit), log ++ more)
      | (.error error, more) =>
          t.openFirst p supply content keys (Error.mostRelevant failure error) (log ++ more) rest

/-- Decrypt with a key or a set of keys. The random bytes of an attempt may depend on
recipient and key. -/
def decrypt (p : Primitives) (supply : Recipient → Jwk → Entropy) (t : Jwe) (keys : KeySource) :
    Except Error Unit × Jwe :=
  let t := { t with plaintext := none, log := [] }
  match t.content with
  | none => (.error (.invalidOperation .nothingToDecrypt), t)
  | some content =>
      match t.openFirst p supply content keys none [] t.recipients with
      | (.error error, log) => (.error error, { t with log })
      | (.ok opened, log) =>
          (.ok (), { t with
            plaintext := some opened.plaintext
            algorithm := some opened.algorithm
            contentKey := some opened.contentKey
            log })

end SealedToken.Jwe
