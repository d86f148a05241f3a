import SealedToken.ContentEncryption
import SealedToken.Json.Bytes
import SealedToken.KeyManagement.Agreement
import SealedToken.KeyManagement.Password
import SealedToken.KeyManagement.Selection

/-!
How the key that encrypts the content reaches a recipient: `wrap` is the sender's
side, `unwrap` the recipient's. Both are given the merged header of the recipient;
what the algorithm adds to it is part of the result of `wrap`.
-/

namespace SealedToken

/-- What `wrap` gives. -/
structure WrappedKey where
  /-- The key that encrypts the content. -/
  contentKey : ByteArray
  /-- Empty where the algorithm determines the content key. -/
  encryptedKey : ByteArray
  /-- The header parameters that the recipient needs. -/
  header : Object

namespace KeyManagementAlgorithm

/-- An algorithm that determines the content key cannot take one. -/
def checkNotShared (a : KeyManagementAlgorithm) (held : Option ByteArray) : Except Error Unit :=
  if held.isSome then .error (.invalidOperation (.directKeyShared a.name)) else .ok ()

def checkNothingEncrypted (a : KeyManagementAlgorithm) (encryptedKey : ByteArray) :
    Except Error Unit :=
  if encryptedKey.size = 0 then .ok ()
  else .error (.invalidFormat (.encryptedKeyNotEmpty a.name))

/-- The content key that is held already, or a random one. -/
def contentKey (rng : Entropy) (keyBits : Nat) (held : Option ByteArray) :
    Except Error ByteArray :=
  match held with
  | some key => do
      checkKeySize (keyBits / 8) key
      pure key
  | none => .ok (rng.take (keyBits / 8))

/-- A secret of the size that a cipher needs. -/
def sizedSecret (s : AesSize) (key : Jwk) (op : KeyOperation) : Except Error ByteArray := do
  let k ← key.octets op
  checkKeySize s.bytes k
  pure k

/-! ### Wrapping -/

def wrapUnder (p : Primitives) (kek key : ByteArray) : Except Error ByteArray :=
  match p.keyWrap? kek key with
  | some wrapped => .ok wrapped
  | none => .error (.primitive .keyWrap)

def wrapRsa (p : Primitives) (rng : Entropy) (padding : Rsa.EncryptionPadding) (key : Jwk)
    (contentKey : ByteArray) : Except Error WrappedKey := do
  let (n, e) ← key.rsaPublic .wrapKey
  let info := Der.rsaPublicInfo n.data.toList e.data.toList
  if ! p.rsaAcceptsPublic info then throw (.invalidKey .rejected)
  match p.rsaEncrypt? rng padding info contentKey with
  | some encrypted => pure ⟨contentKey, encrypted, .empty⟩
  | none =>
      match padding with
      | .pkcs1 => throw (.primitive .rsaEncrypt)
      | _ => throw (.primitive .rsaOaepEncrypt)

def wrapAesGcm (p : Primitives) (rng : Entropy) (kek contentKey : ByteArray) : WrappedKey :=
  let iv := rng.take ContentEncryptionAlgorithm.gcmIvSize
  let (encrypted, tag) := p.gcmSeal kek iv .empty contentKey
  let header := (Object.empty.insert "iv" (Json.ofBytes iv)).insert "tag" (Json.ofBytes tag)
  ⟨contentKey, encrypted, header⟩

def wrapPassword (p : Primitives) (rng : Entropy) (a : KeyManagementAlgorithm) (s : AesSize)
    (key : Jwk) (contentKey : ByteArray) (header : Object) (limits : PasswordLimits) :
    Except Error WrappedKey := do
  let (salt, iterations) ← chosenSalt rng limits header
  let kek ← a.passwordKey p s limits (← key.octets .wrapKey) salt iterations
  let wrapped ← wrapUnder p kek contentKey
  let header := (Object.empty.insert "p2s" (Json.ofBytes salt)).insert "p2c"
    (Json.int iterations)
  pure ⟨contentKey, wrapped, header⟩

/-- Bring a content key of `keyBits` to a recipient: the one that is held already,
or else the one that the algorithm determines or chooses. -/
def wrap (p : Primitives) (rng : Entropy) (a : KeyManagementAlgorithm) (key : Jwk)
    (keyBits : Nat) (held : Option ByteArray) (header : Object) (limits : PasswordLimits) :
    Except Error WrappedKey :=
  let chosen := contentKey (rng.fork 0) keyBits held
  let rng := rng.fork 1
  match a with
  | .direct => do
      a.checkNotShared held
      let k ← key.octets .encrypt
      checkKeySize (keyBits / 8) k
      pure ⟨k, .empty, .empty⟩
  | .rsaPkcs1 => do wrapRsa p rng .pkcs1 key (← chosen)
  | .rsaOaep => do wrapRsa p rng .oaepSha1 key (← chosen)
  | .rsaOaep256 => do wrapRsa p rng .oaepSha256 key (← chosen)
  | .aesKeyWrap s => do
      let kek ← sizedSecret s key .wrapKey
      let contentKey ← chosen
      pure ⟨contentKey, ← wrapUnder p kek contentKey, .empty⟩
  | .aesGcmKeyWrap s => do
      let kek ← sizedSecret s key .wrapKey
      pure (wrapAesGcm p rng kek (← chosen))
  | .pbes2 s => do
      let contentKey ← chosen
      a.wrapPassword p rng s key contentKey header limits
  | .ecdhEs none => do
      a.checkNotShared held
      let (derived, added) ← a.agree p rng key keyBits header
      pure ⟨derived, .empty, added⟩
  | .ecdhEs (some s) => do
      let (kek, added) ← a.agree p rng key s.bits header
      let contentKey ← chosen
      pure ⟨contentKey, ← wrapUnder p kek contentKey, added⟩

/-! ### Unwrapping -/

def unwrapUnder (p : Primitives) (kek wrapped : ByteArray) : Except Error ByteArray :=
  ContentEncryptionAlgorithm.authenticated (p.keyUnwrap? kek wrapped)

/-- The encoding of a private key that is accepted. -/
def acceptedRsaPrivate (p : Primitives) (key : Jwk) : Except Error (List UInt8) := do
  let info ← key.rsaPrivate .unwrapKey
  if p.rsaAcceptsDecrypting info then pure info else throw (.invalidKey .rejected)

/-- Whatever is wrong with the encrypted key, a random key stands in for it, so
that nothing tells a wrong padding from a wrong key. -/
def unwrapRsaPkcs1 (p : Primitives) (rng : Entropy) (key : Jwk) (keySize : Nat)
    (encryptedKey : ByteArray) : Except Error ByteArray := do
  let substitute := rng.take keySize
  let info ← acceptedRsaPrivate p key
  let out := Output.ofResult (Rsa.modulusSize info) (p.rsaDecrypt? .pkcs1 info encryptedKey)
  pure (out.selectKey keySize substitute)

def unwrapRsaOaep (p : Primitives) (padding : Rsa.EncryptionPadding) (key : Jwk)
    (encryptedKey : ByteArray) : Except Error ByteArray := do
  let info ← acceptedRsaPrivate p key
  ContentEncryptionAlgorithm.authenticated (p.rsaDecrypt? padding info encryptedKey)

def unwrapAesGcm (p : Primitives) (kek encryptedKey : ByteArray) (header : Object) :
    Except Error ByteArray := do
  let iv ← Header.bytes header "iv"
  let tag ← Header.bytes header "tag"
  ContentEncryptionAlgorithm.gcmDecrypt p kek iv .empty encryptedKey tag

/-- The content key as an algorithm gives it back, of whatever size. -/
def recover (p : Primitives) (rng : Entropy) (a : KeyManagementAlgorithm) (key : Jwk)
    (keyBits : Nat) (encryptedKey : ByteArray) (header : Object) (limits : PasswordLimits) :
    Except Error ByteArray :=
  match a with
  | .direct => do
      a.checkNothingEncrypted encryptedKey
      key.octets .decrypt
  | .rsaPkcs1 => unwrapRsaPkcs1 p rng key (keyBits / 8) encryptedKey
  | .rsaOaep => unwrapRsaOaep p .oaepSha1 key encryptedKey
  | .rsaOaep256 => unwrapRsaOaep p .oaepSha256 key encryptedKey
  | .aesKeyWrap s => do
      unwrapUnder p (← sizedSecret s key .unwrapKey) encryptedKey
  | .aesGcmKeyWrap s => do
      unwrapAesGcm p (← sizedSecret s key .unwrapKey) encryptedKey header
  | .pbes2 s => do
      let (salt, iterations) ← receivedSalt header
      let kek ← a.passwordKey p s limits (← key.octets .unwrapKey) salt iterations
      unwrapUnder p kek encryptedKey
  | .ecdhEs none => do
      a.checkNothingEncrypted encryptedKey
      a.deriveReceived p key keyBits header
  | .ecdhEs (some s) => do
      unwrapUnder p (← a.deriveReceived p key s.bits header) encryptedKey

/-- Recover a content key of `keyBits`. -/
def unwrap (p : Primitives) (rng : Entropy) (a : KeyManagementAlgorithm) (key : Jwk)
    (keyBits : Nat) (encryptedKey : ByteArray) (header : Object) (limits : PasswordLimits) :
    Except Error ByteArray := do
  let recovered ← a.recover p rng key keyBits encryptedKey header limits
  checkKeySize (keyBits / 8) recovered
  pure recovered

end KeyManagementAlgorithm

end SealedToken
