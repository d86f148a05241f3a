import SealedToken.Deflate.Bounded
import SealedToken.KeyManagement.Basic
import SealedToken.Proofs.Failure

/-!
Recovering a content key and opening content with it only fail with early errors.
Expanding the content may find it too large, but that is no error about claims.
-/

namespace SealedToken

variable {p : Primitives} {rng : Entropy} {key : Jwk} {header : Object} {keyBits : Nat}
  {limits : PasswordLimits} {encryptedKey : ByteArray}

/-! ### Content -/

@[simp] theorem early_checkKeySize {expected : Nat} {bytes : ByteArray} :
    Early (checkKeySize expected bytes) := by
  simp [checkKeySize, Error.isLate]

namespace ContentEncryptionAlgorithm

variable {aad : ByteArray}

@[simp] theorem early_authenticated {result : Option ByteArray} :
    Early (authenticated result) := by
  cases result <;> simp [authenticated, Error.isLate]

@[simp] theorem early_gcmDecrypt {contentKey iv ciphertext tag : ByteArray} :
    Early (gcmDecrypt p contentKey iv aad ciphertext tag) := by
  simp [gcmDecrypt, Error.isLate]

@[simp] theorem early_cbcDecrypt {s : AesSize} {contentKey iv ciphertext tag : ByteArray} :
    Early (cbcDecrypt p s contentKey iv aad ciphertext tag) := by
  simp [cbcDecrypt, Error.isLate]

@[simp] theorem early_decrypt {a : ContentEncryptionAlgorithm} {contentKey : ByteArray}
    {content : EncryptedContent} : Early (a.decrypt p contentKey aad content) := by
  cases a <;> simp [decrypt]

end ContentEncryptionAlgorithm

theorem Deflate.noClaimsError_inflateFrom {σ : Type} {d : StreamDecoder σ} {input : ByteArray}
    {limit fuel : Nat} {s : σ} {consumed capacity : Nat} {held : ByteArray} :
    NoClaimsError (inflateFrom d input limit s consumed held capacity fuel) := by
  induction fuel generalizing s consumed held capacity with
  | zero => simp [inflateFrom, Error.isClaimsError]
  | succ fuel ih =>
      rw [inflateFrom]
      split
      · simp [Error.isClaimsError]
      · simp [ih, Error.isClaimsError]

@[simp] theorem Deflate.noClaimsError_inflate {input : ByteArray} {limit : Nat} :
    NoClaimsError (inflate input limit) :=
  noClaimsError_inflateFrom

/-! ### Agreement -/

namespace AgreementCurve

variable {curve : AgreementCurve}

@[simp] theorem early_ofKey : Early (ofKey key) := by
  unfold ofKey
  split <;> simp [Error.isLate]

@[simp] theorem early_checkSupported : Early curve.checkSupported := by
  simp [checkSupported, Error.isLate]

@[simp] theorem early_publicMember : Early (curve.publicMember key) := by
  cases curve <;> simp [publicMember]

@[simp] theorem early_privateMember : Early (curve.privateMember key) := by
  cases curve <;> simp [privateMember]

@[simp] theorem early_operableMember : Early (curve.operableMember p key) := by
  simp [operableMember, Error.isLate]

end AgreementCurve

namespace KeyManagementAlgorithm

variable {a : KeyManagementAlgorithm}

@[simp] theorem early_derivedFor : Early (a.derivedFor header) := by
  unfold derivedFor
  split
  · split <;> simp [Error.isLate]
  · simp

@[simp] theorem early_deriveShared {curve : AgreementCurve} {secret peer : ByteArray} :
    Early (a.deriveShared p curve secret peer keyBits header) := by
  unfold deriveShared
  cases p.agree? curve secret peer <;> simp [Error.isLate]

@[simp] theorem early_deriveReceived :
    Early (a.deriveReceived p key keyBits header) := by
  simp [deriveReceived, Error.isLate]

/-! ### Passwords -/

@[simp] theorem early_iterationsOf {value : Json} :
    Early (iterationsOf value) := by
  unfold iterationsOf
  split <;> simp [Error.isLate]

@[simp] theorem early_passwordKey {s : AesSize} {password salt : ByteArray}
    {iterations : Nat} :
    Early (a.passwordKey p s limits password salt iterations) := by
  simp [passwordKey, PasswordLimits.check, Error.isLate]

@[simp] theorem early_receivedSalt : Early (receivedSalt header) := by
  simp [receivedSalt]

/-! ### The content key -/

@[simp] theorem early_checkNothingEncrypted :
    Early (a.checkNothingEncrypted encryptedKey) := by
  simp [checkNothingEncrypted, Error.isLate]

@[simp] theorem early_sizedSecret {s : AesSize} {op : KeyOperation} :
    Early (sizedSecret s key op) := by
  simp [sizedSecret]

@[simp] theorem early_unwrapUnder {kek wrapped : ByteArray} :
    Early (unwrapUnder p kek wrapped) := by
  simp [unwrapUnder]

@[simp] theorem early_acceptedRsaPrivate : Early (acceptedRsaPrivate p key) := by
  simp [acceptedRsaPrivate, Error.isLate]

@[simp] theorem early_unwrapRsaPkcs1 {keySize : Nat} :
    Early (unwrapRsaPkcs1 p rng key keySize encryptedKey) := by
  simp [unwrapRsaPkcs1]

@[simp] theorem early_unwrapRsaOaep {padding : Rsa.EncryptionPadding} :
    Early (unwrapRsaOaep p padding key encryptedKey) := by
  simp [unwrapRsaOaep]

@[simp] theorem early_unwrapAesGcm {kek : ByteArray} :
    Early (unwrapAesGcm p kek encryptedKey header) := by
  simp [unwrapAesGcm]

@[simp] theorem early_recover :
    Early (a.recover p rng key keyBits encryptedKey header limits) := by
  unfold recover
  split <;> simp

@[simp] theorem early_unwrap :
    Early (a.unwrap p rng key keyBits encryptedKey header limits) := by
  simp [unwrap]

end KeyManagementAlgorithm

end SealedToken
