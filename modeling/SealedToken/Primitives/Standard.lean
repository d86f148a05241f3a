import SealedToken.Aes.Cbc
import SealedToken.Aes.Gcm
import SealedToken.Aes.KeyWrap
import SealedToken.Curve.Agreement
import SealedToken.Curve.Ecdsa
import SealedToken.Curve.Edwards
import SealedToken.Digest.Hmac
import SealedToken.Primitives.Basic

/-!
The keyed operations as their standards define them.
-/

namespace SealedToken

def Primitives.standard : Primitives where
  hmac := ShaSize.hmac
  passwordKey := ShaSize.deriveKey
  cbcEncrypt := Aes.cbcEncrypt
  cbcDecrypt? := Aes.cbcDecrypt?
  gcmSeal := Aes.gcmSeal
  gcmOpen? := Aes.gcmOpen?
  keyWrap? := Aes.keyWrap?
  keyUnwrap? := Aes.keyUnwrap?
  rsaAcceptsPublic := fun info => (Rsa.PublicKey.ofInfo? info).isSome
  rsaAcceptsSigning := fun info => (Rsa.PrivateKey.ofInfo? info).isSome
  rsaAcceptsDecrypting := fun info => (Rsa.DecryptionKey.ofInfo? info).isSome
  rsaSign? := Rsa.sign?
  rsaVerify := Rsa.verify
  rsaEncrypt? := Rsa.encrypt?
  rsaDecrypt? := Rsa.decrypt?
  rsaGenerate? := Rsa.generateParts?
  ecdsaSign? := Ecdsa.sign?
  ecdsaVerify := Ecdsa.verify
  eddsaSign? := Ed25519.sign?
  eddsaVerify := Ed25519.verify
  eddsaPublic := Ed25519.publicKey
  curveSecret := AgreementCurve.randomSecret
  curvePublic? := AgreementCurve.publicOf?
  agree? := AgreementCurve.agree?

end SealedToken
