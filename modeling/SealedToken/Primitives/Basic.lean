import SealedToken.Key.Agreement
import SealedToken.Rsa.Padding

/-!
The keyed operations on which tokens rest, as one value. All that is built on top
takes this value as an argument and knows nothing of how the operations work; what
it needs of them is said as a property of the value.
-/

namespace SealedToken

/-- Keyed operations. Those that can fail for a given key, or that refuse what
they are given, answer `none`. RSA keys are given in their encodings, except for
verification, which takes modulus and exponent as bytes. -/
structure Primitives where
  /-- A keyed digest of a message. -/
  hmac : ShaSize → (key message : ByteArray) → ByteArray
  /-- A key of so many bytes from a password. -/
  passwordKey : ShaSize → (password salt : ByteArray) → (iterations size : Nat) → ByteArray
  cbcEncrypt : (key iv text : ByteArray) → ByteArray
  cbcDecrypt? : (key iv ciphertext : ByteArray) → Option ByteArray
  /-- Ciphertext and tag. -/
  gcmSeal : (key iv aad text : ByteArray) → ByteArray × ByteArray
  gcmOpen? : (key iv aad ciphertext tag : ByteArray) → Option ByteArray
  keyWrap? : (kek key : ByteArray) → Option ByteArray
  keyUnwrap? : (kek wrapped : ByteArray) → Option ByteArray
  /-- Is the encoding of a public RSA key accepted? -/
  rsaAcceptsPublic : (info : List UInt8) → Bool
  /-- Is the encoding of a private RSA key accepted for signatures? -/
  rsaAcceptsSigning : (info : List UInt8) → Bool
  /-- Is the encoding of a private RSA key accepted for decryption? -/
  rsaAcceptsDecrypting : (info : List UInt8) → Bool
  rsaSign? : Entropy → Rsa.SignaturePadding → ShaSize → (info : List UInt8) →
    (message : ByteArray) → Option ByteArray
  rsaVerify : Rsa.SignaturePadding → ShaSize → (n e message signature : ByteArray) → Bool
  rsaEncrypt? : Entropy → Rsa.EncryptionPadding → (info : List UInt8) → (text : ByteArray) →
    Option ByteArray
  rsaDecrypt? : Rsa.EncryptionPadding → (info : List UInt8) → (ciphertext : ByteArray) →
    Option ByteArray
  /-- The members of a random RSA key with a modulus of so many bits. -/
  rsaGenerate? : Entropy → (bits : Nat) → Option Der.RsaParts
  ecdsaSign? : Entropy → EllipticCurve → (d x y message : ByteArray) → Option ByteArray
  ecdsaVerify : EllipticCurve → (x y message signature : ByteArray) → Bool
  eddsaSign? : (seed key message : ByteArray) → Option ByteArray
  eddsaVerify : (key message signature : ByteArray) → Bool
  eddsaPublic : (seed : ByteArray) → ByteArray
  /-- A random private member of a key on a curve. -/
  curveSecret : Entropy → AgreementCurve → ByteArray
  /-- The public member of a private one, `none` when there is none. -/
  curvePublic? : AgreementCurve → (secret : ByteArray) → Option ByteArray
  /-- The secret shared with the owner of a public member. -/
  agree? : AgreementCurve → (secret peer : ByteArray) → Option ByteArray

end SealedToken
