import SealedToken.Rsa.Oaep
import SealedToken.Rsa.Pkcs1
import SealedToken.Rsa.Pss

/-!
The paddings by choice, for keys that are given as bytes.
-/

namespace SealedToken.Rsa

/-- How a digest is filled to the size of the modulus before it is signed. -/
inductive SignaturePadding
  | pkcs1
  | pss
  deriving DecidableEq, Repr

/-- How a text is filled to the size of the modulus before it is encrypted. -/
inductive EncryptionPadding
  | pkcs1
  | oaepSha1
  | oaepSha256
  deriving DecidableEq, Repr

/-- Sign with a private key in its encoding, `none` when the key is refused or fails. -/
def sign? (rng : Entropy) (padding : SignaturePadding) (h : ShaSize) (info : List UInt8)
    (message : ByteArray) : Option ByteArray := do
  let k ← PrivateKey.ofInfo? info
  match padding with
  | .pkcs1 => Pkcs1.sign? k h message
  | .pss => Pss.sign? rng k h message

/-- Verify with the bytes of modulus and exponent as they are. -/
def verify (padding : SignaturePadding) (h : ShaSize) (n e message signature : ByteArray) :
    Bool :=
  match PublicKey.ofBytes? n e with
  | none => false
  | some k =>
      match padding with
      | .pkcs1 => Pkcs1.verify k h message signature
      | .pss => Pss.verify k h message signature

/-- Encrypt under a public key in its encoding. -/
def encrypt? (rng : Entropy) (padding : EncryptionPadding) (info : List UInt8)
    (text : ByteArray) : Option ByteArray := do
  let k ← PublicKey.ofInfo? info
  match padding with
  | .pkcs1 => Pkcs1.encrypt? rng k text
  | .oaepSha1 => Oaep.encrypt? rng .sha1 k text
  | .oaepSha256 => Oaep.encrypt? rng (.sha2 .sha256) k text

/-- Decrypt with a private key in its encoding. -/
def decrypt? (padding : EncryptionPadding) (info : List UInt8) (ciphertext : ByteArray) :
    Option ByteArray := do
  let k ← DecryptionKey.ofInfo? info
  match padding with
  | .pkcs1 => Pkcs1.decrypt? k ciphertext
  | .oaepSha1 => Oaep.decrypt? .sha1 k ciphertext
  | .oaepSha256 => Oaep.decrypt? (.sha2 .sha256) k ciphertext

/-- The members of a number of random primes, in the form of an encoding. -/
def generateParts? (rng : Entropy) (bits : Nat) : Option Der.RsaParts :=
  (generate? rng bits).map fun k =>
    let bytes (n : Nat) := (Bytes.minimal n).data.toList
    ⟨bytes k.n, bytes k.e, bytes k.d, bytes k.p, bytes k.q, bytes k.dp, bytes k.dq, bytes k.qi⟩

end SealedToken.Rsa
