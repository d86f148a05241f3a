import SealedToken.Rsa.Key
import SealedToken.Rsa.Mask

/-!
Signatures with a random salt. The digest covers the digest of the message and
the salt; the salt itself is hidden behind a mask of that digest. The salt is as
long as the digest.
-/

namespace SealedToken.Rsa.Pss

/-- The digest of a message's digest with a salt. -/
def saltedDigest (f : DigestFunction) (message salt : ByteArray) : ByteArray :=
  f.digest (Bytes.zeros 8 ++ f.digest message ++ salt)

/-- What is masked: zeros, a one and the salt. -/
def saltBlock (size : Nat) (salt : ByteArray) : ByteArray :=
  Bytes.zeros (size - salt.size - 1) ++ ⟨#[0x01]⟩ ++ salt

/-- The bits of an encoded message: one less than the modulus has. -/
def encodedBits (k : PublicKey) : Nat := bitLength k.n - 1

/-- Keep the low bits of a byte string. -/
def keepBits (bits : Nat) (bytes : ByteArray) : ByteArray :=
  Bytes.ofNat bytes.size (Bytes.toNat bytes % 2 ^ bits)

def encode (f : DigestFunction) (bits : Nat) (message salt : ByteArray) : ByteArray :=
  let size := (bits + 7) / 8
  let maskedSize := size - f.size - 1
  let h := saltedDigest f message salt
  let masked := Bytes.xor (saltBlock maskedSize salt) (f.mask h maskedSize)
  keepBits (bits - 8 * (size - maskedSize)) masked ++ h ++ ⟨#[0xbc]⟩

/-- Sign a message, `none` when the key fails. -/
def sign? (rng : Entropy) (k : PrivateKey) (h : ShaSize) (message : ByteArray) :
    Option ByteArray :=
  let f := DigestFunction.sha2 h
  let encoded := encode f (encodedBits k.toPublicKey) message (rng.take f.size)
  (k.operate? (Bytes.toNat encoded)).map (Bytes.ofNat k.size)

/-- Does an encoded message hold the digest of a message with some salt? -/
def covers (f : DigestFunction) (bits : Nat) (message encoded : ByteArray) : Bool :=
  let size := (bits + 7) / 8
  let maskedSize := size - f.size - 1
  let masked := encoded.extract 0 maskedSize
  let h := encoded.extract maskedSize (maskedSize + f.size)
  let block := keepBits (bits - 8 * (size - maskedSize)) (Bytes.xor masked (f.mask h maskedSize))
  let salt := block.extract (maskedSize - f.size) maskedSize
  f.size + f.size + 2 ≤ size && encoded.size == size &&
    encoded.extract (size - 1) size == ⟨#[0xbc]⟩ &&
    keepBits (bits - 8 * (size - maskedSize)) masked == masked &&
    block == saltBlock maskedSize salt && saltedDigest f message salt == h

def verify (k : PublicKey) (h : ShaSize) (message signature : ByteArray) : Bool :=
  let s := Bytes.toNat signature
  let bits := encodedBits k
  let x := k.apply s
  signature.size == k.size && s < k.n && x < 2 ^ (8 * ((bits + 7) / 8)) &&
    covers (DigestFunction.sha2 h) bits message (Bytes.ofNat ((bits + 7) / 8) x)

end SealedToken.Rsa.Pss
