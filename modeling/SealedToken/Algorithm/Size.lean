/-!
The two scales along which algorithms come in variants: the digest length and
the block cipher key length. Where an algorithm combines both, the three lengths
correspond to each other.
-/

namespace SealedToken

/-- The digest lengths of the SHA-2 family that are in use. -/
inductive ShaSize
  | sha256
  | sha384
  | sha512
  deriving DecidableEq, Repr

def ShaSize.bits : ShaSize → Nat
  | .sha256 => 256
  | .sha384 => 384
  | .sha512 => 512

def ShaSize.bytes (h : ShaSize) : Nat := h.bits / 8

/-- The key lengths of the block cipher. -/
inductive AesSize
  | aes128
  | aes192
  | aes256
  deriving DecidableEq, Repr

def AesSize.bits : AesSize → Nat
  | .aes128 => 128
  | .aes192 => 192
  | .aes256 => 256

def AesSize.bytes (s : AesSize) : Nat := s.bits / 8

/-- The digest that a key length is combined with: twice as many bits. -/
def AesSize.sha : AesSize → ShaSize
  | .aes128 => .sha256
  | .aes192 => .sha384
  | .aes256 => .sha512

theorem AesSize.sha_bits (s : AesSize) : s.sha.bits = 2 * s.bits := by
  cases s <;> rfl

end SealedToken
