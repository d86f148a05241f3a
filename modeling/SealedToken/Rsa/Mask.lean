import SealedToken.Bytes.Number
import SealedToken.Digest.Sha1
import SealedToken.Digest.Sha2

/-!
Masks of any length from a digest: the digests of a seed with a running number.
-/

namespace SealedToken.Rsa

/-- A digest and the size of what it gives. -/
structure DigestFunction where
  digest : ByteArray → ByteArray
  size : Nat

def DigestFunction.sha1 : DigestFunction := ⟨Sha1.blockDigest.digest, 20⟩

def DigestFunction.sha2 (h : ShaSize) : DigestFunction := ⟨h.digest, h.bytes⟩

/-- The mask of a seed. -/
def DigestFunction.mask (f : DigestFunction) (seed : ByteArray) (size : Nat) : ByteArray :=
  ((List.range ((size + f.size - 1) / f.size)).foldl
    (fun out i => out ++ f.digest (seed ++ Bytes.ofNat 4 i)) ByteArray.empty).extract 0 size

end SealedToken.Rsa
