import SealedToken.Bytes.Number
import SealedToken.Digest.Sha2

/-!
Deriving a key from a shared secret: digests of a running number, the secret and
the context, one behind the other, cut to the size of the key. Every part of the
context stands behind its length.
-/

namespace SealedToken.KeyDerivation

/-- What a key is derived for. -/
structure Context where
  algorithm : ByteArray
  producer : ByteArray
  consumer : ByteArray
  keyBits : Nat

/-- Bytes behind their length. -/
def withLength (bytes : ByteArray) : ByteArray := Bytes.ofNat 4 bytes.size ++ bytes

/-- The bytes that stand for the context. -/
def Context.encode (c : Context) : ByteArray :=
  withLength c.algorithm ++ withLength c.producer ++ withLength c.consumer ++
    Bytes.ofNat 4 c.keyBits

/-- The digest with a running number. -/
def block (secret : ByteArray) (c : Context) (counter : Nat) : ByteArray :=
  ShaSize.sha256.digest (Bytes.ofNat 4 counter ++ secret ++ c.encode)

theorem size_block (secret : ByteArray) (c : Context) (counter : Nat) :
    (block secret c counter).size = 32 :=
  ShaSize.size_digest _ _

/-- Append digests until there are enough bytes. -/
def extend (secret : ByteArray) (c : Context) (size : Nat) (out : ByteArray) (counter : Nat) :
    ByteArray :=
  if out.size < size then
    extend secret c size (out ++ block secret c counter) (counter + 1)
  else out
termination_by size - out.size
decreasing_by
  rw [ByteArray.size_append, size_block]
  omega

/-- The key of a shared secret. -/
def derive (secret : ByteArray) (c : Context) : ByteArray :=
  let size := c.keyBits / 8
  (extend secret c size ByteArray.empty 1).extract 0 size

end SealedToken.KeyDerivation
