import SealedToken.Digest.Sha1
import SealedToken.Digest.Sha2

/-!
The keyed digest of a message and the derivation of keys from passwords by its
repetition. The key fills one block of the inner and one of the outer digest, so
both states after that block are computed once per key.
-/

namespace SealedToken

/-- The two states of a keyed digest once its key is absorbed. -/
structure HmacKey (State : Type) where
  inner : State
  outer : State

namespace BlockDigest

variable {State : Type} (D : BlockDigest State)

/-- A key as it fills a block: longer keys are digested first. -/
def keyBlock (key : ByteArray) : List UInt8 :=
  let key := if D.blockSize < key.size then D.digest key else key
  key.data.toList ++ List.replicate (D.blockSize - key.size) 0

def hmacKey (key : ByteArray) : HmacKey State :=
  let block := D.keyBlock key
  { inner := D.absorb D.initial ⟨(block.map (· ^^^ 0x36)).toArray⟩ 0 1
    outer := D.absorb D.initial ⟨(block.map (· ^^^ 0x5c)).toArray⟩ 0 1 }

def hmacWith (key : HmacKey State) (message : ByteArray) : ByteArray :=
  D.finish key.outer D.blockSize (D.finish key.inner D.blockSize message)

def hmac (key message : ByteArray) : ByteArray :=
  D.hmacWith (D.hmacKey key) message

/-- Repeat the keyed digest on its own output and add up what comes out. -/
def iterate (key : HmacKey State) (sum last : ByteArray) : (left : Nat) → ByteArray
  | 0 => sum
  | left + 1 =>
      let next := D.hmacWith key last
      iterate key ⟨Array.zipWith (· ^^^ ·) sum.data next.data⟩ next left

/-- One block of derived key material; blocks count from one. -/
def derivedBlock (key : HmacKey State) (salt : ByteArray) (iterations index : Nat) : ByteArray :=
  let first := D.hmacWith key (salt ++ ⟨(lengthBytes index 4).toArray⟩)
  D.iterate key first first (iterations - 1)

/-- A key of so many bytes from a password. -/
def deriveKey (password salt : ByteArray) (iterations size : Nat) : ByteArray :=
  let key := D.hmacKey password
  let blocks := (size + (D.output D.initial).size - 1) / (D.output D.initial).size
  let material := (List.range blocks).foldl
    (fun bytes i => bytes ++ D.derivedBlock key salt iterations (i + 1)) ByteArray.empty
  material.extract 0 size

end BlockDigest

def ShaSize.hmac : ShaSize → (key message : ByteArray) → ByteArray
  | .sha256 => Sha256.blockDigest.hmac
  | .sha384 => Sha512.blockDigest384.hmac
  | .sha512 => Sha512.blockDigest.hmac

/-- Key derivation from a password by repetition of the keyed digest. -/
def ShaSize.deriveKey : ShaSize → (password salt : ByteArray) → (iterations size : Nat) → ByteArray
  | .sha256 => Sha256.blockDigest.deriveKey
  | .sha384 => Sha512.blockDigest384.deriveKey
  | .sha512 => Sha512.blockDigest.deriveKey

@[simp] theorem ShaSize.size_hmac (h : ShaSize) (key message : ByteArray) :
    (h.hmac key message).size = h.bytes := by
  cases h
  · exact Sha256.size_output _
  · exact Sha512.size_output384 _
  · exact Sha512.size_output _

end SealedToken
