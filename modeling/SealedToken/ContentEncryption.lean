import SealedToken.Algorithm.Basic
import SealedToken.Primitives.Basic

/-!
Content encryption with additional authenticated data. Whatever goes wrong in a
decryption under a key of the right size is the same error.
-/

namespace SealedToken

/-- What an encryption gives. -/
structure EncryptedContent where
  iv : ByteArray
  ciphertext : ByteArray
  tag : ByteArray
  deriving DecidableEq

/-- A key has to have so many bytes. -/
def checkKeySize (expected : Nat) (key : ByteArray) : Except Error Unit :=
  if key.size = expected then .ok () else .error (.invalidKeyLength expected key.size)

namespace ContentEncryptionAlgorithm

def cbcIvSize : Nat := 16
def gcmIvSize : Nat := 12
def gcmTagSize : Nat := 16

def keyBytes (a : ContentEncryptionAlgorithm) : Nat := a.keySize / 8

/-- The two halves of a key for chained blocks: for the tag and for the blocks. -/
def halves (key : ByteArray) : ByteArray × ByteArray :=
  (key.extract 0 (key.size / 2), key.extract (key.size / 2) key.size)

/-- What the tag of chained blocks is made of. -/
def taggedBytes (aad iv ciphertext : ByteArray) : ByteArray :=
  aad ++ iv ++ ciphertext ++ Bytes.ofNat 8 (8 * aad.size)

/-- The tag of chained blocks: as much of the keyed digest as its key is long. -/
def cbcTag (p : Primitives) (s : AesSize) (key aad iv ciphertext : ByteArray) : ByteArray :=
  (p.hmac s.sha key (taggedBytes aad iv ciphertext)).extract 0 key.size

def encrypt (p : Primitives) (rng : Entropy) (a : ContentEncryptionAlgorithm)
    (key aad text : ByteArray) : Except Error EncryptedContent := do
  checkKeySize a.keyBytes key
  match a with
  | .cbcHmac s =>
      let (tagKey, blockKey) := halves key
      let iv := rng.take cbcIvSize
      let ciphertext := p.cbcEncrypt blockKey iv text
      pure ⟨iv, ciphertext, cbcTag p s tagKey aad iv ciphertext⟩
  | .gcm _ =>
      let iv := rng.take gcmIvSize
      let (ciphertext, tag) := p.gcmSeal key iv aad text
      pure ⟨iv, ciphertext, tag⟩

/-- The text behind an authentication that may have failed. -/
def authenticated (result : Option ByteArray) : Except Error ByteArray :=
  match result with
  | some text => .ok text
  | none => .error .authenticationFailure

/-- Open what is sealed under a key; initialisation vector and tag have fixed
sizes. -/
def gcmDecrypt (p : Primitives) (key iv aad ciphertext tag : ByteArray) :
    Except Error ByteArray :=
  if iv.size ≠ gcmIvSize ∨ tag.size ≠ gcmTagSize then .error .authenticationFailure
  else authenticated (p.gcmOpen? key iv aad ciphertext tag)

/-- Check the tag before any block is decrypted. -/
def cbcDecrypt (p : Primitives) (s : AesSize) (key iv aad ciphertext tag : ByteArray) :
    Except Error ByteArray :=
  let (tagKey, blockKey) := halves key
  if cbcTag p s tagKey aad iv ciphertext ≠ tag ∨ iv.size ≠ cbcIvSize then
    .error .authenticationFailure
  else authenticated (p.cbcDecrypt? blockKey iv ciphertext)

def decrypt (p : Primitives) (a : ContentEncryptionAlgorithm) (key aad : ByteArray)
    (content : EncryptedContent) : Except Error ByteArray := do
  checkKeySize a.keyBytes key
  match a with
  | .cbcHmac s => cbcDecrypt p s key content.iv aad content.ciphertext content.tag
  | .gcm _ => gcmDecrypt p key content.iv aad content.ciphertext content.tag

end ContentEncryptionAlgorithm

end SealedToken
