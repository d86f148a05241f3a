import SealedToken.Aes.Block

/-!
Chained blocks: each block is combined with the one before it, the first with an
initial vector. A text is filled to whole blocks by bytes that tell their own
number, at least one.
-/

namespace SealedToken.Aes

def blockSize : Nat := 16

/-- Fill a text to whole blocks. -/
def pad (text : ByteArray) : ByteArray :=
  let count := blockSize - text.size % blockSize
  text ++ ⟨Array.replicate count (UInt8.ofNat count)⟩

/-- Remove the filling, `none` when there is none. -/
def unpad? (text : ByteArray) : Option ByteArray :=
  if text.size = 0 then none
  else
    let count := (text.get! (text.size - 1)).toNat
    if count = 0 ∨ blockSize < count ∨ text.size < count then none
    else if (text.extract (text.size - count) text.size).data.all (·.toNat == count) then
      some (text.extract 0 (text.size - count))
    else none

/-- Encrypt so many blocks from an offset on. -/
def cbcEncryptFrom (k : Key) (bytes : ByteArray) (offset : Nat) (last : Block)
    (out : ByteArray) : (blocks : Nat) → ByteArray
  | 0 => out
  | blocks + 1 =>
      let next := k.encrypt ((Block.ofBytes bytes offset).xor last)
      cbcEncryptFrom k bytes (offset + blockSize) next (next.pushTo out) blocks

def cbcDecryptFrom (k : Key) (bytes : ByteArray) (offset : Nat) (last : Block)
    (out : ByteArray) : (blocks : Nat) → ByteArray
  | 0 => out
  | blocks + 1 =>
      let block := Block.ofBytes bytes offset
      cbcDecryptFrom k bytes (offset + blockSize) block
        (((k.decrypt block).xor last).pushTo out) blocks

def cbcEncrypt (key iv text : ByteArray) : ByteArray :=
  let padded := pad text
  cbcEncryptFrom (Key.ofBytes key) padded 0 (Block.ofBytes iv 0) ByteArray.empty
    (padded.size / blockSize)

/-- Decrypt and remove the filling, `none` when the ciphertext is not made of
whole blocks or the filling is wrong. -/
def cbcDecrypt? (key iv ciphertext : ByteArray) : Option ByteArray :=
  if ciphertext.size % blockSize ≠ 0 then none
  else
    unpad? (cbcDecryptFrom (Key.ofBytes key) ciphertext 0 (Block.ofBytes iv 0) ByteArray.empty
      (ciphertext.size / blockSize))

end SealedToken.Aes
