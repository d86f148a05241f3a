import SealedToken.Rsa.Key
import SealedToken.Rsa.Mask

/-!
Encryption with optimal padding and an empty label. The text stands behind the
digest of the label, zeros and a one; this block and a random seed hide each
other by masks.
-/

namespace SealedToken.Rsa.Oaep

/-- Encrypt a text, `none` when it is too long. -/
def encrypt? (rng : Entropy) (f : DigestFunction) (k : PublicKey) (text : ByteArray) :
    Option ByteArray :=
  if k.size < text.size + 2 * f.size + 2 then none
  else
    let blockSize := k.size - f.size - 1
    let block := f.digest ByteArray.empty ++ Bytes.zeros (blockSize - f.size - 1 - text.size) ++
      ⟨#[0x01]⟩ ++ text
    let seed := rng.take f.size
    let maskedBlock := Bytes.xor block (f.mask seed blockSize)
    let maskedSeed := Bytes.xor seed (f.mask maskedBlock f.size)
    some (Bytes.ofNat k.size (k.apply (Bytes.toNat (maskedSeed ++ maskedBlock))))

/-- The text in an unmasked block. -/
def unpad? (f : DigestFunction) (block : ByteArray) : Option ByteArray :=
  if block.extract 0 f.size ≠ f.digest ByteArray.empty then none
  else
    match ((block.extract f.size block.size).data.toList).dropWhile (· == 0) with
    | 0x01 :: text => some ⟨text.toArray⟩
    | _ => none

/-- Decrypt a text, `none` when the padding is wrong or the key fails. -/
def decrypt? (f : DigestFunction) (k : DecryptionKey) (ciphertext : ByteArray) :
    Option ByteArray := do
  let c := Bytes.toNat ciphertext
  if ciphertext.size ≠ k.size ∨ k.modulus ≤ c ∨ k.size < 2 * f.size + 2 then none
  else
    let padded := Bytes.ofNat k.size (← k.operate? c)
    let maskedSeed := padded.extract 1 (1 + f.size)
    let maskedBlock := padded.extract (1 + f.size) k.size
    let seed := Bytes.xor maskedSeed (f.mask maskedBlock f.size)
    let block := Bytes.xor maskedBlock (f.mask seed maskedBlock.size)
    if padded.get! 0 ≠ 0 then none else unpad? f block

end SealedToken.Rsa.Oaep
