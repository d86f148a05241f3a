import SealedToken.Rsa.Key
import SealedToken.Rsa.Mask

/-!
The older paddings. A signed digest stands behind a fixed filling together with
the name of its algorithm; an encrypted text stands behind random bytes that are
not zero and a zero byte.
-/

namespace SealedToken.Rsa.Pkcs1

/-- The encoding of the digest's name, up to the digest itself. -/
def digestName (h : ShaSize) : List UInt8 :=
  let (total, index) : UInt8 × UInt8 :=
    match h with
    | .sha256 => (0x31, 0x01)
    | .sha384 => (0x41, 0x02)
    | .sha512 => (0x51, 0x03)
  [0x30, total, 0x30, 0x0d, 0x06, 0x09, 0x60, 0x86, 0x48, 0x01, 0x65, 0x03, 0x04, 0x02, index,
   0x05, 0x00, 0x04, UInt8.ofNat h.bytes]

/-- A digest filled to `size` bytes. -/
def encodeDigest (h : ShaSize) (size : Nat) (message : ByteArray) : ByteArray :=
  let tail := digestName h ++ (h.digest message).data.toList
  ⟨(0x00 :: 0x01 :: (List.replicate (size - 3 - tail.length) 0xff ++ 0x00 :: tail)).toArray⟩

/-- Sign a message, `none` when the key fails. -/
def sign? (k : PrivateKey) (h : ShaSize) (message : ByteArray) : Option ByteArray :=
  (k.operate? (Bytes.toNat (encodeDigest h k.size message))).map (Bytes.ofNat k.size)

def verify (k : PublicKey) (h : ShaSize) (message signature : ByteArray) : Bool :=
  let s := Bytes.toNat signature
  signature.size == k.size && s < k.n &&
    Bytes.ofNat k.size (k.apply s) == encodeDigest h k.size message

/-- The bytes that are at least taken by the filling of an encrypted text. -/
def overhead : Nat := 11

/-- Encrypt a text, `none` when it is too long. -/
def encrypt? (rng : Entropy) (k : PublicKey) (text : ByteArray) : Option ByteArray :=
  if k.size < text.size + overhead then none
  else
    let filling := (rng.take (k.size - 3 - text.size)).data.map fun b =>
      UInt8.ofNat (b.toNat % 255 + 1)
    let padded := 0x00 :: 0x02 :: (filling.toList ++ 0x00 :: text.data.toList)
    some (Bytes.ofNat k.size (k.apply (numberOf padded)))

/-- The text behind the filling. -/
def unpad? : List UInt8 → Option (List UInt8)
  | 0x00 :: 0x02 :: rest =>
      let filling := rest.takeWhile (· != 0)
      if filling.length < 8 then none
      else
        match rest.drop filling.length with
        | _ :: text => some text
        | [] => none
  | _ => none

/-- Decrypt a text, `none` when the filling is wrong or the key fails. -/
def decrypt? (k : DecryptionKey) (ciphertext : ByteArray) : Option ByteArray := do
  let c := Bytes.toNat ciphertext
  if ciphertext.size ≠ k.size ∨ k.modulus ≤ c then none
  else
    let padded := Bytes.ofNat k.size (← k.operate? c)
    let text ← unpad? padded.data.toList
    some ⟨text.toArray⟩

end SealedToken.Rsa.Pkcs1
