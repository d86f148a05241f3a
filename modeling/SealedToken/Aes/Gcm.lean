import SealedToken.Aes.Cbc
import SealedToken.Instances

/-!
Counter mode with a tag over a binary field of 128 bits. A field element is two
words, the most significant bit of the first being the constant coefficient. The
initial vector has 96 bits, so the counter starts at one behind it.
-/

namespace SealedToken.Aes

/-- An element of the field. -/
structure Element where
  high : UInt64
  low : UInt64
  deriving DecidableEq

def Element.zero : Element := ⟨0, 0⟩

def Element.xor (a b : Element) : Element := ⟨a.high ^^^ b.high, a.low ^^^ b.low⟩

def Block.toElement (b : Block) : Element :=
  ⟨(b.c0.toUInt64 <<< 32) ||| b.c1.toUInt64, (b.c2.toUInt64 <<< 32) ||| b.c3.toUInt64⟩

def Element.toBlock (x : Element) : Block :=
  ⟨(x.high >>> 32).toUInt32, x.high.toUInt32, (x.low >>> 32).toUInt32, x.low.toUInt32⟩

/-- Multiply by the coefficients of one word, the first of them first. The second
factor is shifted along; what falls off at its end is folded back. -/
def mulWord (bits zh zl vh vl : UInt64) : (left : Nat) → Element × Element
  | 0 => (⟨zh, zl⟩, ⟨vh, vl⟩)
  | left + 1 =>
      let mask := (0 : UInt64) - (bits >>> 63)
      let fold := ((0 : UInt64) - (vl &&& 1)) &&& 0xe100000000000000
      mulWord (bits <<< 1) (zh ^^^ (vh &&& mask)) (zl ^^^ (vl &&& mask))
        ((vh >>> 1) ^^^ fold) ((vl >>> 1) ||| (vh <<< 63)) left

def Element.mul (x y : Element) : Element :=
  let (z, v) := mulWord x.high 0 0 y.high y.low 64
  (mulWord x.low z.high z.low v.high v.low 64).1

/-- Sixteen bytes from an offset on, with zeros behind the end. -/
def Element.ofBytes (bytes : ByteArray) (offset : Nat) : Element :=
  let piece := bytes.extract offset (offset + blockSize)
  (Block.ofBytes (piece ++ ⟨Array.replicate (blockSize - piece.size) 0⟩) 0).toElement

/-- Absorb so many blocks from an offset on. -/
def hashFrom (h sum : Element) (bytes : ByteArray) (offset : Nat) : (blocks : Nat) → Element
  | 0 => sum
  | blocks + 1 =>
      hashFrom h ((sum.xor (Element.ofBytes bytes offset)).mul h) bytes (offset + blockSize) blocks

def blockCount (size : Nat) : Nat := (size + blockSize - 1) / blockSize

/-- The hash of additional data and ciphertext with both their lengths. -/
def gcmHash (h : Element) (aad ciphertext : ByteArray) : Element :=
  let sum := hashFrom h .zero aad 0 (blockCount aad.size)
  let sum := hashFrom h sum ciphertext 0 (blockCount ciphertext.size)
  (sum.xor ⟨UInt64.ofNat (8 * aad.size), UInt64.ofNat (8 * ciphertext.size)⟩).mul h

/-- The key stream for so many blocks, from a counter on. -/
def keyStream (k : Key) (start : Block) (out : ByteArray) : (blocks : Nat) → ByteArray
  | 0 => out
  | blocks + 1 =>
      keyStream k { start with c3 := start.c3 + 1 } ((k.encrypt start).pushTo out) blocks

/-- Combine a text with the key stream from the second counter on. -/
def counterMode (k : Key) (first : Block) (text : ByteArray) : ByteArray :=
  let stream := keyStream k { first with c3 := first.c3 + 1 } ByteArray.empty
    (blockCount text.size)
  ⟨Array.zipWith (· ^^^ ·) text.data stream.data⟩

def firstCounter (iv : ByteArray) : Block :=
  ⟨wordAt iv 0, wordAt iv 4, wordAt iv 8, 1⟩

def gcmTag (k : Key) (first : Block) (aad ciphertext : ByteArray) : ByteArray :=
  let h := (k.encrypt ⟨0, 0, 0, 0⟩).toElement
  ((k.encrypt first).xor (gcmHash h aad ciphertext).toBlock).pushTo ByteArray.empty

/-- The ciphertext and the tag. -/
def gcmSeal (key iv aad text : ByteArray) : ByteArray × ByteArray :=
  let k := Key.ofBytes key
  let first := firstCounter iv
  let ciphertext := counterMode k first text
  (ciphertext, gcmTag k first aad ciphertext)

/-- The text, `none` when the tag is another. -/
def gcmOpen? (key iv aad ciphertext tag : ByteArray) : Option ByteArray :=
  let k := Key.ofBytes key
  let first := firstCounter iv
  if gcmTag k first aad ciphertext = tag then some (counterMode k first ciphertext) else none

end SealedToken.Aes
