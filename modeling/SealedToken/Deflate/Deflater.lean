import SealedToken.Deflate.Code
import SealedToken.Deflate.Token

/-!
Compression: bytes become literals and copies of what stands before, and these are
written as one block in the code that needs no description.
-/

namespace SealedToken.Deflate

def leastCopy : Nat := 3
def greatestCopy : Nat := 258
def greatestDistance : Nat := 32768

/-- How far the bytes from `i` on and from `j` on agree, up to `most`. -/
def matchLength (bytes : ByteArray) (i j : Nat) : (most : Nat) → Nat
  | 0 => 0
  | most + 1 =>
      if j < bytes.size ∧ byteAt bytes i = byteAt bytes j then
        matchLength bytes (i + 1) (j + 1) most + 1
      else 0

def hashSize : Nat := 16384

/-- A number for the three bytes from a position on. -/
def hashAt (bytes : ByteArray) (i : Nat) : Nat :=
  ((byteAt bytes i).toNat * 2654435 + (byteAt bytes (i + 1)).toNat * 40503 +
    (byteAt bytes (i + 2)).toNat * 2473) % hashSize

/-- The copy of the latest place with the same number, if it is worth it. -/
def findCopy (bytes : ByteArray) (seen : Array Nat) (i : Nat) : Option (Nat × Nat) :=
  if bytes.size < i + leastCopy then none
  else
    match seen.getD (hashAt bytes i) 0 with
    | 0 => none
    | j + 1 =>
        let length := matchLength bytes j i greatestCopy
        if j < i ∧ i - j ≤ greatestDistance ∧ leastCopy ≤ length then some (length, i - j)
        else none

/-- Note a position; positions are counted from one. -/
def note (bytes : ByteArray) (seen : Array Nat) (i : Nat) : Array Nat :=
  if bytes.size < i + leastCopy then seen else seen.setIfInBounds (hashAt bytes i) (i + 1)

/-- The tokens from a position on, behind those in `done`. -/
def tokensFrom (bytes : ByteArray) (seen : Array Nat) (i : Nat) (done : Array Token) :
    (fuel : Nat) → Array Token
  | 0 => done
  | fuel + 1 =>
      if bytes.size ≤ i then done
      else
        let found := findCopy bytes seen i
        let seen := note bytes seen i
        match found with
        | some (length, distance) =>
            tokensFrom bytes seen (i + length) (done.push (.copy length distance)) fuel
        | none => tokensFrom bytes seen (i + 1) (done.push (.literal (byteAt bytes i))) fuel

def tokens (bytes : ByteArray) : Array Token :=
  tokensFrom bytes (Array.replicate hashSize 0) 0 #[] bytes.size

/-- The last entry of a table whose least value is not above a number. -/
def tableIndex (table : Array (Nat × Nat)) (n : Nat) : Nat :=
  (table.toList.takeWhile (·.1 ≤ n)).length - 1

/-- Write a symbol of the code that needs no description. -/
def writeSymbol (w : BitWriter) (symbol : Nat) : BitWriter :=
  if symbol < 144 then w.word (48 + symbol) 8
  else if symbol < 256 then w.word (256 + symbol) 9
  else if symbol < 280 then w.word (symbol - 256) 7
  else w.word (symbol - 88) 8

def writeToken (w : BitWriter) : Token → BitWriter
  | .literal byte => writeSymbol w byte.toNat
  | .copy length distance =>
      let i := tableIndex lengthTable length
      let (leastLength, lengthBits) := lengthTable.getD i (0, 0)
      let j := tableIndex distanceTable distance
      let (leastDistance, distanceBits) := distanceTable.getD j (0, 0)
      let w := (writeSymbol w (endOfBlock + 1 + i)).bits (length - leastLength) lengthBits
      (w.word j 5).bits (distance - leastDistance) distanceBits

/-- The compressed bytes: one last block. -/
def deflate (bytes : ByteArray) : ByteArray :=
  let w := (BitWriter.bits {} 1 1).bits 1 2
  (writeSymbol ((tokens bytes).foldl writeToken w) endOfBlock).finish

end SealedToken.Deflate
