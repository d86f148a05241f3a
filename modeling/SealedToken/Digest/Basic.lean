/-!
Digests that absorb a message block by block. The message is closed by a one bit,
zero bits and its length, so that it fills whole blocks. What differs between
digests is the block size, the width of the length and the function that mixes a
block into the state.
-/

namespace SealedToken

/-- A digest built on a compression function. -/
structure BlockDigest (State : Type) where
  blockSize : Nat
  /-- How many bytes the length of the message takes at its end. -/
  lengthSize : Nat
  initial : State
  /-- Mix the block that starts at an offset into the state. -/
  compress : State → ByteArray → Nat → State
  /-- The digest that a state stands for. -/
  output : State → ByteArray

namespace BlockDigest

variable {State : Type} (D : BlockDigest State)

/-- Mix in so many blocks from an offset on. -/
def absorb (s : State) (bytes : ByteArray) (offset : Nat) : (blocks : Nat) → State
  | 0 => s
  | blocks + 1 =>
      absorb (D.compress s bytes offset) bytes (offset + D.blockSize) blocks

/-- The bytes of a length, most significant first. -/
def lengthBytes (bits size : Nat) : List UInt8 :=
  (List.range size).reverse.map fun i => UInt8.ofNat (bits >>> (8 * i))

/-- What closes a message of the given size. -/
def padding (size : Nat) : ByteArray :=
  let fill := (2 * D.blockSize - 1 - D.lengthSize - size % D.blockSize) % D.blockSize
  ⟨(0x80 :: (List.replicate fill 0 ++ lengthBytes (8 * size) D.lengthSize)).toArray⟩

/-- Absorb the rest of a message of which so many bytes are absorbed already,
and close it. -/
def finish (s : State) (absorbed : Nat) (rest : ByteArray) : ByteArray :=
  let whole := rest.size / D.blockSize
  let s := D.absorb s rest 0 whole
  let last := rest.extract (whole * D.blockSize) rest.size ++ D.padding (absorbed + rest.size)
  D.output (D.absorb s last 0 (last.size / D.blockSize))

def digest (message : ByteArray) : ByteArray :=
  D.finish D.initial 0 message

end BlockDigest

end SealedToken
