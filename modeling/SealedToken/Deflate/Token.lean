import SealedToken.Deflate.Bits

/-!
The tokens of compressed bytes: a byte that stands for itself, or a copy of what
stands before.
-/

namespace SealedToken.Deflate

inductive Token
  | literal (byte : UInt8)
  | copy (length distance : Nat)
  deriving DecidableEq, Repr

/-- Repeat what stands `distance` back. Zeros stand in front of everything. -/
def repeatBack (distance : Nat) (out : ByteArray) : (length : Nat) → ByteArray
  | 0 => out
  | length + 1 =>
      let byte := if distance ≤ out.size then byteAt out (out.size - distance) else 0
      repeatBack distance (out.push byte) length

/-- Expand a token behind what has been expanded. -/
def Token.appendTo (out : ByteArray) : Token → ByteArray
  | .literal byte => out.push byte
  | .copy length distance => repeatBack distance out length

end SealedToken.Deflate
