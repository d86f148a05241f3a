import SealedToken.Bytes.Number

/-!
The choice between a key that was decrypted and one that stands in for it. No branch is
taken on which of the two it is: every byte of the result is computed from both of them
and a mask. What was decrypted stands at the front of a buffer, of which a part is only
taken together with the proof that it lies inside.
-/

namespace SealedToken

namespace Bytes

/-- The front of a buffer. -/
def front (bytes : ByteArray) (count : Nat) (_inside : count ≤ bytes.size) : ByteArray :=
  bytes.extract 0 count

@[simp] theorem size_front {bytes : ByteArray} {count : Nat} (h : count ≤ bytes.size) :
    (front bytes count h).size = count := by
  rw [front, ByteArray.size_extract]
  omega

/-- A buffer with its front replaced. -/
def overwrite (bytes new : ByteArray) (_fits : new.size ≤ bytes.size) : ByteArray :=
  new ++ bytes.extract new.size bytes.size

@[simp] theorem size_overwrite {bytes new : ByteArray} (h : new.size ≤ bytes.size) :
    (overwrite bytes new h).size = bytes.size := by
  rw [overwrite, ByteArray.size_append, ByteArray.size_extract]
  omega

/-- The second byte if it is chosen, else the first. The mask has all bits or none. -/
def selectByte (chosen : Bool) (a b : UInt8) : UInt8 :=
  a ^^^ ((0 - chosen.toUInt8) &&& (a ^^^ b))

/-- The second of two strings if it is chosen, else the first. -/
def select (chosen : Bool) (a b : ByteArray) : ByteArray :=
  ⟨Array.zipWith (selectByte chosen) a.data b.data⟩

end Bytes

/-- What an operation has left in a buffer: the bytes that it has written, at the front. -/
structure Output where
  buffer : ByteArray
  succeeded : Bool
  /-- How many bytes were written. -/
  written : Nat
  written_le : written ≤ buffer.size

namespace Output

/-- A result in a buffer of some size, or larger where it would not fit. A failure has
written nothing. -/
def ofResult (size : Nat) (result : Option ByteArray) : Output :=
  match result with
  | some text =>
      { buffer := text ++ Bytes.zeros (size - text.size)
        succeeded := true
        written := text.size
        written_le := by rw [ByteArray.size_append]; omega }
  | none =>
      { buffer := Bytes.zeros size, succeeded := false, written := 0, written_le := Nat.zero_le _ }

/-- How many bytes are copied into a key, which may have less than were written. -/
def copied (out : Output) (keySize : Nat) : Nat := min out.written keySize

theorem copied_le_buffer (out : Output) (keySize : Nat) :
    out.copied keySize ≤ out.buffer.size :=
  Nat.le_trans (Nat.min_le_left _ _) out.written_le

theorem copied_le_key (out : Output) (keySize : Nat) : out.copied keySize ≤ keySize :=
  Nat.min_le_right _ _

/-- A key of what was written, cut off or filled up with zeros. -/
def candidate (out : Output) (keySize : Nat) : ByteArray :=
  Bytes.overwrite (Bytes.zeros keySize)
    (Bytes.front out.buffer (out.copied keySize) (out.copied_le_buffer keySize))
    (by rw [Bytes.size_front, Bytes.size_zeros]; exact out.copied_le_key keySize)

/-- What was written if that is a key, else the substitute. -/
def selectKey (out : Output) (keySize : Nat) (substitute : ByteArray) : ByteArray :=
  Bytes.select (out.succeeded && out.written == keySize) substitute (out.candidate keySize)

end Output

end SealedToken
