import SealedToken.Instances

/-!
Bits of a byte string, the low bits of each byte first.
-/

namespace SealedToken.Deflate

/-- Why no more can be read. -/
inductive Stop
  /-- The bytes end too early. -/
  | short
  /-- They contradict the format. -/
  | fault
  deriving DecidableEq, Repr

/-- A byte of a byte string, zero behind its end. -/
def byteAt (bytes : ByteArray) (i : Nat) : UInt8 :=
  if h : i < bytes.size then bytes[i] else 0

/-- Bytes and the number of bits that are read already. -/
structure BitReader where
  bytes : ByteArray
  pos : Nat

namespace BitReader

/-- How many bits are left. -/
def left (r : BitReader) : Nat := 8 * r.bytes.size - r.pos

/-- The next bit. -/
def bit (r : BitReader) : Except Stop (Nat × BitReader) :=
  if r.pos / 8 < r.bytes.size then
    .ok ((byteAt r.bytes (r.pos / 8)).toNat / 2 ^ (r.pos % 8) % 2, { r with pos := r.pos + 1 })
  else .error .short

/-- The next bits as a number, the lowest first. -/
def bits (r : BitReader) : (count : Nat) → Except Stop (Nat × BitReader)
  | 0 => .ok (0, r)
  | count + 1 => do
      let (b, r) ← r.bit
      let (n, r) ← r.bits count
      .ok (b + 2 * n, r)

/-- Go on at the next whole byte. -/
def align (r : BitReader) : BitReader := { r with pos := (r.pos + 7) / 8 * 8 }

end BitReader

/-- Whole bytes and the bits of the next one. -/
structure BitWriter where
  bytes : ByteArray := .empty
  rest : Nat := 0
  count : Nat := 0

namespace BitWriter

/-- Move whole bytes out of the rest. -/
def flush (w : BitWriter) : BitWriter :=
  if w.count < 8 then w
  else flush ⟨w.bytes.push (UInt8.ofNat w.rest), w.rest / 256, w.count - 8⟩
termination_by w.count

/-- Write the low bits of a number, the lowest first. -/
def bits (w : BitWriter) (n count : Nat) : BitWriter :=
  flush ⟨w.bytes, w.rest + n % 2 ^ count * 2 ^ w.count, w.count + count⟩

/-- The low bits of a number, the highest first. -/
def reversed (n : Nat) : (count : Nat) → Nat
  | 0 => 0
  | count + 1 => n % 2 * 2 ^ count + reversed (n / 2) count

/-- Write a code word: the low bits of a number, the highest first. -/
def word (w : BitWriter) (n count : Nat) : BitWriter := w.bits (reversed n count) count

/-- All bytes; the last one is filled with zeros. -/
def finish (w : BitWriter) : ByteArray :=
  if w.count = 0 then w.bytes else w.bytes.push (UInt8.ofNat w.rest)

end BitWriter

end SealedToken.Deflate
