import SealedToken.Instances

/-!
Natural numbers as byte strings, most significant byte first unless a name says
otherwise.
-/

namespace SealedToken.Bytes

/-- The number a byte string spells. -/
def toNat (bytes : ByteArray) : Nat :=
  bytes.data.foldl (fun n b => n * 256 + b.toNat) 0

/-- The number a byte string spells from its last byte to its first. -/
def toNatLittle (bytes : ByteArray) : Nat :=
  bytes.data.foldr (fun b n => n * 256 + b.toNat) 0

/-- The low `count` bytes of a number, least significant first. -/
def digits (n : Nat) : (count : Nat) → List UInt8
  | 0 => []
  | count + 1 => UInt8.ofNat n :: digits (n / 256) count

/-- Exactly `size` bytes; what does not fit is dropped. -/
def ofNat (size n : Nat) : ByteArray :=
  ⟨(digits n size).reverse.toArray⟩

/-- Exactly `size` bytes, least significant first. -/
def ofNatLittle (size n : Nat) : ByteArray :=
  ⟨(digits n size).toArray⟩

/-- How many bytes a number needs, none for zero. -/
def byteLength (n : Nat) : Nat :=
  if n = 0 then 0 else n.log2 / 8 + 1

/-- The shortest byte string that spells a number, empty for zero. -/
def minimal (n : Nat) : ByteArray :=
  ofNat (byteLength n) n

/-- Drop the zero bytes at the front. -/
def stripLeadingZeros (bytes : ByteArray) : ByteArray :=
  ⟨(bytes.data.toList.dropWhile (· == 0)).toArray⟩

def zeros (count : Nat) : ByteArray :=
  ⟨Array.replicate count 0⟩

/-- The bytes of two strings combined in pairs, as far as both reach. -/
def xor (a b : ByteArray) : ByteArray :=
  ⟨Array.zipWith (· ^^^ ·) a.data b.data⟩

def reverse (bytes : ByteArray) : ByteArray :=
  ⟨bytes.data.reverse⟩

@[simp] theorem length_digits (n count : Nat) : (digits n count).length = count := by
  induction count generalizing n with
  | zero => rfl
  | succ count ih => simp [digits, ih]

@[simp] theorem size_ofNat (size n : Nat) : (ofNat size n).size = size := by
  change (digits n size).reverse.toArray.size = size
  simp

@[simp] theorem size_zeros (count : Nat) : (zeros count).size = count :=
  Array.size_replicate

@[simp] theorem size_xor (a b : ByteArray) : (xor a b).size = min a.size b.size := by
  change (Array.zipWith _ a.data b.data).size = min a.data.size b.data.size
  exact Array.size_zipWith

end SealedToken.Bytes
