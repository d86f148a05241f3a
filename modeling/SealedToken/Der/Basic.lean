import SealedToken.Bytes.Number

/-!
Tagged values in their one distinguished encoding: a tag byte, a length in its
shortest form and the content. The writer produces only that encoding. The reader
takes one value from the front and returns the rest.
-/

namespace SealedToken.Der

inductive Tag
  | integer
  | bitString
  | octetString
  | sequence
  deriving DecidableEq, Repr

def Tag.byte : Tag → UInt8
  | .integer => 0x02
  | .bitString => 0x03
  | .octetString => 0x04
  | .sequence => 0x30

/-- Why a value cannot be read. -/
inductive Fault
  | truncated
  | unexpectedTag (found expected : UInt8)
  | invalidLength
  | negativeInteger
  deriving DecidableEq, Repr

/-! ### Writing -/

/-- The bytes of a number without zeros in front. -/
def minimalBytes (n : Nat) : List UInt8 :=
  (Bytes.minimal n).data.toList

/-- A length is one byte below 128, else the count of its bytes and these. -/
def length (n : Nat) : List UInt8 :=
  if n < 128 then [UInt8.ofNat n]
  else
    let bytes := minimalBytes n
    UInt8.ofNat (128 + bytes.length) :: bytes

def element (tag : Tag) (content : List UInt8) : List UInt8 :=
  tag.byte :: (length content.length ++ content)

def sequence (parts : List (List UInt8)) : List UInt8 :=
  element .sequence parts.flatten

def stripZeros (bytes : List UInt8) : List UInt8 :=
  bytes.dropWhile (· == 0)

/-- The content of a non-negative integer: no zeros in front but the one that
keeps the sign bit clear, and that one also for zero. -/
def integerContent (magnitude : List UInt8) : List UInt8 :=
  match stripZeros magnitude with
  | [] => [0]
  | b :: rest => if b < 0x80 then b :: rest else 0 :: b :: rest

def integer (magnitude : List UInt8) : List UInt8 :=
  element .integer (integerContent magnitude)

/-! ### Reading -/

/-- How many bytes a long length may have. -/
def lengthLimit : Nat := 8

/-- The length at the front of a text, and the rest. -/
def readLength : List UInt8 → Except Fault (Nat × List UInt8)
  | [] => .error .truncated
  | first :: rest =>
      if first < 0x80 then .ok (first.toNat, rest)
      else
        let count := first.toNat - 128
        if count = 0 ∨ lengthLimit < count ∨ rest.length < count then .error .invalidLength
        else
          .ok ((rest.take count).foldl (fun n b => n * 256 + b.toNat) 0, rest.drop count)

/-- The content of the value at the front, which has to bear a tag, and the rest. -/
def read (tag : Tag) : List UInt8 → Except Fault (List UInt8 × List UInt8)
  | [] => .error .truncated
  | found :: rest =>
      if found ≠ tag.byte then .error (.unexpectedTag found tag.byte)
      else do
        let (n, rest) ← readLength rest
        if rest.length < n then .error .truncated
        else .ok (rest.take n, rest.drop n)

/-- The magnitude of the integer at the front, without zeros in front. -/
def readInteger (bytes : List UInt8) : Except Fault (List UInt8 × List UInt8) := do
  let (content, rest) ← read .integer bytes
  match content with
  | b :: _ =>
      if b < 0x80 then .ok (stripZeros content, rest) else .error .negativeInteger
  | [] => .ok ([], rest)

end SealedToken.Der
