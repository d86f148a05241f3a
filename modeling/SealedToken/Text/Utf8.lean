/-!
The well-formed byte sequences of UTF-8, and the place where a sequence stops
being one. A character is a first byte followed by the continuation bytes that
the first byte asks for, each inside a range of its own: the narrower ranges
exclude overlong forms, surrogates and code points past the last plane.
-/

namespace SealedToken.Utf8

/-- The closed range a continuation byte has to lie in. -/
structure Range where
  low : UInt8
  high : UInt8
  deriving DecidableEq, Repr

def Range.contains (r : Range) (b : UInt8) : Bool :=
  r.low ≤ b && b ≤ r.high

/-- The range of a continuation byte that carries six free bits. -/
def Range.full : Range := ⟨0x80, 0xBF⟩

/-- The continuation bytes a first byte asks for, `none` when no character
starts with it. -/
def continuations (first : UInt8) : Option (List Range) :=
  if first < 0x80 then some []
  else if first < 0xC2 then none
  else if first < 0xE0 then some [.full]
  else if first = 0xE0 then some [⟨0xA0, 0xBF⟩, .full]
  else if first = 0xED then some [⟨0x80, 0x9F⟩, .full]
  else if first < 0xF0 then some [.full, .full]
  else if first = 0xF0 then some [⟨0x90, 0xBF⟩, .full, .full]
  else if first < 0xF4 then some [.full, .full, .full]
  else if first = 0xF4 then some [⟨0x80, 0x8F⟩, .full, .full]
  else none

/-- Why a byte sequence is not UTF-8. The index is that of the first byte of
the character that failed, so everything before it is well formed. -/
inductive Fault
  /-- So many bytes from the index on can start no character. -/
  | invalid (length index : Nat)
  /-- The bytes end inside a character. -/
  | incomplete (index : Nat)
  deriving DecidableEq, Repr

def Fault.message : Fault → String
  | .invalid length index =>
      s!"invalid utf-8 sequence of {length} bytes from index {index}"
  | .incomplete index => s!"incomplete utf-8 byte sequence from index {index}"

/-- Scan for the first fault. `start` is the index of the character being read,
`seen` the number of its bytes read so far and `pending` the ranges of those
still owed. -/
def scan (start seen : Nat) (pending : List Range) : List UInt8 → Option Fault
  | [] => if pending.isEmpty then none else some (.incomplete start)
  | b :: rest =>
      match pending with
      | [] =>
          match continuations b with
          | none => some (.invalid 1 start)
          | some [] => scan (start + 1) 0 [] rest
          | some owed => scan start 1 owed rest
      | [last] =>
          if last.contains b then scan (start + seen + 1) 0 [] rest
          else some (.invalid seen start)
      | next :: owed =>
          if next.contains b then scan start (seen + 1) owed rest
          else some (.invalid seen start)

/-- The first fault of a byte sequence, `none` when it has none. -/
def fault? (bytes : ByteArray) : Option Fault :=
  scan 0 0 [] bytes.data.toList

/-- Read a text. A sequence without a fault is always well formed, so the last
case of the report is only there to be total. -/
def decode (bytes : ByteArray) : Except Fault String :=
  match String.fromUTF8? bytes with
  | some text => .ok text
  | none => .error ((fault? bytes).getD (.invalid 1 0))

/-- Reading back what a text is written as gives the text. -/
theorem decode_toUTF8 (text : String) : decode text.toUTF8 = .ok text := by
  have h : String.fromUTF8? text.toUTF8 = some text := by
    simp only [String.fromUTF8?, String.toUTF8_eq_toByteArray, dif_pos text.isValidUTF8]
    rfl
  rw [decode, h]

end SealedToken.Utf8
