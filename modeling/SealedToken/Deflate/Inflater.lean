import SealedToken.Deflate.Description
import SealedToken.Deflate.Token

/-!
Decoding of compressed bytes in steps. A step decodes the head of a block, one
token, or a run of bytes that are not compressed. When the bytes end too early
the step is not taken and can be taken again once there are more.
-/

namespace SealedToken.Deflate

/-- What comes next. -/
inductive Mode
  | head
  | plain (left : Nat)
  | coded (literals distances : Code)
  | done

/-- Where a decoder stands. -/
structure Cursor where
  reader : BitReader
  /-- Is the current block the last one? -/
  last : Bool := false
  mode : Mode := .head

/-- What a step adds to the output. -/
inductive Piece
  | nothing
  | token (t : Token)
  | plain (bytes : ByteArray)

def Piece.appendTo (out : ByteArray) : Piece → ByteArray
  | .nothing => out
  | .token t => t.appendTo out
  | .plain bytes => out ++ bytes

namespace Cursor

/-- The head of a block. -/
def stepHead (s : Cursor) : Except Stop Cursor := do
  let (last, r) ← s.reader.bits 1
  let last := last == 1
  let (kind, r) ← r.bits 2
  if kind = 0 then
    let (size, r) ← r.align.bits 16
    let (complement, r) ← r.bits 16
    if size + complement ≠ 0xffff then .error .fault
    else .ok ⟨r, last, .plain size⟩
  else if kind = 1 then
    .ok ⟨r, last, .coded .fixedLiterals .fixedDistances⟩
  else if kind = 2 then
    let (literals, distances, r) ← Description.read r
    .ok ⟨r, last, .coded literals distances⟩
  else .error .fault

/-- What comes behind a block. -/
def endBlock (s : Cursor) : Cursor :=
  { s with mode := if s.last then .done else .head }

/-- Bytes as they are, as far as they reach and there is room. -/
def stepPlain (s : Cursor) (left room : Nat) : Except Stop (Cursor × Piece) :=
  if left = 0 then .ok (s.endBlock, .nothing)
  else
    let start := s.reader.pos / 8
    let count := min (min left room) (s.reader.bytes.size - start)
    if count = 0 then .error .short
    else
      let reader := { s.reader with pos := 8 * (start + count) }
      .ok ({ s with reader, mode := .plain (left - count) },
        .plain (s.reader.bytes.extract start (start + count)))

/-- A number from a table of least values, and additional bits. -/
def tableNumber (table : Array (Nat × Nat)) (index : Nat) (r : BitReader) :
    Except Stop (Nat × BitReader) :=
  match table[index]? with
  | none => .error .fault
  | some (least, count) => do
      let (n, r) ← r.bits count
      .ok (least + n, r)

/-- One symbol; with one for a length goes one for a distance. -/
def stepCoded (s : Cursor) (literals distances : Code) : Except Stop (Cursor × Piece) := do
  let (symbol, r) ← literals.symbol s.reader
  if symbol < endOfBlock then
    .ok ({ s with reader := r }, .token (.literal (UInt8.ofNat symbol)))
  else if symbol = endOfBlock then .ok ({ s with reader := r }.endBlock, .nothing)
  else
    let (length, r) ← tableNumber lengthTable (symbol - endOfBlock - 1) r
    let (symbol, r) ← distances.symbol r
    let (distance, r) ← tableNumber distanceTable symbol r
    .ok ({ s with reader := r }, .token (.copy length distance))

/-- The next step; only the bytes of a plain block heed the room. -/
def step (s : Cursor) (room : Nat) : Except Stop (Cursor × Piece) :=
  match s.mode with
  | .head => s.stepHead.map fun s => (s, .nothing)
  | .plain left => s.stepPlain left room
  | .coded literals distances => s.stepCoded literals distances
  | .done => .ok (s, .nothing)

end Cursor

/-- A decoder with all that it has decoded. -/
structure Inflater where
  cursor : Cursor
  out : ByteArray := .empty

namespace Inflater

def isDone (s : Inflater) : Bool :=
  match s.cursor.mode with
  | .done => true
  | _ => false

/-- Is there more output than a bound allows, or would a plain block give more? -/
def isFull (s : Inflater) (bound : Nat) : Bool :=
  match s.cursor.mode with
  | .plain (_ + 1) => bound ≤ s.out.size
  | _ => bound < s.out.size

/-- Take steps until a bound is passed, or why that is not possible; `none` also at
the end of everything. -/
def run (bound : Nat) (s : Inflater) : (fuel : Nat) → Inflater × Option Stop
  | 0 => (s, some .fault)
  | fuel + 1 =>
      if s.isDone ∨ s.isFull bound then (s, none)
      else
        match s.cursor.step (bound - s.out.size) with
        | .ok (cursor, piece) => run bound ⟨cursor, piece.appendTo s.out⟩ fuel
        | .error stop => (s, some stop)

/-- Enough fuel: every step but the end of a plain block takes a bit at least. -/
def runTo (bound : Nat) (s : Inflater) : Inflater × Option Stop :=
  run bound s (2 * s.cursor.reader.left + 2)

end Inflater

end SealedToken.Deflate
