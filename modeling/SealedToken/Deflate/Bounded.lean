import SealedToken.Deflate.Inflater
import SealedToken.Error

/-!
Decompression within a limit. The loop works with any decoder that is called
again and again: each call is given the input that is left and some room, takes
part of the input and gives part of the output. Room is added in a way that at
most one byte more than the limit is ever held.
-/

namespace SealedToken.Deflate

/-- What a call gives. -/
structure Reply (σ : Type) where
  state : σ
  /-- How much of the input was taken. -/
  consumed : Nat
  output : ByteArray
  /-- Has everything been given? -/
  ended : Bool

/-- A decoder in calls; a call answers `none` to input that contradicts the
format. -/
structure StreamDecoder (σ : Type) where
  start : σ
  call : σ → (input : ByteArray) → (room : Nat) → Option (Reply σ)

/-- The room before the first call. -/
def firstCapacity (inputSize limit : Nat) : Nat := min (max (2 * inputSize) 64) (limit + 1)

/-- The capacity for the next call, when `held` bytes are held. -/
def nextCapacity (held capacity limit : Nat) : Nat :=
  held + min (limit + 1 - held) (max capacity 1024)

/-- Call a decoder until it ends or the limit is passed. `consumed` bytes of the
input are taken already and `held` is the output so far. -/
def inflateFrom {σ : Type} (d : StreamDecoder σ) (input : ByteArray) (limit : Nat) (s : σ)
    (consumed : Nat) (held : ByteArray) (capacity : Nat) : (fuel : Nat) → Except Error ByteArray
  | 0 => .error (.invalidFormat .inflateTruncated)
  | fuel + 1 =>
      match d.call s (input.extract consumed input.size) (capacity - held.size) with
      | none => .error (.invalidFormat .inflate)
      | some reply =>
          let held := held ++ reply.output
          let consumed := consumed + reply.consumed
          if limit < held.size then .error (.compressionLimitExceeded limit)
          else if reply.ended then .ok held
          else if consumed = input.size ∧ held.size < capacity then
            .error (.invalidFormat .inflateTruncated)
          else
            inflateFrom d input limit reply.state consumed held
              (nextCapacity held.size capacity limit) fuel

/-- The expansion of an input, if it is no longer than the limit. A decoder that
takes or gives something in every call is called no more often than the fuel
allows. -/
def inflateWith {σ : Type} (d : StreamDecoder σ) (input : ByteArray) (limit : Nat) :
    Except Error ByteArray :=
  inflateFrom d input limit d.start 0 .empty (firstCapacity input.size limit)
    (input.size + limit + 3)

/-! ### The decoder -/

/-- Output is decoded in windows of this size before it is given away. -/
def windowSize : Nat := 32768

/-- A decoder in windows. Nothing is decoded while a part of the current window is
left to be given away. -/
structure Window where
  inflater : Inflater
  /-- How much has been given away. -/
  given : Nat := 0
  /-- Where the part of the window that is decoded ends. -/
  ready : Nat := 0

namespace Window

/-- Decode the rest of the current window, and the symbol behind it; this is all
that is taken of the input, to the end of a byte. Beside the window stands the
number of bytes that were taken. -/
def decode (w : Window) (input : ByteArray) : Option (Window × Nat) :=
  let ⟨⟨cursor, out⟩, given, ready⟩ := w
  let before := cursor.reader.bytes
  let bound := (ready / windowSize + 1) * windowSize
  let reader := { cursor.reader with bytes := before ++ input }
  match Inflater.runTo bound ⟨{ cursor with reader }, out⟩ with
  | (_, some .fault) => none
  | (s, some .short) => some (⟨s, given, min bound s.out.size⟩, input.size)
  | (⟨cursor, out⟩, none) =>
      let taken := (cursor.reader.pos + 7) / 8
      let reader := { cursor.reader with bytes := cursor.reader.bytes.extract 0 taken }
      some (⟨⟨{ cursor with reader }, out⟩, given, min bound out.size⟩, taken - before.size)

/-- Give away as much of the window as there is room for. -/
def give (w : Window) (room : Nat) : Window × ByteArray :=
  let upTo := min w.ready (w.given + room)
  ({ w with given := upTo }, w.inflater.out.extract w.given upTo)

/-- Is nothing left to be given away? -/
def isEmpty (w : Window) : Bool := w.ready ≤ w.given

/-- Has everything been given away? -/
def isEnded (w : Window) : Bool := w.inflater.isDone && w.isEmpty

/-- Decode and give away windows, as long as there are input and room. -/
def decodeAll (w : Window) (input : ByteArray) (room : Nat) (consumed : Nat)
    (output : ByteArray) : (windows : Nat) → Option (Reply Window)
  | 0 => some ⟨w, consumed, output, w.isEnded⟩
  | windows + 1 => do
      let (w, taken) ← w.decode (input.extract consumed input.size)
      let (w, part) := w.give room
      let consumed := consumed + taken
      let room := room - part.size
      if w.isEnded ∨ consumed = input.size ∨ room = 0 ∨ ¬ w.isEmpty then
        some ⟨w, consumed, output ++ part, w.isEnded⟩
      else w.decodeAll input room consumed (output ++ part) windows

/-- Give away what is left of the window; if nothing is, decode. -/
def call (w : Window) (input : ByteArray) (room : Nat) : Option (Reply Window) :=
  if w.isEmpty then w.decodeAll input room 0 .empty (room / windowSize + 2)
  else
    let (w, part) := w.give room
    some ⟨w, 0, part, w.isEnded⟩

end Window

def decoder : StreamDecoder Window := ⟨{ inflater := { cursor := { reader := ⟨.empty, 0⟩ } } }, Window.call⟩

/-- The expansion of compressed bytes, if it is no longer than the limit. What
stands behind the end of the compressed bytes does not count. -/
def inflate (input : ByteArray) (limit : Nat) : Except Error ByteArray :=
  inflateWith decoder input limit

/-- The limit where none is chosen. -/
def defaultLimit : Nat := 256 * 1024

end SealedToken.Deflate
