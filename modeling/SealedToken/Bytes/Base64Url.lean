/-!
The unpadded base64 alphabet for URLs. Three bytes become four digits; a rest of
one or two bytes becomes two or three digits whose unused low bits are zero.
Reading is strict: no padding, no white space, and the unused bits have to be
zero, so every byte sequence has exactly one written form.
-/

namespace SealedToken.Base64Url

/-- The digit of a value below 64. -/
def digit (value : Nat) : Char :=
  if value < 26 then Char.ofNat (65 + value)
  else if value < 52 then Char.ofNat (71 + value)
  else if value < 62 then Char.ofNat (value - 4)
  else if value = 62 then '-'
  else '_'

/-- The value of a digit, `none` for any other character. -/
def value? (c : Char) : Option Nat :=
  if 'A' ≤ c ∧ c ≤ 'Z' then some (c.toNat - 65)
  else if 'a' ≤ c ∧ c ≤ 'z' then some (c.toNat - 71)
  else if '0' ≤ c ∧ c ≤ '9' then some (c.toNat + 4)
  else if c = '-' then some 62
  else if c = '_' then some 63
  else none

/-- Write bytes in front of what `done` holds, last digit first. -/
def writeOnto (done : List Char) : List UInt8 → List Char
  | a :: b :: c :: rest =>
      let n := (a.toNat * 256 + b.toNat) * 256 + c.toNat
      writeOnto
        (digit (n % 64) :: digit (n / 64 % 64) :: digit (n / 4096 % 64) ::
          digit (n / 262144) :: done)
        rest
  | [a, b] =>
      let n := (a.toNat * 256 + b.toNat) * 4
      digit (n % 64) :: digit (n / 64 % 64) :: digit (n / 4096) :: done
  | [a] =>
      let n := a.toNat * 16
      digit (n % 64) :: digit (n / 64) :: done
  | [] => done

def encode (bytes : ByteArray) : String :=
  String.ofList (writeOnto [] bytes.data.toList).reverse

/-- Read digits in front of what `done` holds, last byte first. -/
def readOnto (done : List UInt8) : List Char → Option (List UInt8)
  | w :: x :: y :: z :: rest => do
      let n := (((← value? w) * 64 + (← value? x)) * 64 + (← value? y)) * 64 + (← value? z)
      readOnto
        (UInt8.ofNat n :: UInt8.ofNat (n / 256) :: UInt8.ofNat (n / 65536) :: done) rest
  | [w, x, y] => do
      let n := ((← value? w) * 64 + (← value? x)) * 64 + (← value? y)
      if n % 4 = 0 then some (UInt8.ofNat (n / 4) :: UInt8.ofNat (n / 1024) :: done) else none
  | [w, x] => do
      let n := (← value? w) * 64 + (← value? x)
      if n % 16 = 0 then some (UInt8.ofNat (n / 16) :: done) else none
  | [_] => none
  | [] => some done

def decode? (text : String) : Option ByteArray :=
  (readOnto [] text.toList).map fun bytes => ⟨bytes.reverse.toArray⟩

theorem value?_digit : ∀ v < 64, value? (digit v) = some v := by decide

end SealedToken.Base64Url
