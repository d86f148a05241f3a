import SealedToken.Json.Basic
import SealedToken.Number.Shortest

/-!
The compact text of a JSON value: no white space, members in the order in which
the value has them, and only those characters escaped that have to be.
-/

namespace SealedToken

/-- How the text of a float looks: the exponents of the leading digit that are
written positionally. -/
structure FloatFormat where
  leastPositional : Int
  greatestPositional : Int

/-- Floats stand positionally from 0.00001 up to below 10 ^ 16. -/
def Json.floatFormat : FloatFormat := ⟨-5, 15⟩

/-- The text of a decimal. Positional text always has a point; scientific text
has one only after a leading digit that is not alone, and always a sign before
the exponent. -/
def FloatFormat.chars (f : FloatFormat) (d : Binary64.Decimal) : List Char :=
  let digits := Nat.toDigits 10 d.digits
  let leading : Int := (digits.length : Int) - 1 + d.exponent
  if f.leastPositional ≤ leading ∧ leading ≤ f.greatestPositional then
    if 0 ≤ d.exponent then
      digits ++ List.replicate d.exponent.toNat '0' ++ ['.', '0']
    else if 0 ≤ leading then
      digits.take (leading + 1).toNat ++ '.' :: digits.drop (leading + 1).toNat
    else
      '0' :: '.' :: (List.replicate (-leading - 1).toNat '0' ++ digits)
  else
    let tail := if digits.length ≤ 1 then [] else '.' :: digits.drop 1
    let sign := if leading < 0 then '-' else '+'
    digits.take 1 ++ tail ++ 'e' :: sign :: Nat.toDigits 10 leading.natAbs

def Number.chars : Number → List Char
  | .int value =>
      if value < 0 then '-' :: Nat.toDigits 10 value.natAbs
      else Nat.toDigits 10 value.natAbs
  | .float x =>
      let digits := Json.floatFormat.chars x.shortest
      if x.negative then '-' :: digits else digits

namespace Json

def hexDigit (n : Nat) : Char :=
  if n < 10 then Char.ofNat (48 + n) else Char.ofNat (87 + n)

/-- A character inside a string. Quotes, backslashes and control characters are
escaped, the latter by name where they have one. -/
def escape (c : Char) : List Char :=
  if c = '"' then ['\\', '"']
  else if c = '\\' then ['\\', '\\']
  else if 0x20 ≤ c.toNat then [c]
  else if c = '\n' then ['\\', 'n']
  else if c = '\r' then ['\\', 'r']
  else if c = '\t' then ['\\', 't']
  else if c.toNat = 8 then ['\\', 'b']
  else if c.toNat = 12 then ['\\', 'f']
  else ['\\', 'u', '0', '0', hexDigit (c.toNat / 16), hexDigit (c.toNat % 16)]

def quoted (text : String) : List Char :=
  '"' :: (text.toList.flatMap escape ++ ['"'])

mutual

def chars : Json → List Char
  | null => ['n', 'u', 'l', 'l']
  | bool true => ['t', 'r', 'u', 'e']
  | bool false => ['f', 'a', 'l', 's', 'e']
  | num n => n.chars
  | str text => quoted text
  | arr items => '[' :: (itemsChars items ++ [']'])
  | obj members => '{' :: (membersChars members ++ ['}'])

def itemsChars : List Json → List Char
  | [] => []
  | [item] => chars item
  | item :: rest => chars item ++ ',' :: itemsChars rest

def membersChars : List (String × Json) → List Char
  | [] => []
  | [(name, value)] => quoted name ++ ':' :: chars value
  | (name, value) :: rest => quoted name ++ ':' :: (chars value ++ ',' :: membersChars rest)

end

def print (value : Json) : String :=
  String.ofList value.chars

end Json

end SealedToken
