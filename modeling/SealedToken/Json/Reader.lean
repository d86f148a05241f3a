import SealedToken.Json.Number

/-!
Reading JSON text. A reader takes a value from the front of a text and returns
the rest. Arrays and objects may nest up to a limit. A value can also be passed
over: then only its grammar counts, so its numbers may be of any size, its
escapes need not pair up, and it may nest without limit.

Recursion is on a fuel that no text exhausts: each nested call but the one for
the first element of a list is preceded by a character of its own.
-/

namespace SealedToken.Json

/-- How deep arrays and objects may nest. -/
def nestingLimit : Nat := 127

/-- How a value is read. -/
inductive Purpose
  /-- Keep the value; so many levels of nesting are left. -/
  | keep (levels : Nat)
  /-- Pass over the value. -/
  | skip

/-- The purpose one level further down, `none` at the limit. -/
def Purpose.deeper? : Purpose → Option Purpose
  | .keep 0 => none
  | .keep (levels + 1) => some (.keep levels)
  | .skip => some .skip

def isBlank (c : Char) : Bool :=
  c == ' ' || c == '\n' || c == '\t' || c == '\r'

def dropBlanks (cs : List Char) : List Char :=
  cs.dropWhile isBlank

def hexValue? (c : Char) : Option Nat :=
  if '0' ≤ c ∧ c ≤ '9' then some (c.toNat - 48)
  else if 'a' ≤ c ∧ c ≤ 'f' then some (c.toNat - 87)
  else if 'A' ≤ c ∧ c ≤ 'F' then some (c.toNat - 55)
  else none

/-- The code unit that four hexadecimal digits spell. -/
def codeUnit? (a b c d : Char) : Option Nat := do
  some ((((← hexValue? a) * 16 + (← hexValue? b)) * 16 + (← hexValue? c)) * 16 + (← hexValue? d))

/-- The character an escape with a name stands for. -/
def namedEscape? (c : Char) : Option Char :=
  if c = '"' ∨ c = '\\' ∨ c = '/' then some c
  else if c = 'n' then some '\n'
  else if c = 'r' then some '\r'
  else if c = 't' then some '\t'
  else if c = 'b' then some (Char.ofNat 8)
  else if c = 'f' then some (Char.ofNat 12)
  else none

def isLeading (unit : Nat) : Bool := 0xD800 ≤ unit && unit < 0xDC00
def isTrailing (unit : Nat) : Bool := 0xDC00 ≤ unit && unit < 0xE000

/-- The rest of a string behind its opening quote. Code units of a pair have to
stand together. -/
def stringBody (done : List Char) : List Char → Option (String × List Char)
  | [] => none
  | '"' :: rest => some (String.ofList done.reverse, rest)
  | '\\' :: 'u' :: a :: b :: c :: d :: rest =>
      match codeUnit? a b c d with
      | none => none
      | some unit =>
          if isLeading unit then
            match rest with
            | '\\' :: 'u' :: e :: f :: g :: h :: rest =>
                match codeUnit? e f g h with
                | some second =>
                    if isTrailing second then
                      let code := 0x10000 + (unit - 0xD800) * 0x400 + (second - 0xDC00)
                      stringBody (Char.ofNat code :: done) rest
                    else none
                | none => none
            | _ => none
          else if isTrailing unit then none
          else stringBody (Char.ofNat unit :: done) rest
  | '\\' :: c :: rest =>
      match namedEscape? c with
      | some c => stringBody (c :: done) rest
      | none => none
  | c :: rest => if c.toNat < 0x20 then none else stringBody (c :: done) rest

/-- Pass over the rest of a string behind its opening quote. -/
def skipString : List Char → Option (List Char)
  | [] => none
  | '"' :: rest => some rest
  | '\\' :: 'u' :: a :: b :: c :: d :: rest =>
      if (codeUnit? a b c d).isSome then skipString rest else none
  | '\\' :: c :: rest => if (namedEscape? c).isSome then skipString rest else none
  | c :: rest => if c.toNat < 0x20 then none else skipString rest

/-- The rest of a string; one that is passed over counts as empty. -/
def textFor (purpose : Purpose) (cs : List Char) : Option (String × List Char) :=
  match purpose with
  | .keep _ => stringBody [] cs
  | .skip => (skipString cs).map fun rest => ("", rest)

def numberFor (purpose : Purpose) (cs : List Char) : Option (Json × List Char) := do
  let (text, rest) ← NumberText.read? cs
  match purpose with
  | .keep _ => text.value?.map fun n => (num n, rest)
  | .skip => some (null, rest)

mutual

/-- The value at the front of a text, and the rest. -/
def value? : (fuel : Nat) → Purpose → List Char → Option (Json × List Char)
  | 0, _, _ => none
  | fuel + 1, purpose, cs =>
      match dropBlanks cs with
      | 'n' :: 'u' :: 'l' :: 'l' :: rest => some (null, rest)
      | 't' :: 'r' :: 'u' :: 'e' :: rest => some (bool true, rest)
      | 'f' :: 'a' :: 'l' :: 's' :: 'e' :: rest => some (bool false, rest)
      | '"' :: rest => (textFor purpose rest).map fun (text, rest) => (str text, rest)
      | '[' :: rest =>
          match purpose.deeper? with
          | none => none
          | some inner =>
              match dropBlanks rest with
              | ']' :: rest => some (arr [], rest)
              | rest => items? fuel inner [] rest
      | '{' :: rest =>
          match purpose.deeper? with
          | none => none
          | some inner =>
              match dropBlanks rest with
              | '}' :: rest => some (obj [], rest)
              | rest => members? fuel inner [] rest
      | rest => numberFor purpose rest

/-- The elements of an array from the next one on, behind those in `done`. -/
def items? : (fuel : Nat) → Purpose → List Json → List Char → Option (Json × List Char)
  | 0, _, _, _ => none
  | fuel + 1, purpose, done, cs =>
      match value? fuel purpose cs with
      | none => none
      | some (item, rest) =>
          match dropBlanks rest with
          | ',' :: rest => items? fuel purpose (item :: done) rest
          | ']' :: rest => some (arr (item :: done).reverse, rest)
          | _ => none

/-- The members of an object from the next one on, behind those in `done`. -/
def members? : (fuel : Nat) → Purpose → List (String × Json) → List Char →
    Option (Json × List Char)
  | 0, _, _, _ => none
  | fuel + 1, purpose, done, cs =>
      match dropBlanks cs with
      | '"' :: rest =>
          match textFor purpose rest with
          | none => none
          | some (name, rest) =>
              match dropBlanks rest with
              | ':' :: rest =>
                  match value? fuel purpose rest with
                  | none => none
                  | some (value, rest) =>
                      match dropBlanks rest with
                      | ',' :: rest => members? fuel purpose ((name, value) :: done) rest
                      | '}' :: rest => some (obj ((name, value) :: done).reverse, rest)
                      | _ => none
              | _ => none
      | _ => none

end

/-- Enough fuel for every value at the front of a text. -/
def fuelFor (cs : List Char) : Nat := 2 * cs.length + 2

/-- The value at the front of a text, its members as they are written. -/
def read? (purpose : Purpose) (cs : List Char) : Option (Json × List Char) :=
  value? (fuelFor cs) purpose cs

/-- The value a whole text spells. -/
def parse? (text : String) : Option Json :=
  match read? (.keep nestingLimit) text.toList with
  | some (value, rest) => if (dropBlanks rest).isEmpty then some value.canonical else none
  | none => none

/-- Does a text begin like an object? -/
def startsObject (text : String) : Bool := text.toList.head? == some '\x7b'

/-- The value that bytes spell in UTF-8. -/
def parseBytes? (bytes : ByteArray) : Option Json :=
  String.fromUTF8? bytes >>= parse?

end SealedToken.Json
