import SealedToken.Json.Basic

/-!
The text of a JSON number and the number it stands for. Digits are collected
into a significand of 64 bits for as long as they fit; whole digits beyond that
only raise the exponent and fractional ones are dropped. A text of whole digits
that fits 64 bits is an integer, every other text a float.
-/

namespace SealedToken

/-- A number as it is written. -/
structure NumberText where
  negative : Bool
  whole : List Char
  fraction : Option (List Char)
  /-- Whether the exponent is negative, and its digits. -/
  exponent : Option (Bool × List Char)

namespace NumberText

/-- The digits at the front of a text, and the rest. -/
def spanDigits (cs : List Char) : List Char × List Char :=
  (cs.takeWhile Char.isDigit, cs.dropWhile Char.isDigit)

/-- Whole digits: a zero that stands alone, or digits that start with another. -/
def readWhole? : List Char → Option (List Char × List Char)
  | '0' :: rest => some (['0'], rest)
  | c :: rest => if c.isDigit then some (spanDigits (c :: rest)) else none
  | [] => none

/-- At least one digit. -/
def readDigits? (cs : List Char) : Option (List Char × List Char) :=
  match spanDigits cs with
  | ([], _) => none
  | found => some found

def readFraction? : List Char → Option (Option (List Char) × List Char)
  | '.' :: rest => (readDigits? rest).map fun (ds, rest) => (some ds, rest)
  | cs => some (none, cs)

def readExponent? : List Char → Option (Option (Bool × List Char) × List Char)
  | c :: rest =>
      if c = 'e' ∨ c = 'E' then
        let (negative, rest) :=
          match rest with
          | '+' :: rest => (false, rest)
          | '-' :: rest => (true, rest)
          | _ => (false, rest)
        (readDigits? rest).map fun (ds, rest) => (some (negative, ds), rest)
      else some (none, c :: rest)
  | [] => some (none, [])

/-- The number at the front of a text, and the rest. -/
def read? (cs : List Char) : Option (NumberText × List Char) := do
  let (negative, cs) :=
    match cs with
    | '-' :: rest => (true, rest)
    | _ => (false, cs)
  let (whole, cs) ← readWhole? cs
  let (fraction, cs) ← readFraction? cs
  let (exponent, cs) ← readExponent? cs
  some (⟨negative, whole, fraction, exponent⟩, cs)

/-- Digits collected so far: the significand, and how many could not be taken
because it would have outgrown 64 bits. -/
structure Collected where
  significand : Nat
  dropped : Nat

def Collected.add (s : Collected) (digit : Char) : Collected :=
  let next := s.significand * 10 + (digit.toNat - 48)
  if s.dropped = 0 ∧ next < 2 ^ 64 then { s with significand := next }
  else { s with dropped := s.dropped + 1 }

/-- Collect digits behind a significand, as if none had been dropped before. -/
def collect (significand : Nat) (digits : List Char) : Collected :=
  digits.foldl Collected.add ⟨significand, 0⟩

/-- Exponents are counted up to this bound; a larger one is beyond every float. -/
def exponentBound : Nat := 2 ^ 31 - 1

/-- The value of an exponent's digits, `none` beyond the bound. -/
def exponentValue? (digits : List Char) : Option Nat :=
  digits.foldl
    (fun n? d => n?.bind fun n =>
      let next := n * 10 + (d.toNat - 48)
      if next ≤ exponentBound then some next else none)
    (some 0)

def signed (negative : Bool) (x : Binary64) : Number :=
  .float (if negative then x.neg else x)

/-- A text with a fraction or an exponent, or with whole digits that do not fit. -/
def floatValue? (t : NumberText) (whole : Collected) : Option Number :=
  let fraction := t.fraction.getD []
  let all := collect whole.significand fraction
  let taken := fraction.length - all.dropped
  let scale : Int := (whole.dropped : Int) - taken
  match t.exponent with
  | none => (Binary64.ofDecimal? all.significand scale).map (signed t.negative)
  | some (negative, digits) =>
      match exponentValue? digits with
      | some e =>
          let e : Int := if negative then -(e : Int) else e
          (Binary64.ofDecimal? all.significand (scale + e)).map (signed t.negative)
      | none =>
          if all.significand ≠ 0 ∧ ¬ negative then none
          else some (signed t.negative .zero)

/-- The number a text stands for, `none` when it is too large for a float. A
negative zero is a float, since no integer has a signed zero. -/
def value? (t : NumberText) : Option Number :=
  let whole := collect 0 t.whole
  if whole.dropped = 0 ∧ t.fraction = none ∧ t.exponent = none then
    if ¬ t.negative then some (.int whole.significand)
    else if whole.significand = 0 ∨ 2 ^ 63 < whole.significand then
      (Binary64.ofNat? whole.significand).map (signed true)
    else some (.int (-(whole.significand : Int)))
  else t.floatValue? whole

end NumberText

end SealedToken
