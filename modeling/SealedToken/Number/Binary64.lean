import SealedToken.Instances

/-!
Finite binary numbers of 64 bits in exact arithmetic: a sign, a mantissa below
`2 ^ 53` and an exponent of two. Every operation computes the exact ratio and
rounds it once, to the nearest number and from a tie to the even mantissa.
-/

namespace SealedToken

/-- The number `± mantissa * 2 ^ exponent`. Results of `Binary64.round` are
normal: the mantissa has 53 bits unless the exponent is the least one, and zero
has the exponent zero. -/
structure Binary64 where
  negative : Bool
  mantissa : Nat
  exponent : Int
  deriving DecidableEq, Repr

namespace Binary64

def leastExponent : Int := -1074
def greatestExponent : Int := 971

def zero : Binary64 := ⟨false, 0, 0⟩

def isZero (x : Binary64) : Bool := x.mantissa == 0

def neg (x : Binary64) : Binary64 := { x with negative := !x.negative }

/-- Multiply a ratio by a power of two. -/
def shiftRatio (num den : Nat) (exponent : Int) : Nat × Nat :=
  if 0 ≤ exponent then (num <<< exponent.toNat, den)
  else (num, den <<< (-exponent).toNat)

/-- The nearest natural number of a ratio, the even one of two. -/
def nearest (num den : Nat) : Nat :=
  let q := num / den
  let r := num % den
  if 2 * r < den then q
  else if den < 2 * r then q + 1
  else q + q % 2

/-- Round a ratio, `none` when it is too large. The exponent is the one that
gives the mantissa 53 bits, but never below the least. -/
def round (negative : Bool) (num den : Nat) : Option Binary64 :=
  if num = 0 then some ⟨negative, 0, 0⟩
  else
    let low : Int := (num.log2 : Int) - den.log2 - 53
    let (n, d) := shiftRatio num den (-low)
    let fitting := if n / d < 2 ^ 53 then low else low + 1
    let exponent := max fitting leastExponent
    let (n, d) := shiftRatio num den (-exponent)
    let mantissa := nearest n d
    let (mantissa, exponent) :=
      if mantissa = 2 ^ 53 then (2 ^ 52, exponent + 1) else (mantissa, exponent)
    if mantissa = 0 then some ⟨negative, 0, 0⟩
    else if greatestExponent < exponent then none
    else some ⟨negative, mantissa, exponent⟩

/-- The exact ratio of the magnitude. -/
def ratio (x : Binary64) : Nat × Nat :=
  shiftRatio x.mantissa 1 x.exponent

def ofNat? (n : Nat) : Option Binary64 :=
  round false n 1

def mul? (x y : Binary64) : Option Binary64 :=
  let (a, b) := x.ratio
  let (c, d) := y.ratio
  round (x.negative != y.negative) (a * c) (b * d)

/-- The quotient; a division by zero has none. -/
def div? (x y : Binary64) : Option Binary64 :=
  let (a, b) := x.ratio
  let (c, d) := y.ratio
  if c = 0 then none else round (x.negative != y.negative) (a * d) (b * c)

/-- The greatest power of ten that is a finite number. -/
def greatestTen : Nat := 308

/-- Divide by a power of ten in steps of the greatest one. Three steps bring
any mantissa below 2 ^ 64 to zero, so more are never needed. -/
def scaleDown (x : Binary64) (tens : Nat) : (steps : Nat) → Option Binary64
  | 0 => some x
  | steps + 1 =>
      if tens ≤ greatestTen then ofNat? (10 ^ tens) >>= x.div?
      else do
        let y ← ofNat? (10 ^ greatestTen) >>= x.div?
        if y.isZero then some y else scaleDown y (tens - greatestTen) steps

/-- The number that the decimal `significand * 10 ^ exponent` stands for, `none`
when it is too large. The significand is rounded first and then scaled, so each
of the two steps rounds. -/
def ofDecimal? (significand : Nat) (exponent : Int) : Option Binary64 := do
  let x ← ofNat? significand
  if x.isZero then some x
  else if 0 ≤ exponent then
    if exponent ≤ greatestTen then ofNat? (10 ^ exponent.toNat) >>= x.mul?
    else none
  else scaleDown x (-exponent).toNat 4

/-- The integer part, the fraction dropped. -/
def truncate (x : Binary64) : Int :=
  let (n, d) := x.ratio
  if x.negative then -((n / d : Nat) : Int) else ((n / d : Nat) : Int)

/-- Equality of numbers: the two zeros are one. -/
def same (x y : Binary64) : Bool :=
  x == y || (x.isZero && y.isZero)

end Binary64

end SealedToken
