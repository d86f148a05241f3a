import SealedToken.Number.Binary64

/-!
The shortest decimal that reads back as a given binary number. The reals that
round to the number form an interval, which contains its ends exactly when the
mantissa is even. Decimal grids are tried from coarse to fine; on each grid only
the two neighbours of the number can be the nearest point inside the interval.
-/

namespace SealedToken.Binary64

/-- A decimal `digits * 10 ^ exponent`. -/
structure Decimal where
  digits : Nat
  exponent : Int
  deriving DecidableEq, Repr

/-- The interval of reals that round to a number, all three over one common
denominator: the low end, the number and the high end. -/
structure Interval where
  low : Nat
  middle : Nat
  high : Nat
  denominator : Nat
  closed : Bool

/-- Below a power of two the neighbours lie half as far apart, unless the
exponent is the least. -/
def interval (x : Binary64) : Interval :=
  let below := if x.mantissa = 2 ^ 52 ∧ leastExponent < x.exponent then 1 else 2
  let scale := shiftRatio 1 4 x.exponent
  { low := (4 * x.mantissa - below) * scale.1
    middle := 4 * x.mantissa * scale.1
    high := (4 * x.mantissa + 2) * scale.1
    denominator := scale.2
    closed := x.mantissa % 2 == 0 }

/-- Does the ratio lie in the interval? -/
def Interval.contains (i : Interval) (num den : Nat) : Bool :=
  let n := num * i.denominator
  if i.closed then i.low * den ≤ n && n ≤ i.high * den
  else i.low * den < n && n < i.high * den

/-- The point of the grid of step `10 ^ exponent` that lies in the interval and
is nearest to the number, the even one of two. -/
def Interval.gridPoint? (i : Interval) (exponent : Int) : Option Decimal :=
  let (stepNum, stepDen) :=
    if 0 ≤ exponent then (10 ^ exponent.toNat, 1) else (1, 10 ^ (-exponent).toNat)
  let q := i.middle * stepDen / (i.denominator * stepNum)
  let r := i.middle * stepDen % (i.denominator * stepNum)
  let lower := q ≠ 0 && i.contains (q * stepNum) stepDen
  let upper := i.contains ((q + 1) * stepNum) stepDen
  let distance := compare (2 * r) (i.denominator * stepNum)
  let preferUpper :=
    distance == .gt || (distance == .eq && q % 2 == 1)
  if lower && !(upper && preferUpper) then some ⟨q, exponent⟩
  else if upper then some ⟨q + 1, exponent⟩
  else none

/-- Try the grids from the given exponent downwards. -/
def Interval.search (i : Interval) (exponent : Int) : (tries : Nat) → Decimal
  | 0 => ⟨i.middle / i.denominator, 0⟩
  | tries + 1 =>
      match i.gridPoint? exponent with
      | some d => d
      | none => i.search (exponent - 1) tries

/-- Drop the zeros at the end of the digits. -/
def Decimal.trim (d : Decimal) : (fuel : Nat) → Decimal
  | 0 => d
  | fuel + 1 =>
      if d.digits ≠ 0 ∧ d.digits % 10 = 0 then
        Decimal.trim ⟨d.digits / 10, d.exponent + 1⟩ fuel
      else d

/-- An exponent of ten that is at least the number's own. The logarithm of two
is just above 0.30102, so the estimate is above by at most a few units. -/
def tenExponentBound (x : Binary64) : Int :=
  let bits := (x.mantissa.log2 : Int) + x.exponent + 1
  if 0 ≤ bits then bits * 30103 / 100000 + 1 else bits * 30102 / 100000 + 1

/-- The decimal of least length that reads back. Grids coarser than the number
itself hold at most one point of the interval, so a start above is harmless, and
twenty grids reach past seventeen digits. -/
def shortest (x : Binary64) : Decimal :=
  if x.isZero then ⟨0, 0⟩
  else Decimal.trim (x.interval.search x.tenExponentBound 24) 24

end SealedToken.Binary64
