/-!
Powers and inverses modulo a number.
-/

namespace SealedToken.Modular

/-- The power by the lowest `bits` bits of the exponent, on top of `acc`, the
highest bit first. -/
def powFrom (m base exponent acc : Nat) : (bits : Nat) → Nat
  | 0 => acc
  | bits + 1 =>
      let square := acc * acc % m
      powFrom m base exponent
        (if exponent.testBit bits then square * base % m else square) bits

def pow (m base exponent : Nat) : Nat :=
  powFrom m (base % m) exponent (1 % m) (exponent.log2 + 1)

/-- The Euclidean algorithm on `a` and `b`, where `a` is `x` times the number to
be inverted and `b` is `y` times it, modulo `m`. -/
def inverseFrom (m a b x y : Nat) : (fuel : Nat) → Option Nat
  | 0 => none
  | fuel + 1 =>
      if b = 0 then if a = 1 then some x else none
      else
        let q := a / b
        inverseFrom m b (a % b) y ((x + (m - q % m) * y) % m) fuel

/-- The inverse of a number, `none` when it has none. A step of the algorithm
halves the product of its two numbers, which bounds the number of steps. -/
def inverse? (m a : Nat) : Option Nat :=
  if m = 0 then none
  else if m = 1 then some 0
  else inverseFrom m (a % m) m 1 0 (4 * (m.log2 + 1) + 4)

end SealedToken.Modular
