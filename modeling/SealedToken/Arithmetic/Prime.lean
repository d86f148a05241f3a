import SealedToken.Arithmetic.Modular
import SealedToken.Bytes.Number
import SealedToken.Entropy

/-!
Random primes. A candidate has to be prime to all small primes and pass the
strong test for several random bases.
-/

namespace SealedToken.Prime

/-- Does a number have no divisor among the odd ones from `d` to its root? -/
def noDivisorFrom (n d : Nat) : (fuel : Nat) → Bool
  | 0 => true
  | fuel + 1 =>
      if n < d * d then true else n % d != 0 && noDivisorFrom n (d + 2) fuel

/-- The odd primes below 2 ^ 15. -/
def small : List Nat :=
  ((List.range (2 ^ 14)).map (2 * · + 1)).filter fun n => 1 < n && noDivisorFrom n 3 n

/-- Squaring from a power on: does the sequence meet the number before `n`? -/
def meetsMinusOne (n x : Nat) : (squarings : Nat) → Bool
  | 0 => false
  | squarings + 1 => x == n - 1 || meetsMinusOne n (x * x % n) squarings

/-- Split `n - 1` into an odd part and a power of two. -/
def oddPart (m : Nat) : (fuel : Nat) → Nat × Nat
  | 0 => (m, 0)
  | fuel + 1 =>
      if m % 2 = 0 ∧ m ≠ 0 then
        let (odd, twos) := oddPart (m / 2) fuel
        (odd, twos + 1)
      else (m, 0)

/-- The strong test for one base. -/
def passes (n base : Nat) : Bool :=
  let (odd, twos) := oddPart (n - 1) (n.log2 + 1)
  let x := Modular.pow n base odd
  x == 1 || meetsMinusOne n x twos

/-- How many bases are tried; long random candidates that are composite pass few. -/
def baseCount (bits : Nat) : Nat := if 1300 ≤ bits then 4 else if 800 ≤ bits then 6 else 24

def isProbable (e : Entropy) (n : Nat) : Bool :=
  small.all (fun p => n % p != 0 || n == p) &&
    passes n 2 &&
    (List.range (baseCount n.log2)).all fun i =>
      passes n (2 + Bytes.toNat ((e.fork i).take ((n.log2 + 7) / 8)) % (n - 3))

/-- The first probable prime among `n` and every second number after it, below a
bound, for which the predecessor is prime to `exponent`. -/
def searchFrom (rng : Entropy) (bound exponent n : Nat) : (tries : Nat) → Option Nat
  | 0 => none
  | tries + 1 =>
      if bound ≤ n then none
      else if Nat.gcd (n - 1) exponent = 1 ∧ isProbable rng n then some n
      else searchFrom rng bound exponent (n + 2) tries

/-- A probable prime of exactly `bits` bits, the two highest of which are set, for
which the predecessor is prime to `exponent`: the first one after a random number. -/
def random? (rng : Entropy) (bits exponent : Nat) : Option Nat :=
  let raw := Bytes.toNat ((rng.fork 0).take ((bits + 7) / 8)) % 2 ^ bits
  searchFrom (rng.fork 1) (2 ^ bits) exponent (raw ||| (3 * 2 ^ (bits - 2)) ||| 1) (100 * bits)

end SealedToken.Prime
