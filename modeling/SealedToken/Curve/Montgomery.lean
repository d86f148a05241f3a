import SealedToken.Arithmetic.Modular
import SealedToken.Bytes.Number

/-!
Key agreement on the curve y² = x³ + 486662x² + x over the field of 2²⁵⁵ − 19
elements, by the first coordinate alone. Numbers are written least significant
byte first.
-/

namespace SealedToken.X25519

def p : Nat := 2 ^ 255 - 19

def sub (u v : Nat) : Nat := (u + p - v) % p

/-- The scalar that a secret stands for: a multiple of the cofactor whose highest
bit is fixed. -/
def scalar (secret : ByteArray) : Nat :=
  let n := Bytes.toNatLittle secret % 2 ^ 254
  n - n % 8 + 2 ^ 254

/-- Two consecutive multiples of a point, as quotients of coordinates. -/
structure Ladder where
  x2 : Nat
  z2 : Nat
  x3 : Nat
  z3 : Nat

def Ladder.swap (l : Ladder) : Ladder := ⟨l.x3, l.z3, l.x2, l.z2⟩

/-- Double the first multiple and add the second to it. -/
def Ladder.step (u : Nat) (l : Ladder) : Ladder :=
  let a := l.x2 + l.z2
  let b := sub l.x2 l.z2
  let aa := a * a % p
  let bb := b * b % p
  let e := sub aa bb
  let da := sub l.x3 l.z3 * a % p
  let cb := (l.x3 + l.z3) * b % p
  let sum := da + cb
  let difference := sub da cb
  ⟨aa * bb % p, e * (aa + 121665 * e) % p, sum * sum % p, u * (difference * difference % p) % p⟩

/-- Go on with the lowest `bits` bits of a factor, the highest of them first. -/
def Ladder.climb (u factor : Nat) (l : Ladder) : (bits : Nat) → Ladder
  | 0 => l
  | bits + 1 =>
      climb u factor
        (if factor.testBit bits then (l.swap.step u).swap else l.step u) bits

/-- The coordinate of the multiple of a point with coordinate `u`. -/
def times (factor u : Nat) : Nat :=
  let l := Ladder.climb u factor ⟨1, 0, u, 1⟩ 255
  l.x2 * Modular.pow p l.z2 (p - 2) % p

/-- The coordinate of the base point. -/
def base : Nat := 9

def publicKey (secret : ByteArray) : ByteArray :=
  Bytes.ofNatLittle 32 (times (scalar secret) base)

/-- The common secret with a peer, `none` when it is zero. The highest bit of the
peer's coordinate does not count. -/
def agree? (secret peer : ByteArray) : Option ByteArray :=
  let shared := times (scalar secret) (Bytes.toNatLittle peer % 2 ^ 255 % p)
  if shared = 0 then none else some (Bytes.ofNatLittle 32 shared)

end SealedToken.X25519
