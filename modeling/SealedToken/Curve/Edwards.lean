import SealedToken.Arithmetic.Modular
import SealedToken.Bytes.Number
import SealedToken.Digest.Sha2

/-!
Signatures on the curve −x² + y² = 1 + dx²y² over the field of 2²⁵⁵ − 19
elements. Points are kept in extended coordinates X, Y, Z, T with x = X/Z,
y = Y/Z and T = XY/Z. A point is written as its second coordinate, least
significant byte first, with the parity of the first in the highest bit.
-/

namespace SealedToken.Ed25519

def p : Nat := 2 ^ 255 - 19

/-- The order of the base point. -/
def order : Nat := 2 ^ 252 + 27742317777372353535851937790883648493

/-- The constant of the curve, −121665/121666. -/
def d : Nat := 37095705934669439343138083508754565189542113879843219016388785533085940283555

/-- A square root of −1. -/
def rootOfMinusOne : Nat :=
  19681161376707505956807079304988542015446066515923890162744021073123829784752

structure Point where
  x : Nat
  y : Nat
  z : Nat
  t : Nat

def Point.neutral : Point := ⟨0, 1, 1, 0⟩

def sub (u v : Nat) : Nat := (u + p - v) % p

/-- The sum of two points; the formula has no exceptions on this curve. -/
def Point.add (s u : Point) : Point :=
  let a := sub s.y s.x * sub u.y u.x % p
  let b := (s.y + s.x) * (u.y + u.x) % p
  let c := 2 * s.t * (u.t * d % p) % p
  let dd := 2 * s.z * u.z % p
  let e := sub b a
  let f := sub dd c
  let g := (dd + c) % p
  let h := (b + a) % p
  ⟨e * f % p, g * h % p, f * g % p, e * h % p⟩

/-- Go on with the lowest `bits` bits of a factor, the highest of them first. -/
def timesFrom (u : Point) (factor : Nat) (acc : Point) : (bits : Nat) → Point
  | 0 => acc
  | bits + 1 =>
      let twice := acc.add acc
      timesFrom u factor (if factor.testBit bits then twice.add u else twice) bits

def Point.times (factor : Nat) (u : Point) : Point :=
  timesFrom u factor .neutral (factor.log2 + 1)

def base : Point :=
  let x := 15112221349535400772501151409588531511454012693041857206046113283949847762202
  let y := 46316835694926478169428394003475163141307993866256225615783033603165251855960
  ⟨x, y, 1, x * y % p⟩

/-- The negative of a point. -/
def Point.neg (u : Point) : Point := ⟨sub 0 u.x, u.y, u.z, sub 0 u.t⟩

def Point.encode (u : Point) : ByteArray :=
  let i := Modular.pow p u.z (p - 2)
  Bytes.ofNatLittle 32 (u.y * i % p + u.x * i % p % 2 * 2 ^ 255)

/-- The first coordinate of that parity at the second coordinate `y`; zero is
even. -/
def recover? (y parity : Nat) : Option Nat :=
  let u := sub (y * y % p) 1
  let v := (d * (y * y % p) + 1) % p
  let vvv := v * v % p * v % p
  let x := u * vvv % p * Modular.pow p (u * (vvv * vvv % p * v % p) % p) ((p - 5) / 8) % p
  let vxx := v * (x * x % p) % p
  let root :=
    if vxx = u then some x
    else if vxx = sub 0 u then some (x * rootOfMinusOne % p)
    else none
  root.bind fun x =>
    if x % 2 = parity then some x else if x = 0 then none else some (sub 0 x)

/-- Read a point. The second coordinate has to be reduced. -/
def Point.decode? (bytes : ByteArray) : Option Point := do
  let n := Bytes.toNatLittle bytes
  let y := n % 2 ^ 255
  if p ≤ y then none
  let x ← recover? y (n / 2 ^ 255)
  some ⟨x, y, 1, x * y % p⟩

/-- The scalar of a seed, and the bytes that randomise its signatures. -/
def expand (seed : ByteArray) : Nat × ByteArray :=
  let digest := ShaSize.sha512.digest seed
  let n := Bytes.toNatLittle (digest.extract 0 32) % 2 ^ 254
  (n - n % 8 + 2 ^ 254, digest.extract 32 64)

def publicKey (seed : ByteArray) : ByteArray :=
  (base.times (expand seed).1).encode

/-- A digest as a scalar. -/
def digestScalar (bytes : ByteArray) : Nat :=
  Bytes.toNatLittle (ShaSize.sha512.digest bytes) % order

/-- Sign with a seed, `none` when the public key is not the one of the seed. -/
def sign? (seed key message : ByteArray) : Option ByteArray :=
  let (a, randomiser) := expand seed
  if (base.times a).encode ≠ key then none
  else
    let r := digestScalar (randomiser ++ message)
    let point := (base.times r).encode
    let k := digestScalar (point ++ key ++ message)
    some (point ++ Bytes.ofNatLittle 32 ((r + k * a) % order))

/-- Compare the point of a signature with the one that its scalar and the key
give; the scalar has to be reduced. -/
def verify (key message signature : ByteArray) : Bool :=
  let point := signature.extract 0 32
  let s := Bytes.toNatLittle (signature.extract 32 64)
  match Point.decode? key with
  | some a =>
      let k := digestScalar (point ++ key ++ message)
      signature.size == 64 && key.size == 32 && s < order &&
        ((base.times s).add (a.neg.times k)).encode == point
  | none => false

end SealedToken.Ed25519
