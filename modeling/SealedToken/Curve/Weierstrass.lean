import SealedToken.Arithmetic.Modular
import SealedToken.Bytes.Number
import SealedToken.Entropy
import SealedToken.Key.Curve

/-!
The curves y² = x³ + ax + b over a prime field, with points in Jacobian
coordinates: the triple X, Y, Z stands for the point (X/Z², Y/Z³), and Z = 0 for
the neutral point.
-/

namespace SealedToken.Weierstrass

/-- A curve with a base point (`gx`, `gy`) of prime order `order`. -/
structure Params where
  p : Nat
  a : Nat
  b : Nat
  gx : Nat
  gy : Nat
  order : Nat

def p256 : Params where
  p := 0xffffffff00000001000000000000000000000000ffffffffffffffffffffffff
  a := 0xffffffff00000001000000000000000000000000fffffffffffffffffffffffc
  b := 0x5ac635d8aa3a93e7b3ebbd55769886bc651d06b0cc53b0f63bce3c3e27d2604b
  gx := 0x6b17d1f2e12c4247f8bce6e563a440f277037d812deb33a0f4a13945d898c296
  gy := 0x4fe342e2fe1a7f9b8ee7eb4a7c0f9e162bce33576b315ececbb6406837bf51f5
  order := 0xffffffff00000000ffffffffffffffffbce6faada7179e84f3b9cac2fc632551

def p384 : Params where
  p := 0xfffffffffffffffffffffffffffffffffffffffffffffffffffffffffffffffeffffffff0000000000000000ffffffff
  a := 0xfffffffffffffffffffffffffffffffffffffffffffffffffffffffffffffffeffffffff0000000000000000fffffffc
  b := 0xb3312fa7e23ee7e4988e056be3f82d19181d9c6efe8141120314088f5013875ac656398d8a2ed19d2a85c8edd3ec2aef
  gx := 0xaa87ca22be8b05378eb1c71ef320ad746e1d3b628ba79b9859f741e082542a385502f25dbf55296c3a545e3872760ab7
  gy := 0x3617de4a96262c6f5d9e98bf9292dc29f8f41dbd289a147ce9da3113b5f0b8c00a60b1ce1d7e819d7a431d7c90ea0e5f
  order := 0xffffffffffffffffffffffffffffffffffffffffffffffffc7634d81f4372ddf581a0db248b0a77aecec196accc52973

def p521 : Params where
  p := 2 ^ 521 - 1
  a := 2 ^ 521 - 4
  b := 0x0051953eb9618e1c9a1f929a21a0b68540eea2da725b99b315f3b8b489918ef109e156193951ec7e937b1652c0bd3bb1bf073573df883d2c34f1ef451fd46b503f00
  gx := 0x00c6858e06b70404e9cd9e3ecb662395b4429c648139053fb521f828af606b4d3dbaa14b5e77efe75928fe1dc127a2ffa8de3348b3c1856a429bf97e7e31c2e5bd66
  gy := 0x011839296a789a3bc0045c8a5fb42c7d1bd998f54449579b446817afbd17273e662c97ee72995ef42640c550b9013fad0761353c7086a272c24088be94769fd16650
  order := 0x01fffffffffffffffffffffffffffffffffffffffffffffffffffffffffffffffffa51868783bf2f966b7fcc0148f709a5d03bb5c9b8899c47aebb6fb71e91386409

def secp256k1 : Params where
  p := 0xfffffffffffffffffffffffffffffffffffffffffffffffffffffffefffffc2f
  a := 0
  b := 7
  gx := 0x79be667ef9dcbbac55a06295ce870b07029bfcdb2dce28d959f2815b16f81798
  gy := 0x483ada7726a3c4655da4fbfc0e1108a8fd17b448a68554199c47d08ffb10d4b8
  order := 0xfffffffffffffffffffffffffffffffebaaedce6af48a03bbfd25e8cd0364141

/-- A point in Jacobian coordinates. -/
structure Point where
  x : Nat
  y : Nat
  z : Nat

def Point.neutral : Point := ⟨1, 1, 0⟩

namespace Params

/-- The difference of two reduced numbers. -/
def sub (c : Params) (u v : Nat) : Nat := (u + c.p - v) % c.p

def base (c : Params) : Point := ⟨c.gx, c.gy, 1⟩

/-- The other end of the tangent, mirrored. -/
def double (c : Params) (t : Point) : Point :=
  if t.z = 0 ∨ t.y = 0 then .neutral
  else
    let yy := t.y * t.y % c.p
    let s := 4 * t.x * yy % c.p
    let zz := t.z * t.z % c.p
    let m := (3 * t.x * t.x + c.a * (zz * zz % c.p)) % c.p
    let x := c.sub (m * m % c.p) (2 * s % c.p)
    ⟨x, c.sub (m * c.sub s x % c.p) (8 * yy * yy % c.p), 2 * t.y * t.z % c.p⟩

def add (c : Params) (t u : Point) : Point :=
  if t.z = 0 then u
  else if u.z = 0 then t
  else
    let tzz := t.z * t.z % c.p
    let uzz := u.z * u.z % c.p
    let tx := t.x * uzz % c.p
    let ux := u.x * tzz % c.p
    let ty := t.y * (uzz * u.z % c.p) % c.p
    let uy := u.y * (tzz * t.z % c.p) % c.p
    if tx = ux then
      if ty = uy then c.double t else .neutral
    else
      let h := c.sub ux tx
      let r := c.sub uy ty
      let hh := h * h % c.p
      let hhh := hh * h % c.p
      let v := tx * hh % c.p
      let x := c.sub (r * r % c.p) ((hhh + 2 * v) % c.p)
      ⟨x, c.sub (r * c.sub v x % c.p) (ty * hhh % c.p), h * (t.z * u.z % c.p) % c.p⟩

/-- Go on with the lowest `bits` bits of a factor, the highest of them first. -/
def timesFrom (c : Params) (t : Point) (factor : Nat) (acc : Point) : (bits : Nat) → Point
  | 0 => acc
  | bits + 1 =>
      let twice := c.double acc
      c.timesFrom t factor (if factor.testBit bits then c.add twice t else twice) bits

/-- The multiple of a point. -/
def times (c : Params) (factor : Nat) (t : Point) : Point :=
  c.timesFrom t factor .neutral (factor.log2 + 1)

/-- The two coordinates of a point, none of the neutral one. -/
def affine? (c : Params) (t : Point) : Option (Nat × Nat) := do
  if t.z = 0 then none
  let i ← Modular.inverse? c.p t.z
  let ii := i * i % c.p
  some (t.x * ii % c.p, t.y * (ii * i % c.p) % c.p)

/-- Are these the coordinates of a point of the curve? -/
def contains (c : Params) (x y : Nat) : Bool :=
  x < c.p && y < c.p && y * y % c.p == (x * x * x + c.a * x + c.b) % c.p

/-- A point of the curve in its two coordinates. -/
def point? (c : Params) (x y : Nat) : Option Point :=
  if c.contains x y then some ⟨x, y, 1⟩ else none

/-- A private scalar is positive and below the order. -/
def scalar? (c : Params) (d : Nat) : Option Nat :=
  if 0 < d ∧ d < c.order then some d else none

/-- A scalar from more random bits than it has itself. -/
def randomScalar (c : Params) (rng : Entropy) : Nat :=
  Bytes.toNat (rng.take ((c.order.log2 + 1) / 8 + 17)) % (c.order - 1) + 1

end Params

end SealedToken.Weierstrass

namespace SealedToken

def EllipticCurve.params : EllipticCurve → Weierstrass.Params
  | .p256 => Weierstrass.p256
  | .p384 => Weierstrass.p384
  | .p521 => Weierstrass.p521
  | .secp256k1 => Weierstrass.secp256k1

end SealedToken
